import Mathlib

/-!
# Codes that keep an order

Words of a code are written one after another. `Before x y` says that two words
first differ where `x` is the smaller, so whatever follows them they compare
alike. A code whose words are so ordered is free of prefixes, and keys composed
of such words are ordered by the first component in which they differ.
-/

namespace Codes

variable {α β : Type}

inductive Before [LT β] : List β → List β → Prop where
  | head {b c : β} (h : b < c) (x y : List β) : Before (b :: x) (c :: y)
  | tail (b : β) {x y : List β} (h : Before x y) : Before (b :: x) (b :: y)

namespace Before

section
variable [LT β] {x y : List β}

theorem append (h : Before x y) (r r' : List β) : Before (x ++ r) (y ++ r') := by
  induction h with
  | head h x y => exact .head h (x ++ r) (y ++ r')
  | tail b _ ih => exact .tail b ih

theorem after (p : List β) (h : Before x y) : Before (p ++ x) (p ++ y) := by
  induction p with
  | nil => exact h
  | cons b p ih => exact .tail b ih

theorem lt (h : Before x y) : x < y := by
  induction h with
  | head h x y => exact List.Lex.rel h
  | tail b _ ih => exact List.Lex.cons ih

end

end Before

/-- The words of greater values come later. -/
def Keeps [LT α] [LT β] (word : α → List β) : Prop := ∀ ⦃a b⦄, a < b → Before (word a) (word b)

/-! ## The order of keys -/

section
variable [LinearOrder α] [LinearOrder β] {word : α → List β} {a b : α}

theorem append_left_lt_iff (p r r' : List β) : p ++ r < p ++ r' ↔ r < r' := by
  induction p with
  | nil => rfl
  | cons b p ih => simp [ih]

/-- Keys are compared by their first words, and by what follows when these are equal. -/
theorem append_lt_append_iff (h : a < b → Before (word a) (word b)) (h' : b < a → Before (word b) (word a))
    (r r' : List β) : word a ++ r < word b ++ r' ↔ a < b ∨ a = b ∧ r < r' := by
  rcases lt_trichotomy a b with hlt | rfl | hgt
  · exact ⟨fun _ => Or.inl hlt, fun _ => ((h hlt).append r r').lt⟩
  · simp [append_left_lt_iff]
  · have hback := ((h' hgt).append r' r).lt
    refine ⟨fun hlt => absurd (hlt.trans hback) (lt_irrefl _), ?_⟩
    rintro (hlt | ⟨rfl, -⟩)
    · exact absurd (hlt.trans hgt) (lt_irrefl a)
    · exact absurd hgt (lt_irrefl a)

theorem not_lt_of_extends {x y : List β} (h : x <+: y) : ¬y < x := by
  obtain ⟨r, rfl⟩ := h
  induction x with
  | nil => exact List.not_lt_nil _
  | cons b x ih =>
    rw [List.cons_append, List.cons_lt_cons_iff, not_or]
    exact ⟨lt_irrefl b, fun hlt => ih hlt.2⟩

/-- What lies between two keys with a prefix has it too. -/
theorem prefix_of_between {p x y z : List β} (hx : ¬z < p ++ x) (hy : ¬p ++ y < z) : p <+: z := by
  induction p generalizing z with
  | nil => exact List.nil_prefix
  | cons b p ih =>
    cases z with
    | nil => exact absurd (List.nil_lt_cons b (p ++ x)) hx
    | cons c z =>
      rw [List.cons_append, List.cons_lt_cons_iff, not_or] at hx hy
      obtain rfl : b = c := le_antisymm (not_lt.mp hx.1) (not_lt.mp hy.1)
      rw [List.prefix_cons_inj]
      apply ih
      · exact fun hlt => hx.2 ⟨rfl, hlt⟩
      · exact fun hlt => hy.2 ⟨rfl, hlt⟩

/-- Sorted keys are those below the ones with the prefix, these, and those above. -/
theorem split_at {ι : Type} {key : ι → List β} {rows : List ι} (hs : rows.Pairwise fun r r' => key r < key r') (p : List β) :
    ∃ below above, rows = below ++ rows.filter (fun r => p <+: key r) ++ above ∧
      (∀ r ∈ below, key r < p) ∧ ∀ r ∈ above, ∀ x, p ++ x < key r := by
  induction rows with
  | nil => exact ⟨[], [], rfl, (fun _ h => by cases h), fun _ h => by cases h⟩
  | cons r rows ih =>
    obtain ⟨hr, hs⟩ := List.pairwise_cons.mp hs
    obtain ⟨below, above, hrows, hbelow, habove⟩ := ih hs
    by_cases hp : p <+: key r
    · obtain ⟨x, hx⟩ := hp
      have hnil : below = [] := by
        apply List.eq_nil_iff_forall_not_mem.mpr
        intro r' hr'
        have hmem : r' ∈ rows := hrows ▸ List.mem_append_left _ (List.mem_append_left _ hr')
        have hlt : p ++ x < p := hx ▸ (hr r' hmem).trans (hbelow r' hr')
        exact absurd hlt (not_lt_of_extends (List.prefix_append p x))
      refine ⟨[], above, ?_, (fun _ h => by cases h), habove⟩
      rw [List.filter_cons, if_pos (decide_eq_true ⟨x, hx⟩)]
      rw [hnil] at hrows
      exact congrArg (r :: ·) hrows
    · rw [List.filter_cons, if_neg (by rw [decide_eq_true_iff]; exact hp)]
      by_cases hlt : key r < p
      · refine ⟨r :: below, above, congrArg (r :: ·) hrows, fun r' hr' => ?_, habove⟩
        rcases List.mem_cons.mp hr' with rfl | hr'
        · exact hlt
        · exact hbelow r' hr'
      · have hafter : ∀ x, p ++ x < key r := by
          intro x
          by_contra hx
          exact hp (prefix_of_between (List.append_nil p ▸ hlt) hx)
        have hall : ∀ r' ∈ rows, ∀ x, p ++ x < key r' := fun r' hr' x => (hafter x).trans (hr r' hr')
        refine ⟨[], r :: rows, ?_, (fun _ h => by cases h), fun r' hr' => ?_⟩
        · rw [List.filter_eq_nil_iff.mpr]
          · rfl
          · intro r' hr' hpre
            obtain ⟨x, hx⟩ := of_decide_eq_true hpre
            exact absurd (hall r' hr' x) (hx ▸ lt_irrefl _)
        · rcases List.mem_cons.mp hr' with rfl | hr'
          · exact hafter
          · exact hall r' hr'

/-- The keys from a prefix on are those that have it and then others. -/
theorem filter_from {ι : Type} {key : ι → List β} {rows : List ι} (hs : rows.Pairwise fun r r' => key r < key r') (p : List β) :
    ∃ above, rows.filter (fun r => p ≤ key r) = rows.filter (fun r => p <+: key r) ++ above ∧
      (∀ r ∈ above, r ∈ rows) ∧ ∀ r ∈ above, ¬p <+: key r := by
  obtain ⟨below, above, hrows, hbelow, habove⟩ := split_at hs p
  refine ⟨above, ?_, fun r hr => hrows ▸ List.mem_append_right _ hr, fun r hr => ?_⟩
  · have hnone : below.filter (fun r => p ≤ key r) = [] :=
      List.filter_eq_nil_iff.mpr fun r hr => by simpa using hbelow r hr
    have hall : above.filter (fun r => p ≤ key r) = above := by
      refine List.filter_eq_self.mpr fun r hr => ?_
      have hlt := habove r hr []
      rw [List.append_nil] at hlt
      simpa using hlt.le
    have hmine : (rows.filter fun r => p <+: key r).filter (fun r => p ≤ key r) = rows.filter fun r => p <+: key r := by
      refine List.filter_eq_self.mpr fun r hr => ?_
      have hp : p <+: key r := by simpa using (List.mem_filter.mp hr).2
      exact decide_eq_true (not_lt.mp (not_lt_of_extends hp))
    refine (congrArg (List.filter fun r => decide (p ≤ key r)) hrows).trans ?_
    rw [List.filter_append, List.filter_append, hnone, hall, hmine, List.nil_append]
  · rintro ⟨x, hx⟩
    exact absurd (habove r hr x) (hx ▸ lt_irrefl _)

end

end Codes
