import ShoppingList.Lib.Table

/-!
# Sorted maps

The rows of a sorted map are keys and values, in the order of the keys. A map is
known by what it has at each key. Its rows from some key on are those that an
iterator comes by.
-/

universe u v

structure SortedMap (κ : Type u) (V : Type v) [LinearOrder κ] where
  rows : List (κ × V)
  sorted : Table.Sorted Prod.fst rows

namespace SortedMap

variable {κ : Type u} {V : Type v} [LinearOrder κ]

def empty : SortedMap κ V := ⟨[], .nil⟩

def find (m : SortedMap κ V) (k : κ) : Option V := (Table.get Prod.fst k m.rows).map (·.2)

def insert (m : SortedMap κ V) (row : κ × V) : SortedMap κ V := ⟨Table.put Prod.fst row m.rows, m.sorted.put row⟩

def erase (m : SortedMap κ V) (k : κ) : SortedMap κ V := ⟨Table.delete Prod.fst k m.rows, m.sorted.filter _⟩

/-- The rows whose keys have `p`, which must hold from some key on. -/
def dropTo (m : SortedMap κ V) (p : κ → Bool) : List (κ × V) := m.rows.dropWhile fun row => !p row.1

variable {m m' : SortedMap κ V} {k k' : κ} {v : V} {row : κ × V}

theorem mem_rows : (k, v) ∈ m.rows ↔ m.find k = some v := by
  unfold find
  constructor
  · intro h
    rw [show k = (k, v).1 from rfl, m.sorted.get_of_mem h]
    rfl
  · intro h
    obtain ⟨⟨k', v'⟩, hget, rfl⟩ := Option.map_eq_some_iff.mp h
    have hk : k' = k := by simpa [Table.get] using List.find?_some hget
    exact hk ▸ List.mem_of_find?_eq_some hget

theorem find_eq_none : m.find k = none ↔ ∀ row ∈ m.rows, row.1 ≠ k := by
  constructor
  · rintro h ⟨k', v⟩ hrow rfl
    rw [mem_rows.mp hrow] at h
    cases h
  · intro h
    cases hf : m.find k with
    | none => rfl
    | some v => exact absurd rfl (h (k, v) (mem_rows.mpr hf))

theorem ext_find (h : ∀ k, m.find k = m'.find k) : m = m' := by
  obtain ⟨rows, hs⟩ := m
  obtain ⟨rows', hs'⟩ := m'
  have hrows : rows = rows' := by
    apply hs.eq_of_mem_iff hs'
    rintro ⟨k, v⟩
    have hm := mem_rows (m := ⟨rows, hs⟩) (k := k) (v := v)
    have hm' := mem_rows (m := ⟨rows', hs'⟩) (k := k) (v := v)
    rw [hm, hm', h]
  subst hrows
  rfl

theorem find_empty : (empty : SortedMap κ V).find k = none := rfl

@[simp] theorem find_insert_self : (m.insert (k, v)).find k = some v := by
  apply mem_rows.mp
  exact m.sorted.mem_put.mpr (Or.inl rfl)

@[simp] theorem find_insert_ne (h : k' ≠ k) : (m.insert (k, v)).find k' = m.find k' := by
  apply Option.ext
  intro w
  show (m.insert (k, v)).find k' = some w ↔ m.find k' = some w
  rw [← mem_rows, ← mem_rows]
  show (k', w) ∈ Table.put Prod.fst (k, v) m.rows ↔ _
  rw [m.sorted.mem_put]
  simp [h]

@[simp] theorem find_erase_self : (m.erase k).find k = none := by
  apply find_eq_none.mpr
  intro row hrow
  exact (Table.mem_delete.mp hrow).2

@[simp] theorem find_erase_ne (h : k' ≠ k) : (m.erase k).find k' = m.find k' := by
  apply Option.ext
  intro w
  show (m.erase k).find k' = some w ↔ m.find k' = some w
  rw [← mem_rows, ← mem_rows]
  show (k', w) ∈ Table.delete Prod.fst k m.rows ↔ _
  rw [Table.mem_delete]
  simp [h]

/-! ## The first row with a property -/

variable {p : κ → Bool}

/-- The property holds from some key on. -/
abbrev Upward (p : κ → Bool) : Prop := ∀ ⦃i j⦄, i < j → p i → p j

theorem upward_le (k : κ) : Upward fun key : κ => decide (k ≤ key) := by
  intro i j h hi
  simp at *
  exact hi.trans h.le

theorem upward_lt (k : κ) : Upward fun key : κ => decide (k < key) := by
  intro i j h hi
  simp at *
  exact hi.trans h

theorem dropTo_eq (m : SortedMap κ V) (hp : Upward p) : m.dropTo p = m.rows.filter fun row => p row.1 :=
  (m.sorted.cut hp).2

/-- The first row is the one with the least key. -/
structure First (p : κ → Bool) (rows : List (κ × V)) (row : κ × V) : Prop where
  mem : row ∈ rows
  here : p row.1
  least : ∀ row' ∈ rows, p row'.1 → row.1 ≤ row'.1

theorem find?_eq_some (h : First p m.rows row) : m.rows.find? (fun row => p row.1) = some row := by
  obtain ⟨k, v⟩ := row
  cases hf : m.rows.find? fun row => p row.1 with
  | none => exact absurd h.here (List.find?_eq_none.mp hf _ h.mem)
  | some first =>
    have hmem := List.mem_of_find?_eq_some hf
    have hhere : p first.1 := by simpa using List.find?_some hf
    rcases lt_or_eq_of_le (h.least first hmem hhere) with hlt | he
    · obtain ⟨below, above, hrows, hbelow⟩ := (List.find?_eq_some_iff_append.mp hf).2
      have hsorted := m.sorted
      rw [hrows] at hsorted
      have hin := h.mem
      rw [hrows] at hin
      rcases List.mem_append.mp hin with hb | ha
      · exact absurd h.here (by simpa using hbelow _ hb)
      · obtain ⟨-, hcons, -⟩ := List.pairwise_append.mp hsorted
        rcases List.mem_cons.mp ha with rfl | ha
        · rfl
        · exact absurd hlt (lt_asymm ((List.pairwise_cons.mp hcons).1 _ ha))
    · rw [m.sorted.inj hmem h.mem he.symm]

theorem first_of_find? (h : m.rows.find? (fun row => p row.1) = some row) : First p m.rows row := by
  obtain ⟨hrow, below, above, hrows, hbelow⟩ := List.find?_eq_some_iff_append.mp h
  refine ⟨List.mem_of_find?_eq_some h, by simpa using hrow, fun row' hr hp => ?_⟩
  have hsorted := m.sorted
  rw [hrows] at hr hsorted
  rcases List.mem_append.mp hr with hb | ha
  · exact absurd hp (by simpa using hbelow _ hb)
  · obtain ⟨-, hcons, -⟩ := List.pairwise_append.mp hsorted
    rcases List.mem_cons.mp ha with rfl | ha
    · exact le_refl _
    · exact ((List.pairwise_cons.mp hcons).1 _ ha).le

/-- The rows with the property are the first of them and those after it. -/
theorem filter_eq_cons (h : First p m.rows row) (hp : Upward p) :
    (m.rows.filter fun row => p row.1) = row :: m.rows.filter fun row' => row.1 < row'.1 := by
  have hafter : ∀ r ∈ m.rows, (decide (row.1 < r.1) = true ↔ p r.1 ∧ r ≠ row) := by
    intro r hr
    rw [decide_eq_true_iff]
    constructor
    · rintro hlt
      exact ⟨hp hlt h.here, fun he => absurd hlt (he ▸ lt_irrefl _)⟩
    · rintro ⟨hrp, hne⟩
      exact lt_of_le_of_ne (h.least r hr hrp) fun he => hne (m.sorted.inj hr h.mem he.symm)
  have hsorted : Table.Sorted Prod.fst (row :: m.rows.filter fun row' => row.1 < row'.1) := by
    apply List.pairwise_cons.mpr
    exact ⟨fun r hr => by simpa using (List.mem_filter.mp hr).2, m.sorted.filter _⟩
  apply (m.sorted.filter fun row => p row.1).eq_of_mem_iff hsorted
  intro r
  rw [List.mem_cons, List.mem_filter, List.mem_filter]
  constructor
  · rintro ⟨hr, hrp⟩
    by_cases he : r = row
    · exact Or.inl he
    · exact Or.inr ⟨hr, (hafter r hr).mpr ⟨hrp, he⟩⟩
  · rintro (rfl | ⟨hr, hlt⟩)
    · exact ⟨h.mem, h.here⟩
    · exact ⟨hr, ((hafter r hr).mp hlt).1⟩

theorem dropWhile_dropWhile {α : Type u} {q q' : α → Bool} {rows : List α} (h : ∀ x ∈ rows, q' x → q x) :
    (rows.dropWhile q').dropWhile q = rows.dropWhile q := by
  induction rows with
  | nil => rfl
  | cons x rows ih =>
    by_cases hx : q' x
    · have hq : q x := h x (List.mem_cons_self ..) hx
      simp [hx, hq, ih fun y hy => h y (List.mem_cons_of_mem _ hy)]
    · simp [hx]

/-- The rows after a key are those from it on, without its own. -/
theorem dropTo_after (m : SortedMap κ V) (k : κ) : m.dropTo (fun key => k < key) =
    match m.dropTo fun key => k ≤ key with
    | [] => []
    | row :: rows => if row.1 = k then rows else row :: rows := by
  have hfrom : ∀ row ∈ m.dropTo fun key => k ≤ key, k ≤ row.1 := by
    rw [m.dropTo_eq (upward_le k)]
    intro row hrow
    simpa using (List.mem_filter.mp hrow).2
  have hsorted : Table.Sorted Prod.fst (m.dropTo fun key => k ≤ key) := m.dropTo_eq (upward_le k) ▸ m.sorted.filter _
  have hdrop : m.dropTo (fun key => k < key) = (m.dropTo fun key => k ≤ key).dropWhile fun row => !(k < row.1) := by
    unfold dropTo
    refine (dropWhile_dropWhile fun row _ hrow => ?_).symm
    simp only [Bool.not_eq_true', decide_eq_false_iff_not, not_le, not_lt] at hrow ⊢
    exact hrow.le
  rw [hdrop]
  generalize m.dropTo (fun key => k ≤ key) = rows at hfrom hsorted
  cases rows with
  | nil => rfl
  | cons row rows =>
    dsimp only
    by_cases hk : row.1 = k
    · rw [if_pos hk, List.dropWhile_cons_of_pos (by simp [hk])]
      cases rows with
      | nil => rfl
      | cons row' rows =>
        have hlt : row.1 < row'.1 := (List.pairwise_cons.mp hsorted).1 row' (List.mem_cons_self ..)
        rw [List.dropWhile_cons_of_neg (by simpa [hk] using hk ▸ hlt)]
    · have hlt : k < row.1 := lt_of_le_of_ne (hfrom row (List.mem_cons_self ..)) (Ne.symm hk)
      rw [if_neg hk, List.dropWhile_cons_of_neg (by simpa using hlt)]

end SortedMap
