import Mathlib.Data.List.Sort
import Mathlib.Data.List.TakeWhile

/-!
# Tables sorted by a key

A key-value store keeps the rows of a table sorted by their keys. A row is put
in its place and found again by its key. Rows whose keys increase are cut by any
bound into the rows below it and the rows above it.
-/

namespace Table

universe u v

variable {α : Type u} {κ : Type v} [LinearOrder κ] (key : α → κ)

/-- The keys increase. -/
def Sorted (rows : List α) : Prop := rows.Pairwise fun x y => key x < key y

instance (rows : List α) : Decidable (Sorted key rows) :=
  inferInstanceAs (Decidable (rows.Pairwise fun x y => key x < key y))

def put (x : α) (rows : List α) : List α :=
  rows.takeWhile (fun y => key y < key x) ++ x :: rows.dropWhile fun y => key y ≤ key x

def get (k : κ) (rows : List α) : Option α := rows.find? fun y => key y = k

/-- The first row from `k` on. -/
def seek (k : κ) (rows : List α) : Option α := rows.find? fun y => k ≤ key y

def delete (k : κ) (rows : List α) : List α := rows.filter fun y => key y ≠ k

variable {key} {x : α} {rows below above : List α} {k : κ}

theorem put_of_lt (h : ∀ y ∈ rows, key y < key x) : put key x rows = rows ++ [x] := by
  unfold put
  rw [List.takeWhile_eq_self_iff.mpr fun y hy => decide_eq_true (h y hy)]
  rw [List.dropWhile_eq_nil_iff.mpr fun y hy => decide_eq_true (le_of_lt (h y hy))]

theorem Sorted.append_singleton (hs : Sorted key rows) (h : ∀ y ∈ rows, key y < key x) :
    Sorted key (rows ++ [x]) := by
  apply List.pairwise_append.mpr
  refine ⟨hs, List.pairwise_singleton _ _, fun y hy z hz => ?_⟩
  rw [List.mem_singleton.mp hz]
  exact h y hy

theorem Sorted.filter (hs : Sorted key rows) (p : α → Bool) : Sorted key (rows.filter p) :=
  List.Pairwise.filter p hs

theorem Sorted.inj (hs : Sorted key rows) {y : α} (hx : x ∈ rows) (hy : y ∈ rows) (h : key x = key y) : x = y := by
  induction rows with
  | nil => cases hx
  | cons z rows ih =>
    obtain ⟨hz, hs⟩ := List.pairwise_cons.mp hs
    rcases List.mem_cons.mp hx with hxz | hx <;> rcases List.mem_cons.mp hy with hyz | hy
    · rw [hxz, hyz]
    · exact absurd (hxz ▸ h) (ne_of_lt (hz y hy))
    · exact absurd (hyz ▸ h) (ne_of_gt (hz x hx))
    · exact ih hs hx hy

theorem Sorted.get_of_mem (hs : Sorted key rows) (hx : x ∈ rows) : get key (key x) rows = some x := by
  cases hg : get key (key x) rows with
  | none =>
    have := List.find?_eq_none.mp hg x hx
    simp at this
  | some y =>
    have hk : key y = key x := by simpa [get] using List.find?_some hg
    rw [hs.inj (List.mem_of_find?_eq_some hg) hx hk]

theorem Sorted.delete (hs : Sorted key (below ++ x :: above)) :
    delete key (key x) (below ++ x :: above) = below ++ above := by
  obtain ⟨-, hx, hb⟩ := List.pairwise_append.mp hs
  obtain ⟨ha, -⟩ := List.pairwise_cons.mp hx
  have hbelow : below.filter (fun y => key y ≠ key x) = below :=
    List.filter_eq_self.mpr fun y hy => decide_eq_true (ne_of_lt (hb y hy x (List.mem_cons_self ..)))
  have habove : above.filter (fun y => key y ≠ key x) = above :=
    List.filter_eq_self.mpr fun y hy => decide_eq_true (ne_of_gt (ha y hy))
  unfold Table.delete
  rw [List.filter_append, hbelow, List.filter_cons, if_neg (by simp), habove]

theorem mem_delete {y : α} : y ∈ delete key k rows ↔ y ∈ rows ∧ key y ≠ k := by
  unfold delete
  rw [List.mem_filter, decide_eq_true_eq]

/-! ## Cut at a bound -/

/-- What holds from some key on cuts the rows in two. -/
theorem Sorted.cut (hs : Sorted key rows) {p : κ → Bool} (hp : ∀ ⦃i j⦄, i < j → p i → p j) :
    (rows.takeWhile fun y => !p (key y)) = (rows.filter fun y => !p (key y)) ∧
      (rows.dropWhile fun y => !p (key y)) = rows.filter fun y => p (key y) := by
  induction rows with
  | nil => exact ⟨rfl, rfl⟩
  | cons x rows ih =>
    obtain ⟨hx, hs⟩ := List.pairwise_cons.mp hs
    obtain ⟨htake, hdrop⟩ := ih hs
    by_cases h : p (key x)
    · have hall : ∀ y ∈ rows, p (key y) := fun y hy => hp (hx y hy) h
      have hnone : rows.filter (fun y => !p (key y)) = [] := List.filter_eq_nil_iff.mpr fun y hy => by simp [hall y hy]
      simp [h, hnone, List.filter_eq_self.mpr hall]
    · simp [h, htake, hdrop]

theorem Sorted.mem_put (hs : Sorted key rows) {y : α} : y ∈ put key x rows ↔ y = x ∨ y ∈ rows ∧ key y ≠ key x := by
  have htake := (hs.cut (p := fun k => key x ≤ k) fun i j h hi => by simp at *; exact hi.trans h.le).1
  have hdrop := (hs.cut (p := fun k => key x < k) fun i j h hi => by simp at *; exact hi.trans h).2
  simp only [← decide_not, not_le, not_lt] at htake hdrop
  simp only [put, htake, hdrop, List.mem_append, List.mem_cons, List.mem_filter, decide_eq_true_eq, ne_eq, ne_iff_lt_or_gt]
  tauto

theorem Sorted.put (hs : Sorted key rows) (x : α) : Sorted key (put key x rows) := by
  have htake := (hs.cut (p := fun k => key x ≤ k) fun i j h hi => by simp at *; exact hi.trans h.le).1
  have hdrop := (hs.cut (p := fun k => key x < k) fun i j h hi => by simp at *; exact hi.trans h).2
  simp only [← decide_not, not_le, not_lt] at htake hdrop
  unfold Table.put Sorted
  rw [htake, hdrop, List.pairwise_append, List.pairwise_cons]
  refine ⟨hs.filter _, ⟨fun y hy => ?_, hs.filter _⟩, fun y hy z hz => ?_⟩
  · simpa using (List.mem_filter.mp hy).2
  · have hlt : key y < key x := by simpa using (List.mem_filter.mp hy).2
    rcases List.mem_cons.mp hz with rfl | hz
    · exact hlt
    · exact hlt.trans (by simpa using (List.mem_filter.mp hz).2)

theorem seek_append (hb : ∀ y ∈ below, key y < k) (ha : ∀ y ∈ above, k ≤ key y) :
    seek key k (below ++ above) = above.head? := by
  unfold seek
  rw [List.find?_append, List.find?_eq_none.mpr fun y hy => by simpa using hb y hy, Option.none_or]
  cases above with
  | nil => rfl
  | cons y above =>
    have hy := ha y (List.mem_cons_self ..)
    simp [hy]

theorem takeWhile_append (hb : ∀ y ∈ below, key y ≤ k) (ha : ∀ y ∈ above, k < key y) :
    (below ++ above).takeWhile (fun y => key y ≤ k) = below := by
  rw [List.takeWhile_append_of_pos fun y hy => decide_eq_true (hb y hy)]
  cases above with
  | nil => simp
  | cons y above =>
    have hy := ha y (List.mem_cons_self ..)
    rw [List.takeWhile_cons_of_neg (by simpa using hy), List.append_nil]

/-- Sorted rows are the rows up to a bound followed by the rows above it. -/
theorem Sorted.split (hs : Sorted key rows) (k : κ) :
    rows = rows.filter (fun y => key y ≤ k) ++ rows.filter fun y => k < key y := by
  induction rows with
  | nil => rfl
  | cons x rows ih =>
    obtain ⟨hx, hs⟩ := List.pairwise_cons.mp hs
    by_cases h : key x ≤ k
    · rw [List.filter_cons_of_pos (by simpa using h), List.filter_cons_of_neg (by simpa using h), List.cons_append,
        ← ih hs]
    · have hnone : ∀ y ∈ rows, ¬key y ≤ k := fun y hy hle => h (le_of_lt (lt_of_lt_of_le (hx y hy) hle))
      have hall : ∀ y ∈ rows, k < key y := fun y hy => not_le.mp (hnone y hy)
      rw [List.filter_cons_of_neg (by simpa using h), List.filter_cons_of_pos (by simpa using h)]
      rw [List.filter_eq_nil_iff.mpr fun y hy => by simpa using hnone y hy, List.nil_append]
      rw [List.filter_eq_self.mpr fun y hy => by simpa using hall y hy]

end Table
