import ShoppingList.Firestore.Transaction
import ShoppingList.Lib.Runs

/-!
# Iterators of a transaction

An iterator merges the rows of the database with those that wait in the
transaction. The transaction may change while the iterator stands on a row; its
version tells the iterator to find its place again. However the changes and the
moves are ordered, the iterator goes to the next row that a commit would leave.
-/

namespace ShoppingList.Firestore

/-- `current` is the row the iterator stands on while it is valid. -/
structure Iterator (κ V : Type) where
  dbIter : List (κ × V) := []
  lastVersion : Nat
  mutationsIter : List (κ × V)
  current : Option (κ × V) := none
  isMutation : Bool := false

namespace Iterator

variable {κ V : Type} [LinearOrder κ]

def begin (t : Transaction κ V) : Iterator κ V := { lastVersion := t.version, mutationsIter := t.mutations.rows }

def updateCurrent (it : Iterator κ V) : Iterator κ V :=
  match it.mutationsIter, it.dbIter with
  | [], [] => { it with current := none }
  | [], row :: _ => { it with isMutation := false, current := some row }
  | mutation :: _, [] => { it with isMutation := true, current := some mutation }
  | mutation :: _, row :: _ =>
    if mutation.1 ≤ row.1 then { it with isMutation := true, current := some mutation }
    else { it with isMutation := false, current := some row }

def skipDeleted (t : Transaction κ V) (rows : List (κ × V)) : List (κ × V) :=
  rows.dropWhile fun row => t.isDeleted row.1

/-- To the first row with `p`. -/
def place (t : Transaction κ V) (p : κ → Bool) (it : Iterator κ V) : Iterator κ V :=
  updateCurrent { it with
    dbIter := skipDeleted t (t.db.dropTo p)
    mutationsIter := t.mutations.dropTo p
    lastVersion := t.version }

def seek (t : Transaction κ V) (key : κ) (it : Iterator κ V) : Iterator κ V := it.place t fun k => key ≤ k

/-- Whether the iterator moved because its row is gone. -/
def syncToTransaction (t : Transaction κ V) (row : κ × V) (it : Iterator κ V) : Bool × Iterator κ V :=
  if it.lastVersion < t.version then ((it.seek t row.1).current.any fun current => row.1 < current.1, it.seek t row.1)
  else (false, it)

def advanceLDB (t : Transaction κ V) (it : Iterator κ V) : List (κ × V) := skipDeleted t it.dbIter.tail

/-- A row of the database that a mutation shadows is passed with it. -/
def advance (t : Transaction κ V) (it : Iterator κ V) : Iterator κ V :=
  if it.isMutation then
    updateCurrent { it with
      dbIter := if it.dbIter.head?.any (fun row => it.mutationsIter.head?.any (·.1 = row.1)) then it.advanceLDB t else it.dbIter
      mutationsIter := it.mutationsIter.tail }
  else updateCurrent { it with dbIter := it.advanceLDB t }

def next (t : Transaction κ V) (it : Iterator κ V) : Checked (Iterator κ V) :=
  match it.current with
  | none => .error "Next() called on invalid iterator"
  | some row =>
    let (advanced, it) := it.syncToTransaction t row
    if !advanced && it.current.isSome then .ok (it.advance t) else .ok it

variable {t : Transaction κ V} {it : Iterator κ V} {p : κ → Bool} {row : κ × V}

/-! ## The row it stands on -/

theorem mem_skipDeleted {rows : List (κ × V)} (h : row ∈ rows) (hd : row.1 ∉ t.deletions) : row ∈ skipDeleted t rows := by
  induction rows with
  | nil => cases h
  | cons first rows ih =>
    unfold skipDeleted
    by_cases hf : first.1 ∈ t.deletions
    · rw [List.dropWhile_cons_of_pos (by simpa using hf)]
      rcases List.mem_cons.mp h with rfl | h
      · exact absurd hf hd
      · exact ih h
    · rw [List.dropWhile_cons_of_neg (by simpa using hf)]
      exact h

theorem of_skipDeleted {rows rest : List (κ × V)} (hs : Table.Sorted Prod.fst rows) (h : skipDeleted t rows = row :: rest) :
    row ∈ rows ∧ row.1 ∉ t.deletions ∧ ∀ row' ∈ row :: rest, row.1 ≤ row'.1 := by
  have hsub : (row :: rest).Sublist rows := h ▸ List.dropWhile_sublist _
  have hsorted := hs.sublist hsub
  refine ⟨hsub.subset (List.mem_cons_self ..), ?_, fun row' hr => ?_⟩
  · have hhead := List.head?_dropWhile_not (fun row : κ × V => t.isDeleted row.1) rows
    unfold skipDeleted at h
    rw [h] at hhead
    intro hd
    simp [Transaction.isDeleted, hd] at hhead
  · rcases List.mem_cons.mp hr with rfl | hr
    · exact le_refl _
    · exact ((List.pairwise_cons.mp hsorted).1 row' hr).le

theorem mem_commit : row ∈ t.commit.rows ↔
    row ∈ t.mutations.rows ∨ t.mutations.find row.1 = none ∧ row.1 ∉ t.deletions ∧ row ∈ t.db.rows := by
  obtain ⟨k, v⟩ := row
  rw [SortedMap.mem_rows, SortedMap.mem_rows, SortedMap.mem_rows, Transaction.find_commit]
  cases hm : t.mutations.find k with
  | some value => simp
  | none => simp

theorem mem_dropTo {m : SortedMap κ V} (hp : SortedMap.Upward p) : row ∈ m.dropTo p ↔ row ∈ m.rows ∧ p row.1 := by
  rw [m.dropTo_eq hp, List.mem_filter]

theorem current_updateCurrent (it : Iterator κ V) : it.updateCurrent.current =
    match it.mutationsIter, it.dbIter with
    | [], [] => none
    | [], row :: _ => some row
    | mutation :: _, [] => some mutation
    | mutation :: _, row :: _ => if mutation.1 ≤ row.1 then some mutation else some row := by
  unfold updateCurrent
  split
  · rfl
  · rfl
  · rfl
  · split <;> rfl

/-- It stands on the first row with `p` that a commit would leave. -/
theorem current_place (hp : SortedMap.Upward p) :
    (it.place t p).current = t.commit.rows.find? fun row => p row.1 := by
  have hsorted : ∀ m : SortedMap κ V, Table.Sorted Prod.fst (m.dropTo p) := fun m => m.dropTo_eq hp ▸ m.sorted.filter _
  have hcover : ∀ row ∈ t.commit.rows, p row.1 → row ∈ t.mutations.dropTo p ∨ row ∈ skipDeleted t (t.db.dropTo p) := by
    intro row hrow hrp
    rcases mem_commit.mp hrow with hm | ⟨-, hd, hdb⟩
    · exact Or.inl ((mem_dropTo hp).mpr ⟨hm, hrp⟩)
    · exact Or.inr (mem_skipDeleted ((mem_dropTo hp).mpr ⟨hdb, hrp⟩) hd)
  -- A row of the database that no mutation shadows.
  have hplain : ∀ row, row ∈ t.db.dropTo p → row.1 ∉ t.deletions → (∀ m ∈ t.mutations.dropTo p, row.1 < m.1) →
      row ∈ t.commit.rows := by
    intro row hrow hd hlt
    obtain ⟨hdb, hrp⟩ := (mem_dropTo hp).mp hrow
    refine mem_commit.mpr (Or.inr ⟨SortedMap.find_eq_none.mpr fun m hm he => ?_, hd, hdb⟩)
    exact absurd he (ne_of_gt (hlt m ((mem_dropTo hp).mpr ⟨hm, he ▸ hrp⟩)))
  have hwaiting : ∀ m ∈ t.mutations.dropTo p, m ∈ t.commit.rows ∧ p m.1 := by
    intro m hm
    obtain ⟨hm, hmp⟩ := (mem_dropTo hp).mp hm
    exact ⟨mem_commit.mpr (Or.inl hm), hmp⟩
  show (updateCurrent { it with
    dbIter := skipDeleted t (t.db.dropTo p)
    mutationsIter := t.mutations.dropTo p
    lastVersion := t.version }).current = _
  rw [current_updateCurrent]
  dsimp only
  cases hM : t.mutations.dropTo p with
  | nil =>
    cases hD : skipDeleted t (t.db.dropTo p) with
    | nil =>
      refine (List.find?_eq_none.mpr fun row hrow hrp => ?_).symm
      rcases hcover row hrow hrp with h | h
      · rw [hM] at h
        cases h
      · rw [hD] at h
        cases h
    | cons row rest =>
      obtain ⟨hin, hd, hle⟩ := of_skipDeleted (hsorted t.db) hD
      refine (SortedMap.find?_eq_some ⟨?_, ((mem_dropTo hp).mp hin).2, fun row' hrow hrp => ?_⟩).symm
      · exact hplain row hin hd (by rw [hM]; intro m hm; cases hm)
      · rcases hcover row' hrow hrp with h | h
        · rw [hM] at h
          cases h
        · exact hle row' (hD ▸ h)
  | cons mutation rest =>
    have hfirst := hwaiting mutation (hM ▸ List.mem_cons_self ..)
    have hmle : ∀ m ∈ t.mutations.dropTo p, mutation.1 ≤ m.1 := by
      have hs := hsorted t.mutations
      rw [hM] at hs ⊢
      intro m hm
      rcases List.mem_cons.mp hm with rfl | hm
      · exact le_refl _
      · exact ((List.pairwise_cons.mp hs).1 m hm).le
    cases hD : skipDeleted t (t.db.dropTo p) with
    | nil =>
      refine (SortedMap.find?_eq_some ⟨hfirst.1, hfirst.2, fun row' hrow hrp => ?_⟩).symm
      rcases hcover row' hrow hrp with h | h
      · exact hmle row' h
      · rw [hD] at h
        cases h
    | cons row rest' =>
      obtain ⟨hin, hd, hle⟩ := of_skipDeleted (hsorted t.db) hD
      dsimp only
      by_cases hmr : mutation.1 ≤ row.1
      · rw [if_pos hmr]
        refine (SortedMap.find?_eq_some ⟨hfirst.1, hfirst.2, fun row' hrow hrp => ?_⟩).symm
        rcases hcover row' hrow hrp with h | h
        · exact hmle row' h
        · exact hmr.trans (hle row' (hD ▸ h))
      · rw [if_neg hmr]
        have hlt : ∀ m ∈ t.mutations.dropTo p, row.1 < m.1 := fun m hm => (not_le.mp hmr).trans_le (hmle m hm)
        refine (SortedMap.find?_eq_some ⟨hplain row hin hd hlt, ((mem_dropTo hp).mp hin).2, fun row' hrow hrp => ?_⟩).symm
        rcases hcover row' hrow hrp with h | h
        · exact (hlt row' h).le
        · exact hle row' (hD ▸ h)

/-! ## To the next row -/

theorem updateCurrent_eq (it : Iterator κ V) : it.updateCurrent = { it with
    current := it.updateCurrent.current
    isMutation := it.updateCurrent.isMutation } := by
  unfold updateCurrent
  split
  · rfl
  · rfl
  · rfl
  · split <;> rfl

theorem updateCurrent_again (it : Iterator κ V) : updateCurrent { it.updateCurrent with
    dbIter := it.dbIter
    lastVersion := it.lastVersion
    mutationsIter := it.mutationsIter } = it.updateCurrent := by
  obtain ⟨dbIter, lastVersion, mutationsIter, was, isMutation⟩ := it
  cases mutationsIter with
  | nil => cases dbIter <;> rfl
  | cons mutation mutations =>
    cases dbIter with
    | nil => rfl
    | cons row rows =>
      by_cases h : mutation.1 ≤ row.1
      · simp [updateCurrent, h]
      · simp [updateCurrent, h]

/-- Found again from its own row, it is where it was. -/
theorem place_first (hp : SortedMap.Upward p) (hc : (it.place t p).current = some row) :
    (it.place t p).place t (fun k => row.1 ≤ k) = it.place t p := by
  rw [current_place hp] at hc
  have hfirst := SortedMap.first_of_find? hc
  have hback : ∀ k, p k = false → (!decide (row.1 ≤ k)) = true := by
    intro k hk
    rw [Bool.not_eq_true', decide_eq_false_iff_not]
    intro hle
    rcases lt_or_eq_of_le hle with hlt | rfl
    · exact absurd (hp hlt hfirst.here) (by simp [hk])
    · exact absurd hfirst.here (by simp [hk])
  have hto : ∀ m : SortedMap κ V, m.dropTo (fun k => row.1 ≤ k) = (m.dropTo p).dropWhile fun r => !(row.1 ≤ r.1) := by
    intro m
    exact (SortedMap.dropWhile_dropWhile fun r _ hr => hback r.1 (by simpa using hr)).symm
  have hdb : skipDeleted t (t.db.dropTo fun k => row.1 ≤ k) = skipDeleted t (t.db.dropTo p) := by
    rw [hto]
    refine SortedMap.dropWhile_dropWhile fun r hr hlt => ?_
    obtain ⟨hin, hrp⟩ := (mem_dropTo hp).mp hr
    by_contra hd
    have hle : row.1 ≤ r.1 := by
      cases hm : t.mutations.find r.1 with
      | some value => exact hfirst.least (r.1, value) (mem_commit.mpr (Or.inl (SortedMap.mem_rows.mpr hm))) hrp
      | none => exact hfirst.least r (mem_commit.mpr (Or.inr ⟨hm, by simpa using hd, hin⟩)) hrp
    simp [hle] at hlt
  have hmut : t.mutations.dropTo (fun k => row.1 ≤ k) = t.mutations.dropTo p := by
    rw [hto]
    cases hM : t.mutations.dropTo p with
    | nil => rfl
    | cons m rest =>
      obtain ⟨hin, hmp⟩ := (mem_dropTo hp).mp (hM ▸ List.mem_cons_self .. : m ∈ t.mutations.dropTo p)
      have hle := hfirst.least m (mem_commit.mpr (Or.inl hin)) hmp
      rw [List.dropWhile_cons_of_neg (by simpa using hle)]
  show updateCurrent { it.place t p with
    dbIter := skipDeleted t (t.db.dropTo fun k => row.1 ≤ k)
    mutationsIter := t.mutations.dropTo fun k => row.1 ≤ k
    lastVersion := t.version } = it.place t p
  rw [hdb, hmut]
  exact updateCurrent_again { it with
    dbIter := skipDeleted t (t.db.dropTo p)
    mutationsIter := t.mutations.dropTo p
    lastVersion := t.version }

/-- With the row at the key, if it is still there, the deleted ones behind it are passed. -/
theorem skipDeleted_after (m : SortedMap κ V) (k : κ) :
    skipDeleted t (m.dropTo fun key => k < key) =
      if (skipDeleted t (m.dropTo fun key => k ≤ key)).head?.any (·.1 = k)
      then skipDeleted t (skipDeleted t (m.dropTo fun key => k ≤ key)).tail
      else skipDeleted t (m.dropTo fun key => k ≤ key) := by
  have hsorted : Table.Sorted Prod.fst (m.dropTo fun key => k ≤ key) :=
    m.dropTo_eq (SortedMap.upward_le k) ▸ m.sorted.filter _
  have hfrom : ∀ row ∈ m.dropTo fun key => k ≤ key, k ≤ row.1 := fun row hrow => by
    simpa using ((mem_dropTo (SortedMap.upward_le k)).mp hrow).2
  have hother : ∀ rows : List (κ × V), (∀ row ∈ rows, row.1 ≠ k) → (skipDeleted t rows).head?.any (·.1 = k) = false := by
    intro rows hne
    cases hD : skipDeleted t rows with
    | nil => rfl
    | cons row rest =>
      have hin : row ∈ rows := (List.dropWhile_sublist _).subset (hD ▸ List.mem_cons_self .. : row ∈ skipDeleted t rows)
      simpa using hne row hin
  rw [SortedMap.dropTo_after]
  generalize m.dropTo (fun key => k ≤ key) = rows at hfrom hsorted
  cases rows with
  | nil => rfl
  | cons row rows =>
    obtain ⟨hlt, -⟩ := List.pairwise_cons.mp hsorted
    dsimp only
    by_cases hk : row.1 = k
    · have hne : ∀ row' ∈ rows, row'.1 ≠ k := fun row' hr => hk ▸ ne_of_gt (hlt row' hr)
      by_cases hd : row.1 ∈ t.deletions
      · have hskip : skipDeleted t (row :: rows) = skipDeleted t rows := List.dropWhile_cons_of_pos (by simpa using hd)
        rw [if_pos hk, hskip, hother rows hne]
        rfl
      · have hskip : skipDeleted t (row :: rows) = row :: rows := List.dropWhile_cons_of_neg (by simpa using hd)
        rw [if_pos hk, hskip]
        simp [hk]
    · have hgt : k < row.1 := lt_of_le_of_ne (hfrom row (List.mem_cons_self ..)) (Ne.symm hk)
      have hne : ∀ row' ∈ row :: rows, row'.1 ≠ k := by
        intro row' hr
        rcases List.mem_cons.mp hr with rfl | hr
        · exact hk
        · exact ne_of_gt (hgt.trans (hlt row' hr))
      rw [if_neg hk, hother _ hne]
      rfl

/-- In step with the transaction, it advances to where its next row is. -/
theorem advance_eq (hs : it.place t (fun k => row.1 ≤ k) = it) (hc : it.current = some row) :
    it.advance t = it.place t fun k => row.1 < k := by
  have hup := SortedMap.upward_le row.1
  have hsorted : ∀ m : SortedMap κ V, Table.Sorted Prod.fst (m.dropTo fun k => row.1 ≤ k) :=
    fun m => m.dropTo_eq hup ▸ m.sorted.filter _
  have hplaced : it.place t (fun k => row.1 ≤ k) = updateCurrent { it with
    dbIter := skipDeleted t (t.db.dropTo fun k => row.1 ≤ k)
    mutationsIter := t.mutations.dropTo fun k => row.1 ≤ k
    lastVersion := t.version } := rfl
  have hfields := updateCurrent_eq { it with
    dbIter := skipDeleted t (t.db.dropTo fun k => row.1 ≤ k)
    mutationsIter := t.mutations.dropTo fun k => row.1 ≤ k
    lastVersion := t.version }
  rw [← hplaced, hs] at hfields
  have hdb : it.dbIter = skipDeleted t (t.db.dropTo fun k => row.1 ≤ k) := by rw [hfields]
  have hmut : it.mutationsIter = t.mutations.dropTo fun k => row.1 ≤ k := by rw [hfields]
  have hversion : it.lastVersion = t.version := by rw [hfields]
  have htarget : it.place t (fun k => row.1 < k) = updateCurrent { it with
    dbIter := skipDeleted t (t.db.dropTo fun k => row.1 < k)
    mutationsIter := t.mutations.dropTo fun k => row.1 < k
    lastVersion := t.version } := rfl
  rw [htarget, skipDeleted_after, SortedMap.dropTo_after, ← hdb, ← hmut, ← hversion]
  rw [hplaced] at hs
  have hmsorted := hsorted t.mutations
  rw [← hmut] at hmsorted
  rw [← hdb, ← hmut, ← hversion] at hs
  have hhere : (updateCurrent it).current = some row := by
    rw [show updateCurrent it = it from hs]
    exact hc
  have hwhich : (updateCurrent it).isMutation = it.isMutation := by rw [show updateCurrent it = it from hs]
  obtain ⟨dbIter, lastVersion, mutationsIter, current, isMutation⟩ := it
  unfold advance advanceLDB
  dsimp only at hhere hwhich hmsorted ⊢
  cases mutationsIter with
  | nil =>
    cases dbIter with
    | nil => cases hhere
    | cons first rows =>
      have hrow : first = row := Option.some.inj hhere
      have hkind : isMutation = false := hwhich.symm
      subst hrow
      simp [hkind]
  | cons mutation mutations =>
    cases dbIter with
    | nil =>
      have hrow : mutation = row := Option.some.inj hhere
      have hkind : isMutation = true := hwhich.symm
      subst hrow
      simp [hkind]
    | cons first rows =>
      by_cases hle : mutation.1 ≤ first.1
      · have hrow : mutation = row := by simpa [updateCurrent, hle] using hhere
        have hkind : isMutation = true := by simpa [updateCurrent, hle] using hwhich.symm
        subst hrow
        by_cases heq : first.1 = mutation.1
        · simp [hkind, heq]
        · simp [hkind, heq, Ne.symm heq]
      · have hrow : first = row := by simpa [updateCurrent, hle] using hhere
        have hkind : isMutation = false := by simpa [updateCurrent, hle] using hwhich.symm
        subst hrow
        have hne : ¬mutation.1 = first.1 := fun he => hle he.le
        simp [hkind, hne]

/-! ## Whatever changes in between -/

/-- Unless the transaction has changed since, the iterator is where its row is. -/
structure InStep (t : Transaction κ V) (it : Iterator κ V) : Prop where
  version : it.lastVersion ≤ t.version
  placed : ∀ row, it.current = some row → it.lastVersion = t.version → it.place t (fun k => row.1 ≤ k) = it

theorem inStep_begin (t : Transaction κ V) : InStep t (begin t) := ⟨le_refl _, fun row h => by cases h⟩

theorem lastVersion_place : (it.place t p).lastVersion = t.version := by
  unfold place
  rw [updateCurrent_eq]

theorem inStep_place (hp : SortedMap.Upward p) : InStep t (it.place t p) :=
  ⟨le_of_eq lastVersion_place, fun _ hc _ => place_first hp hc⟩

theorem InStep.apply (h : InStep t it) (change : Transaction.Change κ V) : InStep (t.apply change) it := by
  have hversion : (t.apply change).version = t.version + 1 := by cases change <;> rfl
  refine ⟨?_, fun row _ he => ?_⟩
  · exact hversion ▸ Nat.le_succ_of_le h.version
  · have hle := h.version
    omega

/-- The next row is the first that a commit would leave after the one it stands on,
even if that one is gone. -/
theorem InStep.next (h : InStep t it) (hc : it.current = some row) :
    ∃ it', it.next t = .ok it' ∧ InStep t it' ∧ it'.current = t.commit.rows.find? fun row' => row.1 < row'.1 := by
  have hup := SortedMap.upward_le row.1
  have hup' := SortedMap.upward_lt row.1
  unfold Iterator.next
  rw [hc]
  dsimp only
  by_cases hold : it.lastVersion < t.version
  · have hsync : it.syncToTransaction t row =
        ((it.seek t row.1).current.any fun current => row.1 < current.1, it.seek t row.1) := if_pos hold
    have hseek : (it.seek t row.1).current = t.commit.rows.find? fun row' => row.1 ≤ row'.1 := current_place hup
    have hin : InStep t (it.seek t row.1) := inStep_place hup
    rw [hsync]
    dsimp only
    cases hf : t.commit.rows.find? fun row' => row.1 ≤ row'.1 with
    | none =>
      rw [hseek, hf]
      refine ⟨it.seek t row.1, rfl, hin, ?_⟩
      rw [hseek, hf]
      refine (List.find?_eq_none.mpr fun row' hr hlt => ?_).symm
      have hnot := List.find?_eq_none.mp hf row' hr
      simp only [decide_eq_true_eq] at hnot hlt
      exact hnot hlt.le
    | some first =>
      have hfirst := SortedMap.first_of_find? (p := fun k => decide (row.1 ≤ k)) hf
      have hle : row.1 ≤ first.1 := by simpa using hfirst.here
      rw [hseek, hf]
      by_cases hlt : row.1 < first.1
      · refine ⟨it.seek t row.1, by simp [hlt], hin, ?_⟩
        rw [hseek, hf]
        refine (SortedMap.find?_eq_some (p := fun k => decide (row.1 < k)) ⟨hfirst.mem, by simpa using hlt, ?_⟩).symm
        intro row' hr hlt'
        exact hfirst.least row' hr (by simpa using (by simpa using hlt' : row.1 < row'.1).le)
      · have he : first.1 = row.1 := le_antisymm (not_lt.mp hlt) hle
        have hcur : (it.seek t row.1).current = some first := hseek.trans hf
        have hadvance : (it.seek t row.1).advance t = (it.seek t row.1).place t fun k => first.1 < k :=
          advance_eq (hin.placed first hcur lastVersion_place) hcur
        refine ⟨(it.seek t row.1).advance t, by simp [hlt], ?_, ?_⟩
        · exact hadvance ▸ inStep_place (SortedMap.upward_lt first.1)
        · rw [hadvance, he]
          exact current_place hup'
  · have hsync : it.syncToTransaction t row = (false, it) := if_neg hold
    have hadvance := advance_eq (h.placed row hc (Nat.le_antisymm h.version (Nat.not_lt.mp hold))) hc
    rw [hsync]
    refine ⟨it.advance t, by simp [hc], ?_, ?_⟩
    · exact hadvance ▸ inStep_place hup'
    · rw [hadvance]
      exact current_place hup'

/-- The rows of `for (it->Seek(key); it->Valid(); it->Next())`, up to the number `n`. -/
def rest (t : Transaction κ V) : Nat → Iterator κ V → List (κ × V)
  | 0, _ => []
  | n + 1, it =>
    match it.current, it.next t with
    | some row, .ok it' => row :: rest t n it'
    | _, _ => []

theorem InStep.rest (hp : SortedMap.Upward p) (h : InStep t it) (hc : it.current = t.commit.rows.find? fun row => p row.1)
    (n : Nat) : it.rest t n = (t.commit.rows.filter fun row => p row.1).take n := by
  induction n generalizing it p with
  | zero => rfl
  | succ n ih =>
    cases hf : t.commit.rows.find? fun row => p row.1 with
    | none =>
      have hnone : (t.commit.rows.filter fun row => p row.1) = [] :=
        List.filter_eq_nil_iff.mpr fun row hrow => List.find?_eq_none.mp hf row hrow
      rw [hnone, Iterator.rest, hc, hf]
      rfl
    | some row =>
      have hcur := hc.trans hf
      obtain ⟨it', hnext, hin, hc'⟩ := h.next hcur
      rw [Iterator.rest, hcur, hnext]
      dsimp only
      have hafter := SortedMap.upward_lt row.1
      rw [ih hafter hin (by simpa using hc'), SortedMap.filter_eq_cons (SortedMap.first_of_find? hf) hp]
      rfl

/-! ## Runs -/

inductive Move (κ V : Type) where
  | change (change : Transaction.Change κ V)
  | seek (key : κ)
  | next

def step (s : Transaction κ V × Iterator κ V) : Move κ V → Option (Transaction κ V × Iterator κ V)
  | .change change => some (s.1.apply change, s.2)
  | .seek key => some (s.1, s.2.seek s.1 key)
  | .next => (s.2.next s.1).toOption.map fun it => (s.1, it)

theorem inStep_run {moves : List (Move κ V)} {s : Transaction κ V × Iterator κ V} {it : Iterator κ V} (h : InStep s.1 s.2)
    (hr : Runs.run step s moves = some (t, it)) : InStep t it := by
  induction moves generalizing s with
  | nil =>
    cases hr
    exact h
  | cons move moves ih =>
    obtain ⟨s', hs, hr⟩ := Runs.run_cons_some hr
    refine ih ?_ hr
    cases move with
    | change change =>
      cases hs
      exact h.apply change
    | seek key =>
      cases hs
      exact inStep_place (SortedMap.upward_le key)
    | next =>
      obtain ⟨it', hnext, rfl⟩ := Option.map_eq_some_iff.mp hs
      cases hc : s.2.current with
      | none =>
        unfold Iterator.next at hnext
        rw [hc] at hnext
        cases hnext
      | some row =>
        obtain ⟨it'', hok, hin, -⟩ := h.next hc
        rw [hok] at hnext
        cases hnext
        exact hin

/-- **An iterator shows the commit**: in every order of changes and moves, a scan goes
over the rows that a commit would leave from its key on, and `Next()` goes from the row
it stands on to the first one after it that a commit would leave. -/
theorem shows_commit (db : SortedMap κ V) (moves : List (Move κ V)) {it : Iterator κ V}
    (hr : Runs.run step ({ db }, begin { db }) moves = some (t, it)) :
    (∀ key n, (it.seek t key).rest t n = (t.commit.rows.filter fun row => key ≤ row.1).take n) ∧
    ∀ row, it.current = some row →
      ∃ it', it.next t = .ok it' ∧ it'.current = t.commit.rows.find? fun row' => row.1 < row'.1 := by
  refine ⟨fun key n => ?_, fun row hc => ?_⟩
  · have hup := SortedMap.upward_le key
    show (it.place t fun k => key ≤ k).rest t n = _
    simpa using (inStep_place hup).rest hup (current_place hup) n
  · obtain ⟨it', hnext, -, hc'⟩ := (inStep_run (inStep_begin _) hr).next hc
    exact ⟨it', hnext, hc'⟩

/-- The row it stands on is deleted, and the next one shadows a row of the database. -/
theorem shows_commit_shadowed : ∃ t it it', Runs.run step
    (({ db := ⟨[(1, 10), (3, 30)], by decide⟩ } : Transaction Nat Nat), begin { db := ⟨[(1, 10), (3, 30)], by decide⟩ })
    [.change (.putMessage 3 31), .seek 0, .change (.delete 1)] = some (t, it) ∧
      it.next t = .ok it' ∧ it'.current = some (3, 31) := by
  have h := shows_commit (⟨[(1, 10), (3, 30)], by decide⟩ : SortedMap Nat Nat)
    [.change (.putMessage 3 31), .seek 0, .change (.delete 1)] rfl
  obtain ⟨it', hnext, hc⟩ := h.2 (1, 10) rfl
  exact ⟨_, _, it', rfl, hnext, hc.trans rfl⟩

end Iterator

end ShoppingList.Firestore
