import ShoppingList.Firestore.Mutation
import ShoppingList.Lib.SortedMap

/-!
# Transactions

Changes to the database wait in a transaction until it commits: rows to write in
a map, keys to delete in a set. Of the two ways to put a row, the one for strings
takes the key out of the set but keeps a row that is already in the map; the one
for messages replaces the row but leaves the set alone.
-/

namespace ShoppingList.Firestore

structure Transaction (κ V : Type) [LinearOrder κ] where
  db : SortedMap κ V
  mutations : SortedMap κ V := .empty
  deletions : List κ := []
  version : Nat := 0

namespace Transaction

variable {κ V : Type} [LinearOrder κ]

/-- `Put` of a string. -/
def put (t : Transaction κ V) (key : κ) (value : V) : Transaction κ V := { t with
  deletions := t.deletions.filter (· ≠ key)
  mutations := if (t.mutations.find key).isSome then t.mutations else t.mutations.insert (key, value)
  version := t.version + 1 }

/-- `Put` of a message. -/
def putMessage (t : Transaction κ V) (key : κ) (message : V) : Transaction κ V := { t with
  mutations := t.mutations.insert (key, message)
  version := t.version + 1 }

def isDeleted (t : Transaction κ V) (key : κ) : Bool := key ∈ t.deletions

@[simp] theorem isDeleted_iff {t : Transaction κ V} {key : κ} : t.isDeleted key = true ↔ key ∈ t.deletions := decide_eq_true_iff

def get (t : Transaction κ V) (key : κ) : Option V :=
  if t.isDeleted key then none
  else
    match t.mutations.find key with
    | some value => some value
    | none => t.db.find key

def delete (t : Transaction κ V) (key : κ) : Transaction κ V := { t with
  deletions := t.deletions.insert key
  mutations := t.mutations.erase key
  version := t.version + 1 }

/-- What is in the database afterwards. -/
def commit (t : Transaction κ V) : SortedMap κ V :=
  t.mutations.rows.foldl SortedMap.insert (t.deletions.foldl SortedMap.erase t.db)

/-! ## Commit -/

theorem find_foldl_erase (keys : List κ) (m : SortedMap κ V) (k : κ) :
    (keys.foldl SortedMap.erase m).find k = if k ∈ keys then none else m.find k := by
  induction keys generalizing m with
  | nil => simp
  | cons key keys ih =>
    rw [List.foldl_cons, ih]
    by_cases hk : k = key
    · simp [hk]
    · simp [hk]

theorem find_foldl_insert {rows : List (κ × V)} (hs : Table.Sorted Prod.fst rows) (m : SortedMap κ V) (k : κ) :
    (rows.foldl SortedMap.insert m).find k = ((Table.get Prod.fst k rows).map (·.2)).or (m.find k) := by
  induction rows generalizing m with
  | nil => simp [Table.get]
  | cons row rows ih =>
    obtain ⟨key, value⟩ := row
    obtain ⟨hlt, hs⟩ := List.pairwise_cons.mp hs
    rw [List.foldl_cons, ih hs]
    by_cases hk : k = key
    · subst hk
      have hnone : Table.get Prod.fst k rows = none := by
        apply List.find?_eq_none.mpr
        intro row hrow
        simpa using ne_of_gt (hlt row hrow)
      rw [hnone]
      simp [Table.get]
    · simp [Table.get, hk, Ne.symm hk]

/-- A row that is put goes before a key that is deleted. -/
theorem find_commit (t : Transaction κ V) (k : κ) :
    t.commit.find k = (t.mutations.find k).or (if k ∈ t.deletions then none else t.db.find k) := by
  unfold commit
  rw [find_foldl_insert t.mutations.sorted, find_foldl_erase]
  rfl

/-! ## Changes are as if made at once -/

inductive Change (κ V : Type) where
  | put (key : κ) (value : V)
  | putMessage (key : κ) (message : V)
  | delete (key : κ)

def apply (t : Transaction κ V) : Change κ V → Transaction κ V
  | .put key value => t.put key value
  | .putMessage key message => t.putMessage key message
  | .delete key => t.delete key

def Change.direct (m : SortedMap κ V) : Change κ V → SortedMap κ V
  | .put key value => m.insert (key, value)
  | .putMessage key message => m.insert (key, message)
  | .delete key => m.erase key

/-- No string is put where another waits, and no message where a row was deleted. -/
def Careful (t : Transaction κ V) : Change κ V → Prop
  | .put key value => ∀ waiting, t.mutations.find key = some waiting → waiting = value
  | .putMessage key _ => key ∉ t.deletions
  | .delete _ => True

def CarefulRun : Transaction κ V → List (Change κ V) → Prop
  | _, [] => True
  | t, change :: changes => t.Careful change ∧ CarefulRun (t.apply change) changes

/-- No key is both written and deleted. -/
def Clean (t : Transaction κ V) : Prop := ∀ k value, t.mutations.find k = some value → k ∉ t.deletions

theorem Clean.get (h : Clean t) (k : κ) : t.get k = t.commit.find k := by
  rw [find_commit]
  unfold Transaction.get
  cases hm : t.mutations.find k with
  | some value => simp [h k value hm]
  | none => simp

variable {t : Transaction κ V} {change : Change κ V}

theorem Clean.apply (h : t.Clean) (hc : t.Careful change) : (t.apply change).Clean := by
  intro k v hv hd
  cases change with
  | put key value =>
    obtain ⟨hd, hk⟩ : k ∈ t.deletions ∧ k ≠ key := by simpa [Transaction.apply, put] using hd
    have hv : t.mutations.find k = some v := by
      simp only [Transaction.apply, put] at hv
      split at hv
      · exact hv
      · rwa [SortedMap.find_insert_ne hk] at hv
    exact h k v hv hd
  | putMessage key message =>
    by_cases hk : k = key
    · exact hc (hk ▸ hd)
    · exact h k v (by simpa [Transaction.apply, putMessage, hk] using hv) hd
  | delete key =>
    by_cases hk : k = key
    · subst hk
      simp [Transaction.apply, delete] at hv
    · have hd : k ∈ t.deletions := by simpa [Transaction.apply, delete, hk] using hd
      exact h k v (by simpa [Transaction.apply, delete, hk] using hv) hd

theorem commit_apply (hc : t.Careful change) : (t.apply change).commit = change.direct t.commit := by
  apply SortedMap.ext_find
  intro k
  cases change with
  | put key value =>
    show (t.put key value).commit.find k = (t.commit.insert (key, value)).find k
    by_cases hk : k = key
    · subst hk
      rw [find_commit, SortedMap.find_insert_self]
      unfold put
      cases hm : t.mutations.find k with
      | some waiting => simp [hm, hc waiting hm]
      | none => simp
    · rw [find_commit, SortedMap.find_insert_ne hk, find_commit]
      have hm : (t.put key value).mutations.find k = t.mutations.find k := by
        simp only [put]
        split
        · rfl
        · exact SortedMap.find_insert_ne hk
      rw [hm]
      simp [put, hk]
  | putMessage key message =>
    show (t.putMessage key message).commit.find k = (t.commit.insert (key, message)).find k
    by_cases hk : k = key
    · subst hk
      simp [find_commit, putMessage]
    · simp [find_commit, putMessage, hk]
  | delete key =>
    show (t.delete key).commit.find k = (t.commit.erase key).find k
    by_cases hk : k = key
    · subst hk
      simp [find_commit, delete]
    · simp [find_commit, delete, hk]

/-- **A transaction hides nothing**: after careful changes, it reads what a database
has to which they were made at once, and that is what it commits. -/
theorem as_made_at_once (db : SortedMap κ V) (changes : List (Change κ V)) (h : CarefulRun { db } changes) :
    (changes.foldl apply { db }).commit = changes.foldl Change.direct db ∧
      ∀ k, (changes.foldl apply { db }).get k = (changes.foldl Change.direct db).find k := by
  have hrun : ∀ (changes : List (Change κ V)) (t : Transaction κ V), t.Clean → CarefulRun t changes →
      (changes.foldl apply t).commit = changes.foldl Change.direct t.commit ∧ (changes.foldl apply t).Clean := by
    intro changes
    induction changes with
    | nil =>
      intro t ht _
      exact ⟨rfl, ht⟩
    | cons change changes ih =>
      intro t ht hc
      obtain ⟨hcommit, hclean⟩ := ih (t.apply change) (ht.apply hc.1) hc.2
      rw [commit_apply hc.1] at hcommit
      exact ⟨hcommit, hclean⟩
  have hempty : Clean ({ db } : Transaction κ V) := fun k v hv => by simp [SortedMap.find_empty] at hv
  obtain ⟨hcommit, hclean⟩ := hrun changes { db } hempty h
  have hdb : commit ({ db } : Transaction κ V) = db := rfl
  rw [hdb] at hcommit
  refine ⟨hcommit, fun k => ?_⟩
  rw [hclean.get, hcommit]

theorem as_made_at_once_rewritten :
    (([.put 1 5, .delete 1, .putMessage 2 6, .put 1 7] : List (Change Nat Nat)).foldl apply
      { db := ⟨[(1, 3)], by decide⟩ }).get 1 = some 7 := by
  have hcareful : CarefulRun ({ db := ⟨[(1, 3)], by decide⟩ } : Transaction Nat Nat)
      [.put 1 5, .delete 1, .putMessage 2 6, .put 1 7] := by
    refine ⟨fun waiting h => ?_, trivial, ?_, fun waiting h => ?_, trivial⟩
    · cases h
    · exact (by decide : 2 ∉ [1])
    · cases h
  exact (as_made_at_once _ _ hcareful).2 1

end Transaction

end ShoppingList.Firestore
