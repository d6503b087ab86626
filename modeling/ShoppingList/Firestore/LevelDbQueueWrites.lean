import ShoppingList.Firestore.LevelDbMutationQueue

/-!
# Writing the mutation queue

A batch is put with its rows of the index and deleted with them. Afterwards the
rows hold the tables to which the same was done.
-/

namespace ShoppingList.Firestore

open Codes OrderedCode Reader

namespace LevelDBMutationQueue

variable {V σ : Type} (s : LocalSerializer V σ) (rows : SortedMap (List Byte) V) (userId : List Byte)

def addMutationBatch (batch : MutationBatch DocumentKey σ) : SortedMap (List Byte) V :=
  batch.mutations.foldl (fun rows m => rows.insert (LevelDbDocumentMutationKey.key userId m.key batch.batchID, s.emptyBuffer))
    (rows.insert (LevelDbMutationKey.key userId batch.batchID, s.encodedMutationBatch batch))

def deleteBatch (batch : MutationBatch DocumentKey σ) : SortedMap (List Byte) V :=
  batch.mutations.foldl (fun rows m => rows.erase (LevelDbDocumentMutationKey.key userId m.key batch.batchID))
    (rows.erase (LevelDbMutationKey.key userId batch.batchID))

/-- One turn of the loop of `removeMutationBatches`. -/
def removeMutationBatch (batch : MutationBatch DocumentKey σ) : Checked (SortedMap (List Byte) V) := do
  let checked := seek rows (LevelDbMutationKey.key userId batch.batchID)
  hardAssert checked.isSome "Mutation batch did not exist"
  hardAssert (checked.any (·.1 = LevelDbMutationKey.key userId batch.batchID)) "Mutation batch not found"
  return deleteBatch rows userId batch

variable {s rows userId} {tables : List Byte → Tables DocumentKey σ} {batch : MutationBatch DocumentKey σ}

theorem mutation_key_inj {user : List Byte} {id id' : BatchId} (hid : IsInt32 id) (hid' : IsInt32 id')
    (h : LevelDbMutationKey.key user id = LevelDbMutationKey.key userId id') : user = userId ∧ id = id' := by
  have hdecode := LevelDbMutationKey.decode_key user hid
  rw [h, LevelDbMutationKey.decode_key userId hid'] at hdecode
  simpa [eq_comm] using hdecode

theorem index_key_inj {user : List Byte} {k k' : DocumentKey} {id id' : BatchId} (hid : IsInt32 id) (hid' : IsInt32 id')
    (h : LevelDbDocumentMutationKey.key user k id = LevelDbDocumentMutationKey.key userId k' id') :
    user = userId ∧ k = k' ∧ id = id' := by
  have hdecode := LevelDbDocumentMutationKey.decode_key user k hid
  rw [h, LevelDbDocumentMutationKey.decode_key userId k' hid'] at hdecode
  simpa [eq_comm] using hdecode

theorem keys_ne (user : List Byte) (id : BatchId) (user' : List Byte) (k : DocumentKey) (id' : BatchId) :
    LevelDbDocumentMutationKey.key user' k id' ≠ LevelDbMutationKey.key user id := by
  unfold LevelDbDocumentMutationKey.key LevelDbMutationKey.key writeTableName
  simp only [List.append_assoc]
  exact fun h => absurd (eq_of_labeledString h).1 (by decide)

theorem find_putIndex (f : Mutation DocumentKey σ → List Byte) (value : V) (ms : List (Mutation DocumentKey σ))
    (m : SortedMap (List Byte) V) (k : List Byte) :
    (ms.foldl (fun rows m => rows.insert (f m, value)) m).find k = if ∃ m ∈ ms, f m = k then some value else m.find k := by
  induction ms generalizing m with
  | nil => simp
  | cons first ms ih =>
    rw [List.foldl_cons, ih]
    by_cases hk : f first = k
    · subst hk
      simp
    · simp [hk, Ne.symm hk]

theorem find_eraseIndex (f : Mutation DocumentKey σ → List Byte) (ms : List (Mutation DocumentKey σ))
    (m : SortedMap (List Byte) V) (k : List Byte) :
    (ms.foldl (fun rows m => rows.erase (f m)) m).find k = if ∃ m ∈ ms, f m = k then none else m.find k := by
  induction ms generalizing m with
  | nil => simp
  | cons first ms ih =>
    rw [List.foldl_cons, ih]
    by_cases hk : f first = k
    · subst hk
      simp
    · simp [hk, Ne.symm hk]

section
variable (k : DocumentKey) (user : List Byte) (id : BatchId)

theorem find_addMutationBatch (key : List Byte) : (addMutationBatch s rows userId batch).find key =
    if ∃ m ∈ batch.mutations, LevelDbDocumentMutationKey.key userId m.key batch.batchID = key then some s.emptyBuffer
    else (rows.insert (LevelDbMutationKey.key userId batch.batchID, s.encodedMutationBatch batch)).find key :=
  find_putIndex (fun m => LevelDbDocumentMutationKey.key userId m.key batch.batchID) s.emptyBuffer batch.mutations _ key

theorem find_mutation_added : (addMutationBatch s rows userId batch).find (LevelDbMutationKey.key user id) =
    (rows.insert (LevelDbMutationKey.key userId batch.batchID, s.encodedMutationBatch batch)).find
      (LevelDbMutationKey.key user id) := by
  rw [find_addMutationBatch, if_neg]
  rintro ⟨m, -, he⟩
  exact keys_ne user id userId m.key batch.batchID he

theorem find_index_added : (addMutationBatch s rows userId batch).find (LevelDbDocumentMutationKey.key user k id) =
    if ∃ m ∈ batch.mutations, LevelDbDocumentMutationKey.key userId m.key batch.batchID =
      LevelDbDocumentMutationKey.key user k id then some s.emptyBuffer
    else rows.find (LevelDbDocumentMutationKey.key user k id) := by
  rw [find_addMutationBatch, SortedMap.find_insert_ne (keys_ne userId batch.batchID user k id)]

theorem find_deleteBatch (key : List Byte) : (deleteBatch rows userId batch).find key =
    if ∃ m ∈ batch.mutations, LevelDbDocumentMutationKey.key userId m.key batch.batchID = key then none
    else (rows.erase (LevelDbMutationKey.key userId batch.batchID)).find key :=
  find_eraseIndex (fun m => LevelDbDocumentMutationKey.key userId m.key batch.batchID) batch.mutations _ key

theorem find_mutation_deleted (hne : LevelDbMutationKey.key user id ≠ LevelDbMutationKey.key userId batch.batchID) :
    (deleteBatch rows userId batch).find (LevelDbMutationKey.key user id) = rows.find (LevelDbMutationKey.key user id) := by
  rw [find_deleteBatch, if_neg, SortedMap.find_erase_ne hne]
  rintro ⟨m, -, he⟩
  exact keys_ne user id userId m.key batch.batchID he

theorem find_index_deleted (hne : ∀ m ∈ batch.mutations,
      LevelDbDocumentMutationKey.key userId m.key batch.batchID ≠ LevelDbDocumentMutationKey.key user k id) :
    (deleteBatch rows userId batch).find (LevelDbDocumentMutationKey.key user k id) =
      rows.find (LevelDbDocumentMutationKey.key user k id) := by
  rw [find_deleteBatch, if_neg, SortedMap.find_erase_ne (keys_ne userId batch.batchID user k id)]
  rintro ⟨m, hm, he⟩
  exact hne m hm he

end

/-- A row stays one of the tables, unless it is the user's and his new tables lack it. -/
theorem Stored.update {t : Tables DocumentKey σ} {row : List Byte × V} (h : Stored s tables row)
    (hm : ∀ b ∈ (tables userId).mutations, LevelDbMutationKey.key userId b.batchID = row.1 → b ∈ t.mutations)
    (hi : ∀ r ∈ (tables userId).documentMutations,
      LevelDbDocumentMutationKey.key userId r.1 r.2 = row.1 → r ∈ t.documentMutations) :
    Stored s (Function.update tables userId t) row := by
  cases h with
  | @mutation user b hb =>
    refine @Stored.mutation _ _ s _ user b ?_
    by_cases he : user = userId
    · subst he
      rw [Function.update_self]
      exact hm b hb rfl
    · rwa [Function.update_of_ne he]
  | @documentMutation user r hr =>
    refine @Stored.documentMutation _ _ s _ user r ?_
    by_cases he : user = userId
    · subst he
      rw [Function.update_self]
      exact hi r hr rfl
    · rwa [Function.update_of_ne he]
  | other hne hne' rest value => exact .other hne hne' rest value

/-- The rows of the other users stay; those of the user are the ones of his new tables. -/
theorem Represents.update (h : Represents s rows tables) {rows' : SortedMap (List Byte) V} {t : Tables DocumentKey σ}
    (ht : t.Consistent) (hmax : ∀ b ∈ t.mutations, b.batchID ≤ 2 ^ 31 - 1)
    (hold : ∀ user ≠ userId, ∀ b ∈ (tables user).mutations,
      rows'.find (LevelDbMutationKey.key user b.batchID) = rows.find (LevelDbMutationKey.key user b.batchID))
    (hold' : ∀ user ≠ userId, ∀ r ∈ (tables user).documentMutations,
      rows'.find (LevelDbDocumentMutationKey.key user r.1 r.2) = rows.find (LevelDbDocumentMutationKey.key user r.1 r.2))
    (hnew : ∀ b ∈ t.mutations, rows'.find (LevelDbMutationKey.key userId b.batchID) = some (s.encodedMutationBatch b))
    (hnew' : ∀ r ∈ t.documentMutations, rows'.find (LevelDbDocumentMutationKey.key userId r.1 r.2) = some s.emptyBuffer)
    (hstored : ∀ k v, rows'.find k = some v → Stored s (Function.update tables userId t) (k, v)) :
    Represents s rows' (Function.update tables userId t) := by
  constructor
  · intro user
    by_cases hu : user = userId
    · rw [hu, Function.update_self]
      exact ht
    · rw [Function.update_of_ne hu]
      exact h.consistent user
  · intro user b hb
    by_cases hu : user = userId
    · rw [hu, Function.update_self] at hb
      exact hmax b hb
    · rw [Function.update_of_ne hu] at hb
      exact h.int32 user b hb
  · rintro ⟨k, v⟩ hr
    exact hstored k v (SortedMap.mem_rows.mp hr)
  · intro user b hb
    apply SortedMap.mem_rows.mpr
    by_cases hu : user = userId
    · rw [hu, Function.update_self] at hb
      exact hu ▸ hnew b hb
    · rw [Function.update_of_ne hu] at hb
      rw [hold user hu b hb]
      exact SortedMap.mem_rows.mp (h.mutations user b hb)
  · intro user r hr
    apply SortedMap.mem_rows.mpr
    by_cases hu : user = userId
    · rw [hu, Function.update_self] at hr
      exact hu ▸ hnew' r hr
    · rw [Function.update_of_ne hu] at hr
      rw [hold' user hu r hr]
      exact SortedMap.mem_rows.mp (h.documentMutations user r hr)

/-- A row that is there after an addition is of the batch, or was there before. -/
theorem Represents.stored_added (h : Represents s rows tables) {t : Tables DocumentKey σ}
    (hm : ∀ b, b ∈ t.mutations ↔ b ∈ (tables userId).mutations ∨ b = batch)
    (hi : ∀ k id, (k, id) ∈ t.documentMutations ↔
      (k, id) ∈ (tables userId).documentMutations ∨ id = batch.batchID ∧ batch.Affects k)
    {key : List Byte} {value : V} (hv : (addMutationBatch s rows userId batch).find key = some value) :
    Stored s (Function.update tables userId t) (key, value) := by
  rw [find_addMutationBatch] at hv
  split at hv
  · rename_i hex
    obtain ⟨m, hmem, rfl⟩ := hex
    cases hv
    refine @Stored.documentMutation _ _ s _ userId (m.key, batch.batchID) ?_
    rw [Function.update_self]
    exact (hi _ _).mpr (Or.inr ⟨rfl, m, hmem, rfl⟩)
  · by_cases hk : key = LevelDbMutationKey.key userId batch.batchID
    · subst hk
      rw [SortedMap.find_insert_self] at hv
      cases hv
      refine @Stored.mutation _ _ s _ userId batch ?_
      rw [Function.update_self]
      exact (hm batch).mpr (Or.inr rfl)
    · rw [SortedMap.find_insert_ne hk] at hv
      apply (h.stored _ (SortedMap.mem_rows.mpr hv)).update
      · exact fun b hb _ => (hm b).mpr (Or.inl hb)
      · exact fun r hr _ => (hi r.1 r.2).mpr (Or.inl hr)

theorem Represents.add (h : Represents s rows tables) (userId : List Byte) (hid : 0 ≤ batch.batchID ∧ batch.batchID ≤ 2 ^ 31 - 1)
    (hlt : ∀ b ∈ (tables userId).mutations, b.batchID < batch.batchID) :
    Represents s (addMutationBatch s rows userId batch)
      (Function.update tables userId ((tables userId).addMutationBatch batch)) := by
  obtain ⟨hcons, hrows⟩ := (h.consistent userId).add hid.1 hlt
  have hid32 : IsInt32 batch.batchID := ⟨le_trans (by decide) hid.1, hid.2⟩
  have hmem : ∀ b, b ∈ ((tables userId).addMutationBatch batch).mutations ↔ b ∈ (tables userId).mutations ∨ b = batch := by
    intro b
    rw [hrows, List.mem_append, List.mem_singleton]
  have hindex : ∀ k id, (k, id) ∈ ((tables userId).addMutationBatch batch).documentMutations ↔
      (k, id) ∈ (tables userId).documentMutations ∨ id = batch.batchID ∧ batch.Affects k :=
    fun k id => (h.consistent userId).mem_added hid.1 hlt
  apply h.update hcons
  · intro b hb
    rcases (hmem b).mp hb with hb | rfl
    · exact h.int32 userId b hb
    · exact hid.2
  · intro user hu b hb
    rw [find_mutation_added]
    exact SortedMap.find_insert_ne fun he => hu (mutation_key_inj (h.isInt32 hb) hid32 he).1
  · intro user hu r hr
    rw [find_index_added, if_neg]
    rintro ⟨m, -, he⟩
    exact hu (index_key_inj hid32 (h.index_int32 hr) he).1.symm
  · intro b hb
    rw [find_mutation_added]
    rcases (hmem b).mp hb with hb | rfl
    · rw [SortedMap.find_insert_ne fun he => absurd (mutation_key_inj (h.isInt32 hb) hid32 he).2 (ne_of_lt (hlt b hb))]
      exact SortedMap.mem_rows.mp (h.mutations userId b hb)
    · exact SortedMap.find_insert_self
  · rintro ⟨k, id⟩ hr
    rw [find_index_added]
    split
    · rfl
    · rename_i hno
      rcases (hindex k id).mp hr with hr | ⟨rfl, m, hm, rfl⟩
      · exact SortedMap.mem_rows.mp (h.documentMutations userId (k, id) hr)
      · exact absurd ⟨m, hm, rfl⟩ hno
  · exact fun k v hv => h.stored_added hmem hindex hv

/-- A row that is there after a removal was there before, and is not of the batch. -/
theorem Represents.stored_deleted (h : Represents s rows tables) {t : Tables DocumentKey σ}
    (hb : batch ∈ (tables userId).mutations)
    (hm : ∀ b, b ∈ t.mutations ↔ b ∈ (tables userId).mutations ∧ b.batchID ≠ batch.batchID)
    (hi : ∀ k id, (k, id) ∈ t.documentMutations ↔ (k, id) ∈ (tables userId).documentMutations ∧ id ≠ batch.batchID)
    {key : List Byte} {value : V} (hv : (deleteBatch rows userId batch).find key = some value) :
    Stored s (Function.update tables userId t) (key, value) := by
  rw [find_deleteBatch] at hv
  split at hv
  · cases hv
  · rename_i hno
    by_cases hk : key = LevelDbMutationKey.key userId batch.batchID
    · subst hk
      rw [SortedMap.find_erase_self] at hv
      cases hv
    · rw [SortedMap.find_erase_ne hk] at hv
      apply (h.stored _ (SortedMap.mem_rows.mpr hv)).update
      · exact fun b hin he => (hm b).mpr ⟨hin, fun hid => hk (hid ▸ he).symm⟩
      · intro r hr he
        refine (hi r.1 r.2).mpr ⟨hr, fun hid => ?_⟩
        obtain ⟨b, hin, hbid, m, hmem, hkey⟩ := ((h.consistent userId).indexed r.1 r.2).mp hr
        obtain rfl : b = batch := (h.consistent userId).sorted.inj hin hb (hbid.trans hid)
        exact hno ⟨m, hmem, by rw [hkey, ← hid]; exact he⟩

theorem Represents.remove (h : Represents s rows tables) (userId : List Byte) (hb : batch ∈ (tables userId).mutations) :
    ∃ rows' t, removeMutationBatch rows userId batch = .ok rows' ∧ (tables userId).removeMutationBatch batch = .ok t ∧
      Represents s rows' (Function.update tables userId t) := by
  obtain ⟨t, hrun, hcons, hleft, hindex⟩ := (h.consistent userId).removed hb
  have hid := h.isInt32 hb
  have hseek := seek_of_mem (h.mutations userId batch hb)
  refine ⟨deleteBatch rows userId batch, t, ?_, hrun, ?_⟩
  · unfold removeMutationBatch
    rw [hseek]
    simp only [Option.isSome_some, Option.any_some, decide_true, hardAssert_true, bind, Except.bind, pure, Except.pure]
  apply h.update hcons
  · intro b hb
    exact h.int32 userId b ((hleft b).mp hb).1
  · intro user hu b hb
    exact find_mutation_deleted user b.batchID fun he => hu (mutation_key_inj (h.isInt32 hb) hid he).1
  · intro user hu r hr
    exact find_index_deleted r.1 user r.2 fun m _ he => hu (index_key_inj hid (h.index_int32 hr) he).1.symm
  · intro b hb
    obtain ⟨hb, hne⟩ := (hleft b).mp hb
    rw [find_mutation_deleted userId b.batchID fun he => hne (mutation_key_inj (h.isInt32 hb) hid he).2]
    exact SortedMap.mem_rows.mp (h.mutations userId b hb)
  · rintro ⟨k, id⟩ hr
    obtain ⟨hr, hne⟩ := (hindex k id).mp hr
    rw [find_index_deleted k userId id fun m _ he => hne (index_key_inj hid (h.index_int32 hr) he).2.2.symm]
    exact SortedMap.mem_rows.mp (h.documentMutations userId (k, id) hr)
  · exact fun k v hv => h.stored_deleted hb hleft hindex hv

/-! ## Two users, and a row of another table -/

def storedOrEmpty : LocalSerializer (Option (MutationBatch DocumentKey Nat)) Nat where
  encodedMutationBatch := some
  decodedMutationBatch
    | some batch => .ok batch
    | none => .error "failed to parse"
  decoded_encoded := fun _ => rfl
  emptyBuffer := none

def oneDocument : DocumentKey := ⟨[[1], [2]], by decide⟩

def otherDocument : DocumentKey := ⟨[[1], [3]], by decide⟩

def firstWrite : MutationBatch DocumentKey Nat := { batchID := 0, localWriteTime := 0, mutations := [.delete oneDocument .none] }

def bothWritten : MutationBatch DocumentKey Nat := {
  batchID := 1
  localWriteTime := 0
  mutations := [.set oneDocument [] .none, .delete otherDocument .none, .delete oneDocument .none] }

def othersWrite : MutationBatch DocumentKey Nat := { batchID := 4, localWriteTime := 0, mutations := [.delete oneDocument .none] }

def added (tables : List Byte → Tables DocumentKey Nat) (write : List Byte × MutationBatch DocumentKey Nat) :
    List Byte → Tables DocumentKey Nat :=
  Function.update tables write.1 ((tables write.1).addMutationBatch write.2)

def threeAdded : List (List Byte × MutationBatch DocumentKey Nat) :=
  [([7], firstWrite), ([8], othersWrite), ([7], bothWritten)]

def twoUsers : List Byte → Tables DocumentKey Nat := threeAdded.foldl added fun _ => {}

def metadataRow : SortedMap (List Byte) (Option (MutationBatch DocumentKey Nat)) :=
  SortedMap.empty.insert (LevelDbMutationQueueKey.key [7], none)

def twoUsersRows : SortedMap (List Byte) (Option (MutationBatch DocumentKey Nat)) :=
  threeAdded.foldl (fun rows write => addMutationBatch storedOrEmpty rows write.1 write.2) metadataRow

theorem metadataRow_represented : Represents storedOrEmpty metadataRow fun _ => {} where
  consistent := fun _ => Tables.consistent_empty
  int32 := nofun
  stored := by
    intro row hr
    obtain rfl := List.mem_singleton.mp hr
    have hkey : LevelDbMutationQueueKey.key [7] = writeTableName kMutationQueuesTable ++ (writeUserId [7] ++ writeTerminator) :=
      List.append_assoc ..
    rw [hkey]
    exact .other (by decide) (by decide) _ _
  mutations := nofun
  documentMutations := nofun

theorem twoUsers_represented : Represents storedOrEmpty twoUsersRows twoUsers := by
  have h₁ : Represents storedOrEmpty (addMutationBatch storedOrEmpty metadataRow [7] firstWrite)
      (added (fun _ => {}) ([7], firstWrite)) := metadataRow_represented.add [7] (by decide) nofun
  have h₂ : Represents storedOrEmpty (addMutationBatch storedOrEmpty
      (addMutationBatch storedOrEmpty metadataRow [7] firstWrite) [8] othersWrite)
      (added (added (fun _ => {}) ([7], firstWrite)) ([8], othersWrite)) := h₁.add [8] (by decide) nofun
  refine h₂.add [7] (by decide) fun b hb => ?_
  obtain rfl := List.mem_singleton.mp hb
  decide

/-! ## Reads and writes -/

/-- **The rows are read as the tables**: over a database that holds the tables of every
user, among rows of other tables, each read of the queue has the answer of the tables
of its user. -/
theorem reads_tables (h : Represents s rows tables) (userId : List Byte) (documentKey : DocumentKey) {batchID : BatchId}
    (hid : IsInt32 batchID) (hnext : IsInt32 (max batchID (tables userId).highestAcknowledgedBatchID + 1)) :
    lookupMutationBatch s rows userId batchID = .ok ((tables userId).lookupMutationBatch batchID) ∧
    nextMutationBatchAfterBatchID s rows userId (tables userId).highestAcknowledgedBatchID batchID =
      .ok ((tables userId).nextMutationBatchAfterBatchID batchID) ∧
    allMutationBatchesThroughBatchID s rows userId batchID = .ok ((tables userId).allMutationBatchesThroughBatchID batchID) ∧
    allMutationBatchesAffectingDocumentKey s rows userId documentKey =
      .ok ((tables userId).mutations.filter (·.Affects documentKey)) ∧
    (tables userId).allMutationBatchesAffectingDocumentKey documentKey =
      .ok ((tables userId).mutations.filter (·.Affects documentKey)) := by
  have hread := (h.consistent userId).affecting documentKey
  refine ⟨?_, ?_, ?_, ?_, hread⟩
  · exact h.lookup hid
  · exact h.next hnext
  · exact h.through batchID
  · exact (h.affecting documentKey).trans hread

theorem reads_tables_twoUsers :
    lookupMutationBatch storedOrEmpty twoUsersRows [7] 0 = .ok (some firstWrite) ∧
    nextMutationBatchAfterBatchID storedOrEmpty twoUsersRows [7] batchIDUnknown 0 = .ok (some bothWritten) ∧
    allMutationBatchesThroughBatchID storedOrEmpty twoUsersRows [7] 0 = .ok [firstWrite] ∧
    allMutationBatchesAffectingDocumentKey storedOrEmpty twoUsersRows [7] oneDocument = .ok [firstWrite, bothWritten] := by
  obtain ⟨hlookup, hnext, hthrough, haffecting, -⟩ :=
    reads_tables twoUsers_represented [7] oneDocument (by decide : IsInt32 0) (by decide)
  exact ⟨hlookup, hnext, hthrough, haffecting⟩

/-- **The rows are written as the tables**: adding a batch of the next id, or removing
one that is there, leaves rows that hold the tables to which the same was done, with
those of every other user as they were. -/
theorem writes_tables (h : Represents s rows tables) (userId : List Byte) :
    (∀ batch : MutationBatch DocumentKey σ, 0 ≤ batch.batchID → batch.batchID ≤ 2 ^ 31 - 1 →
      (∀ b ∈ (tables userId).mutations, b.batchID < batch.batchID) →
      Represents s (addMutationBatch s rows userId batch)
        (Function.update tables userId ((tables userId).addMutationBatch batch))) ∧
    ∀ batch ∈ (tables userId).mutations,
      ∃ rows' t, removeMutationBatch rows userId batch = .ok rows' ∧ (tables userId).removeMutationBatch batch = .ok t ∧
        Represents s rows' (Function.update tables userId t) := by
  refine ⟨fun batch h0 hmax hlt => ?_, fun batch hb => ?_⟩
  · exact h.add userId ⟨h0, hmax⟩ hlt
  · exact h.remove userId hb

/-- A batch is added, and the first of the user is removed. -/
theorem writes_tables_twoUsers :
    Represents storedOrEmpty (addMutationBatch storedOrEmpty twoUsersRows [7] othersWrite)
      (added twoUsers ([7], othersWrite)) ∧
    ∃ rows' t, removeMutationBatch twoUsersRows [7] firstWrite = .ok rows' ∧
      Represents storedOrEmpty rows' (Function.update twoUsers [7] t) ∧ t.mutations = [bothWritten] ∧
      t.documentMutations = [(oneDocument, 1), (otherDocument, 1)] := by
  obtain ⟨hadd, hremove⟩ := writes_tables twoUsers_represented [7]
  refine ⟨hadd othersWrite (by decide) (by decide) (by decide), ?_⟩
  obtain ⟨rows', t, hrows, ht, hr⟩ := hremove firstWrite (List.mem_cons_self ..)
  obtain rfl := Except.ok.inj ht
  exact ⟨rows', _, hrows, hr, rfl, rfl⟩

end LevelDBMutationQueue

end ShoppingList.Firestore
