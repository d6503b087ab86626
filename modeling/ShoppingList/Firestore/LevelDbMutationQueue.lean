import ShoppingList.Firestore.LevelDbKey
import ShoppingList.Firestore.MutationQueue
import ShoppingList.Firestore.TransactionIterator

/-!
# The mutation queue in the rows of the database

The tables of all users share one list of rows, sorted by the bytes of the keys.
The queue seeks to a key and reads on until a row is not its own. What it reads
is what the tables of its user have.
-/

namespace ShoppingList.Firestore

open Codes OrderedCode Reader

/-- A batch is read from its bytes as it was written. -/
structure LocalSerializer (V σ : Type) where
  encodedMutationBatch : MutationBatch DocumentKey σ → V
  decodedMutationBatch : V → Checked (MutationBatch DocumentKey σ)
  decoded_encoded : ∀ batch, decodedMutationBatch (encodedMutationBatch batch) = .ok batch
  emptyBuffer : V

namespace LevelDBMutationQueue

variable {V σ : Type} (s : LocalSerializer V σ) (rows : SortedMap (List Byte) V) (userId : List Byte)

def seek (key : List Byte) : Option (List Byte × V) := rows.rows.find? fun row => key ≤ row.1

/-- The rows that an iterator comes by from the key on. -/
def scan (key : List Byte) : List (List Byte × V) := rows.rows.filter fun row => key ≤ row.1

theorem seek_commit (t : Transaction (List Byte) V) (it : Iterator (List Byte) V) (key : List Byte) :
    (it.seek t key).current = seek t.commit key := Iterator.current_place (SortedMap.upward_le key)

theorem scan_commit (t : Transaction (List Byte) V) (it : Iterator (List Byte) V) (key : List Byte) (n : Nat) :
    (it.seek t key).rest t n = (scan t.commit key).take n := by
  have hup := SortedMap.upward_le key
  exact (Iterator.inStep_place hup).rest hup (Iterator.current_place hup) n

def lookupMutationBatch (batchID : BatchId) : Checked (Option (MutationBatch DocumentKey σ)) :=
  match rows.find (LevelDbMutationKey.key userId batchID) with
  | none => .ok none
  | some value => (s.decodedMutationBatch value).map some

def nextMutationBatchAfterBatchID (lastAcknowledgedBatchId batchID : BatchId) :
    Checked (Option (MutationBatch DocumentKey σ)) := do
  let nextBatchID := max batchID lastAcknowledgedBatchId + 1
  match seek rows (LevelDbMutationKey.key userId nextBatchID) with
  | none => return none
  | some row =>
    match ← LevelDbMutationKey.decode row.1 with
    | none => return none
    | some (rowUser, rowBatch) =>
      if rowUser ≠ userId then return none
      else
        hardAssert (nextBatchID ≤ rowBatch) "Should have found mutation after"
        return some (← s.decodedMutationBatch row.2)

/-- The loop of `allMutationBatchesThroughBatchID`. -/
def through (batchID : BatchId) : List (List Byte × V) → Checked (List (MutationBatch DocumentKey σ))
  | [] => .ok []
  | row :: rest => do
    match ← LevelDbMutationKey.decode row.1 with
    | none => return []
    | some (rowUser, rowBatch) =>
      if rowUser ≠ userId then return []
      else if batchID < rowBatch then return []
      else return (← s.decodedMutationBatch row.2) :: (← through batchID rest)

def allMutationBatchesThroughBatchID (batchID : BatchId) : Checked (List (MutationBatch DocumentKey σ)) :=
  through s userId batchID (scan rows (LevelDbMutationKey.keyPrefixOf userId))

/-- The loop of `allMutationBatchesAffectingDocumentKey`. -/
def affecting (documentKey : DocumentKey) : List (List Byte × V) → Checked (List (MutationBatch DocumentKey σ))
  | [] => .ok []
  | row :: rest => do
    if ¬LevelDbDocumentMutationKey.keyPrefixOfPath userId documentKey.path <+: row.1 then return []
    else
      match ← LevelDbDocumentMutationKey.decode row.1 with
      | none => return []
      | some (_, rowKey, rowBatch) =>
        if rowKey ≠ documentKey then return []
        else
          match seek rows (LevelDbMutationKey.key userId rowBatch) with
          | none => .error "Dangling document-mutation reference found"
          | some found =>
            if found.1 ≠ LevelDbMutationKey.key userId rowBatch then .error "Dangling document-mutation reference found"
            else return (← s.decodedMutationBatch found.2) :: (← affecting documentKey rest)

def allMutationBatchesAffectingDocumentKey (documentKey : DocumentKey) : Checked (List (MutationBatch DocumentKey σ)) :=
  affecting s rows userId documentKey (scan rows (LevelDbDocumentMutationKey.keyPrefixOfPath userId documentKey.path))

/-! ## The rows of a user -/

/-- What a row can be, for the tables of each user. -/
inductive Stored (tables : List Byte → Tables DocumentKey σ) : List Byte × V → Prop where
  | mutation (userId : List Byte) {batch : MutationBatch DocumentKey σ} (h : batch ∈ (tables userId).mutations) :
    Stored tables (LevelDbMutationKey.key userId batch.batchID, s.encodedMutationBatch batch)
  | documentMutation (userId : List Byte) {row : DocumentKey × BatchId} (h : row ∈ (tables userId).documentMutations) :
    Stored tables (LevelDbDocumentMutationKey.key userId row.1 row.2, s.emptyBuffer)
  | other {tableName : List Byte} (h : tableName ≠ kMutationsTable) (h' : tableName ≠ kDocumentMutationsTable)
    (rest : List Byte) (value : V) : Stored tables (writeTableName tableName ++ rest, value)

structure Represents (tables : List Byte → Tables DocumentKey σ) : Prop where
  consistent : ∀ userId, (tables userId).Consistent
  int32 : ∀ userId, ∀ batch ∈ (tables userId).mutations, batch.batchID ≤ 2 ^ 31 - 1
  stored : ∀ row ∈ rows.rows, Stored s tables row
  mutations : ∀ userId, ∀ batch ∈ (tables userId).mutations,
    (LevelDbMutationKey.key userId batch.batchID, s.encodedMutationBatch batch) ∈ rows.rows
  documentMutations : ∀ userId, ∀ row ∈ (tables userId).documentMutations,
    (LevelDbDocumentMutationKey.key userId row.1 row.2, s.emptyBuffer) ∈ rows.rows

theorem eq_of_labeledString {label : ComponentLabel} {value value' x x' : List Byte}
    (h : writeLabeledString label value ++ x = writeLabeledString label value' ++ x') : value = value' ∧ x = x' := by
  unfold writeLabeledString at h
  rw [List.append_assoc, List.append_assoc, List.append_cancel_left_eq] at h
  have hread := readString_writeString value x
  rw [h, readString_writeString] at hread
  obtain ⟨rfl, rfl⟩ := Prod.mk.inj (Option.some.inj hread)
  exact ⟨rfl, rfl⟩

theorem lt_key_iff {userId : List Byte} {id id' : BatchId} (h : IsInt32 id) (h' : IsInt32 id') :
    LevelDbMutationKey.key userId id < LevelDbMutationKey.key userId id' ↔ id < id' := by
  unfold LevelDbMutationKey.key
  simp only [List.append_assoc]
  rw [append_left_lt_iff, append_left_lt_iff, batchId_lt_iff h h']

variable {s rows userId} {tables : List Byte → Tables DocumentKey σ} {row : List Byte × V}

theorem Represents.isInt32 (h : Represents s rows tables) {batch : MutationBatch DocumentKey σ}
    (hb : batch ∈ (tables userId).mutations) : IsInt32 batch.batchID := by
  have hle := h.int32 userId batch hb
  have h0 := (h.consistent userId).nonneg batch hb
  exact ⟨le_trans (by decide) h0, hle⟩

/-- A row whose key begins as those of the user's batches is one of these. -/
theorem Represents.mutation_row (h : Represents s rows tables) (hr : row ∈ rows.rows)
    (hp : LevelDbMutationKey.keyPrefixOf userId <+: row.1) :
    ∃ batch ∈ (tables userId).mutations, row = (LevelDbMutationKey.key userId batch.batchID, s.encodedMutationBatch batch) := by
  obtain ⟨x, hx⟩ := hp
  unfold LevelDbMutationKey.keyPrefixOf at hx
  cases h.stored row hr with
  | mutation user hb =>
    unfold LevelDbMutationKey.key writeUserId at hx
    simp only [List.append_assoc, List.append_cancel_left_eq] at hx
    obtain ⟨rfl, -⟩ := eq_of_labeledString hx
    exact ⟨_, hb, rfl⟩
  | documentMutation user hi =>
    unfold LevelDbDocumentMutationKey.key writeTableName at hx
    simp only [List.append_assoc] at hx
    exact absurd (eq_of_labeledString hx).1 (by decide)
  | other hne _ rest value =>
    unfold writeTableName at hx
    simp only [List.append_assoc] at hx
    exact absurd (eq_of_labeledString hx).1.symm hne

theorem keyPrefixOf_begins (userId : List Byte) (id : BatchId) :
    LevelDbMutationKey.keyPrefixOf userId <+: LevelDbMutationKey.key userId id := by
  unfold LevelDbMutationKey.keyPrefixOf LevelDbMutationKey.key
  exact ⟨writeBatchId id ++ writeTerminator, by simp only [List.append_assoc]⟩

/-- The key of any other row is not decoded, or to another user. -/
theorem Represents.decode_other (h : Represents s rows tables) (hr : row ∈ rows.rows)
    (hp : ¬LevelDbMutationKey.keyPrefixOf userId <+: row.1) :
    LevelDbMutationKey.decode row.1 = .ok none ∨
      ∃ user id, LevelDbMutationKey.decode row.1 = .ok (some (user, id)) ∧ user ≠ userId := by
  cases h.stored row hr with
  | mutation user hb =>
    refine Or.inr ⟨user, _, LevelDbMutationKey.decode_key user (h.isInt32 hb), ?_⟩
    rintro rfl
    exact hp (keyPrefixOf_begins user _)
  | documentMutation user hi =>
    left
    unfold LevelDbDocumentMutationKey.key
    simp only [List.append_assoc]
    exact LevelDbMutationKey.decode_other (by decide) _
  | other hne _ rest value => exact Or.inl (LevelDbMutationKey.decode_other hne rest)

/-! ## Reading the batches -/

theorem Represents.lookup (h : Represents s rows tables) {batchID : BatchId} (hid : IsInt32 batchID) :
    lookupMutationBatch s rows userId batchID = .ok ((tables userId).lookupMutationBatch batchID) := by
  unfold lookupMutationBatch
  cases hf : rows.find (LevelDbMutationKey.key userId batchID) with
  | none =>
    have hnone : (tables userId).lookupMutationBatch batchID = none := by
      apply List.find?_eq_none.mpr
      intro batch hb he
      obtain rfl := of_decide_eq_true he
      exact SortedMap.find_eq_none.mp hf _ (h.mutations userId batch hb) rfl
    rw [hnone]
  | some value =>
    obtain ⟨batch, hb, he⟩ := h.mutation_row (SortedMap.mem_rows.mpr hf) (keyPrefixOf_begins userId batchID)
    obtain ⟨hkey, rfl⟩ := Prod.mk.inj he
    have hdecode := LevelDbMutationKey.decode_key userId hid
    rw [hkey, LevelDbMutationKey.decode_key userId (h.isInt32 hb)] at hdecode
    obtain rfl : batch.batchID = batchID := by simpa using hdecode
    rw [(h.consistent userId).lookup hb]
    simp [s.decoded_encoded, Except.map]

theorem seek_of_mem {key : List Byte} {value : V} (h : (key, value) ∈ rows.rows) : seek rows key = some (key, value) := by
  refine SortedMap.find?_eq_some (p := fun k => decide (key ≤ k)) ⟨h, by simp, fun row' _ hle => ?_⟩
  simpa using hle

theorem first_of_seek {batches : List (MutationBatch DocumentKey σ)} {batch : MutationBatch DocumentKey σ} {id : BatchId}
    (hs : Table.Sorted MutationBatch.batchID batches) (h : Table.seek MutationBatch.batchID id batches = some batch) :
    ∀ batch' ∈ batches, id ≤ batch'.batchID → batch.batchID ≤ batch'.batchID := by
  obtain ⟨-, below, above, hcut, hbelow⟩ := List.find?_eq_some_iff_append.mp h
  intro batch' hb hle
  rw [hcut] at hb hs
  obtain ⟨-, hs, -⟩ := List.pairwise_append.mp hs
  rcases List.mem_append.mp hb with hb | hb
  · exact absurd hle (by simpa using hbelow batch' hb)
  · rcases List.mem_cons.mp hb with rfl | hb
    · exact le_refl _
    · exact ((List.pairwise_cons.mp hs).1 batch' hb).le

theorem Represents.next (h : Represents s rows tables) {batchID : BatchId}
    (hid : IsInt32 (max batchID (tables userId).highestAcknowledgedBatchID + 1)) :
    nextMutationBatchAfterBatchID s rows userId (tables userId).highestAcknowledgedBatchID batchID =
      .ok ((tables userId).nextMutationBatchAfterBatchID batchID) := by
  unfold nextMutationBatchAfterBatchID Tables.nextMutationBatchAfterBatchID
  generalize max batchID (tables userId).highestAcknowledgedBatchID + 1 = nextBatchID at hid
  dsimp only
  cases ht : Table.seek MutationBatch.batchID nextBatchID (tables userId).mutations with
  | some batch =>
    have hb : batch ∈ (tables userId).mutations := List.mem_of_find?_eq_some ht
    have hle : nextBatchID ≤ batch.batchID := by simpa [Table.seek] using List.find?_some ht
    have hseek : seek rows (LevelDbMutationKey.key userId nextBatchID) =
        some (LevelDbMutationKey.key userId batch.batchID, s.encodedMutationBatch batch) := by
      refine SortedMap.find?_eq_some (p := fun k => decide (LevelDbMutationKey.key userId nextBatchID ≤ k))
        ⟨h.mutations userId batch hb, ?_, fun row' hr hge => ?_⟩
      · rw [decide_eq_true_iff, ← not_lt, lt_key_iff (h.isInt32 hb) hid]
        exact not_lt.mpr hle
      · by_contra hnot
        have hge : ¬row'.1 < LevelDbMutationKey.key userId nextBatchID := not_lt.mpr (by simpa using hge)
        have hlt : row'.1 < LevelDbMutationKey.key userId batch.batchID := not_le.mp hnot
        obtain ⟨x, hx⟩ := keyPrefixOf_begins userId nextBatchID
        obtain ⟨y, hy⟩ := keyPrefixOf_begins userId batch.batchID
        obtain ⟨batch', hb', rfl⟩ := h.mutation_row hr (prefix_of_between (hx ▸ hge) (hy ▸ lt_asymm hlt))
        rw [lt_key_iff (h.isInt32 hb') hid] at hge
        rw [lt_key_iff (h.isInt32 hb') (h.isInt32 hb)] at hlt
        exact absurd hlt (not_lt.mpr (first_of_seek (h.consistent userId).sorted ht batch' hb' (not_lt.mp hge)))
    have hdecode := LevelDbMutationKey.decode_key userId (h.isInt32 hb)
    rw [hseek]
    simp only [hdecode, bind, Except.bind, hardAssert, decide_eq_true hle, s.decoded_encoded, if_true, ne_eq, not_true,
      if_false, pure, Except.pure]
  | none =>
    have hnone : ∀ batch ∈ (tables userId).mutations, batch.batchID < nextBatchID := fun batch hb => by
      simpa [Table.seek] using List.find?_eq_none.mp ht batch hb
    cases hf : seek rows (LevelDbMutationKey.key userId nextBatchID) with
    | none => rfl
    | some row =>
      have hr : row ∈ rows.rows := List.mem_of_find?_eq_some hf
      have hge : ¬row.1 < LevelDbMutationKey.key userId nextBatchID := not_lt.mpr (by simpa [seek] using List.find?_some hf)
      have hp : ¬LevelDbMutationKey.keyPrefixOf userId <+: row.1 := by
        intro hp
        obtain ⟨batch, hb, rfl⟩ := h.mutation_row hr hp
        rw [lt_key_iff (h.isInt32 hb) hid] at hge
        exact hge (hnone batch hb)
      rcases h.decode_other hr hp with hdecode | ⟨user, id, hdecode, hne⟩
      · simp only [hdecode, bind, Except.bind, pure, Except.pure]
      · simp only [hdecode, bind, Except.bind, pure, Except.pure, ne_eq, hne, not_false_eq_true, if_true]

theorem through_stop {batchID : BatchId} {above : List (List Byte × V)} (h : Represents s rows tables)
    (hin : ∀ row ∈ above, row ∈ rows.rows) (hp : ∀ row ∈ above, ¬LevelDbMutationKey.keyPrefixOf userId <+: row.1) :
    through s userId batchID above = .ok [] := by
  cases above with
  | nil => rfl
  | cons row above =>
    unfold through
    rcases h.decode_other (hin row (List.mem_cons_self ..)) (hp row (List.mem_cons_self ..)) with hdecode | ⟨user, id, hdecode, hne⟩
    · simp only [hdecode, bind, Except.bind, pure, Except.pure]
    · simp only [hdecode, bind, Except.bind, pure, Except.pure, ne_eq, hne, not_false_eq_true, if_true]

theorem through_append {batchID : BatchId} {above : List (List Byte × V)} {batches : List (MutationBatch DocumentKey σ)}
    (hids : ∀ batch ∈ batches, IsInt32 batch.batchID) (hstop : through s userId batchID above = .ok []) :
    through s userId batchID
      (batches.map (fun batch => (LevelDbMutationKey.key userId batch.batchID, s.encodedMutationBatch batch)) ++ above) =
      .ok (batches.takeWhile fun batch => batch.batchID ≤ batchID) := by
  induction batches with
  | nil => exact hstop
  | cons batch batches ih =>
    have hdecode := LevelDbMutationKey.decode_key userId (hids batch (List.mem_cons_self ..))
    have hrest := ih fun b hb => hids b (List.mem_cons_of_mem _ hb)
    rw [List.map_cons, List.cons_append]
    unfold through
    by_cases hlt : batchID < batch.batchID
    · have hle : ¬batch.batchID ≤ batchID := not_le.mpr hlt
      simp [hdecode, hlt, hle, bind, Except.bind, pure, Except.pure]
    · have hle : batch.batchID ≤ batchID := not_lt.mp hlt
      simp [hdecode, hlt, hle, bind, Except.bind, pure, Except.pure, s.decoded_encoded, hrest]

/-- The rows from the user's prefix on are those of his batches and then others. -/
theorem Represents.scan (h : Represents s rows tables) (userId : List Byte) : ∃ above, scan rows (LevelDbMutationKey.keyPrefixOf userId) =
    (tables userId).mutations.map (fun batch => (LevelDbMutationKey.key userId batch.batchID, s.encodedMutationBatch batch)) ++ above ∧
    (∀ row ∈ above, row ∈ rows.rows) ∧ ∀ row ∈ above, ¬LevelDbMutationKey.keyPrefixOf userId <+: row.1 := by
  obtain ⟨above, hscan, hin, hp⟩ := filter_from rows.sorted (LevelDbMutationKey.keyPrefixOf userId)
  have hmine : (rows.rows.filter fun row => LevelDbMutationKey.keyPrefixOf userId <+: row.1) =
      (tables userId).mutations.map fun batch => (LevelDbMutationKey.key userId batch.batchID, s.encodedMutationBatch batch) := by
    have hsorted : Table.Sorted Prod.fst ((tables userId).mutations.map fun batch =>
        (LevelDbMutationKey.key userId batch.batchID, s.encodedMutationBatch batch)) := by
      apply List.pairwise_map.mpr
      refine (h.consistent userId).sorted.imp_of_mem fun {b b'} hb hb' hlt => ?_
      exact (lt_key_iff (h.isInt32 hb) (h.isInt32 hb')).mpr hlt
    apply (rows.sorted.filter _).eq_of_mem_iff hsorted
    intro row
    rw [List.mem_filter, List.mem_map, decide_eq_true_iff]
    constructor
    · rintro ⟨hr, hp⟩
      obtain ⟨batch, hb, rfl⟩ := h.mutation_row hr hp
      exact ⟨batch, hb, rfl⟩
    · rintro ⟨batch, hb, rfl⟩
      exact ⟨h.mutations userId batch hb, keyPrefixOf_begins userId _⟩
  exact ⟨above, hmine ▸ hscan, hin, hp⟩

theorem Represents.through (h : Represents s rows tables) (batchID : BatchId) :
    allMutationBatchesThroughBatchID s rows userId batchID = .ok ((tables userId).allMutationBatchesThroughBatchID batchID) := by
  obtain ⟨above, hscan, hin, hp⟩ := h.scan userId
  unfold allMutationBatchesThroughBatchID
  rw [hscan]
  exact through_append (fun batch hb => h.isInt32 hb) (through_stop h hin hp)

/-! ## Reading the index -/

theorem eq_of_label {label label' : ComponentLabel} {x x' : List Byte}
    (h : writeComponentLabel label ++ x = writeComponentLabel label' ++ x') : label = label' ∧ x = x' := by
  have hread := readComponentLabelMatching_write label label' x
  rw [h, readComponentLabelMatching_write] at hread
  obtain ⟨hl, rfl⟩ := Prod.mk.inj (Option.some.inj (Except.ok.inj hread))
  have hl : label.value = label'.value := of_decide_eq_true (hl.symm.trans (decide_eq_true rfl))
  exact ⟨label_eq hl, rfl⟩

/-- A path is written before another only if that one goes on from it. -/
theorem path_extends {batchId : BatchId} {rest x : List Byte} (path path' : ResourcePath)
    (h : writeResourcePath path ++ x = writeResourcePath path' ++ (writeBatchId batchId ++ rest)) :
    ∃ below, path' = path ++ below ∧ x = writeResourcePath below ++ (writeBatchId batchId ++ rest) := by
  induction path generalizing path' with
  | nil => exact ⟨path', rfl, h⟩
  | cons segment path ih =>
    cases path' with
    | nil =>
      unfold writeBatchId writeLabeledInt32 at h
      rw [writeResourcePath_cons] at h
      unfold writeLabeledString at h
      simp only [List.append_assoc] at h
      exact absurd (eq_of_label (h : _ = writeComponentLabel .batchId ++ _)).1 (by decide)
    | cons segment' path' =>
      rw [writeResourcePath_cons, writeResourcePath_cons] at h
      obtain ⟨rfl, hrest⟩ := eq_of_labeledString h
      obtain ⟨below, rfl, hx⟩ := ih path' hrest
      exact ⟨below, rfl, hx⟩

theorem Represents.index_row (h : Represents s rows tables) (hr : row ∈ rows.rows) {documentKey : DocumentKey} {x : List Byte}
    (hx : LevelDbDocumentMutationKey.keyPrefixOfPath userId documentKey.path ++ x = row.1) :
    ∃ r ∈ (tables userId).documentMutations, row = (LevelDbDocumentMutationKey.key userId r.1 r.2, s.emptyBuffer) ∧
      ∃ below, r.1.path = documentKey.path ++ below ∧ x = writeResourcePath below ++ (writeBatchId r.2 ++ writeTerminator) := by
  unfold LevelDbDocumentMutationKey.keyPrefixOfPath at hx
  cases h.stored row hr with
  | mutation user hb =>
    unfold LevelDbMutationKey.key writeTableName at hx
    simp only [List.append_assoc] at hx
    exact absurd (eq_of_labeledString hx).1 (by decide)
  | @documentMutation user r hi =>
    unfold LevelDbDocumentMutationKey.key writeUserId at hx
    simp only [List.append_assoc, List.append_cancel_left_eq] at hx
    obtain ⟨rfl, hrest⟩ := eq_of_labeledString hx
    exact ⟨r, hi, rfl, path_extends _ _ hrest⟩
  | other _ hne rest value =>
    unfold writeTableName at hx
    simp only [List.append_assoc] at hx
    exact absurd (eq_of_labeledString hx).1.symm hne

/-- The loop ends at the first row that is not the document's own. -/
theorem affecting_stop (h : Represents s rows tables) {documentKey : DocumentKey} {above : List (List Byte × V)}
    (hin : ∀ row ∈ above, row ∈ rows.rows)
    (hp : ∀ row ∈ above, ∀ id, row.1 ≠ LevelDbDocumentMutationKey.key userId documentKey id) :
    affecting s rows userId documentKey above = .ok [] := by
  cases above with
  | nil => rfl
  | cons row above =>
    unfold affecting
    by_cases hpre : LevelDbDocumentMutationKey.keyPrefixOfPath userId documentKey.path <+: row.1
    · obtain ⟨x, hx⟩ := hpre
      obtain ⟨r, hr, rfl, -⟩ := h.index_row (hin row (List.mem_cons_self ..)) hx
      have hne : r.1 ≠ documentKey := fun he => hp _ (List.mem_cons_self ..) r.2 (he ▸ rfl)
      have hid : IsInt32 r.2 := by
        obtain ⟨b, hb, hid, -⟩ := ((h.consistent userId).indexed r.1 r.2).mp hr
        exact hid ▸ h.isInt32 hb
      rw [if_neg (not_not.mpr ⟨x, hx⟩)]
      simp [LevelDbDocumentMutationKey.decode_key userId r.1 hid, hne, bind, Except.bind, pure, Except.pure]
    · rw [if_pos hpre]
      rfl

theorem index_lt_iff {documentKey : DocumentKey} {id id' : BatchId} (h : IsInt32 id) (h' : IsInt32 id') :
    LevelDbDocumentMutationKey.key userId documentKey id < LevelDbDocumentMutationKey.key userId documentKey id' ↔ id < id' := by
  unfold LevelDbDocumentMutationKey.key
  simp only [List.append_assoc]
  rw [append_left_lt_iff, append_left_lt_iff, path_lt_iff h h']
  simp

theorem index_key_eq (userId : List Byte) (documentKey : DocumentKey) (id : BatchId) :
    LevelDbDocumentMutationKey.key userId documentKey id =
      LevelDbDocumentMutationKey.keyPrefixOfPath userId documentKey.path ++ (writeBatchId id ++ writeTerminator) := by
  unfold LevelDbDocumentMutationKey.key LevelDbDocumentMutationKey.keyPrefixOfPath
  simp only [List.append_assoc]

theorem Represents.index_int32 (h : Represents s rows tables) {r : DocumentKey × BatchId}
    (hr : r ∈ (tables userId).documentMutations) : IsInt32 r.2 := by
  obtain ⟨b, hb, hid, -⟩ := ((h.consistent userId).indexed r.1 r.2).mp hr
  exact hid ▸ h.isInt32 hb

/-- With the label of a batch first, no row of the document or below it comes before its own. -/
theorem Represents.own_first (h : Represents s rows tables) (hr : row ∈ rows.rows) {documentKey : DocumentKey}
    (hp : LevelDbDocumentMutationKey.keyPrefixOfPath userId documentKey.path <+: row.1) :
    LevelDbDocumentMutationKey.keyPrefixOfPath userId documentKey.path ++ writeComponentLabel .batchId ≤ row.1 := by
  obtain ⟨x, hx⟩ := hp
  obtain ⟨r, -, -, path, -, hrest⟩ := h.index_row hr hx
  rw [← hx, hrest, ← not_lt]
  cases path with
  | nil =>
    refine not_lt_of_extends ⟨writeSignedNumIncreasing r.2 ++ writeTerminator, ?_⟩
    show _ = LevelDbDocumentMutationKey.keyPrefixOfPath userId documentKey.path ++
      (writeComponentLabel .batchId ++ writeSignedNumIncreasing r.2 ++ writeTerminator)
    simp only [List.append_assoc]
  | cons segment path =>
    have hlt : ComponentLabel.value .batchId < ComponentLabel.value .pathSegment := by decide
    refine lt_asymm ?_
    rw [writeResourcePath_cons, append_left_lt_iff, ← List.append_nil (writeComponentLabel .batchId)]
    unfold writeLabeledString
    rw [List.append_assoc, label_lt_iff]
    exact Or.inl hlt

theorem index_key_begins (userId : List Byte) (documentKey : DocumentKey) (id : BatchId) :
    LevelDbDocumentMutationKey.keyPrefixOfPath userId documentKey.path ++ writeComponentLabel .batchId <+:
      LevelDbDocumentMutationKey.key userId documentKey id := by
  rw [index_key_eq]
  unfold writeBatchId writeLabeledInt32
  exact ⟨writeSignedNumIncreasing id ++ writeTerminator, by simp only [List.append_assoc]⟩

/-- The rows with the label of a batch after the path are the document's own. -/
theorem Represents.document_rows (h : Represents s rows tables) (userId : List Byte) (documentKey : DocumentKey) :
    (rows.rows.filter fun row =>
      LevelDbDocumentMutationKey.keyPrefixOfPath userId documentKey.path ++ writeComponentLabel .batchId <+: row.1) =
      ((tables userId).documentMutations.filter fun r => r.1 = documentKey).map fun r =>
        (LevelDbDocumentMutationKey.key userId r.1 r.2, s.emptyBuffer) := by
  have hsorted : Table.Sorted Prod.fst (((tables userId).documentMutations.filter fun r => r.1 = documentKey).map fun r =>
      (LevelDbDocumentMutationKey.key userId r.1 r.2, s.emptyBuffer)) := by
    apply List.pairwise_map.mpr
    refine (List.pairwise_map.mp ((h.consistent userId).index.map_ids documentKey)).imp_of_mem fun {r r'} hr hr' hlt => ?_
    obtain ⟨hr, he⟩ := List.mem_filter.mp hr
    obtain ⟨hr', he'⟩ := List.mem_filter.mp hr'
    show LevelDbDocumentMutationKey.key userId r.1 r.2 < LevelDbDocumentMutationKey.key userId r'.1 r'.2
    rw [of_decide_eq_true he, of_decide_eq_true he']
    exact (index_lt_iff (h.index_int32 hr) (h.index_int32 hr')).mpr hlt
  apply (rows.sorted.filter _).eq_of_mem_iff hsorted
  intro row
  rw [List.mem_filter, List.mem_map, decide_eq_true_iff]
  constructor
  · rintro ⟨hr, x, hx⟩
    rw [List.append_assoc] at hx
    obtain ⟨r, hi, rfl, path, hpath, hrest⟩ := h.index_row hr hx
    cases path with
    | nil =>
      have he : r.1 = documentKey := by
        cases hk : r.1
        cases documentKey
        simpa [hk] using hpath
      exact ⟨r, List.mem_filter.mpr ⟨hi, decide_eq_true he⟩, rfl⟩
    | cons segment path =>
      rw [writeResourcePath_cons] at hrest
      unfold writeLabeledString at hrest
      rw [List.append_assoc] at hrest
      exact absurd (eq_of_label hrest).1 (by decide)
  · rintro ⟨r, hr, rfl⟩
    obtain ⟨hr, he⟩ := List.mem_filter.mp hr
    exact ⟨h.documentMutations userId r hr, of_decide_eq_true he ▸ index_key_begins userId r.1 r.2⟩

/-- From the document's prefix on come its own rows, by their batches, then those of
the documents below it and others. -/
theorem Represents.index_scan (h : Represents s rows tables) (userId : List Byte) (documentKey : DocumentKey) : ∃ above,
    LevelDBMutationQueue.scan rows (LevelDbDocumentMutationKey.keyPrefixOfPath userId documentKey.path) =
      (((tables userId).documentMutations.filter fun r => r.1 = documentKey).map fun r =>
        (LevelDbDocumentMutationKey.key userId r.1 r.2, s.emptyBuffer)) ++ above ∧
    (∀ row ∈ above, row ∈ rows.rows) ∧
    ∀ row ∈ above, ∀ id, row.1 ≠ LevelDbDocumentMutationKey.key userId documentKey id := by
  obtain ⟨above, hscan, hin, hp⟩ := filter_from rows.sorted
    (LevelDbDocumentMutationKey.keyPrefixOfPath userId documentKey.path ++ writeComponentLabel .batchId)
  refine ⟨above, ?_, hin, fun row hr id he => hp row hr (he ▸ index_key_begins userId documentKey id)⟩
  rw [← h.document_rows userId documentKey, ← hscan]
  apply List.filter_congr
  intro row hr
  rw [decide_eq_decide]
  constructor
  · intro hle
    by_cases hpre : LevelDbDocumentMutationKey.keyPrefixOfPath userId documentKey.path <+: row.1
    · exact h.own_first hr hpre
    · by_contra hlt
      have hlo : ¬row.1 < LevelDbDocumentMutationKey.keyPrefixOfPath userId documentKey.path ++ [] := by
        rw [List.append_nil]
        exact not_lt.mpr hle
      exact hpre (prefix_of_between hlo (lt_asymm (not_le.mp hlt)))
  · intro hle
    exact (not_lt.mp (not_lt_of_extends (List.prefix_append ..))).trans hle

theorem affecting_append (h : Represents s rows tables) {documentKey : DocumentKey} {above : List (List Byte × V)}
    (hstop : affecting s rows userId documentKey above = .ok []) {entries : List (DocumentKey × BatchId)}
    {batches : List (MutationBatch DocumentKey σ)} (hin : ∀ r ∈ entries, r ∈ (tables userId).documentMutations ∧ r.1 = documentKey)
    (hread : entries.mapM (tables userId).batchAt = .ok batches) :
    affecting s rows userId documentKey
      (entries.map (fun r => (LevelDbDocumentMutationKey.key userId r.1 r.2, s.emptyBuffer)) ++ above) = .ok batches := by
  induction entries generalizing batches with
  | nil =>
    cases hread
    exact hstop
  | cons r entries ih =>
    obtain ⟨hr, rfl⟩ := hin r (List.mem_cons_self ..)
    rw [List.mapM_cons] at hread
    cases hb : (tables userId).batchAt r with
    | error message =>
      rw [hb] at hread
      cases hread
    | ok batch =>
      rw [hb] at hread
      cases hrest : entries.mapM (tables userId).batchAt with
      | error message =>
        rw [hrest] at hread
        cases hread
      | ok rest =>
        rw [hrest] at hread
        cases hread
        have hlookup : (tables userId).lookupMutationBatch r.2 = some batch := by
          unfold Tables.batchAt at hb
          cases hl : (tables userId).lookupMutationBatch r.2 with
          | none =>
            rw [hl] at hb
            cases hb
          | some found =>
            rw [hl] at hb
            cases hb
            rfl
        have hmem : batch ∈ (tables userId).mutations := List.mem_of_find?_eq_some hlookup
        have hid : batch.batchID = r.2 := by simpa [Tables.lookupMutationBatch, Table.get] using List.find?_some hlookup
        have hseek := seek_of_mem (h.mutations userId batch hmem)
        have hpre : LevelDbDocumentMutationKey.keyPrefixOfPath userId r.1.path <+:
            LevelDbDocumentMutationKey.key userId r.1 r.2 := ⟨_, (index_key_eq userId r.1 r.2).symm⟩
        have hdecode := LevelDbDocumentMutationKey.decode_key userId r.1 (h.index_int32 hr)
        have hafter := ih (fun r' hr' => hin r' (List.mem_cons_of_mem _ hr')) hrest
        rw [hid] at hseek
        rw [List.map_cons, List.cons_append]
        unfold affecting
        rw [if_neg (not_not.mpr hpre)]
        simp [hdecode, hseek, s.decoded_encoded, hafter, bind, Except.bind, pure, Except.pure]

theorem Represents.affecting (h : Represents s rows tables) (documentKey : DocumentKey) :
    allMutationBatchesAffectingDocumentKey s rows userId documentKey =
      (tables userId).allMutationBatchesAffectingDocumentKey documentKey := by
  obtain ⟨above, hscan, hin, hp⟩ := h.index_scan userId documentKey
  have hread := (h.consistent userId).affecting documentKey
  unfold allMutationBatchesAffectingDocumentKey
  rw [hscan, hread]
  refine affecting_append h (affecting_stop h hin hp) (fun r hr => ?_) hread
  obtain ⟨hr, he⟩ := List.mem_filter.mp hr
  exact ⟨hr, of_decide_eq_true he⟩

end LevelDBMutationQueue

end ShoppingList.Firestore
