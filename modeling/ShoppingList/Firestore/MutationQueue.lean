import Mathlib.Data.List.Dedup
import Mathlib.Data.List.Sort
import ShoppingList.Firestore.Mutation
import ShoppingList.Lib.Collection
import ShoppingList.Lib.Ledger
import ShoppingList.Lib.Table

/-!
# The mutation queue

The writes of each user wait in a table, by their ids. A second table, the
index, has a row for each document a batch writes. The index must name the
batches of the first table and no others; a row that points nowhere ends the
process.
-/

namespace ShoppingList.Firestore

/-- Empty when nobody is signed in. -/
abbrev UserId := Text

variable {K σ : Type}

/-- The rows of one user. `lastAcknowledgedBatchID` is his row of metadata, if
it was ever written. -/
structure Tables (K σ : Type) where
  mutations : List (MutationBatch K σ) := []
  documentMutations : List (K × BatchId) := []
  lastAcknowledgedBatchID : Option BatchId := none

/-- The rows for the document come in the order of their ids. -/
def putDocumentMutation [DecidableEq K] (row : K × BatchId) (rows : List (K × BatchId)) : List (K × BatchId) :=
  if row ∈ rows then rows
  else rows.takeWhile (fun r => r.2 ≤ row.2) ++ row :: rows.dropWhile fun r => r.2 ≤ row.2

namespace Tables

def highestAcknowledgedBatchID (t : Tables K σ) : BatchId := t.lastAcknowledgedBatchID.getD batchIDUnknown

def isEmpty (t : Tables K σ) : Bool := t.mutations.isEmpty

def lookupMutationBatch (t : Tables K σ) (batchID : BatchId) : Option (MutationBatch K σ) :=
  Table.get MutationBatch.batchID batchID t.mutations

def nextMutationBatchAfterBatchID (t : Tables K σ) (batchID : BatchId) : Option (MutationBatch K σ) :=
  Table.seek MutationBatch.batchID (max batchID t.highestAcknowledgedBatchID + 1) t.mutations

def allMutationBatchesThroughBatchID (t : Tables K σ) (batchID : BatchId) : List (MutationBatch K σ) :=
  t.mutations.takeWhile fun batch => batch.batchID ≤ batchID

def acknowledgeBatch (t : Tables K σ) (batchID : BatchId) : Checked (Tables K σ) := do
  hardAssert (t.highestAcknowledgedBatchID < batchID) "Mutation batchIDs must be acknowledged in order"
  return { t with lastAcknowledgedBatchID := some batchID }

def performConsistencyCheck (t : Tables K σ) : Checked Unit :=
  if t.isEmpty then hardAssert t.documentMutations.isEmpty "Document leak" else .ok ()

variable [DecidableEq K]

def batchAt (t : Tables K σ) (row : K × BatchId) : Checked (MutationBatch K σ) :=
  match t.lookupMutationBatch row.2 with
  | some batch => .ok batch
  | none => .error "Dangling document-mutation reference found"

def allMutationBatchesAffectingDocumentKey (t : Tables K σ) (documentKey : K) :
    Checked (List (MutationBatch K σ)) :=
  (t.documentMutations.filter fun row => row.1 = documentKey).mapM t.batchAt

omit [DecidableEq K] in
def allMutationBatchesWithBatchIDs (t : Tables K σ) (batchIDs : List BatchId) : Checked (List (MutationBatch K σ)) :=
  batchIDs.mapM fun batchID =>
    match t.lookupMutationBatch batchID with
    | some batch => .ok batch
    | none => .error "Dangling document-mutation reference found"

/-- A batch that changes several of the documents comes once. -/
def allMutationBatchesAffectingDocumentKeys (t : Tables K σ) (documentKeys : List K) :
    Checked (List (MutationBatch K σ)) :=
  let batchIDs := documentKeys.flatMap fun documentKey =>
    (t.documentMutations.filter fun row => row.1 = documentKey).map (·.2)
  t.allMutationBatchesWithBatchIDs (batchIDs.dedup.insertionSort (· ≤ ·))

def addMutationBatch (t : Tables K σ) (batch : MutationBatch K σ) : Tables K σ := { t with
  mutations := Table.put MutationBatch.batchID batch t.mutations
  documentMutations := batch.mutations.foldl (fun rows m => putDocumentMutation (m.key, batch.batchID) rows)
    t.documentMutations }

def removeMutationBatch (t : Tables K σ) (batch : MutationBatch K σ) : Checked (Tables K σ) := do
  hardAssert (t.lookupMutationBatch batch.batchID).isSome "Mutation batch did not exist"
  return { t with
    mutations := Table.delete MutationBatch.batchID batch.batchID t.mutations
    documentMutations := batch.mutations.foldl (fun rows m => rows.filter (· ≠ (m.key, batch.batchID)))
      t.documentMutations }

def removeMutationBatches (t : Tables K σ) (batches : List (MutationBatch K σ)) : Checked (Tables K σ) :=
  batches.foldlM removeMutationBatch t

end Tables

def MutationBatch.Affects (documentKey : K) (batch : MutationBatch K σ) : Prop :=
  ∃ m ∈ batch.mutations, m.key = documentKey

instance [DecidableEq K] (documentKey : K) : DecidablePred (MutationBatch.Affects (σ := σ) documentKey) :=
  fun batch => inferInstanceAs (Decidable (∃ m ∈ batch.mutations, m.key = documentKey))

/-! ## The index -/

section
variable [DecidableEq K] {row : K × BatchId} {rows : List (K × BatchId)} {id : BatchId}

theorem putDocumentMutation_of_le (h : ∀ r ∈ rows, r.2 ≤ row.2) :
    putDocumentMutation row rows = Ledger.addAbsent rows row := by
  unfold putDocumentMutation Ledger.addAbsent
  by_cases hr : row ∈ rows
  · rw [if_pos hr, if_pos hr]
  · rw [if_neg hr, if_neg hr]
    rw [List.takeWhile_eq_self_iff.mpr fun r hr => decide_eq_true (h r hr)]
    rw [List.dropWhile_eq_nil_iff.mpr fun r hr => decide_eq_true (h r hr)]

structure IndexRows (rows : List (K × BatchId)) : Prop where
  sorted : rows.Pairwise fun r r' => r.2 ≤ r'.2
  nodup : rows.Nodup

theorem IndexRows.map_ids (h : IndexRows rows) (k : K) :
    ((rows.filter fun row => row.1 = k).map (·.2)).Pairwise (· < ·) := by
  apply List.pairwise_map.mpr
  have hfilter := (h.sorted.and h.nodup).filter fun row => row.1 = k
  refine hfilter.imp_of_mem fun {r r'} hr hr' ⟨hle, hne⟩ => ?_
  have hk : r.1 = k := of_decide_eq_true (List.mem_filter.mp hr).2
  have hk' : r'.1 = k := of_decide_eq_true (List.mem_filter.mp hr').2
  exact lt_of_le_of_ne hle fun he => hne (Prod.ext (hk.trans hk'.symm) he)

theorem IndexRows.addAbsent (h : IndexRows rows) (hle : ∀ r ∈ rows, r.2 ≤ row.2) :
    IndexRows (Ledger.addAbsent rows row) where
  sorted := by
    unfold Ledger.addAbsent
    split
    · exact h.sorted
    · apply List.pairwise_append.mpr
      refine ⟨h.sorted, List.pairwise_singleton _ _, fun r hr r' hr' => ?_⟩
      rw [List.mem_singleton.mp hr']
      exact hle r hr
  nodup := Ledger.nodup_addAbsent h.nodup row

theorem foldl_putDocumentMutation (ms : List (Mutation K σ)) : ∀ {rows : List (K × BatchId)}, IndexRows rows →
    (∀ r ∈ rows, r.2 ≤ id) →
    IndexRows (ms.foldl (fun rows m => putDocumentMutation (m.key, id) rows) rows) ∧
      ∀ r, r ∈ ms.foldl (fun rows m => putDocumentMutation (m.key, id) rows) rows ↔
        r ∈ rows ∨ ∃ m ∈ ms, r = (m.key, id) := by
  induction ms with
  | nil => intro rows h _; exact ⟨h, fun r => by simp⟩
  | cons m ms ih =>
    intro rows h hle
    rw [List.foldl_cons, putDocumentMutation_of_le hle]
    have hle' : ∀ r ∈ Ledger.addAbsent rows (m.key, id), r.2 ≤ id := by
      intro r hr
      rcases Ledger.mem_addAbsent.mp hr with hr | rfl
      · exact hle r hr
      · exact Int.le_refl _
    obtain ⟨hrows, hmem⟩ := ih (h.addAbsent hle) hle'
    refine ⟨hrows, fun r => ?_⟩
    rw [hmem, Ledger.mem_addAbsent]
    simp only [List.mem_cons, exists_eq_or_imp]
    tauto

theorem foldl_filter_ne (ms : List (Mutation K σ)) (rows : List (K × BatchId)) :
    ms.foldl (fun rows m => rows.filter (· ≠ (m.key, id))) rows =
      rows.filter fun r => ∀ m ∈ ms, r ≠ (m.key, id) := by
  induction ms generalizing rows with
  | nil => simp
  | cons m ms ih =>
    rw [List.foldl_cons, ih, List.filter_filter]
    apply List.filter_congr
    intro r _
    simp [Bool.and_comm]

end

/-! ## Consistent tables -/

namespace Tables

section
variable [DecidableEq K] {t : Tables K σ} {batch : MutationBatch K σ}

structure Consistent (t : Tables K σ) : Prop where
  sorted : Table.Sorted MutationBatch.batchID t.mutations
  nonneg : ∀ b ∈ t.mutations, 0 ≤ b.batchID
  indexed : ∀ k id, (k, id) ∈ t.documentMutations ↔ ∃ b ∈ t.mutations, b.batchID = id ∧ b.Affects k
  index : IndexRows t.documentMutations

omit [DecidableEq K] in
theorem consistent_empty : Consistent ({} : Tables K σ) where
  sorted := .nil
  nonneg := nofun
  indexed := fun k id => by simp
  index := ⟨.nil, .nil⟩

omit [DecidableEq K] in
theorem Consistent.of_same (h : t.Consistent) {t' : Tables K σ} (hm : t'.mutations = t.mutations)
    (hi : t'.documentMutations = t.documentMutations) : t'.Consistent where
  sorted := hm ▸ h.sorted
  nonneg := hm ▸ h.nonneg
  indexed := fun k id => by rw [hm, hi]; exact h.indexed k id
  index := hi ▸ h.index

theorem Consistent.add (h : t.Consistent) (h0 : 0 ≤ batch.batchID)
    (hlt : ∀ b ∈ t.mutations, b.batchID < batch.batchID) :
    (t.addMutationBatch batch).Consistent ∧ (t.addMutationBatch batch).mutations = t.mutations ++ [batch] := by
  have hput : (t.addMutationBatch batch).mutations = t.mutations ++ [batch] := Table.put_of_lt hlt
  have hle : ∀ r ∈ t.documentMutations, r.2 ≤ batch.batchID := by
    intro ⟨k, id⟩ hr
    obtain ⟨b, hb, rfl, -⟩ := (h.indexed k id).mp hr
    exact Int.le_of_lt (hlt b hb)
  obtain ⟨hindex, hmem⟩ := foldl_putDocumentMutation batch.mutations h.index hle
  refine ⟨⟨?_, fun b hb => ?_, fun k id => ?_, hindex⟩, hput⟩
  · rw [hput]
    exact h.sorted.append_singleton hlt
  · rw [hput] at hb
    rcases List.mem_append.mp hb with hb | hb
    · exact h.nonneg b hb
    · exact List.mem_singleton.mp hb ▸ h0
  · rw [hput]
    unfold addMutationBatch
    rw [hmem, h.indexed]
    constructor
    · rintro (⟨b, hb, hid, hk⟩ | ⟨m, hm, he⟩)
      · exact ⟨b, List.mem_append_left _ hb, hid, hk⟩
      · obtain ⟨rfl, rfl⟩ := Prod.mk.inj he
        exact ⟨batch, by simp, rfl, m, hm, rfl⟩
    · rintro ⟨b, hb, rfl, hk⟩
      rcases List.mem_append.mp hb with hb | hb
      · exact Or.inl ⟨b, hb, rfl, hk⟩
      · obtain rfl := List.mem_singleton.mp hb
        obtain ⟨m, hm, rfl⟩ := hk
        exact Or.inr ⟨m, hm, rfl⟩

/-- The index after an addition. -/
theorem Consistent.mem_added (h : t.Consistent) (h0 : 0 ≤ batch.batchID)
    (hlt : ∀ b ∈ t.mutations, b.batchID < batch.batchID) {k : K} {id : BatchId} :
    (k, id) ∈ (t.addMutationBatch batch).documentMutations ↔
      (k, id) ∈ t.documentMutations ∨ id = batch.batchID ∧ batch.Affects k := by
  obtain ⟨hcons, hrows⟩ := h.add h0 hlt
  rw [hcons.indexed, h.indexed, hrows]
  simp only [List.mem_append, List.mem_singleton]
  constructor
  · rintro ⟨b, hb | rfl, hid, hk⟩
    · exact Or.inl ⟨b, hb, hid, hk⟩
    · exact Or.inr ⟨hid.symm, hk⟩
  · rintro (⟨b, hb, hid, hk⟩ | ⟨rfl, hk⟩)
    · exact ⟨b, Or.inl hb, hid, hk⟩
    · exact ⟨batch, Or.inr rfl, rfl, hk⟩

omit [DecidableEq K] in
theorem Consistent.lookup (h : t.Consistent) (hb : batch ∈ t.mutations) :
    t.lookupMutationBatch batch.batchID = some batch := h.sorted.get_of_mem hb

theorem Consistent.remove (h : t.Consistent) {below above : List (MutationBatch K σ)}
    (ht : t.mutations = below ++ batch :: above) :
    ∃ t', t.removeMutationBatch batch = .ok t' ∧ t'.mutations = below ++ above ∧ t'.Consistent ∧
      t'.lastAcknowledgedBatchID = t.lastAcknowledgedBatchID := by
  have hmem : batch ∈ t.mutations := by simp [ht]
  have hsorted := h.sorted
  rw [ht] at hsorted
  have hdelete : Table.delete MutationBatch.batchID batch.batchID t.mutations = below ++ above := by
    rw [ht]
    exact hsorted.delete
  have hrun : t.removeMutationBatch batch = .ok { t with
      mutations := Table.delete MutationBatch.batchID batch.batchID t.mutations
      documentMutations := batch.mutations.foldl (fun rows m => rows.filter (· ≠ (m.key, batch.batchID)))
        t.documentMutations } := by
    unfold removeMutationBatch
    rw [hardAssert_ok (by rw [h.lookup hmem]; rfl)]
    rfl
  refine ⟨_, hrun, hdelete, ⟨?_, fun b hb => ?_, fun k id => ?_, ?_⟩, rfl⟩
  · exact h.sorted.filter _
  · exact h.nonneg b (Table.mem_delete.mp hb).1
  · show (k, id) ∈ batch.mutations.foldl _ t.documentMutations ↔
      ∃ b ∈ Table.delete MutationBatch.batchID batch.batchID t.mutations, _
    rw [foldl_filter_ne, List.mem_filter, h.indexed, decide_eq_true_eq]
    simp only [Table.mem_delete]
    constructor
    · rintro ⟨⟨b, hb, rfl, m, hm, rfl⟩, hne⟩
      refine ⟨b, ⟨hb, fun hid => ?_⟩, rfl, m, hm, rfl⟩
      obtain rfl := h.sorted.inj hb hmem hid
      exact hne m hm rfl
    · rintro ⟨b, ⟨hb, hid⟩, rfl, hk⟩
      refine ⟨⟨b, hb, rfl, hk⟩, fun m _ he => ?_⟩
      exact hid (Prod.mk.inj he).2
  · show IndexRows (batch.mutations.foldl _ t.documentMutations)
    rw [foldl_filter_ne]
    exact ⟨h.index.sorted.filter _, h.index.nodup.filter _⟩

/-- What is left after the removal of a batch that is there. -/
theorem Consistent.removed (h : t.Consistent) (hb : batch ∈ t.mutations) :
    ∃ t', t.removeMutationBatch batch = .ok t' ∧ t'.Consistent ∧
      (∀ b, b ∈ t'.mutations ↔ b ∈ t.mutations ∧ b.batchID ≠ batch.batchID) ∧
      ∀ k id, (k, id) ∈ t'.documentMutations ↔ (k, id) ∈ t.documentMutations ∧ id ≠ batch.batchID := by
  obtain ⟨below, above, hcut⟩ := List.append_of_mem hb
  obtain ⟨t', hrun, hrows, hcons, -⟩ := h.remove hcut
  have hleft : ∀ b, b ∈ t'.mutations ↔ b ∈ t.mutations ∧ b.batchID ≠ batch.batchID := by
    intro b
    have hdelete := (hcut ▸ h.sorted : Table.Sorted MutationBatch.batchID (below ++ batch :: above)).delete
    rw [hrows, ← hdelete, ← hcut]
    exact Table.mem_delete
  refine ⟨t', hrun, hcons, hleft, fun k id => ?_⟩
  rw [hcons.indexed, h.indexed]
  constructor
  · rintro ⟨b, hin, rfl, hk⟩
    exact ⟨⟨b, ((hleft b).mp hin).1, rfl, hk⟩, ((hleft b).mp hin).2⟩
  · rintro ⟨⟨b, hin, rfl, hk⟩, hne⟩
    exact ⟨b, (hleft b).mpr ⟨hin, hne⟩, rfl, hk⟩

theorem Consistent.removeFirst : ∀ {batches rest : List (MutationBatch K σ)} {t : Tables K σ}, t.Consistent →
    t.mutations = batches ++ rest →
    ∃ t', t.removeMutationBatches batches = .ok t' ∧ t'.mutations = rest ∧ t'.Consistent ∧
      t'.lastAcknowledgedBatchID = t.lastAcknowledgedBatchID := by
  intro batches
  induction batches with
  | nil => intro rest t h ht; exact ⟨t, rfl, ht, h, rfl⟩
  | cons batch batches ih =>
    intro rest t h ht
    have hcut : t.mutations = [] ++ batch :: (batches ++ rest) := ht
    obtain ⟨t₁, hrun, hrows, h₁, hack⟩ := h.remove hcut
    obtain ⟨t', hrun', hrows', h', hack'⟩ := ih h₁ hrows
    refine ⟨t', ?_, hrows', h', hack'.trans hack⟩
    unfold removeMutationBatches at hrun' ⊢
    rw [List.foldlM_cons, hrun]
    exact hrun'

omit [DecidableEq K] in
theorem Consistent.check (h : t.Consistent) : t.performConsistencyCheck = .ok () := by
  unfold performConsistencyCheck
  split
  · rename_i he
    apply hardAssert_ok
    rw [List.isEmpty_iff]
    apply List.eq_nil_iff_forall_not_mem.mpr
    intro ⟨k, id⟩ hr
    obtain ⟨b, hb, -⟩ := (h.indexed k id).mp hr
    rw [List.isEmpty_iff.mp he] at hb
    cases hb
  · rfl

/-! ## Reading through the index -/

omit [DecidableEq K] in
theorem mapM_ok {α β γ : Type} {f : α → γ} {g : β → γ} {read : α → Checked β} : ∀ {xs : List α} {ys : List β},
    xs.map f = ys.map g → (∀ x, ∀ y ∈ ys, g y = f x → read x = .ok y) → xs.mapM read = .ok ys
  | [], [], _, _ => rfl
  | [], _ :: _, h, _ | _ :: _, [], h, _ => nomatch h
  | x :: xs, y :: ys, h, hread => by
    rw [List.map_cons, List.map_cons, List.cons.injEq] at h
    have hrest := mapM_ok h.2 fun x y hy => hread x y (List.mem_cons_of_mem _ hy)
    rw [List.mapM_cons, hread x y (List.mem_cons_self ..) h.1.symm, hrest]
    rfl

omit [DecidableEq K] in
theorem Consistent.batchAt (h : t.Consistent) {row : K × BatchId} (hb : batch ∈ t.mutations)
    (hid : batch.batchID = row.2) : t.batchAt row = .ok batch := by
  unfold Tables.batchAt
  rw [← hid, h.lookup hb]

/-- The index leads to the batches that change the document, in their order. -/
theorem Consistent.affecting (h : t.Consistent) (k : K) :
    t.allMutationBatchesAffectingDocumentKey k = .ok (t.mutations.filter (·.Affects k)) := by
  have hids : (t.documentMutations.filter fun row => row.1 = k).map (·.2) =
      (t.mutations.filter (·.Affects k)).map (·.batchID) := by
    apply List.Pairwise.eq_of_mem_iff (r := fun i j : BatchId => i < j)
    · exact h.index.map_ids k
    · exact List.pairwise_map.mpr (h.sorted.filter _)
    · intro id
      simp only [List.mem_map, List.mem_filter, decide_eq_true_eq]
      constructor
      · rintro ⟨⟨k', id'⟩, ⟨hr, rfl⟩, rfl⟩
        obtain ⟨b, hb, rfl, hk⟩ := (h.indexed k' id').mp hr
        exact ⟨b, ⟨hb, hk⟩, rfl⟩
      · rintro ⟨b, ⟨hb, hk⟩, rfl⟩
        exact ⟨(k, b.batchID), ⟨(h.indexed k b.batchID).mpr ⟨b, hb, rfl, hk⟩, rfl⟩, rfl⟩
  unfold allMutationBatchesAffectingDocumentKey
  apply mapM_ok hids
  intro row b hb hid
  exact h.batchAt (List.mem_filter.mp hb).1 hid

/-- So do the index rows of several documents. -/
theorem Consistent.affectingKeys (h : t.Consistent) (keys : List K) :
    t.allMutationBatchesAffectingDocumentKeys keys = .ok (t.mutations.filter fun b => ∃ k ∈ keys, b.Affects k) := by
  obtain ⟨ids, hids⟩ : ∃ ids, ids = keys.flatMap fun k => (t.documentMutations.filter fun row => row.1 = k).map (·.2) :=
    ⟨_, rfl⟩
  have hmem : ∀ id, id ∈ ids ↔ ∃ k ∈ keys, (k, id) ∈ t.documentMutations := by
    intro id
    rw [hids]
    simp only [List.mem_flatMap, List.mem_map, List.mem_filter, decide_eq_true_eq]
    constructor
    · rintro ⟨k, hk, ⟨k', id'⟩, ⟨hr, rfl⟩, rfl⟩
      exact ⟨k', hk, hr⟩
    · rintro ⟨k, hk, hr⟩
      exact ⟨k, hk, (k, id), ⟨hr, rfl⟩, rfl⟩
  have hsorted : (ids.dedup.insertionSort (· ≤ ·)).map id =
      (t.mutations.filter fun b => ∃ k ∈ keys, b.Affects k).map (·.batchID) := by
    rw [List.map_id]
    apply List.Pairwise.eq_of_mem_iff (r := fun i j : BatchId => i < j)
    · have hle := List.pairwise_insertionSort (· ≤ ·) ids.dedup
      have hne : (ids.dedup.insertionSort (· ≤ ·)).Nodup :=
        (List.perm_insertionSort (· ≤ ·) ids.dedup).nodup_iff.mpr (List.nodup_dedup ids)
      exact (hle.and hne).imp fun ⟨hle, hne⟩ => lt_of_le_of_ne hle hne
    · exact List.pairwise_map.mpr (h.sorted.filter _)
    · intro id
      rw [(List.perm_insertionSort (· ≤ ·) ids.dedup).mem_iff, List.mem_dedup, hmem]
      simp only [List.mem_map, List.mem_filter, decide_eq_true_eq]
      constructor
      · rintro ⟨k, hk, hr⟩
        obtain ⟨b, hb, rfl, ha⟩ := (h.indexed k id).mp hr
        exact ⟨b, ⟨hb, k, hk, ha⟩, rfl⟩
      · rintro ⟨b, ⟨hb, k, hk, ha⟩, rfl⟩
        exact ⟨k, hk, (h.indexed k b.batchID).mpr ⟨b, hb, rfl, ha⟩⟩
  unfold allMutationBatchesAffectingDocumentKeys allMutationBatchesWithBatchIDs
  rw [← hids]
  apply mapM_ok hsorted
  intro batchID b hb hid
  change b.batchID = batchID at hid
  rw [← hid, h.lookup (List.mem_filter.mp hb).1]

end

/-! ## Held and pending batches -/

/-- The batches that are acknowledged but still held, and those that wait. -/
structure Split (t : Tables K σ) (held pending : List (MutationBatch K σ)) : Prop where
  consistent : t.Consistent
  rows : t.mutations = held ++ pending
  pending_gt : ∀ b ∈ pending, t.highestAcknowledgedBatchID < b.batchID
  last : ∀ b ∈ held.getLast?, b.batchID = t.highestAcknowledgedBatchID
  known : batchIDUnknown ≤ t.highestAcknowledgedBatchID

/-- The batches whose outcome is open. -/
def unacknowledged (t : Tables K σ) : List (MutationBatch K σ) :=
  t.mutations.filter fun batch => t.highestAcknowledgedBatchID < batch.batchID

/-- A user's tables while another user is signed in, and between two processes. -/
structure Resting (t : Tables K σ) : Prop where
  consistent : t.Consistent
  last : ∀ b ∈ t.mutations.getLast?, t.highestAcknowledgedBatchID ≤ b.batchID
  known : batchIDUnknown ≤ t.highestAcknowledgedBatchID

section
variable {t : Tables K σ} {held pending : List (MutationBatch K σ)}

/-- The acknowledged batches are removed when a process starts. -/
theorem Consistent.removeAcknowledged [DecidableEq K] (h : t.Consistent) : ∃ t',
    t.removeMutationBatches (t.allMutationBatchesThroughBatchID t.highestAcknowledgedBatchID) = .ok t' ∧
      t'.mutations = t.unacknowledged ∧ t'.Consistent ∧ t'.lastAcknowledgedBatchID = t.lastAcknowledgedBatchID ∧
        ∀ b ∈ t'.mutations, b ∈ t.mutations := by
  have hcut := h.sorted.split t.highestAcknowledgedBatchID
  have hthrough : t.allMutationBatchesThroughBatchID t.highestAcknowledgedBatchID =
      t.mutations.filter fun b => b.batchID ≤ t.highestAcknowledgedBatchID := by
    unfold allMutationBatchesThroughBatchID
    nth_rewrite 1 [hcut]
    refine Table.takeWhile_append (fun b hb => ?_) fun b hb => ?_
    · exact of_decide_eq_true (List.mem_filter.mp hb).2
    · exact of_decide_eq_true (List.mem_filter.mp hb).2
  obtain ⟨t', hrun, hrows, hcons, hack⟩ := h.removeFirst hcut
  refine ⟨t', hthrough ▸ hrun, hrows, hcons, hack, fun b hb => ?_⟩
  rw [hrows] at hb
  exact (List.mem_filter.mp hb).1

theorem resting_empty : Resting ({} : Tables K σ) := ⟨consistent_empty, nofun, Int.le_refl _⟩

theorem Split.held_le (h : t.Split held pending) : ∀ b ∈ held, b.batchID ≤ t.highestAcknowledgedBatchID := by
  have hsorted := h.consistent.sorted
  rw [h.rows] at hsorted
  obtain ⟨hheld, -, -⟩ := List.pairwise_append.mp hsorted
  rcases List.eq_nil_or_concat held with rfl | ⟨below, last, rfl⟩
  · nofun
  · have hlast := h.last last (by simp)
    obtain ⟨-, -, hlt⟩ := List.pairwise_append.mp (List.concat_eq_append ▸ hheld)
    intro b hb
    rw [List.concat_eq_append] at hb
    rcases List.mem_append.mp hb with hb | hb
    · exact hlast ▸ Int.le_of_lt (hlt b hb last (List.mem_singleton_self _))
    · exact Int.le_of_eq (List.mem_singleton.mp hb ▸ hlast)

theorem Split.resting (h : t.Split held pending) : t.Resting where
  consistent := h.consistent
  known := h.known
  last := by
    intro b hb
    rw [h.rows, List.getLast?_append] at hb
    cases hp : pending.getLast? with
    | some p =>
      rw [hp] at hb
      cases hb
      exact Int.le_of_lt (h.pending_gt b (List.mem_of_getLast? hp))
    | none =>
      rw [hp] at hb
      exact Int.le_of_eq (h.last b hb).symm

theorem Split.unacknowledged (h : t.Split held pending) : t.unacknowledged = pending := by
  unfold Tables.unacknowledged
  rw [h.rows, List.filter_append]
  rw [List.filter_eq_nil_iff.mpr fun b hb => by simpa using h.held_le b hb]
  rw [List.filter_eq_self.mpr fun b hb => decide_eq_true (h.pending_gt b hb), List.nil_append]

/-- The next batch to send is the first that waits after the last one sent. -/
theorem Split.next (h : t.Split held pending) {sent rest : List (MutationBatch K σ)} (hp : pending = sent ++ rest) :
    t.nextMutationBatchAfterBatchID ((sent.getLast?.map (·.batchID)).getD batchIDUnknown) = rest.head? := by
  have hsorted := h.consistent.sorted
  rw [h.rows, hp, ← List.append_assoc] at hsorted
  obtain ⟨-, -, hcut⟩ := List.pairwise_append.mp hsorted
  unfold nextMutationBatchAfterBatchID
  rw [h.rows, hp, ← List.append_assoc]
  rcases List.eq_nil_or_concat sent with rfl | ⟨sent, b, rfl⟩
  · have hmax : max batchIDUnknown t.highestAcknowledgedBatchID = t.highestAcknowledgedBatchID := max_eq_right h.known
    simp only [List.getLast?_nil, Option.map_none, Option.getD_none, List.append_nil, hmax]
    apply Table.seek_append
    · intro b hb
      exact Int.lt_add_one_iff.mpr (h.held_le b hb)
    · intro b hb
      exact Int.add_one_le_iff.mpr (h.pending_gt b (by simp [hp, hb]))
  · rw [List.concat_eq_append] at hsorted hcut hp ⊢
    have hb : t.highestAcknowledgedBatchID < b.batchID := h.pending_gt b (by simp [hp])
    have hmax : max b.batchID t.highestAcknowledgedBatchID = b.batchID := max_eq_left (Int.le_of_lt hb)
    simp only [List.getLast?_concat, Option.map_some, Option.getD_some, hmax]
    apply Table.seek_append
    · intro c hc
      apply Int.lt_add_one_iff.mpr
      rw [← List.append_assoc] at hsorted hc
      obtain ⟨hbelow, -, -⟩ := List.pairwise_append.mp hsorted
      obtain ⟨-, -, hlt⟩ := List.pairwise_append.mp hbelow
      rcases List.mem_append.mp hc with hc | hc
      · exact Int.le_of_lt (hlt c hc b (List.mem_singleton_self b))
      · exact Int.le_of_eq (congrArg _ (List.mem_singleton.mp hc))
    · intro c hc
      exact Int.add_one_le_iff.mpr (hcut b (by simp) c hc)

end

end Tables

/-! ## The database -/

abbrev Database (K σ : Type) := Collection UserId (Tables K σ)

namespace Database

def tables (db : Database K σ) (userID : UserId) : Tables K σ := (db.lookup userID).getD {}

/-- Past the last row of every user; his last row has his highest id. -/
def loadNextBatchID (db : Database K σ) : BatchId :=
  (db.entries.filterMap fun e => e.2.mutations.getLast?).foldl (fun maxBatchID batch => max maxBatchID batch.batchID)
    batchIDUnknown + 1

def Resting (db : Database K σ) : Prop := ∀ userID, (db.tables userID).Resting

@[simp] theorem tables_insert_self (db : Database K σ) (userID : UserId) (t : Tables K σ) :
    tables (db.insert userID t) userID = t := by
  unfold tables
  rw [AList.lookup_insert]
  rfl

theorem tables_insert_ne (db : Database K σ) {userID user : UserId} (h : user ≠ userID) (t : Tables K σ) :
    tables (db.insert userID t) user = db.tables user := by
  unfold tables
  rw [AList.lookup_insert_ne h]

theorem foldl_max_le (batches : List (MutationBatch K σ)) (n : BatchId) :
    n ≤ batches.foldl (fun maxBatchID batch => max maxBatchID batch.batchID) n ∧
      ∀ b ∈ batches, b.batchID ≤ batches.foldl (fun maxBatchID batch => max maxBatchID batch.batchID) n := by
  induction batches generalizing n with
  | nil => exact ⟨Int.le_refl n, nofun⟩
  | cons batch batches ih =>
    obtain ⟨hn, hb⟩ := ih (max n batch.batchID)
    refine ⟨(le_max_left n batch.batchID).trans hn, fun b hm => ?_⟩
    rcases List.mem_cons.mp hm with rfl | hm
    · exact (le_max_right n b.batchID).trans hn
    · exact hb b hm

variable {db : Database K σ} {userID : UserId}

theorem nonneg_loadNextBatchID (db : Database K σ) : 0 ≤ db.loadNextBatchID := by
  have h := (foldl_max_le (db.entries.filterMap fun e => e.2.mutations.getLast?) batchIDUnknown).1
  exact Int.add_le_add_right h 1

theorem Resting.lt_loadNextBatchID (h : db.Resting) {b : MutationBatch K σ} (hb : b ∈ (db.tables userID).mutations) :
    b.batchID < db.loadNextBatchID := by
  apply Int.lt_add_one_iff.mpr
  have hsorted := (h userID).consistent.sorted
  unfold tables at hb hsorted
  cases hl : db.lookup userID with
  | none => rw [hl] at hb; cases hb
  | some t =>
    rw [hl, Option.getD_some] at hb hsorted
    rcases List.eq_nil_or_concat t.mutations with hnil | ⟨below, last, hrows⟩
    · rw [hnil] at hb; cases hb
    · rw [List.concat_eq_append] at hrows
      have hlast : last ∈ db.entries.filterMap fun e => e.2.mutations.getLast? :=
        List.mem_filterMap.mpr ⟨⟨userID, t⟩, AList.mem_lookup_iff.mp hl, by simp [hrows]⟩
      refine Int.le_trans ?_ ((foldl_max_le _ batchIDUnknown).2 last hlast)
      rw [hrows] at hb hsorted
      obtain ⟨-, -, hlt⟩ := List.pairwise_append.mp hsorted
      rcases List.mem_append.mp hb with hb | hb
      · exact Int.le_of_lt (hlt b hb last (List.mem_singleton_self last))
      · exact Int.le_of_eq (congrArg _ (List.mem_singleton.mp hb))

end Database

/-! ## The queue of the signed-in user -/

structure MutationQueue (K σ : Type) where
  db : Database K σ := ∅
  userID : UserId
  nextBatchID : BatchId := 0

namespace MutationQueue

def tables (q : MutationQueue K σ) : Tables K σ := q.db.tables q.userID

def put (q : MutationQueue K σ) (t : Tables K σ) : MutationQueue K σ := { q with db := q.db.insert q.userID t }

def start (q : MutationQueue K σ) : Checked (MutationQueue K σ) := do
  let nextBatchID := q.db.loadNextBatchID
  match q.tables.lastAcknowledgedBatchID with
  | none => return { q with nextBatchID }
  | some lastAcked =>
    if nextBatchID ≤ lastAcked then
      hardAssert q.tables.isEmpty "Reset nextBatchID is only possible when the queue is empty"
      return { q.put { q.tables with lastAcknowledgedBatchID := some batchIDUnknown } with nextBatchID }
    else return { q with nextBatchID }

def addMutationBatch [DecidableEq K] (q : MutationQueue K σ) (localWriteTime : Timestamp)
    (mutations : List (Mutation K σ)) : MutationBatch K σ × MutationQueue K σ :=
  let batch := { batchID := q.nextBatchID, localWriteTime, mutations }
  (batch, { q.put (q.tables.addMutationBatch batch) with nextBatchID := q.nextBatchID + 1 })

@[simp] theorem tables_put (q : MutationQueue K σ) (t : Tables K σ) : (q.put t).tables = t :=
  Database.tables_insert_self q.db q.userID t

theorem put_db_ne (q : MutationQueue K σ) (t : Tables K σ) {user : UserId} (h : user ≠ q.userID) :
    (q.put t).db.tables user = q.db.tables user :=
  Database.tables_insert_ne q.db h t

variable {q : MutationQueue K σ}

/-- An id below the ones that were acknowledged can be given out again only when
no row is left. -/
theorem start_eq (h : q.db.Resting) : ∃ q', q.start = .ok q' ∧ q'.userID = q.userID ∧
    q'.nextBatchID = q.db.loadNextBatchID ∧ (∀ user ≠ q.userID, q'.db.tables user = q.db.tables user) ∧
    q'.tables.mutations = q.tables.mutations ∧ q'.tables.documentMutations = q.tables.documentMutations ∧
    q'.tables.unacknowledged = q.tables.unacknowledged ∧ batchIDUnknown ≤ q'.tables.highestAcknowledgedBatchID ∧
    q'.tables.highestAcknowledgedBatchID < q.db.loadNextBatchID := by
  have hknown := (h q.userID).known
  unfold start
  cases hack : q.tables.lastAcknowledgedBatchID with
  | none =>
    have hhigh : q.tables.highestAcknowledgedBatchID = batchIDUnknown := by
      rw [Tables.highestAcknowledgedBatchID, hack]
      rfl
    have hlt : q.tables.highestAcknowledgedBatchID < q.db.loadNextBatchID := by
      have h0 := Database.nonneg_loadNextBatchID q.db
      rw [hhigh]
      exact lt_of_lt_of_le (by decide) h0
    exact ⟨{ q with nextBatchID := q.db.loadNextBatchID }, rfl, rfl, rfl, fun _ _ => rfl, rfl, rfl, rfl, hknown, hlt⟩
  | some lastAcked =>
    have hhigh : q.tables.highestAcknowledgedBatchID = lastAcked := by
      rw [Tables.highestAcknowledgedBatchID, hack]
      rfl
    by_cases hreset : q.db.loadNextBatchID ≤ lastAcked
    · have hempty : q.tables.mutations = [] := by
        cases hrows : q.tables.mutations.getLast? with
        | none => exact List.getLast?_eq_none_iff.mp hrows
        | some b =>
          have hle : q.tables.highestAcknowledgedBatchID ≤ b.batchID := (h q.userID).last b hrows
          have hlt : b.batchID < q.db.loadNextBatchID := h.lt_loadNextBatchID (List.mem_of_getLast? hrows)
          rw [hhigh] at hle
          exact absurd (lt_of_lt_of_le hlt hreset) (not_lt_of_ge hle)
      refine ⟨{ q.put { q.tables with lastAcknowledgedBatchID := some batchIDUnknown } with
        nextBatchID := q.db.loadNextBatchID }, ?_, rfl, rfl, fun user hu => q.put_db_ne _ hu, ?_⟩
      · simp only [if_pos hreset]
        rw [hardAssert_ok (by rw [Tables.isEmpty, hempty]; rfl)]
        rfl
      · have htables : MutationQueue.tables { q.put { q.tables with lastAcknowledgedBatchID := some batchIDUnknown } with
            nextBatchID := q.db.loadNextBatchID } = { q.tables with lastAcknowledgedBatchID := some batchIDUnknown } :=
          q.tables_put _
        rw [htables]
        refine ⟨rfl, rfl, ?_, Int.le_refl _, ?_⟩
        · simp [Tables.unacknowledged, hempty]
        · have hneg : batchIDUnknown < 0 := by decide
          exact lt_of_lt_of_le hneg (Database.nonneg_loadNextBatchID q.db)
    · refine ⟨{ q with nextBatchID := q.db.loadNextBatchID }, ?_, rfl, rfl, fun _ _ => rfl, rfl, rfl, rfl, hknown, ?_⟩
      · simp only [if_neg hreset]
        rfl
      · show q.tables.highestAcknowledgedBatchID < q.db.loadNextBatchID
        rw [hhigh]
        exact Int.not_le.mp hreset

end MutationQueue

end ShoppingList.Firestore
