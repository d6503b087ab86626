import Mathlib.Data.List.Dedup
import ShoppingList.Firestore.LocalStore

/-!
# What the local store keeps

The rows of the signed-in user are the held batches followed by the ones that
wait. Acknowledgements come in the order of the ids, so the held batches are
always the first rows, and no operation on the store fails.
-/

namespace ShoppingList.Firestore

variable {K σ : Type}

/-! ## Applying a result -/

namespace BatchResult

def Fits (result : BatchResult K σ) : Prop :=
  List.Forall₂ Mutation.Fits result.batch.mutations result.mutationResults

section
variable [DecidableEq K] {result : BatchResult K σ} {k : K}

/-- The cached document after the result. -/
def applyTo [DecidableEq σ] (result : BatchResult K σ) (k : K) (doc : Option (MaybeDocument K σ)) :
    Option (MaybeDocument K σ) :=
  match result.docVersions k with
  | some ackVersion =>
    if doc.all (·.version < ackVersion) then result.batch.acknowledged result.mutationResults doc k else doc
  | none => doc

theorem docVersions_isSome (h : result.Fits) : (result.docVersions k).isSome ↔ result.batch.Affects k := by
  have hfold : ∀ {ms : List (Mutation K σ)} {results : List (MutationResult σ)}, List.Forall₂ Mutation.Fits ms results →
      ∀ v : Option SnapshotVersion, ((ms.zip results).foldl (fun version p =>
        if p.1.key = k then some (p.2.version.getD result.commitVersion) else version) v).isSome ↔
          v.isSome ∨ ∃ m ∈ ms, m.key = k := by
    intro ms results hf
    induction hf with
    | nil => intro v; simp
    | @cons m r ms results hm hf ih =>
      intro v
      rw [List.zip_cons_cons, List.foldl_cons, ih]
      by_cases hk : m.key = k
      · simp [hk]
      · simp [hk]
  unfold docVersions
  rw [hfold h]
  simp [MutationBatch.Affects]

theorem applyTo_of_not_affects [DecidableEq σ] (h : result.Fits) (hk : ¬result.batch.Affects k)
    (doc : Option (MaybeDocument K σ)) : result.applyTo k doc = doc := by
  have hnone : result.docVersions k = none :=
    Option.not_isSome_iff_eq_none.mp fun hs => hk ((docVersions_isSome h).mp hs)
  unfold applyTo
  rw [hnone]

end

end BatchResult

theorem MutationBatch.mem_keys [DecidableEq K] {batch : MutationBatch K σ} {k : K} : k ∈ batch.keys ↔ batch.Affects k := by
  simp [keys, Affects]

namespace LocalStore

section
variable [DecidableEq K] [DecidableEq σ] {result : BatchResult K σ} {docs : RemoteDocumentCache K σ} {k : K}

theorem applyBatchResultTo_eq (hd : docs.Kept) (h : result.Fits) (hk : result.batch.Affects k) :
    ∃ docs', applyBatchResultTo result docs k = .ok docs' ∧ docs'.Kept ∧
      docs'.lookup k = result.applyTo k (docs.lookup k) ∧ ∀ k' ≠ k, docs'.lookup k' = docs.lookup k' := by
  obtain ⟨ackVersion, hack⟩ := Option.isSome_iff_exists.mp ((BatchResult.docVersions_isSome h).mpr hk)
  unfold applyBatchResultTo BatchResult.applyTo
  rw [hd.entryForKey]
  simp only [hack, bind, Except.bind]
  by_cases hv : (docs.lookup k).all (·.version < ackVersion) = true
  · obtain ⟨hrun, hkeyed⟩ := MutationBatch.applyToRemoteDocument_eq (hd.lookup k) h
    rw [if_pos hv, if_pos hv, hrun]
    cases hdoc : result.batch.acknowledged result.mutationResults (docs.lookup k) k with
    | none =>
      have hnone : (docs.lookup k).isNone = true := by
        cases hl : docs.lookup k with
        | none => rfl
        | some d =>
          have hsome := result.batch.acknowledged_isSome (k := k) result.mutationResults
            (show (docs.lookup k).isSome by rw [hl]; rfl)
          rw [hdoc] at hsome
          cases hsome
      refine ⟨docs, ?_, hd, Option.isNone_iff_eq_none.mp hnone, fun _ _ => rfl⟩
      dsimp only
      rw [hardAssert_ok hnone]
      rfl
    | some doc =>
      obtain rfl : doc.key = k := hkeyed doc hdoc
      exact ⟨docs.addEntry doc, rfl, hd.addEntry doc, AList.lookup_insert docs, fun k' hk' => AList.lookup_insert_ne hk'⟩
  · rw [if_neg hv, if_neg hv]
    exact ⟨docs, rfl, hd, rfl, fun _ _ => rfl⟩

theorem foldlM_applyBatchResultTo (h : result.Fits) : ∀ {keys : List K} {docs : RemoteDocumentCache K σ},
    docs.Kept → keys.Nodup → (∀ k ∈ keys, result.batch.Affects k) →
    ∃ docs', keys.foldlM (applyBatchResultTo result) docs = .ok docs' ∧ docs'.Kept ∧
      ∀ k, docs'.lookup k = if k ∈ keys then result.applyTo k (docs.lookup k) else docs.lookup k
  | [], docs, hd, _, _ => ⟨docs, rfl, hd, fun k => by simp⟩
  | key :: keys, docs, hd, hn, hall => by
    obtain ⟨hkey, hn⟩ := List.nodup_cons.mp hn
    obtain ⟨docs₁, hrun, hd₁, hself, hother⟩ := applyBatchResultTo_eq hd h (hall key (List.mem_cons_self ..))
    obtain ⟨docs', hrun', hd', hl⟩ := foldlM_applyBatchResultTo h hd₁ hn
      fun k hk => hall k (List.mem_cons_of_mem _ hk)
    refine ⟨docs', ?_, hd', fun k => ?_⟩
    · rw [List.foldlM_cons, hrun]
      exact hrun'
    · rw [hl k]
      by_cases hk : k = key
      · subst hk
        rw [if_neg hkey, if_pos (List.mem_cons_self ..), hself]
      · simp [hk, hother k hk]

theorem applyBatchResult_eq (hd : docs.Kept) (h : result.Fits) : ∃ docs', applyBatchResult result docs = .ok docs' ∧
    docs'.Kept ∧ ∀ k, docs'.lookup k = result.applyTo k (docs.lookup k) := by
  obtain ⟨docs', hrun, hd', hl⟩ := foldlM_applyBatchResultTo h hd (List.nodup_dedup _)
    fun k hk => MutationBatch.mem_keys.mp hk
  refine ⟨docs', hrun, hd', fun k => ?_⟩
  rw [hl]
  split
  · rfl
  · rename_i hk
    exact (BatchResult.applyTo_of_not_affects h (fun ha => hk (MutationBatch.mem_keys.mpr ha)) _).symm

end

/-! ## Valid stores -/

/-- The batches that are to be sent, in order. -/
def pending (s : LocalStore K σ) : List (MutationBatch K σ) := s.tables.mutations.drop s.heldBatchResults.length

def heldBatches (s : LocalStore K σ) : List (MutationBatch K σ) := s.heldBatchResults.map (·.batch)

structure Sound (s : LocalStore K σ) : Prop where
  split : s.tables.Split s.heldBatches s.pending
  others : ∀ user ≠ s.mutationQueue.userID, (s.mutationQueue.db.tables user).Resting
  next : ∀ b ∈ s.tables.mutations, b.batchID < s.mutationQueue.nextBatchID
  acknowledged : s.tables.highestAcknowledgedBatchID < s.mutationQueue.nextBatchID
  fits : ∀ result ∈ s.heldBatchResults, result.Fits
  kept : s.remoteDocuments.Kept

/-- The first held result waits for a snapshot that is still to come. -/
structure Valid (s : LocalStore K σ) : Prop extends Sound s where
  waiting : ∀ result ∈ s.heldBatchResults.head?, s.isRemoteUpToVersion result.commitVersion = false

/-- The tables of the other users are as they were. -/
structure SameUser (s s' : LocalStore K σ) : Prop where
  userID : s'.mutationQueue.userID = s.mutationQueue.userID
  others : ∀ user ≠ s.mutationQueue.userID, s'.mutationQueue.db.tables user = s.mutationQueue.db.tables user

section
variable {s : LocalStore K σ}

@[simp] theorem tables_put (s : LocalStore K σ) (t : Tables K σ) : (s.put t).tables = t :=
  s.mutationQueue.tables_put t

theorem Sound.rows (h : s.Sound) : s.tables.mutations = s.heldBatches ++ s.pending := h.split.rows

theorem valid_empty : Valid ({ mutationQueue := { userID := [] } } : LocalStore K σ) :=
  ⟨⟨⟨Tables.consistent_empty, rfl, fun b hb => (by cases hb), fun b hb => (by cases hb), Int.le_refl _⟩,
    fun _ _ => Tables.resting_empty, fun b hb => (by cases hb), show batchIDUnknown < 0 by decide, (fun r hr => by cases hr),
      RemoteDocumentCache.kept_empty⟩,
    fun r hr => by cases hr⟩

theorem drop_heldBatches {results : List (BatchResult K σ)} {rest : List (MutationBatch K σ)} :
    (results.map (·.batch) ++ rest).drop results.length = rest := by
  rw [List.drop_append_of_le_length (by simp), List.drop_of_length_le (by simp), List.nil_append]

theorem SameUser.refl (s : LocalStore K σ) : SameUser s s := ⟨rfl, fun _ _ => rfl⟩

theorem SameUser.put {s₁ : LocalStore K σ} (h : SameUser s s₁) (t : Tables K σ) : SameUser s (s₁.put t) := by
  refine ⟨h.userID, fun user hu => ?_⟩
  rw [← h.others user hu]
  exact s₁.mutationQueue.put_db_ne t (h.userID ▸ hu)

/-- New rows of the signed-in user. -/
theorem Sound.put (h : s.Sound) (s₁ : LocalStore K σ) {t : Tables K σ} {rest : List (MutationBatch K σ)}
    (hs : SameUser s s₁) (hsplit : t.Split s₁.heldBatches rest)
    (hnext : ∀ b ∈ t.mutations, b.batchID < s₁.mutationQueue.nextBatchID)
    (hack : t.highestAcknowledgedBatchID < s₁.mutationQueue.nextBatchID)
    (hf : ∀ result ∈ s₁.heldBatchResults, result.Fits) (hk : s₁.remoteDocuments.Kept) :
    (s₁.put t).Sound ∧ (s₁.put t).pending = rest ∧ SameUser s (s₁.put t) := by
  have hsame : SameUser s (s₁.put t) := hs.put t
  have hpending : (s₁.put t).pending = rest := by
    unfold pending
    rw [tables_put, hsplit.rows]
    exact drop_heldBatches
  refine ⟨⟨?_, fun user hu => ?_, ?_, ?_, hf, hk⟩, hpending, hsame⟩
  · rw [hpending, tables_put]
    exact hsplit
  · rw [hsame.userID] at hu
    rw [hsame.others user hu]
    exact h.others user hu
  · rw [tables_put]
    exact hnext
  · rw [tables_put]
    exact hack

end

section
variable [DecidableEq K] [DecidableEq σ] {s : LocalStore K σ}

/-- Results were released in order, and the rest is held. -/
structure Released (s s' : LocalStore K σ) (results : List (BatchResult K σ)) : Prop where
  same : SameUser s s'
  docs : ∃ released, results = released ++ s'.heldBatchResults ∧ ∀ k, s'.remoteDocuments.lookup k =
    released.foldl (fun doc result => result.applyTo k doc) (s.remoteDocuments.lookup k)

/-- The documents that may have changed can be read again. -/
theorem Sound.reads (h : s.Sound) {α : Type} (keys : List K) (result : α) :
    (do let _ ← s.documentsForKeys keys; return result) = Except.ok result := by
  unfold LocalStore.documentsForKeys
  rw [h.kept.documentsForKeys h.split.consistent keys]
  rfl

/-- A store whose rows begin with the batches of `results` releases them. -/
theorem releaseBatchResults_eq {results : List (BatchResult K σ)} {rest : List (MutationBatch K σ)}
    (hd : s.remoteDocuments.Kept) (hc : s.tables.Consistent) (hrows : s.tables.mutations = results.map (·.batch) ++ rest)
    (hf : ∀ result ∈ results, result.Fits) :
    ∃ keys t docs, s.releaseBatchResults results = .ok (keys, { s with remoteDocuments := docs }.put t) ∧
      t.mutations = rest ∧ t.Consistent ∧ t.lastAcknowledgedBatchID = s.tables.lastAcknowledgedBatchID ∧
      docs.Kept ∧
      ∀ k, docs.lookup k = results.foldl (fun doc result => result.applyTo k doc) (s.remoteDocuments.lookup k) := by
  have hdocs : ∀ {results : List (BatchResult K σ)} {docs : RemoteDocumentCache K σ}, docs.Kept →
      (∀ result ∈ results, result.Fits) →
      ∃ docs', results.foldlM (fun docs result => applyBatchResult result docs) docs = .ok docs' ∧ docs'.Kept ∧
        ∀ k, docs'.lookup k = results.foldl (fun doc result => result.applyTo k doc) (docs.lookup k) := by
    intro results
    induction results with
    | nil => intro docs hd _; exact ⟨docs, rfl, hd, fun _ => rfl⟩
    | cons result results ih =>
      intro docs hd hf
      obtain ⟨docs₁, hrun, hd₁, hl⟩ := applyBatchResult_eq hd (hf result (List.mem_cons_self ..))
      obtain ⟨docs', hrun', hd', hl'⟩ := ih hd₁ fun r hr => hf r (List.mem_cons_of_mem _ hr)
      refine ⟨docs', ?_, hd', fun k => ?_⟩
      · rw [List.foldlM_cons, hrun]
        exact hrun'
      · rw [hl' k, hl k, List.foldl_cons]
  obtain ⟨docs, hrun, hd', hl⟩ := hdocs hd hf
  obtain ⟨t, hremove, ht, hct, hack⟩ := hc.removeFirst hrows
  refine ⟨((results.map BatchResult.batch).flatMap MutationBatch.keys).dedup, t, docs, ?_, ht, hct, hack, hd', hl⟩
  unfold releaseBatchResults removeMutationBatches
  rw [hrun]
  show (do let t ← s.tables.removeMutationBatches _; return _) = _
  rw [hremove]
  rfl

theorem Sound.releaseHeld (h : s.Sound) : ∃ keys s', s.releaseHeldBatchResults = .ok (keys, s') ∧ s'.Valid ∧
    s'.pending = s.pending ∧ s.Released s' s.heldBatchResults := by
  obtain ⟨toRelease, hrel⟩ : ∃ toRelease, toRelease =
      s.heldBatchResults.takeWhile fun result => s.isRemoteUpToVersion result.commitVersion := ⟨_, rfl⟩
  obtain ⟨kept, hkept⟩ : ∃ kept, kept =
      s.heldBatchResults.dropWhile fun result => s.isRemoteUpToVersion result.commitVersion := ⟨_, rfl⟩
  have hheld : s.heldBatchResults = toRelease ++ kept := by rw [hrel, hkept, List.takeWhile_append_dropWhile]
  have hwaiting : ∀ result ∈ kept.head?, s.isRemoteUpToVersion result.commitVersion = false := by
    intro result hr
    have hnot := List.head?_dropWhile_not (fun result => s.isRemoteUpToVersion result.commitVersion) s.heldBatchResults
    rw [← hkept, Option.mem_def.mp hr] at hnot
    exact hnot
  unfold releaseHeldBatchResults
  rw [← hrel]
  cases toRelease with
  | nil =>
    rw [List.nil_append] at hheld
    exact ⟨[], s, rfl, ⟨h, hheld ▸ hwaiting⟩, rfl, ⟨⟨rfl, fun _ _ => rfl⟩, [], rfl, fun _ => rfl⟩⟩
  | cons first toRelease =>
    have hdrop : s.heldBatchResults.drop (first :: toRelease).length = kept := by rw [hheld, List.drop_left]
    have hrows : s.tables.mutations =
        (first :: toRelease).map (·.batch) ++ (kept.map (·.batch) ++ s.pending) := by
      rw [h.rows, heldBatches, hheld, List.map_append, List.append_assoc]
    obtain ⟨keys, t, docs, hrun, ht, hct, hack, hd, hl⟩ := releaseBatchResults_eq
      (s := { s with heldBatchResults := kept }) h.kept h.split.consistent hrows
      fun result hr => h.fits result (hheld ▸ List.mem_append_left _ hr)
    have hhigh : t.highestAcknowledgedBatchID = s.tables.highestAcknowledgedBatchID := by
      rw [Tables.highestAcknowledgedBatchID, hack]
      rfl
    have hsplit : t.Split (kept.map (·.batch)) s.pending := by
      refine ⟨hct, ht, hhigh ▸ h.split.pending_gt, fun b hb => ?_, hhigh ▸ h.split.known⟩
      rw [hhigh]
      apply h.split.last
      rw [heldBatches, hheld, List.map_append, List.getLast?_append, Option.mem_def.mp hb]
      rfl
    have hnext : ∀ b ∈ t.mutations, b.batchID < s.mutationQueue.nextBatchID := by
      intro b hb
      apply h.next
      rw [hrows]
      exact List.mem_append_right _ (ht ▸ hb)
    obtain ⟨hsound, hpending, hsame⟩ := h.put { s with heldBatchResults := kept, remoteDocuments := docs }
      ⟨rfl, fun _ _ => rfl⟩ hsplit hnext (hhigh ▸ h.acknowledged)
      (fun result hr => h.fits result (hheld ▸ List.mem_append_right _ hr)) hd
    refine ⟨keys, _, ?_, ⟨hsound, hwaiting⟩, hpending, ⟨hsame, first :: toRelease, hheld, hl⟩⟩
    show ({ s with heldBatchResults := s.heldBatchResults.drop (first :: toRelease).length } :
      LocalStore K σ).releaseBatchResults (first :: toRelease) = _
    rw [hdrop]
    exact hrun

/-! ## Operations -/

theorem Valid.locallyWriteMutations (h : s.Valid) (localWriteTime : Timestamp) (mutations : List (Mutation K σ)) :
    ∃ batch s', s.locallyWriteMutations localWriteTime mutations = .ok (batch, s') ∧ batch.batchID = s.mutationQueue.nextBatchID ∧
      batch.mutations = mutations ∧ s'.Valid ∧ s'.pending = s.pending ++ [batch] ∧
      s.Released s' s.heldBatchResults := by
  obtain ⟨batch, hbatch⟩ : ∃ batch : MutationBatch K σ,
    batch = { batchID := s.mutationQueue.nextBatchID, localWriteTime, mutations } := ⟨_, rfl⟩
  have hid : batch.batchID = s.mutationQueue.nextBatchID := by rw [hbatch]
  have h0 : 0 ≤ batch.batchID := by
    have hknown : batchIDUnknown < batch.batchID := hid ▸ lt_of_le_of_lt h.split.known h.acknowledged
    exact Int.add_one_le_of_lt hknown
  obtain ⟨hconsistent, hrows⟩ := h.split.consistent.add h0 fun b hb => hid ▸ h.next b hb
  have hsplit : (s.tables.addMutationBatch batch).Split s.heldBatches (s.pending ++ [batch]) := by
    refine ⟨hconsistent, ?_, fun b hb => ?_, h.split.last, h.split.known⟩
    · rw [hrows, h.rows, List.append_assoc]
    · rcases List.mem_append.mp hb with hb | hb
      · exact h.split.pending_gt b hb
      · rw [List.mem_singleton.mp hb, hid]
        exact h.acknowledged
  have hlt : s.mutationQueue.nextBatchID < s.mutationQueue.nextBatchID + 1 := Int.lt_add_one_iff.mpr (Int.le_refl _)
  have hnext : ∀ b ∈ (s.tables.addMutationBatch batch).mutations, b.batchID < s.mutationQueue.nextBatchID + 1 := by
    intro b hb
    rw [hrows] at hb
    rcases List.mem_append.mp hb with hb | hb
    · exact (h.next b hb).trans hlt
    · rw [List.mem_singleton.mp hb, hid]
      exact hlt
  obtain ⟨hsound, hpending, hsame⟩ := h.toSound.put
    { s with mutationQueue := { s.mutationQueue with nextBatchID := s.mutationQueue.nextBatchID + 1 } }
    ⟨rfl, fun _ _ => rfl⟩ hsplit hnext (h.acknowledged.trans hlt) h.fits h.kept
  refine ⟨batch, _, ?_, hid, by rw [hbatch], ⟨hsound, h.waiting⟩, hpending, ⟨hsame, [], rfl, fun _ => rfl⟩⟩
  refine Eq.trans ?_ (hsound.reads batch.keys (batch, _))
  rw [hbatch]
  rfl

/-- The tables with the first of the waiting batches acknowledged. -/
structure Acknowledged (s : LocalStore K σ) (result : BatchResult K σ) (rest : List (MutationBatch K σ)) (t : Tables K σ) :
    Prop where
  consistent : t.Consistent
  rows : t.mutations = s.heldBatches ++ result.batch :: rest
  high : t.highestAcknowledgedBatchID = result.batch.batchID
  known : batchIDUnknown ≤ result.batch.batchID
  smaller : ∀ b ∈ t.mutations, b.batchID < s.mutationQueue.nextBatchID

section
variable {result : BatchResult K σ} {rest : List (MutationBatch K σ)} {t : Tables K σ}

omit [DecidableEq K] [DecidableEq σ] in
theorem Acknowledged.gt (ha : s.Acknowledged result rest t) : ∀ b ∈ rest, result.batch.batchID < b.batchID := by
  have hsorted := ha.consistent.sorted
  rw [ha.rows] at hsorted
  exact fun b hb => List.rel_of_pairwise_cons (List.pairwise_append.mp hsorted).2.1 hb

omit [DecidableEq K] [DecidableEq σ] in
theorem Acknowledged.next (ha : s.Acknowledged result rest t) :
    t.highestAcknowledgedBatchID < s.mutationQueue.nextBatchID := by
  rw [ha.high]
  exact ha.smaller _ (by simp [ha.rows])

omit [DecidableEq K] [DecidableEq σ] in
theorem Valid.acknowledgeBatch (h : s.Valid) (hp : s.pending = result.batch :: rest) :
    ∃ t, s.tables.acknowledgeBatch result.batch.batchID = .ok t ∧ s.Acknowledged result rest t := by
  have hlt : s.tables.highestAcknowledgedBatchID < result.batch.batchID :=
    h.split.pending_gt _ (hp ▸ List.mem_cons_self ..)
  refine ⟨{ s.tables with lastAcknowledgedBatchID := some result.batch.batchID }, ?_, ?_⟩
  · unfold Tables.acknowledgeBatch
    rw [hardAssert_ok (decide_eq_true hlt)]
    rfl
  · exact ⟨h.split.consistent.of_same rfl rfl, hp ▸ h.rows, rfl, h.split.known.trans (Int.le_of_lt hlt), h.next⟩

theorem Valid.hold (h : s.Valid) (ha : s.Acknowledged result rest t) (hf : result.Fits)
    (hhold : (s.put t).shouldHoldBatchResultWithVersion result.commitVersion = true) :
    ∃ s', s' = { s.put t with heldBatchResults := s.heldBatchResults ++ [result] } ∧ s'.Valid ∧ s'.pending = rest ∧
      s.Released s' (s.heldBatchResults ++ [result]) := by
  have hsplit : t.Split ((s.heldBatchResults ++ [result]).map (·.batch)) rest := by
    rw [List.map_append, List.map_singleton]
    refine ⟨ha.consistent, ?_, fun b hb => ha.high ▸ ha.gt b hb, fun b hb => ?_, ha.high ▸ ha.known⟩
    · rw [ha.rows, List.append_assoc]
      rfl
    · rw [List.getLast?_concat] at hb
      cases hb
      exact ha.high.symm
  have hwaiting : ∀ r ∈ (s.heldBatchResults ++ [result]).head?, s.isRemoteUpToVersion r.commitVersion = false := by
    intro r hr
    cases hheld : s.heldBatchResults with
    | nil =>
      rw [hheld] at hr
      cases hr
      have hempty : (s.put t).heldBatchResults.isEmpty = true := by
        show s.heldBatchResults.isEmpty = true
        rw [hheld]
        rfl
      unfold shouldHoldBatchResultWithVersion at hhold
      rw [hempty, Bool.not_true, Bool.or_false, Bool.not_eq_true'] at hhold
      exact hhold
    | cons first results =>
      rw [hheld] at hr
      exact h.waiting r (hheld ▸ hr)
  obtain ⟨hsound, hpending, hsame⟩ := h.toSound.put { s with heldBatchResults := s.heldBatchResults ++ [result] }
    ⟨rfl, fun _ _ => rfl⟩ hsplit ha.smaller ha.next (fun r hr => (List.mem_append.mp hr).elim
      (h.fits r) fun hr => List.mem_singleton.mp hr ▸ hf) h.kept
  exact ⟨_, rfl, ⟨hsound, hwaiting⟩, hpending, ⟨hsame, [], rfl, fun _ => rfl⟩⟩

theorem Valid.release (h : s.Valid) (ha : s.Acknowledged result rest t) (hf : result.Fits)
    (hnot : (s.put t).shouldHoldBatchResultWithVersion result.commitVersion = false) :
    ∃ keys s', (s.put t).releaseBatchResults [result] = .ok (keys, s') ∧ s'.Valid ∧ s'.pending = rest ∧
      s.Released s' (s.heldBatchResults ++ [result]) := by
  have hheld : s.heldBatchResults = [] := by
    simp [shouldHoldBatchResultWithVersion, LocalStore.put] at hnot
    exact hnot.2
  have hput : (s.put t).tables.mutations = [result].map (·.batch) ++ rest := by
    rw [tables_put, ha.rows, heldBatches, hheld]
    rfl
  obtain ⟨keys, t', docs, hrun, ht', hct, hack', hd, hl⟩ := releaseBatchResults_eq (s := s.put t) h.kept
    ((tables_put s t).symm ▸ ha.consistent) hput fun r hr => List.mem_singleton.mp hr ▸ hf
  have hhigh' : t'.highestAcknowledgedBatchID = result.batch.batchID := by
    rw [← ha.high, Tables.highestAcknowledgedBatchID, hack', tables_put]
    rfl
  have hsplit : t'.Split (s.heldBatchResults.map (·.batch)) rest := by
    rw [hheld]
    exact ⟨hct, ht', fun b hb => hhigh' ▸ ha.gt b hb, (fun _ hb => by cases hb), hhigh' ▸ ha.known⟩
  have hnext' : ∀ b ∈ t'.mutations, b.batchID < s.mutationQueue.nextBatchID := by
    intro b hb
    rw [ht'] at hb
    exact ha.smaller b (by simp [ha.rows, hb])
  obtain ⟨hsound, hpending, hsame⟩ := h.toSound.put { s.put t with remoteDocuments := docs }
    ⟨rfl, ((SameUser.refl s).put t).others⟩ hsplit hnext' (hhigh' ▸ ha.high ▸ ha.next) h.fits hd
  refine ⟨keys, _, hrun, ⟨hsound, h.waiting⟩, hpending, ⟨hsame, [result], ?_, hl⟩⟩
  rw [hheld]
  show [result] = [result] ++ s.heldBatchResults
  rw [hheld, List.append_nil]

theorem Valid.acknowledgeBatchWithResult (h : s.Valid) (hp : s.pending = result.batch :: rest) (hf : result.Fits) :
    ∃ s', s.acknowledgeBatchWithResult result = .ok s' ∧ s'.Valid ∧ s'.pending = rest ∧
      s.Released s' (s.heldBatchResults ++ [result]) := by
  obtain ⟨t, hack, ha⟩ := h.acknowledgeBatch hp
  obtain ⟨keys, s', hrun, hvalid, hpending, hreleased⟩ : ∃ keys s', (s.put t).holdOrRelease result = .ok (keys, s') ∧
      s'.Valid ∧ s'.pending = rest ∧ s.Released s' (s.heldBatchResults ++ [result]) := by
    unfold holdOrRelease
    by_cases hhold : (s.put t).shouldHoldBatchResultWithVersion result.commitVersion = true
    · rw [if_pos hhold]
      obtain ⟨s', hs', h'⟩ := h.hold ha hf hhold
      exact ⟨[], s', congrArg _ (congrArg _ hs'.symm), h'⟩
    · rw [if_neg hhold]
      exact h.release ha hf (Bool.not_eq_true _ ▸ hhold)
  refine ⟨s', ?_, hvalid, hpending, hreleased⟩
  unfold LocalStore.acknowledgeBatchWithResult
  rw [hack]
  refine Eq.trans ?_ (hvalid.reads keys s')
  show (do let held ← (s.put t).holdOrRelease result; _) = _
  rw [hrun]
  show (do s'.tables.performConsistencyCheck; _) = _
  rw [hvalid.split.consistent.check]
  rfl

end

theorem Valid.rejectBatchID {batch : MutationBatch K σ} {rest : List (MutationBatch K σ)} (h : s.Valid)
    (hp : s.pending = batch :: rest) :
    ∃ s', s.rejectBatchID batch.batchID = .ok s' ∧ s'.Valid ∧ s'.pending = rest ∧
      s.Released s' s.heldBatchResults := by
  have hrows : s.tables.mutations = s.heldBatches ++ batch :: rest := hp ▸ h.rows
  have hmem : batch ∈ s.tables.mutations := by simp [hrows]
  have hlt : s.tables.highestAcknowledgedBatchID < batch.batchID :=
    h.split.pending_gt _ (hp ▸ List.mem_cons_self ..)
  obtain ⟨t, hremove, ht, hct, hack⟩ := h.split.consistent.remove hrows
  have hhigh : t.highestAcknowledgedBatchID = s.tables.highestAcknowledgedBatchID := by
    rw [Tables.highestAcknowledgedBatchID, hack]
    rfl
  have hsplit : t.Split s.heldBatches rest := by
    refine ⟨hct, ht, fun b hb => hhigh ▸ h.split.pending_gt b (hp ▸ List.mem_cons_of_mem _ hb), ?_, ?_⟩
    · exact hhigh ▸ h.split.last
    · exact hhigh ▸ h.split.known
  have hnext : ∀ b ∈ t.mutations, b.batchID < s.mutationQueue.nextBatchID := by
    intro b hb
    rw [ht] at hb
    apply h.next
    rw [hrows]
    exact (List.mem_append.mp hb).elim (List.mem_append_left _) fun hb =>
      List.mem_append_right _ (List.mem_cons_of_mem _ hb)
  obtain ⟨hsound, hpending, hsame⟩ := h.toSound.put s (SameUser.refl s) hsplit hnext (hhigh ▸ h.acknowledged) h.fits h.kept
  refine ⟨s.put t, ?_, ⟨hsound, h.waiting⟩, hpending, ⟨hsame, [], rfl, fun _ => rfl⟩⟩
  unfold LocalStore.rejectBatchID
  rw [h.split.consistent.lookup hmem]
  have hremove' : s.removeMutationBatches [batch] = .ok (([batch].flatMap MutationBatch.keys).dedup, s.put t) := by
    unfold LocalStore.removeMutationBatches Tables.removeMutationBatches
    rw [List.foldlM_cons, hremove]
    rfl
  refine Eq.trans ?_ (hsound.reads ([batch].flatMap MutationBatch.keys).dedup (s.put t))
  show (do hardAssert _ _; _) = _
  rw [hardAssert_ok (decide_eq_true hlt)]
  show (do let removed ← s.removeMutationBatches [batch]; _) = _
  rw [hremove']
  show (do (s.put t).tables.performConsistencyCheck; _) = _
  rw [tables_put, hct.check]
  rfl

theorem Valid.allocateQuery {targetID : TargetId} (h : s.Valid) (ht : targetID ∉ s.targetIDs) :
    ∃ s', s.allocateQuery targetID = .ok s' ∧ s'.Valid ∧ s'.pending = s.pending ∧
      s.Released s' s.heldBatchResults := by
  have hrun : s.allocateQuery targetID = .ok { s with targetIDs := s.targetIDs ++ [targetID] } := by
    unfold LocalStore.allocateQuery
    rw [hardAssert_ok (decide_eq_true ht)]
    rfl
  refine ⟨_, hrun, ⟨⟨h.split, h.others, h.next, h.acknowledged, h.fits, h.kept⟩, fun result hr => ?_⟩, rfl,
    ⟨⟨rfl, fun _ _ => rfl⟩, [], rfl, fun _ => rfl⟩⟩
  have hwaiting := h.waiting result hr
  simp [isRemoteUpToVersion] at hwaiting ⊢
  exact hwaiting.1

theorem Valid.releaseQuery {targetID : TargetId} (h : s.Valid) (ht : targetID ∈ s.targetIDs) :
    ∃ s', s.releaseQuery targetID = .ok s' ∧ s'.Valid ∧ s'.pending = s.pending ∧
      s.Released s' s.heldBatchResults := by
  have hsound : Sound { s with targetIDs := s.targetIDs.erase targetID } :=
    ⟨h.split, h.others, h.next, h.acknowledged, h.fits, h.kept⟩
  unfold LocalStore.releaseQuery
  rw [hardAssert_ok (decide_eq_true ht)]
  by_cases he : (s.targetIDs.erase targetID).isEmpty = true
  · obtain ⟨keys, s', hrun, hvalid, hpending, hreleased⟩ := hsound.releaseHeld
    refine ⟨s', ?_, hvalid, hpending, ⟨hreleased.same.userID, hreleased.same.others⟩, hreleased.docs⟩
    show (if (s.targetIDs.erase targetID).isEmpty = true then _ else _) = _
    rw [if_pos he, hrun]
    rfl
  · refine ⟨_, ?_, ⟨hsound, fun result hr => ?_⟩, rfl, ⟨⟨rfl, fun _ _ => rfl⟩, [], rfl, fun _ => rfl⟩⟩
    · show (if (s.targetIDs.erase targetID).isEmpty = true then _ else _) = _
      rw [if_neg he]
      rfl
    · have hwaiting := h.waiting result hr
      simp [isRemoteUpToVersion] at hwaiting he ⊢
      exact ⟨hwaiting.1, he⟩

omit [DecidableEq σ] in
theorem foldlM_updateDocument (keys : List K) : ∀ (updates : List (MaybeDocument K σ)) {docs : RemoteDocumentCache K σ},
    docs.Kept → ∃ docs', updates.foldlM (updateDocument keys) docs = .ok docs' ∧ docs'.Kept ∧
      ∀ k, (∀ doc ∈ updates, doc.key ≠ k) → docs'.lookup k = docs.lookup k
  | [], docs, hd => ⟨docs, rfl, hd, fun _ _ => rfl⟩
  | doc :: updates, docs, hd => by
    obtain ⟨docs₁, hrun, hd₁, hl⟩ : ∃ docs₁, updateDocument keys docs doc = .ok docs₁ ∧ docs₁.Kept ∧
        ∀ k ≠ doc.key, docs₁.lookup k = docs.lookup k := by
      unfold updateDocument
      rw [hd.entryForKey]
      simp only [bind, Except.bind]
      have hadd : ∀ k ≠ doc.key, (docs.addEntry doc).lookup k = docs.lookup k := fun k hk => AList.lookup_insert_ne hk
      split
      · exact ⟨_, rfl, hd.addEntry doc, hadd⟩
      · split
        · exact ⟨_, rfl, hd.addEntry doc, hadd⟩
        · exact ⟨docs, rfl, hd, fun _ _ => rfl⟩
    obtain ⟨docs', hrun', hd', hl'⟩ := foldlM_updateDocument keys updates hd₁
    refine ⟨docs', ?_, hd', fun k hk => ?_⟩
    · rw [List.foldlM_cons, hrun]
      exact hrun'
    · rw [hl' k fun d hm => hk d (List.mem_cons_of_mem _ hm)]
      exact hl k (hk doc (List.mem_cons_self ..)).symm

omit [DecidableEq K] [DecidableEq σ] in
theorem setLastRemoteSnapshotVersion_eq (s : LocalStore K σ) {remoteVersion : SnapshotVersion}
    (hv : remoteVersion = 0 ∨ s.lastRemoteSnapshotVersion ≤ remoteVersion) :
    ∃ version, s.setLastRemoteSnapshotVersion remoteVersion = .ok { s with lastRemoteSnapshotVersion := version } := by
  unfold setLastRemoteSnapshotVersion
  by_cases h0 : remoteVersion = 0
  · exact ⟨s.lastRemoteSnapshotVersion, by rw [if_neg (not_not.mpr h0)]⟩
  · refine ⟨remoteVersion, ?_⟩
    rw [if_pos h0, hardAssert_ok (decide_eq_true (hv.resolve_left h0))]
    rfl

theorem Valid.applyRemoteEvent {remoteEvent : RemoteEvent K σ} (h : s.Valid)
    (hv : remoteEvent.snapshotVersion = 0 ∨ s.lastRemoteSnapshotVersion ≤ remoteEvent.snapshotVersion) :
    ∃ s' docs, s.applyRemoteEvent remoteEvent = .ok s' ∧ s'.Valid ∧ s'.pending = s.pending ∧
      (∀ k, (∀ doc ∈ remoteEvent.documentUpdates, doc.key ≠ k) → docs.lookup k = s.remoteDocuments.lookup k) ∧
      Released { s with remoteDocuments := docs } s' s.heldBatchResults := by
  obtain ⟨docs, hdocs, hd, hl⟩ := foldlM_updateDocument
    (remoteEvent.targetChanges.flatMap fun change : TargetId × List K => if change.1 ∈ s.targetIDs then change.2 else [])
    remoteEvent.documentUpdates h.kept
  obtain ⟨version, hversion⟩ := setLastRemoteSnapshotVersion_eq { s with remoteDocuments := docs } hv
  have hsound : Sound { s with remoteDocuments := docs, lastRemoteSnapshotVersion := version } :=
    ⟨h.split, h.others, h.next, h.acknowledged, h.fits, hd⟩
  obtain ⟨keys, s', hrun, hvalid, hpending, hreleased⟩ := hsound.releaseHeld
  refine ⟨s', docs, ?_, hvalid, hpending, hl, ⟨hreleased.same.userID, hreleased.same.others⟩, hreleased.docs⟩
  refine Eq.trans ?_ (hvalid.reads (remoteEvent.documentUpdates.map MaybeDocument.key ++ keys).dedup s')
  unfold LocalStore.applyRemoteEvent
  dsimp only
  rw [hdocs]
  show (do let s ← LocalStore.setLastRemoteSnapshotVersion _ _; _) = _
  rw [hversion]
  show (do let released ← LocalStore.releaseHeldBatchResults _; _) = _
  rw [hrun]
  rfl

/-! ## Starting -/

omit [DecidableEq K] [DecidableEq σ] in
theorem Sound.resting (h : s.Sound) : s.mutationQueue.db.Resting := by
  intro user
  by_cases hu : user = s.mutationQueue.userID
  · rw [hu]
    exact h.split.resting
  · exact h.others user hu

omit [DecidableEq K] [DecidableEq σ] in
/-- A store that holds nothing, after a start. -/
theorem valid_of_held_nil {s' : LocalStore K σ} {rest : List (MutationBatch K σ)} (hr : s.mutationQueue.db.Resting)
    (hs : SameUser s s') (hheld : s'.heldBatchResults = []) (hsplit : s'.tables.Split [] rest)
    (hnext : ∀ b ∈ s'.tables.mutations, b.batchID < s'.mutationQueue.nextBatchID)
    (hack : s'.tables.highestAcknowledgedBatchID < s'.mutationQueue.nextBatchID) (hk : s'.remoteDocuments.Kept) :
    s'.Valid ∧ s'.pending = rest := by
  have hpending : s'.pending = rest := by
    unfold pending
    rw [hheld, hsplit.rows]
    rfl
  have hbatches : s'.heldBatches = [] := by
    unfold heldBatches
    rw [hheld]
    rfl
  refine ⟨⟨⟨?_, fun user hu => ?_, hnext, hack, ?_, hk⟩, ?_⟩, hpending⟩
  · rw [hbatches, hpending]
    exact hsplit
  · rw [hs.others user (hs.userID ▸ hu)]
    exact hr user
  · rw [hheld]
    nofun
  · rw [hheld]
    nofun

omit [DecidableEq σ] in
/-- Held results are dropped, and the batches they were for with them. -/
theorem startMutationQueue_eq (hr : s.mutationQueue.db.Resting) (hk : s.remoteDocuments.Kept) : ∃ s', s.startMutationQueue = .ok s' ∧ s'.Valid ∧
    s'.heldBatchResults = [] ∧ s'.pending = s.tables.unacknowledged ∧ SameUser s s' ∧
    s'.remoteDocuments = s.remoteDocuments := by
  obtain ⟨q, hstart, huser, hnext, hothers, hrows, hindex, hun, hknown, hlt⟩ := MutationQueue.start_eq hr
  change q.tables.unacknowledged = s.tables.unacknowledged at hun
  have hconsistent : q.tables.Consistent := (hr s.mutationQueue.userID).consistent.of_same hrows hindex
  have hsmaller : ∀ b ∈ q.tables.mutations, b.batchID < q.nextBatchID := by
    intro b hb
    rw [hnext]
    exact hr.lt_loadNextBatchID (hrows ▸ hb)
  have hack : q.tables.highestAcknowledgedBatchID < q.nextBatchID := hnext ▸ hlt
  obtain ⟨s₁, hs₁⟩ : ∃ s₁ : LocalStore K σ, s₁ = { s with mutationQueue := q, heldBatchResults := [] } := ⟨_, rfl⟩
  have hsame : SameUser s s₁ := by
    rw [hs₁]
    exact ⟨huser, hothers⟩
  have htables : s₁.tables = q.tables := by rw [hs₁]; rfl
  have hrun : s.startMutationQueue = (do
      let s := s₁
      let highestAck := s.tables.highestAcknowledgedBatchID
      if highestAck ≠ batchIDUnknown then
        let removed ← s.removeMutationBatches (s.tables.allMutationBatchesThroughBatchID highestAck)
        return removed.2
      else return s) := by
    unfold startMutationQueue
    rw [hstart, hs₁]
    rfl
  rw [hrun]
  dsimp only
  rw [htables]
  by_cases hun' : q.tables.highestAcknowledgedBatchID = batchIDUnknown
  · have hall : q.tables.mutations = s.tables.unacknowledged := by
      rw [← hun, Tables.unacknowledged, hun']
      exact (List.filter_eq_self.mpr fun b hb => decide_eq_true (Int.lt_of_add_one_le (hconsistent.nonneg b hb))).symm
    have hsplit : q.tables.Split [] s.tables.unacknowledged := by
      refine ⟨hconsistent, hall, fun b hb => ?_, (fun _ hb => by cases hb), hknown⟩
      rw [hun']
      exact Int.lt_of_add_one_le (hconsistent.nonneg b (hall ▸ hb))
    obtain ⟨hv, hp⟩ := valid_of_held_nil hr hsame (by rw [hs₁]) (htables ▸ hsplit) (by rwa [htables, hs₁])
      (by rwa [htables, hs₁]) (by rw [hs₁]; exact hk)
    refine ⟨s₁, ?_, hv, by rw [hs₁], hp, hsame, by rw [hs₁]⟩
    rw [if_neg (not_not.mpr hun')]
    rfl
  · obtain ⟨t, hremove, ht, hct, hkept, hcut⟩ := hconsistent.removeAcknowledged
    rw [hun] at ht
    have hgt : ∀ b ∈ s.tables.unacknowledged, q.tables.highestAcknowledgedBatchID < b.batchID := by
      rw [← hun]
      exact fun b hb => of_decide_eq_true (List.mem_filter.mp hb).2
    have hhigh : t.highestAcknowledgedBatchID = q.tables.highestAcknowledgedBatchID := by
      rw [Tables.highestAcknowledgedBatchID, hkept]
      rfl
    have hsplit : t.Split [] s.tables.unacknowledged :=
      ⟨hct, ht, fun b hb => hhigh ▸ hgt b hb, (fun _ hb => by cases hb), hhigh ▸ hknown⟩
    have hsub : ∀ b ∈ t.mutations, b.batchID < q.nextBatchID := by
      intro b hb
      exact hsmaller b (hcut b hb)
    have hput : (s₁.put t).tables = t := tables_put s₁ t
    obtain ⟨hv, hp⟩ := valid_of_held_nil hr (hsame.put t) (by rw [hs₁]; rfl) (hput ▸ hsplit) (by rw [hput, hs₁]; exact hsub)
      (by rw [hput, hhigh, hs₁]; exact hack) (by rw [hs₁]; exact hk)
    refine ⟨s₁.put t, ?_, hv, by rw [hs₁]; rfl, hp, hsame.put t, by rw [hs₁]; rfl⟩
    rw [if_pos hun']
    unfold removeMutationBatches
    rw [htables, hremove]
    rfl

/-- The store after `user` has signed in. -/
structure Started (s s' : LocalStore K σ) (user : UserId) : Prop where
  valid : s'.Valid
  userID : s'.mutationQueue.userID = user
  held : s'.heldBatchResults = []
  pending : s'.pending = (s.mutationQueue.db.tables user).unacknowledged
  others : ∀ other ≠ user, s'.mutationQueue.db.tables other = s.mutationQueue.db.tables other
  docs : s'.remoteDocuments = s.remoteDocuments

omit [DecidableEq K] [DecidableEq σ] in
/-- Every user finds the batches that waited. -/
theorem Started.waiting {s' : LocalStore K σ} {user : UserId} (h : Started s s' user) (u : UserId) :
    (s'.mutationQueue.db.tables u).unacknowledged = (s.mutationQueue.db.tables u).unacknowledged := by
  by_cases hu : u = user
  · rw [hu, ← h.pending, ← h.userID]
    exact h.valid.split.unacknowledged
  · rw [h.others u hu]

theorem Sound.userDidChange (h : s.Sound) (user : UserId) :
    ∃ s', s.userDidChange user = .ok s' ∧ Started s s' user := by
  obtain ⟨s', hrun, hvalid, hheld, hpending, hsame, hdocs⟩ := startMutationQueue_eq
    (s := { s with mutationQueue := { db := s.mutationQueue.db, userID := user } }) h.resting h.kept
  refine ⟨s', ?_, hvalid, hsame.userID, hheld, hpending, hsame.others, hdocs⟩
  refine Eq.trans ?_ (hvalid.reads ((s.tables.mutations ++ s'.tables.mutations).flatMap MutationBatch.keys).dedup s')
  unfold LocalStore.userDidChange
  rw [hrun]
  rfl

omit [DecidableEq σ] in
theorem Sound.restart (h : s.Sound) (user : UserId) : ∃ s', s.restart user = .ok s' ∧ Started s s' user := by
  obtain ⟨s', hrun, hvalid, hheld, hpending, hsame, hdocs⟩ := startMutationQueue_eq
    (s := {
      mutationQueue := { db := s.mutationQueue.db, userID := user }
      remoteDocuments := s.remoteDocuments
      lastRemoteSnapshotVersion := s.lastRemoteSnapshotVersion }) h.resting h.kept
  exact ⟨s', hrun, hvalid, hsame.userID, hheld, hpending, hsame.others, hdocs⟩

end

end LocalStore

end ShoppingList.Firestore
