import ShoppingList.Firestore.Guarantees

/-!
# What is shown of a document

A document is shown with the batches applied that are held or wait. When a batch
is acknowledged it moves into the cached document, at once or with a later
snapshot, and what is shown stays as it is.
-/

namespace ShoppingList.Firestore

variable {K σ C : Type} [DecidableEq K] [DecidableEq σ]

namespace MutationBatch

variable {batch : MutationBatch K σ} {doc : Option (MaybeDocument K σ)} {k : K} {n : SnapshotVersion}

omit [DecidableEq K] [DecidableEq σ] in
/-- A mutation never makes a document newer. -/
theorem older_apply {m : Mutation K σ} (flag : Bool) (results : List (Value σ)) (h0 : 0 < n)
    (h : doc.all (·.version < n) = true) : (m.apply flag results doc).all (·.version < n) = true := by
  unfold Mutation.apply
  split
  · cases m with
    | set | patch | transform | delete =>
      rcases doc with _ | (_ | _)
      all_goals first | exact h | exact decide_eq_true h0
  · exact h

theorem older_acknowledged (results : List (MutationResult σ)) (h0 : 0 < n) (h : doc.all (·.version < n) = true) :
    (batch.acknowledged results doc k).all (·.version < n) = true := by
  unfold acknowledged
  induction batch.mutations.zip results generalizing doc with
  | nil => exact h
  | cons p ps ih =>
    rw [List.foldl_cons]
    apply ih
    by_cases hk : p.1.key = k
    · rw [if_pos hk]
      exact older_apply false _ h0 h
    · rw [if_neg hk]
      exact h

end MutationBatch

namespace LocalStore

variable {s s' : LocalStore K σ} {k : K}

def shown (s : LocalStore K σ) (k : K) : Option (MaybeDocument K σ) :=
  applyBatches (s.heldBatches ++ s.pending) (s.remoteDocuments.lookup k) k

theorem Sound.documentForKey (h : s.Sound) (k : K) : s.documentForKey k = .ok (s.shown k) := by
  unfold LocalStore.documentForKey shown
  rw [h.kept.documentForKey h.split.consistent, h.rows]

/-! ## Acknowledgements -/

/-- The document in the cache is older than the commit. -/
def Fresh (s : LocalStore K σ) (k : K) (result : BatchResult K σ) : Prop :=
  ∀ version ∈ result.docVersions k, 0 < version ∧ (s.remoteDocuments.lookup k).all (·.version < version) = true

instance (s : LocalStore K σ) (k : K) (result : BatchResult K σ) : Decidable (s.Fresh k result) :=
  inferInstanceAs (Decidable (∀ version ∈ result.docVersions k, _ ∧ _))

theorem settled_released {results : List (BatchResult K σ)} {doc shown : Option (MaybeDocument K σ)}
    (hf : ∀ result ∈ results, result.Fits)
    (hi : ∀ result ∈ results, result.batch.Independent ∧ result.batch.Untimed)
    (hv : ∀ result ∈ results, ∀ version ∈ result.docVersions k, 0 < version ∧ doc.all (·.version < version) = true)
    (h : doc.map (·.settled) = shown.map (·.settled)) :
    (results.foldl (fun doc result => result.applyTo k doc) doc).map (·.settled) =
      (applyBatches (results.map (·.batch)) shown k).map (·.settled) := by
  induction results generalizing doc shown with
  | nil => exact h
  | cons result results ih =>
    have hresult := List.mem_cons_self (a := result) (l := results)
    have happly : result.applyTo k doc = result.batch.acknowledged result.mutationResults doc k := by
      cases hversion : result.docVersions k with
      | none =>
        have hk : ¬result.batch.Affects k := by
          intro ha
          have hsome := (BatchResult.docVersions_isSome (hf result hresult)).mpr ha
          rw [hversion] at hsome
          cases hsome
        rw [BatchResult.applyTo_of_not_affects (hf result hresult) hk, MutationBatch.acknowledged_of_not_affects hk]
      | some version =>
        unfold BatchResult.applyTo
        rw [hversion]
        exact if_pos (hv result hresult version hversion).2
    rw [List.foldl_cons, happly]
    apply ih
    · exact fun r hr => hf r (List.mem_cons_of_mem _ hr)
    · exact fun r hr => hi r (List.mem_cons_of_mem _ hr)
    · intro r hr version hversion
      obtain ⟨h0, holder⟩ := hv r (List.mem_cons_of_mem _ hr) version hversion
      exact ⟨h0, MutationBatch.older_acknowledged _ h0 holder⟩
    · exact MutationBatch.settled_acknowledged (hi result hresult).1 (hi result hresult).2 (hf result hresult) h

theorem Released.shown {results : List (BatchResult K σ)} {rest : List (MutationBatch K σ)} (h : s.Released s' results)
    (hp : s'.pending = rest) (hall : s.heldBatches ++ s.pending = results.map (·.batch) ++ rest)
    (hf : ∀ result ∈ results, result.Fits)
    (hi : ∀ result ∈ results, result.batch.Independent ∧ result.batch.Untimed)
    (hv : ∀ result ∈ results, s.Fresh k result) : (s'.shown k).map (·.settled) = (s.shown k).map (·.settled) := by
  obtain ⟨released, hresults, hdocs⟩ := h.docs
  have hsub : ∀ result ∈ released, result ∈ results := fun r hr => hresults ▸ List.mem_append_left _ hr
  unfold LocalStore.shown
  rw [hall, hresults, List.map_append, List.append_assoc, applyBatches_append (released.map _), hp, hdocs k]
  apply settled_applyBatches
  exact settled_released (fun r hr => hf r (hsub r hr)) (fun r hr => hi r (hsub r hr)) (fun r hr => hv r (hsub r hr)) rfl

theorem Valid.shown_acknowledged {result : BatchResult K σ} {rest : List (MutationBatch K σ)} (h : s.Valid)
    (hp : s.pending = result.batch :: rest) (hf : result.Fits)
    (hi : ∀ r ∈ s.heldBatchResults ++ [result], r.batch.Independent ∧ r.batch.Untimed)
    (hv : ∀ r ∈ s.heldBatchResults ++ [result], s.Fresh k r) :
    ∃ s', s.acknowledgeBatchWithResult result = .ok s' ∧ s'.Valid ∧
      (s'.shown k).map (·.settled) = (s.shown k).map (·.settled) := by
  obtain ⟨s', hrun, hvalid, hpending, hreleased⟩ := h.acknowledgeBatchWithResult hp hf
  have hall : s.heldBatches ++ s.pending = (s.heldBatchResults ++ [result]).map (·.batch) ++ rest := by
    rw [hp, List.map_append, List.append_assoc]
    rfl
  have hfits : ∀ r ∈ s.heldBatchResults ++ [result], r.Fits := by
    intro r hr
    rcases List.mem_append.mp hr with hr | hr
    · exact h.fits r hr
    · exact List.mem_singleton.mp hr ▸ hf
  exact ⟨s', hrun, hvalid, hreleased.shown hpending hall hfits hi hv⟩

end LocalStore

namespace Worker

variable {es : List (WorkerEvent K σ C)} {w w' : Worker K σ C}

/-- **What is shown in every state**: the cached document with the batches that are
held and those that wait. -/
theorem shown_with_waiting (ho : Runs.Along step (fun w e _ => w.Orderly e) {} es)
    (hr : Runs.run step {} es = some w) (k : K) :
    w.client.localStore.documentForKey k = .ok (applyBatches
      (w.client.localStore.heldBatches ++ w.client.waiting w.client.currentUser)
      (w.client.localStore.remoteDocuments.lookup k) k) := by
  have h := (steady_run ho hr).client
  rw [h.store.documentForKey, h.waiting]
  rfl

theorem shown_with_waiting_threeWrites : ∃ w, Runs.run step {} threeWrites = some w ∧
    w.client.localStore.documentForKey 2 = .ok (applyBatches
      (w.client.localStore.heldBatches ++ w.client.waiting w.client.currentUser)
      (w.client.localStore.remoteDocuments.lookup 2) 2) := by
  obtain ⟨w, hw⟩ := Option.isSome_iff_exists.mp (show (Runs.run step {} threeWrites).isSome = true by decide +kernel)
  exact ⟨w, hw, shown_with_waiting threeWrites_orderly hw 2⟩

/-- The results that are held once the backend has answered. -/
def answered (w : Worker K σ C) (commitVersion : SnapshotVersion) (results : List (MutationResult σ)) :
    List (BatchResult K σ) :=
  w.client.localStore.heldBatchResults ++
    w.client.localStore.pending.head?.toList.map fun batch => ⟨batch, commitVersion, results⟩

/-- **An answer changes nothing of what is shown**, as long as the cache is older
than the commits, the transforms are of arrays and no mutation of a batch writes
what a later one transforms. -/
theorem answer_unseen {commitVersion : SnapshotVersion} {results : List (MutationResult σ)} {k : K}
    (ho : Runs.Along step (fun w e _ => w.Orderly e) {} es) (hr : Runs.run step {} es = some w)
    (he : w.Orderly (.happened (.handleStreamMessage commitVersion results)))
    (hs : w.step (.happened (.handleStreamMessage commitVersion results)) = some w')
    (hi : ∀ result ∈ w.answered commitVersion results, result.batch.Independent ∧ result.batch.Untimed)
    (hv : ∀ result ∈ w.answered commitVersion results, w.client.localStore.Fresh k result) :
    ∃ doc doc', w.client.localStore.documentForKey k = .ok doc ∧ w'.client.localStore.documentForKey k = .ok doc' ∧
      doc'.map (·.settled) = doc.map (·.settled) := by
  have h := steady_run ho hr
  have h' := (h.step he hs).1
  refine ⟨_, _, h.client.store.documentForKey k, h'.client.store.documentForKey k, ?_⟩
  cases step_acts hs with
  | happened hc =>
    obtain ⟨stream, connection, hstream, hstate⟩ := Client.open_of_any hc
    by_cases hhandshake : stream.handshakeComplete = true
    · have hanswers : stream.Answers results := he stream hstream
      unfold WriteStream.Answers at hanswers
      rw [hstate] at hanswers
      obtain ⟨mutations, writes, hwrites, hfits⟩ := (hanswers hhandshake).first
      obtain ⟨c', hrun, -, -, -, batch, rest, hp, rfl, hack⟩ :=
        h.client.receiveResponse hstream hstate hhandshake hwrites hfits commitVersion
      have hrun' : w.client.perform (.handleStreamMessage commitVersion results) = .ok c' := hrun
      rw [hrun']
      unfold answered at hi hv
      rw [hp] at hi hv
      have hresult : BatchResult.Fits ⟨batch, commitVersion, results⟩ := hfits
      obtain ⟨s', hrun', -, hshown⟩ := h.client.store.shown_acknowledged hp hresult hi hv
      cases hack.symm.trans hrun'
      exact hshown
    · obtain ⟨c', hrun, -, -, -, hstore⟩ := h.client.completeHandshake hstream hstate hhandshake commitVersion results
      have hrun' : w.client.perform (.handleStreamMessage commitVersion results) = .ok c' := hrun
      rw [hrun']
      show (c'.localStore.shown k).map _ = _
      rw [hstore]

theorem answer_unseen_threeWrites : ∃ (w w' : Worker Nat Nat Nat) (doc doc' : Option (MaybeDocument Nat Nat)),
    Runs.run step {} threeWrites = some w ∧ w.step (.happened (.handleStreamMessage 6 [⟨some 6, none⟩])) = some w' ∧
      w.client.localStore.documentForKey 2 = .ok doc ∧ w'.client.localStore.documentForKey 2 = .ok doc' ∧
        doc'.map (·.settled) = doc.map (·.settled) := by
  obtain ⟨w, hw, hsome, he, hi, hv⟩ : ∃ w, Runs.run step {} threeWrites = some w ∧
      (w.step (.happened (.handleStreamMessage 6 [⟨some 6, none⟩]))).isSome = true ∧
      w.Orderly (.happened (.handleStreamMessage 6 [⟨some 6, none⟩])) ∧
      (∀ result ∈ w.answered 6 [⟨some 6, none⟩], result.batch.Independent ∧ result.batch.Untimed) ∧
      ∀ result ∈ w.answered 6 [⟨some 6, none⟩], w.client.localStore.Fresh 2 result := by decide +kernel
  obtain ⟨w', hs⟩ := Option.isSome_iff_exists.mp hsome
  obtain ⟨doc, doc', hdoc, hdoc', hsame⟩ := answer_unseen threeWrites_orderly hw he hs hi hv
  exact ⟨w, w', doc, doc', hw, hs, hdoc, hdoc', hsame⟩

end Worker

end ShoppingList.Firestore
