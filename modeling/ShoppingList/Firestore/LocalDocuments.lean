import ShoppingList.Firestore.MutationQueue

/-!
# Local documents

The cache keeps the documents as they were last heard of from the backend. A
document is shown with the batches of the queue applied to it, in their order.
-/

namespace ShoppingList.Firestore

variable {K σ : Type}

abbrev RemoteDocumentCache (K σ : Type) := Collection K (MaybeDocument K σ)

namespace RemoteDocumentCache

variable [DecidableEq K]

def entryForKey (docs : RemoteDocumentCache K σ) (documentKey : K) : Checked (Option (MaybeDocument K σ)) :=
  match docs.lookup documentKey with
  | none => .ok none
  | some maybeDocument => do
    hardAssert (maybeDocument.key = documentKey) "Read document has another key than expected."
    return some maybeDocument

def addEntry (docs : RemoteDocumentCache K σ) (document : MaybeDocument K σ) : RemoteDocumentCache K σ :=
  docs.insert document.key document

variable [DecidableEq σ]

def documentForKeyInBatches (docs : RemoteDocumentCache K σ) (batches : List (MutationBatch K σ)) (key : K) :
    Checked (Option (MaybeDocument K σ)) := do
  let document ← docs.entryForKey key
  batches.foldlM (fun document batch => batch.applyToLocalDocument document key) document

def documentForKey (docs : RemoteDocumentCache K σ) (t : Tables K σ) (key : K) : Checked (Option (MaybeDocument K σ)) := do
  let batches ← t.allMutationBatchesAffectingDocumentKey key
  docs.documentForKeyInBatches batches key

/-- A document that is missing is shown as deleted. -/
def documentsForKeys (docs : RemoteDocumentCache K σ) (t : Tables K σ) (keys : List K) :
    Checked (List (K × MaybeDocument K σ)) := do
  let batches ← t.allMutationBatchesAffectingDocumentKeys keys
  keys.mapM fun key => do
    let maybeDoc ← docs.documentForKeyInBatches batches key
    return (key, maybeDoc.getD (.deleted key 0))

end RemoteDocumentCache

/-! ## Batches that leave a document alone -/

namespace MutationBatch

variable [DecidableEq K] {batch : MutationBatch K σ} {doc document : Option (MaybeDocument K σ)} {k : K}

theorem foldl_of_not_affects {α : Type} (mutation : α → Mutation K σ) {xs : List α}
    (h : ∀ a ∈ xs, (mutation a).key ≠ k) (f : Option (MaybeDocument K σ) → α → Option (MaybeDocument K σ)) :
    xs.foldl (fun doc a => if (mutation a).key = k then f doc a else doc) doc = doc := by
  induction xs with
  | nil => rfl
  | cons a xs ih =>
    rw [List.foldl_cons, if_neg (h a (List.mem_cons_self ..))]
    exact ih fun a ha => h a (List.mem_cons_of_mem _ ha)

variable [DecidableEq σ]

theorem shown_of_not_affects (hk : ¬batch.Affects k) : batch.shown doc k = doc :=
  foldl_of_not_affects id (fun m hm he => hk ⟨m, hm, he⟩) _

theorem acknowledged_of_not_affects (hk : ¬batch.Affects k) (results : List (MutationResult σ)) :
    batch.acknowledged results doc k = doc :=
  foldl_of_not_affects Prod.fst
    (fun p hp he => hk ⟨p.1, (List.of_mem_zip hp).1, he⟩) _

theorem settled_shown (h : doc.map (·.settled) = document.map (·.settled)) :
    (batch.shown doc k).map (·.settled) = (batch.shown document k).map (·.settled) := by
  have hfold : ∀ {ms : List (Mutation K σ)} {d d' : Option (MaybeDocument K σ)}, d.map (·.settled) = d'.map (·.settled) →
      (ms.foldl (fun d m => if m.key = k then
        m.apply true (Mutation.localTransformResults m.fieldTransforms doc batch.localWriteTime) d else d) d).map (·.settled) =
      (ms.foldl (fun d m => if m.key = k then
        m.apply true (Mutation.localTransformResults m.fieldTransforms document batch.localWriteTime) d else d) d').map
          (·.settled) := by
    intro ms
    induction ms with
    | nil => exact fun hd => hd
    | cons m ms ih =>
      intro d d' hd
      rw [List.foldl_cons, List.foldl_cons]
      apply ih
      by_cases hk : m.key = k
      · have hresults : Mutation.localTransformResults m.fieldTransforms doc batch.localWriteTime =
            Mutation.localTransformResults m.fieldTransforms document batch.localWriteTime :=
          Mutation.localTransformResults_congr (fun t _ => fieldAt_congr h t.path) batch.localWriteTime
        rw [if_pos hk, if_pos hk, hresults]
        exact Mutation.settled_apply hd true true
      · rw [if_neg hk, if_neg hk]
        exact hd
  exact hfold h

end MutationBatch

/-! ## What is shown -/

section
variable [DecidableEq K] [DecidableEq σ] {docs : RemoteDocumentCache K σ} {t : Tables K σ} {k : K}

/-- The document with the batches applied in their order. -/
def applyBatches (batches : List (MutationBatch K σ)) (doc : Option (MaybeDocument K σ)) (k : K) :
    Option (MaybeDocument K σ) :=
  batches.foldl (fun document batch => batch.shown document k) doc

theorem settled_applyBatches {batches : List (MutationBatch K σ)} {doc doc' : Option (MaybeDocument K σ)}
    (h : doc.map (·.settled) = doc'.map (·.settled)) :
    (applyBatches batches doc k).map (·.settled) = (applyBatches batches doc' k).map (·.settled) := by
  unfold applyBatches
  induction batches generalizing doc doc' with
  | nil => exact h
  | cons batch batches ih => exact ih (MutationBatch.settled_shown h)

theorem applyBatches_append (batches rest : List (MutationBatch K σ)) (doc : Option (MaybeDocument K σ)) (k : K) :
    applyBatches (batches ++ rest) doc k = applyBatches rest (applyBatches batches doc k) k := List.foldl_append ..

/-- Batches that do not change the document may be left out. -/
theorem applyBatches_filter {p : MutationBatch K σ → Bool} (hp : ∀ batch, batch.Affects k → p batch = true)
    (batches : List (MutationBatch K σ)) (doc : Option (MaybeDocument K σ)) :
    applyBatches (batches.filter p) doc k = applyBatches batches doc k := by
  unfold applyBatches
  induction batches generalizing doc with
  | nil => rfl
  | cons batch batches ih =>
    by_cases hb : p batch = true
    · rw [List.filter_cons, if_pos hb, List.foldl_cons, List.foldl_cons, ih]
    · have hk : ¬batch.Affects k := fun hk => hb (hp batch hk)
      rw [List.filter_cons, if_neg hb, List.foldl_cons, MutationBatch.shown_of_not_affects hk, ih]

theorem foldlM_applyToLocalDocument (batches : List (MutationBatch K σ)) {doc : Option (MaybeDocument K σ)}
    (hk : Keyed k doc) :
    batches.foldlM (fun document batch => batch.applyToLocalDocument document k) doc =
      .ok (applyBatches batches doc k) := by
  induction batches generalizing doc with
  | nil => rfl
  | cons batch batches ih =>
    obtain ⟨hrun, hk'⟩ := batch.applyToLocalDocument_eq hk
    rw [List.foldlM_cons, hrun]
    exact ih hk'

namespace RemoteDocumentCache

/-- Every document is kept under its key. -/
def Kept (docs : RemoteDocumentCache K σ) : Prop := ∀ entry ∈ docs.entries, entry.2.key = entry.1

omit [DecidableEq K] [DecidableEq σ] in
theorem kept_empty : Kept (∅ : RemoteDocumentCache K σ) := fun _ he => by cases he

omit [DecidableEq σ] in
theorem Kept.lookup (h : docs.Kept) (k : K) : Keyed k (docs.lookup k) :=
  fun d hd => h ⟨k, d⟩ (AList.mem_lookup_iff.mp hd)

omit [DecidableEq σ] in
theorem Kept.addEntry (h : docs.Kept) (document : MaybeDocument K σ) : (docs.addEntry document).Kept := by
  intro entry he
  unfold RemoteDocumentCache.addEntry at he
  rw [AList.entries_insert] at he
  rcases List.mem_cons.mp he with rfl | he
  · rfl
  · exact h entry ((List.kerase_sublist document.key docs.entries).subset he)

omit [DecidableEq σ] in
theorem Kept.entryForKey (h : docs.Kept) (k : K) : docs.entryForKey k = .ok (docs.lookup k) := by
  unfold RemoteDocumentCache.entryForKey
  have hk := h.lookup k
  cases hdoc : docs.lookup k with
  | none => rfl
  | some doc =>
    rw [hdoc] at hk
    dsimp only
    rw [hardAssert_ok (decide_eq_true (hk doc rfl))]
    rfl

theorem Kept.documentForKeyInBatches (h : docs.Kept) (batches : List (MutationBatch K σ)) (k : K) :
    docs.documentForKeyInBatches batches k = .ok (applyBatches batches (docs.lookup k) k) := by
  unfold RemoteDocumentCache.documentForKeyInBatches
  rw [h.entryForKey]
  exact foldlM_applyToLocalDocument batches (h.lookup k)

/-- A read gives the cached document with the batches of the queue. -/
theorem Kept.documentForKey (h : docs.Kept) (ht : t.Consistent) (k : K) :
    docs.documentForKey t k = .ok (applyBatches t.mutations (docs.lookup k) k) := by
  unfold RemoteDocumentCache.documentForKey
  rw [ht.affecting]
  exact (h.documentForKeyInBatches _ k).trans
    (congrArg Except.ok (applyBatches_filter (fun _ hb => decide_eq_true hb) t.mutations _))

/-- What is read of several documents is what is read of each. -/
theorem Kept.documentsForKeys (h : docs.Kept) (ht : t.Consistent) (keys : List K) :
    docs.documentsForKeys t keys =
      .ok (keys.map fun k => (k, (applyBatches t.mutations (docs.lookup k) k).getD (.deleted k 0))) := by
  unfold RemoteDocumentCache.documentsForKeys
  rw [ht.affectingKeys]
  apply mapM_ok_map
  intro k hk
  rw [h.documentForKeyInBatches, applyBatches_filter fun b hb => decide_eq_true ⟨k, hk, hb⟩]
  rfl

end RemoteDocumentCache

end

end ShoppingList.Firestore
