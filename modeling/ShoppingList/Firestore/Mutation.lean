import ShoppingList.Firestore.Document
import ShoppingList.Lib.Lists

/-!
# Mutations

A write is applied twice: to the local view as soon as it is made, and to the
cached document once the backend has acknowledged it. A transform reads the
field it changes. Locally it reads the document from before the batch, after
the acknowledgement the document from before the mutation; for arrays the two
results are the same when no earlier mutation of the batch writes the field.
-/

namespace ShoppingList.Firestore

variable {K σ : Type}

/-! ## Transforms -/

inductive ArrayTransform (σ : Type) where
  | union (elements : List (Value σ))
  | remove (elements : List (Value σ))

namespace ArrayTransform

def coercedFieldValuesArray : Option (Value σ) → List (Value σ)
  | some (.array elements) => elements
  | _ => []

def apply [DecidableEq σ] (previousValue : Option (Value σ)) : ArrayTransform σ → Value σ
  | union elements =>
    .array (elements.foldl
      (fun result element => if result.any (·.isEqual element) then result else result ++ [element])
      (coercedFieldValuesArray previousValue))
  | remove elements =>
    .array (elements.foldl (fun result element => result.filter fun e => !e.isEqual element)
      (coercedFieldValuesArray previousValue))

end ArrayTransform

inductive TransformOperation (σ : Type) where
  | serverTimestamp
  | array (transform : ArrayTransform σ)

namespace TransformOperation

def applyToLocalView [DecidableEq σ] (previousValue : Option (Value σ)) (localWriteTime : Timestamp) :
    TransformOperation σ → Value σ
  | serverTimestamp => .serverTimestamp localWriteTime previousValue
  | array transform => transform.apply previousValue

/-- The backend sends null for an array transform. -/
def applyToRemoteDocument [DecidableEq σ] (previousValue : Option (Value σ)) (transformResult : Value σ) :
    TransformOperation σ → Value σ
  | serverTimestamp => transformResult
  | array transform => transform.apply previousValue

def isArray : TransformOperation σ → Bool
  | array _ => true
  | serverTimestamp => false

theorem apply_agree [DecidableEq σ] {op : TransformOperation σ} (h : op.isArray = true)
    (previousValue : Option (Value σ)) (localWriteTime : Timestamp) (transformResult : Value σ) :
    op.applyToRemoteDocument previousValue transformResult = op.applyToLocalView previousValue localWriteTime := by
  cases op with
  | serverTimestamp => cases h
  | array transform => rfl

end TransformOperation

/-- The converter of user data makes transforms for the fields of a dictionary
only, so the path has a segment. -/
structure FieldTransform (σ : Type) where
  path : FieldPath
  transformation : TransformOperation σ
  path_ne : path ≠ []

/-! ## Mutations -/

inductive Mutation (K σ : Type) where
  | set (key : K) (value : ObjectValue σ) (precondition : Precondition)
  | patch (key : K) (fieldMask : List FieldPath) (value : ObjectValue σ) (precondition : Precondition)
  | transform (key : K) (fieldTransforms : List (FieldTransform σ))
  | delete (key : K) (precondition : Precondition)

/-- `transformResults` is there for transforms alone. -/
structure MutationResult (σ : Type) where
  version : Option SnapshotVersion
  transformResults : Option (List (Value σ))

namespace Mutation

def key : Mutation K σ → K
  | set k .. | patch k .. | transform k _ | delete k _ => k

def precondition : Mutation K σ → Precondition
  | set _ _ p | patch _ _ _ p | delete _ p => p
  | transform .. => .exists true

def fieldTransforms : Mutation K σ → List (FieldTransform σ)
  | transform _ ts => ts
  | _ => []

def patchObjectValue (fieldMask : List FieldPath) (value objectValue : ObjectValue σ) : Checked (ObjectValue σ) :=
  fieldMask.foldlM (fun result fieldPath =>
    if fieldPath = [] then .ok result
    else match value.valueForPath fieldPath with
      | some newValue => result.objectBySettingValue newValue fieldPath
      | none => result.objectByDeletingPath fieldPath) objectValue

def transformObject (ts : List (FieldTransform σ)) (objectValue : ObjectValue σ) (transformResults : List (Value σ)) :
    Checked (ObjectValue σ) := do
  hardAssert (transformResults.length = ts.length) "Transform results length mismatch."
  (ts.zip transformResults).foldlM (fun objectValue t => objectValue.objectBySettingValue t.2 t.1.path) objectValue

section
variable [DecidableEq σ]

def localTransformResults (ts : List (FieldTransform σ)) (baseDocument : Option (MaybeDocument K σ))
    (localWriteTime : Timestamp) : List (Value σ) :=
  ts.map fun t => t.transformation.applyToLocalView (fieldAt baseDocument t.path) localWriteTime

def serverTransformResults (ts : List (FieldTransform σ)) (baseDocument : Option (MaybeDocument K σ))
    (transformResults : List (Value σ)) : Checked (List (Value σ)) := do
  hardAssert (ts.length = transformResults.length)
    "server transform result count should match field transforms count"
  return List.zipWith (fun t result => t.transformation.applyToRemoteDocument (fieldAt baseDocument t.path) result)
    ts transformResults

end

/-- What `applyToLocalDocument` and `applyToRemoteDocument` have in common. -/
def applyTo [DecidableEq K] (m : Mutation K σ) (hasLocalMutations : Bool) (transformResults : Checked (List (Value σ)))
    (maybeDoc : Option (MaybeDocument K σ)) : Checked (Option (MaybeDocument K σ)) :=
  if m.precondition.isValidFor maybeDoc then
    match m, maybeDoc with
    | set key value _, some (.document docKey _ version _) => do
      hardAssert (docKey = key) "Can only set a document with the same key"
      return some (.document docKey value version hasLocalMutations)
    | set key value _, _ => .ok (some (.document key value 0 hasLocalMutations))
    | patch key fieldMask value _, some (.document docKey data version _) => do
      hardAssert (docKey = key) "Can only patch a document with the same key"
      let newData ← patchObjectValue fieldMask value data
      return some (.document docKey newData version hasLocalMutations)
    | patch key fieldMask value _, some (.deleted docKey version) => do
      hardAssert (docKey = key) "Can only patch a document with the same key"
      let newData ← patchObjectValue fieldMask value []
      return some (.document docKey newData version hasLocalMutations)
    | patch key fieldMask value _, none => do
      let newData ← patchObjectValue fieldMask value []
      return some (.document key newData 0 hasLocalMutations)
    | transform key ts, some (.document docKey data version _) => do
      hardAssert (docKey = key) "Can only transform a document with the same key"
      let transformResults ← transformResults
      let newData ← transformObject ts data transformResults
      return some (.document docKey newData version hasLocalMutations)
    | transform .., _ => .error "Unknown MaybeDocument type"
    | delete key _, some doc => do
      hardAssert (doc.key = key) "Can only delete a document with the same key"
      return some (.deleted key 0)
    | delete key _, none => .ok (some (.deleted key 0))
  else .ok maybeDoc

variable [DecidableEq K] [DecidableEq σ]

def applyToLocalDocument (m : Mutation K σ) (maybeDoc baseDoc : Option (MaybeDocument K σ)) (localWriteTime : Timestamp) :
    Checked (Option (MaybeDocument K σ)) :=
  m.applyTo true (.ok (localTransformResults m.fieldTransforms baseDoc localWriteTime)) maybeDoc

def applyToRemoteDocument (m : Mutation K σ) (maybeDoc : Option (MaybeDocument K σ))
    (mutationResult : MutationResult σ) : Checked (Option (MaybeDocument K σ)) := do
  match m, mutationResult.transformResults with
  | set .., results => hardAssert results.isNone "Transform results received by FSTSetMutation."
  | patch .., results => hardAssert results.isNone "Transform results received by FSTPatchMutation."
  | delete .., results => hardAssert results.isNone "Transform results received by FSTDeleteMutation."
  | transform .., results => hardAssert results.isSome "Transform results missing for FSTTransformMutation."
  m.applyTo false
    (serverTransformResults m.fieldTransforms maybeDoc (mutationResult.transformResults.getD [])) maybeDoc

end Mutation

/-! ## Batches -/

abbrev BatchId := Int

def batchIDUnknown : BatchId := -1

structure MutationBatch (K σ : Type) where
  batchID : BatchId
  localWriteTime : Timestamp
  mutations : List (Mutation K σ)

namespace MutationBatch

variable [DecidableEq K]

def keys (batch : MutationBatch K σ) : List K := (batch.mutations.map (·.key)).dedup

variable [DecidableEq σ]

def applyToLocalDocument (batch : MutationBatch K σ) (maybeDoc : Option (MaybeDocument K σ)) (documentKey : K) :
    Checked (Option (MaybeDocument K σ)) := do
  hardAssert (maybeDoc.all (·.key = documentKey)) "applyTo: key doesn't match maybeDoc key"
  batch.mutations.foldlM (fun doc m =>
    if m.key = documentKey then m.applyToLocalDocument doc maybeDoc batch.localWriteTime else .ok doc) maybeDoc

def applyToRemoteDocument (batch : MutationBatch K σ) (maybeDoc : Option (MaybeDocument K σ)) (documentKey : K)
    (mutationResults : List (MutationResult σ)) : Checked (Option (MaybeDocument K σ)) := do
  hardAssert (maybeDoc.all (·.key = documentKey)) "applyTo: key doesn't match maybeDoc key"
  hardAssert (mutationResults.length = batch.mutations.length)
    "Mismatch between mutations length and results length"
  (batch.mutations.zip mutationResults).foldlM (fun doc p =>
    if p.1.key = documentKey then p.1.applyToRemoteDocument doc p.2 else .ok doc) maybeDoc

end MutationBatch

/-! ## What the applications come to

The checks never fail: a document is kept under its key, and transforms name
their fields. -/

theorem foldlM_ok {α β : Type} {f : β → α → Checked β} {g : β → α → β} {xs : List α}
    (h : ∀ b, ∀ a ∈ xs, f b a = .ok (g b a)) (b : β) : xs.foldlM f b = .ok (xs.foldl g b) := by
  induction xs generalizing b with
  | nil => rfl
  | cons a xs ih =>
    rw [List.foldlM_cons, h b a (List.mem_cons_self ..)]
    exact ih (fun b a ha => h b a (List.mem_cons_of_mem _ ha)) (g b a)

theorem mapM_ok_map {α β : Type} {f : α → Checked β} {g : α → β} {xs : List α} (h : ∀ a ∈ xs, f a = .ok (g a)) :
    xs.mapM f = .ok (xs.map g) := by
  induction xs with
  | nil => rfl
  | cons a xs ih =>
    rw [List.mapM_cons, h a (List.mem_cons_self ..), ih fun a ha => h a (List.mem_cons_of_mem _ ha)]
    rfl

namespace Mutation

def patched (fieldMask : List FieldPath) (value objectValue : ObjectValue σ) : ObjectValue σ :=
  fieldMask.foldl (fun result fieldPath =>
    if fieldPath = [] then result
    else match value.valueForPath fieldPath with
      | some newValue => result.setPath newValue fieldPath
      | none => result.deletePath fieldPath) objectValue

def transformed (ts : List (FieldTransform σ)) (objectValue : ObjectValue σ) (transformResults : List (Value σ)) :
    ObjectValue σ :=
  (ts.zip transformResults).foldl (fun objectValue t => objectValue.setPath t.2 t.1.path) objectValue

/-- The document after the mutation; a transform changes a document that is there. -/
def apply (hasLocalMutations : Bool) (transformResults : List (Value σ)) (maybeDoc : Option (MaybeDocument K σ))
    (m : Mutation K σ) : Option (MaybeDocument K σ) :=
  if m.precondition.isValidFor maybeDoc then
    match m, maybeDoc with
    | set key value _, some (.document _ _ version _) => some (.document key value version hasLocalMutations)
    | set key value _, _ => some (.document key value 0 hasLocalMutations)
    | patch key fieldMask value _, some (.document _ data version _) =>
      some (.document key (patched fieldMask value data) version hasLocalMutations)
    | patch key fieldMask value _, some (.deleted _ version) =>
      some (.document key (patched fieldMask value []) version hasLocalMutations)
    | patch key fieldMask value _, none =>
      some (.document key (patched fieldMask value []) 0 hasLocalMutations)
    | transform key ts, some (.document _ data version _) =>
      some (.document key (transformed ts data transformResults) version hasLocalMutations)
    | transform .., _ => maybeDoc
    | delete key _, _ => some (.deleted key 0)
  else maybeDoc

theorem patchObjectValue_eq (fieldMask : List FieldPath) (value objectValue : ObjectValue σ) :
    patchObjectValue fieldMask value objectValue = .ok (patched fieldMask value objectValue) := by
  apply foldlM_ok
  intro fields path _
  by_cases hp : path = []
  · rw [if_pos hp, if_pos hp]
  · rw [if_neg hp, if_neg hp]
    cases value.valueForPath path with
    | some newValue => exact ObjectValue.objectBySettingValue_eq hp
    | none => exact ObjectValue.objectByDeletingPath_eq hp

theorem transformObject_eq {ts : List (FieldTransform σ)} {results : List (Value σ)} (h : results.length = ts.length)
    (objectValue : ObjectValue σ) : transformObject ts objectValue results = .ok (transformed ts objectValue results) := by
  unfold transformObject
  rw [hardAssert_ok (decide_eq_true h)]
  exact foldlM_ok (fun fields t _ => ObjectValue.objectBySettingValue_eq t.1.path_ne) objectValue

section
variable [DecidableEq K] {m : Mutation K σ} {doc : Option (MaybeDocument K σ)}

theorem applyTo_eq (hk : Keyed m.key doc) {results : List (Value σ)} (hl : results.length = m.fieldTransforms.length)
    (flag : Bool) : m.applyTo flag (.ok results) doc = .ok (m.apply flag results doc) := by
  unfold applyTo apply
  by_cases hv : m.precondition.isValidFor doc = true
  · rw [if_pos hv, if_pos hv]
    cases m with
    | set key value p =>
      rcases doc with _ | (⟨docKey, data, version, f⟩ | ⟨docKey, version⟩)
      · rfl
      · obtain rfl : docKey = key := hk _ rfl
        simp [bind, Except.bind, pure, Except.pure]
      · rfl
    | patch key fieldMask value p =>
      rcases doc with _ | (⟨docKey, data, version, f⟩ | ⟨docKey, version⟩)
      · simp [patchObjectValue_eq, bind, Except.bind, pure, Except.pure]
      · obtain rfl : docKey = key := hk _ rfl
        simp [patchObjectValue_eq, bind, Except.bind, pure, Except.pure]
      · obtain rfl : docKey = key := hk _ rfl
        simp [patchObjectValue_eq, bind, Except.bind, pure, Except.pure]
    | transform key ts =>
      rcases doc with _ | (⟨docKey, data, version, f⟩ | ⟨docKey, version⟩)
      · cases hv
      · obtain rfl : docKey = key := hk _ rfl
        have hrun : transformObject ts data results = .ok (transformed ts data results) := transformObject_eq hl data
        simp [hrun, bind, Except.bind, pure, Except.pure]
      · cases hv
    | delete key p =>
      rcases doc with _ | d
      · rfl
      · have hd : d.key = key := hk _ rfl
        simp [hd, bind, Except.bind, pure, Except.pure]
  · rw [if_neg hv, if_neg hv]

omit [DecidableEq K] in
theorem keyed_apply (hk : Keyed m.key doc) (flag : Bool) (results : List (Value σ)) :
    Keyed m.key (m.apply flag results doc) := by
  unfold apply
  split
  · cases m with
    | transform key ts =>
      rcases doc with _ | (_ | _)
      · exact hk
      · rintro d ⟨⟩
        rfl
      · exact hk
    | set | patch | delete =>
      rcases doc with _ | (_ | _)
      all_goals
        rintro d ⟨⟩
        rfl
  · exact hk

variable [DecidableEq σ]

omit [DecidableEq K] in
@[simp] theorem length_localTransformResults (ts : List (FieldTransform σ)) (base : Option (MaybeDocument K σ))
    (localWriteTime : Timestamp) : (localTransformResults ts base localWriteTime).length = ts.length := List.length_map _

theorem applyToLocalDocument_eq (hk : Keyed m.key doc) (base : Option (MaybeDocument K σ)) (localWriteTime : Timestamp) :
    m.applyToLocalDocument doc base localWriteTime =
      .ok (m.apply true (localTransformResults m.fieldTransforms base localWriteTime) doc) :=
  applyTo_eq hk (length_localTransformResults ..) true

/-- The backend's answer has the shape the mutation asks for. -/
def Fits : Mutation K σ → MutationResult σ → Prop
  | transform _ ts, result => ∃ results, result.transformResults = some results ∧ ts.length = results.length
  | _, result => result.transformResults = none

/-- The results of the transforms once the backend has answered. -/
def remoteResults (m : Mutation K σ) (doc : Option (MaybeDocument K σ)) (result : MutationResult σ) : List (Value σ) :=
  List.zipWith (fun t r => t.transformation.applyToRemoteDocument (fieldAt doc t.path) r) m.fieldTransforms
    (result.transformResults.getD [])

omit [DecidableEq K] [DecidableEq σ] in
theorem Fits.length {result : MutationResult σ} (h : m.Fits result) :
    m.fieldTransforms.length = (result.transformResults.getD []).length := by
  cases m with
  | transform key ts =>
    obtain ⟨results, hr, hl⟩ := h
    rw [hr]
    exact hl
  | set | patch | delete =>
    have hr : result.transformResults = none := h
    rw [hr]
    rfl

theorem applyToRemoteDocument_eq (hk : Keyed m.key doc) {result : MutationResult σ} (h : m.Fits result) :
    m.applyToRemoteDocument doc result = .ok (m.apply false (m.remoteResults doc result) doc) := by
  have hresults : serverTransformResults m.fieldTransforms doc (result.transformResults.getD []) =
      .ok (m.remoteResults doc result) := by
    unfold serverTransformResults
    rw [hardAssert_ok (decide_eq_true h.length)]
    rfl
  have hlength : (m.remoteResults doc result).length = m.fieldTransforms.length := by
    unfold remoteResults
    rw [List.length_zipWith, ← h.length, Nat.min_self]
  unfold applyToRemoteDocument
  rw [hresults, applyTo_eq hk hlength]
  cases m with
  | transform key ts =>
    obtain ⟨results, hr, -⟩ := h
    rw [hr]
    rfl
  | set | patch | delete =>
    have hr : result.transformResults = none := h
    rw [hr]
    rfl

end

end Mutation

namespace MutationBatch

variable [DecidableEq K] [DecidableEq σ] {batch : MutationBatch K σ} {doc : Option (MaybeDocument K σ)} {k : K}

/-- What is shown of the document. -/
def shown (batch : MutationBatch K σ) (maybeDoc : Option (MaybeDocument K σ)) (documentKey : K) :
    Option (MaybeDocument K σ) :=
  batch.mutations.foldl (fun doc m =>
    if m.key = documentKey then
      m.apply true (Mutation.localTransformResults m.fieldTransforms maybeDoc batch.localWriteTime) doc
    else doc) maybeDoc

/-- What the cached document becomes. -/
def acknowledged (batch : MutationBatch K σ) (results : List (MutationResult σ)) (maybeDoc : Option (MaybeDocument K σ))
    (documentKey : K) : Option (MaybeDocument K σ) :=
  (batch.mutations.zip results).foldl (fun doc p =>
    if p.1.key = documentKey then p.1.apply false (p.1.remoteResults doc p.2) doc else doc) maybeDoc

omit [DecidableEq σ] in
theorem all_key (hk : Keyed k doc) : (doc.all fun d => decide (d.key = k)) = true := by
  cases doc with
  | none => rfl
  | some d => exact decide_eq_true (hk d rfl)

omit [DecidableEq σ] in
/-- Mutations of the same key, each of which keeps the document under the key. -/
theorem keyed_foldlM {α : Type} (mutation : α → Mutation K σ) {f : Option (MaybeDocument K σ) → α → Checked (Option (MaybeDocument K σ))}
    {g : Option (MaybeDocument K σ) → α → Option (MaybeDocument K σ)} {xs : List α}
    (hf : ∀ doc, ∀ a ∈ xs, Keyed (mutation a).key doc → f doc a = .ok (g doc a))
    (hg : ∀ doc a, Keyed (mutation a).key doc → Keyed (mutation a).key (g doc a)) {doc : Option (MaybeDocument K σ)}
    (hk : Keyed k doc) :
    xs.foldlM (fun doc a => if (mutation a).key = k then f doc a else .ok doc) doc =
        .ok (xs.foldl (fun doc a => if (mutation a).key = k then g doc a else doc) doc) ∧
      Keyed k (xs.foldl (fun doc a => if (mutation a).key = k then g doc a else doc) doc) := by
  induction xs generalizing doc with
  | nil => exact ⟨rfl, hk⟩
  | cons a xs ih =>
    have hrest := fun doc a (ha : a ∈ xs) => hf doc a (List.mem_cons_of_mem _ ha)
    rw [List.foldlM_cons, List.foldl_cons]
    by_cases ha : (mutation a).key = k
    · subst ha
      rw [if_pos rfl, if_pos rfl, hf doc a (List.mem_cons_self ..) hk]
      exact ih hrest (hg doc a hk)
    · rw [if_neg ha, if_neg ha]
      exact ih hrest hk

theorem applyToLocalDocument_eq (batch : MutationBatch K σ) (hk : Keyed k doc) :
    batch.applyToLocalDocument doc k = .ok (batch.shown doc k) ∧ Keyed k (batch.shown doc k) := by
  unfold applyToLocalDocument
  rw [hardAssert_ok (all_key hk)]
  exact keyed_foldlM id (fun d m _ h => Mutation.applyToLocalDocument_eq h doc batch.localWriteTime)
    (fun d m h => Mutation.keyed_apply h true _) hk

theorem applyToRemoteDocument_eq {results : List (MutationResult σ)} (hk : Keyed k doc)
    (hf : List.Forall₂ Mutation.Fits batch.mutations results) :
    batch.applyToRemoteDocument doc k results = .ok (batch.acknowledged results doc k) ∧
      Keyed k (batch.acknowledged results doc k) := by
  have hfits : ∀ p ∈ batch.mutations.zip results, p.1.Fits p.2 := fun p hp => (List.forall₂_iff_zip.mp hf).2 hp
  unfold applyToRemoteDocument
  rw [hardAssert_ok (all_key hk), hardAssert_ok (decide_eq_true hf.length_eq.symm)]
  exact keyed_foldlM Prod.fst (fun d p hp h => Mutation.applyToRemoteDocument_eq h (hfits p hp))
    (fun d p h => Mutation.keyed_apply h false _) hk

end MutationBatch

/-! ## Both applications agree -/

namespace MaybeDocument

theorem fieldForPath_settled (doc : MaybeDocument K σ) (path : FieldPath) :
    doc.settled.fieldForPath path = doc.fieldForPath path := by
  cases doc <;> rfl

theorem isValidFor_settled (p : Precondition) (doc : Option (MaybeDocument K σ)) :
    p.isValidFor (doc.map settled) = p.isValidFor doc := by
  rcases doc with _ | (_ | _) <;> cases p with
    | «exists» b => cases b <;> rfl
    | _ => rfl

end MaybeDocument

theorem fieldAt_congr {doc doc' : Option (MaybeDocument K σ)} (h : doc.map (·.settled) = doc'.map (·.settled))
    (path : FieldPath) : fieldAt doc path = fieldAt doc' path := by
  have hs : ∀ d : Option (MaybeDocument K σ), fieldAt (d.map (·.settled)) path = fieldAt d path := by
    intro d
    cases d with
    | none => rfl
    | some d => exact d.fieldForPath_settled path
  rw [← hs doc, h, hs doc']

namespace Mutation

/-- The mutation leaves the field at `path` alone. -/
def Spares (path : FieldPath) : Mutation K σ → Prop
  | patch _ fieldMask .. => ∀ p ∈ fieldMask, p = [] ∨ FieldPath.Apart p path
  | transform _ ts => ∀ t ∈ ts, FieldPath.Apart t.path path
  | set .. | delete .. => False

instance (path : FieldPath) (m : Mutation K σ) : Decidable (m.Spares path) :=
  match m with
  | patch _ fieldMask _ _ => inferInstanceAs (Decidable (∀ p ∈ fieldMask, p = [] ∨ FieldPath.Apart p path))
  | transform _ ts => inferInstanceAs (Decidable (∀ t ∈ ts, FieldPath.Apart t.path path))
  | set .. | delete .. => .isFalse id

theorem valueForPath_patched {path : FieldPath} {fieldMask : List FieldPath} {value data : ObjectValue σ}
    (h : ∀ p ∈ fieldMask, p = [] ∨ FieldPath.Apart p path) :
    (patched fieldMask value data).valueForPath path = data.valueForPath path := by
  unfold patched
  induction fieldMask generalizing data with
  | nil => rfl
  | cons p fieldMask ih =>
    rw [List.foldl_cons, ih fun p hp => h p (List.mem_cons_of_mem _ hp)]
    split
    · rfl
    · rename_i hne
      have hapart := (h p (List.mem_cons_self ..)).resolve_left hne
      split
      · exact ObjectValue.valueForPath_setPath hapart
      · exact ObjectValue.valueForPath_deletePath hapart

theorem valueForPath_transformed {path : FieldPath} {ts : List (FieldTransform σ)} {results : List (Value σ)}
    {data : ObjectValue σ} (h : ∀ t ∈ ts, FieldPath.Apart t.path path) :
    (transformed ts data results).valueForPath path = data.valueForPath path := by
  unfold transformed
  induction ts generalizing results data with
  | nil => rfl
  | cons t ts ih =>
    cases results with
    | nil => rfl
    | cons v results =>
      rw [List.zip_cons_cons, List.foldl_cons, ih fun t ht => h t (List.mem_cons_of_mem _ ht)]
      exact ObjectValue.valueForPath_setPath (h t (List.mem_cons_self ..))

variable {m : Mutation K σ} {doc doc' : Option (MaybeDocument K σ)} {results : List (Value σ)}

theorem fieldAt_apply {path : FieldPath} (hp : path ≠ []) (h : m.Spares path) (flag : Bool) :
    fieldAt (m.apply flag results doc) path = fieldAt doc path := by
  obtain ⟨name, path, rfl⟩ := List.exists_cons_of_ne_nil hp
  unfold apply
  split
  · cases m with
    | set | delete => exact h.elim
    | patch _ fieldMask value =>
      rcases doc with _ | (_ | _) <;> exact valueForPath_patched h
    | transform _ ts =>
      rcases doc with _ | (_ | _)
      · rfl
      · exact valueForPath_transformed h
      · rfl
  · rfl

theorem apply_isSome (flag : Bool) (h : doc.isSome) : (m.apply flag results doc).isSome := by
  obtain ⟨d, rfl⟩ := Option.isSome_iff_exists.mp h
  unfold apply
  split
  · cases m <;> cases d <;> rfl
  · rfl

theorem settled_apply (hdoc : doc.map (·.settled) = doc'.map (·.settled)) (flag flag' : Bool) :
    (m.apply flag results doc).map (·.settled) = (m.apply flag' results doc').map (·.settled) := by
  have hvalid : m.precondition.isValidFor doc = m.precondition.isValidFor doc' := by
    rw [← MaybeDocument.isValidFor_settled, hdoc, MaybeDocument.isValidFor_settled]
  unfold apply
  rw [hvalid]
  split
  · rcases doc with _ | (_ | _) <;> rcases doc' with _ | (_ | _) <;> simp [MaybeDocument.settled] at hdoc
    all_goals cases m <;> simp_all [MaybeDocument.settled]
  · exact hdoc

/-- No transform of the mutation waits for the backend's time. -/
def Untimed (m : Mutation K σ) : Prop := ∀ t ∈ m.fieldTransforms, t.transformation.isArray = true

instance (m : Mutation K σ) : Decidable m.Untimed :=
  inferInstanceAs (Decidable (∀ t ∈ m.fieldTransforms, t.transformation.isArray = true))

variable [DecidableEq σ]

theorem localTransformResults_congr {doc base : Option (MaybeDocument K σ)} {ts : List (FieldTransform σ)}
    (h : ∀ t ∈ ts, fieldAt doc t.path = fieldAt base t.path) (localWriteTime : Timestamp) :
    localTransformResults ts doc localWriteTime = localTransformResults ts base localWriteTime := by
  unfold localTransformResults
  refine List.map_congr_left fun t ht => ?_
  rw [h t ht]

/-- An array transform comes to the same on both sides. -/
theorem remoteResults_eq {base : Option (MaybeDocument K σ)} {result : MutationResult σ} (hf : m.Fits result)
    (hu : m.Untimed) (h : ∀ t ∈ m.fieldTransforms, fieldAt doc t.path = fieldAt base t.path)
    (localWriteTime : Timestamp) :
    m.remoteResults doc result = localTransformResults m.fieldTransforms base localWriteTime := by
  apply Lists.zipWith_eq_map hf.length
  intro t ht r
  rw [h t ht]
  exact TransformOperation.apply_agree (hu t ht) _ localWriteTime r

end Mutation

namespace MutationBatch

/-- No mutation of the batch writes a field that a later one transforms. -/
def Independent (batch : MutationBatch K σ) : Prop :=
  batch.mutations.Pairwise fun m m' => m.key = m'.key → ∀ t ∈ m'.fieldTransforms, m.Spares t.path

instance [DecidableEq K] (batch : MutationBatch K σ) : Decidable batch.Independent :=
  inferInstanceAs (Decidable (List.Pairwise (fun _ _ => _ → _) _))

/-- The transforms of the batch are array transforms. -/
def Untimed (batch : MutationBatch K σ) : Prop := ∀ m ∈ batch.mutations, m.Untimed

instance (batch : MutationBatch K σ) : Decidable batch.Untimed :=
  inferInstanceAs (Decidable (∀ m ∈ batch.mutations, m.Untimed))

variable [DecidableEq K] [DecidableEq σ] {batch : MutationBatch K σ} {results : List (MutationResult σ)} {k : K}

/-- Along the batch the two documents stay equal but for their marks, and the
fields that are still to be transformed stay as they were before the batch. -/
theorem foldl_settled {base : Option (MaybeDocument K σ)} {localWriteTime : Timestamp} {ms : List (Mutation K σ)}
    {results : List (MutationResult σ)} (hf : List.Forall₂ Mutation.Fits ms results) :
    ∀ {doc document : Option (MaybeDocument K σ)},
    ms.Pairwise (fun m m' => m.key = m'.key → ∀ t ∈ m'.fieldTransforms, m.Spares t.path) →
    (∀ m ∈ ms, m.Untimed) → doc.map (·.settled) = document.map (·.settled) →
    (∀ m ∈ ms, m.key = k → ∀ t ∈ m.fieldTransforms, fieldAt doc t.path = fieldAt base t.path) →
    ((ms.zip results).foldl (fun doc p =>
        if p.1.key = k then p.1.apply false (p.1.remoteResults doc p.2) doc else doc) doc).map (·.settled) =
      (ms.foldl (fun doc m =>
        if m.key = k then m.apply true (Mutation.localTransformResults m.fieldTransforms base localWriteTime) doc
        else doc) document).map (·.settled) := by
  induction hf with
  | nil => exact fun _ _ hdoc _ => hdoc
  | @cons m result ms results hm hf ih =>
    intro doc document hp hu hdoc hbase
    obtain ⟨hspares, hp⟩ := List.pairwise_cons.mp hp
    have hu' := fun m' (hm' : m' ∈ ms) => hu m' (List.mem_cons_of_mem _ hm')
    rw [List.zip_cons_cons, List.foldl_cons, List.foldl_cons]
    by_cases hk : m.key = k
    · rw [if_pos hk, if_pos hk]
      have hself := hbase m (List.mem_cons_self ..) hk
      have hresults := Mutation.remoteResults_eq hm (hu m (List.mem_cons_self ..)) hself localWriteTime
      rw [hresults]
      apply ih hp hu' (Mutation.settled_apply hdoc false true)
      intro m' hm' hk' t ht
      have hs := hspares m' hm' (hk.trans hk'.symm) t ht
      rw [Mutation.fieldAt_apply t.path_ne hs false]
      exact hbase m' (List.mem_cons_of_mem _ hm') hk' t ht
    · rw [if_neg hk, if_neg hk]
      exact ih hp hu' hdoc fun m' hm' => hbase m' (List.mem_cons_of_mem _ hm')

theorem acknowledged_isSome (batch : MutationBatch K σ) (results : List (MutationResult σ))
    {doc : Option (MaybeDocument K σ)} (h : doc.isSome) : (batch.acknowledged results doc k).isSome := by
  unfold acknowledged
  induction batch.mutations.zip results generalizing doc with
  | nil => exact h
  | cons p ps ih =>
    rw [List.foldl_cons]
    split
    · exact ih (Mutation.apply_isSome false h)
    · exact ih h

theorem settled_acknowledged (hi : batch.Independent) (hu : batch.Untimed)
    (hf : List.Forall₂ Mutation.Fits batch.mutations results) {doc document : Option (MaybeDocument K σ)}
    (hdoc : doc.map (·.settled) = document.map (·.settled)) :
    (batch.acknowledged results doc k).map (·.settled) = (batch.shown document k).map (·.settled) :=
  foldl_settled hf hi hu hdoc fun _ _ _ t _ => fieldAt_congr hdoc t.path

/-- **What is shown before the acknowledgement is what is stored after it**, for
every batch of array transforms in which no mutation writes a field that a later
one transforms. -/
theorem shown_as_acknowledged (batch : MutationBatch K σ) (results : List (MutationResult σ))
    (hi : batch.Independent) (hu : batch.Untimed) (hf : List.Forall₂ Mutation.Fits batch.mutations results)
    (maybeDoc : Option (MaybeDocument K σ)) (k : K) (hk : Keyed k maybeDoc) :
    ∃ doc document, batch.applyToRemoteDocument maybeDoc k results = .ok doc ∧
      batch.applyToLocalDocument maybeDoc k = .ok document ∧
      doc.map (·.settled) = document.map (·.settled) :=
  ⟨_, _, (applyToRemoteDocument_eq hk hf).1, (applyToLocalDocument_eq batch hk).1, settled_acknowledged hi hu hf rfl⟩

/-- `updateData` with a union of one field: the mask is empty. -/
def unionBatch : MutationBatch Text Text where
  batchID := 0
  localWriteTime := 7
  mutations := [.patch ['u'] [] [] (.exists true),
    .transform ['u'] [⟨[['i']], .array (.union [.scalar ['x']]), List.cons_ne_nil _ _⟩]]

theorem shown_as_acknowledged_unionBatch : ∃ doc document,
    unionBatch.applyToRemoteDocument (some (.document ['u'] [(['i'], .array [.scalar ['a']])] 3 false)) ['u']
      [⟨some 4, none⟩, ⟨some 4, some [.scalar ['n']]⟩] = .ok doc ∧
    unionBatch.applyToLocalDocument (some (.document ['u'] [(['i'], .array [.scalar ['a']])] 3 false)) ['u'] =
      .ok document ∧
    document = some (.document ['u'] [(['i'], .array [.scalar ['a'], .scalar ['x']])] 3 true) ∧
    doc.map (·.settled) = document.map (·.settled) := by
  have hi : unionBatch.Independent := by decide
  have hu : unionBatch.Untimed := by decide
  have hf : List.Forall₂ Mutation.Fits unionBatch.mutations
      [⟨some 4, none⟩, ⟨some 4, some [.scalar ['n']]⟩] :=
    .cons rfl (.cons ⟨_, rfl, rfl⟩ .nil)
  have hk : Keyed ['u'] (some (.document ['u'] [(['i'], .array [.scalar ['a']])] 3 false) : Option (MaybeDocument Text Text)) := by
    decide
  obtain ⟨doc, document, hdoc, hdocument, hs⟩ := shown_as_acknowledged unionBatch _ hi hu hf _ ['u'] hk
  refine ⟨doc, document, hdoc, hdocument, ?_, hs⟩
  exact Except.ok.inj (hdocument.symm.trans rfl)

end MutationBatch

end ShoppingList.Firestore
