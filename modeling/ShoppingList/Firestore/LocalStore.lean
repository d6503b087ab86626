import ShoppingList.Firestore.LocalDocuments

/-!
# The local store

The local store keeps the documents last heard of from the backend and the
queues of writes. An acknowledged batch is applied to the cache and removed, or
held until the listener has caught up with its commit. After each operation the
documents that may have changed are read again for the views, which are left out
here.
-/

namespace ShoppingList.Firestore

variable {K σ : Type}

abbrev TargetId := Nat

/-- What the backend says of a batch it has committed. -/
structure BatchResult (K σ : Type) where
  batch : MutationBatch K σ
  commitVersion : SnapshotVersion
  mutationResults : List (MutationResult σ)

/-- What the listener hears of: the documents added and modified in each target,
and the documents themselves, which are gathered by their keys. -/
structure RemoteEvent (K σ : Type) where
  snapshotVersion : SnapshotVersion
  targetChanges : List (TargetId × List K) := []
  documentUpdates : List (MaybeDocument K σ) := []

def BatchResult.resultWithBatch (batch : MutationBatch K σ) (commitVersion : SnapshotVersion)
    (mutationResults : List (MutationResult σ)) : Checked (BatchResult K σ) := do
  hardAssert (batch.mutations.length = mutationResults.length) "Mutations sent must equal results received"
  return { batch, commitVersion, mutationResults }

/-- A delete has no version of its own. -/
def BatchResult.docVersions [DecidableEq K] (result : BatchResult K σ) (docKey : K) : Option SnapshotVersion :=
  (result.batch.mutations.zip result.mutationResults).foldl (fun version p =>
    if p.1.key = docKey then some (p.2.version.getD result.commitVersion) else version) none

structure LocalStore (K σ : Type) where
  mutationQueue : MutationQueue K σ
  remoteDocuments : RemoteDocumentCache K σ := ∅
  lastRemoteSnapshotVersion : SnapshotVersion := 0
  heldBatchResults : List (BatchResult K σ) := []
  /-- The targets that are listened to. -/
  targetIDs : List TargetId := []

namespace LocalStore

def tables (s : LocalStore K σ) : Tables K σ := s.mutationQueue.tables

def put (s : LocalStore K σ) (t : Tables K σ) : LocalStore K σ :=
  { s with mutationQueue := s.mutationQueue.put t }

def nextMutationBatchAfterBatchID (s : LocalStore K σ) (batchID : BatchId) : Option (MutationBatch K σ) :=
  s.tables.nextMutationBatchAfterBatchID batchID

/-- Without targets there are no snapshots to wait for. -/
def isRemoteUpToVersion (s : LocalStore K σ) (version : SnapshotVersion) : Bool :=
  version ≤ s.lastRemoteSnapshotVersion || s.targetIDs.isEmpty

def shouldHoldBatchResultWithVersion (s : LocalStore K σ) (version : SnapshotVersion) : Bool :=
  !s.isRemoteUpToVersion version || !s.heldBatchResults.isEmpty

variable [DecidableEq K] [DecidableEq σ]

def documentForKey (s : LocalStore K σ) (key : K) : Checked (Option (MaybeDocument K σ)) :=
  s.remoteDocuments.documentForKey s.tables key

def documentsForKeys (s : LocalStore K σ) (keys : List K) : Checked (List (K × MaybeDocument K σ)) :=
  s.remoteDocuments.documentsForKeys s.tables keys

def applyBatchResultTo (result : BatchResult K σ) (docs : RemoteDocumentCache K σ) (docKey : K) :
    Checked (RemoteDocumentCache K σ) := do
  let remoteDoc ← docs.entryForKey docKey
  match result.docVersions docKey with
  | none => throw "docVersions should contain every doc in the write."
  | some ackVersion =>
    if remoteDoc.all (·.version < ackVersion) then
      match ← result.batch.applyToRemoteDocument remoteDoc docKey result.mutationResults with
      | none =>
        hardAssert remoteDoc.isNone "Mutation batch applied to document resulted in nil."
        return docs
      | some doc => return docs.addEntry doc
    else return docs

def applyBatchResult (result : BatchResult K σ) (docs : RemoteDocumentCache K σ) : Checked (RemoteDocumentCache K σ) :=
  result.batch.keys.foldlM (applyBatchResultTo result) docs

omit [DecidableEq σ] in
/-- The keys are those of the documents the batches change. -/
def removeMutationBatches (s : LocalStore K σ) (batches : List (MutationBatch K σ)) :
    Checked (List K × LocalStore K σ) := do
  let affectedDocs := (batches.flatMap MutationBatch.keys).dedup
  let t ← s.tables.removeMutationBatches batches
  return (affectedDocs, s.put t)

def releaseBatchResults (s : LocalStore K σ) (batchResults : List (BatchResult K σ)) :
    Checked (List K × LocalStore K σ) := do
  let remoteDocuments ← batchResults.foldlM (fun docs result => applyBatchResult result docs) s.remoteDocuments
  { s with remoteDocuments }.removeMutationBatches (batchResults.map BatchResult.batch)

def releaseHeldBatchResults (s : LocalStore K σ) : Checked (List K × LocalStore K σ) :=
  let toRelease := s.heldBatchResults.takeWhile fun result => s.isRemoteUpToVersion result.commitVersion
  if toRelease.isEmpty then .ok ([], s)
  else { s with heldBatchResults := s.heldBatchResults.drop toRelease.length }.releaseBatchResults toRelease

/-! ## Operations -/

omit [DecidableEq σ] in
def startMutationQueue (s : LocalStore K σ) : Checked (LocalStore K σ) := do
  let mutationQueue ← s.mutationQueue.start
  let s := { s with mutationQueue, heldBatchResults := [] }
  let highestAck := s.tables.highestAcknowledgedBatchID
  if highestAck ≠ batchIDUnknown then
    let (_, s) ← s.removeMutationBatches (s.tables.allMutationBatchesThroughBatchID highestAck)
    return s
  else return s

def userDidChange (s : LocalStore K σ) (user : UserId) : Checked (LocalStore K σ) := do
  let oldBatches := s.tables.mutations
  let s ← { s with mutationQueue := { db := s.mutationQueue.db, userID := user } }.startMutationQueue
  let newBatches := s.tables.mutations
  let _ ← s.documentsForKeys ((oldBatches ++ newBatches).flatMap MutationBatch.keys).dedup
  return s

omit [DecidableEq σ] in
/-- A new process finds the tables and the cache as the last one left them. -/
def restart (s : LocalStore K σ) (initialUser : UserId) : Checked (LocalStore K σ) :=
  startMutationQueue {
    mutationQueue := { db := s.mutationQueue.db, userID := initialUser }
    remoteDocuments := s.remoteDocuments
    lastRemoteSnapshotVersion := s.lastRemoteSnapshotVersion }

def locallyWriteMutations (s : LocalStore K σ) (localWriteTime : Timestamp) (mutations : List (Mutation K σ)) :
    Checked (MutationBatch K σ × LocalStore K σ) := do
  let (batch, mutationQueue) := s.mutationQueue.addMutationBatch localWriteTime mutations
  let s := { s with mutationQueue }
  let _ ← s.documentsForKeys batch.keys
  return (batch, s)

def holdOrRelease (s : LocalStore K σ) (batchResult : BatchResult K σ) : Checked (List K × LocalStore K σ) :=
  if s.shouldHoldBatchResultWithVersion batchResult.commitVersion then
    .ok ([], { s with heldBatchResults := s.heldBatchResults ++ [batchResult] })
  else s.releaseBatchResults [batchResult]

def acknowledgeBatchWithResult (s : LocalStore K σ) (batchResult : BatchResult K σ) : Checked (LocalStore K σ) := do
  let t ← s.tables.acknowledgeBatch batchResult.batch.batchID
  let (affected, s) ← (s.put t).holdOrRelease batchResult
  s.tables.performConsistencyCheck
  let _ ← s.documentsForKeys affected
  return s

def rejectBatchID (s : LocalStore K σ) (batchID : BatchId) : Checked (LocalStore K σ) := do
  match s.tables.lookupMutationBatch batchID with
  | none => throw "Attempt to reject nonexistent batch!"
  | some toReject =>
    hardAssert (s.tables.highestAcknowledgedBatchID < batchID) "Acknowledged batches can't be rejected."
    let (affected, s) ← s.removeMutationBatches [toReject]
    s.tables.performConsistencyCheck
    let _ ← s.documentsForKeys affected
    return s

/-- An update from a target that is listened to is taken as it is; any other may
not bring an older version. -/
def updateDocument (authoritativeUpdates : List K) (docs : RemoteDocumentCache K σ) (doc : MaybeDocument K σ) :
    Checked (RemoteDocumentCache K σ) := do
  match ← docs.entryForKey doc.key with
  | none => return docs.addEntry doc
  | some existingDoc =>
    if doc.version = 0 ∨ doc.key ∈ authoritativeUpdates ∨ existingDoc.version ≤ doc.version then
      return docs.addEntry doc
    else return docs

omit [DecidableEq K] [DecidableEq σ] in
/-- An event that was made up has no version. -/
def setLastRemoteSnapshotVersion (s : LocalStore K σ) (remoteVersion : SnapshotVersion) : Checked (LocalStore K σ) :=
  if remoteVersion ≠ 0 then do
    hardAssert (s.lastRemoteSnapshotVersion ≤ remoteVersion) "Watch stream reverted to previous snapshot"
    return { s with lastRemoteSnapshotVersion := remoteVersion }
  else .ok s

def applyRemoteEvent (s : LocalStore K σ) (remoteEvent : RemoteEvent K σ) : Checked (LocalStore K σ) := do
  let authoritativeUpdates := remoteEvent.targetChanges.flatMap fun change =>
    if change.1 ∈ s.targetIDs then change.2 else []
  let changedDocKeys := remoteEvent.documentUpdates.map MaybeDocument.key
  let remoteDocuments ← remoteEvent.documentUpdates.foldlM (updateDocument authoritativeUpdates) s.remoteDocuments
  let s ← { s with remoteDocuments }.setLastRemoteSnapshotVersion remoteEvent.snapshotVersion
  let (releasedWriteKeys, s) ← s.releaseHeldBatchResults
  let _ ← s.documentsForKeys (changedDocKeys ++ releasedWriteKeys).dedup
  return s

def allocateQuery (s : LocalStore K σ) (targetID : TargetId) : Checked (LocalStore K σ) := do
  hardAssert (targetID ∉ s.targetIDs) "Tried to allocate an already allocated query"
  return { s with targetIDs := s.targetIDs ++ [targetID] }

def releaseQuery (s : LocalStore K σ) (targetID : TargetId) : Checked (LocalStore K σ) := do
  hardAssert (targetID ∈ s.targetIDs) "Tried to release nonexistent query"
  let s := { s with targetIDs := s.targetIDs.erase targetID }
  if s.targetIDs.isEmpty then
    let (_, s) ← s.releaseHeldBatchResults
    return s
  else return s

end LocalStore

end ShoppingList.Firestore
