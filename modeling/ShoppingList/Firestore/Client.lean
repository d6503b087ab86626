import ShoppingList.Firestore.LocalStore

/-!
# The client

The sync engine gives each write to the local store and keeps its completion
block; the remote store sends the waiting batches over a stream, in order and at
most ten at a time, and takes an answer to be about the first of them. Everything
runs on one queue, so each function here runs to its end undisturbed.

A stream is replaced when the network is disabled or the user changes. The
backend answers the writes of a connection in their order.
-/

namespace ShoppingList.Firestore

variable {K σ C : Type}

inductive ErrorCode where
  | cancelled | unknown | invalidArgument | deadlineExceeded | notFound | alreadyExists | permissionDenied
  | resourceExhausted | failedPrecondition | aborted | outOfRange | unimplemented | internal | unavailable | dataLoss
  | unauthenticated
  deriving DecidableEq, Repr

def ErrorCode.isPermanentWriteError : ErrorCode → Bool
  | cancelled | unknown | deadlineExceeded | resourceExhausted | internal | unavailable | unauthenticated => false
  | _ => true

/-! ## The write stream -/

/-- An open connection: whose token it carries, and the writes sent over it that
are not answered yet. -/
structure Connection (K σ : Type) where
  user : UserId
  writes : List (List (Mutation K σ)) := []

inductive StreamState (K σ : Type) where
  | initial
  | auth
  | open (connection : Connection K σ)
  | error
  | backoff

structure WriteStream (K σ : Type) where
  /-- Tells one stream object from another. -/
  number : Nat
  state : StreamState K σ := .initial
  /-- Keeps its value when the connection closes. -/
  handshakeComplete : Bool := false
  idleTimer : Bool := false
  /-- Whether there is a delegate to tell of what happens. -/
  delegate : Bool := false
  /-- Whether the callbacks of a connection go through a filter. -/
  callbackFilter : Bool := false

namespace WriteStream

def isStarted (stream : WriteStream K σ) : Bool :=
  match stream.state with
  | .backoff | .auth | .open _ => true
  | .initial | .error => false

def isAuth (stream : WriteStream K σ) : Bool :=
  match stream.state with
  | .auth => true
  | _ => false

/-- `start`, which backs off after an error. -/
def start (stream : WriteStream K σ) : Checked (WriteStream K σ) := do
  match stream.state with
  | .error => return { stream with state := .backoff, handshakeComplete := false }
  | .initial =>
    hardAssert (!stream.delegate) "Delegate must be nil"
    return { stream with state := .auth, handshakeComplete := false, delegate := true }
  | .auth | .open _ | .backoff => throw "Already started"

/-- The end of `resumeStartWithToken:`, before the delegate is told. -/
def openWithToken (stream : WriteStream K σ) (user : UserId) : Checked (WriteStream K σ) := do
  hardAssert (!stream.callbackFilter) "GRX Filter must be nil"
  return { stream with state := .open { user }, callbackFilter := true }

def writeMutations (stream : WriteStream K σ) (mutations : List (Mutation K σ)) : Checked (WriteStream K σ) := do
  match stream.state with
  | .open connection =>
    hardAssert stream.handshakeComplete "Mutations sent out of turn"
    return { stream with
      state := .open { connection with writes := connection.writes ++ [mutations] }
      idleTimer := false }
  | _ => throw "Not yet open"

def writeHandshake (stream : WriteStream K σ) : Checked (WriteStream K σ) := do
  match stream.state with
  | .open _ =>
    hardAssert (!stream.handshakeComplete) "Handshake sent out of turn"
    return { stream with idleTimer := false }
  | _ => throw "Not yet open"

def markIdle (stream : WriteStream K σ) : WriteStream K σ :=
  match stream.state with
  | .open _ => { stream with idleTimer := true }
  | _ => stream

/-- What is left of the stream once it is closed; the delegate is taken out before it
is told. -/
def closed (stream : WriteStream K σ) (finalState : StreamState K σ) : WriteStream K σ := { stream with
  state := finalState
  idleTimer := false
  delegate := false
  callbackFilter := false }

/-- `closeWithFinalState:error:` for `Error`. -/
def closeWithError (stream : WriteStream K σ) : WriteStream K σ := stream.closed .error

/-- `closeWithFinalState:error:` for the other final states tells the backend first. -/
def close (stream : WriteStream K σ) (finalState : StreamState K σ) : Checked (WriteStream K σ) := do
  if stream.handshakeComplete then
    let stream ← stream.writeMutations []
    return stream.closed finalState
  else return stream.closed finalState

def inhibitBackoff (stream : WriteStream K σ) : Checked (WriteStream K σ) := do
  hardAssert (!stream.isStarted) "Can only inhibit backoff after an error"
  return { stream with state := .initial }

end WriteStream

/-! ## Credentials -/

/-- A request for a token, with the count of user changes at the time and whose
token was fetched, once one was. -/
structure TokenRequest where
  stream : Nat
  initialTokenCounter : Nat
  fetched : Option UserId := none
  deriving DecidableEq, Repr

structure Credentials where
  currentUser : UserId := []
  tokenCounter : Nat := 0
  requests : List TokenRequest := []

def Credentials.getToken (credentials : Credentials) (stream : Nat) : Credentials := { credentials with
  requests := credentials.requests ++ [{ stream, initialTokenCounter := credentials.tokenCounter }] }

/-! ## Remote store and sync engine -/

structure Client (K σ C : Type) where
  localStore : LocalStore K σ := { mutationQueue := { userID := [] } }
  /-- `none` while the network is disabled. -/
  writeStream : Option (WriteStream K σ) := none
  writePipeline : List (MutationBatch K σ) := []
  currentUser : UserId := []
  completionBlocks : Collection (UserId × BatchId) C := ∅
  credentials : Credentials := {}
  /-- How many streams were created. -/
  streams : Nat := 0
  /-- The completion blocks that were called, with their errors. -/
  called : List (C × Option ErrorCode) := []
  /-- The event manager registers with the sync engine when the two are made. -/
  delegate : Bool := true

def kMaxPendingWrites : Nat := 10

namespace Client

def shouldStartWriteStream (c : Client K σ C) : Bool :=
  match c.writeStream with
  | some stream => !stream.isStarted && !c.writePipeline.isEmpty
  | none => false

def startWithDelegate (c : Client K σ C) (stream : WriteStream K σ) : Checked (Client K σ C) := do
  let stream ← stream.start
  return { c with
    writeStream := some stream
    credentials := if stream.isAuth then c.credentials.getToken stream.number else c.credentials }

def startWriteStream (c : Client K σ C) : Checked (Client K σ C) := do
  hardAssert c.shouldStartWriteStream "startWriteStream: called when shouldStartWriteStream: is false."
  match c.writeStream with
  | none => return c
  | some stream => c.startWithDelegate stream

def canAddToWritePipeline (c : Client K σ C) : Bool :=
  c.writeStream.isSome && c.writePipeline.length < kMaxPendingWrites

def addBatchToWritePipeline (c : Client K σ C) (batch : MutationBatch K σ) : Checked (Client K σ C) := do
  hardAssert c.canAddToWritePipeline "addBatchToWritePipeline called when mutations can't be written"
  let c := { c with writePipeline := c.writePipeline ++ [batch] }
  if c.shouldStartWriteStream then c.startWriteStream
  else
    match c.writeStream with
    | some stream =>
      if stream.handshakeComplete then
        let stream ← stream.writeMutations batch.mutations
        return { c with writeStream := some stream }
      else return c
    | none => return c

/-- The loop of `fillWritePipeline`; each turn adds a batch, so `n` turns are
enough when the pipeline has `n` free places. -/
def fill : Nat → BatchId → Client K σ C → Checked (Client K σ C)
  | 0, _, c => .ok c
  | n + 1, lastBatchIDRetrieved, c =>
    if c.canAddToWritePipeline then
      match c.localStore.nextMutationBatchAfterBatchID lastBatchIDRetrieved with
      | none =>
        .ok (if c.writePipeline.isEmpty then { c with writeStream := c.writeStream.map (·.markIdle) } else c)
      | some batch => do
        let c ← c.addBatchToWritePipeline batch
        fill n batch.batchID c
    else .ok c

def fillWritePipeline (c : Client K σ C) : Checked (Client K σ C) := do
  let lastBatchIDRetrieved := (c.writePipeline.getLast?.map (·.batchID)).getD batchIDUnknown
  let c ← fill (kMaxPendingWrites + 1) lastBatchIDRetrieved c
  if c.shouldStartWriteStream then c.startWriteStream else return c

def enableNetwork (c : Client K σ C) : Checked (Client K σ C) :=
  if c.writeStream.isSome then .ok c
  else fillWritePipeline { c with writeStream := some { number := c.streams }, streams := c.streams + 1 }

def disableNetwork (c : Client K σ C) : Checked (Client K σ C) := do
  match c.writeStream with
  | none => return c
  | some stream =>
    if stream.isStarted then
      let _ ← stream.close .initial
    return { c with writeStream := none, writePipeline := [] }

def processUserCallbacks (c : Client K σ C) (batchID : BatchId) (error : Option ErrorCode) : Client K σ C :=
  match c.completionBlocks.lookup (c.currentUser, batchID) with
  | some completion => { c with
      completionBlocks := c.completionBlocks.erase (c.currentUser, batchID)
      called := c.called ++ [(completion, error)] }
  | none => c

def assertDelegateExists (c : Client K σ C) : Checked Unit :=
  hardAssert c.delegate "Tried to call a method before delegate was registered."

variable [DecidableEq K] [DecidableEq σ]

/-- The time is the clock's when the write is made. -/
def writeMutations (c : Client K σ C) (mutations : List (Mutation K σ)) (completion : C) (localWriteTime : Timestamp) :
    Checked (Client K σ C) := do
  c.assertDelegateExists
  let (batch, localStore) ← c.localStore.locallyWriteMutations localWriteTime mutations
  fillWritePipeline { c with
    localStore
    completionBlocks := c.completionBlocks.insert (c.currentUser, batch.batchID) completion }

def applySuccessfulWrite (c : Client K σ C) (batchResult : BatchResult K σ) : Checked (Client K σ C) := do
  c.assertDelegateExists
  let c := c.processUserCallbacks batchResult.batch.batchID none
  let localStore ← c.localStore.acknowledgeBatchWithResult batchResult
  return { c with localStore }

def rejectFailedWrite (c : Client K σ C) (batchID : BatchId) (error : ErrorCode) : Checked (Client K σ C) := do
  c.assertDelegateExists
  let localStore ← c.localStore.rejectBatchID batchID
  return processUserCallbacks { c with localStore } batchID error

/-! ## What the stream tells -/

def writeStreamDidReceiveResponse (c : Client K σ C) (commitVersion : SnapshotVersion)
    (mutationResults : List (MutationResult σ)) : Checked (Client K σ C) := do
  match c.writePipeline with
  | [] => throw "index 0 beyond bounds for empty array"
  | batch :: writePipeline =>
    let batchResult ← BatchResult.resultWithBatch batch commitVersion mutationResults
    let c ← applySuccessfulWrite { c with writePipeline } batchResult
    c.fillWritePipeline

def handleWriteError (c : Client K σ C) (error : ErrorCode) : Checked (Client K σ C) := do
  if error.isPermanentWriteError then
    match c.writePipeline, c.writeStream with
    | batch :: writePipeline, some stream =>
      let stream ← stream.inhibitBackoff
      let c ← rejectFailedWrite { c with writePipeline, writeStream := some stream } batch.batchID error
      c.fillWritePipeline
    | _, _ => throw "index 0 beyond bounds for empty array"
  else return c

/-- An error before the handshake concerns the stream token only. -/
def invokeErrorCallbacks (c : Client K σ C) (stream : WriteStream K σ) : Option ErrorCode → Checked (Client K σ C)
  | some error => if !c.writePipeline.isEmpty && stream.handshakeComplete then c.handleWriteError error else .ok c
  | none => .ok c

def writeStreamWasInterrupted (c : Client K σ C) (error : Option ErrorCode) : Checked (Client K σ C) := do
  match c.writeStream with
  | none => throw "writeStreamDidClose: should only be called when the network is enabled"
  | some stream =>
    let c ← c.invokeErrorCallbacks stream error
    if c.shouldStartWriteStream then c.startWriteStream else return c

def handleStreamClose (c : Client K σ C) (error : Option ErrorCode) : Checked (Client K σ C) := do
  match c.writeStream with
  | none => return c
  | some stream =>
    hardAssert stream.isStarted "handleStreamClose: called for non-started stream."
    writeStreamWasInterrupted { c with writeStream := some stream.closeWithError } error

/-- `resumeStartWithToken:`; a stream that is no longer in use was stopped. -/
def resumeStartWithToken (c : Client K σ C) (number : Nat) (result : Except ErrorCode UserId) :
    Checked (Client K σ C) := do
  match c.writeStream with
  | none => return c
  | some stream =>
    if stream.number = number then
      match stream.state, result with
      | .auth, .error code => c.handleStreamClose (some code)
      | .auth, .ok user =>
        let opened ← stream.openWithToken user
        let stream ← opened.writeHandshake
        return { c with writeStream := some stream }
      | _, _ => throw "State should still be auth"
    else return c

def resumeStartFromBackoff (c : Client K σ C) : Checked (Client K σ C) := do
  match c.writeStream with
  | none => return c
  | some stream =>
    match stream.state with
    | .backoff =>
      let c ← c.startWithDelegate { stream with state := .initial }
      hardAssert (c.writeStream.any (·.isStarted)) "Stream should have started."
      return c
    | _ => throw "State should still be backoff"

/-- The first message of a connection completes the handshake. -/
def handleStreamMessage (c : Client K σ C) (commitVersion : SnapshotVersion)
    (mutationResults : List (MutationResult σ)) : Checked (Client K σ C) := do
  match c.writeStream with
  | none => return c
  | some stream =>
    match stream.state with
    | .open connection =>
      if stream.handshakeComplete then
        let stream := { stream with state := .open { connection with writes := connection.writes.tail } }
        writeStreamDidReceiveResponse { c with writeStream := some stream } commitVersion mutationResults
      else
        let stream ← c.writePipeline.foldlM (fun stream batch => stream.writeMutations batch.mutations)
          { stream with handshakeComplete := true }
        return { c with writeStream := some stream }
    | _ => throw "writeValue: called for stopped stream."

def handleIdleCloseTimer (c : Client K σ C) : Checked (Client K σ C) := do
  match c.writeStream with
  | none => return c
  | some stream =>
    match stream.state with
    | .open _ =>
      let stream ← stream.close .initial
      writeStreamWasInterrupted { c with writeStream := some stream } none
    | _ => return c

/-! ## Users and processes -/

/-- The streams are replaced, for a fresh token. -/
def credentialDidChange (c : Client K σ C) : Checked (Client K σ C) := do
  if c.writeStream.isSome then
    let c ← c.disableNetwork
    c.enableNetwork
  else return c

def credentialDidChangeWithUser (c : Client K σ C) (user : UserId) : Checked (Client K σ C) := do
  if c.currentUser ≠ user then
    let localStore ← c.localStore.userDidChange user
    credentialDidChange { c with currentUser := user, localStore }
  else c.credentialDidChange

/-- The process ended and a new one starts. -/
def restart (c : Client K σ C) (user : UserId) : Checked (Client K σ C) := do
  let localStore ← c.localStore.restart user
  let started : Client K σ C :=
    { localStore, currentUser := user, credentials := { currentUser := user }, called := c.called }
  started.enableNetwork

end Client

/-! ## Tasks of the queue -/

inductive Task (K σ C : Type) where
  | writeMutations (mutations : List (Mutation K σ)) (completion : C) (localWriteTime : Timestamp)
  | enableNetwork
  | disableNetwork
  | credentialDidChange (user : UserId)
  | resumeStartWithToken (number : Nat) (result : Except ErrorCode UserId)
  | resumeStartFromBackoff
  | handleStreamMessage (commitVersion : SnapshotVersion) (mutationResults : List (MutationResult σ))
  | handleStreamClose (error : Option ErrorCode)
  | handleIdleCloseTimer
  | allocateQuery (targetID : TargetId)
  | releaseQuery (targetID : TargetId)
  | applyRemoteEvent (remoteEvent : RemoteEvent K σ)

def Client.perform [DecidableEq K] [DecidableEq σ] (c : Client K σ C) : Task K σ C → Checked (Client K σ C)
  | .writeMutations mutations completion localWriteTime => c.writeMutations mutations completion localWriteTime
  | .enableNetwork => c.enableNetwork
  | .disableNetwork => c.disableNetwork
  | .credentialDidChange user => c.credentialDidChangeWithUser user
  | .resumeStartWithToken number result => c.resumeStartWithToken number result
  | .resumeStartFromBackoff => c.resumeStartFromBackoff
  | .handleStreamMessage commitVersion mutationResults => c.handleStreamMessage commitVersion mutationResults
  | .handleStreamClose error => c.handleStreamClose error
  | .handleIdleCloseTimer => c.handleIdleCloseTimer
  | .allocateQuery targetID => do
    c.assertDelegateExists
    let localStore ← c.localStore.allocateQuery targetID
    return { c with localStore }
  | .releaseQuery targetID => do
    c.assertDelegateExists
    let localStore ← c.localStore.releaseQuery targetID
    return { c with localStore }
  | .applyRemoteEvent remoteEvent => do
    c.assertDelegateExists
    let localStore ← c.localStore.applyRemoteEvent remoteEvent
    return { c with localStore }

end ShoppingList.Firestore
