import ShoppingList.Firestore.Handlers

/-!
# The worker queue

The app, the sign-in library and the streams run beside the client. What they
want of it they put on the worker queue, whose tasks run one after another. The
sign-in library itself reports over the main queue: a change of the user when it
happens, a token when it was fetched, perhaps long after it was asked for.

So a token can arrive for a user who has left, or for a stream that was replaced.
-/

namespace ShoppingList.Firestore

variable {K σ C : Type}

instance (m : Mutation K σ) (result : MutationResult σ) : Decidable (m.Fits result) :=
  match m, result with
  | .transform _ ts, ⟨_, some results⟩ =>
    decidable_of_iff (ts.length = results.length) ⟨fun h => ⟨results, rfl, h⟩, fun ⟨_, h, hl⟩ => Option.some.inj h ▸ hl⟩
  | .transform _ _, ⟨_, none⟩ => .isFalse fun ⟨_, h, _⟩ => nomatch h
  | .set .., ⟨_, results⟩ | .patch .., ⟨_, results⟩ | .delete .., ⟨_, results⟩ =>
    decidable_of_iff (results.isNone = true) Option.isNone_iff_eq_none

/-- The backend answers the first of the writes it was sent. -/
def Connection.Answers (connection : Connection K σ) (results : List (MutationResult σ)) : Prop :=
  match connection.writes with
  | mutations :: _ => List.Forall₂ Mutation.Fits mutations results
  | [] => False

instance (connection : Connection K σ) (results : List (MutationResult σ)) : Decidable (connection.Answers results) :=
  match connection with
  | ⟨_, mutations :: _⟩ => inferInstanceAs (Decidable (List.Forall₂ Mutation.Fits mutations results))
  | ⟨_, []⟩ => inferInstanceAs (Decidable False)

namespace WriteStream

def isOpen (stream : WriteStream K σ) : Bool :=
  match stream.state with
  | .open _ => true
  | _ => false

def isBackingOff (stream : WriteStream K σ) : Bool :=
  match stream.state with
  | .backoff => true
  | _ => false

def Answers (stream : WriteStream K σ) (results : List (MutationResult σ)) : Prop :=
  match stream.state with
  | .open connection => stream.handshakeComplete = true → connection.Answers results
  | .initial | .auth | .error | .backoff => True

instance (stream : WriteStream K σ) (results : List (MutationResult σ)) : Decidable (stream.Answers results) :=
  match stream with
  | { state := .open connection, handshakeComplete, .. } =>
    inferInstanceAs (Decidable (handshakeComplete = true → connection.Answers results))
  | { state := .initial, .. } | { state := .auth, .. } | { state := .error, .. } | { state := .backoff, .. } =>
    .isTrue trivial

end WriteStream

/-- What waits on the main queue. -/
inductive Post where
  | authStateDidChange (user : UserId)
  | getTokenCallback (request : TokenRequest) (result : Except ErrorCode UserId)

structure Worker (K σ C : Type) where
  client : Client K σ C := {}
  /-- What waits on the worker queue. -/
  tasks : List (Task K σ C) := []
  /-- Whom the sign-in library has signed in. -/
  authUser : UserId := []
  posts : List Post := []
  running : Bool := true

/-- What the app may ask for at any time. -/
def Task.isRequest : Task K σ C → Bool
  | .writeMutations .. | .enableNetwork | .disableNetwork | .allocateQuery _ | .releaseQuery _ => true
  | _ => false

/-- Streams speak while they are open, timers while they are set, and snapshots
that are older than the last one are not raised. -/
def Client.canHappen (c : Client K σ C) : Task K σ C → Bool
  | .resumeStartFromBackoff => c.writeStream.any (·.isBackingOff)
  | .handleStreamMessage .. | .handleStreamClose _ => c.writeStream.any (·.isOpen)
  | .handleIdleCloseTimer => c.writeStream.any (·.idleTimer)
  | .applyRemoteEvent remoteEvent =>
    remoteEvent.snapshotVersion = 0 || c.localStore.lastRemoteSnapshotVersion ≤ remoteEvent.snapshotVersion
  | _ => false

/-- The backend answers as it should, and queries are listened to once. -/
def Client.Expects (c : Client K σ C) : Task K σ C → Prop
  | .handleStreamMessage _ results => ∀ stream ∈ c.writeStream, stream.Answers results
  | .allocateQuery targetID => targetID ∉ c.localStore.targetIDs
  | .releaseQuery targetID => targetID ∈ c.localStore.targetIDs
  | _ => True

instance (c : Client K σ C) : DecidablePred c.Expects
  | .handleStreamMessage _ results => inferInstanceAs (Decidable (∀ stream ∈ c.writeStream, stream.Answers results))
  | .allocateQuery targetID => inferInstanceAs (Decidable (targetID ∉ c.localStore.targetIDs))
  | .releaseQuery targetID => inferInstanceAs (Decidable (targetID ∈ c.localStore.targetIDs))
  | .writeMutations .. | .enableNetwork | .disableNetwork | .credentialDidChange _ | .resumeStartWithToken ..
  | .resumeStartFromBackoff | .handleStreamClose _ | .handleIdleCloseTimer | .applyRemoteEvent _ => .isTrue trivial

/-- The step of the outbox that a task is. -/
def Client.op (c : Client K σ C) : Task K σ C → Option (Outbox.Op UserId (List (Mutation K σ)) C ErrorCode)
  | .writeMutations mutations completion _ => some (.add mutations completion)
  | .credentialDidChange user => some (.switch user)
  | .handleStreamMessage .. => if c.writeStream.any (·.handshakeComplete) then some (.settle none) else none
  | .handleStreamClose error =>
    c.writeStream.bind fun stream => if c.settles stream error then some (.settle error) else none
  | _ => none

/-- What waits on the worker queue. -/
def Task.isQueued : Task K σ C → Bool
  | .credentialDidChange _ | .resumeStartWithToken .. => true
  | task => task.isRequest

inductive WorkerEvent (K σ C : Type) where
  | submitted (task : Task K σ C)
  | ran
  | happened (task : Task K σ C)
  | signedIn (user : UserId)
  | fetching (i : Nat)
  | fetched (i : Nat) (error : Option ErrorCode)
  | posted
  | restarted

namespace Worker

/-- A failed assertion ends the process. -/
def after (w : Worker K σ C) : Checked (Client K σ C) → Worker K σ C
  | .ok client => { w with client }
  | .error _ => { w with running := false }

def setRequests (w : Worker K σ C) (requests : List TokenRequest) : Worker K σ C :=
  { w with client := { w.client with credentials := { w.client.credentials with requests } } }

/-- A token is good only if the user has not changed since it was asked for. -/
def post (w : Worker K σ C) : Post → Worker K σ C
  | .authStateDidChange user => { w with
      client := { w.client with credentials := { w.client.credentials with
        currentUser := user
        tokenCounter := w.client.credentials.tokenCounter + 1 } }
      tasks := w.tasks ++ [.credentialDidChange user] }
  | .getTokenCallback request result => { w with
      tasks := w.tasks ++ [.resumeStartWithToken request.stream
        (if request.initialTokenCounter = w.client.credentials.tokenCounter then result else .error .aborted)] }

variable [DecidableEq K] [DecidableEq σ]

def act (w : Worker K σ C) : WorkerEvent K σ C → Option (Worker K σ C)
  | .submitted task => if task.isRequest then some { w with tasks := w.tasks ++ [task] } else none
  | .ran =>
    match w.tasks with
    | [] => none
    | task :: tasks => some (after { w with tasks } (w.client.perform task))
  | .happened task => if w.client.canHappen task then some (w.after (w.client.perform task)) else none
  | .signedIn user => some { w with authUser := user, posts := w.posts ++ [.authStateDidChange user] }
  | .fetching i =>
    match w.client.credentials.requests[i]? with
    | some request =>
      if request.fetched.isSome then none
      else some (w.setRequests (w.client.credentials.requests.set i { request with fetched := some w.authUser }))
    | none => none
  | .fetched i error =>
    match w.client.credentials.requests[i]? with
    | some request =>
      match request.fetched with
      | some owner => some { w.setRequests (w.client.credentials.requests.eraseIdx i) with
          posts := w.posts ++ [.getTokenCallback request (error.elim (.ok owner) .error)] }
      | none => none
    | none => none
  | .posted =>
    match w.posts with
    | [] => none
    | p :: posts => some (post { w with posts } p)
  | .restarted => some (after { w with tasks := [], posts := [], running := true } (w.client.restart w.authUser))

/-- A process that has ended can only be started again. -/
def step (w : Worker K σ C) : WorkerEvent K σ C → Option (Worker K σ C)
  | .restarted => w.act .restarted
  | e => if w.running then w.act e else none

/-- What each event does, with what lets it happen. -/
inductive Acts (w : Worker K σ C) : WorkerEvent K σ C → Worker K σ C → Prop where
  | submitted {task : Task K σ C} (ht : task.isRequest = true) :
    Acts w (.submitted task) { w with tasks := w.tasks ++ [task] }
  | ran {task : Task K σ C} {tasks : List (Task K σ C)} (htasks : w.tasks = task :: tasks) :
    Acts w .ran (after { w with tasks } (w.client.perform task))
  | happened {task : Task K σ C} (hc : w.client.canHappen task = true) :
    Acts w (.happened task) (w.after (w.client.perform task))
  | signedIn {user : UserId} :
    Acts w (.signedIn user) { w with authUser := user, posts := w.posts ++ [.authStateDidChange user] }
  | fetching {i : Nat} {request : TokenRequest} (hi : w.client.credentials.requests[i]? = some request) :
    Acts w (.fetching i)
      (w.setRequests (w.client.credentials.requests.set i { request with fetched := some w.authUser }))
  | fetched {i : Nat} {request : TokenRequest} {owner : UserId} {error : Option ErrorCode}
    (hi : w.client.credentials.requests[i]? = some request) (howner : request.fetched = some owner) :
    Acts w (.fetched i error) { w.setRequests (w.client.credentials.requests.eraseIdx i) with
      posts := w.posts ++ [.getTokenCallback request (error.elim (.ok owner) .error)] }
  | posted {p : Post} {posts : List Post} (hposts : w.posts = p :: posts) : Acts w .posted (post { w with posts } p)
  | restarted : Acts w .restarted
    (after { w with tasks := [], posts := [], running := true } (w.client.restart w.authUser))

theorem act_acts {w w' : Worker K σ C} {e : WorkerEvent K σ C} (h : w.act e = some w') : w.Acts e w' := by
  unfold act at h
  cases e with
  | submitted task =>
    dsimp only at h
    split at h
    · rename_i ht
      cases h
      exact .submitted ht
    · cases h
  | ran =>
    dsimp only at h
    split at h
    · cases h
    · rename_i task tasks htasks
      cases h
      exact .ran htasks
  | happened task =>
    dsimp only at h
    split at h
    · rename_i hc
      cases h
      exact .happened hc
    · cases h
  | signedIn user =>
    cases h
    exact .signedIn
  | fetching i =>
    dsimp only at h
    split at h
    · rename_i request hi
      split at h
      · cases h
      · cases h
        exact .fetching hi
    · cases h
  | fetched i error =>
    dsimp only at h
    split at h
    · rename_i request hi
      split at h
      · rename_i owner howner
        cases h
        exact .fetched hi howner
      · cases h
    · cases h
  | posted =>
    dsimp only at h
    split at h
    · cases h
    · rename_i p posts hposts
      cases h
      exact .posted hposts
  | restarted =>
    cases h
    exact .restarted

theorem step_acts {w w' : Worker K σ C} {e : WorkerEvent K σ C} (h : w.step e = some w') : w.Acts e w' := by
  apply act_acts
  cases e with
  | restarted => exact h
  | _ =>
    unfold step at h
    dsimp only at h
    split at h
    · exact h
    · cases h

/-- The step of the outbox that an event is. -/
def op (w : Worker K σ C) : WorkerEvent K σ C → Option (Outbox.Op UserId (List (Mutation K σ)) C ErrorCode)
  | .ran => w.tasks.head?.bind w.client.op
  | .happened task => w.client.op task
  | .restarted => some (.restart w.authUser)
  | _ => none

def Orderly (w : Worker K σ C) : WorkerEvent K σ C → Prop
  | .happened task => w.client.Expects task
  | .ran => ∀ task ∈ w.tasks.head?, w.client.Expects task
  | _ => True

instance (w : Worker K σ C) : DecidablePred w.Orderly
  | .happened task => inferInstanceAs (Decidable (w.client.Expects task))
  | .ran => inferInstanceAs (Decidable (∀ task ∈ w.tasks.head?, w.client.Expects task))
  | .submitted _ | .signedIn _ | .fetching _ | .fetched .. | .posted | .restarted => .isTrue trivial

end Worker

end ShoppingList.Firestore
