import ShoppingList.Firestore.Pipeline
import ShoppingList.Lib.Outbox

/-!
# What the handlers do

Seen from outside, the client is an outbox: a write joins the queue of the
signed-in user, an answer settles the first write there, and nothing else
touches the queues. Each handler is one step of the outbox or none, keeps the
client valid, and never fails.
-/

namespace ShoppingList.Firestore

variable {K σ C : Type}

namespace Client

/-- The batches of `user` whose outcome is open. -/
def waiting (c : Client K σ C) (user : UserId) : List (MutationBatch K σ) :=
  (c.localStore.mutationQueue.db.tables user).unacknowledged

def outbox (c : Client K σ C) : Outbox UserId (List (Mutation K σ)) C ErrorCode where
  user := c.currentUser
  waiting := fun user =>
    (c.waiting user).map fun batch => (batch.mutations, c.completionBlocks.lookup (user, batch.batchID))
  called := c.called

section
variable {c c' : Client K σ C}

theorem Tends.outbox (h : Tends c c') : c'.outbox = c.outbox := by
  rw [h.only]
  rfl

theorem Ready.waiting (h : c.Ready) : c.waiting c.currentUser = c.localStore.pending := by
  unfold Client.waiting
  rw [← h.user]
  exact h.store.split.unacknowledged

theorem waiting_other (hs : c.localStore.SameUser c'.localStore) {user : UserId}
    (hu : user ≠ c.localStore.mutationQueue.userID) : c'.waiting user = c.waiting user := by
  unfold Client.waiting
  rw [hs.others user hu]

/-- The ids of the batches that wait are distinct. -/
theorem Ready.pairwise (h : c.Ready) : c.localStore.pending.Pairwise fun b b' => b.batchID < b'.batchID := by
  have hsorted := h.store.split.consistent.sorted
  rw [h.store.split.rows] at hsorted
  exact (List.pairwise_append.mp hsorted).2.1

theorem valid_empty : Valid ({} : Client K σ C) :=
  ⟨⟨LocalStore.valid_empty, rfl, rfl, List.nil_prefix, Nat.zero_le _, fun _ => rfl, (fun s hm => by cases hm)⟩,
    (fun hs => by cases hs), rfl⟩

/-! ## The local store -/

/-- A store with the same pending batches. -/
theorem Valid.with_store (h : c.Valid) {s : LocalStore K σ} (hv : s.Valid) (hp : s.pending = c.localStore.pending)
    (hs : c.localStore.SameUser s) :
    Valid { c with localStore := s } ∧ Attends c { c with localStore := s } ∧
      outbox { c with localStore := s } = c.outbox := by
  have hready : Ready { c with localStore := s } :=
    ⟨hv, hs.userID.trans h.user, h.delegate, hp ▸ h.pipeline, h.bound, h.offline, h.coherent⟩
  refine ⟨⟨hready, fun hsome => hp ▸ h.full hsome, h.served⟩, ⟨rfl, fun _ hu => hu, .nothing rfl rfl, rfl, rfl⟩, ?_⟩
  apply Outbox.ext
  · rfl
  · intro user
    have hwaiting : waiting { c with localStore := s } user = c.waiting user := by
      by_cases hu : user = c.currentUser
      · subst hu
        exact hready.waiting.trans (hp.trans h.waiting.symm)
      · exact waiting_other hs (h.user ▸ hu)
    show (waiting { c with localStore := s } user).map _ = _
    rw [hwaiting]
    rfl
  · rfl

/-! ## The first batch -/

theorem processUserCallbacks_eq (c : Client K σ C) (batchID : BatchId) (error : Option ErrorCode) :
    ∃ blocks, c.processUserCallbacks batchID error = { c with
        completionBlocks := blocks
        called := c.called ++ ((c.completionBlocks.lookup (c.currentUser, batchID)).map (·, error)).toList } ∧
      ∀ key ≠ (c.currentUser, batchID), blocks.lookup key = c.completionBlocks.lookup key := by
  unfold processUserCallbacks
  cases c.completionBlocks.lookup (c.currentUser, batchID) with
  | none =>
    refine ⟨c.completionBlocks, ?_, fun _ _ => rfl⟩
    show c = { c with called := c.called ++ [] }
    rw [List.append_nil]
  | some completion => exact ⟨_, rfl, fun key hkey => AList.lookup_erase_ne hkey⟩

/-- `c₁` is `c` after the outcome of the first batch is known. -/
structure Answered (c c₁ : Client K σ C) (batch : MutationBatch K σ) (rest : List (MutationBatch K σ))
    (error : Option ErrorCode) : Prop where
  pending : c.localStore.pending = batch :: rest
  user : c₁.currentUser = c.currentUser
  delegate : c₁.delegate = c.delegate
  left : c₁.localStore.pending = rest
  same : c.localStore.SameUser c₁.localStore
  blocks : ∀ key ≠ (c.currentUser, batch.batchID), c₁.completionBlocks.lookup key = c.completionBlocks.lookup key
  called : c₁.called = c.called ++ ((c.completionBlocks.lookup (c.currentUser, batch.batchID)).map (·, error)).toList

variable {c₁ : Client K σ C} {batch : MutationBatch K σ} {pipeline rest : List (MutationBatch K σ)}
  {error : Option ErrorCode}

theorem Answered.outbox (ha : Answered c c₁ batch rest error) (h : c.Ready) (h₁ : c₁.Ready) :
    c.outbox.step (.settle error) = some c₁.outbox := by
  have hwaiting : c.waiting c.currentUser = batch :: rest := h.waiting.trans ha.pending
  have hentries : c.outbox.waiting c.outbox.user = (batch.mutations, c.completionBlocks.lookup (c.currentUser, batch.batchID)) ::
      rest.map fun b => (b.mutations, c.completionBlocks.lookup (c.currentUser, b.batchID)) := by
    show (c.waiting c.currentUser).map _ = _
    rw [hwaiting]
    rfl
  have hgt : ∀ b ∈ rest, batch.batchID < b.batchID := by
    have hpairwise := h.pairwise
    rw [ha.pending] at hpairwise
    exact fun b hb => List.rel_of_pairwise_cons hpairwise hb
  rw [Outbox.step_settle hentries]
  congr 1
  apply Outbox.ext
  · exact ha.user.symm
  · intro user
    show (c.outbox.put _).waiting user =
      (c₁.waiting user).map fun b => (b.mutations, c₁.completionBlocks.lookup (user, b.batchID))
    by_cases hu : user = c.currentUser
    · subst hu
      have hwaiting₁ : c₁.waiting c.currentUser = rest := by
        rw [← ha.user, h₁.waiting]
        exact ha.left
      rw [show c.currentUser = c.outbox.user from rfl, Outbox.put_waiting_self]
      show _ = (c₁.waiting c.currentUser).map _
      rw [hwaiting₁]
      refine List.map_congr_left fun b hb => ?_
      have hne : (c.currentUser, b.batchID) ≠ (c.currentUser, batch.batchID) := by
        intro he
        exact absurd (Prod.mk.inj he).2 (Int.ne_of_gt (hgt b hb))
      exact congrArg (b.mutations, ·) (ha.blocks _ hne).symm
    · rw [Outbox.put_waiting_ne hu, waiting_other ha.same (h.user ▸ hu)]
      show (c.waiting user).map _ = _
      refine List.map_congr_left fun b _ => ?_
      rw [ha.blocks _ fun he => hu (Prod.mk.inj he).1]
  · exact ha.called.symm

/-- The store and the stream after the first batch has left the pipeline. -/
theorem Ready.answered (h : c.Ready) (hp : c.writePipeline = batch :: pipeline)
    (ha : Answered c c₁ batch rest error) (hs : c₁.localStore.Valid) (hp₁ : c₁.writePipeline = pipeline)
    (hsome : c₁.writeStream.isSome = true) (hcoherent : ∀ stream ∈ c₁.writeStream, stream.Coherent pipeline) :
    c₁.Ready := by
  refine ⟨hs, ?_, ha.delegate.trans h.delegate, ?_, ?_, fun hnone => ?_, hp₁ ▸ hcoherent⟩
  · rw [ha.same.userID, ha.user, h.user]
  · obtain ⟨more, hmore⟩ := h.pipeline
    rw [hp, ha.pending, List.cons_append, List.cons.injEq] at hmore
    exact ⟨more, by rw [hp₁, ha.left, hmore.2]⟩
  · have hbound := h.bound
    rw [hp, List.length_cons] at hbound
    exact hp₁ ▸ Nat.le_of_succ_le hbound
  · rw [hnone] at hsome
    cases hsome

/-! ## Streams that start and stop -/

/-- A connection is closed. -/
theorem attends_closed {stream stream' : WriteStream K σ} (hstream : c.writeStream = some stream)
    (hauth : stream.isAuth = false) (hnumber : stream'.number = stream.number) (huser : stream'.user = none)
    (hauth' : stream'.isAuth = false) : Attends c { c with writeStream := some stream' } := by
  refine ⟨?_, fun u hu => ?_, .nothing rfl ?_, rfl, rfl⟩
  · rw [hstream, Option.map_some, Option.map_some, hnumber]
  · cases huser.symm.trans hu
  · rw [isAuth, isAuth, hstream, Option.any_some, Option.any_some, hauth, hauth']

/-- The stream stops, with a final state to start again from. -/
theorem Ready.stopped (h : c.Ready) {stream : WriteStream K σ} (hnot : stream.isStarted = false)
    (hidle : stream.idleTimer = false ∧ stream.delegate = false ∧ stream.callbackFilter = false) :
    Ready { c with writeStream := some stream } := by
  refine ⟨h.store, h.user, h.delegate, h.pipeline, h.bound, (fun hn => by cases hn), fun s hm => ?_⟩
  obtain rfl : stream = s := Option.some.inj hm
  unfold WriteStream.isStarted at hnot
  unfold WriteStream.Coherent
  cases hstate : stream.state with
  | initial | error => exact hidle
  | auth | «open» | backoff =>
    rw [hstate] at hnot
    cases hnot

theorem Valid.resumeStartFromBackoff (h : c.Valid) {stream : WriteStream K σ} (hstream : c.writeStream = some stream)
    (hstate : stream.state = .backoff) : ∃ c', c.resumeStartFromBackoff = .ok c' ∧ c'.Valid ∧ Attends c c' ∧
      c'.outbox = c.outbox := by
  have hcoherent := h.coherent stream hstream
  unfold WriteStream.Coherent at hcoherent
  rw [hstate] at hcoherent
  obtain ⟨-, hidle, hne, hcleared⟩ := hcoherent
  obtain ⟨stream', hstream'⟩ : ∃ stream' : WriteStream K σ, stream' = { stream with state := .initial } := ⟨_, rfl⟩
  have hready : Ready { c with writeStream := some stream' } :=
    h.toReady.stopped (by rw [hstream']; rfl) (by rw [hstream']; exact ⟨hidle, hcleared⟩)
  have hclosed : Attends c { c with writeStream := some stream' } :=
    attends_closed hstream (by rw [WriteStream.isAuth, hstate]) (by rw [hstream']) (by rw [hstream']; rfl)
      (by rw [hstream']; rfl)
  obtain ⟨c', hrun, hready', htends, hp, hstarted⟩ :=
    startWithDelegate_eq hready rfl (by rw [hstream']; rfl) hne
  have hstore : c'.localStore = c.localStore := by rw [htends.only]
  refine ⟨c', ?_, ⟨hready', fun _ => ?_, shouldStart_of_started hstarted⟩, hclosed.trans htends.toAttends, htends.outbox⟩
  · unfold Client.resumeStartFromBackoff
    rw [hstream]
    dsimp only
    rw [hstate]
    dsimp only
    rw [← hstream']
    have hrun' : c.startWithDelegate stream' = .ok c' := hrun
    rw [hrun']
    show (do hardAssert (c'.writeStream.any WriteStream.isStarted) _; return c') = _
    rw [hardAssert_ok hstarted]
    rfl
  · rw [hp, hstore]
    exact h.full (by rw [hstream]; rfl)

/-- There is a new stream, or none. -/
structure Replaces (c c' : Client K σ C) : Prop where
  number : ∀ stream ∈ c'.writeStream, stream.number = c.streams
  user : c'.writeStream.bind (·.user) = none
  streams : c'.streams = c.streams + c'.writeStream.toList.length
  credentials : c'.credentials = if c'.isAuth then c.credentials.getToken c.streams else c.credentials

theorem disableNetwork_eq (hcoherent : ∀ stream ∈ c.writeStream, stream.Coherent c.writePipeline)
    (hoffline : c.writeStream = none → c.writePipeline = []) :
    c.disableNetwork = .ok { c with writeStream := none, writePipeline := [] } := by
  unfold disableNetwork
  cases hstream : c.writeStream with
  | none =>
    show Except.ok c = Except.ok { c with writeStream := none, writePipeline := [] }
    rw [← hstream, ← hoffline hstream]
  | some stream =>
    dsimp only
    by_cases hstarted : stream.isStarted = true
    · rw [if_pos hstarted, (hcoherent stream hstream).close hstarted]
      rfl
    · rw [if_neg hstarted]
      rfl

theorem Ready.enableNetwork (h : c.Ready) (hnone : c.writeStream = none) :
    ∃ c', c.enableNetwork = .ok c' ∧ c'.Valid ∧ c'.outbox = c.outbox ∧ Replaces c c' ∧
      c'.currentUser = c.currentUser := by
  obtain ⟨c₀, hc₀⟩ : ∃ c₀, c₀ = { c with
      writeStream := some { number := c.streams }
      streams := c.streams + 1 } := ⟨_, rfl⟩
  have hready : c₀.Ready := by
    rw [hc₀]
    exact ⟨h.store, h.user, h.delegate, h.pipeline, h.bound, (fun hn => by cases hn), fun s hm => by cases hm; exact ⟨rfl, rfl, rfl⟩⟩
  obtain ⟨c', hrun, hvalid, htends⟩ := fillWritePipeline_eq hready
  have hnumber : c'.writeStream.map (·.number) = some c.streams := by
    rw [htends.number, hc₀]
    rfl
  refine ⟨c', ?_, hvalid, ?_, ⟨fun stream hm => ?_, ?_, ?_, ?_⟩, ?_⟩
  · unfold Client.enableNetwork
    rw [hnone, if_neg (by exact Bool.false_ne_true), ← hc₀]
    exact hrun
  · rw [htends.outbox, hc₀]
    rfl
  · rw [Option.mem_def.mp hm] at hnumber
    exact Option.some.inj hnumber
  · cases huser : c'.writeStream.bind (·.user) with
    | none => rfl
    | some u =>
      have hold := htends.user u huser
      rw [hc₀] at hold
      cases hold
  · cases hstream : c'.writeStream with
    | none =>
      rw [hstream] at hnumber
      cases hnumber
    | some stream =>
      rw [htends.streams, hc₀]
      rfl
  · cases htends.asked with
    | nothing hr ha =>
      rw [ha, hr, hc₀]
      rfl
    | token n hf ht hn hr =>
      rw [ht, if_pos rfl, hr, hc₀]
      rw [hc₀] at hn
      cases hn
      rfl
  · rw [htends.currentUser, hc₀]

theorem Valid.disableNetwork (h : c.Valid) : ∃ c', c.disableNetwork = .ok c' ∧ c'.Valid ∧ c'.outbox = c.outbox ∧
    Replaces c c' ∧ c'.currentUser = c.currentUser := by
  refine ⟨_, disableNetwork_eq h.coherent h.offline, ⟨⟨h.store, h.user, h.delegate, List.nil_prefix, Nat.zero_le _, fun _ => rfl,
    (fun s hm => by cases hm)⟩, (fun hs => by cases hs), rfl⟩, rfl, ⟨(fun s hm => by cases hm), rfl, rfl, rfl⟩, rfl⟩

/-- The token has arrived, and `owner` is whose it is. -/
structure Resumes (c c₁ : Client K σ C) (owner : Option UserId) : Prop where
  number : c₁.writeStream.map (·.number) = c.writeStream.map (·.number)
  auth : c₁.isAuth = false
  credentials : c₁.credentials = c.credentials
  user : ∀ u, c₁.writeStream.bind (·.user) = some u → owner = some u
  currentUser : c₁.currentUser = c.currentUser
  streams : c₁.streams = c.streams

end

section
variable [DecidableEq K] [DecidableEq σ] {c : Client K σ C}

theorem Valid.allocateQuery {targetID : TargetId} (h : c.Valid) (ht : targetID ∉ c.localStore.targetIDs) :
    ∃ c', c.perform (.allocateQuery targetID) = .ok c' ∧ c'.Valid ∧ Attends c c' ∧ c'.outbox = c.outbox := by
  obtain ⟨s, hrun, hv, hp, hreleased⟩ := h.store.allocateQuery ht
  refine ⟨{ c with localStore := s }, ?_, h.with_store hv hp hreleased.same⟩
  unfold perform
  dsimp only
  rw [h.assertDelegateExists, hrun]
  rfl

theorem Valid.releaseQuery {targetID : TargetId} (h : c.Valid) (ht : targetID ∈ c.localStore.targetIDs) :
    ∃ c', c.perform (.releaseQuery targetID) = .ok c' ∧ c'.Valid ∧ Attends c c' ∧ c'.outbox = c.outbox := by
  obtain ⟨s, hrun, hv, hp, hreleased⟩ := h.store.releaseQuery ht
  refine ⟨{ c with localStore := s }, ?_, h.with_store hv hp hreleased.same⟩
  unfold perform
  dsimp only
  rw [h.assertDelegateExists, hrun]
  rfl

theorem Valid.applyRemoteEvent {remoteEvent : RemoteEvent K σ} (h : c.Valid)
    (hv : remoteEvent.snapshotVersion = 0 ∨ c.localStore.lastRemoteSnapshotVersion ≤ remoteEvent.snapshotVersion) :
    ∃ c', c.perform (.applyRemoteEvent remoteEvent) = .ok c' ∧ c'.Valid ∧ Attends c c' ∧ c'.outbox = c.outbox := by
  obtain ⟨s, docs, hrun, hvalid, hp, -, hreleased⟩ := h.store.applyRemoteEvent hv
  refine ⟨{ c with localStore := s }, ?_, h.with_store hvalid hp ⟨hreleased.same.userID, hreleased.same.others⟩⟩
  unfold perform
  dsimp only
  rw [h.assertDelegateExists, hrun]
  rfl

/-! ## Writes and answers -/

theorem Valid.writeMutations (h : c.Valid) (mutations : List (Mutation K σ)) (completion : C) (localWriteTime : Timestamp) :
    ∃ c', c.writeMutations mutations completion localWriteTime = .ok c' ∧ c'.Valid ∧ Attends c c' ∧
      c.outbox.step (.add mutations completion) = some c'.outbox := by
  obtain ⟨batch, s, hwrite, hid, hmutations, hv, hp, hreleased⟩ := h.store.locallyWriteMutations localWriteTime mutations
  obtain ⟨c₁, hc₁⟩ : ∃ c₁, c₁ = { c with
      localStore := s
      completionBlocks := c.completionBlocks.insert (c.currentUser, batch.batchID) completion } := ⟨_, rfl⟩
  have hready : c₁.Ready := by
    rw [hc₁]
    refine ⟨hv, hreleased.same.userID.trans h.user, h.delegate, ?_, h.bound, h.offline, h.coherent⟩
    show c.writePipeline <+: s.pending
    rw [hp]
    exact h.pipeline.trans (List.prefix_append _ _)
  obtain ⟨c', hrun, hvalid, htends⟩ := fillWritePipeline_eq hready
  have hattends : Attends c c₁ := by
    rw [hc₁]
    exact ⟨rfl, fun _ hu => hu, .nothing rfl rfl, rfl, rfl⟩
  refine ⟨c', ?_, hvalid, hattends.trans htends.toAttends, ?_⟩
  · unfold Client.writeMutations
    rw [h.assertDelegateExists, hwrite]
    rw [hc₁] at hrun
    exact hrun
  · rw [htends.outbox]
    show some (c.outbox.put _) = _
    congr 1
    have hlt : ∀ b ∈ c.localStore.pending, b.batchID < batch.batchID := by
      intro b hb
      rw [hid]
      apply h.store.next
      rw [h.store.rows]
      exact List.mem_append_right _ hb
    have huser : c₁.currentUser = c.currentUser := by rw [hc₁]
    have hblocks : c₁.completionBlocks = c.completionBlocks.insert (c.currentUser, batch.batchID) completion := by
      rw [hc₁]
    apply Outbox.ext
    · exact huser.symm
    · intro user
      show _ = (c₁.waiting user).map fun b => (b.mutations, c₁.completionBlocks.lookup (user, b.batchID))
      rw [hblocks]
      by_cases hu : user = c.currentUser
      · subst hu
        have hwaiting : c₁.waiting c.currentUser = c.localStore.pending ++ [batch] := by
          rw [← huser, hready.waiting, hc₁]
          exact hp
        have hold : ∀ b ∈ c.localStore.pending,
            (c.completionBlocks.insert (c.currentUser, batch.batchID) completion).lookup (c.currentUser, b.batchID) =
              c.completionBlocks.lookup (c.currentUser, b.batchID) := by
          intro b hb
          apply AList.lookup_insert_ne
          intro he
          exact absurd (Prod.mk.inj he).2 (Int.ne_of_lt (hlt b hb))
        rw [show c.currentUser = c.outbox.user from rfl, Outbox.put_waiting_self]
        show (c.waiting c.currentUser).map _ ++ _ = (c₁.waiting c.currentUser).map _
        rw [hwaiting, List.map_append, h.waiting]
        congr 1
        · exact List.map_congr_left fun b hb => congrArg (b.mutations, ·) (hold b hb).symm
        · rw [List.map_singleton, hmutations]
          exact congrArg (fun block => [(mutations, block)]) (AList.lookup_insert c.completionBlocks).symm
      · rw [Outbox.put_waiting_ne hu]
        have hwaiting : c₁.waiting user = c.waiting user := by
          rw [hc₁]
          exact waiting_other hreleased.same (h.user ▸ hu)
        rw [hwaiting]
        show (c.waiting user).map _ = _
        refine List.map_congr_left fun b _ => ?_
        rw [AList.lookup_insert_ne fun he => hu (Prod.mk.inj he).1]
    · rw [hc₁]
      rfl

/-- The sync engine's part in an acknowledgement; the stream has the answer, and the
pipeline is without the batch. -/
theorem Ready.applySuccessfulWrite (h : c.Ready) {stream : WriteStream K σ} {result : BatchResult K σ}
    {pipeline : List (MutationBatch K σ)} (hp : c.writePipeline = result.batch :: pipeline) (hf : result.Fits)
    (hcoherent : stream.Coherent pipeline) :
    ∃ c₁ rest, Client.applySuccessfulWrite { c with writeStream := some stream, writePipeline := pipeline } result = .ok c₁ ∧
      c.localStore.acknowledgeBatchWithResult result = .ok c₁.localStore ∧ c.localStore.pending = result.batch :: rest ∧
      c₁.Ready ∧ Answered c c₁ result.batch rest none ∧ c₁.writeStream = some stream ∧
      c₁.credentials = c.credentials ∧ c₁.streams = c.streams := by
  obtain ⟨more, hmore⟩ := h.pipeline
  rw [hp, List.cons_append] at hmore
  obtain ⟨s, hack, hvalid, hleft, hreleased⟩ := h.store.acknowledgeBatchWithResult hmore.symm hf
  obtain ⟨c₀, hc₀⟩ : ∃ c₀, c₀ = { c with writeStream := some stream, writePipeline := pipeline } := ⟨_, rfl⟩
  obtain ⟨blocks, hprocess, hblocks⟩ := processUserCallbacks_eq c₀ result.batch.batchID none
  obtain ⟨c₁, hc₁⟩ : ∃ c₁, c₁ = { c₀.processUserCallbacks result.batch.batchID none with localStore := s } := ⟨_, rfl⟩
  have hstore : c₁.localStore = s := by rw [hc₁]
  have hstream : c₁.writeStream = some stream := by rw [hc₁, hprocess, hc₀]
  have hanswered : Answered c c₁ result.batch (pipeline ++ more) none := by
    rw [hc₁, hprocess]
    refine ⟨hmore.symm, by rw [hc₀], by rw [hc₀], hleft, hreleased.same, fun key hkey => ?_, by rw [hc₀]⟩
    rw [hc₀] at hblocks
    exact hblocks key hkey
  have hready : c₁.Ready := by
    refine h.answered hp hanswered (hstore ▸ hvalid) (by rw [hc₁, hprocess, hc₀]) (by rw [hstream]; rfl) fun stream' hm => ?_
    rw [hstream] at hm
    cases hm
    exact hcoherent
  refine ⟨c₁, pipeline ++ more, ?_, hstore.symm ▸ hack, hmore.symm, hready, hanswered, hstream, ?_, ?_⟩
  · unfold Client.applySuccessfulWrite Client.assertDelegateExists
    rw [← hc₀, hc₁, hprocess, hc₀, hardAssert_ok h.delegate]
    dsimp only
    rw [hack]
    rfl
  · rw [hc₁, hprocess, hc₀]
  · rw [hc₁, hprocess, hc₀]

/-- A response is about the first batch of the pipeline. -/
theorem Valid.receiveResponse (h : c.Valid) {stream : WriteStream K σ} {connection : Connection K σ}
    {mutations : List (Mutation K σ)} {writes : List (List (Mutation K σ))} {results : List (MutationResult σ)}
    (hstream : c.writeStream = some stream) (hstate : stream.state = .open connection)
    (hhandshake : stream.handshakeComplete = true) (hwrites : connection.writes = mutations :: writes)
    (hfits : List.Forall₂ Mutation.Fits mutations results) (commitVersion : SnapshotVersion) :
    ∃ c', c.handleStreamMessage commitVersion results = .ok c' ∧ c'.Valid ∧ Attends c c' ∧
      c.outbox.step (.settle none) = some c'.outbox ∧ ∃ batch rest, c.localStore.pending = batch :: rest ∧
        batch.mutations = mutations ∧
        c.localStore.acknowledgeBatchWithResult ⟨batch, commitVersion, results⟩ = .ok c'.localStore := by
  have hcoherent := h.coherent stream hstream
  unfold WriteStream.Coherent at hcoherent
  rw [hstate] at hcoherent
  dsimp only at hcoherent
  rw [if_pos hhandshake, hwrites] at hcoherent
  obtain ⟨hmap, hidle⟩ := hcoherent
  cases hp : c.writePipeline with
  | nil =>
    rw [hp] at hmap
    cases hmap
  | cons batch pipeline =>
    rw [hp, List.map_cons, List.cons.injEq] at hmap
    obtain ⟨rfl, rfl⟩ := hmap
    have hwith : BatchResult.resultWithBatch batch commitVersion results = .ok ⟨batch, commitVersion, results⟩ := by
      unfold BatchResult.resultWithBatch
      rw [hardAssert_ok (decide_eq_true hfits.length_eq)]
      rfl
    have hcoherent' : WriteStream.Coherent { stream with
        state := .open { connection with writes := pipeline.map MutationBatch.mutations } } pipeline := by
      show if stream.handshakeComplete = true then _ else _
      rw [if_pos hhandshake]
      refine ⟨rfl, fun hi => ?_⟩
      rw [hp] at hidle
      cases hidle hi
    have hresult : BatchResult.Fits ⟨batch, commitVersion, results⟩ := hfits
    obtain ⟨c₁, rest, happly, hack, hpending, hready, hanswered, hstream₁, hcredentials, hstreams⟩ :=
      h.toReady.applySuccessfulWrite hp hresult hcoherent'
    have hattends : Attends c c₁ := by
      refine ⟨?_, fun u hu => ?_, .nothing hcredentials ?_, hanswered.user, hstreams⟩
      · rw [hstream₁, hstream]
        rfl
      · rw [hstream₁] at hu
        rw [hstream, Option.bind_some, WriteStream.user, hstate]
        exact hu
      · rw [isAuth, isAuth, hstream₁, hstream, Option.any_some, Option.any_some, WriteStream.isAuth,
          WriteStream.isAuth, hstate]
    obtain ⟨c', hfill, hvalid', htends⟩ := fillWritePipeline_eq hready
    have hstore : c'.localStore = c₁.localStore := by rw [htends.only]
    refine ⟨c', ?_, hvalid', hattends.trans htends.toAttends, ?_, batch, rest, hpending, rfl, hstore ▸ hack⟩
    · unfold handleStreamMessage
      rw [hstream]
      dsimp only
      rw [hstate]
      dsimp only
      rw [if_pos hhandshake, hwrites]
      unfold writeStreamDidReceiveResponse
      dsimp only [List.tail_cons]
      rw [hp]
      dsimp only
      rw [hwith]
      show (do let c ← Client.applySuccessfulWrite _ _; c.fillWritePipeline) = _
      rw [happly]
      exact hfill
    · rw [htends.outbox]
      exact hanswered.outbox h.toReady hready

theorem Valid.completeHandshake (h : c.Valid) {stream : WriteStream K σ} {connection : Connection K σ}
    (hstream : c.writeStream = some stream) (hstate : stream.state = .open connection)
    (hhandshake : ¬stream.handshakeComplete = true) (commitVersion : SnapshotVersion)
    (results : List (MutationResult σ)) :
    ∃ c', c.handleStreamMessage commitVersion results = .ok c' ∧ c'.Valid ∧ Attends c c' ∧ c'.outbox = c.outbox ∧
      c'.localStore = c.localStore := by
  have hcoherent := h.coherent stream hstream
  unfold WriteStream.Coherent at hcoherent
  rw [hstate] at hcoherent
  dsimp only at hcoherent
  rw [if_neg hhandshake] at hcoherent
  obtain ⟨hwrites, hidle, hne⟩ := hcoherent
  obtain ⟨stream', hstream'⟩ : ∃ stream', stream' = { stream with
      handshakeComplete := true
      state := .open { connection with writes := c.writePipeline.map MutationBatch.mutations } } := ⟨_, rfl⟩
  have hsend : c.writePipeline.foldlM (fun stream batch => stream.writeMutations batch.mutations)
      { stream with handshakeComplete := true } = .ok stream' := by
    have hall := WriteStream.foldlM_writeMutations c.writePipeline { stream with handshakeComplete := true }
      hstate rfl hidle
    rw [hwrites, List.nil_append] at hall
    rw [hall, hstream']
  have hstarted : stream'.isStarted = true := by rw [hstream']; rfl
  have hready : Ready { c with writeStream := some stream' } := by
    refine ⟨h.store, h.user, h.delegate, h.pipeline, h.bound, (fun hn => by cases hn), fun s hm => ?_⟩
    cases hm
    rw [hstream', WriteStream.Coherent]
    dsimp only
    rw [if_pos rfl]
    refine ⟨rfl, fun hi => ?_⟩
    cases hidle.symm.trans hi
  refine ⟨{ c with writeStream := some stream' }, ?_, ⟨hready, fun _ => h.full (by rw [hstream]; rfl), ?_⟩, ?_, rfl, rfl⟩
  · unfold handleStreamMessage
    rw [hstream]
    dsimp only
    rw [hstate]
    dsimp only
    rw [if_neg hhandshake]
    rw [hstate] at hsend
    rw [hsend]
    rfl
  · exact shouldStart_of_started hstarted
  · refine ⟨?_, fun u hu => ?_, .nothing rfl ?_, rfl, rfl⟩
    · rw [hstream, hstream']
      rfl
    · rw [hstream'] at hu
      rw [hstream, Option.bind_some, WriteStream.user, hstate]
      exact hu
    · rw [isAuth, isAuth, hstream, Option.any_some, Option.any_some, WriteStream.isAuth, WriteStream.isAuth, hstate,
        hstream']

/-! ## Interrupted streams -/

/-- A permanent error after the handshake is the answer to the first write. -/
def settles (c : Client K σ C) (stream : WriteStream K σ) : Option ErrorCode → Bool
  | some error => !c.writePipeline.isEmpty && stream.handshakeComplete && error.isPermanentWriteError
  | none => false

/-- The first batch is given up, and the others are sent again. -/
theorem Ready.handleWriteError (h : c.Ready) {stream : WriteStream K σ} {error : ErrorCode}
    (hstream : c.writeStream = some stream) (hnot : stream.isStarted = false)
    (hpermanent : error.isPermanentWriteError = true) (hne : c.writePipeline ≠ []) :
    ∃ c', c.handleWriteError error = .ok c' ∧ c'.Valid ∧ Attends c c' ∧
      c.outbox.step (.settle (some error)) = some c'.outbox := by
  have hcoherent := h.coherent stream hstream
  cases hp : c.writePipeline with
  | nil => exact absurd hp hne
  | cons batch pipeline =>
    obtain ⟨more, hmore⟩ := h.pipeline
    rw [hp, List.cons_append] at hmore
    obtain ⟨s, hreject, hvalid, hleft, hreleased⟩ := h.store.rejectBatchID hmore.symm
    have hinhibit : stream.inhibitBackoff = .ok { stream with state := .initial } := by
      unfold WriteStream.inhibitBackoff
      rw [hardAssert_ok (by rw [hnot]; rfl)]
      rfl
    obtain ⟨c₀, hc₀⟩ : ∃ c₀, c₀ = { c with
      localStore := s
      writeStream := some { stream with state := .initial }
      writePipeline := pipeline } := ⟨_, rfl⟩
    obtain ⟨blocks, hprocess, hblocks⟩ := processUserCallbacks_eq c₀ batch.batchID (some error)
    obtain ⟨c₁, hc₁⟩ : ∃ c₁, c₁ = c₀.processUserCallbacks batch.batchID (some error) := ⟨_, rfl⟩
    have hanswered : Answered c c₁ batch (pipeline ++ more) (some error) := by
      rw [hc₁, hprocess]
      refine ⟨hmore.symm, by rw [hc₀], by rw [hc₀], by rw [hc₀]; exact hleft, by rw [hc₀]; exact hreleased.same,
        fun key hkey => ?_, by rw [hc₀]⟩
      rw [hc₀] at hblocks
      exact hblocks key hkey
    have hready : c₁.Ready := by
      refine h.answered hp hanswered (by rw [hc₁, hprocess, hc₀]; exact hvalid) (by rw [hc₁, hprocess, hc₀])
        (by rw [hc₁, hprocess, hc₀]; rfl) fun stream' hm => ?_
      rw [hc₁, hprocess, hc₀] at hm
      cases hm
      exact hcoherent.idle hnot
    have hattends : Attends c c₁ := by
      rw [hc₁, hprocess, hc₀]
      refine ⟨?_, fun u hu => ?_, .nothing rfl ?_, rfl, rfl⟩
      · rw [hstream]
        rfl
      · cases hu
      · rw [isAuth, isAuth, hstream, Option.any_some, Option.any_some, WriteStream.isAuth_of_not_started hnot]
        rfl
    obtain ⟨c', hfill, hvalid', htends⟩ := fillWritePipeline_eq hready
    refine ⟨c', ?_, hvalid', hattends.trans htends.toAttends, ?_⟩
    · unfold Client.handleWriteError
      rw [if_pos hpermanent, hp, hstream]
      dsimp only
      rw [hinhibit]
      show (do let c ← rejectFailedWrite _ batch.batchID error; c.fillWritePipeline) = _
      unfold rejectFailedWrite Client.assertDelegateExists
      dsimp only
      rw [hardAssert_ok h.delegate, hreject]
      show (do let c ← (.ok (processUserCallbacks _ batch.batchID (some error)) : Checked _); c.fillWritePipeline) = _
      rw [← hc₀, ← hc₁]
      exact hfill
    · rw [htends.outbox]
      exact hanswered.outbox h hready

theorem Ready.interrupted (h : c.Ready) (hfull : c.writePipeline = c.localStore.pending.take kMaxPendingWrites)
    {stream : WriteStream K σ} (hstream : c.writeStream = some stream) (hnot : stream.isStarted = false)
    (error : Option ErrorCode) :
    ∃ c', c.writeStreamWasInterrupted error = .ok c' ∧ c'.Valid ∧ Attends c c' ∧
      c.outbox.Does (if c.settles stream error = true then some (.settle error) else none) c'.outbox := by
  unfold writeStreamWasInterrupted
  rw [hstream]
  dsimp only
  by_cases hsettles : c.settles stream error = true
  · rw [if_pos hsettles]
    cases error with
    | none => cases hsettles
    | some error =>
      unfold settles at hsettles
      dsimp only at hsettles
      rw [Bool.and_eq_true] at hsettles
      obtain ⟨hboth, hpermanent⟩ := hsettles
      have hne : c.writePipeline ≠ [] := by
        intro hp
        rw [hp] at hboth
        cases hboth
      obtain ⟨c', hrun, hvalid, hattends, hstep⟩ := h.handleWriteError hstream hnot hpermanent hne
      refine ⟨c', ?_, hvalid, hattends, hstep⟩
      have hinvoke : c.invokeErrorCallbacks stream (some error) = .ok c' := by
        unfold invokeErrorCallbacks
        dsimp only
        rw [if_pos hboth, hrun]
      rw [hinvoke]
      show (if c'.shouldStartWriteStream = true then _ else _) = _
      rw [hvalid.served]
      rfl
  · rw [if_neg hsettles]
    have hinvoke : c.invokeErrorCallbacks stream error = .ok c := by
      unfold invokeErrorCallbacks
      cases error with
      | none => rfl
      | some error =>
        dsimp only
        by_cases hboth : (!c.writePipeline.isEmpty && stream.handshakeComplete) = true
        · rw [if_pos hboth]
          unfold settles at hsettles
          dsimp only at hsettles
          rw [hboth, Bool.true_and] at hsettles
          unfold Client.handleWriteError
          rw [if_neg hsettles]
          rfl
        · rw [if_neg hboth]
    rw [hinvoke]
    show ∃ c', (if c.shouldStartWriteStream = true then c.startWriteStream else .ok c) = .ok c' ∧ _
    by_cases hshould : c.shouldStartWriteStream = true
    · obtain ⟨c', hrun, hready, htends, hp, hserved⟩ := startWriteStream_eq h hshould
      have hstore : c'.localStore = c.localStore := by rw [htends.only]
      refine ⟨c', by rw [if_pos hshould, hrun], ⟨hready, fun _ => ?_, hserved⟩, htends.toAttends, htends.outbox⟩
      rw [hp, hstore, hfull]
    · exact ⟨c, by rw [if_neg hshould], ⟨h, fun _ => hfull, Bool.not_eq_true _ ▸ hshould⟩, .refl c, rfl⟩

theorem Valid.handleStreamClose (h : c.Valid) {stream : WriteStream K σ} (hstream : c.writeStream = some stream)
    (hstarted : stream.isStarted = true) (error : Option ErrorCode) :
    ∃ c', c.handleStreamClose error = .ok c' ∧ c'.Valid ∧
      Attends { c with writeStream := some stream.closeWithError } c' ∧
      c.outbox.Does (if c.settles stream error = true then some (.settle error) else none) c'.outbox := by
  have hready : Ready { c with writeStream := some stream.closeWithError } := h.toReady.stopped rfl ⟨rfl, rfl, rfl⟩
  obtain ⟨c', hrun, hvalid, hattends, hdoes⟩ :=
    hready.interrupted (h.full (by rw [hstream]; rfl)) rfl rfl error
  have hsettles : settles { c with writeStream := some stream.closeWithError } stream.closeWithError error =
      c.settles stream error := by
    cases error with
    | none => rfl
    | some error => rfl
  rw [hsettles] at hdoes
  refine ⟨c', ?_, hvalid, hattends, hdoes⟩
  unfold Client.handleStreamClose
  rw [hstream]
  dsimp only
  rw [hardAssert_ok hstarted]
  exact hrun

theorem Valid.handleIdleCloseTimer (h : c.Valid) : ∃ c', c.handleIdleCloseTimer = .ok c' ∧ c'.Valid ∧
    Attends c c' ∧ c'.outbox = c.outbox := by
  unfold Client.handleIdleCloseTimer
  cases hstream : c.writeStream with
  | none => exact ⟨c, rfl, h, .refl c, rfl⟩
  | some stream =>
    dsimp only
    cases hstate : stream.state with
    | initial | auth | error | backoff => exact ⟨c, rfl, h, .refl c, rfl⟩
    | «open» connection =>
      have hstarted : stream.isStarted = true := by rw [WriteStream.isStarted, hstate]
      have hauth : stream.isAuth = false := by rw [WriteStream.isAuth, hstate]
      obtain ⟨stream', hstream'⟩ : ∃ stream' : WriteStream K σ,
        stream' = stream.closed .initial := ⟨_, rfl⟩
      have hclose : stream.close .initial = .ok stream' := by
        rw [(h.coherent stream hstream).close hstarted, hstream']
      have hready : Ready { c with writeStream := some stream' } :=
        h.toReady.stopped (by rw [hstream']; rfl) (by rw [hstream']; exact ⟨rfl, rfl, rfl⟩)
      obtain ⟨c', hrun, hvalid, hattends, hdoes⟩ :=
        hready.interrupted (h.full (by rw [hstream]; rfl)) rfl (by rw [hstream']; rfl) none
      have hclosed : Attends c { c with writeStream := some stream' } :=
        attends_closed hstream hauth (by rw [hstream']; rfl) (by rw [hstream']; rfl) (by rw [hstream']; rfl)
      refine ⟨c', ?_, hvalid, hclosed.trans hattends, hdoes⟩
      dsimp only
      rw [hclose]
      exact hrun

/-! ## Starting -/

theorem Valid.resumeStartWithToken (h : c.Valid) {stream : WriteStream K σ} (hstream : c.writeStream = some stream)
    (hstate : stream.state = .auth) (result : Except ErrorCode UserId) :
    ∃ c' c₁, c.resumeStartWithToken stream.number result = .ok c' ∧ c'.Valid ∧ c'.outbox = c.outbox ∧
      Resumes c c₁ result.toOption ∧ Attends c₁ c' := by
  have hcoherent := h.coherent stream hstream
  unfold WriteStream.Coherent at hcoherent
  rw [hstate] at hcoherent
  obtain ⟨hhandshake, hidle, hne, hfilter⟩ := hcoherent
  unfold Client.resumeStartWithToken
  rw [hstream]
  dsimp only
  rw [if_pos rfl, hstate]
  cases result with
  | error code =>
    have hstarted : stream.isStarted = true := by rw [WriteStream.isStarted, hstate]
    obtain ⟨c', hrun, hvalid, hattends, hdoes⟩ := h.handleStreamClose hstream hstarted (some code)
    have hsettles : c.settles stream (some code) = false := by
      unfold settles
      rw [hhandshake, Bool.and_false]
      rfl
    rw [hsettles] at hdoes
    refine ⟨c', { c with writeStream := some stream.closeWithError }, hrun, hvalid, hdoes,
      ⟨?_, rfl, rfl, fun u hu => ?_, rfl, rfl⟩, hattends⟩
    · rw [hstream]
      rfl
    · cases hu
  | ok user =>
    obtain ⟨stream', hstream'⟩ : ∃ stream' : WriteStream K σ,
      stream' = { stream with state := .open { user }, idleTimer := false, callbackFilter := true } := ⟨_, rfl⟩
    have hopen : stream.openWithToken user = .ok { stream with state := .open { user }, callbackFilter := true } := by
      unfold WriteStream.openWithToken
      rw [hardAssert_ok (by rw [hfilter]; rfl)]
      rfl
    have hwrite : WriteStream.writeHandshake { stream with state := .open { user }, callbackFilter := true } =
        .ok stream' := by
      unfold WriteStream.writeHandshake
      dsimp only
      rw [hardAssert_ok (by rw [hhandshake]; rfl), hstream']
      rfl
    obtain ⟨c', hc'⟩ : ∃ c', c' = { c with writeStream := some stream' } := ⟨_, rfl⟩
    have hready : c'.Ready := by
      rw [hc']
      refine ⟨h.store, h.user, h.delegate, h.pipeline, h.bound, (fun hn => by cases hn), fun s hm => ?_⟩
      cases hm
      rw [hstream', WriteStream.Coherent]
      dsimp only
      rw [if_neg (by rw [hhandshake]; exact Bool.false_ne_true)]
      exact ⟨rfl, rfl, hne⟩
    refine ⟨c', c', ?_, ⟨hready, fun _ => ?_, ?_⟩, by rw [hc']; rfl, ⟨?_, ?_, by rw [hc'], fun u hu => ?_,
      by rw [hc'], by rw [hc']⟩, .refl c'⟩
    · dsimp only
      rw [hopen]
      show (do let stream ← WriteStream.writeHandshake _; _) = _
      rw [hwrite, hc']
      rfl
    · rw [hc']
      exact h.full (by rw [hstream]; rfl)
    · apply shouldStart_of_started
      rw [hc', hstream']
      rfl
    · rw [hc', hstream, hstream']
      rfl
    · rw [hc', hstream']
      rfl
    · rw [hc', hstream'] at hu
      exact hu

end

/-! ## Users and processes -/

section
variable {c : Client K σ C}

/-- The streams are replaced even when the user is the same. -/
theorem Valid.credentialDidChange (h : c.Valid) {c₁ : Client K σ C} {s : LocalStore K σ} {user : UserId}
    (hc₁ : c₁ = { c with currentUser := user, localStore := s }) (hvalid : s.Valid)
    (huser : s.mutationQueue.userID = user)
    (hwaiting : ∀ u, (s.mutationQueue.db.tables u).unacknowledged = c.waiting u) :
    ∃ c', c₁.credentialDidChange = .ok c' ∧ c'.Valid ∧ c.outbox.step (.switch user) = some c'.outbox ∧
      Replaces c c' ∧ c'.currentUser = user := by
  have houtbox : c.outbox.step (.switch user) = some c₁.outbox := by
    show some _ = _
    congr 1
    apply Outbox.ext
    · rw [hc₁]
      rfl
    · intro u
      show (c.waiting u).map _ = (c₁.waiting u).map _
      have hsame : c₁.waiting u = c.waiting u := by
        rw [hc₁]
        exact hwaiting u
      rw [hsame, hc₁]
    · rw [hc₁]
      rfl
  have hready : Ready { c₁ with writeStream := none, writePipeline := [] } := by
    rw [hc₁]
    exact ⟨hvalid, huser, h.delegate, List.nil_prefix, Nat.zero_le _, fun _ => rfl, fun s hm => by cases hm⟩
  unfold Client.credentialDidChange
  cases hstream : c.writeStream with
  | none =>
    have hnone : c₁.writeStream = none := by rw [hc₁, hstream]
    have hsame : { c₁ with writeStream := none, writePipeline := [] } = c₁ := by
      rw [hc₁, ← hstream, ← h.offline hstream]
    refine ⟨c₁, ?_, ⟨hsame ▸ hready, fun hs => ?_, ?_⟩, houtbox, ⟨fun s hm => ?_, ?_, ?_, ?_⟩, by rw [hc₁]⟩
    · rw [hnone]
      rfl
    · rw [hnone] at hs
      cases hs
    · rw [shouldStartWriteStream, hnone]
    · rw [hnone] at hm
      cases hm
    · rw [hnone]
      rfl
    · rw [hnone, hc₁]
      rfl
    · rw [isAuth, hnone, hc₁]
      rfl
  | some stream =>
    have hsome : c₁.writeStream = some stream := by rw [hc₁, hstream]
    have hdisable : c₁.disableNetwork = .ok { c₁ with writeStream := none, writePipeline := [] } := by
      apply disableNetwork_eq
      · rw [hc₁]
        exact h.coherent
      · rw [hc₁]
        exact h.offline
    obtain ⟨c', henable, hvalid', houtbox', hreplaces, huser'⟩ := hready.enableNetwork rfl
    refine ⟨c', ?_, hvalid', houtbox.trans (congrArg some houtbox'.symm), ?_, by rw [huser', hc₁]⟩
    · rw [hsome, if_pos (by rfl), hdisable]
      exact henable
    · rw [hc₁] at hreplaces
      exact ⟨hreplaces.number, hreplaces.user, hreplaces.streams, hreplaces.credentials⟩

variable [DecidableEq K] [DecidableEq σ]

theorem Valid.credentialDidChangeWithUser (h : c.Valid) (user : UserId) :
    ∃ c', c.credentialDidChangeWithUser user = .ok c' ∧ c'.Valid ∧ c.outbox.step (.switch user) = some c'.outbox ∧
      Replaces c c' ∧ c'.currentUser = user := by
  unfold Client.credentialDidChangeWithUser
  by_cases hu : c.currentUser ≠ user
  · obtain ⟨s, hrun, hs⟩ := h.store.userDidChange user
    rw [if_pos hu, hrun]
    exact h.credentialDidChange rfl hs.valid hs.userID hs.waiting
  · rw [if_neg hu]
    obtain rfl := not_not.mp hu
    exact h.credentialDidChange rfl h.store h.user fun _ => rfl

omit [DecidableEq σ] in
/-- The process ends and the next one finds the batches. -/
theorem Valid.restart (h : c.Valid) (user : UserId) :
    ∃ c', c.restart user = .ok c' ∧ c'.Valid ∧ c.outbox.step (.restart user) = some c'.outbox ∧
      Replaces ({ credentials := { currentUser := user } } : Client K σ C) c' ∧ c'.currentUser = user := by
  obtain ⟨s, hrun, hs⟩ := h.store.restart user
  obtain ⟨c₁, hc₁⟩ : ∃ c₁ : Client K σ C, c₁ =
    { localStore := s, currentUser := user, credentials := { currentUser := user }, called := c.called } := ⟨_, rfl⟩
  have hready : c₁.Ready := by
    rw [hc₁]
    exact ⟨hs.valid, hs.userID, rfl, List.nil_prefix, Nat.zero_le _, fun _ => rfl, fun s hm => by cases hm⟩
  obtain ⟨c', henable, hvalid, houtbox, hreplaces, huser⟩ := hready.enableNetwork (by rw [hc₁])
  refine ⟨c', ?_, hvalid, ?_, ?_, by rw [huser, hc₁]⟩
  · unfold Client.restart
    rw [hrun]
    rw [hc₁] at henable
    exact henable
  · rw [houtbox]
    show some _ = _
    congr 1
    apply Outbox.ext
    · rw [hc₁]
      rfl
    · intro u
      show ((c.waiting u).map _).map _ = (c₁.waiting u).map _
      have hsame : c₁.waiting u = c.waiting u := by
        rw [hc₁]
        exact hs.waiting u
      rw [hsame, hc₁, List.map_map]
      rfl
    · rw [hc₁]
      rfl
  · rw [hc₁] at hreplaces
    exact ⟨hreplaces.number, hreplaces.user, hreplaces.streams, hreplaces.credentials⟩

end

end Client

end ShoppingList.Firestore
