import ShoppingList.Firestore.Client
import ShoppingList.Firestore.StoreValid

/-!
# The write pipeline

While the network is enabled the pipeline holds the first ten batches that wait,
the connection's unanswered writes are exactly those of the pipeline, and a
stream is on its way whenever the pipeline is not empty.
-/

namespace ShoppingList.Firestore

variable {K σ C : Type}

namespace WriteStream

/-- Whose token the connection carries. -/
def user (stream : WriteStream K σ) : Option UserId :=
  match stream.state with
  | .open connection => some connection.user
  | _ => none

/-- What the stream knows of the pipeline. -/
def Coherent (stream : WriteStream K σ) (pipeline : List (MutationBatch K σ)) : Prop :=
  match stream.state with
  | .initial | .error => stream.idleTimer = false ∧ stream.delegate = false ∧ stream.callbackFilter = false
  | .auth =>
    stream.handshakeComplete = false ∧ stream.idleTimer = false ∧ pipeline ≠ [] ∧ stream.callbackFilter = false
  | .backoff =>
    stream.handshakeComplete = false ∧ stream.idleTimer = false ∧ pipeline ≠ [] ∧ stream.delegate = false ∧
      stream.callbackFilter = false
  | .open connection =>
    if stream.handshakeComplete then
      connection.writes = pipeline.map (·.mutations) ∧ (stream.idleTimer = true → pipeline = [])
    else connection.writes = [] ∧ stream.idleTimer = false ∧ pipeline ≠ []

variable {stream : WriteStream K σ} {pipeline : List (MutationBatch K σ)}

theorem writeMutations_eq {connection : Connection K σ} (hstate : stream.state = .open connection)
    (hhandshake : stream.handshakeComplete = true) (mutations : List (Mutation K σ)) :
    stream.writeMutations mutations = .ok { stream with
      state := .open { connection with writes := connection.writes ++ [mutations] }
      idleTimer := false } := by
  unfold writeMutations
  rw [hstate, hhandshake]
  rfl

/-- The whole pipeline is sent after the handshake. -/
theorem foldlM_writeMutations : ∀ (pipeline : List (MutationBatch K σ)) (stream : WriteStream K σ)
    {connection : Connection K σ}, stream.state = .open connection → stream.handshakeComplete = true →
    stream.idleTimer = false →
    pipeline.foldlM (fun stream batch => stream.writeMutations batch.mutations) stream = .ok { stream with
      state := .open { connection with writes := connection.writes ++ pipeline.map MutationBatch.mutations } }
  | [], stream, connection, hstate, _, _ => by
    rw [List.map_nil, List.append_nil, ← hstate]
    rfl
  | batch :: pipeline, stream, connection, hstate, hhandshake, hidle => by
    rw [List.foldlM_cons, writeMutations_eq hstate hhandshake]
    have hrest := foldlM_writeMutations pipeline { stream with
      state := .open { connection with writes := connection.writes ++ [batch.mutations] }
      idleTimer := false } rfl hhandshake rfl
    rw [List.map_cons]
    rw [List.append_assoc] at hrest
    exact hrest.trans (by rw [← hidle]; rfl)

theorem Coherent.start (h : stream.Coherent pipeline) (hs : stream.isStarted = false) (hp : pipeline ≠ []) :
    ∃ stream', stream.start = .ok stream' ∧ stream'.Coherent pipeline ∧ stream'.isStarted = true ∧
      stream'.number = stream.number ∧ stream'.user = none := by
  unfold WriteStream.start
  unfold Coherent at h
  cases hstate : stream.state with
  | initial =>
    rw [hstate] at h
    obtain ⟨hidle, hdelegate, hfilter⟩ := h
    refine ⟨{ stream with state := .auth, handshakeComplete := false, delegate := true }, ?_,
      ⟨rfl, hidle, hp, hfilter⟩, rfl, rfl, rfl⟩
    dsimp only
    rw [hardAssert_ok (by rw [hdelegate]; rfl)]
    rfl
  | error =>
    rw [hstate] at h
    exact ⟨_, rfl, ⟨rfl, h.1, hp, h.2⟩, rfl, rfl, rfl⟩
  | auth | «open» | backoff =>
    unfold isStarted at hs
    rw [hstate] at hs
    cases hs

theorem Coherent.idle (h : stream.Coherent pipeline) (hs : stream.isStarted = false) {pipeline' : List (MutationBatch K σ)} :
    Coherent { stream with state := .initial } pipeline' := by
  unfold Coherent at h
  unfold isStarted at hs
  cases hstate : stream.state with
  | initial | error =>
    rw [hstate] at h
    exact h
  | auth | «open» | backoff =>
    rw [hstate] at hs
    cases hs

/-- The backend is told only over an open connection. -/
theorem Coherent.close (h : stream.Coherent pipeline) (hs : stream.isStarted = true) (finalState : StreamState K σ) :
    stream.close finalState = .ok (stream.closed finalState) := by
  unfold Coherent at h
  unfold isStarted at hs
  unfold WriteStream.close
  by_cases hhandshake : stream.handshakeComplete = true
  · rw [if_pos hhandshake]
    cases hstate : stream.state with
    | initial | error =>
      rw [hstate] at hs
      cases hs
    | auth | backoff =>
      rw [hstate] at h
      cases hhandshake.symm.trans h.1
    | «open» connection =>
      rw [writeMutations_eq hstate hhandshake]
      rfl
  · rw [if_neg hhandshake]
    rfl

theorem isAuth_of_not_started (h : stream.isStarted = false) : stream.isAuth = false := by
  unfold isStarted at h
  unfold isAuth
  cases hstate : stream.state with
  | auth =>
    rw [hstate] at h
    cases h
  | _ => rfl

/-- A batch joins the pipeline while the connection takes writes. -/
theorem Coherent.write (h : stream.Coherent pipeline) (hs : stream.isStarted = true)
    (hhandshake : stream.handshakeComplete = true) (batch : MutationBatch K σ) :
    ∃ stream', stream.writeMutations batch.mutations = .ok stream' ∧
      stream'.Coherent (pipeline ++ [batch]) ∧ stream'.isStarted = true ∧ stream'.number = stream.number ∧
      stream'.user = stream.user ∧ stream'.isAuth = stream.isAuth := by
  unfold Coherent at h
  unfold isStarted at hs
  cases hstate : stream.state with
  | initial | error =>
    rw [hstate] at hs
    cases hs
  | auth | backoff =>
    rw [hstate] at h
    cases hhandshake.symm.trans h.1
  | «open» connection =>
    rw [hstate] at h
    dsimp only at h
    rw [if_pos hhandshake] at h
    refine ⟨_, writeMutations_eq hstate hhandshake batch.mutations, ?_, rfl, rfl, ?_, ?_⟩
    · show if stream.handshakeComplete = true then _ else _
      rw [if_pos hhandshake, h.1, List.map_append]
      exact ⟨rfl, fun hidle => by cases hidle⟩
    · rw [user, user, hstate]
    · rw [isAuth, isAuth, hstate]

/-- Before the handshake a batch that joins the pipeline waits. -/
theorem Coherent.wait (h : stream.Coherent pipeline) (hs : stream.isStarted = true)
    (hhandshake : ¬stream.handshakeComplete = true) (batch : MutationBatch K σ) :
    stream.Coherent (pipeline ++ [batch]) := by
  unfold Coherent at h ⊢
  unfold isStarted at hs
  have hne : pipeline ++ [batch] ≠ [] := by simp
  cases hstate : stream.state with
  | initial | error =>
    rw [hstate] at hs
    cases hs
  | auth | backoff =>
    rw [hstate] at h
    exact ⟨h.1, h.2.1, hne, h.2.2.2⟩
  | «open» connection =>
    rw [hstate] at h
    dsimp only at h ⊢
    rw [if_neg hhandshake] at h ⊢
    exact ⟨h.1, h.2.1, hne⟩

@[simp] theorem markIdle_number (stream : WriteStream K σ) : stream.markIdle.number = stream.number := by
  unfold markIdle
  split <;> rfl

@[simp] theorem markIdle_state (stream : WriteStream K σ) : stream.markIdle.state = stream.state := by
  unfold markIdle
  split <;> rfl

theorem markIdle_user (stream : WriteStream K σ) : stream.markIdle.user = stream.user := by
  rw [user, user, markIdle_state]

theorem markIdle_isAuth (stream : WriteStream K σ) : stream.markIdle.isAuth = stream.isAuth := by
  rw [isAuth, isAuth, markIdle_state]

theorem Coherent.markIdle (h : stream.Coherent pipeline) (hp : pipeline = []) : stream.markIdle.Coherent pipeline := by
  unfold WriteStream.markIdle
  cases hstate : stream.state with
  | initial | auth | error | backoff => exact h
  | «open» connection =>
    unfold Coherent at h ⊢
    rw [hstate] at h
    dsimp only at h ⊢
    by_cases hhandshake : stream.handshakeComplete = true
    · rw [if_pos hhandshake] at h ⊢
      exact ⟨h.1, fun _ => hp⟩
    · rw [if_neg hhandshake] at h
      exact absurd hp h.2.2

end WriteStream

namespace Client

def isAuth (c : Client K σ C) : Bool := c.writeStream.any (·.isAuth)

/-- A token is asked for only when the stream starts anew. -/
inductive Asked (c c' : Client K σ C) : Prop where
  | nothing (h : c'.credentials = c.credentials) (ha : c'.isAuth = c.isAuth)
  | token (n : Nat) (h : c.isAuth = false) (ha : c'.isAuth = true) (hn : c.writeStream.map (·.number) = some n)
      (hr : c'.credentials = c.credentials.getToken n)

/-- The stream stays the same one, and no connection is opened. -/
structure Attends (c c' : Client K σ C) : Prop where
  number : c'.writeStream.map (·.number) = c.writeStream.map (·.number)
  user : ∀ u, c'.writeStream.bind (·.user) = some u → c.writeStream.bind (·.user) = some u
  asked : Asked c c'
  currentUser : c'.currentUser = c.currentUser
  streams : c'.streams = c.streams

theorem Attends.refl (c : Client K σ C) : Attends c c := ⟨rfl, fun _ h => h, .nothing rfl rfl, rfl, rfl⟩

theorem Attends.trans {c c₁ c' : Client K σ C} (h : Attends c c₁) (h' : Attends c₁ c') : Attends c c' := by
  refine ⟨h'.number.trans h.number, fun u hu => h.user u (h'.user u hu), ?_,
    h'.currentUser.trans h.currentUser, h'.streams.trans h.streams⟩
  cases h.asked with
  | nothing hr ha =>
    cases h'.asked with
    | nothing hr' ha' => exact .nothing (hr'.trans hr) (ha'.trans ha)
    | token n hf ht hn hr' => exact .token n (ha ▸ hf) ht (h.number ▸ hn) (hr ▸ hr')
  | token n hf ht hn hr =>
    cases h'.asked with
    | nothing hr' ha' => exact .token n hf (ha'.trans ht) hn (hr'.trans hr)
    | token n' hf' => exact Bool.noConfusion (ht.symm.trans hf')

/-- What a handler changes when it only looks after the pipeline. -/
structure Tends (c c' : Client K σ C) : Prop extends Attends c c' where
  only : c' = { c with
    writeStream := c'.writeStream
    writePipeline := c'.writePipeline
    credentials := c'.credentials }

theorem Tends.refl (c : Client K σ C) : Tends c c := ⟨.refl c, rfl⟩

theorem Tends.trans {c c₁ c' : Client K σ C} (h : Tends c c₁) (h' : Tends c₁ c') : Tends c c' :=
  ⟨h.toAttends.trans h'.toAttends, by rw [h'.only, h.only]⟩

/-! ## Filling the pipeline -/

section
variable {c : Client K σ C}

structure Ready (c : Client K σ C) : Prop where
  store : c.localStore.Valid
  user : c.localStore.mutationQueue.userID = c.currentUser
  delegate : c.delegate = true
  pipeline : c.writePipeline <+: c.localStore.pending
  bound : c.writePipeline.length ≤ kMaxPendingWrites
  offline : c.writeStream = none → c.writePipeline = []
  coherent : ∀ stream ∈ c.writeStream, stream.Coherent c.writePipeline

theorem shouldStart_iff : c.shouldStartWriteStream = true ↔
    ∃ stream, c.writeStream = some stream ∧ stream.isStarted = false ∧ c.writePipeline ≠ [] := by
  unfold shouldStartWriteStream
  cases c.writeStream with
  | none => simp
  | some stream => simp

theorem Ready.assertDelegateExists (h : c.Ready) : c.assertDelegateExists = .ok () := hardAssert_ok h.delegate _

/-- After an error the stream backs off first. -/
theorem startWithDelegate_eq (h : c.Ready) {stream : WriteStream K σ} (hstream : c.writeStream = some stream)
    (hnot : stream.isStarted = false) (hp : c.writePipeline ≠ []) :
    ∃ c', c.startWithDelegate stream = .ok c' ∧ c'.Ready ∧ Tends c c' ∧ c'.writePipeline = c.writePipeline ∧
      c'.writeStream.any (·.isStarted) = true := by
  obtain ⟨stream', hstart, hcoherent, hstarted, hnumber, huser⟩ := (h.coherent stream hstream).start hnot hp
  have hauth : c.isAuth = false := by
    rw [isAuth, hstream]
    exact WriteStream.isAuth_of_not_started hnot
  obtain ⟨c', hc'⟩ : ∃ c', c' = { c with
      writeStream := some stream'
      credentials := if stream'.isAuth then c.credentials.getToken stream'.number else c.credentials } := ⟨_, rfl⟩
  have hrun : c.startWithDelegate stream = .ok c' := by
    unfold startWithDelegate
    rw [hstart, hc']
    rfl
  have hnumber' : c.writeStream.map (·.number) = some stream'.number := by
    rw [hstream, hnumber]
    rfl
  have hauth' : c'.isAuth = stream'.isAuth := by rw [hc']; rfl
  have hasked : Asked c c' := by
    cases ha : stream'.isAuth with
    | true => exact .token stream'.number hauth (hauth'.trans ha) hnumber' (by rw [hc', if_pos ha])
    | false => exact .nothing (by rw [hc', if_neg (Bool.not_eq_true _ ▸ ha)]) (by rw [hauth', ha, hauth])
  refine ⟨c', hrun, ?_, ⟨⟨by rw [hnumber', hc']; rfl, fun u hu => ?_, hasked, by rw [hc'], by rw [hc']⟩, by rw [hc']⟩,
    by rw [hc'], ?_⟩
  · rw [hc']
    exact ⟨h.store, h.user, h.delegate, h.pipeline, h.bound, (fun hn => by cases hn), fun _ hm => by cases hm; exact hcoherent⟩
  · rw [hc'] at hu
    cases huser.symm.trans hu
  · rw [hc']
    exact hstarted

theorem shouldStart_of_started (h : c.writeStream.any (·.isStarted) = true) : c.shouldStartWriteStream = false := by
  unfold shouldStartWriteStream
  cases hstream : c.writeStream with
  | none => rfl
  | some stream =>
    rw [hstream, Option.any_some] at h
    simp only [h, Bool.not_true, Bool.false_and]

theorem startWriteStream_eq (h : c.Ready) (hs : c.shouldStartWriteStream = true) :
    ∃ c', c.startWriteStream = .ok c' ∧ c'.Ready ∧ Tends c c' ∧ c'.writePipeline = c.writePipeline ∧
      c'.shouldStartWriteStream = false := by
  obtain ⟨stream, hstream, hnot, hp⟩ := shouldStart_iff.mp hs
  obtain ⟨c', hrun, hready, htends, hpipeline, hstarted⟩ := startWithDelegate_eq h hstream hnot hp
  refine ⟨c', ?_, hready, htends, hpipeline, shouldStart_of_started hstarted⟩
  unfold startWriteStream
  rw [hardAssert_ok hs, hstream]
  exact hrun

theorem addBatchToWritePipeline_eq (h : c.Ready) (hadd : c.canAddToWritePipeline = true) {batch : MutationBatch K σ}
    {rest : List (MutationBatch K σ)} (hrest : c.localStore.pending = c.writePipeline ++ batch :: rest) :
    ∃ c', c.addBatchToWritePipeline batch = .ok c' ∧ c'.Ready ∧ Tends c c' ∧
      c'.writePipeline = c.writePipeline ++ [batch] := by
  have hcan := hadd
  unfold canAddToWritePipeline at hcan
  rw [Bool.and_eq_true, decide_eq_true_eq] at hcan
  obtain ⟨hsome, hlt⟩ := hcan
  obtain ⟨stream, hstream⟩ := Option.isSome_iff_exists.mp hsome
  have hcoherent := h.coherent stream hstream
  have hprefix : c.writePipeline ++ [batch] <+: c.localStore.pending := ⟨rest, by rw [hrest, List.append_assoc]; rfl⟩
  have hbound : (c.writePipeline ++ [batch]).length ≤ kMaxPendingWrites := by
    rw [List.length_append]
    exact hlt
  obtain ⟨c₁, hc₁⟩ : ∃ c₁, c₁ = { c with writePipeline := c.writePipeline ++ [batch] } := ⟨_, rfl⟩
  have htends : Tends c c₁ := by
    rw [hc₁]
    exact ⟨⟨rfl, fun _ hu => hu, .nothing rfl rfl, rfl, rfl⟩, rfl⟩
  unfold addBatchToWritePipeline
  rw [hardAssert_ok hadd]
  dsimp only [bind, Except.bind]
  rw [← hc₁]
  cases hstarted : stream.isStarted with
  | false =>
    have hshould : c₁.shouldStartWriteStream = true :=
      shouldStart_iff.mpr ⟨stream, by rw [hc₁, hstream], hstarted, by rw [hc₁]; simp⟩
    have hready : c₁.Ready := by
      rw [hc₁]
      refine ⟨h.store, h.user, h.delegate, hprefix, hbound, fun hn => ?_, fun stream' hm => ?_⟩
      · rw [hn] at hsome
        cases hsome
      · obtain rfl : stream = stream' := Option.some.inj (hstream.symm.trans hm)
        unfold WriteStream.Coherent at hcoherent ⊢
        unfold WriteStream.isStarted at hstarted
        cases hstate : stream.state with
        | initial | error =>
          rw [hstate] at hcoherent
          exact hcoherent
        | _ =>
          rw [hstate] at hstarted
          cases hstarted
    obtain ⟨c', hrun', hready', htends', hp, -⟩ := startWriteStream_eq hready hshould
    rw [if_pos hshould]
    exact ⟨c', hrun', hready', htends.trans htends', by rw [hp, hc₁]⟩
  | true =>
    have hshould : ¬c₁.shouldStartWriteStream = true := by
      rw [shouldStart_iff, hc₁]
      rintro ⟨s, hs, hnot, -⟩
      obtain rfl : stream = s := Option.some.inj (hstream.symm.trans hs)
      cases hstarted.symm.trans hnot
    rw [if_neg hshould, hstream]
    dsimp only
    by_cases hhandshake : stream.handshakeComplete = true
    · obtain ⟨stream', hwrite, hcoherent', -, hnumber, huser, hauth⟩ := hcoherent.write hstarted hhandshake batch
      rw [if_pos hhandshake, hwrite]
      refine ⟨{ c₁ with writeStream := some stream' }, by rw [hc₁]; rfl, ?_, ?_, by rw [hc₁]⟩
      · rw [hc₁]
        exact ⟨h.store, h.user, h.delegate, hprefix, hbound, (fun hn => by cases hn), fun _ hm => by cases hm; exact hcoherent'⟩
      · rw [hc₁]
        refine ⟨⟨?_, fun u hu => ?_, .nothing rfl ?_, rfl, rfl⟩, rfl⟩
        · rw [hstream, Option.map_some, Option.map_some, hnumber]
        · rw [hstream]
          exact huser.symm.trans hu
        · rw [isAuth, isAuth, hstream]
          exact hauth
    · rw [if_neg hhandshake]
      refine ⟨c₁, rfl, ?_, htends, by rw [hc₁]⟩
      rw [hc₁]
      refine ⟨h.store, h.user, h.delegate, hprefix, hbound, fun hn => ?_, fun s hm => ?_⟩
      · cases hstream.symm.trans hn
      · obtain rfl : stream = s := Option.some.inj (hstream.symm.trans hm)
        exact hcoherent.wait hstarted hhandshake batch

theorem eq_take_of_isPrefix {α : Type} {xs ys : List α} {n : Nat} (h : xs <+: ys) (hn : xs.length = n) : xs = ys.take n :=
  hn ▸ List.prefix_iff_eq_take.mp h

/-- Nothing waits, so the stream may close when it stays so. -/
theorem markIdle_ready (h : c.Ready) (hp : c.writePipeline = []) :
    Ready { c with writeStream := c.writeStream.map (·.markIdle) } ∧
      Tends c { c with writeStream := c.writeStream.map (·.markIdle) } := by
  cases hstream : c.writeStream with
  | none =>
    have : { c with writeStream := none } = c := by rw [← hstream]
    rw [Option.map_none, this]
    exact ⟨h, .refl c⟩
  | some stream =>
    have hcoherent := h.coherent stream hstream
    refine ⟨⟨h.store, h.user, h.delegate, h.pipeline, h.bound, (fun hn => by cases hn), fun stream' hm => ?_⟩,
      ⟨⟨?_, ?_, .nothing rfl ?_, rfl, rfl⟩, rfl⟩⟩
    · obtain rfl : stream.markIdle = stream' := Option.some.inj hm
      exact hcoherent.markIdle hp
    · rw [hstream, Option.map_some, Option.map_some, Option.map_some, WriteStream.markIdle_number]
    · intro u hu
      rw [Option.map_some, Option.bind_some, WriteStream.markIdle_user] at hu
      rw [hstream]
      exact hu
    · rw [isAuth, isAuth, hstream]
      exact WriteStream.markIdle_isAuth stream

theorem fill_eq : ∀ (n : Nat) {c : Client K σ C}, c.Ready → c.writeStream.isSome = true →
    kMaxPendingWrites < n + c.writePipeline.length →
    ∃ c', fill n ((c.writePipeline.getLast?.map (·.batchID)).getD batchIDUnknown) c = .ok c' ∧ c'.Ready ∧ Tends c c' ∧
      c'.writePipeline = c.localStore.pending.take kMaxPendingWrites
  | 0, c, h, _, hn => by
    have := h.bound
    omega
  | n + 1, c, h, hsome, hn => by
    unfold fill
    by_cases hadd : c.canAddToWritePipeline = true
    · rw [if_pos hadd]
      have hlt : c.writePipeline.length < kMaxPendingWrites := by
        unfold canAddToWritePipeline at hadd
        simpa [hsome] using hadd
      obtain ⟨rest, hrest⟩ := h.pipeline
      have hnext := h.store.split.next hrest.symm
      unfold LocalStore.nextMutationBatchAfterBatchID
      rw [hnext]
      cases rest with
      | nil =>
        rw [List.append_nil] at hrest
        have hall : c.writePipeline = c.localStore.pending.take kMaxPendingWrites := by
          rw [← hrest, List.take_of_length_le (Nat.le_of_lt hlt)]
        by_cases he : c.writePipeline.isEmpty = true
        · obtain ⟨hready, htends⟩ := markIdle_ready h (List.isEmpty_iff.mp he)
          exact ⟨_, by rw [List.head?_nil, if_pos he], hready, htends, hall⟩
        · exact ⟨c, by rw [List.head?_nil, if_neg he], h, .refl c, hall⟩
      | cons batch rest =>
        obtain ⟨c₁, hrun, hready, htends, hp⟩ := addBatchToWritePipeline_eq h hadd hrest.symm
        have hlast : (c₁.writePipeline.getLast?.map (·.batchID)).getD batchIDUnknown = batch.batchID := by
          rw [hp, List.getLast?_concat]
          rfl
        have hstore : c₁.localStore = c.localStore := by rw [htends.only]
        have hsome₁ : c₁.writeStream.isSome = true := by
          rw [← Option.isSome_map (f := fun stream : WriteStream K σ => stream.number), htends.number, Option.isSome_map]
          exact hsome
        obtain ⟨c', hrun', hready', htends', hp'⟩ := fill_eq n hready hsome₁ (by rw [hp, List.length_append]; simp; omega)
        rw [hlast] at hrun'
        refine ⟨c', ?_, hready', htends.trans htends', hstore ▸ hp'⟩
        rw [List.head?_cons]
        dsimp only
        rw [hrun]
        exact hrun'
    · rw [if_neg hadd]
      have hlen : c.writePipeline.length = kMaxPendingWrites := by
        unfold canAddToWritePipeline at hadd
        simp [hsome] at hadd
        exact Nat.le_antisymm h.bound hadd
      exact ⟨c, rfl, h, .refl c, eq_take_of_isPrefix h.pipeline hlen⟩

/-! ## Valid clients -/

structure Valid (c : Client K σ C) : Prop extends Ready c where
  full : c.writeStream.isSome = true → c.writePipeline = c.localStore.pending.take kMaxPendingWrites
  served : c.shouldStartWriteStream = false

theorem fillWritePipeline_eq (h : c.Ready) : ∃ c', c.fillWritePipeline = .ok c' ∧ c'.Valid ∧ Tends c c' := by
  unfold fillWritePipeline
  dsimp only
  cases hstream : c.writeStream with
  | none =>
    have hfill : fill (kMaxPendingWrites + 1) ((c.writePipeline.getLast?.map (·.batchID)).getD batchIDUnknown) c =
        .ok c := by
      unfold fill canAddToWritePipeline
      rw [hstream]
      rfl
    have hshould : c.shouldStartWriteStream = false := by
      unfold shouldStartWriteStream
      rw [hstream]
    refine ⟨c, ?_, ⟨h, fun hs => ?_, hshould⟩, .refl c⟩
    · rw [hfill]
      show (if c.shouldStartWriteStream = true then _ else _) = _
      rw [hshould]
      rfl
    · rw [hstream] at hs
      cases hs
  | some stream =>
    have hsome : c.writeStream.isSome = true := by rw [hstream]; rfl
    obtain ⟨c₁, hfill, hready, htends, hp⟩ := fill_eq (kMaxPendingWrites + 1) h hsome (by omega)
    have hstore : c₁.localStore = c.localStore := by rw [htends.only]
    rw [hfill]
    show ∃ c', (if c₁.shouldStartWriteStream = true then c₁.startWriteStream else .ok c₁) = .ok c' ∧ _
    by_cases hshould : c₁.shouldStartWriteStream = true
    · obtain ⟨c', hrun, hready', htends', hp', hserved⟩ := startWriteStream_eq hready hshould
      have hstore' : c'.localStore = c₁.localStore := by rw [htends'.only]
      refine ⟨c', by rw [if_pos hshould, hrun], ⟨hready', fun _ => ?_, hserved⟩, htends.trans htends'⟩
      rw [hp', hp, hstore', hstore]
    · refine ⟨c₁, by rw [if_neg hshould], ⟨hready, fun _ => ?_, Bool.not_eq_true _ ▸ hshould⟩, htends⟩
      rw [hp, hstore]

end

end Client

end ShoppingList.Firestore
