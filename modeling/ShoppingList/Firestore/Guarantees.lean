import ShoppingList.Firestore.WorkerValid

/-!
# What the client guarantees

Whatever the app, the sign-in library, the backend and the timers do, in any
order, no assertion of the client fails. While it is online, the first ten
batches that wait are on their way. Each write of a user is settled once, in the
order they were handed over, and is sent with no token but his.
-/

namespace ShoppingList.Firestore

variable {K σ C : Type} [DecidableEq K] [DecidableEq σ]

namespace Worker

theorem steady_run {es : List (WorkerEvent K σ C)} {w : Worker K σ C}
    (ho : Runs.Along step (fun w e _ => w.Orderly e) {} es) (hr : Runs.run step {} es = some w) : w.Steady :=
  Runs.Along.invariant (fun _ _ _ h ho hs => (h.step ho hs).1) steady_empty ho hr

/-- A user signs in and writes three times. The first write is answered, the
second is sent, and the third waits on the worker queue. -/
def threeWrites : List (WorkerEvent Nat Nat Nat) :=
  [.restarted, .signedIn ['u'], .posted, .ran, .submitted (.writeMutations [.delete 1 .none] 7 0), .ran, .fetching 0,
    .fetched 0 none, .posted, .ran, .happened (.handleStreamMessage 0 []),
    .happened (.handleStreamMessage 5 [⟨some 5, none⟩]), .submitted (.writeMutations [.delete 2 .none] 8 1), .ran,
    .submitted (.writeMutations [.delete 3 .none] 9 2)]

theorem threeWrites_orderly : Runs.Along step (fun w e _ => w.Orderly e) {} threeWrites := by decide +kernel

/-- **No assertion fails.** -/
theorem never_fails (es : List (WorkerEvent K σ C)) (ho : Runs.Along step (fun w e _ => w.Orderly e) {} es) :
    Runs.Along step (fun _ _ w' => w'.running = true) {} es :=
  Runs.Along.conclude (fun _ _ _ h ho hs => (h.step ho hs).1) (fun _ _ _ h ho hs => (h.step ho hs).1.running)
    steady_empty ho

theorem never_fails_threeWrites : (Runs.run step {} threeWrites).isSome = true ∧
    Runs.Along step (fun _ _ w' => w'.running = true) {} threeWrites :=
  ⟨by decide +kernel, never_fails threeWrites threeWrites_orderly⟩

/-- Something is to come that lets the stream go on. -/
def Moving (w : Worker K σ C) (stream : WriteStream K σ) : Prop :=
  stream.isOpen = true ∨ stream.isBackingOff = true ∨ stream.isAuth = true ∧ w.tokens.count stream.number = 1

omit [DecidableEq K] [DecidableEq σ] in
theorem Steady.moving {w : Worker K σ C} (h : w.Steady) {stream : WriteStream K σ}
    (hstream : w.client.writeStream = some stream) (hp : w.client.writePipeline ≠ []) : w.Moving stream := by
  have hserved := h.client.served
  unfold Client.shouldStartWriteStream at hserved
  rw [hstream] at hserved
  dsimp only at hserved
  have hempty : w.client.writePipeline.isEmpty = false := by
    rw [List.isEmpty_eq_false_iff]
    exact hp
  rw [hempty, Bool.not_false, Bool.and_true, Bool.not_eq_false'] at hserved
  unfold Moving WriteStream.isOpen WriteStream.isBackingOff
  unfold WriteStream.isStarted at hserved
  cases hstate : stream.state with
  | initial | error =>
    rw [hstate] at hserved
    cases hserved
  | «open» connection => exact Or.inl rfl
  | backoff => exact Or.inr (Or.inl rfl)
  | auth =>
    have hauth : stream.isAuth = true := by rw [WriteStream.isAuth, hstate]
    refine Or.inr (Or.inr ⟨hauth, ?_⟩)
    have hasked := h.asked stream.number (by rw [number, hstream]; rfl)
    rw [hasked, Client.isAuth, hstream, Option.any_some, if_pos hauth]

/-- **The first ten batches are on their way.** -/
theorem first_ten_sent {es : List (WorkerEvent K σ C)} {w : Worker K σ C} {stream : WriteStream K σ}
    (ho : Runs.Along step (fun w e _ => w.Orderly e) {} es) (hr : Runs.run step {} es = some w)
    (hstream : w.client.writeStream = some stream) :
    let first := (w.client.waiting w.client.currentUser).take kMaxPendingWrites
    w.client.writePipeline = first ∧ (first ≠ [] → w.Moving stream) ∧
      ∀ connection, stream.state = .open connection →
        connection.writes = if stream.handshakeComplete then first.map MutationBatch.mutations else [] := by
  intro first
  have h := steady_run ho hr
  have hfirst : w.client.writePipeline = first := by
    rw [h.client.full (by rw [hstream]; rfl), ← h.client.waiting]
  refine ⟨hfirst, fun hne => h.moving hstream (hfirst ▸ hne), fun connection hstate => ?_⟩
  have hcoherent := h.client.coherent stream hstream
  unfold WriteStream.Coherent at hcoherent
  rw [hstate, hfirst] at hcoherent
  dsimp only at hcoherent
  by_cases hhandshake : stream.handshakeComplete = true
  · rw [if_pos hhandshake] at hcoherent ⊢
    exact hcoherent.1
  · rw [if_neg hhandshake] at hcoherent ⊢
    exact hcoherent.1

theorem first_ten_sent_threeWrites : ∃ w stream, Runs.run step {} threeWrites = some w ∧
    w.client.writeStream = some stream ∧
      w.client.writePipeline = (w.client.waiting w.client.currentUser).take kMaxPendingWrites := by
  obtain ⟨w, hw, hsome⟩ : ∃ w, Runs.run step {} threeWrites = some w ∧ w.client.writeStream.isSome = true := by
    decide +kernel
  obtain ⟨stream, hstream⟩ := Option.isSome_iff_exists.mp hsome
  exact ⟨w, stream, hw, hstream, (first_ten_sent threeWrites_orderly hw hstream).1⟩

/-! ## Histories -/

/-- A write the app handed over. It is lost when the process ends before the
worker queue has come to it. -/
structure Handed (K σ : Type) where
  write : List (Mutation K σ)
  lost : Bool := false

namespace Handed

/-- The writes that were not lost. -/
def kept (handed : List (Handed K σ)) : List (List (Mutation K σ)) :=
  (handed.filter fun h => !h.lost).map (·.write)

/-- Writes that were just handed over. -/
def fresh (writes : List (List (Mutation K σ))) : List (Handed K σ) := writes.map fun write => { write }

def loseLast (n : Nat) (handed : List (Handed K σ)) : List (Handed K σ) :=
  handed.take (handed.length - n) ++ (handed.drop (handed.length - n)).map fun h => { h with lost := true }

omit [DecidableEq K] [DecidableEq σ]

theorem kept_append (handed rest : List (Handed K σ)) : kept (handed ++ rest) = kept handed ++ kept rest := by
  unfold kept
  rw [List.filter_append, List.map_append]

theorem fresh_append (writes rest : List (List (Mutation K σ))) :
    fresh (writes ++ rest) = fresh writes ++ fresh rest := List.map_append

theorem kept_fresh (writes : List (List (Mutation K σ))) : kept (fresh writes) = writes := by
  unfold kept fresh
  rw [List.filter_eq_self.mpr fun h hm => by obtain ⟨write, -, rfl⟩ := List.mem_map.mp hm; rfl, List.map_map]
  exact List.map_id' writes

theorem loseLast_append (handed rest : List (Handed K σ)) :
    loseLast rest.length (handed ++ rest) = handed ++ rest.map fun h => { h with lost := true } := by
  unfold loseLast
  rw [List.length_append, Nat.add_sub_cancel, List.take_left, List.drop_left]

theorem kept_lost (handed : List (Handed K σ)) : kept (handed.map fun h => { h with lost := true }) = [] := by
  unfold kept
  rw [List.filter_eq_nil_iff.mpr fun h hm => by obtain ⟨_, -, rfl⟩ := List.mem_map.mp hm; exact Bool.false_ne_true]
  rfl

end Handed

/-- All that the app handed over, by the user it is filed under, and what became of it. -/
structure History (K σ C : Type) where
  submitted : UserId → List (Handed K σ) := fun _ => []
  log : Outbox.Log UserId (List (Mutation K σ)) C ErrorCode := {}

/-- The writes of `user` among the tasks, when `current` is the user before them. -/
def queuedFor (user current : UserId) : List (Task K σ C) → List (List (Mutation K σ))
  | [] => []
  | .writeMutations mutations _ _ :: tasks =>
    if current = user then mutations :: queuedFor user current tasks else queuedFor user current tasks
  | .credentialDidChange user' :: tasks => queuedFor user user' tasks
  | _ :: tasks => queuedFor user current tasks

/-- A write is filed under the user whom the client was told of last. Those that
wait on the worker queue are lost when the process ends. -/
def submit (w : Worker K σ C) (submitted : UserId → List (Handed K σ)) :
    WorkerEvent K σ C → UserId → List (Handed K σ)
  | .submitted (.writeMutations mutations _ _) =>
    let user := w.client.credentials.currentUser
    Function.update submitted user (submitted user ++ [{ write := mutations }])
  | .restarted => fun user =>
    Handed.loseLast (queuedFor user w.client.currentUser w.tasks).length (submitted user)
  | _ => submitted

def note (w : Worker K σ C) (e : WorkerEvent K σ C) (_ : Worker K σ C) (h : History K σ C) : History K σ C where
  submitted := w.submit h.submitted e
  log := (w.op e).elim h.log (h.log.note w.client.outbox)

omit [DecidableEq K] [DecidableEq σ] in
theorem queuedFor_cons (user current : UserId) (task : Task K σ C) (tasks : List (Task K σ C)) :
    queuedFor user current (task :: tasks) =
      queuedFor user current [task] ++ queuedFor user (task.follow current) tasks := by
  cases task with
  | writeMutations mutations completion localWriteTime =>
    show (if current = user then _ else _) = (if current = user then [mutations] else []) ++ queuedFor user current tasks
    by_cases hu : current = user
    · rw [if_pos hu, if_pos hu]
      rfl
    · rw [if_neg hu, if_neg hu]
      rfl
  | _ => rfl

omit [DecidableEq K] [DecidableEq σ] in
theorem queuedFor_append (user : UserId) (task : Task K σ C) (tasks : List (Task K σ C)) (current : UserId) :
    queuedFor user current (tasks ++ [task]) =
      queuedFor user current tasks ++ queuedFor user (tasks.foldl Task.follow current) [task] := by
  induction tasks generalizing current with
  | nil => rfl
  | cons t tasks ih =>
    rw [List.cons_append, queuedFor_cons, ih, queuedFor_cons user current t tasks, List.append_assoc]
    rfl

/-- The log agrees with the client, and what was handed over was made, or lost, or
waits on the worker queue. -/
structure Recorded (w : Worker K σ C) (h : History K σ C) : Prop where
  kept : Outbox.Kept w.client.outbox h.log
  submitted : ∀ user, ∃ older, Handed.kept older = (h.log.made user).map Prod.fst ∧
    h.submitted user = older ++ Handed.fresh (queuedFor user w.client.currentUser w.tasks)

omit [DecidableEq K] [DecidableEq σ] in
theorem recorded_empty : Recorded ({} : Worker K σ C) {} := ⟨.initial [], fun _ => ⟨[], rfl, rfl⟩⟩

section
variable {w w' : Worker K σ C} {h : History K σ C}

omit [DecidableEq K] [DecidableEq σ] in
theorem Recorded.kept_note (hr : w.Recorded h) {op : Option (Outbox.Op UserId (List (Mutation K σ)) C ErrorCode)}
    {c' : Client K σ C} (hd : w.client.outbox.Does op c'.outbox) :
    Outbox.Kept c'.outbox (op.elim h.log (h.log.note w.client.outbox)) := by
  cases op with
  | none =>
    rw [Outbox.Does] at hd
    exact hd ▸ hr.kept
  | some op => exact hr.kept.step hd

omit [DecidableEq K] [DecidableEq σ] in
/-- A task of the client, and the outbox step that it is. -/
theorem op_eq (c : Client K σ C) (task : Task K σ C) :
    ((c.op task).elim c.currentUser fun op => op.follow c.currentUser) = task.follow c.currentUser ∧
    ∀ user, ((c.op task).elim [] fun op => op.madeFor c.currentUser user) = queuedFor user c.currentUser [task] := by
  cases task with
  | handleStreamMessage commitVersion results =>
    unfold Client.op
    dsimp only
    split
    · exact ⟨rfl, fun _ => rfl⟩
    · exact ⟨rfl, fun _ => rfl⟩
  | handleStreamClose error =>
    unfold Client.op
    dsimp only
    cases c.writeStream with
    | none => exact ⟨rfl, fun _ => rfl⟩
    | some stream =>
      rw [Option.bind_some]
      split
      · exact ⟨rfl, fun _ => rfl⟩
      · exact ⟨rfl, fun _ => rfl⟩
  | _ => exact ⟨rfl, fun _ => rfl⟩

omit [DecidableEq K] [DecidableEq σ] in
theorem performed {task : Task K σ C} {c' : Client K σ C}
    (hd : w.client.outbox.Does (w.client.op task) c'.outbox) :
    c'.currentUser = task.follow w.client.currentUser ∧ ∀ user,
      ((((w.client.op task).elim h.log (h.log.note w.client.outbox)).made user).map Prod.fst) =
        (h.log.made user).map Prod.fst ++ queuedFor user w.client.currentUser [task] := by
  obtain ⟨huser, hmade⟩ := op_eq w.client task
  rw [← huser]
  cases hop : w.client.op task with
  | none =>
    rw [hop] at hd hmade
    refine ⟨congrArg Outbox.user hd, fun user => ?_⟩
    rw [← hmade user]
    exact (List.append_nil _).symm
  | some op =>
    rw [hop] at hd hmade
    refine ⟨Outbox.step_user hd, fun user => ?_⟩
    rw [← hmade user]
    exact h.log.made_note w.client.outbox op user

omit [DecidableEq K] [DecidableEq σ] in
/-- A task that is performed, and those that are left. -/
theorem Recorded.perform (hr : w.Recorded h) {task : Task K σ C} {tasks : List (Task K σ C)} {c' : Client K σ C}
    (hd : w.client.outbox.Does (w.client.op task) c'.outbox)
    (hq : ∀ user, queuedFor user w.client.currentUser w.tasks =
      queuedFor user w.client.currentUser [task] ++ queuedFor user (task.follow w.client.currentUser) tasks)
    (user : UserId) : ∃ older,
      Handed.kept older =
        (((w.client.op task).elim h.log (h.log.note w.client.outbox)).made user).map Prod.fst ∧
      h.submitted user = older ++ Handed.fresh (queuedFor user c'.currentUser tasks) := by
  obtain ⟨older, hkept, hsubmitted⟩ := hr.submitted user
  obtain ⟨hu, hmade⟩ := performed (h := h) hd
  refine ⟨older ++ Handed.fresh (queuedFor user w.client.currentUser [task]), ?_, ?_⟩
  · rw [Handed.kept_append, Handed.kept_fresh, hkept, hmade]
  · rw [hsubmitted, hq, hu, Handed.fresh_append, List.append_assoc]

theorem Recorded.step (hr : w.Recorded h) (hw : w.Steady) {e : WorkerEvent K σ C} (ho : w.Orderly e)
    (hs : w.step e = some w') : w'.Recorded (w.note e w' h) := by
  refine ⟨hr.kept_note (hw.step ho hs).2, fun user => ?_⟩
  have hdoes := (hw.step ho hs).2
  cases step_acts hs with
  | @submitted task ht =>
    obtain ⟨older, hkept, hsubmitted⟩ := hr.submitted user
    refine ⟨older, hkept, ?_⟩
    show w.submit h.submitted (.submitted task) user =
      older ++ Handed.fresh (queuedFor user w.client.currentUser (w.tasks ++ [task]))
    rw [queuedFor_append, hw.user, Handed.fresh_append, ← List.append_assoc, ← hsubmitted]
    cases task with
    | writeMutations mutations completion localWriteTime =>
      show Function.update h.submitted w.client.credentials.currentUser _ user =
        _ ++ Handed.fresh (if w.client.credentials.currentUser = user then [mutations] else [])
      by_cases hu : w.client.credentials.currentUser = user
      · subst hu
        rw [Function.update_self, if_pos rfl]
        rfl
      · rw [Function.update_of_ne (Ne.symm hu), if_neg hu]
        exact (List.append_nil _).symm
    | _ => exact (List.append_nil _).symm
  | @ran task tasks htasks =>
    obtain ⟨c', hrun, -, -⟩ := hw.ran htasks ho
    have hop : w.op .ran = w.client.op task := by
      unfold op
      rw [htasks]
      rfl
    rw [hrun] at hdoes ⊢
    show ∃ older, Handed.kept older = (((w.op .ran).elim h.log _).made user).map Prod.fst ∧ _
    rw [hop] at hdoes ⊢
    refine hr.perform hdoes (fun user => ?_) user
    rw [htasks, queuedFor_cons]
    rfl
  | @happened task hc =>
    obtain ⟨c', hrun, -, -⟩ := hw.happened hc ho
    rw [hrun] at hdoes ⊢
    refine hr.perform hdoes (fun user => ?_) user
    cases task with
    | writeMutations | credentialDidChange => cases hc
    | _ => rfl
  | signedIn | fetching | fetched => exact hr.submitted user
  | @posted p posts hposts =>
    obtain ⟨older, hkept, hsubmitted⟩ := hr.submitted user
    refine ⟨older, hkept, hsubmitted.trans ?_⟩
    cases p with
    | authStateDidChange user' | getTokenCallback request result =>
      show _ = older ++ Handed.fresh (queuedFor user w.client.currentUser (w.tasks ++ [_]))
      rw [queuedFor_append]
      exact congrArg (older ++ Handed.fresh ·) (List.append_nil _).symm
  | restarted =>
    obtain ⟨c', hrun, -, -⟩ := hw.restarted
    obtain ⟨older, hkept, hsubmitted⟩ := hr.submitted user
    rw [hrun]
    refine ⟨Handed.loseLast (queuedFor user w.client.currentUser w.tasks).length (h.submitted user), ?_, ?_⟩
    · show _ = ((h.log.note w.client.outbox (.restart w.authUser)).made user).map Prod.fst
      have hlost : Handed.loseLast (queuedFor user w.client.currentUser w.tasks).length (h.submitted user) =
          older ++ (Handed.fresh (queuedFor user w.client.currentUser w.tasks)).map
            fun h => { h with lost := true } := by
        rw [hsubmitted, ← Handed.loseLast_append, Handed.fresh, List.length_map]
      rw [hlost, Handed.kept_append, Handed.kept_lost, List.append_nil, hkept, h.log.made_note]
      exact (List.append_nil _).symm
    · exact (List.append_nil _).symm

/-- The state after a run with its history. -/
theorem recorded_run {es : List (WorkerEvent K σ C)} {p : Worker K σ C × History K σ C}
    (ho : Runs.Along step (fun w e _ => w.Orderly e) {} es)
    (hr : Runs.run (Runs.record step note) ({}, {}) es = some p) : p.1.Steady ∧ p.1.Recorded p.2 := by
  refine Runs.Along.invariant (I := fun p => p.1.Steady ∧ p.1.Recorded p.2) ?_ ⟨steady_empty, recorded_empty⟩
    (Runs.Along.record (g := note) (h := ({} : History K σ C)) ho) hr
  intro p e p' h ho hs
  obtain ⟨hs, hg⟩ := Runs.record_some.mp hs
  rw [hg]
  exact ⟨(h.1.step ho hs).1, h.2.step h.1 ho hs⟩

end

omit [DecidableEq K] [DecidableEq σ] in
theorem Recorded.settled {w : Worker K σ C} {h : History K σ C} (hr : w.Recorded h) (user : UserId) :
    Handed.kept (h.submitted user) = (h.log.settledOf user).map Prod.fst ++
      ((w.client.waiting user).map MutationBatch.mutations ++ queuedFor user w.client.currentUser w.tasks) := by
  have hwaiting : (w.client.outbox.waiting user).map Prod.fst = (w.client.waiting user).map MutationBatch.mutations := by
    show ((w.client.waiting user).map _).map Prod.fst = _
    rw [List.map_map]
    rfl
  obtain ⟨older, hkept, hsubmitted⟩ := hr.submitted user
  rw [hsubmitted, Handed.kept_append, Handed.kept_fresh, hkept, hr.kept.exact, List.map_append, hwaiting,
    List.append_assoc]

/-- **A write is sent with no token but its user's**, behind those that are settled,
in the order of those that were not lost. -/
theorem sent_by_owner {es : List (WorkerEvent K σ C)} {w : Worker K σ C} {h : History K σ C} {stream : WriteStream K σ}
    {connection : Connection K σ} (ho : Runs.Along step (fun w e _ => w.Orderly e) {} es)
    (hr : Runs.run (Runs.record step note) ({}, {}) es = some (w, h)) (hstream : w.client.writeStream = some stream)
    (hstate : stream.state = .open connection) :
    (h.log.settledOf connection.user).map Prod.fst ++ connection.writes <+:
      Handed.kept (h.submitted connection.user) := by
  obtain ⟨hsteady, hrecorded⟩ := recorded_run ho hr
  have huser : connection.user = w.client.currentUser := by
    apply hsteady.connection
    rw [hstream, Option.bind_some, WriteStream.user, hstate]
  have hcoherent := hsteady.client.coherent stream hstream
  unfold WriteStream.Coherent at hcoherent
  rw [hstate] at hcoherent
  dsimp only at hcoherent
  have hwrites : connection.writes <+: (w.client.waiting connection.user).map MutationBatch.mutations := by
    rw [huser, hsteady.client.waiting]
    by_cases hhandshake : stream.handshakeComplete = true
    · rw [if_pos hhandshake] at hcoherent
      rw [hcoherent.1]
      exact hsteady.client.pipeline.map _
    · rw [if_neg hhandshake] at hcoherent
      rw [hcoherent.1]
      exact List.nil_prefix
  rw [hrecorded.settled, List.prefix_append_right_inj]
  exact hwrites.trans (List.prefix_append ..)

theorem sent_by_owner_threeWrites : ∃ w h stream connection,
    Runs.run (Runs.record step note) ({}, {}) threeWrites = some (w, h) ∧ w.client.writeStream = some stream ∧
      stream.state = .open connection ∧
        (h.log.settledOf connection.user).map Prod.fst ++ connection.writes <+:
      Handed.kept (h.submitted connection.user) := by
  obtain ⟨p, hp, hopen⟩ : ∃ p, Runs.run (Runs.record step note) ({}, {}) threeWrites = some p ∧
      p.1.client.writeStream.any WriteStream.isOpen = true := by decide +kernel
  obtain ⟨stream, connection, hstream, hstate⟩ := Client.open_of_any hopen
  exact ⟨p.1, p.2, stream, connection, hp, hstream, hstate, sent_by_owner threeWrites_orderly hp hstream hstate⟩

end Worker

end ShoppingList.Firestore
