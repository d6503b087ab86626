import ShoppingList.Firestore.Tokens

/-!
# What holds in every run

No task fails on a valid client, and each is one step of the outbox or none. The
client stays valid and the tokens in their places through everything that the
app, the sign-in library, the backend and the timers do.
-/

namespace ShoppingList.Firestore

variable {K σ C : Type}

/-! ## Tasks of a valid client -/

/-- When a task can come. Users and tokens are apart. -/
def Client.Allows (c : Client K σ C) : Task K σ C → Prop
  | .credentialDidChange _ | .resumeStartWithToken .. => False
  | task => (task.isRequest = true ∨ c.canHappen task = true) ∧ c.Expects task

theorem Connection.Answers.first {connection : Connection K σ} {results : List (MutationResult σ)}
    (h : connection.Answers results) :
    ∃ mutations writes, connection.writes = mutations :: writes ∧ List.Forall₂ Mutation.Fits mutations results := by
  unfold Connection.Answers at h
  cases hwrites : connection.writes with
  | nil =>
    rw [hwrites] at h
    exact h.elim
  | cons mutations writes =>
    rw [hwrites] at h
    exact ⟨mutations, writes, rfl, h⟩

section
variable [DecidableEq K] [DecidableEq σ] {c : Client K σ C}

omit [DecidableEq K] [DecidableEq σ] in
theorem Client.open_of_any (h : c.writeStream.any WriteStream.isOpen = true) :
    ∃ stream connection, c.writeStream = some stream ∧ stream.state = .open connection := by
  cases hstream : c.writeStream with
  | none =>
    rw [hstream] at h
    cases h
  | some stream =>
    rw [hstream, Option.any_some] at h
    unfold WriteStream.isOpen at h
    cases hstate : stream.state with
    | «open» connection => exact ⟨stream, connection, rfl, hstate⟩
    | initial | auth | error | backoff =>
      rw [hstate] at h
      cases h

theorem Client.Valid.perform (h : c.Valid) {task : Task K σ C} (ha : c.Allows task) :
    ∃ c', c.perform task = .ok c' ∧ c'.Valid ∧ c.outbox.Does (c.op task) c'.outbox ∧
      (Client.Attends c c' ∨ Client.Replaces c c' ∧ c'.currentUser = c.currentUser) := by
  cases task with
  | writeMutations mutations completion localWriteTime =>
    obtain ⟨c', hrun, hv, hattends, hstep⟩ := h.writeMutations mutations completion localWriteTime
    exact ⟨c', hrun, hv, hstep, Or.inl hattends⟩
  | enableNetwork =>
    cases hstream : c.writeStream with
    | none =>
      obtain ⟨c', hrun, hv, ho, hreplaces, hu⟩ := h.toReady.enableNetwork hstream
      exact ⟨c', hrun, hv, ho, Or.inr ⟨hreplaces, hu⟩⟩
    | some stream =>
      refine ⟨c, ?_, h, rfl, Or.inl (.refl c)⟩
      unfold Client.perform Client.enableNetwork
      dsimp only
      rw [hstream]
      rfl
  | disableNetwork =>
    obtain ⟨c', hrun, hv, ho, hreplaces, hu⟩ := h.disableNetwork
    exact ⟨c', hrun, hv, ho, Or.inr ⟨hreplaces, hu⟩⟩
  | credentialDidChange user => exact ha.elim
  | resumeStartWithToken number result => exact ha.elim
  | resumeStartFromBackoff =>
    have hany : c.writeStream.any WriteStream.isBackingOff = true := ha.1.resolve_left Bool.false_ne_true
    cases hstream : c.writeStream with
    | none =>
      rw [hstream] at hany
      cases hany
    | some stream =>
      rw [hstream, Option.any_some] at hany
      unfold WriteStream.isBackingOff at hany
      cases hstate : stream.state with
      | backoff =>
        obtain ⟨c', hrun, hv, hattends, ho⟩ := h.resumeStartFromBackoff hstream hstate
        exact ⟨c', hrun, hv, ho, Or.inl hattends⟩
      | initial | auth | error | «open» =>
        rw [hstate] at hany
        cases hany
  | handleStreamMessage commitVersion results =>
    obtain ⟨hopen, hanswers⟩ := ha
    obtain ⟨stream, connection, hstream, hstate⟩ := Client.open_of_any (hopen.resolve_left Bool.false_ne_true)
    have hanswer : stream.Answers results := hanswers stream hstream
    unfold WriteStream.Answers at hanswer
    rw [hstate] at hanswer
    by_cases hhandshake : stream.handshakeComplete = true
    · obtain ⟨mutations, writes, hwrites, hfits⟩ := (hanswer hhandshake).first
      obtain ⟨c', hrun, hv, hattends, hstep, -⟩ :=
        h.receiveResponse hstream hstate hhandshake hwrites hfits commitVersion
      refine ⟨c', hrun, hv, ?_, Or.inl hattends⟩
      unfold Client.op
      dsimp only
      rw [hstream, Option.any_some, if_pos hhandshake]
      exact hstep
    · obtain ⟨c', hrun, hv, hattends, ho, -⟩ := h.completeHandshake hstream hstate hhandshake commitVersion results
      refine ⟨c', hrun, hv, ?_, Or.inl hattends⟩
      unfold Client.op
      dsimp only
      rw [hstream, Option.any_some, if_neg hhandshake]
      exact ho
  | handleStreamClose error =>
    obtain ⟨stream, connection, hstream, hstate⟩ := Client.open_of_any (ha.1.resolve_left Bool.false_ne_true)
    have hstarted : stream.isStarted = true := by rw [WriteStream.isStarted, hstate]
    obtain ⟨c', hrun, hv, hattends, hdoes⟩ := h.handleStreamClose hstream hstarted error
    have hclosed : Client.Attends c { c with writeStream := some stream.closeWithError } :=
      Client.attends_closed hstream (by rw [WriteStream.isAuth, hstate]) rfl rfl rfl
    refine ⟨c', hrun, hv, ?_, Or.inl (hclosed.trans hattends)⟩
    unfold Client.op
    dsimp only
    rw [hstream]
    exact hdoes
  | handleIdleCloseTimer =>
    obtain ⟨c', hrun, hv, hattends, ho⟩ := h.handleIdleCloseTimer
    exact ⟨c', hrun, hv, ho, Or.inl hattends⟩
  | allocateQuery targetID =>
    obtain ⟨c', hrun, hv, hattends, ho⟩ := h.allocateQuery ha.2
    exact ⟨c', hrun, hv, ho, Or.inl hattends⟩
  | releaseQuery targetID =>
    obtain ⟨c', hrun, hv, hattends, ho⟩ := h.releaseQuery ha.2
    exact ⟨c', hrun, hv, ho, Or.inl hattends⟩
  | applyRemoteEvent remoteEvent =>
    have hraised : c.canHappen (.applyRemoteEvent remoteEvent) = true := ha.1.resolve_left Bool.false_ne_true
    unfold Client.canHappen at hraised
    have hversion := (Bool.or_eq_true _ _ ▸ hraised).imp of_decide_eq_true of_decide_eq_true
    obtain ⟨c', hrun, hv, hattends, ho⟩ := h.applyRemoteEvent hversion
    exact ⟨c', hrun, hv, ho, Or.inl hattends⟩

end

namespace Worker

structure Steady (w : Worker K σ C) : Prop extends Tokens w where
  running : w.running = true
  client : w.client.Valid
  queued : ∀ task ∈ w.tasks, task.isQueued = true

theorem steady_empty : Steady ({} : Worker K σ C) :=
  ⟨tokens_empty [], rfl, Client.valid_empty, fun _ ht => by cases ht⟩

/-! ## Steps -/

section
variable [DecidableEq K] [DecidableEq σ] {w w' : Worker K σ C}

theorem Steady.happened (h : w.Steady) {task : Task K σ C} (hc : w.client.canHappen task = true)
    (ho : w.Orderly (.happened task)) : ∃ c', w.client.perform task = .ok c' ∧ Steady { w with client := c' } ∧
      w.client.outbox.Does (w.client.op task) c'.outbox := by
  have hallows : w.client.Allows task := by
    cases task with
    | credentialDidChange user => cases hc
    | resumeStartWithToken n result => cases hc
    | _ => exact ⟨Or.inr hc, ho⟩
  obtain ⟨c', hrun, hv, hdoes, ha | ⟨hr, hu⟩⟩ := h.client.perform hallows
  · exact ⟨c', hrun, ⟨h.attends h.user h.tokensOf rfl ha, h.running, hv, h.queued⟩, hdoes⟩
  · exact ⟨c', hrun, ⟨h.replaces (hu ▸ h.user) rfl hr, h.running, hv, h.queued⟩, hdoes⟩

theorem Steady.ran (h : w.Steady) {task : Task K σ C} {tasks : List (Task K σ C)} (htasks : w.tasks = task :: tasks)
    (ho : w.Orderly .ran) : ∃ c', w.client.perform task = .ok c' ∧ Steady { w with client := c', tasks } ∧
      w.client.outbox.Does (w.client.op task) c'.outbox := by
  have hqueued : ∀ t ∈ tasks, t.isQueued = true := fun t ht => h.queued t (htasks ▸ List.mem_cons_of_mem _ ht)
  have htask : task.isQueued = true := h.queued task (htasks ▸ List.mem_cons_self ..)
  have huser := htasks ▸ h.user
  have hof := htasks ▸ h.tokensOf
  have hplain : w.client.Allows task → task.follow w.client.currentUser = w.client.currentUser → task.token = none →
      TokensOf w.number w.client.currentUser tasks →
      ∃ c', w.client.perform task = .ok c' ∧ Steady { w with client := c', tasks } ∧
        w.client.outbox.Does (w.client.op task) c'.outbox := by
    intro hallows hfollow htoken hof
    have huser' : tasks.foldl Task.follow w.client.currentUser = w.client.credentials.currentUser := by
      rw [List.foldl_cons] at huser
      exact hfollow ▸ huser
    have htoken' : tasks.filterMap Task.token = w.tasks.filterMap Task.token := by
      rw [htasks, List.filterMap_cons_none htoken]
    obtain ⟨c', hrun, hv, hdoes, ha | ⟨hr, hu⟩⟩ := h.client.perform hallows
    · exact ⟨c', hrun, ⟨h.attends huser' hof htoken' ha, h.running, hv, hqueued⟩, hdoes⟩
    · exact ⟨c', hrun, ⟨h.replaces (hu ▸ huser') htoken' hr, h.running, hv, hqueued⟩, hdoes⟩
  have hexpects : w.client.Expects task := ho task (by rw [htasks]; rfl)
  cases task with
  | writeMutations | enableNetwork | disableNetwork | allocateQuery | releaseQuery =>
    exact hplain ⟨Or.inl rfl, hexpects⟩ rfl rfl hof
  | credentialDidChange user =>
    obtain ⟨c', hrun, hv, hstep, hr, hu⟩ := h.client.credentialDidChangeWithUser user
    have huser' : tasks.foldl Task.follow c'.currentUser = w.client.credentials.currentUser := hu.symm ▸ huser
    exact ⟨c', hrun, ⟨h.replaces huser' (by rw [htasks]; rfl) hr, h.running, hv, hqueued⟩, hstep⟩
  | resumeStartWithToken n result =>
    by_cases hn : w.number = some n
    · obtain ⟨stream, hstream, rfl, hstate⟩ := h.waits htasks hn
      obtain ⟨c', c₁, hrun, hv, houtbox, hr, ha⟩ := h.client.resumeStartWithToken hstream hstate result
      have htokens : Tokens { w with client := c₁, tasks } := h.resumes htasks hn hr
      have htokens' : Tokens { w with client := c', tasks } := htokens.attends htokens.user htokens.tokensOf rfl ha
      exact ⟨c', hrun, ⟨htokens', h.running, hv, hqueued⟩, houtbox⟩
    · refine ⟨w.client, ?_, ⟨h.dropped htasks hn, h.running, h.client, hqueued⟩, rfl⟩
      show w.client.resumeStartWithToken n result = .ok w.client
      unfold Client.resumeStartWithToken
      unfold number at hn
      cases hstream : w.client.writeStream with
      | none => rfl
      | some stream =>
        rw [hstream, Option.map_some] at hn
        dsimp only
        rw [if_neg fun he => hn (congrArg some he)]
        rfl
  | resumeStartFromBackoff | handleStreamMessage | handleStreamClose | handleIdleCloseTimer | applyRemoteEvent =>
    cases htask

omit [DecidableEq K] [DecidableEq σ] in
theorem Steady.submitted (h : w.Steady) {task : Task K σ C} (ht : task.isRequest = true) :
    Steady { w with tasks := w.tasks ++ [task] } := by
  have hfollow : ∀ user, task.follow user = user := by
    intro user
    cases task with
    | credentialDidChange user' => cases ht
    | _ => rfl
  have htoken : task.token = none := by
    cases task with
    | resumeStartWithToken n result => cases ht
    | _ => rfl
  have htokens : tokens { w with tasks := w.tasks ++ [task] } = w.tokens := by
    unfold tokens
    rw [List.filterMap_append, List.filterMap_cons_none htoken, List.filterMap_nil, List.append_nil]
  refine ⟨⟨?_, h.auth, h.honest, h.requests, ?_, h.connection, htokens ▸ h.old, h.current, htokens ▸ h.asked⟩,
    h.running, h.client, ?_⟩
  · rw [List.foldl_append, h.user]
    exact hfollow _
  · apply tokensOf_append h.tokensOf
    rintro n owner rfl
    cases htoken
  · intro t hm
    rcases List.mem_append.mp hm with hm | hm
    · exact h.queued t hm
    · rw [List.mem_singleton.mp hm]
      unfold Task.isQueued
      split
      · rfl
      · rfl
      · exact ht

omit [DecidableEq K] [DecidableEq σ] in
/-- The tokens that were asked for before are not good any more. -/
theorem Steady.signedIn (h : w.Steady) (user : UserId) :
    Steady { w with authUser := user, posts := w.posts ++ [.authStateDidChange user] } := by
  have hcount : (w.posts ++ [Post.authStateDidChange user]).foldl Post.follow w.provider =
      (user, (w.posts.foldl Post.follow w.provider).2 + 1) := by
    rw [List.foldl_append]
    rfl
  have htokens : tokens { w with authUser := user, posts := w.posts ++ [.authStateDidChange user] } = w.tokens := by
    unfold tokens
    rw [List.filterMap_append]
    simp [Post.token]
  refine ⟨⟨h.user, congrArg Prod.fst hcount, honestFrom_append.mpr ⟨h.honest, trivial⟩, fun request hr => ?_, h.tokensOf,
    h.connection, htokens ▸ h.old, h.current, htokens ▸ h.asked⟩, h.running, h.client, h.queued⟩
  obtain ⟨hle, -⟩ := h.requests request hr
  refine ⟨hle, fun owner _ he => ?_⟩
  have he' : request.initialTokenCounter = (w.posts.foldl Post.follow w.provider).2 + 1 :=
    he.trans (congrArg Prod.snd hcount)
  have hle' := Nat.le_trans hle (le_follow w.posts w.provider)
  exact absurd (he' ▸ hle') (Nat.not_succ_le_self _)

omit [DecidableEq K] [DecidableEq σ] in
theorem Steady.fetching (h : w.Steady) {i : Nat} {request : TokenRequest}
    (hi : w.client.credentials.requests[i]? = some request) :
    Steady (w.setRequests (w.client.credentials.requests.set i { request with fetched := some w.authUser })) := by
  have hmap : (w.client.credentials.requests.set i { request with fetched := some w.authUser }).map
      TokenRequest.stream = w.client.credentials.requests.map TokenRequest.stream := by
    obtain ⟨hlt, rfl⟩ := List.getElem?_eq_some_iff.mp hi
    rw [List.map_set]
    show List.set _ i (TokenRequest.stream w.client.credentials.requests[i]) = _
    rw [← List.getElem_map TokenRequest.stream (h := by rwa [List.length_map])]
    exact List.set_getElem_self _
  have htokens : tokens (w.setRequests (w.client.credentials.requests.set i { request with fetched := some w.authUser })) =
      w.tokens := by
    unfold tokens setRequests
    dsimp only
    rw [hmap]
  refine ⟨⟨h.user, h.auth, h.honest, fun r hr => ?_, h.tokensOf, h.connection, htokens ▸ h.old, h.current,
    htokens ▸ h.asked⟩, h.running, ⟨⟨h.client.store, h.client.toReady.user, h.client.delegate, h.client.pipeline, h.client.bound,
    h.client.offline, h.client.coherent⟩, h.client.full, h.client.served⟩, h.queued⟩
  rcases List.mem_or_eq_of_mem_set hr with hr | rfl
  · exact h.requests r hr
  · refine ⟨(h.requests request (List.mem_of_getElem? hi)).1, fun owner ho _ => ?_⟩
    exact (Option.some.inj ho).symm

omit [DecidableEq K] [DecidableEq σ] in
theorem Steady.fetched (h : w.Steady) {i : Nat} {request : TokenRequest} {owner : UserId}
    (hi : w.client.credentials.requests[i]? = some request) (ho : request.fetched = some owner)
    (error : Option ErrorCode) :
    Steady { w.setRequests (w.client.credentials.requests.eraseIdx i) with
      posts := w.posts ++ [.getTokenCallback request (error.elim (.ok owner) .error)] } := by
  have hperm := Lists.perm_cons_eraseIdx hi
  have htokens : w.tokens.Perm (tokens { w.setRequests (w.client.credentials.requests.eraseIdx i) with
      posts := w.posts ++ [.getTokenCallback request (error.elim (.ok owner) .error)] }) := by
    unfold tokens
    rw [List.filterMap_append]
    refine List.Perm.append_right _ ?_
    refine (List.Perm.append_right _ (hperm.map TokenRequest.stream)).trans ?_
    show (request.stream :: _ ++ _).Perm (_ ++ (_ ++ [request.stream]))
    rw [← List.append_assoc]
    exact (List.perm_append_singleton _ _).symm
  have hfollow : (w.posts ++ [Post.getTokenCallback request (error.elim (.ok owner) .error)]).foldl Post.follow w.provider =
      w.posts.foldl Post.follow w.provider := by
    rw [List.foldl_append]
    rfl
  refine ⟨⟨h.user, ?_, ?_, fun r hr => ?_, h.tokensOf, h.connection, fun n hn => h.old n (htokens.mem_iff.mpr hn),
    h.current, fun n hn => (htokens.count_eq n).symm.trans (h.asked n hn)⟩, h.running,
    ⟨⟨h.client.store, h.client.toReady.user, h.client.delegate, h.client.pipeline, h.client.bound, h.client.offline, h.client.coherent⟩,
      h.client.full, h.client.served⟩, h.queued⟩
  · exact (congrArg Prod.fst hfollow).trans h.auth
  · apply honestFrom_append.mpr
    refine ⟨h.honest, ?_⟩
    cases error with
    | some code => trivial
    | none =>
      intro he
      exact ((h.requests request (List.mem_of_getElem? hi)).2 owner ho he).trans h.auth.symm
  · obtain ⟨hle, howner⟩ := h.requests r (List.mem_of_mem_eraseIdx hr)
    exact ⟨hle, fun o hm he => howner o hm (he.trans (congrArg Prod.snd hfollow))⟩

omit [DecidableEq K] [DecidableEq σ] in
theorem Steady.posted (h : w.Steady) {p : Post} {posts : List Post} (hposts : w.posts = p :: posts) :
    Steady (post { w with posts } p) := by
  have hauth := hposts ▸ h.auth
  have hhonest := hposts ▸ h.honest
  have hrequests := hposts ▸ h.requests
  cases p with
  | authStateDidChange user =>
    have htokens : tokens (post { w with posts } (.authStateDidChange user)) = w.tokens := by
      unfold tokens post
      dsimp only
      rw [hposts, List.filterMap_append]
      show _ ++ _ ++ (List.filterMap Task.token w.tasks ++ []) = _
      rw [List.append_nil]
      rfl
    refine ⟨⟨?_, hauth, hhonest.2, fun r hr => ?_, ?_, h.connection, htokens ▸ h.old, h.current, htokens ▸ h.asked⟩,
      h.running, ⟨⟨h.client.store, h.client.toReady.user, h.client.delegate, h.client.pipeline, h.client.bound, h.client.offline,
        h.client.coherent⟩, h.client.full, h.client.served⟩, fun t hm => ?_⟩
    · show (w.tasks ++ [Task.credentialDidChange user]).foldl Task.follow w.client.currentUser = user
      rw [List.foldl_append]
      rfl
    · exact ⟨Nat.le_succ_of_le (hrequests r hr).1, (hrequests r hr).2⟩
    · apply tokensOf_append h.tokensOf
      intro n owner he
      cases he
    · rcases List.mem_append.mp hm with hm | hm
      · exact h.queued t hm
      · rw [List.mem_singleton.mp hm]
        rfl
  | getTokenCallback request result =>
    obtain ⟨result', hresult'⟩ : ∃ result', result' =
      if request.initialTokenCounter = w.client.credentials.tokenCounter then result else .error .aborted := ⟨_, rfl⟩
    have hpost : post { w with posts } (.getTokenCallback request result) =
        { w with posts, tasks := w.tasks ++ [.resumeStartWithToken request.stream result'] } := by rw [hresult']; rfl
    rw [hpost]
    have htokens : w.tokens.Perm
        (tokens { w with posts, tasks := w.tasks ++ [.resumeStartWithToken request.stream result'] }) := by
      unfold tokens
      rw [hposts, List.filterMap_append]
      show (_ ++ (request.stream :: _) ++ _).Perm (_ ++ (_ ++ [request.stream]))
      rw [← List.append_assoc]
      refine List.Perm.trans ?_ (List.perm_append_singleton _ _).symm
      exact List.Perm.append_right _ List.perm_middle
    refine ⟨⟨?_, hauth, hhonest.2, hrequests, ?_, h.connection, fun n hn => h.old n (htokens.mem_iff.mpr hn),
      h.current, fun n hn => (htokens.count_eq n).symm.trans (h.asked n hn)⟩, h.running, h.client, fun t hm => ?_⟩
    · show (w.tasks ++ [Task.resumeStartWithToken _ _]).foldl Task.follow w.client.currentUser = _
      rw [List.foldl_append, h.user]
      rfl
    · apply tokensOf_append h.tokensOf
      intro n owner he _
      obtain ⟨rfl, hok⟩ := Task.resumeStartWithToken.inj he
      rw [h.user]
      rw [hresult'] at hok
      by_cases hcounter : request.initialTokenCounter = w.client.credentials.tokenCounter
      · rw [if_pos hcounter] at hok
        rw [hok] at hhonest
        exact hhonest.1 hcounter
      · rw [if_neg hcounter] at hok
        cases hok
    · rcases List.mem_append.mp hm with hm | hm
      · exact h.queued t hm
      · rw [List.mem_singleton.mp hm]
        rfl

omit [DecidableEq σ] in
theorem Steady.restarted (h : w.Steady) : ∃ c', w.client.restart w.authUser = .ok c' ∧
    Steady { w with client := c', tasks := [], posts := [] } ∧
    w.client.outbox.step (.restart w.authUser) = some c'.outbox := by
  obtain ⟨c', hrun, hv, hstep, hr, hu⟩ := h.client.restart w.authUser
  refine ⟨c', hrun, ?_, hstep⟩
  have htokens : Tokens ({ client := c', authUser := w.authUser } : Worker K σ C) := 
    (tokens_empty w.authUser).replaces hu rfl ⟨hr.number, hr.user, hr.streams, hr.credentials⟩
  exact ⟨⟨htokens.user, htokens.auth, htokens.honest, htokens.requests, htokens.tokensOf, htokens.connection,
    htokens.old, htokens.current, htokens.asked⟩, h.running, hv, fun _ hm => by cases hm⟩

theorem Steady.step (h : w.Steady) {e : WorkerEvent K σ C} (ho : w.Orderly e) (hs : w.step e = some w') :
    w'.Steady ∧ w.client.outbox.Does (w.op e) w'.client.outbox := by
  cases step_acts hs with
  | submitted ht => exact ⟨h.submitted ht, rfl⟩
  | ran htasks =>
    obtain ⟨c', hrun, hsteady, hdoes⟩ := h.ran htasks ho
    rw [hrun]
    refine ⟨hsteady, ?_⟩
    unfold op
    rw [htasks]
    exact hdoes
  | happened hc =>
    obtain ⟨c', hrun, hsteady, hdoes⟩ := h.happened hc ho
    rw [hrun]
    exact ⟨hsteady, hdoes⟩
  | signedIn => exact ⟨h.signedIn _, rfl⟩
  | fetching hi => exact ⟨h.fetching hi, rfl⟩
  | fetched hi howner => exact ⟨h.fetched hi howner _, rfl⟩
  | @posted p posts hposts =>
    refine ⟨h.posted hposts, ?_⟩
    cases p with
    | authStateDidChange user => rfl
    | getTokenCallback request result => rfl
  | restarted =>
    obtain ⟨c', hrun, hsteady, hstep⟩ := h.restarted
    rw [hrun]
    refine ⟨?_, hstep⟩
    rw [h.running] at hsteady
    exact hsteady

end

end Worker

end ShoppingList.Firestore
