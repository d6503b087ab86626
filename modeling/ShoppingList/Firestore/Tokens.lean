import ShoppingList.Firestore.Worker

/-!
# Tokens

A stream that waits for a token has asked for exactly one, and the tokens for
other streams are for ones that were replaced. A token that is good belongs to
the user the client will have when it arrives, because both queues keep their
order. So a connection carries the token of the user whose writes it sends.
-/

namespace ShoppingList.Firestore

variable {K σ C : Type}

/-! ## On their way -/

def Task.token : Task K σ C → Option Nat
  | .resumeStartWithToken number _ => some number
  | _ => none

/-- The user after the task. -/
def Task.follow (user : UserId) : Task K σ C → UserId
  | .credentialDidChange user' => user'
  | _ => user

def Post.token : Post → Option Nat
  | .getTokenCallback request _ => some request.stream
  | .authStateDidChange _ => none

/-- The user and the count of changes after the post. -/
def Post.follow (s : UserId × Nat) : Post → UserId × Nat
  | .authStateDidChange user => (user, s.2 + 1)
  | .getTokenCallback .. => s

/-- Whose token it is, if it is taken to be good. -/
def Post.Honest (s : UserId × Nat) : Post → Prop
  | .getTokenCallback request (.ok owner) => request.initialTokenCounter = s.2 → owner = s.1
  | _ => True

def HonestFrom : UserId × Nat → List Post → Prop
  | _, [] => True
  | s, p :: posts => p.Honest s ∧ HonestFrom (p.follow s) posts

theorem honestFrom_append {p : Post} : ∀ {posts : List Post} {s : UserId × Nat},
    HonestFrom s (posts ++ [p]) ↔ HonestFrom s posts ∧ p.Honest (posts.foldl Post.follow s)
  | [], s => by simp [HonestFrom]
  | q :: posts, s => by
    rw [List.cons_append, HonestFrom, HonestFrom, honestFrom_append, List.foldl_cons, and_assoc]

/-- Until the user changes, the tokens for the stream are his. -/
def TokensOf (number : Option Nat) (user : UserId) : List (Task K σ C) → Prop
  | [] | .credentialDidChange _ :: _ => True
  | .resumeStartWithToken n (.ok owner) :: tasks => (number = some n → owner = user) ∧ TokensOf number user tasks
  | _ :: tasks => TokensOf number user tasks

theorem tokensOf_append {number : Option Nat} {task : Task K σ C} {user : UserId} : ∀ {tasks : List (Task K σ C)},
    TokensOf number user tasks → (∀ n owner, task = .resumeStartWithToken n (.ok owner) →
      number = some n → owner = tasks.foldl Task.follow user) →
    TokensOf number user (tasks ++ [task])
  | [], _, h => by
    cases task with
    | resumeStartWithToken n result =>
      cases result with
      | ok owner => exact ⟨h n owner rfl, trivial⟩
      | error code => trivial
    | _ => trivial
  | t :: tasks, ht, h => by
    have ih : TokensOf number user tasks → (∀ n owner, task = .resumeStartWithToken n (.ok owner) →
        number = some n → owner = tasks.foldl Task.follow user) → TokensOf number user (tasks ++ [task]) :=
      tokensOf_append
    cases t with
    | credentialDidChange user' => trivial
    | resumeStartWithToken n result =>
      cases result with
      | ok owner => exact ⟨ht.1, ih ht.2 h⟩
      | error code => exact ih ht h
    | _ => exact ih ht h

/-- No token on the queue is for the stream. -/
theorem tokensOf_of_ne {number : Option Nat} {user : UserId} : ∀ {tasks : List (Task K σ C)},
    (∀ n ∈ tasks.filterMap Task.token, number ≠ some n) → TokensOf number user tasks
  | [], _ => trivial
  | t :: tasks, h => by
    have ih : TokensOf number user tasks := by
      apply tokensOf_of_ne
      intro n hn
      apply h n
      rw [List.filterMap_cons]
      split
      · exact hn
      · exact List.mem_cons_of_mem _ hn
    cases t with
    | credentialDidChange user' => trivial
    | resumeStartWithToken n result =>
      cases result with
      | ok owner => exact ⟨fun he => absurd he (h n (by simp [Task.token])), ih⟩
      | error code => exact ih
    | _ => exact ih

theorem TokensOf.tail {number : Option Nat} {user : UserId} {n : Nat} {result : Except ErrorCode UserId}
    {tasks : List (Task K σ C)} (h : TokensOf number user (.resumeStartWithToken n result :: tasks)) : TokensOf number user tasks := by
  cases result with
  | ok owner => exact h.2
  | error code => exact h

theorem le_follow : ∀ (posts : List Post) (s : UserId × Nat), s.2 ≤ (posts.foldl Post.follow s).2
  | [], _ => Nat.le_refl _
  | p :: posts, s => by
    have hp : s.2 ≤ (p.follow s).2 := by
      cases p with
      | authStateDidChange user => exact Nat.le_succ _
      | getTokenCallback request result => exact Nat.le_refl _
    exact Nat.le_trans hp (le_follow posts (p.follow s))

namespace Worker

/-- The user and the count of his changes, as the client's credentials have them. -/
def provider (w : Worker K σ C) : UserId × Nat :=
  (w.client.credentials.currentUser, w.client.credentials.tokenCounter)

/-- The tokens that were asked for and have not arrived, by their streams. -/
def tokens (w : Worker K σ C) : List Nat :=
  w.client.credentials.requests.map TokenRequest.stream ++ w.posts.filterMap Post.token ++ w.tasks.filterMap Task.token

def number (w : Worker K σ C) : Option Nat := w.client.writeStream.map WriteStream.number

/-- Where the tokens are, and whose. -/
structure Tokens (w : Worker K σ C) : Prop where
  user : w.tasks.foldl Task.follow w.client.currentUser = w.client.credentials.currentUser
  auth : (w.posts.foldl Post.follow w.provider).1 = w.authUser
  honest : HonestFrom w.provider w.posts
  requests : ∀ request ∈ w.client.credentials.requests, request.initialTokenCounter ≤ w.client.credentials.tokenCounter ∧
    ∀ owner ∈ request.fetched,
      request.initialTokenCounter = (w.posts.foldl Post.follow w.provider).2 → owner = w.authUser
  tokensOf : TokensOf w.number w.client.currentUser w.tasks
  connection : ∀ user, w.client.writeStream.bind WriteStream.user = some user → user = w.client.currentUser
  old : ∀ n ∈ w.tokens, n < w.client.streams
  current : ∀ n, w.number = some n → n < w.client.streams
  asked : ∀ n, w.number = some n → w.tokens.count n = if w.client.isAuth then 1 else 0

theorem tokens_empty (user : UserId) : Tokens ({
    client := { credentials := { currentUser := user }, currentUser := user }
    authUser := user } : Worker K σ C) where
  user := rfl
  auth := rfl
  honest := trivial
  requests := fun _ hr => by cases hr
  tokensOf := trivial
  connection := fun _ hu => by cases hu
  old := fun _ hn => by cases hn
  current := fun _ hn => by cases hn
  asked := fun _ hn => by cases hn

section
variable {w : Worker K σ C} {c' : Client K σ C} {tasks : List (Task K σ C)}

/-- Tokens are asked for, for streams of the client. -/
theorem Tokens.asks (h : w.Tokens) {asked : List Nat}
    (hc : c'.credentials = { w.client.credentials with
      requests := w.client.credentials.requests ++ asked.map fun stream =>
        { stream, initialTokenCounter := w.client.credentials.tokenCounter } })
    (hu : tasks.foldl Task.follow c'.currentUser = w.client.credentials.currentUser)
    (ht : tasks.filterMap Task.token = w.tasks.filterMap Task.token)
    (ho : TokensOf (c'.writeStream.map WriteStream.number) c'.currentUser tasks)
    (hconnection : ∀ user, c'.writeStream.bind WriteStream.user = some user → user = c'.currentUser)
    (hstreams : w.client.streams ≤ c'.streams) (hasked : ∀ n ∈ asked, n < c'.streams)
    (hcurrent : ∀ n, c'.writeStream.map WriteStream.number = some n → n < c'.streams)
    (hcount : ∀ n, c'.writeStream.map WriteStream.number = some n →
      asked.count n + w.tokens.count n = if c'.isAuth then 1 else 0) :
    Tokens { w with client := c', tasks } := by
  have hprovider : provider { w with client := c', tasks } = w.provider := by
    unfold provider
    dsimp only
    rw [hc]
  have htokens : (tokens { w with client := c', tasks }).Perm (asked ++ w.tokens) := by
    have hstream : (asked.map fun stream =>
        ({ stream, initialTokenCounter := w.client.credentials.tokenCounter } : TokenRequest)).map TokenRequest.stream =
          asked := by
      rw [List.map_map]
      exact List.map_id asked
    unfold tokens
    rw [ht]
    dsimp only
    rw [hc, List.map_append, hstream, List.append_assoc, List.append_assoc, List.append_assoc]
    exact List.perm_append_comm_assoc _ _ _
  refine ⟨?_, ?_, ?_, ?_, ho, hconnection, ?_, hcurrent, ?_⟩
  · show tasks.foldl Task.follow c'.currentUser = c'.credentials.currentUser
    rw [hc]
    exact hu
  · rw [hprovider]
    exact h.auth
  · rw [hprovider]
    exact h.honest
  · rw [hprovider]
    intro request hmem
    have hmem' : request ∈ c'.credentials.requests := hmem
    show request.initialTokenCounter ≤ c'.credentials.tokenCounter ∧ _
    rw [hc] at hmem' ⊢
    rcases List.mem_append.mp hmem' with hold | hnew
    · exact h.requests request hold
    · obtain ⟨stream, -, rfl⟩ := List.mem_map.mp hnew
      exact ⟨Nat.le_refl _, fun owner ho => by cases ho⟩
  · intro n hn
    rcases List.mem_append.mp (htokens.mem_iff.mp hn) with hn | hn
    · exact hasked n hn
    · exact Nat.lt_of_lt_of_le (h.old n hn) hstreams
  · intro n hn
    rw [htokens.count_eq, List.count_append]
    exact hcount n hn

/-- The stream stays and may ask for a token. -/
theorem Tokens.attends (h : w.Tokens) (hu : tasks.foldl Task.follow w.client.currentUser = w.client.credentials.currentUser)
    (ho : TokensOf w.number w.client.currentUser tasks)
    (ht : tasks.filterMap Task.token = w.tasks.filterMap Task.token) (ha : Client.Attends w.client c') :
    Tokens { w with client := c', tasks } := by
  have hnumber : c'.writeStream.map WriteStream.number = w.number := ha.number
  have hcurrent : ∀ n, c'.writeStream.map WriteStream.number = some n → n < c'.streams := by
    intro n hn
    rw [ha.streams]
    exact h.current n (hnumber.symm.trans hn)
  obtain ⟨asked, hc, hasked, hcount⟩ : ∃ asked : List Nat,
      c'.credentials = { w.client.credentials with
        requests := w.client.credentials.requests ++ asked.map fun stream =>
          { stream, initialTokenCounter := w.client.credentials.tokenCounter } } ∧
      (∀ n ∈ asked, w.number = some n) ∧
      ∀ n, w.number = some n → asked.count n + w.tokens.count n = if c'.isAuth then 1 else 0 := by
    cases ha.asked with
    | nothing hr hauth =>
      refine ⟨[], ?_, nofun, fun n hn => ?_⟩
      · rw [hr, List.map_nil, List.append_nil]
      · rw [List.count_nil, Nat.zero_add, hauth]
        exact h.asked n hn
    | token m hnot hauth hm hr =>
      refine ⟨[m], hr, fun n hn => List.mem_singleton.mp hn ▸ hm, fun n hn => ?_⟩
      obtain rfl : m = n := Option.some.inj (hm.symm.trans hn)
      rw [List.count_singleton_self, h.asked m hn, hnot, hauth]
      rfl
  apply h.asks hc
  · rw [ha.currentUser]
    exact hu
  · exact ht
  · rw [hnumber, ha.currentUser]
    exact ho
  · intro user huser
    rw [ha.currentUser]
    exact h.connection user (ha.user user huser)
  · exact Nat.le_of_eq ha.streams.symm
  · exact fun n hn => hcurrent n (hnumber.trans (hasked n hn))
  · exact hcurrent
  · exact fun n hn => hcount n (hnumber.symm.trans hn)

/-- The tokens on their way are for streams that are gone. -/
theorem Tokens.replaces (h : w.Tokens) (hu : tasks.foldl Task.follow c'.currentUser = w.client.credentials.currentUser)
    (ht : tasks.filterMap Task.token = w.tasks.filterMap Task.token) (hr : Client.Replaces w.client c') :
    Tokens { w with client := c', tasks } := by
  have hnew : ∀ n, c'.writeStream.map WriteStream.number = some n → n = w.client.streams ∧ c'.streams = n + 1 := by
    intro n hn
    obtain ⟨stream, hstream, rfl⟩ := Option.map_eq_some_iff.mp hn
    have hstreams := hr.streams
    rw [hstream] at hstreams
    have hnumber := hr.number stream hstream
    exact ⟨hnumber, hnumber ▸ hstreams⟩
  have hauth : c'.isAuth = true → w.client.streams < c'.streams := by
    intro hauth
    cases hstream : c'.writeStream with
    | none =>
      unfold Client.isAuth at hauth
      rw [hstream] at hauth
      cases hauth
    | some stream =>
      rw [hr.streams, hstream]
      exact Nat.lt_succ_self _
  have hgone : w.tokens.count w.client.streams = 0 :=
    List.count_eq_zero.mpr fun hm => Nat.lt_irrefl _ (h.old _ hm)
  have hc : c'.credentials = { w.client.credentials with
      requests := w.client.credentials.requests ++ (if c'.isAuth then [w.client.streams] else []).map fun stream =>
        { stream, initialTokenCounter := w.client.credentials.tokenCounter } } := by
    rw [hr.credentials]
    by_cases ha : c'.isAuth = true
    · rw [if_pos ha, if_pos ha]
      rfl
    · rw [if_neg ha, if_neg ha, List.map_nil, List.append_nil]
  apply h.asks hc hu ht
  · apply tokensOf_of_ne
    intro n hn hnumber
    have hmem : n ∈ w.tokens := by
      rw [ht] at hn
      exact List.mem_append_right _ hn
    exact Nat.lt_irrefl _ ((hnew n hnumber).1 ▸ h.old n hmem)
  · intro user huser
    cases hr.user.symm.trans huser
  · rw [hr.streams]
    exact Nat.le_add_right _ _
  · intro n hn
    split at hn
    · rename_i ha
      rw [List.mem_singleton.mp hn]
      exact hauth ha
    · cases hn
  · intro n hn
    rw [(hnew n hn).2]
    exact Nat.lt_succ_self n
  · intro n hn
    rw [(hnew n hn).1, hgone]
    split
    · exact List.count_singleton_self
    · rfl

/-- A token leaves the queue. -/
theorem perm_tokens {n : Nat} {result : Except ErrorCode UserId}
    (htasks : w.tasks = .resumeStartWithToken n result :: tasks) : w.tokens.Perm (n :: tokens { w with tasks }) := by
  unfold tokens
  rw [htasks]
  exact List.perm_middle

/-- A token for a stream that is gone. -/
theorem Tokens.dropped (h : w.Tokens) {n : Nat} {result : Except ErrorCode UserId}
    (htasks : w.tasks = .resumeStartWithToken n result :: tasks) (hn : w.number ≠ some n) : Tokens { w with tasks } := by
  have hperm := perm_tokens htasks
  refine ⟨?_, h.auth, h.honest, h.requests, (htasks ▸ h.tokensOf).tail, h.connection, fun m hm => ?_, h.current,
    fun m hm => ?_⟩
  · rw [← h.user, htasks]
    rfl
  · exact h.old m (hperm.mem_iff.mpr (List.mem_cons_of_mem _ hm))
  · have hne : n ≠ m := by
      rintro rfl
      exact hn hm
    have hasked := h.asked m hm
    rw [hperm.count_eq, List.count_cons_of_ne hne] at hasked
    exact hasked

/-- The token the stream has waited for. -/
theorem Tokens.resumes (h : w.Tokens) {n : Nat} {result : Except ErrorCode UserId} {c₁ : Client K σ C}
    (htasks : w.tasks = .resumeStartWithToken n result :: tasks) (hn : w.number = some n)
    (hr : Client.Resumes w.client c₁ result.toOption) : Tokens { w with client := c₁, tasks } := by
  have hperm := perm_tokens htasks
  have hprovider : provider { w with client := c₁, tasks } = w.provider := by
    unfold provider
    dsimp only
    rw [hr.credentials]
  have hnumber : number { w with client := c₁, tasks } = w.number := hr.number
  have htokens : tokens { w with client := c₁, tasks } = tokens { w with tasks } := by
    unfold tokens
    dsimp only
    rw [hr.credentials]
  have hof := htasks ▸ h.tokensOf
  refine ⟨?_, ?_, ?_, ?_, ?_, fun user huser => ?_, fun m hm => ?_, fun m hm => ?_, fun m hm => ?_⟩
  · show tasks.foldl Task.follow c₁.currentUser = c₁.credentials.currentUser
    rw [hr.credentials, hr.currentUser, ← h.user, htasks]
    rfl
  · rw [hprovider]
    exact h.auth
  · rw [hprovider]
    exact h.honest
  · rw [hprovider]
    show ∀ request ∈ c₁.credentials.requests, _
    rw [hr.credentials]
    exact h.requests
  · rw [hnumber]
    show TokensOf w.number c₁.currentUser tasks
    rw [hr.currentUser]
    exact hof.tail
  · show user = c₁.currentUser
    rw [hr.currentUser]
    have howner := hr.user user huser
    cases result with
    | ok owner =>
      obtain rfl : owner = user := Option.some.inj howner
      exact hof.1 hn
    | error code => cases howner
  · show m < c₁.streams
    rw [hr.streams]
    rw [htokens] at hm
    exact h.old m (hperm.mem_iff.mpr (List.mem_cons_of_mem _ hm))
  · show m < c₁.streams
    rw [hr.streams]
    exact h.current m (hnumber ▸ hm)
  · have hm' : w.number = some m := hnumber ▸ hm
    obtain rfl : n = m := Option.some.inj (hn.symm.trans hm')
    have hasked := h.asked n hn
    rw [hperm.count_eq, List.count_cons_self] at hasked
    rw [htokens]
    show _ = if c₁.isAuth = true then 1 else 0
    rw [hr.auth]
    by_cases ha : w.client.isAuth = true
    · rw [if_pos ha] at hasked
      exact Nat.succ.inj hasked
    · rw [if_neg ha] at hasked
      cases hasked

/-- The stream that a token on the queue is for has waited for it. -/
theorem Tokens.waits (h : w.Tokens) {n : Nat} {result : Except ErrorCode UserId}
    (htasks : w.tasks = .resumeStartWithToken n result :: tasks) (hn : w.number = some n) :
    ∃ stream, w.client.writeStream = some stream ∧ stream.number = n ∧ stream.state = .auth := by
  have hasked := h.asked n hn
  rw [(perm_tokens htasks).count_eq, List.count_cons_self] at hasked
  obtain ⟨stream, hstream, hnumber⟩ := Option.map_eq_some_iff.mp hn
  refine ⟨stream, hstream, hnumber, ?_⟩
  have hauth : w.client.isAuth = true := by
    by_cases ha : w.client.isAuth = true
    · exact ha
    · rw [if_neg ha] at hasked
      cases hasked
  unfold Client.isAuth at hauth
  rw [hstream, Option.any_some] at hauth
  unfold WriteStream.isAuth at hauth
  cases hstate : stream.state with
  | auth => rfl
  | initial | «open» | error | backoff =>
    rw [hstate] at hauth
    cases hauth

end

end Worker

end ShoppingList.Firestore
