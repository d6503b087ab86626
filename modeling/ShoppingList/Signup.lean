import ShoppingList.Documents
import ShoppingList.Lib.Lists

/-!
# Signing up

Registration is two requests. `createUser` makes the account; its callback sends
`setData` for the document and opens the list without waiting for the outcome.
`World` takes the two as one step. Here each is a step of its own, and the app
can be stopped while one is under way.
-/

namespace ShoppingList

/-- The callback of `createUser` without error; `setData` is under way on return. -/
def createUserCompleted (uid : Uid) : App Unit := do
  modify fun c => { c with currentUser := some uid }
  showShoppingListView

theorem createUserCompleted_run (c : Client) (uid : Uid) : (createUserCompleted uid).run c = some ((), { c with
    currentUser := some uid
    loads := c.loads ++ [{ userID := uid }]
    animating := false
    group := c.group.forget }) := rfl

structure Requests where
  /-- Accounts made for the device, which it has not been told of. -/
  creating : List Uid := []
  /-- Users whose documents are on their way to Firestore. -/
  writing : List Uid := []
  deriving DecidableEq, Repr

def Requests.Pending (r : Requests) (uid : Uid) : Prop := uid ∈ r.creating ∨ uid ∈ r.writing

structure Signup where
  world : World := {}
  requests : DeviceId → Requests := fun _ => {}

inductive Signing where
  /-- An event other than a registration; `launch` forgets the requests of the last process. -/
  | event (e : Event)
  | createUser (uid : Uid) (made : Bool)
  | created (i : Nat)
  | written (i : Nat) (accepted : Bool)
  deriving DecidableEq, Repr

def Event.isRegister : Event → Bool
  | .register .. => true
  | _ => false

namespace Signup

def withServer (s : Signup) (server : Server) : World := { s.world with server }

def putRequests (s : Signup) (d : DeviceId) (r : Requests) : DeviceId → Requests :=
  Function.update s.requests d r

/-- The callback of `createUser` is taken to run with the user it has signed in. A
launch forgets a `setData` that is under way, though Firestore keeps it on the
device and may send it later. -/
def step (s : Signup) : DeviceId × Signing → Option Signup
  | (d, .event e) =>
    if e.isRegister then none
    else (s.world.step (d, e)).map fun w =>
      { world := w, requests := if e = .launch then s.putRequests d {} else s.requests }
  | (d, .createUser uid made) =>
    let r := s.requests d
    let server := s.world.server
    if (Event.register uid true).enabled (s.world.client d) then
      if made then some {
        world := s.withServer { server with accounts := uid :: server.accounts }
        requests := s.putRequests d { r with creating := r.creating ++ [uid] } }
      else some s
    else none
  | (d, .created i) =>
    let r := s.requests d
    match r.creating[i]? with
    | some uid =>
      if (s.world.device d).running then
        ((createUserCompleted uid).run (s.world.client d)).map fun p => {
          world := s.world.put d p.2
          requests := s.putRequests d { creating := r.creating.eraseIdx i, writing := r.writing ++ [uid] } }
      else none
    | none => none
  | (d, .written i accepted) =>
    let r := s.requests d
    match r.writing[i]? with
    | some uid => some {
        world := s.withServer (s.world.server.setData uid { items := [], name := uid } accepted)
        requests := s.putRequests d { r with writing := r.writing.eraseIdx i } }
    | none => none

inductive Advance (s : Signup) (d : DeviceId) : Signing → Signup → Prop
  | event {e : Event} {w : World} (hs : s.world.step (d, e) = some w) (hr : e.isRegister = false) :
    Advance s d (.event e) {
      world := w, requests := if e = .launch then s.putRequests d {} else s.requests }
  | refused {uid : Uid} : Advance s d (.createUser uid false) s
  | made {uid : Uid} : Advance s d (.createUser uid true) {
      world := s.withServer { s.world.server with accounts := uid :: s.world.server.accounts }
      requests := s.putRequests d { s.requests d with creating := (s.requests d).creating ++ [uid] } }
  | created {i : Nat} {uid : Uid} {c : Client} (hi : (s.requests d).creating[i]? = some uid)
    (hc : (createUserCompleted uid).run (s.world.client d) = some ((), c)) : Advance s d (.created i) {
      world := s.world.put d c
      requests := s.putRequests d {
        creating := (s.requests d).creating.eraseIdx i, writing := (s.requests d).writing ++ [uid] } }
  | written {i : Nat} {accepted : Bool} {uid : Uid} (hi : (s.requests d).writing[i]? = some uid) :
    Advance s d (.written i accepted) {
      world := s.withServer (s.world.server.setData uid { items := [], name := uid } accepted)
      requests := s.putRequests d { s.requests d with writing := (s.requests d).writing.eraseIdx i } }

theorem step_advance {s s' : Signup} {d : DeviceId} {e : Signing} (h : s.step (d, e) = some s') :
    Advance s d e s' := by
  cases e with
  | event e =>
    simp only [step] at h
    split at h
    · cases h
    · rename_i hr
      obtain ⟨w, hs, rfl⟩ := Option.map_eq_some_iff.mp h
      exact .event hs (Bool.eq_false_iff.mpr hr)
  | createUser uid made =>
    simp only [step] at h
    split at h
    · cases made with
      | false => cases h; exact .refused
      | true => cases h; exact .made
    · cases h
  | created i =>
    simp only [step] at h
    split at h
    · rename_i uid hi
      split at h
      · obtain ⟨⟨_, c⟩, hc, rfl⟩ := Option.map_eq_some_iff.mp h
        exact .created hi hc
      · cases h
    · cases h
  | written i accepted =>
    simp only [step] at h
    split at h
    · rename_i uid hi
      cases h
      exact .written hi
    · cases h

/-- A registration that nothing comes between is the `register` of `World`. -/
theorem uninterrupted (w w' : World) (d : DeviceId) (uid : Uid) (accepted : Bool)
    (h : w.step (d, .register uid accepted) = some w') :
    Runs.run step { world := w } [(d, .createUser uid true), (d, .created 0), (d, .written 0 accepted)] =
      some { world := w' } := by
  obtain ⟨hen, rfl⟩ := World.step_eq_some.mp h
  have hrunning : (w.device d).running = true := Event.running_of_enabled hen nofun
  have hen' : (Event.register uid true).enabled { toDevice := w.device d, server := w.server } = true := hen
  rw [Event.after_of_run (.register uid accepted) (register_run _ uid accepted)]
  simp [Runs.run, step, hen', hrunning, withServer, putRequests, World.put, World.client,
    createUserCompleted_run, Server.setData]

/-! ## Accounts and documents -/

/-- No `setData` is rejected, and the app is not stopped with a registration under way. -/
def Undisturbed (s : Signup) : DeviceId × Signing → Prop
  | (_, .written _ accepted) => accepted = true
  | (d, .event e) => e = .launch → s.requests d = {}
  | (_, .createUser ..) | (_, .created _) => True

instance (s : Signup) : DecidablePred s.Undisturbed
  | (_, .written _ accepted) => inferInstanceAs (Decidable (accepted = true))
  | (_, .event e) => inferInstanceAs (Decidable (e = .launch → _))
  | (_, .createUser ..) | (_, .created _) => .isTrue trivial

/-- Every account has its document, or a request that will write it. -/
structure Backed (s : Signup) : Prop where
  accounts : ∀ uid ∈ s.world.server.accounts, (s.world.server.users.lookup uid).isSome = true ∨
    ∃ d, (s.requests d).Pending uid
  creating : ∀ d, ∀ uid ∈ (s.requests d).creating, uid ∈ s.world.server.accounts
  signedIn : ∀ d uid, (s.world.device d).currentUser = some uid → uid ∈ s.world.server.accounts

end Signup

section
variable {c c' : Client} {e : Event}

theorem Outcome.accounts (h : Outcome c e c') (hr : e.isRegister = false) :
    c'.server.accounts = c.server.accounts := by
  cases h with
  | registered => cases hr
  | deleted => simp only [Server.updateData]; split <;> rfl
  | _ => rfl

theorem Outcome.signedIn (h : Outcome c e c') (hr : e.isRegister = false) {uid : Uid}
    (hu : c'.currentUser = some uid) : c.currentUser = some uid ∨ uid ∈ c.server.accounts := by
  cases h with
  | registered => cases hr
  | loggedIn _ ha =>
    rw [Option.some.injEq] at hu
    exact Or.inr (hu ▸ ha)
  | loggedOut => cases hu
  | _ => exact Or.inl hu

end

theorem lookup_isSome_updateItems {users : Collection Uid UserDoc} {uid : Uid}
    (h : (users.lookup uid).isSome = true) (uid' : Uid) (v : FieldValue) (accepted : Bool) :
    ((updateItems users uid' v accepted).lookup uid).isSome = true := by
  by_cases hu : uid = uid'
  · subst hu
    unfold updateItems
    split
    · rwa [Collection.lookup_update_self, Option.isSome_map]
    · exact h
  · rwa [lookup_updateItems_ne users uid' v hu]

theorem Effect.lookup_isSome {users : Collection Uid UserDoc} {uid : Uid} (h : (users.lookup uid).isSome = true)
    (items : List Item) : ∀ eff : Effect, ((eff.collection items users).lookup uid).isSome = true
  | .create uid' => by
    by_cases hu : uid = uid'
    · subst hu
      rw [Effect.collection, AList.lookup_insert]
      rfl
    · rwa [Effect.collection, AList.lookup_insert_ne hu]
  | .put .. | .remove .. => lookup_isSome_updateItems h ..
  | .keep | .clear | .append .. => h

namespace Signup

theorem backed_empty : Backed {} := ⟨nofun, nofun, nofun⟩

section
variable {s s' : Signup} {d : DeviceId}

theorem pending_self {r : Requests} {uid : Uid} (h : r.Pending uid) :
    ∃ d', (s.putRequests d r d').Pending uid :=
  (Function.exists_update_iff s.requests fun _ r => r.Pending uid).mpr (Or.inl h)

theorem pending_put {r : Requests} {uid : Uid} (h : ∃ d', (s.requests d').Pending uid)
    (hr : (s.requests d).Pending uid → r.Pending uid) : ∃ d', (s.putRequests d r d').Pending uid := by
  obtain ⟨d', hp⟩ := h
  refine (Function.exists_update_iff s.requests fun _ r => r.Pending uid).mpr ?_
  by_cases hd : d' = d
  · exact Or.inl (hr (hd ▸ hp))
  · exact Or.inr ⟨d', hd, hp⟩

theorem creating_put {P : Uid → Prop} {r : Requests} (h : ∀ d', ∀ uid ∈ (s.requests d').creating, P uid)
    (hr : ∀ uid ∈ r.creating, P uid) : ∀ d', ∀ uid ∈ (s.putRequests d r d').creating, P uid :=
  (Function.forall_update_iff s.requests fun _ r => ∀ uid ∈ r.creating, P uid).mpr ⟨hr, fun d' _ => h d'⟩

theorem Backed.event {e : Event} {w : World} (h : Backed s) (hs : s.world.step (d, e) = some w)
    (hr : e.isRegister = false) : Backed { world := w, requests := s.requests } := by
  obtain ⟨c, ho, rfl⟩ := World.step_outcome hs
  have haccounts : c.server.accounts = s.world.server.accounts := ho.accounts hr
  refine ⟨fun uid hm => ?_, fun d' uid hm => ?_, ?_⟩
  · rw [World.put_server, haccounts] at hm
    rcases h.accounts uid hm with hdoc | hp
    · left
      rw [World.step_users hs]
      exact Effect.lookup_isSome hdoc _ _
    · exact Or.inr hp
  · rw [World.put_server, haccounts]
    exact h.creating d' uid hm
  · refine World.step_device (P := fun dev => ∀ uid, dev.currentUser = some uid → uid ∈ c.server.accounts)
      ?_ hs ?_
    · intro d' uid hu
      rw [haccounts]
      exact h.signedIn d' uid hu
    · intro c ho' uid hu
      rcases ho'.signedIn hr hu with hu | hm
      · rw [haccounts]
        exact h.signedIn d uid hu
      · rwa [haccounts]

theorem Backed.step {e : Signing} (h : Backed s) (hc : Undisturbed s (d, e)) (hs : s.step (d, e) = some s') :
    Backed s' := by
  cases step_advance hs with
  | @event e w hw hr =>
    have hrequests : (if e = .launch then s.putRequests d {} else s.requests) = s.requests := by
      split
      · rename_i he
        have hidle : s.requests d = {} := hc he
        rw [putRequests, ← hidle, Function.update_eq_self]
      · rfl
    rw [hrequests]
    exact h.event hw hr
  | refused => exact h
  | @made uid =>
    refine ⟨fun uid' hm => ?_, ?_, fun d' uid' hu => List.mem_cons_of_mem _ (h.signedIn d' uid' hu)⟩
    · rcases List.mem_cons.mp hm with rfl | hm
      · exact Or.inr (pending_self (Or.inl (List.mem_append_right _ (List.mem_singleton_self _))))
      · refine (h.accounts uid' hm).imp id fun hp => pending_put hp fun hp => ?_
        exact hp.imp (List.mem_append_left _) id
    · refine creating_put (fun d' uid' hm => List.mem_cons_of_mem _ (h.creating d' uid' hm)) fun uid' hm => ?_
      rcases List.mem_append.mp hm with hm | hm
      · exact List.mem_cons_of_mem _ (h.creating d uid' hm)
      · rw [List.mem_singleton.mp hm]
        exact List.mem_cons_self ..
  | @created i uid c hi hrun =>
    rw [createUserCompleted_run, Option.some.injEq, Prod.mk.injEq] at hrun
    obtain ⟨-, rfl⟩ := hrun
    have hmem : uid ∈ s.world.server.accounts := h.creating d uid (List.mem_of_getElem? hi)
    refine ⟨fun uid' hm => ?_, ?_, fun d' uid' hu => ?_⟩
    · refine (h.accounts uid' hm).imp id fun hp => pending_put hp ?_
      rintro (hp | hp)
      · rcases List.mem_cons.mp ((Lists.perm_cons_eraseIdx hi).mem_iff.mp hp) with rfl | hp
        · exact Or.inr (List.mem_append_right _ (List.mem_singleton_self _))
        · exact Or.inl hp
      · exact Or.inr (List.mem_append_left _ hp)
    · exact creating_put h.creating fun uid' hm => h.creating d uid' (List.mem_of_mem_eraseIdx hm)
    · by_cases hd : d' = d
      · subst hd
        rw [World.put_device_self, Option.some.injEq] at hu
        exact hu ▸ hmem
      · rw [World.put_device_ne _ hd] at hu
        exact h.signedIn d' uid' hu
  | @written i accepted uid hi =>
    obtain rfl : accepted = true := hc
    refine ⟨fun uid' hm => ?_, creating_put h.creating (h.creating d), h.signedIn⟩
    by_cases hu : uid' = uid
    · subst hu
      left
      exact Option.isSome_iff_exists.mpr ⟨_, AList.lookup_insert _⟩
    · refine (h.accounts uid' hm).imp (fun hdoc => ?_) fun hp => pending_put hp ?_
      · exact (AList.lookup_insert_ne hu).symm ▸ hdoc
      · rintro (hp | hp)
        · exact Or.inl hp
        · exact Or.inr ((List.mem_cons.mp ((Lists.perm_cons_eraseIdx hi).mem_iff.mp hp)).resolve_left hu)

end

end Signup

/-- **Who is signed in has a document**, in any run of registrations, sign-ins,
saves and restarts on any number of devices in which no `setData` is rejected and
no app is stopped with a registration under way, whenever no registration is.
Every `updateData` of that user then finds it. -/
theorem signed_in_has_document (es : List (DeviceId × Signing)) (s : Signup)
    (hc : Runs.Along Signup.step (fun s de _ => s.Undisturbed de) {} es)
    (hr : Runs.run Signup.step {} es = some s) (hq : ∀ d, s.requests d = {}) (d : DeviceId) (uid : Uid)
    (hu : (s.world.device d).currentUser = some uid) :
    ∃ vals, itemsOf s.world.server.users uid = some vals ∧
      ∀ v, itemsOf (updateItems s.world.server.users uid v true) uid = some (v.apply vals) := by
  have h : s.Backed := by
    refine Runs.Along.invariant (I := Signup.Backed) (C := fun s de _ => s.Undisturbed de) ?_
      Signup.backed_empty hc hr
    intro s de s' h hc hs
    obtain ⟨d, e⟩ := de
    exact h.step hc hs
  rcases h.accounts uid (h.signedIn d uid hu) with hdoc | ⟨d', hp⟩
  · obtain ⟨doc, hdoc⟩ := Option.isSome_iff_exists.mp hdoc
    have hitems : itemsOf s.world.server.users uid = some doc.items := by rw [itemsOf, hdoc]; rfl
    refine ⟨doc.items, hitems, fun v => ?_⟩
    rw [itemsOf_updateItems_self, hitems]
    rfl
  · rw [hq d'] at hp
    rcases hp with hp | hp <;> cases hp

def signUp (accepted : Bool) : List (DeviceId × Signing) :=
  [(0, .event .launch), (0, .createUser ['u'] true), (0, .created 0), (0, .written 0 accepted)]

/-- The app is stopped when the account exists and its document does not. -/
def stoppedBetween : List (DeviceId × Signing) :=
  [(0, .event .launch), (0, .createUser ['u'] true), (0, .event .launch), (0, .event (.login ['u']))]

/-- With no request under way the list is open, and what is saved is lost. -/
def LosesSave (es : List (DeviceId × Signing)) : Prop :=
  ∃ s, Runs.run Signup.step {} es = some s ∧ (∀ d, s.requests d = {}) ∧
    (s.world.device 0).currentUser = some ['u'] ∧ itemsOf s.world.server.users ['u'] = none ∧
    ∃ s', s.step (0, .event (add 'x')) = some s' ∧ (s'.world.device 0).itemArray = [bare 'x'] ∧
      itemsOf s'.world.server.users ['u'] = none

theorem account_without_document : LosesSave (signUp false) ∧ LosesSave stoppedBetween := by
  refine ⟨⟨_, rfl, fun d => ?_, by decide⟩, _, rfl, fun d => ?_, by decide⟩
  all_goals by_cases hd : d = 0 <;> simp [Signup.putRequests, hd]

theorem signed_in_has_document_saved : ∃ s,
    Runs.run Signup.step {} (signUp true ++ [(0, .event (add 'x'))]) = some s ∧
    ∃ vals, itemsOf s.world.server.users ['u'] = some vals := by
  have hrun : ∃ s, Runs.run Signup.step {} (signUp true ++ [(0, .event (add 'x'))]) = some s ∧
      (∀ d, s.requests d = {}) ∧ (s.world.device 0).currentUser = some ['u'] := by
    refine ⟨_, rfl, fun d => ?_, by decide⟩
    by_cases hd : d = 0 <;> simp [Signup.putRequests, hd]
  obtain ⟨s, hs, hq, hu⟩ := hrun
  obtain ⟨vals, hv, -⟩ := signed_in_has_document _ s (by decide) hs hq 0 ['u'] hu
  exact ⟨s, hs, vals, hv⟩

end ShoppingList
