import ShoppingList.Effect

/-!
# One document for each user

Reads select by the field `name`, writes by the document's id. Every writer
keeps the two equal, so both address `users/uid`, and a device changes the
document of the user signed in on it and no other.
-/

namespace ShoppingList

/-- Every document's name is its own id. -/
def Named (users : Collection Uid UserDoc) : Prop :=
  ∀ uid doc, users.lookup uid = some doc → doc.name = uid

theorem named_empty : Named ∅ := fun uid doc h => by rw [AList.lookup_empty] at h; cases h

theorem Named.collection {users : Collection Uid UserDoc} (h : Named users) (items : List Item) :
    ∀ eff : Effect, Named (eff.collection items users)
  | .create _ => Collection.forall_insert h rfl
  | .put uid item _ accepted =>
    forall_updateItems users uid (.arrayUnion [convertItemToString item]) accepted h fun _ hdoc => hdoc
  | .remove uid row accepted =>
    forall_updateItems users uid (.array ((items.eraseIdx row).map convertItemToString)) accepted h
      fun _ hdoc => hdoc
  | .keep | .clear | .append .. => h

theorem Named.step {w w' : World} {d : DeviceId} {e : Event} (h : Named w.server.users)
    (hs : w.step (d, e) = some w') : Named w'.server.users := by
  rw [World.step_users hs]
  exact h.collection _ _

theorem Named.run {w w' : World} {es : List (DeviceId × Event)} (h : Named w.server.users)
    (hr : Runs.run World.step w es = some w') : Named w'.server.users :=
  Runs.run_invariant (I := fun w => Named w.server.users) (fun _ _ _ h hs => h.step hs) h hr

theorem Named.whereName {s : Server} (h : Named s.users) (uid : Uid) :
    s.whereName uid = (s.users.lookup uid).toList.map fun doc => (uid, doc) :=
  Collection.select_eq_of_key h uid

/-! ## Answers on their way -/

/-- Every answer a device waits for satisfies `P`, together with the user it was
asked for. -/
def Answered (P : Uid → List (Uid × UserDoc) → Prop) (w : World) : Prop :=
  ∀ d, ∀ load ∈ (w.device d).loads, ∀ documents, load.answer = some documents → P load.userID documents

theorem answered_empty (P : Uid → List (Uid × UserDoc) → Prop) : Answered P {} := nofun

theorem Answered.step {P : Uid → List (Uid × UserDoc) → Prop} {w w' : World} {d : DeviceId} {e : Event}
    (h : Answered P w) (hP : ∀ uid, P uid (w.server.whereName uid)) (hs : w.step (d, e) = some w') :
    Answered P w' := by
  obtain ⟨c, ho, rfl⟩ := World.step_outcome hs
  intro d' load hm documents hd
  by_cases hne : d' = d
  · subst hne
    rw [World.put_device_self] at hm
    rcases ho.mem_loads hm with hold | hnone | hnew
    · exact h d' load hold documents hd
    · rw [hnone] at hd; cases hd
    · rw [hnew, Option.some.injEq] at hd
      exact hd ▸ hP load.userID
  · rw [World.put_device_ne w hne] at hm
    exact h d' load hm documents hd

/-! ## Isolation -/

/-- Whose document an effect writes to. -/
def Effect.owner : Effect → Option Uid
  | .create uid | .put uid .. | .remove uid .. => some uid
  | .keep | .clear | .append .. => none

theorem Effect.collection_lookup_ne {eff : Effect} {u : Uid} (h : eff.owner ≠ some u) (items : List Item)
    (users : Collection Uid UserDoc) : (eff.collection items users).lookup u = users.lookup u := by
  cases eff with
  | create uid => exact AList.lookup_insert_ne fun hu => h (congrArg some hu.symm)
  | put uid | remove uid => exact lookup_updateItems_ne users _ _ (fun hu => h (congrArg some hu.symm)) _
  | _ => rfl

/-- The owner is signed in after the step, and before it unless he has just registered. -/
theorem Outcome.owner {c c' : Client} {e : Event} (h : Outcome c e c') {u : Uid}
    (hu : (e.effect c).owner = some u) :
    c'.currentUser = some u ∧ (c.currentUser = some u ∨ c.currentUser = none) := by
  have hallowed := h.allowed
  cases heff : e.effect c with
  | create uid =>
    rw [heff] at hu hallowed
    obtain rfl := Event.effect_eq_create heff
    cases h
    exact ⟨hu, Or.inr hallowed.1⟩
  | put uid | remove uid =>
    rw [heff] at hu hallowed
    have hbefore : c.currentUser = some u := hallowed.1.trans hu
    refine ⟨?_, Or.inl hbefore⟩
    rcases h.currentUser with hsame | hnone | hclear
    · exact hsame.trans hbefore
    · cases hnone.symm.trans hbefore
    · cases heff.symm.trans hclear
  | _ =>
    rw [heff] at hu
    cases hu

theorem World.step_users_signedOut {w w' : World} {d : DeviceId} {e : Event} (h : w.step (d, e) = some w')
    (hnone : (w'.device d).currentUser = none) : w'.server.users = w.server.users := by
  rw [World.step_users h]
  obtain ⟨c, ho, rfl⟩ := World.step_outcome h
  rw [World.put_device_self] at hnone
  cases heff : e.effect (w.client d) with
  | create uid | put uid | remove uid =>
    have howner : (e.effect (w.client d)).owner = some uid := by rw [heff]; rfl
    cases hnone.symm.trans (ho.owner howner).1
  | _ => rfl

theorem World.step_lookup_ne {w w' : World} {d : DeviceId} {e : Event} (h : w.step (d, e) = some w') {u : Uid}
    (hu : (w'.device d).currentUser = some u → (w.device d).currentUser ≠ some u ∧ (w.device d).currentUser ≠ none) :
    w'.server.users.lookup u = w.server.users.lookup u := by
  rw [World.step_users h]
  apply Effect.collection_lookup_ne
  intro howner
  obtain ⟨c, ho, rfl⟩ := World.step_outcome h
  rw [World.put_device_self] at hu
  obtain ⟨hafter, hbefore⟩ := ho.owner howner
  obtain ⟨hne, hsome⟩ := hu hafter
  exact hbefore.elim hne hsome

/-- **Reads and writes address the same document.** After any run of any number
of devices, every document is named by its id, the query for a user finds that
user's document and no other, and a step on a device changes no document but
that of the user signed in on it, be it before the step or, as with a
registration, after it. -/
theorem same_document (es : List (DeviceId × Event)) (w : World)
    (hr : Runs.run World.step {} es = some w) :
    (∀ uid doc, w.server.users.lookup uid = some doc → doc.name = uid) ∧
    (∀ uid, w.server.whereName uid = (w.server.users.lookup uid).toList.map fun doc => (uid, doc)) ∧
    (∀ d e w' v, w.step (d, e) = some w' →
      (w.device d).currentUser = some v ∨ (w'.device d).currentUser = some v →
      ∀ u, u ≠ v → w'.server.users.lookup u = w.server.users.lookup u) ∧
    (∀ d e w', w.step (d, e) = some w' → (w'.device d).currentUser = none → w'.server.users = w.server.users) := by
  have hn : Named w.server.users := named_empty.run hr
  refine ⟨hn, hn.whereName, fun d e w' v hs hv u hu => ?_, fun d e w' hs hnone => ?_⟩
  · refine World.step_lookup_ne hs fun hafter => ?_
    have hbefore : (w.device d).currentUser = some v := by
      refine hv.resolve_right fun hv' => hu ?_
      exact Option.some.inj (hafter.symm.trans hv')
    exact ⟨fun he => hu (Option.some.inj (he.symm.trans hbefore)), fun he => nomatch hbefore.symm.trans he⟩
  · exact World.step_users_signedOut hs hnone

def bare (name : Char) : Item :=
  { name := [name], amount := ['1'], picture := noPicture, pictureName := noPicture }

def add (name : Char) : Event := .save { name := [name], amount := ['1'], image := none } true

/-- `u` saves an item on one device, and `v` starts the other. -/
def twoUsers : List (DeviceId × Event) :=
  [(0, .launch), (0, .register ['u'] true), (0, add 'x'), (1, .launch)]

/-- `v` registers, and the document of `u` stays. -/
theorem same_document_two_users : ∃ w w', Runs.run World.step {} twoUsers = some w ∧
    w.step (1, .register ['v'] true) = some w' ∧
    itemsOf w'.server.users ['u'] = some [convertItemToString (bare 'x')] ∧
    w.server.whereName ['u'] = (w.server.users.lookup ['u']).toList.map fun doc => (['u'], doc) := by
  obtain ⟨w, w', hw, hs, hu, hi⟩ : ∃ w w', Runs.run World.step {} twoUsers = some w ∧
      w.step (1, .register ['v'] true) = some w' ∧ (w'.device 1).currentUser = some ['v'] ∧
      itemsOf w.server.users ['u'] = some [convertItemToString (bare 'x')] := ⟨_, _, rfl, rfl, by decide, by decide⟩
  obtain ⟨-, hread, hisolated, -⟩ := same_document twoUsers w hw
  have hsame := hisolated 1 _ w' ['v'] hs (Or.inr hu) ['u'] (by decide)
  exact ⟨w, w', hw, hs, by rw [itemsOf, hsame]; exact hi, hread ['u']⟩

end ShoppingList
