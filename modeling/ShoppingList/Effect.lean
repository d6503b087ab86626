import ShoppingList.Outcome

/-!
# The list and the collection

Most claims about the app are about two things only, the list a device shows
and the `users` collection. `Event.effect` is what an event does to them, and
`Outcome.itemArray` and `Outcome.users` say that it is all it does.
-/

namespace ShoppingList

inductive Effect where
  | keep
  | clear
  | create (uid : Uid)
  /-- A call of `putItemInDatabase`, with the upload it ends, if any. -/
  | put (uid : Uid) (item : Item) (upload : Option Upload) (accepted : Bool)
  | remove (uid : Uid) (row : Nat) (accepted : Bool)
  | append (i : Nat) (documents : List (Uid × UserDoc)) (read : List Item)

namespace Effect

def list : Effect → List Item → List Item
  | .clear, _ => []
  | .put _ item _ _, items => items ++ [item]
  | .remove _ row _, items => items.eraseIdx row
  | .append _ _ read, items => items ++ read
  | _, items => items

def sent : Effect → Option Item
  | .put _ item _ _ => some item
  | _ => none

theorem mem_sent {eff : Effect} {item : Item} (h : item ∈ eff.sent) :
    ∃ uid upload accepted, eff = .put uid item upload accepted := by
  cases eff with
  | put uid item' upload accepted => cases h; exact ⟨uid, upload, accepted, rfl⟩
  | _ => cases h

/-- The collection after the effect of a device whose list is `items`. -/
def collection (items : List Item) : Effect → Collection Uid UserDoc → Collection Uid UserDoc
  | .create uid, users => users.insert uid { items := [], name := uid }
  | .put uid item _ accepted, users =>
    updateItems users uid (.arrayUnion [convertItemToString item]) accepted
  | .remove uid row accepted, users =>
    updateItems users uid (.array ((items.eraseIdx row).map convertItemToString)) accepted
  | _, users => users

/-- What is known where an effect happens. -/
def Allowed (c : Client) : Effect → Prop
  | .create uid => c.currentUser = none ∧ uid ∉ c.server.accounts
  | .put uid _ upload _ => c.currentUser = some uid ∧ ∀ up, upload = some up → up ∈ c.uploads
  | .remove uid row _ => c.currentUser = some uid ∧ row < c.itemArray.length
  | .append i documents read => (∃ userID, c.loads[i]? = some { userID, answer := some documents }) ∧
    (documents.flatMap (·.2.items)).mapM itemOfString = some read
  | _ => True

theorem mem_list {eff : Effect} {items : List Item} {item : Item} (h : item ∈ eff.list items) :
    item ∈ items ∨ item ∈ eff.sent ∨ ∃ i documents read, eff = .append i documents read ∧ item ∈ read := by
  cases eff with
  | clear => cases h
  | put uid item' =>
    rcases List.mem_append.mp h with h | h
    · exact Or.inl h
    · exact Or.inr (Or.inl (by rw [List.mem_singleton.mp h]; rfl))
  | remove => exact Or.inl (List.mem_of_mem_eraseIdx h)
  | append i documents read =>
    rcases List.mem_append.mp h with h | h
    · exact Or.inl h
    · exact Or.inr (Or.inr ⟨i, documents, read, rfl, h⟩)
  | _ => exact Or.inl h

end Effect

def Event.effect (c : Client) : Event → Effect
  | .launch => .clear
  | .register uid written => if written then .create uid else .keep
  | .logout signedOut => if signedOut then .clear else .keep
  | .save form accepted =>
    if form.name = [] then .keep
    else match form.image, c.currentUser with
      | none, some uid => .put uid form.item none accepted
      | _, _ => .keep
  | .downloadURL i (some imageLink) accepted =>
    match c.uploads[i]?, c.currentUser with
    | some upload, some uid => .put uid (upload.item imageLink) (some upload) accepted
    | _, _ => .keep
  | .delete row _ accepted =>
    match c.itemArray[row]?, c.currentUser with
    | some _, some uid => .remove uid row accepted
    | _, _ => .keep
  | .loaded i =>
    match c.loads[i]? with
    | some { userID := _, answer := some documents } =>
      match (documents.flatMap (·.2.items)).mapM itemOfString with
      | some read => .append i documents read
      | none => .keep
    | _ => .keep
  | _ => .keep

namespace Event

variable {c : Client} {e : Event}

theorem effect_eq_put {uid : Uid} {item : Item} {upload : Option Upload} {accepted : Bool}
    (h : e.effect c = .put uid item upload accepted) :
    (∃ form, e = .save form accepted ∧ form.image = none ∧ item = form.item ∧ upload = none) ∨
    (∃ i imageLink up, e = .downloadURL i (some imageLink) accepted ∧ c.uploads[i]? = some up ∧
      item = up.item imageLink ∧ upload = some up) := by
  cases e with
  | register uid written => cases written <;> cases h
  | logout signedOut => cases signedOut <;> cases h
  | save form accepted =>
    simp only [effect] at h
    split at h
    · cases h
    · split at h
      · cases h
        exact Or.inl ⟨form, rfl, by assumption, rfl, rfl⟩
      · cases h
  | downloadURL i url accepted =>
    cases url with
    | none => cases h
    | some imageLink =>
      simp only [effect] at h
      split at h
      · cases h
        exact Or.inr ⟨i, imageLink, _, rfl, by assumption, rfl, rfl⟩
      · cases h
  | delete | loaded =>
    simp only [effect] at h
    split at h
    · first | cases h | (split at h <;> cases h)
    · cases h
  | _ => cases h

theorem effect_eq_create {uid : Uid} (h : e.effect c = .create uid) : e = .register uid true := by
  cases e with
  | register uid' written =>
    cases written with
    | true => cases h; rfl
    | false => cases h
  | logout signedOut => cases signedOut <;> cases h
  | save => simp only [effect] at h; split at h <;> first | cases h | (split at h <;> cases h)
  | downloadURL i url => cases url <;> simp only [effect] at h <;> first | cases h | (split at h <;> cases h)
  | delete | loaded => simp only [effect] at h; split at h <;> first | cases h | (split at h <;> cases h)
  | _ => cases h

theorem effect_eq_append {i : Nat} {documents : List (Uid × UserDoc)} {read : List Item}
    (h : e.effect c = .append i documents read) : e = .loaded i := by
  cases e with
  | register uid written => cases written <;> cases h
  | logout signedOut => cases signedOut <;> cases h
  | save => simp only [effect] at h; split at h <;> first | cases h | (split at h <;> cases h)
  | downloadURL i url => cases url <;> simp only [effect] at h <;> first | cases h | (split at h <;> cases h)
  | delete => simp only [effect] at h; split at h <;> cases h
  | loaded i =>
    simp only [effect] at h
    split at h
    · split at h
      · cases h; rfl
      · cases h
    · cases h
  | _ => cases h

end Event

namespace Outcome

variable {c c' : Client} {e : Event}

theorem itemArray (h : Outcome c e c') : c'.itemArray = (e.effect c).list c.itemArray := by
  cases h with
  | registered => simp only [Event.effect]; split <;> rfl
  | warned hn => simp [Event.effect, hn, Effect.list]
  | uploading hn hi | noJpeg hn hi => simp [Event.effect, hn, hi, Effect.list]
  | saved hn hi hu => simp [Event.effect, hn, hi, hu, Effect.list]
  | deleted hr hu => simp [Event.effect, hr, hu, Effect.list]
  | rowMissing hr => simp [Event.effect, hr, Effect.list]
  | loaded hl hr | subscriptMissing hl hr => simp [Event.effect, hl, hr, Effect.list]
  | uploaded hl hu | uploadOrphaned hl hu => simp [Event.effect, hl, hu, Effect.list]
  | _ => rfl

theorem users (h : Outcome c e c') :
    c'.server.users = (e.effect c).collection c.itemArray c.server.users := by
  cases h with
  | @registered uid written => cases written <;> rfl
  | warned hn => simp [Event.effect, hn, Effect.collection]
  | uploading hn hi | noJpeg hn hi => simp [Event.effect, hn, hi, Effect.collection]
  | saved hn hi hu => simp [Event.effect, hn, hi, hu, Effect.collection, Server.updateData]
  | deleted hr hu =>
    simp only [Event.effect, hr, hu, Effect.collection, Server.updateData]
    split <;> rfl
  | rowMissing hr => simp [Event.effect, hr, Effect.collection]
  | loaded hl hr | subscriptMissing hl hr => simp [Event.effect, hl, hr, Effect.collection]
  | uploaded hl hu | uploadOrphaned hl hu =>
    simp [Event.effect, hl, hu, Effect.collection, Server.updateData]
  | _ => rfl

theorem allowed (h : Outcome c e c') : (e.effect c).Allowed c := by
  cases h with
  | @registered uid written hu hf =>
    cases written
    · trivial
    · exact ⟨hu, hf⟩
  | warned hn => simp [Event.effect, hn, Effect.Allowed]
  | uploading hn hi | noJpeg hn hi => simp [Event.effect, hn, hi, Effect.Allowed]
  | saved hn hi hu => simp [Event.effect, hn, hi, hu, Effect.Allowed]
  | deleted hr hu =>
    simp only [Event.effect, hr, hu, Effect.Allowed, true_and]
    exact (List.getElem?_eq_some_iff.mp hr).1
  | rowMissing hr => simp [Event.effect, hr, Effect.Allowed]
  | loaded hl hr =>
    simp only [Event.effect, hl, hr, Effect.Allowed]
    exact ⟨⟨_, rfl⟩, trivial⟩
  | subscriptMissing hl hr => simp [Event.effect, hl, hr, Effect.Allowed]
  | uploaded hl hu =>
    simp only [Event.effect, hl, hu, Effect.Allowed, true_and]
    rintro up ⟨⟩
    exact List.mem_of_getElem? hl
  | uploadOrphaned hl hu => simp [Event.effect, hl, hu, Effect.Allowed]
  | _ => trivial

theorem currentUser (h : Outcome c e c') :
    c'.currentUser = c.currentUser ∨ c.currentUser = none ∨ e.effect c = .clear := by
  cases h with
  | registered hu | loggedIn hu => exact Or.inr (Or.inl hu)
  | loggedOut => exact Or.inr (Or.inr rfl)
  | _ => exact Or.inl rfl

theorem mem_loads (h : Outcome c e c') {load : Load} (hm : load ∈ c'.loads) :
    load ∈ c.loads ∨ load.answer = none ∨ load.answer = some (c.server.whereName load.userID) := by
  cases h with
  | launched =>
    obtain ⟨uid, -, rfl⟩ := List.mem_map.mp hm
    exact Or.inr (Or.inl rfl)
  | registered | loggedIn =>
    rcases List.mem_append.mp hm with hm | hm
    · exact Or.inl hm
    · rw [List.mem_singleton] at hm
      exact Or.inr (Or.inl (hm ▸ rfl))
  | answered hl =>
    rcases List.mem_or_eq_of_mem_set hm with hm | rfl
    · exact Or.inl hm
    · exact Or.inr (Or.inr rfl)
  | loaded | loadFailed => exact Or.inl (List.mem_of_mem_eraseIdx hm)
  | _ => exact Or.inl hm

end Outcome

/-! ## One step of the world -/

namespace World

variable {w w' : World} {d : DeviceId} {e : Event}

theorem step_itemArray (h : w.step (d, e) = some w') :
    (w'.device d).itemArray = (e.effect (w.client d)).list (w.device d).itemArray := by
  obtain ⟨c, ho, rfl⟩ := step_outcome h
  rw [put_device_self]
  exact ho.itemArray

theorem step_users (h : w.step (d, e) = some w') : w'.server.users =
    (e.effect (w.client d)).collection (w.device d).itemArray w.server.users := by
  obtain ⟨c, ho, rfl⟩ := step_outcome h
  exact ho.users

theorem step_allowed (h : w.step (d, e) = some w') : (e.effect (w.client d)).Allowed (w.client d) := by
  obtain ⟨c, ho, -⟩ := step_outcome h
  exact ho.allowed

end World

end ShoppingList
