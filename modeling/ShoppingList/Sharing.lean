import ShoppingList.Documents

/-!
# One list on several devices

Saves add to the stored array by set union, deletes overwrite it with the
deleting device's own copy. A ledger beside the run lists the strings that were
added and deleted, on any device. The stored array agrees with it as long as
each delete is made from a copy that holds what is stored.
-/

namespace ShoppingList

open Ledger

namespace Effect

def changes (uid : Uid) (items : List Item) : Effect → List (Change Text)
  | .put uid' item _ _ => if uid' = uid then [.added (convertItemToString item)] else []
  | .remove uid' row _ =>
    if uid' = uid then (items[row]?.map fun item => .removed (convertItemToString item)).toList else []
  | _ => []

/-- A write to `users/uid` is accepted, and a delete is made from a copy that
holds the stored strings. -/
def Faithful (uid : Uid) (items : List Item) (users : Collection Uid UserDoc) : Effect → Prop
  | .put uid' _ _ accepted => uid' = uid → accepted = true
  | .remove uid' _ accepted => uid' = uid → accepted = true ∧
    ∀ stored ∈ itemsOf users uid, (items.map convertItemToString).Perm stored
  | _ => True

instance (uid : Uid) (items : List Item) (users : Collection Uid UserDoc) :
    ∀ eff : Effect, Decidable (eff.Faithful uid items users)
  | .put .. | .remove .. => inferInstanceAs (Decidable (_ → _))
  | .keep | .clear | .create _ | .append .. => .isTrue trivial

end Effect

/-- The ledger of `users/uid`, the latest change first. -/
def log (uid : Uid) (w : World) (de : DeviceId × Event) (_ : World) (h : List (Change Text)) :
    List (Change Text) :=
  (de.2.effect (w.client de.1)).changes uid (w.device de.1).itemArray ++ h

def Faithful (uid : Uid) (w : World) (de : DeviceId × Event) : Prop :=
  (de.2.effect (w.client de.1)).Faithful uid (w.device de.1).itemArray w.server.users

instance (uid : Uid) (w : World) (de : DeviceId × Event) : Decidable (Faithful uid w de) :=
  inferInstanceAs (Decidable (Effect.Faithful ..))

/-! ## One step -/

theorem Outcome.mem_accounts {c c' : Client} {e : Event} {uid : Uid} (h : Outcome c e c')
    (ha : uid ∈ c.server.accounts) : uid ∈ c'.server.accounts := by
  cases h with
  | registered => exact List.mem_cons_of_mem _ ha
  | deleted => simp only [Server.updateData]; split <;> exact ha
  | _ => exact ha

theorem itemsOf_eq_of_lookup {users users' : Collection Uid UserDoc} {uid : Uid}
    (h : users'.lookup uid = users.lookup uid) : itemsOf users' uid = itemsOf users uid := by
  rw [itemsOf, itemsOf, h]

theorem Effect.sound {c : Client} {eff : Effect} {uid : Uid} {start stored : List Text}
    {h : List (Change Text)} (ha : eff.Allowed c) (hf : eff.Faithful uid c.itemArray c.server.users)
    (hacc : uid ∈ c.server.accounts) (hi : itemsOf c.server.users uid = some stored)
    (hs : Sound start h stored) :
    ∃ stored', itemsOf (eff.collection c.itemArray c.server.users) uid = some stored' ∧
      Sound start (eff.changes uid c.itemArray ++ h) stored' := by
  cases eff with
  | keep | clear | append => exact ⟨stored, hi, hs⟩
  | create uid' =>
    have hne : uid ≠ uid' := fun heq => ha.2 (heq ▸ hacc)
    refine ⟨stored, ?_, hs⟩
    rw [← hi]
    exact itemsOf_eq_of_lookup (AList.lookup_insert_ne hne)
  | put uid' item upload accepted =>
    by_cases heq : uid' = uid
    · subst heq
      obtain rfl : accepted = true := hf rfl
      refine ⟨addAbsent stored (convertItemToString item), ?_, ?_⟩
      · rw [Effect.collection, itemsOf_updateItems_self, hi]; rfl
      · simpa [changes] using hs.added (convertItemToString item)
    · refine ⟨stored, ?_, by simpa [changes, heq] using hs⟩
      rw [← hi]
      exact itemsOf_eq_of_lookup (lookup_updateItems_ne _ _ _ (Ne.symm heq) _)
  | remove uid' row accepted =>
    by_cases heq : uid' = uid
    · subst heq
      obtain ⟨rfl, hperm⟩ := hf rfl
      have hrow := List.getElem?_eq_getElem ha.2
      refine ⟨(c.itemArray.map convertItemToString).eraseIdx row, ?_, ?_⟩
      · rw [Effect.collection, itemsOf_updateItems_self, hi, List.eraseIdx_map]; rfl
      · rw [changes, if_pos rfl, hrow]
        refine hs.removed (hperm stored hi) ?_
        rw [List.getElem?_map, hrow]
        rfl
    · refine ⟨stored, ?_, by simpa [changes, heq] using hs⟩
      rw [← hi]
      exact itemsOf_eq_of_lookup (lookup_updateItems_ne _ _ _ (Ne.symm heq) _)

structure Shared (uid : Uid) (start : List Text) (w : World) (h : List (Change Text)) : Prop where
  account : uid ∈ w.server.accounts
  stored : ∃ stored, itemsOf w.server.users uid = some stored ∧ Sound start h stored

theorem Shared.step {uid : Uid} {start : List Text} {w w' : World} {h : List (Change Text)}
    {d : DeviceId} {e : Event} (hw : Shared uid start w h) (hf : Faithful uid w (d, e))
    (hs : w.step (d, e) = some w') : Shared uid start w' (log uid w (d, e) w' h) := by
  obtain ⟨stored, hi, hsound⟩ := hw.stored
  refine ⟨?_, ?_⟩
  · obtain ⟨c, ho, rfl⟩ := World.step_outcome hs
    exact ho.mem_accounts hw.account
  · rw [World.step_users hs]
    exact Effect.sound (World.step_allowed hs) hf hw.account hi hsound

/-! ## Runs -/

/-- **No lost and no resurrected update**, for any number of devices and any
interleaving, as long as the writes to the user's document are accepted and
each delete is made on a device whose list holds the stored strings: what was
added or there at the start and not deleted since is stored, and what has no
copy left is not. -/
theorem shared_list_sound (uid : Uid) (doc : UserDoc) (w : World) (es : List (DeviceId × Event))
    (p : World × List (Change Text)) (ha : uid ∈ w.server.accounts)
    (hdoc : w.server.users.lookup uid = some doc)
    (hc : Runs.Along World.step (fun w de _ => Faithful uid w de) w es)
    (hr : Runs.run (Runs.record World.step (log uid)) (w, []) es = some p) :
    ∃ stored, itemsOf p.1.server.users uid = some stored ∧
      (∀ a, Survives doc.items p.2 a → a ∈ stored) ∧
      (∀ a, remaining doc.items p.2 a = 0 → a ∉ stored) := by
  have hinv : Shared uid doc.items p.1 p.2 := by
    refine Runs.Along.invariant (I := fun p => Shared uid doc.items p.1 p.2)
      (C := fun p de _ => Faithful uid p.1 de) ?_ ⟨ha, doc.items, by rw [itemsOf, hdoc]; rfl, .initial⟩
      hc.record hr
    intro p de p' hp hf hs
    obtain ⟨hs, hlog⟩ := Runs.record_some.mp hs
    rw [hlog]
    exact hp.step hf hs
  obtain ⟨stored, hstored, hsound⟩ := hinv.stored
  exact ⟨stored, hstored, hsound.survivors, fun a => hsound.not_mem⟩

/-! ## Stale copies -/

def twoDevices : List (DeviceId × Event) :=
  signedIn ++ [(0, add 'x'), (0, add 'y'), (1, .launch), (1, .login ['u']), (1, .answered 0), (1, .loaded 0)]

def xAndY : List Text := [bare 'x', bare 'y'].map convertItemToString

def saveThenDelete : List (DeviceId × Event) := [(0, add 'z'), (1, .delete 0 true true)]

def deleteTwice : List (DeviceId × Event) := [(0, .delete 0 true true), (1, .delete 1 true true)]

/-- A delete on the second device loses what the first has just saved, and
brings back what the first has just deleted. -/
theorem stale_delete : ∃ w, Runs.run World.step {} twoDevices = some w ∧
    (w.device 0).itemArray = [bare 'x', bare 'y'] ∧ (w.device 1).itemArray = [bare 'x', bare 'y'] ∧
    itemsOf w.server.users ['u'] = some xAndY ∧
    (∃ p, Runs.run (Runs.record World.step (log ['u'])) (w, []) saveThenDelete = some p ∧
      Survives xAndY p.2 (convertItemToString (bare 'z')) ∧
      itemsOf p.1.server.users ['u'] = some [convertItemToString (bare 'y')]) ∧
    (∃ p, Runs.run (Runs.record World.step (log ['u'])) (w, []) deleteTwice = some p ∧
      remaining xAndY p.2 (convertItemToString (bare 'x')) = 0 ∧
      itemsOf p.1.server.users ['u'] = some [convertItemToString (bare 'x')]) := by
  obtain ⟨w, hw, hrows, hrows', hstored, ⟨p, hp, hlog, hlost⟩, hback⟩ : ∃ w,
      Runs.run World.step {} twoDevices = some w ∧
      (w.device 0).itemArray = [bare 'x', bare 'y'] ∧ (w.device 1).itemArray = [bare 'x', bare 'y'] ∧
      itemsOf w.server.users ['u'] = some xAndY ∧
      (∃ p, Runs.run (Runs.record World.step (log ['u'])) (w, []) saveThenDelete = some p ∧
        p.2 = [.removed (convertItemToString (bare 'x')), .added (convertItemToString (bare 'z'))] ∧
        itemsOf p.1.server.users ['u'] = some [convertItemToString (bare 'y')]) ∧
      (∃ p, Runs.run (Runs.record World.step (log ['u'])) (w, []) deleteTwice = some p ∧
        remaining xAndY p.2 (convertItemToString (bare 'x')) = 0 ∧
        itemsOf p.1.server.users ['u'] = some [convertItemToString (bare 'x')]) := by decide +kernel
  have hz : Survives xAndY p.2 (convertItemToString (bare 'z')) :=
    Or.inl ⟨[.removed (convertItemToString (bare 'x'))], [], hlog, by decide⟩
  exact ⟨w, hw, hrows, hrows', hstored, ⟨p, hp, hz, hlost⟩, hback⟩

def inStep : List (DeviceId × Event) :=
  [(1, add 'z'), (1, .delete 0 true true), (0, .launch), (0, .answered 0), (0, .loaded 0),
    (0, .delete 0 true true)]

theorem shared_list_sound_inStep : ∃ w p, Runs.run World.step {} twoDevices = some w ∧
    Runs.run (Runs.record World.step (log ['u'])) (w, []) inStep = some p ∧ ∃ stored,
      itemsOf p.1.server.users ['u'] = some stored ∧ convertItemToString (bare 'z') ∈ stored ∧
      convertItemToString (bare 'x') ∉ stored := by
  obtain ⟨w, hw, hacc, hdoc, hfaithful, p, hp, hlog⟩ : ∃ w, Runs.run World.step {} twoDevices = some w ∧
      ['u'] ∈ w.server.accounts ∧ w.server.users.lookup ['u'] = some ⟨xAndY, ['u']⟩ ∧
      Runs.Along World.step (fun w de _ => Faithful ['u'] w de) w inStep ∧
      ∃ p, Runs.run (Runs.record World.step (log ['u'])) (w, []) inStep = some p ∧
        p.2 = [.removed (convertItemToString (bare 'y')), .removed (convertItemToString (bare 'x')),
          .added (convertItemToString (bare 'z'))] := by decide +kernel
  obtain ⟨stored, hstored, hsurvive, hgone⟩ := shared_list_sound ['u'] _ w inStep p hacc hdoc hfaithful hp
  refine ⟨w, p, hw, hp, stored, hstored, hsurvive _ (Or.inl ⟨[_, _], [], hlog, by decide⟩), hgone _ ?_⟩
  rw [hlog]
  decide

end ShoppingList
