import ShoppingList.Documents
import ShoppingList.Texts
import ShoppingList.Lib.Lists

/-!
# The list and the stored array

A save appends to the list and adds to the stored array by set union; a delete
overwrites the stored array with the list. A delete therefore makes the two
equal whatever they were, and a save keeps them equal exactly when the array
does not hold its string yet.
-/

namespace ShoppingList

/-- The array of `users/uid` is the list, encoded. -/
def Matches (users : Collection Uid UserDoc) (uid : Uid) (rows : List Item) : Prop :=
  itemsOf users uid = some (rows.map convertItemToString)

instance (users : Collection Uid UserDoc) (uid : Uid) (rows : List Item) : Decidable (Matches users uid rows) :=
  inferInstanceAs (Decidable (_ = _))

section
variable {users : Collection Uid UserDoc} {uid : Uid} {rows : List Item}

theorem Matches.put_iff (h : Matches users uid rows) (item : Item) (upload : Option Upload) :
    Matches ((Effect.put uid item upload true).collection rows users) uid (rows ++ [item]) ↔
      convertItemToString item ∉ rows.map convertItemToString := by
  unfold Matches at h ⊢
  rw [Effect.collection, itemsOf_updateItems_self, h, Option.map_some, FieldValue.apply_arrayUnion_one,
    List.map_append, List.map_singleton, Option.some.injEq]
  refine ⟨?_, ?_⟩
  · intro he hmem
    rw [Ledger.addAbsent_of_mem hmem] at he
    have hlen := congrArg List.length he
    simp at hlen
  · exact Ledger.addAbsent_of_not_mem

theorem Matches.remove (h : Matches users uid rows) (row : Nat) :
    Matches ((Effect.remove uid row true).collection rows users) uid (rows.eraseIdx row) := by
  unfold Matches at h ⊢
  rw [Effect.collection, itemsOf_updateItems_self, h]
  rfl

end

/-! ## Saves and deletes of one user -/

namespace Event

/-- A save, a delete, or a completion that one of them waits for, with every
write accepted. -/
def edits : Event → Bool
  | .save _ accepted | .delete _ _ accepted | .downloadURL _ _ accepted => accepted
  | .putData .. | .notified => true
  | _ => false

def Edit (e : Event) : Prop := e.edits = true ∧ e.Plain

instance : DecidablePred Edit := fun _ => inferInstanceAs (Decidable (_ ∧ _))

end Event

structure Editing (uid : Uid) (d : Device) : Prop where
  user : d.currentUser = some uid
  rows : ∀ item ∈ d.itemArray, item.Plain
  uploads : ∀ up ∈ d.uploads, up.Plain

def Effect.Edits (uid : Uid) : Effect → Prop
  | .keep => True
  | .put uid' _ _ accepted | .remove uid' _ accepted => uid' = uid ∧ accepted = true
  | _ => False

section
variable {c c' : Client} {e : Event} {uid : Uid}

theorem Outcome.edits (h : Outcome c e c') (he : e.edits = true) (hu : c.currentUser = some uid) :
    (e.effect c).Edits uid ∧ c'.currentUser = some uid ∧ c'.loads = c.loads := by
  cases h with
  | warned hn => simp [Event.effect, hn, Effect.Edits, hu]
  | uploading hn hi | noJpeg hn hi => simp [Event.effect, hn, hi, Effect.Edits, hu]
  | saved hn hi hu' => simpa [Event.effect, hn, hi, hu, Effect.Edits, Event.edits] using he
  | deleted hr hu' => simpa [Event.effect, hr, hu, Effect.Edits, Event.edits] using he
  | rowMissing hr => simp [Event.effect, hr, Effect.Edits, hu]
  | uploaded hl hu' => simpa [Event.effect, hl, hu, Effect.Edits, Event.edits] using he
  | uploadOrphaned hl hn => cases hn.symm.trans hu
  | imageStored | putDataFailed | urlFailed | notified => exact ⟨trivial, hu, rfl⟩
  | _ => cases he

theorem Outcome.editing (h : Outcome c e c') (he : e.Edit) (hd : Editing uid c.toDevice) :
    Editing uid c'.toDevice := by
  obtain ⟨hedits, hu, -⟩ := h.edits he.1 hd.user
  refine ⟨hu, fun item hm => ?_, h.plain_uploads he.2 hd.uploads⟩
  rw [h.itemArray] at hm
  rcases Effect.mem_list hm with hold | hsent | ⟨i, documents, read, heff, -⟩
  · exact hd.rows item hold
  · exact Event.plain_sent he.2 hd.uploads item hsent
  · rw [heff] at hedits
    exact hedits.elim

end

theorem Matches.edit_iff {users : Collection Uid UserDoc} {uid : Uid} {rows : List Item} {eff : Effect}
    (h : Matches users uid rows) (he : eff.Edits uid) :
    Matches (eff.collection rows users) uid (eff.list rows) ↔
      ∀ item ∈ eff.sent, convertItemToString item ∉ rows.map convertItemToString := by
  cases eff with
  | keep => exact iff_of_true h (by simp [Effect.sent])
  | put uid' item upload accepted =>
    obtain ⟨rfl, rfl⟩ := he
    rw [Effect.list, h.put_iff item upload]
    simp [Effect.sent]
  | remove uid' row accepted =>
    obtain ⟨rfl, rfl⟩ := he
    exact iff_of_true (h.remove row) (by simp [Effect.sent])
  | _ => exact he.elim

/-! ## A load into an empty list -/

theorem map_convert_of_read : ∀ {vals : List Text} {read : List Item},
    (∀ val ∈ vals, val.count semicolon = 3) → vals.map itemOfString = read.map some →
      read.map convertItemToString = vals
  | [], [], _, _ => rfl
  | val :: vals, item :: read, h3, hr => by
    rw [List.map_cons, List.map_cons, List.cons.injEq] at hr
    rw [List.map_cons, convert_itemOfString_of_three hr.1 (h3 val (List.mem_cons_self ..)),
      map_convert_of_read (fun v hv => h3 v (List.mem_cons_of_mem _ hv)) hr.2]

theorem plain_of_read {vals : List Text} {read : List Item} (hr : vals.map itemOfString = read.map some) :
    ∀ item ∈ read, item.Plain := by
  intro item hm
  have hs : some item ∈ vals.map itemOfString := hr ▸ List.mem_map_of_mem hm
  obtain ⟨val, -, hval⟩ := List.mem_map.mp hs
  exact plain_of_itemOfString hval

def answerOf (uid : Uid) (doc : UserDoc) : Load := { userID := uid, answer := some [(uid, doc)] }

theorem Outcome.loaded_three {c c' : Client} {i : Nat} {uid : Uid} {doc : UserDoc}
    (h : Outcome c (.loaded i) c') (hl : c.loads[i]? = some (answerOf uid doc))
    (h3 : ∀ val ∈ doc.items, val.count semicolon = 3) :
    ∃ read, c' = { c with loads := c.loads.eraseIdx i, itemArray := c.itemArray ++ read } ∧
      read.map convertItemToString = doc.items ∧ ∀ item ∈ read, item.Plain := by
  cases h with
  | @loaded i userID documents read hl' hr =>
    rw [hl, answerOf, Option.some.injEq, Load.mk.injEq, Option.some.injEq] at hl'
    obtain ⟨rfl, rfl⟩ := hl'
    have hread := Lists.mapM_eq_some_iff.mp hr
    rw [List.flatMap_singleton] at hread
    exact ⟨read, rfl, map_convert_of_read h3 hread, plain_of_read hread⟩
  | @subscriptMissing i userID documents hl' hr =>
    rw [hl, answerOf, Option.some.injEq, Load.mk.injEq, Option.some.injEq] at hl'
    obtain ⟨rfl, rfl⟩ := hl'
    obtain ⟨read, hread⟩ := Lists.exists_mapM_of_forall (f := itemOfString) fun val hval =>
      (itemOfString_isSome val).mpr (Nat.le_of_eq (h3 val hval).symm)
    rw [List.flatMap_singleton, hread] at hr
    cases hr

/-! ## Screen and server agree -/

/-- The stored array is the list, encoded, and the next load would show the list. -/
structure Agree (uid : Uid) (d : DeviceId) (w : World) : Prop where
  stored : Matches w.server.users uid (w.device d).itemArray
  shown : ∃ vals, itemsOf w.server.users uid = some vals ∧
    vals.map itemOfString = (w.device d).itemArray.map some

/-- What the event sends to the database, if anything, is not stored yet. -/
def New (uid : Uid) (w : World) (de : DeviceId × Event) : Prop :=
  ∀ item ∈ (de.2.effect (w.client de.1)).sent, ∀ vals ∈ itemsOf w.server.users uid,
    convertItemToString item ∉ vals

instance (uid : Uid) (w : World) (de : DeviceId × Event) : Decidable (New uid w de) :=
  inferInstanceAs (Decidable (∀ item ∈ _, ∀ vals ∈ _, _))

/-- `getItems` is about to complete into an empty list. -/
@[mk_iff] structure Starting (uid : Uid) (doc : UserDoc) (d : DeviceId) (w : World) : Prop where
  running : (w.device d).running = true
  user : (w.device d).currentUser = some uid
  rows : (w.device d).itemArray = []
  uploads : (w.device d).uploads = []
  loads : (w.device d).loads = [answerOf uid doc]
  document : w.server.users.lookup uid = some doc
  three : ∀ val ∈ doc.items, val.count semicolon = 3

instance (uid : Uid) (doc : UserDoc) (d : DeviceId) (w : World) : Decidable (Starting uid doc d w) :=
  decidable_of_iff _ (starting_iff uid doc d w).symm

section
variable {uid : Uid} {d : DeviceId} {w w' : World}

theorem Matches.agree (h : Matches w.server.users uid (w.device d).itemArray)
    (hp : ∀ item ∈ (w.device d).itemArray, item.Plain) : Agree uid d w where
  stored := h
  shown := by
    refine ⟨_, h, ?_⟩
    rw [List.map_map]
    exact List.map_congr_left fun item hm => itemOfString_convert (hp item hm)

theorem Matches.step_iff {e : Event} (h : Matches w.server.users uid (w.device d).itemArray)
    (hu : (w.device d).currentUser = some uid) (he : e.Edit) (hs : w.step (d, e) = some w') :
    Matches w'.server.users uid (w'.device d).itemArray ↔ New uid w (d, e) := by
  obtain ⟨c, ho, -⟩ := World.step_outcome hs
  rw [World.step_users hs, World.step_itemArray hs, h.edit_iff (ho.edits he.1 hu).1]
  refine forall₂_congr fun item _ => ?_
  rw [h]
  simp

theorem Starting.loaded {doc : UserDoc} (h : Starting uid doc d w) (hs : w.step (d, .loaded 0) = some w') :
    Editing uid (w'.device d) ∧ Matches w'.server.users uid (w'.device d).itemArray := by
  obtain ⟨c, ho, rfl⟩ := World.step_outcome hs
  have hl : (w.client d).loads[0]? = some (answerOf uid doc) := by
    rw [World.client_toDevice, h.loads]; rfl
  obtain ⟨read, rfl, hread, hplain⟩ := ho.loaded_three hl h.three
  rw [World.put_device_self]
  refine ⟨⟨h.user, ?_, ?_⟩, ?_⟩
  · simpa [h.rows] using hplain
  · simp [h.uploads]
  · simp [Matches, itemsOf, h.document, h.rows, hread]

/-- **Screen and server agree, on one device, exactly while every saved string
is new.** In every run of one user that starts with the completion of
`getItems` into an empty list and goes on with saves and deletes, all of them
accepted and free of `;`, the stored array is the encoded list after every step
if and only if no save sends a string that is stored already. -/
theorem agree_iff_new (uid : Uid) (doc : UserDoc) (d : DeviceId) (w : World)
    (es : List (DeviceId × Event)) (hstart : Starting uid doc d w)
    (hes : ∀ de ∈ es, de.1 = d ∧ de.2.Edit) :
    Runs.Along World.step (fun _ _ w' => Agree uid d w') w ((d, .loaded 0) :: es) ↔
      Runs.Along World.step (fun w de _ => New uid w de) w ((d, .loaded 0) :: es) := by
  refine forall₂_congr fun w' hs => ?_
  obtain ⟨hediting, hmatches⟩ := hstart.loaded hs
  have hnew : New uid w (d, .loaded 0) := by
    have hl : (w.client d).loads[0]? = some (answerOf uid doc) := by
      rw [World.client_toDevice, hstart.loads]; rfl
    intro item hsent
    simp only [Event.effect, hl, answerOf] at hsent
    split at hsent <;> cases hsent
  refine and_congr (iff_of_true (hmatches.agree hediting.rows) hnew) ?_
  refine Runs.Along.iff_of_step
    (I := fun w => Editing uid (w.device d) ∧ Matches w.server.users uid (w.device d).itemArray)
    (C := fun _ de _ => de.1 = d ∧ de.2.Edit) ?_ ?_ ⟨hediting, hmatches⟩ (Runs.Along.of_forall w' hes)
  · intro v de v' hi hc hv
    obtain ⟨d', e⟩ := de
    obtain ⟨hed, hm⟩ := hi
    obtain ⟨hd, he⟩ := hc
    obtain rfl : d' = d := hd
    rw [← hm.step_iff hed.user he hv]
    obtain ⟨c, ho, rfl⟩ := World.step_outcome hv
    refine ⟨fun ha => ha.stored, fun hm' => hm'.agree ?_⟩
    rw [World.put_device_self]
    exact (ho.editing he hed).rows
  -- agreement is what keeps the invariant: without it the list and the array part for good
  · intro v de v' hi hc ha hv
    obtain ⟨d', e⟩ := de
    obtain ⟨hd, he⟩ := hc
    obtain rfl : d' = d := hd
    refine ⟨?_, ha.stored⟩
    obtain ⟨c, ho, rfl⟩ := World.step_outcome hv
    rw [World.put_device_self]
    exact ho.editing he hi.1

end

/-- The same item is saved twice: two rows, one stored string. -/
theorem repeated_save_disagrees : ∃ w w', Runs.run World.step {} firstAnswer = some w ∧
    Starting ['u'] ⟨[], ['u']⟩ 0 w ∧
    (∀ de ∈ [((0 : DeviceId), add 'x'), (0, add 'x')], de.1 = 0 ∧ de.2.Edit) ∧
    Runs.run World.step w [(0, .loaded 0), (0, add 'x'), (0, add 'x')] = some w' ∧
    itemsOf w'.server.users ['u'] = some [convertItemToString (bare 'x')] ∧
    (w'.device 0).itemArray = [bare 'x', bare 'x'] ∧ ¬Agree ['u'] 0 w' := by
  obtain ⟨w, hw, hstart, w', hw', hitems, hrows⟩ : ∃ w, Runs.run World.step {} firstAnswer = some w ∧
      Starting ['u'] ⟨[], ['u']⟩ 0 w ∧
      ∃ w', Runs.run World.step w [(0, .loaded 0), (0, add 'x'), (0, add 'x')] = some w' ∧
        itemsOf w'.server.users ['u'] = some [convertItemToString (bare 'x')] ∧
        (w'.device 0).itemArray = [bare 'x', bare 'x'] := by decide
  refine ⟨w, w', hw, hstart, by decide, hw', hitems, hrows, fun ha => ?_⟩
  have hm := ha.stored
  rw [Matches, hitems, hrows] at hm
  simp at hm

def twoItems : List (DeviceId × Event) :=
  [(0, add 'x'), (0, .save ⟨['y'], ['2'], some ⟨['n'], true⟩⟩ true), (0, .putData 0 true),
    (0, .downloadURL 0 (some ['l']) true), (0, .delete 0 true true)]

theorem agree_iff_new_two_items : ∃ w, Starting ['u'] ⟨[], ['u']⟩ 0 w ∧
    (Runs.run World.step w ((0, .loaded 0) :: twoItems)).isSome ∧
    Runs.Along World.step (fun _ _ w' => Agree ['u'] 0 w') w ((0, .loaded 0) :: twoItems) := by
  obtain ⟨w, -, hstart, hsome, hnew⟩ : ∃ w, Runs.run World.step {} firstAnswer = some w ∧
      Starting ['u'] ⟨[], ['u']⟩ 0 w ∧
      (Runs.run World.step w ((0, .loaded 0) :: twoItems)).isSome ∧
      Runs.Along World.step (fun w de _ => New ['u'] w de) w ((0, .loaded 0) :: twoItems) := by decide
  exact ⟨w, hstart, hsome, (agree_iff_new _ _ _ _ _ hstart (by decide)).mpr hnew⟩

end ShoppingList
