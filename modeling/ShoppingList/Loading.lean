import ShoppingList.Documents
import ShoppingList.Lib.Lists

/-!
# Loading

`getItems` reads the components 0 to 3 of every stored string unchecked. All
writers store only what `convertItemToString` makes, and a list that was
truncated by an earlier reading is written through it again, so that no
subscript is out of range.
-/

namespace ShoppingList

/-- Every string of every items array satisfies `Q`. -/
def Stored (Q : Text → Prop) (users : Collection Uid UserDoc) : Prop :=
  ∀ uid doc, users.lookup uid = some doc → ∀ val ∈ doc.items, Q val

theorem stored_empty (Q : Text → Prop) : Stored Q ∅ := fun uid doc h => by
  rw [AList.lookup_empty] at h; cases h

theorem Stored.collection {Q : Text → Prop} {users : Collection Uid UserDoc} {items : List Item}
    {eff : Effect} (h : Stored Q users) (hrows : ∀ item ∈ items, Q (convertItemToString item))
    (hsent : ∀ item ∈ eff.sent, Q (convertItemToString item)) : Stored Q (eff.collection items users) := by
  cases eff with
  | create uid => exact Collection.forall_insert h (by simp)
  | put uid item upload accepted =>
    refine forall_updateItems users uid _ accepted h fun doc hdoc val hval => ?_
    rcases Ledger.mem_addAbsent.mp hval with hold | rfl
    · exact hdoc val hold
    · exact hsent item rfl
  | remove uid row accepted =>
    refine forall_updateItems users uid _ accepted h fun _ _ val hval => ?_
    obtain ⟨item, hm, rfl⟩ := List.mem_map.mp hval
    exact hrows item (List.mem_of_mem_eraseIdx hm)
  | keep | clear | append => exact h

theorem Stored.whereName {Q : Text → Prop} {s : Server} (h : Stored Q s.users) (uid : Uid) :
    ∀ document ∈ s.whereName uid, ∀ val ∈ document.2.items, Q val := fun document hd =>
  h document.1 document.2 (Collection.mem_select.mp hd).1

/-! ## Where rows and stored strings come from -/

/-- Every row on every device satisfies `R`; every string that is stored, or on
its way to a device, satisfies `Q`. -/
structure Listed (R : Item → Prop) (Q : Text → Prop) (w : World) : Prop where
  rows : ∀ d, ∀ item ∈ (w.device d).itemArray, R item
  stored : Stored Q w.server.users
  answers : Answered (fun _ documents => ∀ document ∈ documents, ∀ val ∈ document.2.items, Q val) w

theorem listed_empty (R : Item → Prop) (Q : Text → Prop) : Listed R Q {} :=
  ⟨nofun, stored_empty _, answered_empty _⟩

section
variable {R R' : Item → Prop} {Q Q' : Text → Prop} {w w' : World} {d : DeviceId} {e : Event}

theorem Listed.mono (h : Listed R Q w) (hR : ∀ item, R item → R' item) (hQ : ∀ val, Q val → Q' val) :
    Listed R' Q' w where
  rows := fun d item hm => hR item (h.rows d item hm)
  stored := fun uid doc hd val hm => hQ val (h.stored uid doc hd val hm)
  answers := fun d load hl documents ha document hd val hm =>
    hQ val (h.answers d load hl documents ha document hd val hm)

/-- When rows are written as good strings and good strings are read as rows, it
is enough that what is sent to the database is a row. -/
theorem Listed.step (h : Listed R Q w) (hwrite : ∀ item, R item → Q (convertItemToString item))
    (hread : ∀ val item, Q val → itemOfString val = some item → R item)
    (hsent : ∀ item ∈ (e.effect (w.client d)).sent, R item) (hs : w.step (d, e) = some w') :
    Listed R Q w' where
  rows := by
    refine World.step_device (P := fun dev => ∀ item ∈ dev.itemArray, R item) h.rows hs fun c ho item hm => ?_
    have hallowed := ho.allowed
    rw [ho.itemArray] at hm
    rcases Effect.mem_list hm with hold | hsent' | ⟨i, documents, read, heff, hr⟩
    · exact h.rows d item hold
    · exact hsent item hsent'
    · rw [heff] at hallowed
      obtain ⟨⟨userID, hload⟩, hmap⟩ := hallowed
      have hmem : some item ∈ (documents.flatMap (·.2.items)).map itemOfString := by
        rw [Lists.mapM_eq_some_iff.mp hmap]
        exact List.mem_map_of_mem hr
      obtain ⟨val, hval, hitem⟩ := List.mem_map.mp hmem
      obtain ⟨document, hd, hval⟩ := List.mem_flatMap.mp hval
      exact hread val item (h.answers d _ (List.mem_of_getElem? hload) documents rfl document hd val hval) hitem
  stored := by
    rw [World.step_users hs]
    exact h.stored.collection (fun item hm => hwrite item (h.rows d item hm)) fun item hm =>
      hwrite item (hsent item hm)
  answers := h.answers.step h.stored.whereName hs

end

/-! ## The invariant -/

def Readable (val : Text) : Prop := 3 ≤ val.count semicolon

structure Loadable (w : World) : Prop where
  named : Named w.server.users
  stored : Stored Readable w.server.users
  answers : Answered (fun _ documents => ∀ document ∈ documents, ∀ val ∈ document.2.items, Readable val) w

theorem loadable_empty : Loadable {} := ⟨named_empty, stored_empty _, answered_empty _⟩

theorem Loadable.step {w w' : World} {d : DeviceId} {e : Event} (h : Loadable w)
    (hs : w.step (d, e) = some w') : Loadable w' where
  named := h.named.step hs
  stored := by
    rw [World.step_users hs]
    exact h.stored.collection (fun item _ => count_convert item) fun item _ => count_convert item
  answers := h.answers.step h.stored.whereName hs

theorem Loadable.run {w w' : World} {es : List (DeviceId × Event)} (h : Loadable w)
    (hr : Runs.run World.step w es = some w') : Loadable w' :=
  Runs.run_invariant (fun _ _ _ h hs => h.step hs) h hr

/-! ## Completions -/

section
variable {w w' : World} {d : DeviceId} {i : Nat}

theorem Loadable.answered (h : Loadable w) (hs : w.step (d, .answered i) = some w') :
    ∃ userID, (w.device d).loads[i]? = some { userID } ∧ (w'.device d).loads[i]? = some {
      userID, answer := some ((w.server.users.lookup userID).toList.map fun doc => (userID, doc)) } := by
  obtain ⟨c, ho, rfl⟩ := World.step_outcome hs
  cases ho with
  | @answered i load hl ha =>
    have hlt : i < (w.device d).loads.length := (List.getElem?_eq_some_iff.mp hl).1
    refine ⟨load.userID, ?_, ?_⟩
    · rw [← ha]; exact hl
    · rw [World.put_device_self, ← h.named.whereName load.userID]
      exact List.getElem?_set_self hlt

theorem Loadable.loaded (h : Loadable w) (hs : w.step (d, .loaded i) = some w') :
    (w'.device d).running = true ∧ ∃ userID documents read,
      (w.device d).loads[i]? = some { userID, answer := some documents } ∧
      (w'.device d).itemArray = (w.device d).itemArray ++ read ∧
      read.map some = (documents.flatMap (·.2.items)).map itemOfString := by
  have hrunning : (w.device d).running = true :=
    Event.running_of_enabled (World.step_eq_some.mp hs).1 nofun
  obtain ⟨c, ho, rfl⟩ := World.step_outcome hs
  rw [World.put_device_self]
  cases ho with
  | @loaded i userID documents read hl hr =>
    exact ⟨hrunning, userID, documents, read, hl, rfl, (Lists.mapM_eq_some_iff.mp hr).symm⟩
  | @subscriptMissing i userID documents hl hr =>
    have hread : ∀ val ∈ documents.flatMap (·.2.items), (itemOfString val).isSome := by
      intro val hval
      obtain ⟨document, hd, hval⟩ := List.mem_flatMap.mp hval
      exact (itemOfString_isSome val).mpr
        (h.answers d _ (List.mem_of_getElem? hl) documents rfl document hd val hval)
    obtain ⟨read, hr'⟩ := Lists.exists_mapM_of_forall hread
    rw [hr] at hr'
    cases hr'

end

/-- **Loading never crashes on data the app wrote.** After any run of any number
of devices, every stored string has the components 0 to 3, a query for `uid` is
answered with `users/uid` as it is stored, and the completion of a load ends in
a running process that has appended one item for each string of its answer, in
their order. -/
theorem loading_never_crashes (es : List (DeviceId × Event)) (w : World)
    (hr : Runs.run World.step {} es = some w) :
    (∀ uid doc, w.server.users.lookup uid = some doc → ∀ val ∈ doc.items,
      3 ≤ val.count semicolon ∧ (itemOfString val).isSome) ∧
    (∀ d i w', w.step (d, .answered i) = some w' → ∃ userID,
      (w.device d).loads[i]? = some { userID } ∧ (w'.device d).loads[i]? = some {
        userID, answer := some ((w.server.users.lookup userID).toList.map fun doc => (userID, doc)) }) ∧
    (∀ d i w', w.step (d, .loaded i) = some w' → (w'.device d).running = true ∧
      ∃ userID documents read, (w.device d).loads[i]? = some { userID, answer := some documents } ∧
        (w'.device d).itemArray = (w.device d).itemArray ++ read ∧
        read.map some = (documents.flatMap (·.2.items)).map itemOfString) := by
  have hl : Loadable w := loadable_empty.run hr
  refine ⟨fun uid doc hd val hval => ?_, fun d i w' => hl.answered, fun d i w' => hl.loaded⟩
  have hread : Readable val := hl.stored uid doc hd val hval
  exact ⟨hread, (itemOfString_isSome val).mpr hread⟩

def reloaded : List (DeviceId × Event) :=
  [(0, .launch), (0, .register ['u'] true), (0, .save ⟨['a', ';', 'b'], ['1'], none⟩ true),
    (0, .launch), (0, .answered 0)]

/-- The item whose name has a `;` in it comes back as its first four parts. -/
theorem loading_never_crashes_reloaded : ∃ w w', Runs.run World.step {} reloaded = some w ∧
    w.step (0, .loaded 0) = some w' ∧ (w'.device 0).running = true ∧
    (w.device 0).itemArray = [] ∧ (w'.device 0).itemArray = [⟨['a'], ['b'], ['1'], noPicture⟩] := by
  obtain ⟨w, hw, w', hs, hnone, hrows⟩ : ∃ w, Runs.run World.step {} reloaded = some w ∧
      ∃ w', w.step (0, .loaded 0) = some w' ∧ (w.device 0).itemArray = [] ∧
        (w'.device 0).itemArray = [⟨['a'], ['b'], ['1'], noPicture⟩] := by decide
  exact ⟨w, w', hw, hs, ((loading_never_crashes reloaded w hw).2.2 0 0 w' hs).1, hnone, hrows⟩

end ShoppingList
