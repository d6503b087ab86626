import ShoppingList.Agreement

/-!
# Deleting a row

A delete overwrites the stored array with the list, so it removes one string and
no more only where the list is a faithful copy. On one device it is one when
nothing is saved before the load has completed, and nothing that is stored.
-/

namespace ShoppingList

namespace Event

def isLoad : Event → Bool
  | .answered _ | .loaded _ | .loadFailed _ => true
  | _ => false

def loadFails : Event → Bool
  | .loadFailed _ => true
  | _ => false

end Event

/-- A save reaches the database after the load has completed and sends a new
string; the load fails only when there is nothing to load. -/
def LoadFirst (uid : Uid) (w : World) (de : DeviceId × Event) : Prop :=
  (de.2.effect (w.client de.1)).sent.isSome = true → (w.device de.1).loads = [] ∧ New uid w de

def FailsEmpty (uid : Uid) (w : World) (de : DeviceId × Event) : Prop :=
  de.2.loadFails = true → itemsOf w.server.users uid = some []

instance (uid : Uid) (w : World) (de : DeviceId × Event) : Decidable (LoadFirst uid w de) :=
  inferInstanceAs (Decidable (_ → _))

instance (uid : Uid) (w : World) (de : DeviceId × Event) : Decidable (FailsEmpty uid w de) :=
  inferInstanceAs (Decidable (_ → _))

/-- The list screen has just appeared: its load is under way and the list is empty. -/
@[mk_iff] structure Appeared (uid : Uid) (doc : UserDoc) (d : DeviceId) (w : World) : Prop where
  user : (w.device d).currentUser = some uid
  rows : (w.device d).itemArray = []
  loads : (w.device d).loads = [{ userID := uid }]
  document : w.server.users.lookup uid = some doc
  three : ∀ val ∈ doc.items, val.count semicolon = 3

instance (uid : Uid) (doc : UserDoc) (d : DeviceId) (w : World) : Decidable (Appeared uid doc d w) :=
  decidable_of_iff _ (appeared_iff uid doc d w).symm

/-! ## How far the load is -/

inductive Phase (uid : Uid) (doc : UserDoc) (d : Device) (users : Collection Uid UserDoc) : Prop
  | asked (hr : d.itemArray = []) (hl : d.loads = [{ userID := uid }]) (hd : users.lookup uid = some doc)
  | answered (hr : d.itemArray = []) (hl : d.loads = [answerOf uid doc]) (hd : users.lookup uid = some doc)
  | ended (hl : d.loads = []) (hm : Matches users uid d.itemArray)

namespace Phase

variable {uid : Uid} {doc : UserDoc} {d : Device} {users : Collection Uid UserDoc}

theorem matches_of_row (h : Phase uid doc d users) {row : Nat} (hrow : row < d.itemArray.length) :
    d.loads = [] ∧ Matches users uid d.itemArray := by
  cases h with
  | asked hr | answered hr => rw [hr] at hrow; exact absurd hrow (Nat.not_lt_zero _)
  | ended hl hm => exact ⟨hl, hm⟩

theorem matches_of_ended (h : Phase uid doc d users) (hl : d.loads = []) : Matches users uid d.itemArray := by
  cases h with
  | asked _ hl' | answered _ hl' => rw [hl] at hl'; cases hl'
  | ended _ hm => exact hm

end Phase

theorem getElem?_singleton_some {α : Type} {x y : α} {i : Nat} (h : [x][i]? = some y) : i = 0 ∧ x = y := by
  cases i with
  | zero => exact ⟨rfl, Option.some.inj h⟩
  | succ i => cases h

section
variable {uid : Uid} {doc : UserDoc} {c c' : Client} {e : Event}

theorem Phase.edit (h : Phase uid doc c.toDevice c.server.users) (ho : Outcome c e c') (he : e.Edit)
    (hu : c.currentUser = some uid)
    (hc : ∀ item ∈ (e.effect c).sent, c.loads = [] ∧
      ∀ vals ∈ itemsOf c.server.users uid, convertItemToString item ∉ vals) :
    Phase uid doc c'.toDevice c'.server.users := by
  obtain ⟨hedits, -, hloads⟩ := ho.edits he.1 hu
  have hrows := ho.itemArray
  have husers := ho.users
  have hallowed := ho.allowed
  generalize e.effect c = eff at hedits hrows husers hallowed hc
  have hended : c.loads = [] → Matches c.server.users uid c.itemArray →
      Phase uid doc c'.toDevice c'.server.users := by
    intro hl hm
    refine .ended (hloads.trans hl) ?_
    rw [hrows, husers]
    exact (hm.edit_iff hedits).mpr fun item hsent => (hc item hsent).2 _ hm
  cases eff with
  | keep =>
    -- the list and the array are what they were, and so is the phase
    cases h with
    | asked hr hl hd => exact .asked (hrows.trans hr) (hloads.trans hl) (husers ▸ hd)
    | answered hr hl hd => exact .answered (hrows.trans hr) (hloads.trans hl) (husers ▸ hd)
    | ended hl hm => exact hended hl hm
  | put uid' item upload accepted =>
    have hl := (hc item rfl).1
    exact hended hl (h.matches_of_ended hl)
  | remove uid' row accepted =>
    obtain ⟨hl, hm⟩ := h.matches_of_row hallowed.2
    exact hended hl hm
  | _ => exact hedits.elim

theorem Outcome.exists_load {i : Nat} (h : Outcome c (.loaded i) c') :
    ∃ userID documents, c.loads[i]? = some { userID, answer := some documents } := by
  cases h with
  | loaded hl | subscriptMissing hl => exact ⟨_, _, hl⟩

theorem Phase.load (h : Phase uid doc c.toDevice c.server.users) (ho : Outcome c e c')
    (he : e.isLoad = true) (h3 : ∀ val ∈ doc.items, val.count semicolon = 3) (hn : Named c.server.users)
    (hc : e.loadFails = true → itemsOf c.server.users uid = some []) :
    Phase uid doc c'.toDevice c'.server.users := by
  cases e with
  | answered i =>
    cases ho with
    | @answered i load hl ha =>
      cases h with
      | asked hr hl' hd =>
        rw [hl'] at hl
        obtain ⟨rfl, rfl⟩ := getElem?_singleton_some hl
        refine .answered hr ?_ hd
        simp only [hl', hn.whereName uid, hd]
        rfl
      | answered hr hl' hd =>
        rw [hl'] at hl
        obtain ⟨-, rfl⟩ := getElem?_singleton_some hl
        cases ha
      | ended hl' hm => rw [hl'] at hl; cases hl
  | loaded i =>
    obtain ⟨userID, documents, hl⟩ := ho.exists_load
    cases h with
    | asked hr hl' hd =>
      rw [hl'] at hl
      cases (getElem?_singleton_some hl).2
    | answered hr hl' hd =>
      rw [hl'] at hl
      obtain ⟨rfl, -⟩ := getElem?_singleton_some hl
      obtain ⟨read, rfl, hread, -⟩ := ho.loaded_three (by rw [hl']; rfl) h3
      refine .ended (by simp [hl']) ?_
      simp [Matches, itemsOf, hd, hr, hread]
    | ended hl' hm => rw [hl'] at hl; cases hl
  | loadFailed i =>
    cases ho with
    | loadFailed hl =>
      cases h with
      | asked hr hl' hd | answered hr hl' hd =>
        rw [hl'] at hl
        obtain ⟨rfl, -⟩ := getElem?_singleton_some hl
        refine .ended (by simp [hl']) ?_
        simp [Matches, hc rfl, hr]
      | ended hl' hm => rw [hl'] at hl; cases hl
  | _ => cases he

theorem Outcome.load_user (ho : Outcome c e c') (he : e.isLoad = true) : c'.currentUser = c.currentUser := by
  cases ho with
  | answered | loaded | subscriptMissing | loadFailed => rfl
  | _ => cases he

end

/-! ## Runs -/

/-- `row`'s string, once, is what the step takes out of the stored array, if the step is a delete. -/
def RemovesRow (uid : Uid) (w : World) (de : DeviceId × Event) (w' : World) : Prop :=
  ∀ row deleted accepted item, de.2 = .delete row deleted accepted →
    (w.device de.1).itemArray[row]? = some item → ∃ before after,
      itemsOf w.server.users uid = some before ∧ itemsOf w'.server.users uid = some after ∧
        Lists.RemovesOne (convertItemToString item) before after

structure Alone (uid : Uid) (doc : UserDoc) (d : DeviceId) (w : World) : Prop where
  named : Named w.server.users
  user : (w.device d).currentUser = some uid
  phase : Phase uid doc (w.device d) w.server.users

section
variable {uid : Uid} {doc : UserDoc} {d : DeviceId} {w w' : World} {e : Event}

theorem Alone.step (h : Alone uid doc d w) (h3 : ∀ val ∈ doc.items, val.count semicolon = 3)
    (he : e.Edit ∨ e.isLoad = true) (hf : LoadFirst uid w (d, e)) (hfails : FailsEmpty uid w (d, e))
    (hs : w.step (d, e) = some w') : Alone uid doc d w' := by
  have hn := h.named.step hs
  obtain ⟨c, ho, rfl⟩ := World.step_outcome hs
  refine ⟨hn, ?_, ?_⟩ <;> rw [World.put_device_self]
  · rcases he with he | he
    · exact (ho.edits he.1 h.user).2.1
    · exact (ho.load_user he).trans h.user
  · rcases he with he | he
    · refine h.phase.edit ho he h.user fun item hsent => ?_
      obtain ⟨hl, hnew⟩ := hf (Option.isSome_iff_exists.mpr ⟨item, hsent⟩)
      exact ⟨hl, hnew item hsent⟩
    · exact h.phase.load ho he h3 h.named hfails

theorem Alone.removesRow (h : Alone uid doc d w) (he : e.Edit ∨ e.isLoad = true)
    (hs : w.step (d, e) = some w') : RemovesRow uid w (d, e) w' := by
  rintro row deleted accepted item ⟨⟩ hrow
  have ha : accepted = true := he.elim (fun he => he.1) nofun
  subst ha
  have hm := (h.phase.matches_of_row (List.getElem?_eq_some_iff.mp hrow).1).2
  have heff : (Event.delete row deleted true).effect (w.client d) = .remove uid row true := by
    simp [Event.effect, hrow, h.user]
  refine ⟨_, _, hm, ?_, row, ?_, rfl⟩
  · rw [World.step_users hs, heff, List.eraseIdx_map]
    exact hm.remove row
  · rw [List.getElem?_map, hrow]
    rfl

/-- **A delete removes only what the user deleted**, in every run of one user on
one device whose load may be answered, complete or fail at any point, provided
that nothing is saved before the load has completed, that no save sends a stored
string, and that the load fails only when there is nothing to load. -/
theorem delete_removes_one (uid : Uid) (doc : UserDoc) (d : DeviceId) (w : World)
    (es : List (DeviceId × Event)) (hn : Named w.server.users) (hstart : Appeared uid doc d w)
    (hes : ∀ de ∈ es, de.1 = d ∧ (de.2.Edit ∨ de.2.isLoad = true))
    (hc : Runs.Along World.step (fun w de _ => LoadFirst uid w de ∧ FailsEmpty uid w de) w es) :
    Runs.Along World.step (fun w de w' => RemovesRow uid w de w') w es := by
  refine Runs.Along.conclude (I := Alone uid doc d) ?_ ?_
    ⟨hn, hstart.user, .asked hstart.rows hstart.loads hstart.document⟩ (hc.and (Runs.Along.of_forall w hes))
  · intro w de w' h hc hs
    obtain ⟨d', e⟩ := de
    obtain ⟨⟨hf, hfails⟩, hd, he⟩ := hc
    obtain rfl : d' = d := hd
    exact h.step hstart.three he hf hfails hs
  · intro w de w' h hc hs
    obtain ⟨d', e⟩ := de
    obtain ⟨-, hd, he⟩ := hc
    obtain rfl : d' = d := hd
    exact h.removesRow he hs

end

def restarted : List (DeviceId × Event) := signedIn ++ [(0, add 'x'), (0, .launch)]

def xString : Text := convertItemToString (bare 'x')

/-- A second item is saved and deleted while the load is under way: the first is gone too. -/
theorem early_delete_loses : ∃ w t w', Runs.run World.step {} restarted = some w ∧
    Appeared ['u'] ⟨[xString], ['u']⟩ 0 w ∧
    Runs.run World.step w [(0, add 'y')] = some t ∧
    (t.device 0).itemArray[0]? = some (bare 'y') ∧
    itemsOf t.server.users ['u'] = some [xString, convertItemToString (bare 'y')] ∧
    t.step (0, .delete 0 true true) = some w' ∧ itemsOf w'.server.users ['u'] = some [] ∧
    ¬RemovesRow ['u'] t (0, .delete 0 true true) w' := by
  obtain ⟨w, hw, hstart, t, ht, hrow, hbefore, w', hw', hafter⟩ : ∃ w,
      Runs.run World.step {} restarted = some w ∧ Appeared ['u'] ⟨[xString], ['u']⟩ 0 w ∧
      ∃ t, Runs.run World.step w [(0, add 'y')] = some t ∧
        (t.device 0).itemArray[0]? = some (bare 'y') ∧
        itemsOf t.server.users ['u'] = some [xString, convertItemToString (bare 'y')] ∧
        ∃ w', t.step (0, .delete 0 true true) = some w' ∧ itemsOf w'.server.users ['u'] = some [] := by
    decide
  refine ⟨w, t, w', hw, hstart, ht, hrow, hbefore, hw', hafter, fun hremoves => ?_⟩
  obtain ⟨before, after, hb, ha, i, hi, rfl⟩ := hremoves 0 true true _ rfl hrow
  rw [hbefore, Option.some.injEq] at hb
  subst hb
  have hlen := congrArg (Option.map List.length) (hafter.symm.trans ha)
  have hlt := (List.getElem?_eq_some_iff.mp hi).1
  rw [Option.map_some, Option.map_some, Option.some.injEq, List.length_eraseIdx, if_pos hlt] at hlen
  cases hlen

def loadThenDelete : List (DeviceId × Event) :=
  [(0, .answered 0), (0, .loaded 0), (0, add 'y'), (0, .delete 0 true true)]

theorem delete_removes_one_loaded : ∃ w, Appeared ['u'] ⟨[xString], ['u']⟩ 0 w ∧
    (Runs.run World.step w loadThenDelete).isSome ∧
    Runs.Along World.step (fun w de w' => RemovesRow ['u'] w de w') w loadThenDelete := by
  obtain ⟨w, hw, hstart, hsome, hc⟩ : ∃ w, Runs.run World.step {} restarted = some w ∧
      Appeared ['u'] ⟨[xString], ['u']⟩ 0 w ∧ (Runs.run World.step w loadThenDelete).isSome ∧
      Runs.Along World.step (fun w de _ => LoadFirst ['u'] w de ∧ FailsEmpty ['u'] w de) w loadThenDelete := by
    decide
  exact ⟨w, hstart, hsome, delete_removes_one _ _ _ _ _ (named_empty.run hw) hstart (by decide) hc⟩

end ShoppingList
