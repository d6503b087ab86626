import ShoppingList.Cells
import ShoppingList.Outcome

/-!
# Tables

A table has no items of its own. It takes the number of its rows from the shared
list when it is reloaded, and reads the list again, by position, when a row is
drawn, touched or deleted. Every sign-in opens a list screen with a new table.
The tables of earlier sessions stay in memory with their loads, and in the
window until the transition has ended.
-/

namespace ShoppingList

structure Table where
  /-- The list as it was when the table was last reloaded. -/
  shown : List Item := []
  inWindow : Bool := false
  /-- The list has since been cleared, or shortened from another table; no code reads it. -/
  outdated : Bool := false
  deriving DecidableEq, Repr

def Table.reloadData (itemArray : List Item) (t : Table) : Table :=
  { t with shown := itemArray, outdated := false }

def Table.outdate (t : Table) : Table := { t with outdated := true }

structure Screens where
  /-- The tables of the list screens this process has opened; the last one is on top. -/
  tables : List Table := []
  /-- For each load under way, the table its completion reloads. -/
  reloads : List Nat := []
  deriving DecidableEq, Repr

namespace Screens

def onTop (s : Screens) : Table := s.tables.getLast?.getD {}

def openList (s : Screens) : Screens :=
  { tables := s.tables ++ [{}], reloads := s.reloads ++ [s.tables.length] }

/-- What the handler of an event that took `c` to `c'` does to the tables. -/
def follow (c c' : Client) (s : Screens) : Event → Screens
  | .launch => if c'.currentUser.isSome then openList {} else {}
  | .register .. | .login .. => s.openList
  -- `logoutPressed` clears the list and reloads no table
  | .logout signedOut => if signedOut then { s with tables := s.tables.map .outdate } else s
  | .delete .. => { s with
      tables := (s.tables.map .outdate).modify (s.tables.length - 1) (.reloadData c'.itemArray) }
  | .loaded i =>
    match s.reloads[i]?, c.loads[i]? with
    | some k, some { userID := _, answer := some documents } => {
        tables := if documents = [] then s.tables else s.tables.modify k (.reloadData c'.itemArray)
        reloads := s.reloads.eraseIdx i }
    | _, _ => s
  | .loadFailed i => { s with reloads := s.reloads.eraseIdx i }
  | _ => s

end Screens

inductive TableEvent where
  /-- A delete is of a row of the table on top. -/
  | event (e : Event)
  /-- `viewDidAppear`, or the first layout of the table. -/
  | reloaded (k : Nat)
  | moved (k : Nat) (inWindow : Bool)
  | highlighted (row : Nat)
  /-- Table `k` asks for the cell of `row`. -/
  | drawn (k row : Nat)
  deriving DecidableEq, Repr

def Event.rowIn (t : Table) : Event → Bool
  | .delete row .. => row < t.shown.length
  | _ => true

structure Display where
  world : World := {}
  screens : DeviceId → Screens := fun _ => {}

namespace Display

def modifyTable (s : Display) (d : DeviceId) (k : Nat) (f : Table → Table) : Display :=
  let screens := s.screens d
  { s with screens := Function.update s.screens d { screens with tables := screens.tables.modify k f } }

/-- A data source method of a table, which changes nothing unless it traps. -/
def ask (s : Display) (d : DeviceId) (row : Nat) : Display :=
  match (itemAt row).run (s.world.client d) with
  | some _ => s
  | none => { s with world := s.world.put d { s.world.client d with running := false } }

def step (s : Display) : DeviceId × TableEvent → Option Display
  | (d, .event e) =>
    if e.rowIn (s.screens d).onTop then
      (s.world.step (d, e)).map fun w => {
        world := w
        screens := if (w.device d).running then
            Function.update s.screens d ((s.screens d).follow (s.world.client d) (w.client d) e)
          else s.screens }
    else none
  | (d, .reloaded k) =>
    if (s.world.device d).running then
      some (s.modifyTable d k (.reloadData (s.world.device d).itemArray))
    else none
  | (d, .moved k inWindow) =>
    if (s.world.device d).running then
      some (s.modifyTable d k fun t => { t with inWindow })
    else none
  | (d, .highlighted row) =>
    if (s.world.device d).running ∧ (s.world.device d).currentUser.isSome ∧
        row < (s.screens d).onTop.shown.length then
      some (s.ask d row)
    else none
  | (d, .drawn k row) =>
    if (s.world.device d).running ∧
        (s.screens d).tables[k]?.any (fun t => t.inWindow && row < t.shown.length) then
      some (s.ask d row)
    else none

end Display

/-! ## What the tables show -/

/-- The table shows the head of the list, unless it is outdated. -/
def Table.Fits (itemArray : List Item) (t : Table) : Prop := t.outdated = false → t.shown <+: itemArray

structure Fits (dev : Device) (s : Screens) : Prop where
  tables : ∀ t ∈ s.tables, t.Fits dev.itemArray
  onTop : dev.currentUser.isSome = true → s.onTop.outdated = false

theorem fits_empty (dev : Device) : Fits dev {} := ⟨nofun, fun _ => rfl⟩

namespace Table

variable {itemArray itemArray' : List Item} {t : Table}

theorem Fits.grow (h : t.Fits itemArray) (hp : itemArray <+: itemArray') : t.Fits itemArray' :=
  fun ho => (h ho).trans hp

theorem fits_reloadData (itemArray : List Item) (t : Table) : (t.reloadData itemArray).Fits itemArray :=
  fun _ => List.prefix_refl _

theorem fits_outdate (itemArray : List Item) (t : Table) : t.outdate.Fits itemArray := nofun

theorem fits_new (itemArray : List Item) : ({} : Table).Fits itemArray := fun _ => List.nil_prefix

theorem Fits.row (h : t.Fits itemArray) (ho : t.outdated = false) {row : Nat} {item : Item}
    (hrow : t.shown[row]? = some item) : itemArray[row]? = some item := by
  obtain ⟨rest, hrest⟩ := h ho
  have hlt : row < t.shown.length := (List.getElem?_eq_some_iff.mp hrow).1
  rw [← hrest, List.getElem?_append_left hlt, hrow]

end Table

section
variable {s : Screens} {k : Nat} {f : Table → Table}

theorem forall_modify {P : Table → Prop} {tables : List Table} (h : ∀ t ∈ tables, P t)
    (hf : ∀ t, P t → P (f t)) : ∀ t ∈ tables.modify k f, P t := by
  intro t hm
  obtain ⟨i, hi⟩ := List.mem_iff_getElem?.mp hm
  rw [List.getElem?_modify] at hi
  obtain ⟨t', ht', rfl⟩ := Option.map_eq_some_iff.mp hi
  have hp := h t' (List.mem_of_getElem? ht')
  split
  · exact hf t' hp
  · exact hp

theorem onTop_modify {P : Table → Prop} (h : P s.onTop) (hf : ∀ t, P t → P (f t)) :
    P { s with tables := s.tables.modify k f : Screens }.onTop := by
  unfold Screens.onTop at h ⊢
  rw [List.getLast?_eq_getElem?] at h ⊢
  rw [List.length_modify, List.getElem?_modify]
  cases hlast : s.tables[s.tables.length - 1]? with
  | none => rwa [hlast] at h
  | some t =>
    rw [hlast] at h
    rw [Option.map_eq_map, Option.map_some, Option.getD_some]
    split
    · exact hf t h
    · exact h

theorem onTop_modify_last (hf : ∀ t, (f t).outdated = false) :
    { s with tables := s.tables.modify (s.tables.length - 1) f : Screens }.onTop.outdated = false := by
  unfold Screens.onTop
  rw [List.getLast?_eq_getElem?, List.length_modify, List.getElem?_modify_eq]
  cases s.tables[s.tables.length - 1]? with
  | none => rfl
  | some t => exact hf t

end

namespace Fits

variable {c c' : Client} {dev : Device} {e : Event} {s : Screens}

theorem top (h : Fits dev s) : s.onTop.Fits dev.itemArray := by
  unfold Screens.onTop
  cases hlast : s.tables.getLast? with
  | none => exact Table.fits_new _
  | some t => exact h.tables t (List.mem_of_getLast? hlast)

theorem grow {dev' : Device} (h : Fits dev s) (hp : dev.itemArray <+: dev'.itemArray)
    (hu : dev'.currentUser = dev.currentUser) : Fits dev' s :=
  ⟨fun t hm => (h.tables t hm).grow hp, fun hs => h.onTop (hu ▸ hs)⟩

theorem modify {k : Nat} {f : Table → Table} (h : Fits dev s)
    (hf : ∀ t : Table, t.Fits dev.itemArray → (f t).Fits dev.itemArray)
    (ho : ∀ t : Table, t.outdated = false → (f t).outdated = false) :
    Fits dev { s with tables := s.tables.modify k f } :=
  ⟨forall_modify h.tables hf, fun hs => onTop_modify (h.onTop hs) ho⟩

theorem openList (h : Fits dev s) {dev' : Device} (hrows : dev'.itemArray = dev.itemArray) :
    Fits dev' s.openList := by
  refine ⟨fun t hm => ?_, fun _ => ?_⟩
  · rcases List.mem_append.mp hm with hm | hm
    · rw [hrows]
      exact h.tables t hm
    · rw [List.mem_singleton.mp hm]
      exact Table.fits_new _
  · simp [Screens.onTop, Screens.openList]

theorem outdated (itemArray : List Item) (s : Screens) :
    ∀ t ∈ s.tables.map Table.outdate, t.Fits itemArray := by
  intro t hm
  obtain ⟨t, -, rfl⟩ := List.mem_map.mp hm
  exact Table.fits_outdate _ t

theorem follow (h : Fits c.toDevice s) (ho : Outcome c e c') (hrun : c'.running = true) :
    Fits c'.toDevice (s.follow c c' e) := by
  cases ho with
  | launched =>
    simp only [Screens.follow]
    split
    · exact (fits_empty {}).openList rfl
    · exact fits_empty _
  | registered => exact h.openList rfl
  | loggedIn => exact h.openList rfl
  | loggedOut => exact ⟨outdated [] s, nofun⟩
  | signOutThrew => exact h
  | @deleted row deleted accepted item uid hr hu =>
    refine ⟨forall_modify (outdated _ s) fun t _ => Table.fits_reloadData _ t, fun _ => ?_⟩
    have htop := onTop_modify_last (s := { s with tables := s.tables.map Table.outdate })
      (f := .reloadData (c.itemArray.eraseIdx row)) fun _ => rfl
    rwa [List.length_map] at htop
  | rowMissing | subscriptMissing | uploadOrphaned => cases hrun
  | @loaded i userID documents read hl hr =>
    have hgrown : Fits { c.toDevice with loads := c.loads.eraseIdx i, itemArray := c.itemArray ++ read } s :=
      h.grow (List.prefix_append ..) rfl
    simp only [Screens.follow, hl]
    cases s.reloads[i]? with
    | none => exact hgrown
    | some k =>
      have hreloaded := hgrown.modify (k := k) (f := .reloadData (c.itemArray ++ read))
        (fun t _ => Table.fits_reloadData _ t) fun _ _ => rfl
      dsimp only
      split
      · exact ⟨hgrown.tables, hgrown.onTop⟩
      · exact ⟨hreloaded.tables, hreloaded.onTop⟩
  | loadFailed => exact ⟨h.tables, h.onTop⟩
  | saved | uploaded => exact h.grow (List.prefix_append ..) rfl
  | _ => exact h.grow (List.prefix_refl _) rfl

end Fits

theorem Outcome.trapped {c c' : Client} {e : Event} (ho : Outcome c e c') (hen : e.enabled c = true)
    (h : c'.running = false) : c' = { c with running := false } := by
  cases ho with
  | launched => cases h
  | rowMissing | subscriptMissing | uploadOrphaned => rfl
  | _ =>
    rw [Event.running_of_enabled hen nofun] at h
    cases h

/-! ## Runs -/

namespace Display

def AllFit (s : Display) : Prop := ∀ d, Fits (s.world.device d) (s.screens d)

theorem allFit_empty : AllFit {} := fun _ => fits_empty _

section
variable {s s' : Display} {d : DeviceId} {row : Nat}

theorem AllFit.update {w : World} {screens : Screens} (h : s.AllFit) (hd : Fits (w.device d) screens)
    (hne : ∀ d', d' ≠ d → w.device d' = s.world.device d') :
    AllFit { world := w, screens := Function.update s.screens d screens } := by
  intro d'
  by_cases hd' : d' = d
  · subst hd'
    simpa using hd
  · simpa [hd', hne d' hd'] using h d'

theorem AllFit.trap (h : s.AllFit) (d : DeviceId) :
    AllFit { s with world := s.world.put d { s.world.client d with running := false } } := by
  have hdevice : Fits ((s.world.put d { s.world.client d with running := false }).device d) (s.screens d) := by
    rw [World.put_device_self]
    exact ⟨(h d).tables, (h d).onTop⟩
  have hfits := h.update hdevice fun d' hd' => World.put_device_ne _ hd' _
  rwa [Function.update_eq_self] at hfits

theorem AllFit.event {e : Event} {w : World} (h : s.AllFit) (hs : s.world.step (d, e) = some w) :
    AllFit { world := w, screens := if (w.device d).running then
      Function.update s.screens d ((s.screens d).follow (s.world.client d) (w.client d) e) else s.screens } := by
  have hen := (World.step_eq_some.mp hs).1
  obtain ⟨c, ho, rfl⟩ := World.step_outcome hs
  have hclient : (s.world.put d c).client d = c := by simp [World.client]
  rw [World.put_device_self, hclient]
  split
  · rename_i hrun
    refine h.update ?_ fun d' hd' => World.put_device_ne _ hd' c
    rw [World.put_device_self]
    exact (h d).follow ho hrun
  · rename_i hrun
    rw [ho.trapped hen (Bool.eq_false_iff.mpr hrun)]
    exact h.trap d

theorem AllFit.ask (h : s.AllFit) (d : DeviceId) (row : Nat) : (s.ask d row).AllFit := by
  unfold Display.ask
  split
  · exact h
  · exact h.trap d

theorem ask_of_row {item : Item} (h : (s.world.device d).itemArray[row]? = some item) : s.ask d row = s := by
  unfold Display.ask
  rw [itemAt_run, World.client_toDevice, h]
  rfl

theorem AllFit.step {e : TableEvent} (h : s.AllFit) (hs : s.step (d, e) = some s') : s'.AllFit := by
  cases e with
  | event e =>
    simp only [Display.step] at hs
    split at hs
    · obtain ⟨w, hw, rfl⟩ := Option.map_eq_some_iff.mp hs
      exact h.event hw
    · cases hs
  | reloaded k =>
    simp only [Display.step] at hs
    split at hs
    · cases hs
      exact h.update ((h d).modify (fun t _ => Table.fits_reloadData _ t) fun _ _ => rfl) fun _ _ => rfl
    · cases hs
  | moved k inWindow =>
    simp only [Display.step] at hs
    split at hs
    · cases hs
      exact h.update ((h d).modify (fun _ ht => ht) fun _ ht => ht) fun _ _ => rfl
    · cases hs
  | highlighted row | drawn k row =>
    simp only [Display.step] at hs
    split at hs
    · cases hs
      exact h.ask d _
    · cases hs

end

end Display

/-- The row that is deleted or touched shows the item at its position in the
list, and a delete removes that item and no other. -/
def ActsOnSeen (s : Display) (de : DeviceId × TableEvent) (s' : Display) : Prop :=
  (∀ row deleted accepted, de.2 = .event (.delete row deleted accepted) → ∃ item,
    (s.screens de.1).onTop.shown[row]? = some item ∧ (s.world.device de.1).itemArray[row]? = some item ∧
    (s'.world.device de.1).itemArray = (s.world.device de.1).itemArray.eraseIdx row) ∧
  ∀ row, de.2 = .highlighted row → ∃ item, (s.screens de.1).onTop.shown[row]? = some item ∧
    (s.world.device de.1).itemArray[row]? = some item ∧ s' = s

/-- The picture that opens is that of the item in the row. -/
theorem Display.AllFit.highlighted {URL : Type} {s : Display} {d : DeviceId} {row : Nat} {item : Item}
    (h : s.AllFit) (hu : (s.world.device d).currentUser.isSome = true)
    (hshown : (s.screens d).onTop.shown[row]? = some item) (url : Text → Option URL) :
    (didHighlightRowAt url row).run (s.world.client d) =
      some (if item.pictureName ≠ noPicture then url item.picture else none, s.world.client d) := by
  have hrow := (h d).top.row ((h d).onTop hu) hshown
  rw [didHighlightRowAt_run, World.client_toDevice, hrow]
  rfl

theorem Display.AllFit.actsOnSeen {s s' : Display} {d : DeviceId} {e : TableEvent} (h : s.AllFit)
    (hs : s.step (d, e) = some s') : ActsOnSeen s (d, e) s' := by
  have hseen : ∀ row, (s.world.device d).currentUser.isSome = true →
      row < (s.screens d).onTop.shown.length → ∃ item, (s.screens d).onTop.shown[row]? = some item ∧
        (s.world.device d).itemArray[row]? = some item := by
    intro row hu hrow
    have hshown := List.getElem?_eq_getElem hrow
    exact ⟨_, hshown, (h d).top.row ((h d).onTop hu) hshown⟩
  refine ⟨?_, ?_⟩
  · rintro row deleted accepted ⟨⟩
    simp only [Display.step] at hs
    split at hs
    · rename_i hin
      obtain ⟨w, hw, rfl⟩ := Option.map_eq_some_iff.mp hs
      have hen := (World.step_eq_some.mp hw).1
      simp only [Event.enabled, Bool.and_eq_true] at hen
      obtain ⟨item, hshown, hrow⟩ := hseen row hen.2 (of_decide_eq_true hin)
      refine ⟨item, hshown, hrow, ?_⟩
      obtain ⟨c, ho, rfl⟩ := World.step_outcome hw
      rw [World.put_device_self]
      cases ho with
      | deleted => rfl
      | rowMissing hr => cases hr.symm.trans hrow
    · cases hs
  · rintro row ⟨⟩
    simp only [Display.step] at hs
    split at hs
    · rename_i hen
      cases hs
      obtain ⟨item, hshown, hrow⟩ := hseen row hen.2.1 hen.2.2
      exact ⟨item, hshown, hrow, Display.ask_of_row hrow⟩
    · cases hs

/-- **The user acts on the row he sees**, in any run of any number of devices and
users, whatever the order of sign-ins, loads, saves, uploads, deletes and reloads. -/
theorem acts_on_seen (es : List (DeviceId × TableEvent)) : Runs.Along Display.step ActsOnSeen {} es := by
  refine Runs.Along.conclude (I := Display.AllFit) (C := fun _ _ _ => True) ?_ ?_ Display.allFit_empty
    (Runs.Along.of_forall _ fun _ _ => trivial)
  · intro s de s' h _ hs
    obtain ⟨d, e⟩ := de
    exact h.step hs
  · intro s de s' h _ hs
    obtain ⟨d, e⟩ := de
    exact h.actsOnSeen hs

def listShown : List (DeviceId × TableEvent) :=
  [(0, .event .launch), (0, .event (.register ['u'] true)), (0, .moved 0 true), (0, .reloaded 0),
    (0, .event (.answered 0)), (0, .event (.loaded 0)), (0, .event (.save ⟨['x'], ['1'], none⟩ true)),
    (0, .reloaded 0)]

/-- The row that shows the item is touched, then deleted. -/
example : ∃ s, Runs.run Display.step {} (listShown ++ [(0, .highlighted 0)]) = some s ∧
    (s.screens 0).onTop.shown = [⟨['x'], ['1'], noPicture, noPicture⟩] ∧
    ∃ s', s.step (0, .event (.delete 0 true true)) = some s' ∧ (s'.world.device 0).itemArray = [] ∧
      (s'.screens 0).onTop.shown = [] := by decide

/-! ## Drawing -/

/-- A table that asks for a cell has been reloaded since the last sign-out and
since the last delete in another table. -/
def UpToDate (s : Display) : DeviceId × TableEvent → Prop
  | (d, .drawn k _) => ∀ t ∈ (s.screens d).tables[k]?, t.outdated = false
  | _ => True

/-- `getItemArray()[indexPath.row]` is in range when a cell is asked for. -/
def DrawsInRange (s : Display) : DeviceId × TableEvent → Prop
  | (d, .drawn _ row) => row < (s.world.device d).itemArray.length
  | _ => True

instance (s : Display) : DecidablePred (UpToDate s)
  | (d, .drawn k _) => inferInstanceAs (Decidable (∀ t ∈ (s.screens d).tables[k]?, t.outdated = false))
  | (_, .event _) | (_, .reloaded _) | (_, .moved ..) | (_, .highlighted _) => .isTrue trivial

instance (s : Display) : DecidablePred (DrawsInRange s)
  | (d, .drawn _ row) => inferInstanceAs (Decidable (row < (s.world.device d).itemArray.length))
  | (_, .event _) | (_, .reloaded _) | (_, .moved ..) | (_, .highlighted _) => .isTrue trivial

theorem Display.drawn_some {s s' : Display} {d : DeviceId} {k row : Nat}
    (h : s.step (d, .drawn k row) = some s') :
    ∃ t item, (s.screens d).tables[k]? = some t ∧ t.shown[row]? = some item := by
  simp only [Display.step] at h
  split at h
  · rename_i hen
    simp only [Option.any_eq_true, Bool.and_eq_true, decide_eq_true_eq] at hen
    obtain ⟨-, t, ht, -, hrow⟩ := hen
    exact ⟨t, _, ht, List.getElem?_eq_getElem hrow⟩
  · cases h

/-- The cell is configured for the item that the table was reloaded with. -/
theorem Display.AllFit.drawn {URL Image : Type} {s : Display} {d : DeviceId} {k row : Nat} {t : Table}
    {item : Item} (h : s.AllFit) (ht : (s.screens d).tables[k]? = some t) (hshown : t.shown[row]? = some item)
    (hc : UpToDate s (d, .drawn k row)) (url : Text → Option URL) (cell : Cell URL Image) :
    (cellForRowAt url row cell).run (s.world.client d) = some (cell.configure url item, s.world.client d) := by
  have hrow := ((h d).tables t (List.mem_of_getElem? ht)).row (hc t ht) hshown
  rw [cellForRowAt_run, World.client_toDevice, hrow]
  rfl

theorem Display.AllFit.drawsInRange {s s' : Display} {de : DeviceId × TableEvent} (h : s.AllFit)
    (hc : UpToDate s de) (hs : s.step de = some s') : DrawsInRange s de := by
  obtain ⟨d, e⟩ := de
  cases e with
  | drawn k row =>
    obtain ⟨t, item, ht, hshown⟩ := Display.drawn_some hs
    have hrow := ((h d).tables t (List.mem_of_getElem? ht)).row (hc t ht) hshown
    exact (List.getElem?_eq_some_iff.mp hrow).1
  | _ => trivial

/-- **Drawing stays within the list** in every run in which a table is asked for
no cell between a sign-out and its next reload, nor between a delete made in
another table and its next reload. -/
theorem draws_in_range (es : List (DeviceId × TableEvent))
    (hc : Runs.Along Display.step (fun s de _ => UpToDate s de) {} es) :
    Runs.Along Display.step (fun s de _ => DrawsInRange s de) {} es := by
  refine Runs.Along.conclude (I := Display.AllFit) ?_ ?_ Display.allFit_empty hc
  · intro s de s' h _ hs
    obtain ⟨d, e⟩ := de
    exact h.step hs
  · exact fun s de s' h hc hs => h.drawsInRange hc hs

def signOut : DeviceId × TableEvent := (0, .event (.logout true))

def drawFirst : DeviceId × TableEvent := (0, .drawn 0 0)

/-- A row is drawn between the tap on Logout and the end of the transition. -/
theorem drawn_after_logout : ¬Runs.Along Display.step (fun s de _ => DrawsInRange s de) {}
      (listShown ++ [drawFirst, signOut, drawFirst]) ∧
    ∃ s, Runs.run Display.step {} (listShown ++ [drawFirst, signOut]) = some s ∧
      (s.world.device 0).running = true ∧
      ∃ s', s.step drawFirst = some s' ∧ (s'.world.device 0).running = false := by decide

theorem draws_in_range_listShown :
    (Runs.run Display.step {} (listShown ++ [drawFirst, signOut])).isSome = true ∧
    Runs.Along Display.step (fun s de _ => DrawsInRange s de) {} (listShown ++ [drawFirst, signOut]) :=
  ⟨by decide, draws_in_range _ (by decide)⟩

end ShoppingList
