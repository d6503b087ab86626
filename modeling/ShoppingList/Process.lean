import ShoppingList.Loading
import ShoppingList.Tables
import ShoppingList.Uploads

/-!
# The life of the process

The app traps when a row is out of range, when a stored string has too few
components, and when an upload ends with nobody signed in. Each is excluded by
an invariant of its own, of the tables, of the documents and of the uploads. The
three together hold in every run in which UIKit keeps its rules. `FirebaseAuth`
may also end a session by itself, when it is told that a token is no longer good;
then a row deleted afterwards traps, and so such runs are left out.
-/

namespace ShoppingList

namespace Display

/-- UIKit drops the taps it is to ignore, and asks for cells of tables that have
been reloaded since their list was cleared or shortened. -/
def Orderly (s : Display) : DeviceId × TableEvent → Prop
  | (d, .event e) => s.world.Gated (d, e)
  | de => UpToDate s de

instance (s : Display) : DecidablePred (Orderly s)
  | (d, .event e) => inferInstanceAs (Decidable (s.world.Gated (d, e)))
  | (d, .drawn k row) => inferInstanceAs (Decidable (UpToDate s (d, .drawn k row)))
  | (_, .reloaded _) | (_, .moved ..) | (_, .highlighted _) => .isTrue trivial

structure Steady (s : Display) : Prop where
  tables : s.AllFit
  documents : Loadable s.world
  uploads : ∀ d, Exclusive (s.world.device d)

theorem steady_empty : Steady {} := ⟨allFit_empty, loadable_empty, fun _ => .of_nil rfl⟩

/-- No process ends. -/
def KeepsRunning (s s' : Display) : Prop :=
  ∀ d, (s.world.device d).running = true → (s'.world.device d).running = true

section
variable {s s' : Display} {d : DeviceId}

theorem Steady.same_world (h : s.Steady) (hw : s'.world = s.world) (hf : s'.AllFit) : s'.Steady :=
  ⟨hf, hw ▸ h.documents, hw ▸ h.uploads⟩

theorem KeepsRunning.same_world (hw : s'.world = s.world) : KeepsRunning s s' := fun d hr => by rwa [hw]

/-- The three traps of the handlers, one for each part of the invariant. -/
theorem Steady.outcome_running {e : Event} {c : Client} (h : s.Steady) (hrow : e.rowIn (s.screens d).onTop = true)
    (hw : s.world.step (d, e) = some (s.world.put d c)) (ho : Outcome (s.world.client d) e c)
    (hr : (s.world.device d).running = true) : c.running = true := by
  have hen := (World.step_eq_some.mp hw).1
  cases ho with
  | launched => rfl
  | @rowMissing row _ _ hnone =>
    simp only [Event.enabled, Bool.and_eq_true] at hen
    have hlt : row < (s.screens d).onTop.shown.length := of_decide_eq_true hrow
    have hsome := (h.tables d).top.row ((h.tables d).onTop hen.2) (List.getElem?_eq_getElem hlt)
    cases hnone.symm.trans hsome
  | subscriptMissing hl hread =>
    have hloaded := (h.documents.loaded hw).1
    rwa [World.put_device_self] at hloaded
  | uploadOrphaned hl hnone =>
    obtain ⟨uid, hu, -⟩ := (h.uploads d).owner _ (List.mem_of_getElem? hl)
    cases hnone.symm.trans hu
  | _ => exact hr

theorem Steady.event {e : Event} (h : s.Steady) (hc : s.world.Gated (d, e))
    (hs : s.step (d, .event e) = some s') : s'.Steady ∧ KeepsRunning s s' := by
  have hfit : s'.AllFit := h.tables.step hs
  simp only [Display.step] at hs
  split at hs
  · rename_i hrow
    obtain ⟨w, hw, rfl⟩ := Option.map_eq_some_iff.mp hs
    have hexclusive : ∀ d', Exclusive (w.device d') :=
      World.step_device h.uploads hw fun c ho => ho.exclusive hc (h.uploads d)
    refine ⟨⟨hfit, h.documents.step hw, hexclusive⟩, fun d' hr => ?_⟩
    obtain ⟨c, ho, rfl⟩ := World.step_outcome hw
    dsimp only
    by_cases hd : d' = d
    · subst hd
      rw [World.put_device_self]
      exact h.outcome_running hrow hw ho hr
    · rwa [World.put_device_ne _ hd]
  · cases hs

theorem Steady.ask {row : Nat} {item : Item} (h : s.Steady)
    (hrow : (s.world.device d).itemArray[row]? = some item) : (s.ask d row).Steady ∧ KeepsRunning s (s.ask d row) := by
  rw [ask_of_row hrow]
  exact ⟨h, fun _ hr => hr⟩

theorem Steady.step {e : TableEvent} (h : s.Steady) (hc : s.Orderly (d, e)) (hs : s.step (d, e) = some s') :
    s'.Steady ∧ KeepsRunning s s' := by
  cases e with
  | event e => exact h.event hc hs
  | reloaded k | moved k inWindow =>
    have hfit : s'.AllFit := h.tables.step hs
    simp only [Display.step] at hs
    split at hs
    · cases hs
      exact ⟨h.same_world rfl hfit, .same_world rfl⟩
    · cases hs
  | highlighted row =>
    obtain ⟨item, -, -, rfl⟩ := (h.tables.actsOnSeen hs).2 row rfl
    exact ⟨h, fun _ hr => hr⟩
  | drawn k row =>
    have hfresh : UpToDate s (d, .drawn k row) := hc
    have hlt := h.tables.drawsInRange hfresh hs
    have hrow := List.getElem?_eq_getElem hlt
    simp only [Display.step] at hs
    split at hs
    · cases hs
      exact h.ask hrow
    · cases hs

end

end Display

end ShoppingList
