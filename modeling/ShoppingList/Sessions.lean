import ShoppingList.Documents
import ShoppingList.Lib.Lists
import ShoppingList.Uploads

/-!
# Sessions on a shared device

The list is one for the whole process. Logging out empties it, but a load that
was started before may complete after, and even after the next login. `origins`
keeps beside each list whose every row is: the user whose document it was loaded
from, or the user who tapped Save.
-/

namespace ShoppingList

def Effect.origins : Effect → List (Option Uid) → List (Option Uid)
  | .clear, _ => []
  | .put uid _ none _, h => h ++ [some uid]
  | .put _ _ (some upload) _, h => h ++ [upload.savedBy]
  | .remove _ row _, h => h.eraseIdx row
  | .append _ documents _, h =>
    h ++ documents.flatMap fun document => document.2.items.map fun _ => some document.1
  | _, h => h

def origins (w : World) (de : DeviceId × Event) (_ : World) (h : DeviceId → List (Option Uid)) :
    DeviceId → List (Option Uid) :=
  Function.update h de.1 ((de.2.effect (w.client de.1)).origins (h de.1))

/-- A load that brings any string completes while its own user is signed in. -/
def OwnLoad (w : World) (de : DeviceId × Event) : Prop :=
  match de.2 with
  | .loaded i => ∀ load ∈ (w.device de.1).loads[i]?,
    (∃ document ∈ load.answer.getD [], document.2.items ≠ []) →
      (w.device de.1).currentUser = some load.userID
  | _ => True

instance (w : World) : ∀ de : DeviceId × Event, Decidable (OwnLoad w de)
  | (_, .loaded _) => inferInstanceAs (Decidable (∀ load ∈ _, _ → _))
  | (_, .launch) | (_, .register ..) | (_, .login ..) | (_, .logout ..) | (_, .save ..) | (_, .delete ..)
  | (_, .answered _) | (_, .loadFailed _) | (_, .putData ..) | (_, .downloadURL ..) | (_, .notified) =>
    .isTrue trivial

/-! ## The invariant on one device -/

structure OwnRows (d : Device) (h : List (Option Uid)) : Prop where
  length : h.length = d.itemArray.length
  user : ∀ origin ∈ h, origin ≠ none ∧ origin = d.currentUser

theorem Effect.length_origins {c : Client} {eff : Effect} {h : List (Option Uid)} (ha : eff.Allowed c)
    (hl : h.length = c.itemArray.length) : (eff.origins h).length = (eff.list c.itemArray).length := by
  cases eff with
  | put _ _ upload => cases upload <;> simp [origins, list, hl]
  | remove _ row => simp [origins, list, List.length_eraseIdx, hl]
  | append i documents read =>
    have hread := congrArg List.length (Lists.mapM_eq_some_iff.mp ha.2)
    rw [List.length_map, List.length_map, List.length_flatMap] at hread
    simp [origins, list, hl, List.length_flatMap, ← hread]
  | clear => rfl
  | _ => exact hl

theorem OwnRows.step {w : World} {d : DeviceId} {e : Event} {c : Client} {h : List (Option Uid)}
    (hown : OwnRows (w.device d) h) (hx : Exclusive (w.device d))
    (ha : Answered (fun uid documents => ∀ document ∈ documents, document.1 = uid) w)
    (hl : OwnLoad w (d, e)) (ho : Outcome (w.client d) e c) :
    OwnRows c.toDevice ((e.effect (w.client d)).origins h) := by
  refine ⟨?_, fun origin hm => ?_⟩
  · rw [ho.itemArray]
    exact Effect.length_origins ho.allowed hown.length
  have hnow : origin ≠ none ∧ origin = (w.device d).currentUser := by
    have hallowed := ho.allowed
    cases heff : e.effect (w.client d) with
    | keep | create => rw [heff] at hm; exact hown.user origin hm
    | clear => rw [heff] at hm; cases hm
    | remove uid row =>
      rw [heff] at hm
      exact hown.user origin (List.mem_of_mem_eraseIdx hm)
    | put uid item upload accepted =>
      rw [heff] at hm hallowed
      obtain ⟨hu, hup⟩ := hallowed
      cases upload with
      | none =>
        rcases List.mem_append.mp hm with hm | hm
        · exact hown.user origin hm
        · rw [List.mem_singleton] at hm
          exact ⟨by simp [hm], hm.trans hu.symm⟩
      | some upload =>
        rcases List.mem_append.mp hm with hm | hm
        · exact hown.user origin hm
        · rw [List.mem_singleton] at hm
          obtain ⟨uid', hu', hsaved⟩ := hx.owner upload (hup upload rfl)
          exact ⟨by simp [hm, hsaved], hm.trans (hsaved.trans hu'.symm)⟩
    | append i documents read =>
      rw [heff] at hm hallowed
      rcases List.mem_append.mp hm with hm | hm
      · exact hown.user origin hm
      · obtain ⟨document, hd, hm⟩ := List.mem_flatMap.mp hm
        obtain ⟨val, hval, rfl⟩ := List.mem_map.mp hm
        obtain ⟨⟨userID, hload⟩, -⟩ := hallowed
        obtain rfl := Event.effect_eq_append heff
        have hid : document.1 = userID := ha d _ (List.mem_of_getElem? hload) documents rfl document hd
        have hu : (w.device d).currentUser = some userID :=
          hl _ hload ⟨document, hd, List.ne_nil_of_mem hval⟩
        exact ⟨by simp, by rw [hid, hu]⟩
  refine ⟨hnow.1, hnow.2.trans ?_⟩
  rcases ho.currentUser with hu | hu | hclear
  · exact hu.symm
  · exact absurd (hnow.2.trans hu) hnow.1
  · rw [hclear] at hm; cases hm

/-! ## Runs -/

structure Own (w : World) (h : DeviceId → List (Option Uid)) : Prop where
  named : Named w.server.users
  answers : Answered (fun uid documents => ∀ document ∈ documents, document.1 = uid) w
  exclusive : ∀ d, Exclusive (w.device d)
  rows : ∀ d, OwnRows (w.device d) (h d)

theorem Named.answer {s : Server} (h : Named s.users) (uid : Uid) :
    ∀ document ∈ s.whereName uid, document.1 = uid := by
  rw [h.whereName uid]
  intro document hd
  obtain ⟨doc, -, rfl⟩ := List.mem_map.mp hd
  rfl

theorem Own.step {w w' : World} {d : DeviceId} {e : Event} {h : DeviceId → List (Option Uid)}
    (hown : Own w h) (hg : w.Gated (d, e)) (hl : OwnLoad w (d, e)) (hs : w.step (d, e) = some w') :
    Own w' (origins w (d, e) w' h) where
  named := hown.named.step hs
  answers := hown.answers.step hown.named.answer hs
  exclusive := World.step_device hown.exclusive hs fun _ ho => ho.exclusive hg (hown.exclusive d)
  rows := by
    obtain ⟨c, ho, rfl⟩ := World.step_outcome hs
    intro d'
    by_cases hd : d' = d
    · subst hd
      rw [World.put_device_self, origins, Function.update_self]
      exact (hown.rows d').step (hown.exclusive d') hown.answers hl ho
    · rw [World.put_device_ne w hd, origins, Function.update_of_ne hd]
      exact hown.rows d'

/-- **No user sees another user's items**, in any run of any number of devices
in which UIKit drops the taps it is to ignore, as long as no load that brings a
string completes after its own user has signed out: every row was loaded from
the document of the user now signed in, or saved by that user. -/
theorem own_rows (es : List (DeviceId × Event)) (p : World × (DeviceId → List (Option Uid)))
    (hg : Runs.Along World.step (fun w de _ => w.Gated de) {} es)
    (hl : Runs.Along World.step (fun w de _ => OwnLoad w de) {} es)
    (hr : Runs.run (Runs.record World.step origins) ({}, fun _ => []) es = some p) :
    ∀ d u, (p.1.device d).currentUser = some u →
      p.2 d = List.replicate (p.1.device d).itemArray.length (some u) := by
  have hown : Own p.1 p.2 := by
    refine Runs.Along.invariant (I := fun p => Own p.1 p.2)
      (C := fun p de _ => p.1.Gated de ∧ OwnLoad p.1 de) ?_ ?_ (hg.and hl).record hr
    · intro p de p' h hc hs
      obtain ⟨d, e⟩ := de
      obtain ⟨hgate, hload⟩ := hc
      obtain ⟨hs, horigins⟩ := Runs.record_some.mp hs
      rw [horigins]
      exact h.step hgate hload hs
    · exact ⟨named_empty, answered_empty _, fun _ => .of_nil rfl, fun _ => ⟨rfl, nofun⟩⟩
  intro d u hu
  obtain ⟨hlen, huser⟩ := hown.rows d
  exact List.eq_replicate_iff.mpr ⟨hlen, fun origin hm => (huser origin hm).2.trans hu⟩

/-- `u` logs out while the load is under way, and `v` registers. -/
def sharedDevice : List (DeviceId × Event) :=
  signedIn ++ [(0, add 'x'), (0, .launch), (0, .answered 0), (0, .logout true), (0, .register ['v'] true)]

theorem late_load_shows : ∃ p,
    Runs.run (Runs.record World.step origins) ({}, fun _ => []) (sharedDevice ++ [(0, .loaded 0)]) = some p ∧
    Runs.Along World.step (fun w de _ => w.Gated de) {} (sharedDevice ++ [(0, .loaded 0)]) ∧
    (p.1.device 0).currentUser = some ['v'] ∧ (p.1.device 0).itemArray = [bare 'x'] ∧
    p.2 0 = [some ['u']] := by
  obtain ⟨p, hp, h⟩ : ∃ p, Runs.run (Runs.record World.step origins) ({}, fun _ => [])
      (sharedDevice ++ [(0, .loaded 0)]) = some p ∧ (p.1.device 0).currentUser = some ['v'] ∧
        (p.1.device 0).itemArray = [bare 'x'] ∧ p.2 0 = [some ['u']] := by decide +kernel
  exact ⟨p, hp, by decide +kernel, h⟩

def inTurn : List (DeviceId × Event) :=
  signedIn ++ [(0, add 'x'), (0, .logout true), (0, .register ['v'] true), (0, .answered 0), (0, .loaded 0), (0, add 'y')]

theorem own_rows_inTurn : ∃ p,
    Runs.run (Runs.record World.step origins) ({}, fun _ => []) inTurn = some p ∧
    (p.1.device 0).itemArray = [bare 'y'] ∧ p.2 0 = [some ['v']] := by
  obtain ⟨p, hp, hu, hrows⟩ : ∃ p,
      Runs.run (Runs.record World.step origins) ({}, fun _ => []) inTurn = some p ∧
      (p.1.device 0).currentUser = some ['v'] ∧ (p.1.device 0).itemArray = [bare 'y'] := by decide +kernel
  refine ⟨p, hp, hrows, ?_⟩
  rw [own_rows inTurn p (by decide +kernel) (by decide +kernel) hp 0 ['v'] hu, hrows]
  rfl

end ShoppingList
