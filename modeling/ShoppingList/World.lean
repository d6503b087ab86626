import ShoppingList.Controllers
import ShoppingList.Lib.Runs

/-!
# Devices and the backend

Any number of devices share one backend. An event is a tap, the completion of a
request or the start of the app, on one device. A handler runs to its end
without interruption; a trap ends the device's process.

UIKit drops taps while interaction is ignored. `World.step` lets every tap
through; a run in which UIKit does its part is one whose steps are `Gated`.
-/

namespace ShoppingList

inductive Event where
  | launch
  | register (uid : Uid) (written : Bool)
  | login (uid : Uid)
  | logout (signedOut : Bool)
  | save (form : Form) (accepted : Bool)
  | delete (row : Nat) (deleted accepted : Bool)
  | answered (i : Nat)
  | loaded (i : Nat)
  | loadFailed (i : Nat)
  | putData (i : Nat) (ok : Bool)
  | downloadURL (i : Nat) (url : Option Text) (accepted : Bool)
  | notified
  deriving DecidableEq, Repr

namespace Event

def isTap : Event → Bool
  | .register .. | .login .. | .logout .. | .save .. | .delete .. => true
  | _ => false

/-- The sign-in screens are on when nobody is signed in, the list and the Add
Item screen when somebody is: the user changes by taps alone. -/
def enabled (c : Client) : Event → Bool
  | .launch => true
  | .register uid _ => c.running && c.currentUser.isNone && !c.server.accounts.contains uid
  | .login uid => c.running && c.currentUser.isNone && c.server.accounts.contains uid
  | .logout _ | .save .. | .delete .. => c.running && c.currentUser.isSome
  | .answered i => c.running && c.loads[i]?.any (·.answer.isNone)
  | .loaded i => c.running && c.loads[i]?.any (·.answer.isSome)
  | .loadFailed i => c.running && c.loads[i]?.isSome
  | .putData i _ => c.running && c.uploads[i]?.any (·.stage = .putData)
  | .downloadURL i .. => c.running && c.uploads[i]?.any (·.stage = .downloadURL)
  | .notified => c.running && 0 < c.group.queued

theorem running_of_enabled {c : Client} {e : Event} (h : e.enabled c = true) (hne : e ≠ .launch) :
    c.running = true := by
  cases e with
  | launch => exact absurd rfl hne
  | _ => simp_all [enabled]

def answer (i : Nat) : App Unit := modify fun c => { c with
  loads := c.loads.modify i fun load => { load with answer := some (c.server.whereName load.userID) } }

def handle : Event → App Unit
  | .launch => ShoppingList.launch
  | .register uid written => ShoppingList.register uid written
  | .login uid => ShoppingList.login uid
  | .logout signedOut => logoutPressed signedOut
  | .save form accepted => saveClicked form accepted
  | .delete row deleted accepted => deleteRow row deleted accepted
  | .answered i => answer i
  | .loaded i => getItemsCompleted i
  | .loadFailed i => getItemsFailed i
  | .putData i ok => putDataCompleted i ok
  | .downloadURL i url accepted => downloadURLCompleted i url accepted
  | .notified => notifyBlock

/-- The client after an event. No handler of an enabled event traps after it has
changed the backend, so a trap changes nothing but the process. -/
def after (e : Event) (c : Client) : Client :=
  match e.handle.run c with
  | some (_, c') => c'
  | none => { c with running := false }

theorem after_of_run (e : Event) {c c' : Client} (h : e.handle.run c = some ((), c')) : e.after c = c' := by
  rw [after, h]

theorem after_of_trap (e : Event) {c : Client} (h : e.handle.run c = none) :
    e.after c = { c with running := false } := by
  rw [after, h]

end Event

abbrev DeviceId := Nat

structure World where
  server : Server := {}
  device : DeviceId → Device := fun _ => {}

namespace World

def client (w : World) (d : DeviceId) : Client := { w.device d with server := w.server }

def put (w : World) (d : DeviceId) (c : Client) : World :=
  { server := c.server, device := Function.update w.device d c.toDevice }

def step (w : World) (de : DeviceId × Event) : Option World :=
  if de.2.enabled (w.client de.1) then some (w.put de.1 (de.2.after (w.client de.1))) else none

def Gated (w : World) (de : DeviceId × Event) : Prop :=
  de.2.isTap = true → (w.device de.1).ignoring = 0

instance (w : World) (de : DeviceId × Event) : Decidable (w.Gated de) :=
  inferInstanceAs (Decidable (_ → _))

@[simp] theorem client_toDevice (w : World) (d : DeviceId) : (w.client d).toDevice = w.device d := rfl

@[simp] theorem client_server (w : World) (d : DeviceId) : (w.client d).server = w.server := rfl

@[simp] theorem put_server (w : World) (d : DeviceId) (c : Client) : (w.put d c).server = c.server := rfl

@[simp] theorem put_device_self (w : World) (d : DeviceId) (c : Client) :
    (w.put d c).device d = c.toDevice := Function.update_self ..

theorem put_device_ne (w : World) {d d' : DeviceId} (h : d' ≠ d) (c : Client) :
    (w.put d c).device d' = w.device d' := Function.update_of_ne h ..

theorem step_eq_some {w w' : World} {d : DeviceId} {e : Event} : w.step (d, e) = some w' ↔
    e.enabled (w.client d) = true ∧ w' = w.put d (e.after (w.client d)) := by
  unfold step
  split
  · rename_i h
    exact ⟨fun hw => ⟨h, (Option.some.inj hw).symm⟩, fun hw => by rw [hw.2]⟩
  · rename_i h
    exact ⟨nofun, fun hw => absurd hw.1 h⟩

end World

/-! ## The first runs -/

/-- A user has registered and his list is loading. -/
def firstAnswer : List (DeviceId × Event) := [(0, .launch), (0, .register ['u'] true), (0, .answered 0)]

/-- His list has been loaded and is empty. -/
def signedIn : List (DeviceId × Event) := firstAnswer ++ [(0, .loaded 0)]

end ShoppingList
