import ShoppingList.Server
import ShoppingList.Lib.DispatchGroup

/-!
# The app on one device

`Device` is the app's process on one device: the signed-in user, the shared
repository and the screens, with the requests that are under way. The code
runs in `App`, which reads and changes the device and the backend; `none` is a
trap, which ends the process.
-/

namespace ShoppingList

structure Load where
  userID : Uid
  answer : Option (List (Uid × UserDoc)) := none
  deriving DecidableEq, Repr

inductive Stage where
  | putData
  | downloadURL
  deriving DecidableEq, Repr

/-- A picture on its way to Storage, with what its callbacks have captured. -/
structure Upload where
  name : Text
  amount : Text
  imageName : Text
  stage : Stage := .putData
  /-- Who was signed in when Save was tapped; no code reads it. -/
  savedBy : Option Uid
  deriving DecidableEq, Repr

structure Device where
  running : Bool := false
  /-- `Auth.auth().currentUser`, which outlives the process. -/
  currentUser : Option Uid := none
  itemArray : List Item := []
  group : DispatchGroup := {}
  ignoring : Nat := 0
  animating : Bool := false
  warning : Option String := none
  loads : List Load := []
  uploads : List Upload := []

structure Client extends Device where
  server : Server

abbrev App := StateT Client Option

def trap {α : Type} : App α := failure

def currentUserID : App Uid := do
  match (← get).currentUser with
  | some uid => return uid
  | none => trap

def updateData (userID : Uid) (value : FieldValue) (accepted : Bool) : App Unit :=
  modify fun c => { c with server := c.server.updateData userID value accepted }

def dispatchGroup (f : DispatchGroup → DispatchGroup) : App Unit :=
  modify fun c => { c with group := f c.group }

@[simp] theorem trap_run {α : Type} (c : Client) : (trap : App α).run c = none := rfl

@[simp] theorem currentUserID_run (c : Client) :
    currentUserID.run c = c.currentUser.map fun uid => (uid, c) := by
  unfold currentUserID
  rw [StateT.run_bind, StateT.run_get]
  change StateT.run (match c.currentUser with | some uid => pure uid | none => trap) c = _
  cases c.currentUser <;> rfl

@[simp] theorem updateData_run (userID : Uid) (value : FieldValue) (accepted : Bool) (c : Client) :
    (updateData userID value accepted).run c =
      some ((), { c with server := c.server.updateData userID value accepted }) := rfl

@[simp] theorem dispatchGroup_run (f : DispatchGroup → DispatchGroup) (c : Client) :
    (dispatchGroup f).run c = some ((), { c with group := f c.group }) := rfl

end ShoppingList
