import ShoppingList.Repository

/-!
# The screens

What the controllers do when the user taps and when a request completes. The
outcome of each request is a parameter. Texts and pictures come from the form
of the Add Item screen as it is when Save is tapped.
-/

namespace ShoppingList

/-! ## The list screen -/

/-- The segue to the tab bar: a new list screen, whose `viewDidLoad` calls
`getItems`, and a new Add Item screen, whose indicator is stopped. Blocks of an
earlier Add Item screen act on that screen only. -/
def showShoppingListView : App Unit := do
  let userID ← currentUserID
  modify fun c => { c with
    loads := c.loads ++ [{ userID }]
    animating := false
    group := c.group.forget }

def addStrings (items : List Text) : App Unit := do
  for val in items do
    match itemOfString val with
    | some item => addItemToArray item
    | none => trap

/-- The callback of `getItems`, for an answer without error. -/
def getItemsCompleted (i : Nat) : App Unit := do
  match (← get).loads[i]? with
  | some { userID := _, answer := some documents } =>
    modify fun c => { c with loads := c.loads.eraseIdx i }
    for document in documents do
      addStrings document.2.items
  | _ => pure ()

def getItemsFailed (i : Nat) : App Unit :=
  modify fun c => { c with loads := c.loads.eraseIdx i }

/-- `signOut` throws when `signedOut` is false. -/
def logoutPressed (signedOut : Bool) : App Unit := do
  if signedOut then
    modify fun c => { c with currentUser := none }
    clearItemArray

/-- `tableView(_:commit:forRowAt:)` with the style `.delete` -/
def deleteRow (row : Nat) (deleted accepted : Bool) : App Unit := do
  match (← getItemArray)[row]? with
  | some item =>
    if item.picture ≠ noPicture then
      deleteItemFromStorage imagesFolder item.pictureName deleted
    let itemArray := (← getItemArray).eraseIdx row
    setItemArray itemArray
    updateItemsInDatabase itemArray accepted
  | none => trap

/-! ## The Add Item screen -/

structure Picture where
  imageName : Text
  jpegData : Bool
  deriving DecidableEq, Repr

structure Form where
  name : Text
  amount : Text
  image : Option Picture
  deriving DecidableEq, Repr

def Form.item (form : Form) : Item :=
  { name := form.name, amount := form.amount, picture := noPicture, pictureName := noPicture }

def startStopActivityIndicator : App Unit := modify fun c => { c with animating := !c.animating }

def showWarning (message : String) : App Unit := modify fun c => { c with warning := some message }

def uploadImage (image : Picture) (form : Form) : App Unit := do
  addItemAndImage image.jpegData form.name form.amount image.imageName
  dispatchGroup .notify

def addItemWithoutImage (form : Form) (accepted : Bool) : App Unit := do
  putItemInDatabase form.item accepted
  dispatchGroup .notify

def saveClicked (form : Form) (accepted : Bool) : App Unit := do
  if form.name.isEmpty then
    showWarning "Please pick a valid name"
  -- the second check reads the text of the name field again
  else if form.name.isEmpty then
    showWarning "Please insert a valid amount"
  else
    match form.image with
    | some image => uploadImage image form
    | none => addItemWithoutImage form accepted
    startStopActivityIndicator

def notifyBlock : App Unit := do
  dispatchGroup .runBlock
  startStopActivityIndicator

/-! ## Signing in -/

def addUserToDatabase (written : Bool) : App Unit := do
  let userID ← currentUserID
  modify fun c => { c with server := c.server.setData userID { items := [], name := userID } written }

/-- The callback of `createUser`, which has created the account `uid` and signed it in. -/
def register (uid : Uid) (written : Bool) : App Unit := do
  modify fun c => { c with
    server := { c.server with accounts := uid :: c.server.accounts }
    currentUser := some uid }
  addUserToDatabase written
  showShoppingListView

def login (uid : Uid) : App Unit := do
  modify fun c => { c with currentUser := some uid }
  showShoppingListView

/-- A new process; the home screen goes on to the list when a user is signed in. -/
def launch : App Unit := do
  modify fun c => { running := true, currentUser := c.currentUser, server := c.server }
  if (← get).currentUser.isSome then
    showShoppingListView

/-! ## What they do -/

section
variable (c : Client)

@[simp] theorem startStopActivityIndicator_run :
    startStopActivityIndicator.run c = some ((), { c with animating := !c.animating }) := rfl

theorem showShoppingListView_run {uid : Uid} (hu : c.currentUser = some uid) :
    showShoppingListView.run c = some ((), { c with
      loads := c.loads ++ [{ userID := uid }]
      animating := false
      group := c.group.forget }) := by
  simp [showShoppingListView, hu]

theorem addStrings_run (items : List Text) : (addStrings items).run c =
    (items.mapM itemOfString).map fun read => ((), { c with itemArray := c.itemArray ++ read }) := by
  induction items generalizing c with
  | nil => simp [addStrings]
  | cons val items ih =>
    simp only [addStrings, List.forIn_cons, StateT.run_bind] at ih ⊢
    cases hv : itemOfString val with
    | none => simp [hv]
    | some item =>
      simp only [hv, List.mapM_cons, StateT.run_bind, StateT.run_pure] at ih ⊢
      simp at ih ⊢
      rw [ih]
      cases items.mapM itemOfString <;> simp

theorem getItemsCompleted_run {i : Nat} {userID : Uid} {documents : List (Uid × UserDoc)}
    (h : c.loads[i]? = some { userID, answer := some documents }) : (getItemsCompleted i).run c =
      ((documents.flatMap (·.2.items)).mapM itemOfString).map fun read =>
        ((), { c with loads := c.loads.eraseIdx i, itemArray := c.itemArray ++ read }) := by
  have hloop : ∀ (documents : List (Uid × UserDoc)) (c : Client),
      (documents.foldlM (fun _ document => addStrings document.2.items) PUnit.unit).run c =
        ((documents.flatMap (·.2.items)).mapM itemOfString).map fun read =>
          (PUnit.unit, { c with itemArray := c.itemArray ++ read }) := by
    intro documents
    induction documents with
    | nil => intro c; simp
    | cons document documents ih =>
      intro c
      simp only [List.foldlM_cons, StateT.run_bind, addStrings_run, List.flatMap_cons, List.mapM_append]
      cases document.2.items.mapM itemOfString with
      | none => rfl
      | some read =>
        simp only [Option.map_some, Option.bind_eq_bind, Option.bind_some, ih]
        cases (documents.flatMap (·.2.items)).mapM itemOfString <;> simp
  unfold getItemsCompleted
  simp only [StateT.run_bind, StateT.run_get, Option.pure_def, Option.bind_eq_bind, Option.bind_some]
  rw [h]
  simp [hloop]

theorem deleteRow_run {row : Nat} {item : Item} (h : c.itemArray[row]? = some item) {uid : Uid}
    (hu : c.currentUser = some uid) (deleted accepted : Bool) :
    (deleteRow row deleted accepted).run c = some ((), { c with
      itemArray := c.itemArray.eraseIdx row
      server := (if item.picture ≠ noPicture then
          c.server.deleteImage (imagesFolder ++ item.pictureName) deleted else c.server).updateData
        uid (.array ((c.itemArray.eraseIdx row).map convertItemToString)) accepted }) := by
  unfold deleteRow
  simp only [StateT.run_bind, getItemArray_run, Option.bind_eq_bind, Option.bind_some]
  rw [h]
  by_cases hp : item.picture = noPicture
  · simp only [hp, ne_eq, not_true_eq_false, ite_false]
    exact updateItemsInDatabase_run { c with itemArray := c.itemArray.eraseIdx row } hu _ accepted
  · simp only [hp, ne_eq, not_false_eq_true, ite_true]
    exact updateItemsInDatabase_run { c with
      itemArray := c.itemArray.eraseIdx row
      server := c.server.deleteImage (imagesFolder ++ item.pictureName) deleted } hu _ accepted

theorem deleteRow_trap {row : Nat} (h : c.itemArray[row]? = none) (deleted accepted : Bool) :
    (deleteRow row deleted accepted).run c = none := by
  unfold deleteRow
  simp only [StateT.run_bind, getItemArray_run, Option.bind_eq_bind, Option.bind_some]
  rw [h]
  rfl

theorem getItemsFailed_run (i : Nat) :
    (getItemsFailed i).run c = some ((), { c with loads := c.loads.eraseIdx i }) := rfl

theorem logoutPressed_run (signedOut : Bool) : (logoutPressed signedOut).run c =
    some ((), if signedOut then { c with currentUser := none, itemArray := [] } else c) := by
  cases signedOut <;> rfl

theorem notifyBlock_run : notifyBlock.run c =
    some ((), { c with group := c.group.runBlock, animating := !c.animating }) := rfl

theorem register_run (uid : Uid) (written : Bool) : (register uid written).run c =
    some ((), { c with
      server := { c.server with accounts := uid :: c.server.accounts }.setData uid
        { items := [], name := uid } written
      currentUser := some uid
      loads := c.loads ++ [{ userID := uid }]
      animating := false
      group := c.group.forget }) := rfl

theorem login_run (uid : Uid) : (login uid).run c = some ((), { c with
    currentUser := some uid
    loads := c.loads ++ [{ userID := uid }]
    animating := false
    group := c.group.forget }) := rfl

theorem launch_run : launch.run c = some ((), {
    running := true
    currentUser := c.currentUser
    loads := c.currentUser.toList.map fun uid => { userID := uid }
    server := c.server }) := by
  unfold launch
  simp only [StateT.run_bind, StateT.run_modify, StateT.run_get, Option.pure_def,
    Option.bind_eq_bind, Option.bind_some]
  cases h : c.currentUser with
  | none => rfl
  | some uid => exact showShoppingListView_run _ rfl

variable {form : Form}

theorem saveClicked_empty_run (hn : form.name = []) (accepted : Bool) : (saveClicked form accepted).run c =
    some ((), { c with warning := some "Please pick a valid name" }) := by
  unfold saveClicked
  rw [hn]
  rfl

theorem saveClicked_image_run (hn : form.name ≠ []) {image : Picture} (hi : form.image = some image)
    (accepted : Bool) : (saveClicked form accepted).run c = some ((), { c with
      group := c.group.enter.notify
      ignoring := c.ignoring + 1
      uploads := if image.jpegData then c.uploads ++ [{
          name := form.name
          amount := form.amount
          imageName := image.imageName
          savedBy := c.currentUser }] else c.uploads
      animating := !c.animating }) := by
  have he : form.name.isEmpty = false := List.isEmpty_eq_false_iff.mpr hn
  unfold saveClicked
  rw [he, hi]
  simp [uploadImage, addItemAndImage_run]

theorem saveClicked_item_run (hn : form.name ≠ []) (hi : form.image = none) {uid : Uid}
    (hu : c.currentUser = some uid) (accepted : Bool) :
    (saveClicked form accepted).run c = some ((), { c with
      server := c.server.updateData uid (.arrayUnion [convertItemToString form.item]) accepted
      itemArray := c.itemArray ++ [form.item]
      ignoring := c.ignoring - 1
      group := c.group.enter.leave.notify
      animating := !c.animating }) := by
  have he : form.name.isEmpty = false := List.isEmpty_eq_false_iff.mpr hn
  unfold saveClicked
  rw [he, hi]
  simp [addItemWithoutImage, putItemInDatabase_run _ hu]

end

end ShoppingList
