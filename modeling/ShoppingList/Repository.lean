import ShoppingList.Device

/-!
# The item repository

`ItemRepository`, the process-wide list of items and the requests that keep it
and the user's document in step. Each function has a lemma that says what it
does to the client; its callers use that lemma only.
-/

namespace ShoppingList

def getItemArray : App (List Item) := do return (← get).itemArray

def addItemToArray (item : Item) : App Unit :=
  modify fun c => { c with itemArray := c.itemArray ++ [item] }

def setItemArray (array : List Item) : App Unit := modify fun c => { c with itemArray := array }

def clearItemArray : App Unit := modify fun c => { c with itemArray := [] }

def disableInteraction (disable : Bool) : App Unit :=
  modify fun c => { c with ignoring := if disable then c.ignoring + 1 else c.ignoring - 1 }

/-- The image is known by whether it has JPEG data. Its name is a fresh UUID,
and `putData` is under way on return. -/
def addItemAndImage (jpegData : Bool) (name amount imageName : Text) : App Unit := do
  dispatchGroup .enter
  disableInteraction true
  if jpegData then
    modify fun c => { c with
      uploads := c.uploads ++ [{ name, amount, imageName, savedBy := c.currentUser }] }

def putItemInDatabase (item : Item) (accepted : Bool) : App Unit := do
  dispatchGroup .enter
  let userID ← currentUserID
  let itemString := convertItemToString item
  updateData userID (.arrayUnion [itemString]) accepted
  addItemToArray item
  disableInteraction false
  dispatchGroup .leave

/-- The callback of `putData`. -/
def putDataCompleted (i : Nat) (ok : Bool) : App Unit := do
  match (← get).uploads[i]? with
  | some upload =>
    if ok then
      modify fun c => { c with
        server := c.server.putImage (imagesFolder ++ upload.imageName)
        uploads := c.uploads.set i { upload with stage := .downloadURL } }
    else
      modify fun c => { c with uploads := c.uploads.eraseIdx i }
  | none => pure ()

def Upload.item (upload : Upload) (imageLink : Text) : Item :=
  { name := upload.name, amount := upload.amount, picture := imageLink, pictureName := upload.imageName }

/-- The callback of `downloadURL`. -/
def downloadURLCompleted (i : Nat) (url : Option Text) (accepted : Bool) : App Unit := do
  match (← get).uploads[i]? with
  | some upload =>
    modify fun c => { c with uploads := c.uploads.eraseIdx i }
    match url with
    | some imageLink =>
      putItemInDatabase (upload.item imageLink) accepted
      dispatchGroup .leave
    | none => pure ()
  | none => pure ()

def updateItemsInDatabase (itemArray : List Item) (accepted : Bool) : App Unit := do
  let userID ← currentUserID
  let mut itemsInString := []
  for item in itemArray do
    itemsInString := itemsInString ++ [convertItemToString item]
  updateData userID (.array itemsInString) accepted

def deleteItemFromStorage (folderName itemName : Text) (deleted : Bool) : App Unit :=
  modify fun c => { c with server := c.server.deleteImage (folderName ++ itemName) deleted }

/-! ## What they do -/

section
variable (c : Client)

@[simp] theorem getItemArray_run : getItemArray.run c = some (c.itemArray, c) := rfl

@[simp] theorem addItemToArray_run (item : Item) :
    (addItemToArray item).run c = some ((), { c with itemArray := c.itemArray ++ [item] }) := rfl

@[simp] theorem setItemArray_run (array : List Item) :
    (setItemArray array).run c = some ((), { c with itemArray := array }) := rfl

@[simp] theorem clearItemArray_run : clearItemArray.run c = some ((), { c with itemArray := [] }) := rfl

@[simp] theorem disableInteraction_run (disable : Bool) : (disableInteraction disable).run c =
    some ((), { c with ignoring := if disable then c.ignoring + 1 else c.ignoring - 1 }) := rfl

@[simp] theorem deleteItemFromStorage_run (folderName itemName : Text) (deleted : Bool) :
    (deleteItemFromStorage folderName itemName deleted).run c =
      some ((), { c with server := c.server.deleteImage (folderName ++ itemName) deleted }) := rfl

theorem addItemAndImage_run (jpegData : Bool) (name amount imageName : Text) :
    (addItemAndImage jpegData name amount imageName).run c = some ((), { c with
      group := c.group.enter
      ignoring := c.ignoring + 1
      uploads := if jpegData then
          c.uploads ++ [{ name, amount, imageName, savedBy := c.currentUser }] else c.uploads }) := by
  cases jpegData <;> rfl

theorem putItemInDatabase_run {uid : Uid} (hu : c.currentUser = some uid) (item : Item)
    (accepted : Bool) : (putItemInDatabase item accepted).run c = some ((), { c with
      server := c.server.updateData uid (.arrayUnion [convertItemToString item]) accepted
      itemArray := c.itemArray ++ [item]
      ignoring := c.ignoring - 1
      group := c.group.enter.leave }) := by
  simp [putItemInDatabase, hu]

theorem putItemInDatabase_trap (hu : c.currentUser = none) (item : Item) (accepted : Bool) :
    (putItemInDatabase item accepted).run c = none := by
  simp [putItemInDatabase, hu]

theorem putDataCompleted_run {i : Nat} {upload : Upload} (h : c.uploads[i]? = some upload) (ok : Bool) :
    (putDataCompleted i ok).run c = some ((), if ok then { c with
      server := c.server.putImage (imagesFolder ++ upload.imageName)
      uploads := c.uploads.set i { upload with stage := .downloadURL } }
      else { c with uploads := c.uploads.eraseIdx i }) := by
  simp only [putDataCompleted, StateT.run_bind, StateT.run_get, Option.pure_def, Option.bind_eq_bind,
    Option.bind_some, h]
  cases ok <;> rfl

theorem downloadURLCompleted_none_run {i : Nat} {upload : Upload} (h : c.uploads[i]? = some upload)
    (accepted : Bool) : (downloadURLCompleted i none accepted).run c =
      some ((), { c with uploads := c.uploads.eraseIdx i }) := by
  simp only [downloadURLCompleted, StateT.run_bind, StateT.run_get, Option.pure_def,
    Option.bind_eq_bind, Option.bind_some, h]
  rfl

theorem downloadURLCompleted_some_run {i : Nat} {upload : Upload} (h : c.uploads[i]? = some upload)
    {uid : Uid} (hu : c.currentUser = some uid) (imageLink : Text) (accepted : Bool) :
    (downloadURLCompleted i (some imageLink) accepted).run c = some ((), { c with
      uploads := c.uploads.eraseIdx i
      server := c.server.updateData uid
        (.arrayUnion [convertItemToString (upload.item imageLink)]) accepted
      itemArray := c.itemArray ++ [upload.item imageLink]
      ignoring := c.ignoring - 1
      group := c.group.enter.leave.leave }) := by
  simp only [downloadURLCompleted, StateT.run_bind, StateT.run_get, StateT.run_modify,
    Option.pure_def, Option.bind_eq_bind, Option.bind_some, h]
  rw [putItemInDatabase_run { c with uploads := c.uploads.eraseIdx i } hu]
  rfl

theorem downloadURLCompleted_trap {i : Nat} {upload : Upload} (h : c.uploads[i]? = some upload)
    (hu : c.currentUser = none) (imageLink : Text) (accepted : Bool) :
    (downloadURLCompleted i (some imageLink) accepted).run c = none := by
  simp only [downloadURLCompleted, StateT.run_bind, StateT.run_get, StateT.run_modify,
    Option.pure_def, Option.bind_eq_bind, Option.bind_some, h]
  rw [putItemInDatabase_trap { c with uploads := c.uploads.eraseIdx i } hu]
  rfl

theorem updateItemsInDatabase_run {uid : Uid} (hu : c.currentUser = some uid) (itemArray : List Item)
    (accepted : Bool) : (updateItemsInDatabase itemArray accepted).run c = some ((), { c with
      server := c.server.updateData uid (.array (itemArray.map convertItemToString)) accepted }) := by
  have hloop : (itemArray.map fun item => [convertItemToString item]).flatten =
      itemArray.map convertItemToString := by
    induction itemArray with
    | nil => rfl
    | cons item items ih => rw [List.map_cons, List.flatten_cons, ih]; rfl
  simp [updateItemsInDatabase, hu, hloop]

end

end ShoppingList
