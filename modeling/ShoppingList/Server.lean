import ShoppingList.Item
import ShoppingList.Lib.Collection
import ShoppingList.Lib.Ledger

/-!
# The backend

Authentication keeps the accounts, Firestore the `users` collection with one
document for each user, and Storage the pictures by their path. A rejected
request changes nothing, and so does an update of a document that does not
exist. The app never reads a request's outcome.
-/

namespace ShoppingList

abbrev Uid := Text

def imagesFolder : Text := ['i', 'm', 'a', 'g', 'e', 's', '/']

structure UserDoc where
  items : List Text
  name : Uid
  deriving DecidableEq, Repr

/-- What `updateData` puts in the field `items`. -/
inductive FieldValue where
  | array (items : List Text)
  | arrayUnion (elements : List Text)

def FieldValue.apply : FieldValue → List Text → List Text
  | .array items, _ => items
  | .arrayUnion elements, items => elements.foldl Ledger.addAbsent items

@[simp] theorem FieldValue.apply_arrayUnion_one (s : Text) (items : List Text) :
    (arrayUnion [s]).apply items = Ledger.addAbsent items s := rfl

/-- `updateData` on `users/uid`. -/
def updateItems (users : Collection Uid UserDoc) (uid : Uid) (v : FieldValue) (accepted : Bool) :
    Collection Uid UserDoc :=
  if accepted then users.update uid fun doc => { doc with items := v.apply doc.items } else users

def itemsOf (users : Collection Uid UserDoc) (uid : Uid) : Option (List Text) :=
  (users.lookup uid).map (·.items)

structure Server where
  accounts : List Uid := []
  users : Collection Uid UserDoc := ∅
  /-- The paths of the stored pictures. -/
  images : List Text := []
  /-- The paths of the deletion requests Storage was sent, in order. -/
  deletions : List Text := []

namespace Server

def setData (s : Server) (uid : Uid) (doc : UserDoc) (accepted : Bool) : Server :=
  { s with users := if accepted then s.users.insert uid doc else s.users }

def updateData (s : Server) (uid : Uid) (v : FieldValue) (accepted : Bool) : Server :=
  { s with users := updateItems s.users uid v accepted }

/-- `whereField("name", isEqualTo: userID)`, with the documents' ids. -/
def whereName (s : Server) (userID : Uid) : List (Uid × UserDoc) :=
  s.users.select fun doc => doc.name = userID

def putImage (s : Server) (path : Text) : Server :=
  { s with images := Ledger.addAbsent s.images path }

def deleteImage (s : Server) (path : Text) (deleted : Bool) : Server :=
  { s with
    deletions := s.deletions ++ [path]
    images := if deleted then s.images.erase path else s.images }

end Server

/-! ## One document -/

section
variable (users : Collection Uid UserDoc) (uid : Uid) (v : FieldValue)

theorem itemsOf_updateItems_self :
    itemsOf (updateItems users uid v true) uid = (itemsOf users uid).map v.apply := by
  unfold itemsOf updateItems
  rw [if_pos rfl, Collection.lookup_update_self, Option.map_map, Option.map_map]
  rfl

theorem lookup_updateItems_ne {uid' : Uid} (h : uid' ≠ uid) (accepted : Bool) :
    (updateItems users uid v accepted).lookup uid' = users.lookup uid' := by
  unfold updateItems
  split
  · exact Collection.lookup_update_ne _ h
  · rfl

theorem forall_updateItems {P : Uid → UserDoc → Prop} (accepted : Bool)
    (h : ∀ u doc, users.lookup u = some doc → P u doc)
    (hv : ∀ doc, P uid doc → P uid { doc with items := v.apply doc.items }) :
    ∀ u doc, (updateItems users uid v accepted).lookup u = some doc → P u doc := by
  unfold updateItems
  split
  · exact Collection.forall_update h fun doc _ hdoc => hv doc hdoc
  · exact h

end

end ShoppingList
