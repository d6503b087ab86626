import ShoppingList.Item
import Mathlib.Tactic.Common

/-!
# Documents of the Firestore client

A document's data is a dictionary of values, some of which are dictionaries
again, and a field is addressed by its path. `σ` stands for the values that
have no parts (strings, numbers, null and so on), of which the client asks only
whether two are equal. A timestamp that the backend has still to give is a value
of its own.
-/

namespace ShoppingList.Firestore

variable {K σ : Type}

/-- `HARD_ASSERT`, with its message. -/
abbrev Checked := Except String

def hardAssert (condition : Bool) (message : String) : Checked Unit :=
  if condition then .ok () else .error message

@[simp] theorem hardAssert_true (message : String) : hardAssert true message = .ok () := rfl

theorem hardAssert_ok {condition : Bool} (h : condition = true) (message : String) :
    hardAssert condition message = .ok () := by rw [h]; rfl

/-- The time on the device's clock. -/
abbrev Timestamp := Nat

inductive Value (σ : Type) where
  | scalar (s : σ)
  | serverTimestamp (localWriteTime : Timestamp) (previousValue : Option (Value σ))
  | array (elements : List (Value σ))
  | object (fields : List (Text × Value σ))

section
variable [DecidableEq σ]

mutual

/-- Of a timestamp that is to come only the time of the write counts. -/
def Value.isEqual : Value σ → Value σ → Bool
  | .scalar s, .scalar t => s = t
  | .serverTimestamp localWriteTime _, .serverTimestamp localWriteTime' _ => localWriteTime = localWriteTime'
  | .array xs, .array ys => Value.isEqualElements xs ys
  | .object xs, .object ys => Value.isEqualFields xs ys
  | _, _ => false

def Value.isEqualElements : List (Value σ) → List (Value σ) → Bool
  | [], [] => true
  | x :: xs, y :: ys => x.isEqual y && Value.isEqualElements xs ys
  | _, _ => false

def Value.isEqualFields : List (Text × Value σ) → List (Text × Value σ) → Bool
  | [], [] => true
  | (name, x) :: xs, (name', y) :: ys => name = name' && x.isEqual y && Value.isEqualFields xs ys
  | _, _ => false

end

end

/-! ## Fields -/

abbrev FieldPath := List Text

/-- `FSTObjectValue`, a dictionary sorted by its keys. -/
abbrev ObjectValue (σ : Type) := List (Text × Value σ)

namespace ObjectValue

def get (name : Text) : ObjectValue σ → Option (Value σ)
  | [] => none
  | (name', v) :: fields => if name = name' then some v else get name fields

/-- `objectBySettingValue:forField:` -/
def setField (name : Text) (value : Value σ) : ObjectValue σ → ObjectValue σ
  | [] => [(name, value)]
  | (name', v) :: fields =>
    if name = name' then (name, value) :: fields
    else if name < name' then (name, value) :: (name', v) :: fields
    else (name', v) :: setField name value fields

def removeField (name : Text) (fields : ObjectValue σ) : ObjectValue σ :=
  fields.filter fun field => field.1 ≠ name

def childObject (name : Text) (fields : ObjectValue σ) : ObjectValue σ :=
  match fields.get name with
  | some (.object child) => child
  | _ => []

/-- `objectBySettingValue:forPath:` -/
def objectBySettingValue (value : Value σ) : FieldPath → ObjectValue σ → Checked (ObjectValue σ)
  | [], _ => .error "Cannot set value with an empty path"
  | [name], fields => .ok (fields.setField name value)
  | name :: name' :: path, fields => do
    let newChild ← objectBySettingValue value (name' :: path) (fields.childObject name)
    return fields.setField name (.object newChild)

def objectByDeletingPath : FieldPath → ObjectValue σ → Checked (ObjectValue σ)
  | [], _ => .error "Cannot delete an empty path"
  | [name], fields => .ok (fields.removeField name)
  | name :: name' :: path, fields =>
    match fields.get name with
    | some (.object child) => do
      let newChild ← objectByDeletingPath (name' :: path) child
      return fields.setField name (.object newChild)
    | _ => .ok fields

/-- What `objectBySettingValue` comes to for a path that is not empty. -/
def setPath (value : Value σ) : FieldPath → ObjectValue σ → ObjectValue σ
  | [], fields => fields
  | [name], fields => fields.setField name value
  | name :: name' :: path, fields =>
    fields.setField name (.object (setPath value (name' :: path) (fields.childObject name)))

/-- What `objectByDeletingPath` comes to for a path that is not empty. -/
def deletePath : FieldPath → ObjectValue σ → ObjectValue σ
  | [], fields => fields
  | [name], fields => fields.removeField name
  | name :: name' :: path, fields =>
    match fields.get name with
    | some (.object child) => fields.setField name (.object (deletePath (name' :: path) child))
    | _ => fields

theorem objectBySettingValue_eq {value : Value σ} : ∀ {path : FieldPath} {fields : ObjectValue σ}, path ≠ [] →
    fields.objectBySettingValue value path = .ok (fields.setPath value path)
  | [], _, h => absurd rfl h
  | [_], _, _ => rfl
  | name :: name' :: path, fields, _ => by
    rw [objectBySettingValue, objectBySettingValue_eq (List.cons_ne_nil name' path)]
    rfl

theorem objectByDeletingPath_eq : ∀ {path : FieldPath} {fields : ObjectValue σ}, path ≠ [] →
    fields.objectByDeletingPath path = .ok (fields.deletePath path)
  | [], _, h => absurd rfl h
  | [_], _, _ => rfl
  | name :: name' :: path, fields, _ => by
    rw [objectByDeletingPath, deletePath]
    split
    · rw [objectByDeletingPath_eq (List.cons_ne_nil name' path)]
      rfl
    · rfl

end ObjectValue

def Value.valueForPath : Value σ → FieldPath → Option (Value σ)
  | v, [] => some v
  | .object fields, name :: path => (ObjectValue.get name fields).bind fun v => valueForPath v path
  | .scalar _, _ :: _ | .serverTimestamp .., _ :: _ | .array _, _ :: _ => none

def ObjectValue.valueForPath (fields : ObjectValue σ) (path : FieldPath) : Option (Value σ) :=
  (Value.object fields).valueForPath path

namespace ObjectValue

variable {fields : ObjectValue σ} {name name' : Text}

theorem get_setField (value : Value σ) : (fields.setField name value).get name' =
    if name' = name then some value else fields.get name' := by
  induction fields with
  | nil => rfl
  | cons field fields ih =>
    obtain ⟨n, v⟩ := field
    unfold setField
    split
    · rename_i hn
      subst hn
      simp only [get]
      split <;> rfl
    · split
      · rfl
      · simp only [get, ih]
        split
        · rename_i hne _ hn
          have hapart : name' ≠ name := fun h => hne (h.symm.trans hn)
          rw [if_neg hapart]
        · rfl

theorem get_removeField : (fields.removeField name).get name' = if name' = name then none else fields.get name' := by
  unfold removeField
  induction fields with
  | nil => split <;> rfl
  | cons field fields ih =>
    obtain ⟨n, v⟩ := field
    rw [List.filter_cons]
    by_cases hn : n = name
    · subst hn
      rw [if_neg (by simp), ih]
      split
      · rfl
      · rename_i hne
        simp only [get, if_neg hne]
    · rw [if_pos (by simpa using hn)]
      simp only [get, ih]
      split
      · rename_i hne
        rw [if_neg (hne ▸ hn)]
      · rfl

theorem valueForPath_cons (path : FieldPath) :
    fields.valueForPath (name :: path) = (fields.get name).bind fun v => v.valueForPath path := rfl

end ObjectValue

/-! ## Paths apart from each other -/

/-- Neither path leads through the other. -/
def FieldPath.Apart (p q : FieldPath) : Prop := ¬p <+: q ∧ ¬q <+: p

instance (p q : FieldPath) : Decidable (FieldPath.Apart p q) := inferInstanceAs (Decidable (_ ∧ _))

namespace FieldPath.Apart

variable {p q : FieldPath} {name name' : Text}

theorem cons (h : FieldPath.Apart (name :: p) (name' :: q)) : name' ≠ name ∨ (name' = name ∧ FieldPath.Apart p q) := by
  by_cases hn : name' = name
  · subst hn
    refine Or.inr ⟨rfl, fun hp => h.1 ?_, fun hq => h.2 ?_⟩
    · exact (List.prefix_cons_inj name').mpr hp
    · exact (List.prefix_cons_inj name').mpr hq
  · exact Or.inl hn

end FieldPath.Apart

namespace ObjectValue

theorem valueForPath_childObject {fields : ObjectValue σ} {name : Text} {path : FieldPath} (hp : path ≠ []) :
    (fields.childObject name).valueForPath path = fields.valueForPath (name :: path) := by
  obtain ⟨name', path, rfl⟩ := List.exists_cons_of_ne_nil hp
  show _ = (fields.get name).bind fun v => v.valueForPath (name' :: path)
  unfold childObject
  cases fields.get name with
  | none => rfl
  | some v => cases v <;> rfl

theorem valueForPath_setPath {value : Value σ} : ∀ {p q : FieldPath} {fields : ObjectValue σ},
    FieldPath.Apart p q → (fields.setPath value p).valueForPath q = fields.valueForPath q
  | [], q, _, h => absurd (List.nil_prefix (l := q)) h.1
  | p, [], _, h => absurd (List.nil_prefix (l := p)) h.2
  | [name], name' :: q, fields, h => by
    rcases h.cons with hn | ⟨-, hpq⟩
    · rw [setPath, valueForPath_cons, valueForPath_cons, get_setField, if_neg hn]
    · exact absurd (List.nil_prefix (l := q)) hpq.1
  | name :: name₂ :: p, name' :: q, fields, h => by
    rw [setPath, valueForPath_cons, get_setField]
    rcases h.cons with hn | ⟨rfl, hpq⟩
    · rw [if_neg hn, valueForPath_cons]
    · have hq : q ≠ [] := fun hq => hpq.2 (hq ▸ List.nil_prefix)
      rw [if_pos rfl, Option.bind_some]
      exact (valueForPath_setPath hpq).trans (valueForPath_childObject hq)

theorem valueForPath_deletePath : ∀ {p q : FieldPath} {fields : ObjectValue σ},
    FieldPath.Apart p q → (fields.deletePath p).valueForPath q = fields.valueForPath q
  | [], q, _, h => absurd (List.nil_prefix (l := q)) h.1
  | p, [], _, h => absurd (List.nil_prefix (l := p)) h.2
  | [name], name' :: q, fields, h => by
    rcases h.cons with hn | ⟨-, hpq⟩
    · rw [deletePath, valueForPath_cons, valueForPath_cons, get_removeField, if_neg hn]
    · exact absurd (List.nil_prefix (l := q)) hpq.1
  | name :: name₂ :: p, name' :: q, fields, h => by
    rw [deletePath]
    split
    · rename_i child hchild
      rw [valueForPath_cons, get_setField]
      rcases h.cons with hn | ⟨rfl, hpq⟩
      · rw [if_neg hn, valueForPath_cons]
      · rw [if_pos rfl, Option.bind_some, valueForPath_cons, hchild, Option.bind_some]
        exact valueForPath_deletePath hpq
    · rfl

end ObjectValue

/-! ## Documents -/

/-- The time of a commit; 0 is `SnapshotVersion::None()`. -/
abbrev SnapshotVersion := Nat

/-- What is known of the document with the key. -/
inductive MaybeDocument (K σ : Type) where
  | document (key : K) (data : ObjectValue σ) (version : SnapshotVersion) (hasLocalMutations : Bool)
  | deleted (key : K) (version : SnapshotVersion)

namespace MaybeDocument

def key : MaybeDocument K σ → K
  | document k .. | deleted k _ => k

def version : MaybeDocument K σ → SnapshotVersion
  | document _ _ v _ | deleted _ v => v

/-- The document without the mark of local mutations. -/
def settled : MaybeDocument K σ → MaybeDocument K σ
  | document k data v _ => document k data v false
  | deleted k v => deleted k v

def fieldForPath (path : FieldPath) : MaybeDocument K σ → Option (Value σ)
  | document _ data _ _ => data.valueForPath path
  | deleted .. => none

@[simp] theorem version_settled (doc : MaybeDocument K σ) : doc.settled.version = doc.version := by
  cases doc <;> rfl

end MaybeDocument

def fieldAt (doc : Option (MaybeDocument K σ)) (path : FieldPath) : Option (Value σ) :=
  doc.bind fun doc => doc.fieldForPath path

/-- What there is of a document is kept under its key. -/
def Keyed (k : K) (doc : Option (MaybeDocument K σ)) : Prop := ∀ d ∈ doc, d.key = k

instance [DecidableEq K] (k : K) (doc : Option (MaybeDocument K σ)) : Decidable (Keyed k doc) :=
  inferInstanceAs (Decidable (∀ d ∈ doc, d.key = k))

inductive Precondition where
  | none
  | exists (b : Bool)
  | updateTime (v : SnapshotVersion)
  deriving DecidableEq, Repr

def Precondition.isValidFor : Precondition → Option (MaybeDocument K σ) → Bool
  | .updateTime t, some (.document _ _ v _) => v = t
  | .updateTime _, _ => false
  | .exists true, some (.document ..) => true
  | .exists true, _ => false
  | .exists false, some (.document ..) => false
  | .exists false, _ => true
  | .none, _ => true

end ShoppingList.Firestore
