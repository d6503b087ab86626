import ShoppingList.Firestore.SignedReading

/-!
# Keys of the database

The tables of the client share one database. A key is made of labeled
components, the first of them the name of its table, and ends with a terminator.
A key is decoded to the components it was made of, and keys sort by their
components, so the rows of a table, of a user and of a document lie together.
-/

namespace ShoppingList.Firestore

open Codes OrderedCode

def ascii (s : String) : List Byte := s.toList.map fun c => Fin.ofNat 256 c.toNat

def kMutationsTable : List Byte := ascii "mutation"
def kDocumentMutationsTable : List Byte := ascii "document_mutation"
def kMutationQueuesTable : List Byte := ascii "mutation_queue"

inductive ComponentLabel where
  | terminator | tableName | batchId | canonicalId | targetId | userId | pathSegment | unknown
  deriving DecidableEq, Repr

def ComponentLabel.value : ComponentLabel → Int
  | terminator => 0
  | tableName => 5
  | batchId => 10
  | canonicalId => 11
  | targetId => 12
  | userId => 13
  | pathSegment => 62
  | unknown => 63

abbrev ResourcePath := List (List Byte)

/-- The path of a document alternates collections and documents. -/
structure DocumentKey where
  path : ResourcePath
  isDocumentKey : path ≠ [] ∧ path.length % 2 = 0
  deriving DecidableEq

/-! ## Writing -/

def writeComponentLabel (label : ComponentLabel) : List Byte := writeSignedNumIncreasing label.value

def writeLabeledInt32 (label : ComponentLabel) (value : Int) : List Byte :=
  writeComponentLabel label ++ writeSignedNumIncreasing value

def writeLabeledString (label : ComponentLabel) (value : List Byte) : List Byte :=
  writeComponentLabel label ++ writeString value

def writeTerminator : List Byte := writeComponentLabel .terminator
def writeTableName (tableName : List Byte) : List Byte := writeLabeledString .tableName tableName
def writeBatchId (batchId : Int) : List Byte := writeLabeledInt32 .batchId batchId
def writeUserId (userId : List Byte) : List Byte := writeLabeledString .userId userId
def writeResourcePath (path : ResourcePath) : List Byte := path.flatMap (writeLabeledString .pathSegment)

namespace LevelDbMutationKey

def keyPrefix : List Byte := writeTableName kMutationsTable
def keyPrefixOf (userId : List Byte) : List Byte := writeTableName kMutationsTable ++ writeUserId userId
def key (userId : List Byte) (batchId : Int) : List Byte :=
  writeTableName kMutationsTable ++ writeUserId userId ++ writeBatchId batchId ++ writeTerminator

end LevelDbMutationKey

namespace LevelDbDocumentMutationKey

def keyPrefixOf (userId : List Byte) : List Byte := writeTableName kDocumentMutationsTable ++ writeUserId userId
def keyPrefixOfPath (userId : List Byte) (path : ResourcePath) : List Byte :=
  writeTableName kDocumentMutationsTable ++ writeUserId userId ++ writeResourcePath path
def key (userId : List Byte) (documentKey : DocumentKey) (batchId : Int) : List Byte :=
  writeTableName kDocumentMutationsTable ++ writeUserId userId ++ writeResourcePath documentKey.path ++
    writeBatchId batchId ++ writeTerminator

end LevelDbDocumentMutationKey

def LevelDbMutationQueueKey.key (userId : List Byte) : List Byte :=
  writeTableName kMutationQueuesTable ++ writeUserId userId ++ writeTerminator

/-! ## Reading -/

abbrev IsInt32 (n : Int) : Prop := -2 ^ 31 ≤ n ∧ n ≤ 2 ^ 31 - 1

/-- Reads from the front of the key. A reader that has failed stays so. -/
abbrev Reader (α : Type) := List Byte → Checked (Option (α × List Byte))

namespace Reader

variable {α β : Type}

def fail : Reader α := fun _ => .ok none

def andThen (read : Reader α) (next : α → Reader β) : Reader β := fun src =>
  match read src with
  | .ok (some (a, src)) => next a src
  | .ok none => .ok none
  | .error message => .error message

def done (a : α) : Reader α := fun src => .ok (some (a, src))

def readSignedNum : Reader Int := readSignedNumIncreasing

def readString : Reader (List Byte) := fun src => .ok (OrderedCode.readString src)

def readComponentLabelMatching (expectedLabel : ComponentLabel) : Reader Bool :=
  readSignedNum.andThen fun rawResult => done (rawResult = expectedLabel.value)

def readInt32 : Reader Int :=
  readSignedNum.andThen fun rawResult => if IsInt32 rawResult then done rawResult else fail

def readLabeledInt32 (expectedLabel : ComponentLabel) : Reader Int :=
  (readComponentLabelMatching expectedLabel).andThen fun matching => if matching then readInt32 else fail

def readLabeledString (expectedLabel : ComponentLabel) : Reader (List Byte) :=
  (readComponentLabelMatching expectedLabel).andThen fun matching => if matching then readString else fail

def readTableNameMatching (expectedTableName : List Byte) : Reader Unit :=
  (readLabeledString .tableName).andThen fun value => if value = expectedTableName then done () else fail

def readBatchId : Reader Int := readLabeledInt32 .batchId
def readUserId : Reader (List Byte) := readLabeledString .userId

def readTerminator : Reader Unit :=
  (readComponentLabelMatching .terminator).andThen fun matching => if matching then done () else fail

/-- The loop of `ReadDocumentKey`; a segment takes up bytes, so the length of
the key is turns enough. -/
def readSegments : Nat → Reader ResourcePath
  | 0, src => .ok (some ([], src))
  | n + 1, src =>
    if src.isEmpty then .ok (some ([], src))
    else
      match readComponentLabelMatching .pathSegment src with
      | .ok (some (true, rest)) =>
        (readString.andThen fun segment => (readSegments n).andThen fun path => done (segment :: path)) rest
      | .ok (some (false, _)) => .ok (some ([], src))
      | .ok none => .ok none
      | .error message => .error message

def readDocumentKey : Reader DocumentKey := fun src =>
  (readSegments src.length).andThen (fun path =>
    if h : path ≠ [] ∧ path.length % 2 = 0 then done ⟨path, h⟩ else fail) src

/-- Whether the reader is well in the end, and what it read. -/
def decode (read : Reader α) (key : List Byte) : Checked (Option α) := do
  let result ← read key
  return result.map (·.1)

end Reader

open Reader

def LevelDbMutationKey.decode : List Byte → Checked (Option (List Byte × Int)) :=
  Reader.decode <| (readTableNameMatching kMutationsTable).andThen fun _ =>
    readUserId.andThen fun userId => readBatchId.andThen fun batchId => readTerminator.andThen fun _ =>
      done (userId, batchId)

def LevelDbDocumentMutationKey.decode : List Byte → Checked (Option (List Byte × DocumentKey × Int)) :=
  Reader.decode <| (readTableNameMatching kDocumentMutationsTable).andThen fun _ =>
    readUserId.andThen fun userId => readDocumentKey.andThen fun documentKey => readBatchId.andThen fun batchId =>
      readTerminator.andThen fun _ => done (userId, documentKey, batchId)

def LevelDbMutationQueueKey.decode : List Byte → Checked (Option (List Byte)) :=
  Reader.decode <| (readTableNameMatching kMutationQueuesTable).andThen fun _ =>
    readUserId.andThen fun userId => readTerminator.andThen fun _ => done userId

/-! ## Keys are read as they were written -/

namespace Reader

variable {α β : Type} {read : Reader α} {next : α → Reader β} {a : α} {src rest : List Byte}

theorem andThen_ok (h : read src = .ok (some (a, rest))) : read.andThen next src = next a rest := by
  unfold andThen
  rw [h]

theorem andThen_none (h : read src = .ok none) : read.andThen next src = .ok none := by
  unfold andThen
  rw [h]

theorem label_int64 (label : ComponentLabel) : -2 ^ 63 ≤ label.value ∧ label.value < 2 ^ 63 := by
  cases label <;> decide

theorem label_eq {label label' : ComponentLabel} (h : label.value = label'.value) : label = label' := by
  cases label <;> cases label' <;> first | rfl | cases h

theorem readComponentLabelMatching_write (label expectedLabel : ComponentLabel) (rest : List Byte) :
    readComponentLabelMatching expectedLabel (writeComponentLabel label ++ rest) =
      .ok (some (decide (label.value = expectedLabel.value), rest)) :=
  andThen_ok (read_writeSignedNumIncreasing (label_int64 label).1 (label_int64 label).2 rest)

theorem readLabeledString_write (label : ComponentLabel) (value rest : List Byte) :
    readLabeledString label (writeLabeledString label value ++ rest) = .ok (some (value, rest)) := by
  unfold readLabeledString writeLabeledString
  rw [List.append_assoc, andThen_ok (readComponentLabelMatching_write label label _), decide_eq_true rfl]
  exact congrArg Except.ok (readString_writeString value rest)

theorem readLabeledInt32_write (label : ComponentLabel) {value : Int} (h : IsInt32 value) (rest : List Byte) :
    readLabeledInt32 label (writeLabeledInt32 label value ++ rest) = .ok (some (value, rest)) := by
  unfold readLabeledInt32 writeLabeledInt32
  rw [List.append_assoc, andThen_ok (readComponentLabelMatching_write label label _), decide_eq_true rfl]
  have hread : readSignedNum (writeSignedNumIncreasing value ++ rest) = .ok (some (value, rest)) :=
    read_writeSignedNumIncreasing (by have := h.1; omega) (by have := h.2; omega) rest
  rw [if_pos rfl, readInt32, andThen_ok hread, if_pos h]
  rfl

theorem readTableNameMatching_write (tableName rest : List Byte) :
    readTableNameMatching tableName (writeTableName tableName ++ rest) = .ok (some ((), rest)) := by
  unfold readTableNameMatching writeTableName
  rw [andThen_ok (readLabeledString_write .tableName tableName rest), if_pos rfl]
  rfl

theorem readTableNameMatching_other {tableName tableName' : List Byte} (h : tableName' ≠ tableName) (rest : List Byte) :
    readTableNameMatching tableName (writeTableName tableName' ++ rest) = .ok none := by
  unfold readTableNameMatching writeTableName
  rw [andThen_ok (readLabeledString_write .tableName tableName' rest), if_neg h]
  rfl

theorem readUserId_write (userId rest : List Byte) : readUserId (writeUserId userId ++ rest) = .ok (some (userId, rest)) :=
  readLabeledString_write .userId userId rest

theorem readBatchId_write {batchId : Int} (h : IsInt32 batchId) (rest : List Byte) :
    readBatchId (writeBatchId batchId ++ rest) = .ok (some (batchId, rest)) :=
  readLabeledInt32_write .batchId h rest

theorem readTerminator_write (rest : List Byte) : readTerminator (writeTerminator ++ rest) = .ok (some ((), rest)) := by
  unfold readTerminator writeTerminator
  rw [andThen_ok (readComponentLabelMatching_write .terminator .terminator rest), decide_eq_true rfl, if_pos rfl]
  rfl

theorem writeComponentLabel_ne_nil (label : ComponentLabel) : writeComponentLabel label ≠ [] := by
  cases label <;> decide

/-- The segments end where another component begins. -/
theorem readSegments_write {label : ComponentLabel} (hlabel : label ≠ .pathSegment) (rest : List Byte) :
    ∀ {path : ResourcePath} {n : Nat}, path.length < n →
      readSegments n (writeResourcePath path ++ (writeComponentLabel label ++ rest)) =
        .ok (some (path, writeComponentLabel label ++ rest)) := by
  intro path
  induction path with
  | nil =>
    intro n hn
    obtain ⟨n, rfl⟩ := Nat.exists_eq_succ_of_ne_zero (Nat.ne_of_gt hn)
    have hnonempty : (writeComponentLabel label ++ rest).isEmpty = false := by
      rw [List.isEmpty_eq_false_iff]
      exact List.append_ne_nil_of_left_ne_nil (writeComponentLabel_ne_nil label) rest
    have hmatch := readComponentLabelMatching_write label .pathSegment rest
    rw [decide_eq_false fun he => hlabel (label_eq he)] at hmatch
    show readSegments (n + 1) (writeComponentLabel label ++ rest) = _
    unfold readSegments
    rw [hnonempty, hmatch]
    rfl
  | cons segment path ih =>
    intro n hn
    obtain ⟨n, rfl⟩ := Nat.exists_eq_succ_of_ne_zero (Nat.ne_of_gt (Nat.zero_lt_of_lt hn))
    have hsrc : writeResourcePath (segment :: path) ++ (writeComponentLabel label ++ rest) =
        writeComponentLabel .pathSegment ++
          (writeString segment ++ (writeResourcePath path ++ (writeComponentLabel label ++ rest))) := by
      unfold writeResourcePath
      rw [List.flatMap_cons, writeLabeledString, List.append_assoc, List.append_assoc]
    have hnonempty : (writeComponentLabel .pathSegment ++
        (writeString segment ++ (writeResourcePath path ++ (writeComponentLabel label ++ rest)))).isEmpty = false := by
      rw [List.isEmpty_eq_false_iff]
      exact List.append_ne_nil_of_left_ne_nil (writeComponentLabel_ne_nil .pathSegment) _
    have hstring : readString (writeString segment ++ (writeResourcePath path ++ (writeComponentLabel label ++ rest))) =
        .ok (some (segment, writeResourcePath path ++ (writeComponentLabel label ++ rest))) :=
      congrArg Except.ok (readString_writeString segment _)
    rw [hsrc]
    unfold readSegments
    rw [hnonempty, readComponentLabelMatching_write, decide_eq_true rfl]
    dsimp only
    rw [if_neg Bool.false_ne_true, andThen_ok hstring, andThen_ok (ih (Nat.lt_of_succ_lt_succ hn))]
    rfl

theorem length_le_writeResourcePath (path : ResourcePath) : path.length ≤ (writeResourcePath path).length := by
  induction path with
  | nil => exact Nat.le_refl 0
  | cons segment path ih =>
    have hpos := List.length_pos_of_ne_nil (writeComponentLabel_ne_nil .pathSegment)
    unfold writeResourcePath at ih ⊢
    rw [List.flatMap_cons, List.length_append, writeLabeledString, List.length_append, List.length_cons]
    omega

theorem readDocumentKey_write {label : ComponentLabel} (hlabel : label ≠ .pathSegment) (documentKey : DocumentKey)
    (rest : List Byte) : readDocumentKey (writeResourcePath documentKey.path ++ (writeComponentLabel label ++ rest)) =
      .ok (some (documentKey, writeComponentLabel label ++ rest)) := by
  have hpos := List.length_pos_of_ne_nil (writeComponentLabel_ne_nil label)
  have hle := length_le_writeResourcePath documentKey.path
  unfold readDocumentKey
  rw [andThen_ok (readSegments_write hlabel rest ?_), dif_pos documentKey.isDocumentKey]
  · rfl
  · rw [List.length_append, List.length_append]
    omega

end Reader

variable {userId rest : List Byte} {documentKey : DocumentKey} {batchId : Int}

theorem LevelDbMutationKey.decode_key (userId : List Byte) (h : IsInt32 batchId) :
    LevelDbMutationKey.decode (key userId batchId) = .ok (some (userId, batchId)) := by
  unfold LevelDbMutationKey.decode Reader.decode key
  rw [List.append_assoc, List.append_assoc, andThen_ok (readTableNameMatching_write _ _)]
  rw [andThen_ok (readUserId_write userId _), andThen_ok (readBatchId_write h _)]
  rw [← List.append_nil writeTerminator, andThen_ok (readTerminator_write [])]
  rfl

theorem LevelDbMutationKey.decode_other {tableName : List Byte} (h : tableName ≠ kMutationsTable) (rest : List Byte) :
    LevelDbMutationKey.decode (writeTableName tableName ++ rest) = .ok none := by
  unfold LevelDbMutationKey.decode Reader.decode
  rw [andThen_none (readTableNameMatching_other h rest)]
  rfl

theorem LevelDbDocumentMutationKey.decode_key (userId : List Byte) (documentKey : DocumentKey) (h : IsInt32 batchId) :
    LevelDbDocumentMutationKey.decode (key userId documentKey batchId) = .ok (some (userId, documentKey, batchId)) := by
  unfold LevelDbDocumentMutationKey.decode Reader.decode key
  rw [List.append_assoc, List.append_assoc, List.append_assoc, andThen_ok (readTableNameMatching_write _ _)]
  rw [andThen_ok (readUserId_write userId _)]
  have hlabel : ComponentLabel.batchId ≠ .pathSegment := by decide
  rw [writeBatchId, writeLabeledInt32, List.append_assoc, andThen_ok (readDocumentKey_write hlabel documentKey _)]
  rw [← List.append_assoc, ← writeLabeledInt32, ← writeBatchId, andThen_ok (readBatchId_write h _)]
  rw [← List.append_nil writeTerminator, andThen_ok (readTerminator_write [])]
  rfl

theorem LevelDbMutationQueueKey.decode_key (userId : List Byte) :
    LevelDbMutationQueueKey.decode (key userId) = .ok (some userId) := by
  unfold LevelDbMutationQueueKey.decode Reader.decode key
  rw [List.append_assoc, andThen_ok (readTableNameMatching_write _ _)]
  rw [andThen_ok (readUserId_write userId _)]
  rw [← List.append_nil writeTerminator, andThen_ok (readTerminator_write [])]
  rfl

/-! ## Keys sort as their components -/

theorem IsInt32.int64 {n : Int} (h : IsInt32 n) : -2 ^ 63 ≤ n ∧ n < 2 ^ 63 := by
  obtain ⟨hle, hlt⟩ := h
  constructor <;> omega

theorem label_lt_iff (label label' : ComponentLabel) (rest rest' : List Byte) :
    writeComponentLabel label ++ rest < writeComponentLabel label' ++ rest' ↔
      label.value < label'.value ∨ label.value = label'.value ∧ rest < rest' :=
  signedNum_lt_iff (label_int64 label) (label_int64 label') rest rest'

theorem labeledString_lt_iff (label : ComponentLabel) (value value' rest rest' : List Byte) :
    writeLabeledString label value ++ rest < writeLabeledString label value' ++ rest' ↔
      value < value' ∨ value = value' ∧ rest < rest' := by
  unfold writeLabeledString
  rw [List.append_assoc, List.append_assoc, append_left_lt_iff, string_lt_iff]

theorem batchId_lt_iff {batchId batchId' : Int} (h : IsInt32 batchId) (h' : IsInt32 batchId') (rest : List Byte) :
    writeBatchId batchId ++ rest < writeBatchId batchId' ++ rest ↔ batchId < batchId' := by
  unfold writeBatchId writeLabeledInt32
  rw [List.append_assoc, List.append_assoc, append_left_lt_iff, signedNum_lt_iff h.int64 h'.int64]
  simp

theorem writeResourcePath_cons (segment : List Byte) (path : ResourcePath) (rest : List Byte) :
    writeResourcePath (segment :: path) ++ rest = writeLabeledString .pathSegment segment ++ (writeResourcePath path ++ rest) := by
  unfold writeResourcePath
  rw [List.flatMap_cons, List.append_assoc]

/-- The rows of a document come before those of the documents below it. -/
theorem path_lt_iff {batchId batchId' : Int} (h : IsInt32 batchId) (h' : IsInt32 batchId') (rest : List Byte)
    (path path' : ResourcePath) :
    writeResourcePath path ++ (writeBatchId batchId ++ rest) < writeResourcePath path' ++ (writeBatchId batchId' ++ rest) ↔
      path < path' ∨ path = path' ∧ batchId < batchId' := by
  have hnil : ∀ r : List Byte, writeResourcePath [] ++ r = r := fun r => rfl
  induction path generalizing path' with
  | nil =>
    cases path' with
    | nil => simp [hnil, batchId_lt_iff h h' rest]
    | cons segment' path' =>
      have hlt : ComponentLabel.value .batchId < ComponentLabel.value .pathSegment := by decide
      rw [hnil, writeResourcePath_cons]
      unfold writeBatchId writeLabeledInt32 writeLabeledString
      simp only [List.append_assoc, label_lt_iff, hlt, true_or, List.nil_lt_cons]
  | cons segment path ih =>
    cases path' with
    | nil =>
      have hlt : ¬ComponentLabel.value .pathSegment < ComponentLabel.value .batchId := by decide
      have hne : ComponentLabel.value .pathSegment ≠ ComponentLabel.value .batchId := by decide
      rw [hnil, writeResourcePath_cons]
      unfold writeBatchId writeLabeledInt32 writeLabeledString
      simp [List.append_assoc, label_lt_iff, hlt, hne]
    | cons segment' path' =>
      have hrest := ih path'
      rw [writeResourcePath_cons, writeResourcePath_cons, labeledString_lt_iff, List.cons_lt_cons_iff, List.cons.injEq]
      tauto

/-- **The keys of the index** are decoded to what they were made of. They sort by
user, then by document, then by batch, and no key of another table is taken for one. -/
theorem LevelDbDocumentMutationKey.keys_in_order (userId userId' : List Byte) (documentKey documentKey' : DocumentKey)
    {batchId batchId' : Int} (h : IsInt32 batchId) (h' : IsInt32 batchId') :
    decode (key userId documentKey batchId) = .ok (some (userId, documentKey, batchId)) ∧
    (key userId documentKey batchId < key userId' documentKey' batchId' ↔
      userId < userId' ∨ userId = userId' ∧
        (documentKey.path < documentKey'.path ∨ documentKey.path = documentKey'.path ∧ batchId < batchId')) ∧
    ∀ tableName rest, tableName ≠ kDocumentMutationsTable → decode (writeTableName tableName ++ rest) = .ok none := by
  refine ⟨?_, ?_, ?_⟩
  · exact decode_key userId documentKey h
  · unfold key writeUserId
    simp only [List.append_assoc]
    rw [append_left_lt_iff, labeledString_lt_iff, path_lt_iff h h']
  · intro tableName rest hne
    unfold decode Reader.decode
    rw [andThen_none (readTableNameMatching_other hne rest)]
    rfl

/-- A document and one below it. -/
theorem LevelDbDocumentMutationKey.keys_in_order_below :
    key [7] ⟨[[1], [2]], by decide⟩ 300 < key [7] ⟨[[1], [2], [0], [0]], by decide⟩ (-1) := by
  have h := keys_in_order [7] [7] ⟨[[1], [2]], by decide⟩ ⟨[[1], [2], [0], [0]], by decide⟩
    (by decide : IsInt32 300) (by decide : IsInt32 (-1))
  exact h.2.1.mpr (Or.inr ⟨rfl, Or.inl (by decide)⟩)

end ShoppingList.Firestore
