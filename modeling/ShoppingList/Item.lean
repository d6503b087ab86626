import ShoppingList.Lib.Separated

/-!
# Items and their stored strings

An item is stored as one string, its four fields joined with `;` and not
escaped. Reading a string back keeps the first four components and traps when
there are fewer. The two agree on an item whose fields are free of `;`, and in
general what comes back is the string up to its fourth `;`.
-/

namespace ShoppingList

/-- A string, as its sequence of characters. -/
abbrev Text := List Char

def semicolon : Char := ';'

/-- What both picture fields of an item without a picture hold. -/
def noPicture : Text := ['/']

structure Item where
  name : Text
  amount : Text
  picture : Text
  pictureName : Text
  deriving DecidableEq, Repr

namespace Item

def fields (item : Item) : List Text := [item.name, item.amount, item.picture, item.pictureName]

def Plain (item : Item) : Prop := ∀ field ∈ item.fields, semicolon ∉ field

instance (item : Item) : Decidable item.Plain :=
  inferInstanceAs (Decidable (∀ field ∈ item.fields, semicolon ∉ field))

end Item

def convertItemToString (item : Item) : Text :=
  item.name ++ [semicolon] ++ item.amount ++ [semicolon] ++ item.picture ++ [semicolon] ++ item.pictureName

/-- `components(separatedBy: ";")` -/
def components (val : Text) : List Text := val.splitOn semicolon

/-- The body of the loop in `getItems`; `none` is a subscript out of range. -/
def itemOfString (val : Text) : Option Item := do
  let itemArr := components val
  let name ← itemArr[0]?
  let amount ← itemArr[1]?
  let picture ← itemArr[2]?
  let pictureName ← itemArr[3]?
  return { name, amount, picture, pictureName }

/-! ## Reading -/

theorem itemOfString_eq_some {val : Text} {item : Item} :
    itemOfString val = some item ↔ ∃ surplus, components val = item.fields ++ surplus := by
  unfold itemOfString Item.fields
  refine ⟨?_, ?_⟩
  · intro h
    match hc : components val with
    | [] | [_] | [_, _] | [_, _, _] => simp [hc] at h
    | _ :: _ :: _ :: _ :: surplus =>
      simp [hc] at h
      subst h
      exact ⟨surplus, rfl⟩
  · intro ⟨surplus, hc⟩
    simp [hc]

theorem length_components (val : Text) : (components val).length = val.count semicolon + 1 :=
  Separated.length_splitOn semicolon val

theorem itemOfString_isSome (val : Text) : (itemOfString val).isSome ↔ 3 ≤ val.count semicolon := by
  have hl := length_components val
  refine ⟨?_, ?_⟩
  · intro h
    obtain ⟨item, hi⟩ := Option.isSome_iff_exists.mp h
    obtain ⟨surplus, hc⟩ := itemOfString_eq_some.mp hi
    rw [hc] at hl
    simp [Item.fields] at hl
    omega
  · intro h
    match hc : components val with
    | [] | [_] | [_, _] | [_, _, _] => rw [hc] at hl; simp only [List.length] at hl; omega
    | name :: amount :: picture :: pictureName :: surplus =>
      rw [Option.isSome_iff_exists]
      exact ⟨⟨name, amount, picture, pictureName⟩, itemOfString_eq_some.mpr ⟨surplus, hc⟩⟩

/-! ## Writing -/

theorem convertItemToString_eq (item : Item) :
    convertItemToString item = [semicolon].intercalate item.fields := by
  simp [convertItemToString, Item.fields, List.intercalate]

theorem components_convert (item : Item) :
    components (convertItemToString item) =
      components item.name ++ components item.amount ++ components item.picture ++
        components item.pictureName := by
  have h : convertItemToString item = item.name ++ semicolon :: (item.amount ++ semicolon ::
      (item.picture ++ semicolon :: item.pictureName)) := by
    simp [convertItemToString]
  rw [h]
  unfold components
  simp only [List.splitOn_append_cons_self, List.append_assoc]

theorem count_convert (item : Item) : 3 ≤ (convertItemToString item).count semicolon := by
  simp [convertItemToString]
  omega

/-! ## Round trips -/

theorem exists_itemOfString_convert (item : Item) :
    ∃ read, itemOfString (convertItemToString item) = some read :=
  Option.isSome_iff_exists.mp ((itemOfString_isSome _).mpr (count_convert item))

theorem itemOfString_convert {item : Item} (h : item.Plain) :
    itemOfString (convertItemToString item) = some item := by
  simp only [Item.Plain, Item.fields, List.mem_cons, List.not_mem_nil, or_false, forall_eq_or_imp,
    forall_eq] at h
  obtain ⟨hn, ha, hp, hq⟩ := h
  rw [itemOfString_eq_some, components_convert]
  unfold components
  rw [List.splitOn_eq_singleton hn, List.splitOn_eq_singleton ha, List.splitOn_eq_singleton hp,
    List.splitOn_eq_singleton hq]
  exact ⟨[], rfl⟩

theorem plain_of_itemOfString {val : Text} {item : Item} (h : itemOfString val = some item) :
    item.Plain := by
  obtain ⟨surplus, hc⟩ := itemOfString_eq_some.mp h
  intro field hf
  have hm : field ∈ components val := by rw [hc]; exact List.mem_append_left _ hf
  exact Separated.not_mem_of_mem_splitOn hm

theorem convert_itemOfString {val : Text} {item : Item} (h : itemOfString val = some item) :
    convertItemToString item = Separated.upTo semicolon 3 val := by
  obtain ⟨surplus, hc⟩ := itemOfString_eq_some.mp h
  have htake : (components val).take 4 = item.fields := by rw [hc]; rfl
  rw [convertItemToString_eq, ← htake]
  exact Separated.intercalate_take_splitOn semicolon 3 val

theorem convert_itemOfString_of_three {val : Text} {item : Item} (h : itemOfString val = some item)
    (h3 : val.count semicolon = 3) : convertItemToString item = val := by
  rw [convert_itemOfString h, Separated.upTo_of_count_le semicolon 3 val (by omega)]

/-- **The item codec.** Every item is written as a string that can be read; it
comes back unchanged exactly when none of its fields holds a `;`. Every string
that can be read is written back as its part before the fourth `;`, which
reads as the same item. -/
theorem item_codec :
    (∀ item, ∃ read, itemOfString (convertItemToString item) = some read ∧
      (read = item ↔ ∀ field ∈ item.fields, semicolon ∉ field)) ∧
    (∀ val item, itemOfString val = some item →
      convertItemToString item = Separated.upTo semicolon 3 val ∧
      (convertItemToString item = val ↔ val.count semicolon = 3) ∧
      itemOfString (convertItemToString item) = some item) := by
  refine ⟨?_, ?_⟩
  · intro item
    obtain ⟨read, hread⟩ := exists_itemOfString_convert item
    refine ⟨read, hread, ?_, ?_⟩
    · intro heq
      subst heq
      exact plain_of_itemOfString hread
    · intro hplain
      rw [itemOfString_convert hplain, Option.some.injEq] at hread
      exact hread.symm
  · intro val item h
    have hcount : 3 ≤ val.count semicolon := (itemOfString_isSome val).mp (h ▸ rfl)
    refine ⟨convert_itemOfString h, ?_, itemOfString_convert (plain_of_itemOfString h)⟩
    rw [convert_itemOfString h, Separated.upTo_eq_self_iff]
    omega

example : itemOfString (convertItemToString ⟨['a', ';', 'b'], ['1'], noPicture, noPicture⟩) =
    some ⟨['a'], ['b'], ['1'], noPicture⟩ := by decide

end ShoppingList
