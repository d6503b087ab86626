import ShoppingList.Firestore.Mutation
import ShoppingList.Lib.Codes

/-!
# Ordered code: strings

Strings and numbers are written into the keys of the database so that the keys
sort as what they stand for. A string ends with a separator, and the bytes it
could be confused with are escaped.
-/

namespace ShoppingList.Firestore

abbrev Byte := Fin 256

instance neZero_byte : NeZero 256 := ⟨by decide⟩

namespace OrderedCode

open Codes

/-! ## Strings -/

def kEscape1 : Byte := 0
def kNullCharacter : Byte := 0xff
def kSeparator : Byte := 1
def kEscape2 : Byte := 0xff
def kFFCharacter : Byte := 0

def encodeByte (c : Byte) : List Byte :=
  if c = kEscape1 then [kEscape1, kNullCharacter]
  else if c = kEscape2 then [kEscape2, kFFCharacter]
  else [c]

def writeString (s : List Byte) : List Byte := s.flatMap encodeByte ++ [kEscape1, kSeparator]

/-- The string, and what follows its separator. -/
def readString : List Byte → Option (List Byte × List Byte)
  | c :: next :: src =>
    if c = kEscape1 then
      if next = kSeparator then some ([], src)
      else if next = kNullCharacter then (readString src).map fun p => (c :: p.1, p.2)
      else none
    else if c = kEscape2 then
      if next = kFFCharacter then (readString src).map fun p => (c :: p.1, p.2)
      else none
    else (readString (next :: src)).map fun p => (c :: p.1, p.2)
  | _ => none

theorem readString_encodeByte (c : Byte) (src : List Byte) (hs : src.length ≠ 0) :
    readString (encodeByte c ++ src) = (readString src).map fun p => (c :: p.1, p.2) := by
  unfold encodeByte
  by_cases h1 : c = kEscape1
  · rw [if_pos h1, h1]
    rfl
  · rw [if_neg h1]
    by_cases h2 : c = kEscape2
    · rw [if_pos h2, h2]
      rfl
    · rw [if_neg h2]
      cases src with
      | nil => exact absurd rfl hs
      | cons next src =>
        show (if c = kEscape1 then _ else if c = kEscape2 then _ else _) = _
        rw [if_neg h1, if_neg h2]

/-- A string is read as it was written. -/
theorem readString_writeString (s src : List Byte) : readString (writeString s ++ src) = some (s, src) := by
  unfold writeString
  induction s with
  | nil => rfl
  | cons c s ih =>
    rw [List.flatMap_cons, List.append_assoc, List.append_assoc, readString_encodeByte, ← List.append_assoc, ih]
    · rfl
    · simp

theorem before_encodeByte : ∀ {b c : Byte}, b < c → Before (encodeByte b) (encodeByte c) := by
  intro b c h
  have hc : c ≠ kEscape1 := by
    rintro rfl
    exact absurd h (Fin.not_lt_zero b)
  have hb : b ≠ kEscape2 := by
    rintro rfl
    exact absurd h (Fin.not_lt.mpr (Fin.le_last c))
  unfold encodeByte
  rw [if_neg hc, if_neg hb]
  by_cases hb' : b = kEscape1
  · rw [if_pos hb', ← hb']
    by_cases hc' : c = kEscape2
    · rw [if_pos hc', ← hc']
      exact .head h ..
    · rw [if_neg hc']
      exact .head h ..
  · rw [if_neg hb']
    by_cases hc' : c = kEscape2
    · rw [if_pos hc', ← hc']
      exact .head h ..
    · rw [if_neg hc']
      exact .head h ..

/-- The end of a string comes before any byte. -/
theorem before_separator (c : Byte) : Before [kEscape1, kSeparator] (encodeByte c) := by
  unfold encodeByte
  by_cases hc : c = kEscape1
  · rw [if_pos hc]
    exact .tail _ (.head (by decide) ..)
  · rw [if_neg hc]
    have hpos : kEscape1 < c := Fin.pos_iff_ne_zero.mpr hc
    by_cases hc' : c = kEscape2
    · rw [if_pos hc', ← hc']
      exact .head hpos ..
    · rw [if_neg hc']
      exact .head hpos ..

theorem writeString_cons (c : Byte) (s : List Byte) : writeString (c :: s) = encodeByte c ++ writeString s := by
  unfold writeString
  rw [List.flatMap_cons, List.append_assoc]

theorem keeps_writeString : Keeps writeString := by
  intro s
  induction s with
  | nil =>
    intro t h
    cases t with
    | nil => cases h
    | cons c t =>
      rw [writeString_cons]
      exact (before_separator c).append [] (writeString t)
  | cons b s ih =>
    intro t h
    cases t with
    | nil => cases h
    | cons c t =>
      rw [writeString_cons, writeString_cons]
      rcases List.cons_lt_cons_iff.mp h with hlt | ⟨rfl, hlt⟩
      · exact (before_encodeByte hlt).append ..
      · exact (ih hlt).after _

end OrderedCode

end ShoppingList.Firestore
