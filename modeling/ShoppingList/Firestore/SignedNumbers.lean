import ShoppingList.Firestore.OrderedCode

/-!
# Ordered code: numbers

The word of a number begins with its sign and its length in unary, and the rest
of the word are the bits of the number. The bytes of a negative number are those
of its complement, each complemented.
-/

namespace ShoppingList.Firestore

namespace OrderedCode

open Codes

/-! ## Writing and reading -/


def kMaxSigned64Length : Nat := 10

/-- The header bits in the first two bytes, by the length of the word. -/
def kLengthToHeaderBits : List (Byte × Byte) :=
  [(0, 0), (0x80, 0), (0xc0, 0), (0xe0, 0), (0xf0, 0), (0xf8, 0), (0xfc, 0), (0xfe, 0), (0xff, 0), (0xff, 0x80),
    (0xff, 0xc0)]

/-- The header bits that overlap with the payload, by the length of the word. -/
def kLengthToMask : List (BitVec 64) :=
  [0, 0x80, 0xc000, 0xe00000, 0xf0000000, 0xf800000000, 0xfc0000000000, 0xfe000000000000, 0xff00000000000000,
    0x8000000000000000, 0]

/-- The length of a word by the number of bits. -/
def kBitsToLength : List Nat :=
  [1, 1, 1, 1, 1, 1, 1, 2, 2, 2, 2, 2, 2, 2, 3, 3, 3, 3, 3, 3, 3, 4,
    4, 4, 4, 4, 4, 4, 5, 5, 5, 5, 5, 5, 5, 6, 6, 6, 6, 6, 6, 6, 7, 7,
    7, 7, 7, 7, 7, 8, 8, 8, 8, 8, 8, 8, 9, 9, 9, 9, 9, 9, 9, 10]

/-- `n < 0 ? ~n : n` -/
def magnitude (n : Int) : Nat := (if n < 0 then -n - 1 else n).toNat

/-- `Log2Floor64`, which is -1 for 0, plus 1. -/
def bits (x : Nat) : Nat := if x = 0 then 0 else x.log2 + 1

def signedEncodingLength (n : Int) : Nat := kBitsToLength.getD (bits (magnitude n)) 0

def byte (n : Int) : Byte := Fin.ofNat 256 (n % 256).toNat

/-- The last bytes of a number, extended by its sign, in network order. -/
def networkOrder : Nat → Int → List Byte
  | 0, _ => []
  | k + 1, n => byte (n / 256 ^ k) :: networkOrder k n

def xorHeader (header : Byte × Byte) : List Byte → List Byte
  | b₀ :: b₁ :: bytes => (b₀ ^^^ header.1) :: (b₁ ^^^ header.2) :: bytes
  | bytes => bytes

def writeSignedNumIncreasing (val : Int) : List Byte :=
  if magnitude val < 64 then [0x80 ^^^ byte val]
  else
    let len := signedEncodingLength val
    let begin := (networkOrder kMaxSigned64Length val).drop (kMaxSigned64Length - len)
    xorHeader (kLengthToHeaderBits.getD len (0, 0)) begin

/-- `x << 8 | b` for each byte. -/
def shiftIn (x : BitVec 64) (bytes : List Byte) : BitVec 64 :=
  bytes.foldl (fun x b => x <<< 8 ||| BitVec.ofNat 64 b) x

/-- How long the word is that the bytes begin with, if that can be. -/
def wordLength (xorMask : Byte) : List Byte → Option Nat
  | [] => none
  | b₀ :: src =>
    let first := b₀ ^^^ xorMask
    if first ≠ 0xff then some (7 - (first ^^^ 0xff).val.log2)
    else if src.length + 1 < 8 then none
    else
      let second := src.getD 0 0 ^^^ xorMask
      if second < 0x80 then some 8
      else if second < 0xc0 then some 9
      else if second = 0xc0 ∧ src.getD 1 0 ^^^ xorMask < 0x80 then some 10
      else none

def readSignedNumIncreasing (src : List Byte) : Checked (Option (Int × List Byte)) := do
  let negative := src.head?.any (· < 0x80)
  match wordLength (if negative then 0xff else 0) src with
  | none => return none
  | some len =>
    if src.length < len then return none
    else
      let x :=
        if len < 8 then shiftIn (if negative then BitVec.allOnes 64 else 0) (src.take len)
        else shiftIn 0 ((src.take len).drop (len - 8))
      let result := (x ^^^ kLengthToMask.getD len 0).toInt
      hardAssert (len = signedEncodingLength result) "len == SignedEncodingLength(x)"
      return some (result, src.drop len)

/-! ## Words of numbers -/

/-- The size bits of a word of `len` bytes. -/
def header (len : Nat) : Nat := (2 ^ len - 1) * 2 ^ (7 * len)

def digits : Nat → Nat → List Byte
  | 0, _ => []
  | k + 1, n => Fin.ofNat 256 (n / 256 ^ k) :: digits k n

/-- `len` is the least length that has room for `x`. -/
structure Length (x len : Nat) : Prop where
  pos : 1 ≤ len
  le : len ≤ 10
  fits : x < 2 ^ (7 * len - 1)
  least : len = 1 ∨ 2 ^ (7 * (len - 1) - 1) ≤ x
  int64 : x < 2 ^ 63

theorem bits_lt {x n : Nat} (h : x < 2 ^ n) : bits x ≤ n := by
  unfold bits
  by_cases h0 : x = 0
  · rw [if_pos h0]
    exact Nat.zero_le n
  · rw [if_neg h0]
    exact (Nat.log2_lt h0).mpr h

theorem lt_two_pow_bits (x : Nat) : x < 2 ^ bits x := by
  unfold bits
  by_cases h0 : x = 0
  · rw [if_pos h0, h0]
    exact Nat.one_pos
  · rw [if_neg h0]
    exact Nat.lt_log2_self

theorem two_pow_bits_le {x : Nat} (h : bits x ≠ 0) : 2 ^ (bits x - 1) ≤ x := by
  unfold bits at h ⊢
  by_cases h0 : x = 0
  · rw [if_pos h0] at h
    exact absurd rfl h
  · rw [if_neg h0]
    exact Nat.log2_self_le h0

theorem length_of_bits {x : Nat} (h : x < 2 ^ 63) : Length x (kBitsToLength.getD (bits x) 0) := by
  have htable : ∀ b < 64, kBitsToLength.getD b 0 = b / 7 + 1 := by decide
  have hb : bits x < 64 := Nat.lt_succ_of_le (bits_lt h)
  rw [htable _ hb]
  refine ⟨by omega, by omega, ?_, ?_, h⟩
  · exact (lt_two_pow_bits x).trans_le (Nat.pow_le_pow_right Nat.two_pos (by omega))
  · by_cases h7 : bits x < 7
    · left
      omega
    · right
      exact (Nat.pow_le_pow_right Nat.two_pos (by omega)).trans (two_pow_bits_le (by omega))

/-! ### Bytes -/

theorem length_digits : ∀ (k n : Nat), (digits k n).length = k
  | 0, _ => rfl
  | k + 1, n => congrArg Nat.succ (length_digits k n)

/-- Digits depend on the lower part only. -/
theorem digits_add_mul (k n c : Nat) : digits k (n + c * 256 ^ k) = digits k n := by
  induction k generalizing c with
  | zero => rfl
  | succ k ih =>
    have hc : c * 256 ^ (k + 1) = c * 256 * 256 ^ k := by rw [Nat.pow_succ, Nat.mul_assoc, Nat.mul_comm 256]
    rw [digits, digits, hc, ih, Nat.add_mul_div_right _ _ (Nat.pow_pos (by decide))]
    congr 1
    apply Fin.ext
    show (n / 256 ^ k + c * 256) % 256 = n / 256 ^ k % 256
    rw [Nat.add_mul_mod_self_right]

theorem digits_add (j k n : Nat) : digits (j + k) n = digits j (n / 256 ^ k) ++ digits k n := by
  induction j with
  | zero => rw [Nat.zero_add]; rfl
  | succ j ih =>
    rw [Nat.succ_add, digits, digits, ih, Nat.div_div_eq_div_mul, ← Nat.pow_add, Nat.add_comm k j]
    rfl

theorem before_digits {k n m : Nat} (h : n < m) (hm : m < 256 ^ k) : Before (digits k n) (digits k m) := by
  induction k generalizing n m with
  | zero =>
    have : m < 1 := hm
    omega
  | succ k ih =>
    have hpos : 0 < 256 ^ k := Nat.pow_pos (by decide)
    have hq : m / 256 ^ k < 256 := by
      rw [Nat.div_lt_iff_lt_mul hpos, Nat.mul_comm, ← Nat.pow_succ]
      exact hm
    have hle : n / 256 ^ k ≤ m / 256 ^ k := Nat.div_le_div_right h.le
    rw [digits, digits]
    rcases Nat.lt_or_eq_of_le hle with hlt | heq
    · apply Before.head
      show n / 256 ^ k % 256 < m / 256 ^ k % 256
      rw [Nat.mod_eq_of_lt hq, Nat.mod_eq_of_lt (hlt.trans hq)]
      exact hlt
    · rw [heq]
      apply Before.tail
      have hn := Nat.div_add_mod n (256 ^ k)
      have hm' := Nat.div_add_mod m (256 ^ k)
      have hlow : n % 256 ^ k < m % 256 ^ k := by
        rw [← hn, ← hm', heq] at h
        exact Nat.lt_of_add_lt_add_left h
      have hdigits : ∀ v, digits k v = digits k (v % 256 ^ k) := by
        intro v
        conv_lhs => rw [← Nat.mod_add_div v (256 ^ k), Nat.mul_comm]
        exact digits_add_mul k _ _
      rw [hdigits n, hdigits m]
      exact ih hlow (Nat.mod_lt _ hpos)

theorem header_add (len : Nat) : header len + 2 ^ (7 * len) = 256 ^ len := by
  have h256 : (256 : Nat) ^ len = 2 ^ len * 2 ^ (7 * len) := by
    rw [← Nat.pow_add, show (256 : Nat) = 2 ^ 8 from rfl, ← Nat.pow_mul]
    congr 1
    omega
  have hpos : 1 ≤ 2 ^ len := Nat.one_le_two_pow
  unfold header
  rw [h256, ← Nat.succ_mul, Nat.succ_eq_add_one, Nat.sub_add_cancel hpos]

/-- Words of one length stay below the longer ones. -/
theorem Length.add_header_le {x len : Nat} (h : Length x len) : x + header len + 1 + 2 ^ (7 * len - 1) ≤ 256 ^ len := by
  have htwo : 2 ^ (7 * len) = 2 ^ (7 * len - 1) + 2 ^ (7 * len - 1) := by
    have hpos := h.pos
    rw [← Nat.mul_two, ← Nat.pow_succ]
    congr 1
    omega
  have hfits := h.fits
  have hadd := header_add len
  omega

theorem Length.lt {x len : Nat} (h : Length x len) : x + header len < 256 ^ len :=
  (Nat.le_add_right _ _).trans h.add_header_le

theorem before_words {x y i j : Nat} (hx : Length x i) (hy : Length y j) (h : x < y) :
    Before (digits i (x + header i)) (digits j (y + header j)) := by
  rcases Nat.lt_trichotomy i j with hlt | rfl | hgt
  · obtain ⟨d, rfl⟩ := Nat.exists_eq_add_of_lt hlt
    have hsplit : i + d + 1 = i + (d + 1) := rfl
    rw [hsplit, digits_add]
    have hdiv : x + header i < (y + header (i + (d + 1))) / 256 ^ (d + 1) := by
      apply (Nat.le_div_iff_mul_le (Nat.pow_pos (by decide))).mpr
      have hmul := Nat.mul_le_mul_right (256 ^ (d + 1)) hx.add_header_le
      have hpow : 2 ^ (7 * (i + (d + 1))) ≤ 2 ^ (7 * i - 1) * 256 ^ (d + 1) := by
        rw [show (256 : Nat) = 2 ^ 8 from rfl, ← Nat.pow_mul, ← Nat.pow_add]
        have hpos := hx.pos
        exact Nat.pow_le_pow_right Nat.two_pos (by omega)
      have hadd := header_add (i + (d + 1))
      rw [Nat.add_mul, ← Nat.pow_add] at hmul
      show (x + header i + 1) * 256 ^ (d + 1) ≤ _
      omega
    have hbound : (y + header (i + (d + 1))) / 256 ^ (d + 1) < 256 ^ i := by
      rw [Nat.div_lt_iff_lt_mul (Nat.pow_pos (by decide)), ← Nat.pow_add]
      exact hy.lt
    have hbefore := (before_digits hdiv hbound).append [] (digits (d + 1) (y + header (i + (d + 1))))
    rw [List.append_nil] at hbefore
    exact hbefore
  · exact before_digits (Nat.add_lt_add_right h _) hy.lt
  · -- A longer word stands for a number at least as great.
    have hleast := hx.least.resolve_left (by have := hy.pos; omega)
    have hfits := hy.fits
    have hpow : 2 ^ (7 * j - 1) ≤ 2 ^ (7 * (i - 1) - 1) := Nat.pow_le_pow_right Nat.two_pos (by omega)
    omega

/-! ### Writing -/

theorem byte_natCast (n : Nat) : byte n = Fin.ofNat 256 n := by
  apply Fin.ext
  show ((n : Int) % 256).toNat % 256 = n % 256
  omega

theorem networkOrder_natCast (k n : Nat) : networkOrder k n = digits k n := by
  induction k with
  | zero => rfl
  | succ k ih =>
    rw [networkOrder, digits, ih, ← byte_natCast]
    congr 2

theorem drop_networkOrder (j k : Nat) (n : Int) : (networkOrder (j + k) n).drop j = networkOrder k n := by
  induction j with
  | zero => rw [Nat.zero_add]; rfl
  | succ j ih =>
    rw [Nat.succ_add, networkOrder, List.drop_succ_cons, ih]

/-- The bytes of a negative number are those of its complement, complemented. -/
theorem networkOrder_compl (k x : Nat) : networkOrder k (-x - 1) = (digits k x).map Fin.rev := by
  induction k with
  | zero => rfl
  | succ k ih =>
    rw [networkOrder, digits, ih, List.map_cons]
    congr 1
    have hpos : (0 : Int) < 256 ^ k := Int.pow_pos (by decide)
    have hdiv : (-(x : Int) - 1) / 256 ^ k = -((x / 256 ^ k : Nat) : Int) - 1 := by
      have hcast : ((x / 256 ^ k : Nat) : Int) = (x : Int) / 256 ^ k := by
        rw [Int.natCast_ediv, Int.natCast_pow]
        rfl
      rw [show (-(x : Int) - 1) = Int.negSucc x by omega, Int.negSucc_ediv _ hpos, hcast]
      show -((x : Int) / 256 ^ k + 1) = _
      omega
    rw [hdiv]
    apply Fin.ext
    rw [Fin.val_rev]
    show ((-((x / 256 ^ k : Nat) : Int) - 1) % 256).toNat % 256 = 256 - (x / 256 ^ k % 256 + 1)
    omega

theorem xorHeader_rev {len : Nat} (h : len ≤ 10) (bytes : List Byte) :
    xorHeader (kLengthToHeaderBits.getD len (0, 0)) (bytes.map Fin.rev) =
      (xorHeader (kLengthToHeaderBits.getD len (0, 0)) bytes).map Fin.rev := by
  have htable : ∀ len < 11, ∀ b : Byte, b.rev ^^^ (kLengthToHeaderBits.getD len (0, 0)).1 =
      (b ^^^ (kLengthToHeaderBits.getD len (0, 0)).1).rev ∧ b.rev ^^^ (kLengthToHeaderBits.getD len (0, 0)).2 =
        (b ^^^ (kLengthToHeaderBits.getD len (0, 0)).2).rev := by decide +kernel
  have hlen := htable len (Nat.lt_succ_of_le h)
  match bytes with
  | [] | [_] => rfl
  | b₀ :: b₁ :: bytes =>
    show (_ ^^^ _) :: (_ ^^^ _) :: _ = _
    rw [(hlen b₀).1, (hlen b₁).2]
    rfl

/-- The header does not meet the payload. -/
theorem xor_header {k q : Nat} (hk : k ≤ 8) (hq : q < 2 ^ (13 - k)) (h8 : k = 8 → q = 0) :
    Fin.ofNat 256 (q / 256) ^^^ (kLengthToHeaderBits.getD (k + 2) (0, 0)).1 =
      Fin.ofNat 256 ((q + (2 ^ (k + 2) - 1) * 2 ^ (14 - k)) / 256) ∧
    Fin.ofNat 256 q ^^^ (kLengthToHeaderBits.getD (k + 2) (0, 0)).2 =
      Fin.ofNat 256 (q + (2 ^ (k + 2) - 1) * 2 ^ (14 - k)) := by
  by_cases h6 : k ≤ 6
  · have htable : ∀ k < 7, ∀ a : Byte, a.val < 2 ^ (5 - k) → a ^^^ (kLengthToHeaderBits.getD (k + 2) (0, 0)).1 =
        Fin.ofNat 256 (a.val + (2 ^ (k + 2) - 1) * 2 ^ (6 - k)) := by decide +kernel
    have hnone : ∀ k < 7, (kLengthToHeaderBits.getD (k + 2) (0, 0)).2 = 0 := by decide
    have hxor : ∀ b : Byte, b ^^^ 0 = b := by decide +kernel
    have hpow : (2 ^ (k + 2) - 1) * 2 ^ (14 - k) = (2 ^ (k + 2) - 1) * 2 ^ (6 - k) * 256 := by
      rw [Nat.mul_assoc, show (256 : Nat) = 2 ^ 8 from rfl, ← Nat.pow_add]
      congr 2
      omega
    have hlt : q / 256 < 2 ^ (5 - k) := by
      rw [Nat.div_lt_iff_lt_mul (by decide), show (256 : Nat) = 2 ^ 8 from rfl, ← Nat.pow_add]
      exact hq.trans_le (Nat.pow_le_pow_right Nat.two_pos (by omega))
    have hsmall : 2 ^ (5 - k) ≤ 2 ^ 5 := Nat.pow_le_pow_right Nat.two_pos (by omega)
    have hval : (Fin.ofNat 256 (q / 256)).val = q / 256 := Nat.mod_eq_of_lt (by omega)
    refine ⟨?_, ?_⟩
    · rw [htable k (by omega) _ (hval.symm ▸ hlt), hval, hpow, Nat.add_mul_div_right _ _ (by decide)]
    · rw [hnone k (by omega), hxor, hpow]
      apply Fin.ext
      exact (Nat.add_mul_mod_self_right ..).symm
  · have hseven : ∀ q < 64, Fin.ofNat 256 (q / 256) ^^^ (0xff : Byte) = Fin.ofNat 256 ((q + 65408) / 256) ∧
        Fin.ofNat 256 q ^^^ (0x80 : Byte) = Fin.ofNat 256 (q + 65408) := by decide
    obtain rfl | rfl : k = 7 ∨ k = 8 := by omega
    · exact hseven q hq
    · rw [h8 rfl]
      decide

theorem xorHeader_digits {x len : Nat} (h : Length x len) (h2 : 2 ≤ len) :
    xorHeader (kLengthToHeaderBits.getD len (0, 0)) (digits len x) = digits len (x + header len) := by
  obtain ⟨k, rfl⟩ := Nat.exists_eq_add_of_le' h2
  have hle := h.le
  have hheader : header (k + 2) = (2 ^ (k + 2) - 1) * 2 ^ (14 - k) * 256 ^ k := by
    unfold header
    rw [Nat.mul_assoc, show (256 : Nat) = 2 ^ 8 from rfl, ← Nat.pow_mul, ← Nat.pow_add]
    congr 2
    omega
  have hpos : 0 < 256 ^ k := Nat.pow_pos (by decide)
  have hq : x / 256 ^ k < 2 ^ (13 - k) := by
    rw [Nat.div_lt_iff_lt_mul hpos, show (256 : Nat) = 2 ^ 8 from rfl, ← Nat.pow_mul, ← Nat.pow_add]
    exact h.fits.trans_le (Nat.pow_le_pow_right Nat.two_pos (by omega))
  have h8 : k = 8 → x / 256 ^ k = 0 := by
    rintro rfl
    exact Nat.div_eq_of_lt (h.int64.trans (by decide))
  obtain ⟨hfirst, hsecond⟩ := xor_header (by omega) hq h8
  have hdiv : ∀ v, v / 256 ^ (k + 1) = v / 256 ^ k / 256 := by
    intro v
    rw [Nat.div_div_eq_div_mul, ← Nat.pow_succ]
  have hadd : (x + header (k + 2)) / 256 ^ k = x / 256 ^ k + (2 ^ (k + 2) - 1) * 2 ^ (14 - k) := by
    rw [hheader, Nat.add_mul_div_right _ _ hpos]
  show (Fin.ofNat 256 (x / 256 ^ (k + 1)) ^^^ _) :: (Fin.ofNat 256 (x / 256 ^ k) ^^^ _) :: digits k x =
    Fin.ofNat 256 ((x + header (k + 2)) / 256 ^ (k + 1)) :: Fin.ofNat 256 ((x + header (k + 2)) / 256 ^ k) ::
      digits k (x + header (k + 2))
  rw [hdiv, hdiv, hadd, hfirst, hsecond, hheader, digits_add_mul]

theorem signedEncodingLength_natCast (x : Nat) : signedEncodingLength x = kBitsToLength.getD (bits x) 0 := by
  unfold signedEncodingLength magnitude
  rw [if_neg (by omega)]
  rfl

theorem magnitude_compl (x : Nat) : magnitude (-x - 1) = x := by
  unfold magnitude
  rw [if_pos (by omega)]
  omega

theorem magnitude_natCast (x : Nat) : magnitude x = x := by
  unfold magnitude
  rw [if_neg (by omega)]
  rfl

theorem write_natCast {x : Nat} (h : x < 2 ^ 63) : ∃ len, Length x len ∧ signedEncodingLength x = len ∧
    writeSignedNumIncreasing x = digits len (x + header len) := by
  have hlength := length_of_bits h
  rw [← signedEncodingLength_natCast] at hlength
  refine ⟨_, hlength, rfl, ?_⟩
  unfold writeSignedNumIncreasing
  rw [magnitude_natCast]
  by_cases h64 : x < 64
  · have hone : ∀ x < 64, [(0x80 : Byte) ^^^ Fin.ofNat 256 x] = digits 1 (x + header 1) := by decide
    have hlen : signedEncodingLength x = 1 := by
      rcases hlength.least with hone | hle
      · exact hone
      · by_contra hne
        have hpos := hlength.pos
        have hpow : 2 ^ (7 * (2 - 1) - 1) ≤ 2 ^ (7 * (signedEncodingLength x - 1) - 1) :=
          Nat.pow_le_pow_right Nat.two_pos (by omega)
        omega
    rw [if_pos h64, hlen, byte_natCast]
    exact hone x h64
  · rw [if_neg h64]
    have h2 : 2 ≤ signedEncodingLength x := by
      by_contra hlt
      have hpos := hlength.pos
      have hlen : signedEncodingLength (x : Int) = 1 := by omega
      have hfits := hlength.fits
      rw [hlen] at hfits
      exact h64 hfits
    obtain ⟨j, hj⟩ := Nat.exists_eq_add_of_le' hlength.le
    have hsub : kMaxSigned64Length - signedEncodingLength x = j := by
      show 10 - signedEncodingLength (x : Int) = j
      omega
    dsimp only
    rw [hsub, show kMaxSigned64Length = j + signedEncodingLength x from hj, drop_networkOrder, networkOrder_natCast]
    exact xorHeader_digits hlength h2

theorem write_compl {x : Nat} (h : x < 2 ^ 63) :
    writeSignedNumIncreasing (-x - 1) = (writeSignedNumIncreasing x).map Fin.rev := by
  have hlen : signedEncodingLength (-x - 1) = signedEncodingLength x := by
    unfold signedEncodingLength
    rw [magnitude_compl, magnitude_natCast]
  unfold writeSignedNumIncreasing
  rw [magnitude_compl, magnitude_natCast, hlen]
  by_cases h64 : x < 64
  · have hxor : ∀ b : Byte, 0x80 ^^^ b.rev = (0x80 ^^^ b).rev := by decide +kernel
    have hone : ∀ n, networkOrder 1 n = [byte n] := by
      intro n
      rw [networkOrder, networkOrder, Int.pow_zero, Int.ediv_one]
    have hbyte := networkOrder_compl 1 x
    rw [← networkOrder_natCast, hone, hone, List.map_singleton] at hbyte
    rw [if_pos h64, if_pos h64, List.head_eq_of_cons_eq hbyte, hxor]
    rfl
  · have hle : signedEncodingLength x ≤ 10 := by
      rw [signedEncodingLength_natCast]
      exact (length_of_bits h).le
    rw [if_neg h64, if_neg h64]
    dsimp only
    rw [networkOrder_compl, networkOrder_natCast, ← List.map_drop, xorHeader_rev hle]

theorem before_rev {u v : List Byte} (h : Before u v) : Before (v.map Fin.rev) (u.map Fin.rev) := by
  induction h with
  | head h x y => exact .head (Fin.rev_lt_rev.mpr h) ..
  | tail b _ ih => exact .tail _ ih

/-- The first byte has the sign. -/
theorem head_word {x len : Nat} (h : Length x len) :
    ∃ b bytes, digits len (x + header len) = b :: bytes ∧ (0x80 : Byte) ≤ b := by
  obtain ⟨k, rfl⟩ := Nat.exists_eq_add_of_le' h.pos
  refine ⟨_, _, rfl, ?_⟩
  have hpos : 0 < 256 ^ k := Nat.pow_pos (by decide)
  have hlt : (x + header (k + 1)) / 256 ^ k < 256 := by
    rw [Nat.div_lt_iff_lt_mul hpos, Nat.mul_comm, ← Nat.pow_succ]
    exact h.lt
  have hge : 128 ≤ (x + header (k + 1)) / 256 ^ k := by
    rw [Nat.le_div_iff_mul_le hpos]
    have hadd := header_add (k + 1)
    have hpow : 2 ^ (7 * (k + 1)) ≤ 128 * 256 ^ k := by
      rw [show (128 : Nat) = 2 ^ 7 from rfl, show (256 : Nat) = 2 ^ 8 from rfl, ← Nat.pow_mul, ← Nat.pow_add]
      exact Nat.pow_le_pow_right Nat.two_pos (by omega)
    rw [Nat.pow_succ] at hadd
    omega
  show 128 ≤ (x + header (k + 1)) / 256 ^ k % 256
  rw [Nat.mod_eq_of_lt hlt]
  exact hge

/-- **Numbers sort as their words.** -/
theorem before_writeSignedNumIncreasing {a b : Int} (ha : -2 ^ 63 ≤ a) (hb : b < 2 ^ 63) (h : a < b) :
    Before (writeSignedNumIncreasing a) (writeSignedNumIncreasing b) := by
  by_cases ha0 : a < 0
  · obtain ⟨x, hx⟩ := Int.eq_ofNat_of_zero_le (show 0 ≤ -a - 1 by omega)
    obtain rfl : a = -x - 1 := by omega
    have hx63 : x < 2 ^ 63 := by omega
    obtain ⟨i, hi, -, hxword⟩ := write_natCast hx63
    rw [write_compl hx63]
    by_cases hb0 : b < 0
    · obtain ⟨y, hy⟩ := Int.eq_ofNat_of_zero_le (show 0 ≤ -b - 1 by omega)
      obtain rfl : b = -y - 1 := by omega
      have hy63 : y < 2 ^ 63 := by omega
      obtain ⟨j, hj, -, hyword⟩ := write_natCast hy63
      rw [write_compl hy63, hxword, hyword]
      apply before_rev
      exact before_words hj hi (by omega)
    · obtain ⟨y, rfl⟩ := Int.eq_ofNat_of_zero_le (Int.not_lt.mp hb0)
      obtain ⟨j, hj, -, hyword⟩ := write_natCast (show y < 2 ^ 63 by omega)
      obtain ⟨c, cs, hcs, hc⟩ := head_word hi
      obtain ⟨d, ds, hds, hd⟩ := head_word hj
      rw [hxword, hyword, hcs, hds]
      apply Before.head
      have hrev : c.rev.val = 255 - c.val := by
        rw [Fin.val_rev]
        omega
      have hc' : 128 ≤ c.val := hc
      have hd' : 128 ≤ d.val := hd
      show c.rev.val < d.val
      omega
  · obtain ⟨x, rfl⟩ := Int.eq_ofNat_of_zero_le (Int.not_lt.mp ha0)
    obtain ⟨y, rfl⟩ := Int.eq_ofNat_of_zero_le (show 0 ≤ b by omega)
    obtain ⟨i, hi, -, hxword⟩ := write_natCast (show x < 2 ^ 63 by omega)
    obtain ⟨j, hj, -, hyword⟩ := write_natCast (show y < 2 ^ 63 by omega)
    rw [hxword, hyword]
    exact before_words hi hj (by omega)

end OrderedCode

end ShoppingList.Firestore
