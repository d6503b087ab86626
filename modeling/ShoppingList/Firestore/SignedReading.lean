import ShoppingList.Firestore.SignedNumbers

/-!
# Ordered code: reading numbers

The length of a word is told by the size bits in its first two bytes, and the
mask takes those bits out of the payload. A word is read back to the number it
was written for, and never fails the check of its length.
-/

namespace ShoppingList.Firestore

namespace OrderedCode

open Codes

theorem toNat_shiftIn (x : BitVec 64) (b : Byte) :
    (x <<< 8 ||| BitVec.ofNat 64 b).toNat = (x.toNat * 256 + b) % 2 ^ 64 := by
  have hb : b.val < 2 ^ 8 := b.isLt
  have hshift : x.toNat <<< 8 % 2 ^ 64 = 2 ^ 8 * (x.toNat % 2 ^ 56) := by
    rw [Nat.shiftLeft_eq]
    omega
  have hsmall : b.val % 2 ^ 64 = b.val := Nat.mod_eq_of_lt (by omega)
  rw [BitVec.toNat_or, BitVec.toNat_shiftLeft, BitVec.toNat_ofNat, hshift, hsmall, ← Nat.two_pow_add_eq_or_of_lt hb]
  omega

theorem shiftIn_cons (x : BitVec 64) (b : Byte) (bytes : List Byte) :
    shiftIn x (b :: bytes) = shiftIn (x <<< 8 ||| BitVec.ofNat 64 b) bytes := rfl

theorem shiftIn_digits (k n : Nat) (x : BitVec 64) :
    (shiftIn x (digits k n)).toNat = (x.toNat * 256 ^ k + n % 256 ^ k) % 2 ^ 64 := by
  induction k generalizing x with
  | zero =>
    show x.toNat = (x.toNat * 1 + n % 1) % 2 ^ 64
    rw [Nat.mul_one, Nat.mod_one, Nat.add_zero, Nat.mod_eq_of_lt x.isLt]
  | succ k ih =>
    have hmod : n % 256 ^ (k + 1) = n % 256 ^ k + 256 ^ k * (n / 256 ^ k % 256) := by rw [Nat.pow_succ, Nat.mod_mul]
    have hval : (Fin.ofNat 256 (n / 256 ^ k)).val = n / 256 ^ k % 256 := rfl
    rw [digits, shiftIn_cons, ih, toNat_shiftIn, Nat.add_mod, Nat.mod_mul_mod, ← Nat.add_mod, hmod, hval]
    congr 1
    rw [Nat.add_mul, Nat.mul_assoc, Nat.pow_succ, Nat.mul_comm (256 ^ k) 256, Nat.mul_comm (n / 256 ^ k % 256)]
    omega

theorem exists_toNat_shiftIn (bytes : List Byte) :
    ∃ v, ∀ x, (shiftIn x bytes).toNat = (x.toNat * 256 ^ bytes.length + v) % 2 ^ 64 := by
  induction bytes with
  | nil =>
    refine ⟨0, fun x => ?_⟩
    show x.toNat = (x.toNat * 1 + 0) % 2 ^ 64
    rw [Nat.mul_one, Nat.add_zero, Nat.mod_eq_of_lt x.isLt]
  | cons b bytes ih =>
    obtain ⟨v, hv⟩ := ih
    refine ⟨b.val * 256 ^ bytes.length + v, fun x => ?_⟩
    have hpow : 256 ^ (bytes.length + 1) = 256 * 256 ^ bytes.length := Nat.pow_succ'
    rw [shiftIn_cons, hv, toNat_shiftIn, Nat.add_mod, Nat.mod_mul_mod, ← Nat.add_mod, List.length_cons, hpow, Nat.add_mul,
      Nat.mul_assoc, Nat.add_assoc]

/-- Eight bytes shift out what was there before. -/
theorem shiftIn_eight (x y : BitVec 64) {bytes : List Byte} (h : bytes.length = 8) : shiftIn x bytes = shiftIn y bytes := by
  obtain ⟨v, hv⟩ := exists_toNat_shiftIn bytes
  apply BitVec.eq_of_toNat_eq
  rw [hv, hv, h]
  omega

theorem shiftIn_rev (bytes : List Byte) (x : BitVec 64) : shiftIn (~~~x) (bytes.map Fin.rev) = ~~~shiftIn x bytes := by
  induction bytes generalizing x with
  | nil => rfl
  | cons b bytes ih =>
    have hstep : ~~~x <<< 8 ||| BitVec.ofNat 64 b.rev = ~~~(x <<< 8 ||| BitVec.ofNat 64 b) := by
      apply BitVec.eq_of_toNat_eq
      rw [BitVec.toNat_not, toNat_shiftIn, toNat_shiftIn, BitVec.toNat_not, Fin.val_rev]
      have hx := x.isLt
      have hb := b.isLt
      omega
    rw [List.map_cons, shiftIn_cons, shiftIn_cons, hstep, ih]

theorem xor_header_mask {x len : Nat} (h : Length x len) :
    BitVec.ofNat 64 (x + header len) ^^^ kLengthToMask.getD len 0 = BitVec.ofNat 64 x := by
  have htable : ∀ len < 11, kLengthToMask.getD len 0 = BitVec.ofNat 64 ((2 ^ len - 1) * 2 ^ (7 * len)) := by decide
  have hlt : x < 2 ^ (7 * len) := h.fits.trans_le (Nat.pow_le_pow_right Nat.two_pos (by omega))
  have hxor : (x + header len) ^^^ header len = x := by
    unfold header
    apply Nat.eq_of_testBit_eq
    intro i
    rw [Nat.testBit_xor, Nat.add_comm, Nat.mul_comm, Nat.testBit_two_pow_mul_add _ hlt, Nat.testBit_two_pow_mul]
    by_cases hi : i < 7 * len
    · rw [if_pos hi]
      simp [Nat.not_le.mpr hi]
    · rw [if_neg hi]
      have hfalse : x.testBit i = false := Nat.testBit_lt_two_pow (hlt.trans_le (Nat.pow_le_pow_right Nat.two_pos (by omega)))
      simp [Nat.not_lt.mp hi, hfalse]
  rw [htable len (Nat.lt_succ_of_le h.le), ← BitVec.ofNat_xor]
  exact congrArg _ hxor

theorem toInt_ofNat {x : Nat} (h : x < 2 ^ 63) : (BitVec.ofNat 64 x).toInt = x ∧ (~~~BitVec.ofNat 64 x).toInt = -x - 1 := by
  have hx : (BitVec.ofNat 64 x).toNat = x := by
    rw [BitVec.toNat_ofNat]
    omega
  refine ⟨?_, ?_⟩
  · rw [BitVec.toInt_eq_toNat_cond, hx, if_pos (by omega)]
  · rw [BitVec.toInt_eq_toNat_cond, BitVec.toNat_not, hx, if_neg (by omega)]
    omega

/-- How long the word is that begins with the first bytes, when its size bits go on
beyond the first. -/
theorem wordLength_long {b₀ b₁ b₂ : Byte} {flip : Byte → Byte} {mask : Byte} (hf : ∀ b, flip b ^^^ mask = b)
    (h₀ : b₀ = 0xff) {src : List Byte} (hsrc : 8 ≤ src.length + 3) :
    wordLength mask (flip b₀ :: flip b₁ :: flip b₂ :: src) =
      if b₁ < 0x80 then some 8
      else if b₁ < 0xc0 then some 9
      else if b₁ = 0xc0 ∧ b₂ < 0x80 then some 10
      else none := by
  unfold wordLength
  have hlen : ¬((flip b₁ :: flip b₂ :: src).length + 1 < 8) := by
    rw [List.length_cons, List.length_cons]
    omega
  dsimp only
  rw [hf, if_neg (not_not.mpr h₀), if_neg hlen]
  show (if flip b₁ ^^^ mask < 0x80 then _ else if flip b₁ ^^^ mask < 0xc0 then _
    else if flip b₁ ^^^ mask = 0xc0 ∧ flip b₂ ^^^ mask < 0x80 then _ else _) = _
  rw [hf, hf]

/-- The length of a word can be told from its first bytes. -/
theorem wordLength_word {x len : Nat} (h : Length x len) {flip : Byte → Byte} {mask : Byte}
    (hf : ∀ b, flip b ^^^ mask = b) (rest : List Byte) :
    wordLength mask ((digits len (x + header len)).map flip ++ rest) = some len := by
  have hupper := h.add_header_le
  have hlower := header_add len
  by_cases h7 : len ≤ 7
  · have htable : ∀ k < 7, ∀ b : Byte, 256 - 2 ^ (7 - k) ≤ b.val → b.val < 256 - 2 ^ (6 - k) →
        b ≠ 0xff ∧ 7 - (b ^^^ 0xff).val.log2 = k + 1 := by decide +kernel
    obtain ⟨k, rfl⟩ := Nat.exists_eq_add_of_le' h.pos
    have hpos : 0 < 256 ^ k := Nat.pow_pos (by decide)
    have h256 : (256 : Nat) ^ k = 2 ^ (8 * k) := by rw [show (256 : Nat) = 2 ^ 8 from rfl, ← Nat.pow_mul]
    have hge : 256 - 2 ^ (7 - k) ≤ (x + header (k + 1)) / 256 ^ k := by
      rw [Nat.le_div_iff_mul_le hpos, Nat.sub_mul, h256, ← Nat.pow_add, ← h256]
      rw [show 7 - k + 8 * k = 7 * (k + 1) by omega, Nat.mul_comm, ← Nat.pow_succ]
      omega
    have hlt : (x + header (k + 1)) / 256 ^ k < 256 - 2 ^ (6 - k) := by
      rw [Nat.div_lt_iff_lt_mul hpos, Nat.sub_mul, h256, ← Nat.pow_add, ← h256]
      rw [show 6 - k + 8 * k = 7 * (k + 1) - 1 by omega, Nat.mul_comm, ← Nat.pow_succ]
      omega
    have hval : (Fin.ofNat 256 ((x + header (k + 1)) / 256 ^ k)).val = (x + header (k + 1)) / 256 ^ k :=
      Nat.mod_eq_of_lt (hlt.trans_le (Nat.sub_le _ _))
    obtain ⟨hne, hlog⟩ := htable k (by omega) _ (hval.symm ▸ hge) (hval.symm ▸ hlt)
    rw [digits, List.map_cons, List.cons_append, wordLength]
    dsimp only
    rw [hf, if_pos hne, hlog]
  · have hle := h.le
    obtain rfl | rfl | rfl : len = 8 ∨ len = 9 ∨ len = 10 := by omega
    · have hfits : x < 2 ^ 55 := h.fits
      have hheader : header 8 = 18374686479671623680 := rfl
      have h₀ : Fin.ofNat 256 ((x + header 8) / 256 ^ 7) = 0xff := by
        apply Fin.ext
        show (x + header 8) / 256 ^ 7 % 256 = 255
        omega
      have h₁ : Fin.ofNat 256 ((x + header 8) / 256 ^ 6) < 0x80 := by
        show (x + header 8) / 256 ^ 6 % 256 < 128
        omega
      exact (wordLength_long hf h₀ (Nat.le_add_left ..)).trans (if_pos h₁)
    · have hfits : x < 2 ^ 62 := h.fits
      have hheader : header 9 = 4713143110832790437888 := rfl
      have h₀ : Fin.ofNat 256 ((x + header 9) / 256 ^ 8) = 0xff := by
        apply Fin.ext
        show (x + header 9) / 256 ^ 8 % 256 = 255
        omega
      have h₁ : ¬Fin.ofNat 256 ((x + header 9) / 256 ^ 7) < 0x80 := by
        show ¬(x + header 9) / 256 ^ 7 % 256 < 128
        omega
      have h₁' : Fin.ofNat 256 ((x + header 9) / 256 ^ 7) < 0xc0 := by
        show (x + header 9) / 256 ^ 7 % 256 < 192
        omega
      exact (wordLength_long hf h₀ (Nat.le_add_left ..)).trans ((if_neg h₁).trans (if_pos h₁'))
    · have hfits : x < 2 ^ 63 := h.int64
      have hheader : header 10 = 1207745227993911763402752 := rfl
      have h₀ : Fin.ofNat 256 ((x + header 10) / 256 ^ 9) = 0xff := by
        apply Fin.ext
        show (x + header 10) / 256 ^ 9 % 256 = 255
        omega
      have h₁ : Fin.ofNat 256 ((x + header 10) / 256 ^ 8) = 0xc0 := by
        apply Fin.ext
        show (x + header 10) / 256 ^ 8 % 256 = 192
        omega
      have h₂ : Fin.ofNat 256 ((x + header 10) / 256 ^ 7) < 0x80 := by
        show (x + header 10) / 256 ^ 7 % 256 < 128
        omega
      have hnot : ¬Fin.ofNat 256 ((x + header 10) / 256 ^ 8) < 0x80 ∧ ¬Fin.ofNat 256 ((x + header 10) / 256 ^ 8) < 0xc0 := by
        rw [h₁]
        decide
      exact (wordLength_long hf h₀ (Nat.le_add_left ..)).trans
        ((if_neg hnot.1).trans ((if_neg hnot.2).trans (if_pos ⟨h₁, h₂⟩)))

theorem drop_digits (j k n : Nat) : (digits (j + k) n).drop j = digits k n := by
  rw [digits_add, List.drop_left' (length_digits ..)]

theorem shiftIn_digits_zero {k n : Nat} (h : 8 ≤ k ∨ n < 256 ^ k) : shiftIn 0 (digits k n) = BitVec.ofNat 64 n := by
  apply BitVec.eq_of_toNat_eq
  rw [shiftIn_digits, BitVec.toNat_ofNat]
  show (0 * 256 ^ k + n % 256 ^ k) % 2 ^ 64 = n % 2 ^ 64
  rw [Nat.zero_mul, Nat.zero_add]
  rcases h with h8 | hlt
  · apply Nat.mod_mod_of_dvd
    rw [show (256 : Nat) = 2 ^ 8 from rfl, ← Nat.pow_mul]
    exact Nat.pow_dvd_pow 2 (by omega)
  · rw [Nat.mod_eq_of_lt hlt]

/-- Reading a word, of a negative number or not. -/
theorem read_flipped {x len : Nat} (h : Length x len) (negative : Bool) (flip : Byte → Byte) (g : BitVec 64 → BitVec 64)
    (hf : ∀ b, flip b ^^^ (if negative then 0xff else 0) = b) (hsign : ∀ b, 0x80 ≤ b → decide (flip b < 0x80) = negative)
    (hstart : ∀ bytes, shiftIn (if negative then BitVec.allOnes 64 else 0) (bytes.map flip) = g (shiftIn 0 bytes))
    (height : ∀ n, shiftIn 0 ((digits 8 n).map flip) = g (BitVec.ofNat 64 n)) (hg : ∀ y m, g y ^^^ m = g (y ^^^ m))
    {result : Int} (hresult : (g (BitVec.ofNat 64 x)).toInt = result) (hlen : signedEncodingLength result = len)
    (rest : List Byte) :
    readSignedNumIncreasing ((digits len (x + header len)).map flip ++ rest) = .ok (some (result, rest)) := by
  obtain ⟨b, bytes, hbytes, hb⟩ := head_word h
  obtain ⟨src, hsrc⟩ : ∃ src, src = (digits len (x + header len)).map flip ++ rest := ⟨_, rfl⟩
  have hlength : ((digits len (x + header len)).map flip).length = len := by rw [List.length_map, length_digits]
  have hnegative : src.head?.any (· < 0x80) = negative := by
    rw [hsrc, hbytes, List.map_cons, List.cons_append, List.head?_cons, Option.any_some]
    exact hsign b hb
  have hword : wordLength (if negative then 0xff else 0) src = some len := hsrc ▸ wordLength_word h hf rest
  have hshort : ¬src.length < len := by
    rw [hsrc, List.length_append, hlength]
    omega
  have htake : src.take len = (digits len (x + header len)).map flip := by rw [hsrc, List.take_left' hlength]
  have hdrop : src.drop len = rest := by rw [hsrc, List.drop_left' hlength]
  have hx : (if len < 8 then shiftIn (if negative then BitVec.allOnes 64 else 0) (src.take len)
      else shiftIn 0 ((src.take len).drop (len - 8))) = g (BitVec.ofNat 64 (x + header len)) := by
    rw [htake]
    by_cases h8 : len < 8
    · rw [if_pos h8, hstart, shiftIn_digits_zero (Or.inr h.lt)]
    · obtain ⟨j, rfl⟩ := Nat.exists_eq_add_of_le' (Nat.not_lt.mp h8)
      rw [if_neg h8, Nat.add_sub_cancel, ← List.map_drop, drop_digits, height]
  unfold readSignedNumIncreasing
  rw [← hsrc, hnegative]
  dsimp only
  rw [hword]
  dsimp only
  rw [if_neg hshort, hx, hg, xor_header_mask h, hresult, hdrop, hlen, hardAssert_ok (decide_eq_true rfl)]
  rfl

/-- **A number is read as it was written**, whatever follows. -/
theorem read_writeSignedNumIncreasing {val : Int} (ha : -2 ^ 63 ≤ val) (hb : val < 2 ^ 63) (rest : List Byte) :
    readSignedNumIncreasing (writeSignedNumIncreasing val ++ rest) = .ok (some (val, rest)) := by
  by_cases h0 : val < 0
  · obtain ⟨x, hx⟩ := Int.eq_ofNat_of_zero_le (show 0 ≤ -val - 1 by omega)
    obtain rfl : val = -x - 1 := by omega
    have hx63 : x < 2 ^ 63 := by omega
    obtain ⟨len, hlength, hlen, hword⟩ := write_natCast hx63
    rw [write_compl hx63, hword]
    apply read_flipped hlength true Fin.rev (~~~·)
    · decide +kernel
    · decide +kernel
    · intro bytes
      exact shiftIn_rev bytes 0
    · intro n
      rw [shiftIn_eight 0 (~~~0) (by rw [List.length_map, length_digits]), shiftIn_rev,
        shiftIn_digits_zero (Or.inl (Nat.le_refl _))]
    · intro y m
      exact BitVec.not_xor_left.symm
    · exact (toInt_ofNat hx63).2
    · rw [← hlen, signedEncodingLength, signedEncodingLength, magnitude_compl, magnitude_natCast]
  · obtain ⟨x, rfl⟩ := Int.eq_ofNat_of_zero_le (Int.not_lt.mp h0)
    have hx63 : x < 2 ^ 63 := by omega
    obtain ⟨len, hlength, hlen, hword⟩ := write_natCast hx63
    rw [hword, ← List.map_id (digits len (x + header len))]
    apply read_flipped hlength false id id
    · decide +kernel
    · decide +kernel
    · intro bytes
      rw [List.map_id]
      rfl
    · intro n
      rw [List.map_id]
      exact shiftIn_digits_zero (Or.inl (Nat.le_refl _))
    · intro y m
      rfl
    · exact (toInt_ofNat hx63).1
    · exact hlen

theorem signedNum_lt_iff {a b : Int} (ha : -2 ^ 63 ≤ a ∧ a < 2 ^ 63) (hb : -2 ^ 63 ≤ b ∧ b < 2 ^ 63) (rest rest' : List Byte) :
    writeSignedNumIncreasing a ++ rest < writeSignedNumIncreasing b ++ rest' ↔ a < b ∨ a = b ∧ rest < rest' :=
  append_lt_append_iff (before_writeSignedNumIncreasing ha.1 hb.2) (before_writeSignedNumIncreasing hb.1 ha.2) rest rest'

theorem string_lt_iff (s t rest rest' : List Byte) :
    writeString s ++ rest < writeString t ++ rest' ↔ s < t ∨ s = t ∧ rest < rest' :=
  append_lt_append_iff (fun h => keeps_writeString h) (fun h => keeps_writeString h) rest rest'

/-! ## Both codes -/

/-- **Ordered code**: what is written is read back, and sorts as what it stands for,
whatever follows. -/
theorem ordered_code {a b : Int} (ha : -2 ^ 63 ≤ a ∧ a < 2 ^ 63) (hb : -2 ^ 63 ≤ b ∧ b < 2 ^ 63) (s t rest rest' : List Byte) :
    (readSignedNumIncreasing (writeSignedNumIncreasing a ++ rest) = .ok (some (a, rest)) ∧
      (writeSignedNumIncreasing a ++ rest < writeSignedNumIncreasing b ++ rest' ↔ a < b ∨ a = b ∧ rest < rest')) ∧
    readString (writeString s ++ rest) = some (s, rest) ∧
      (writeString s ++ rest < writeString t ++ rest' ↔ s < t ∨ s = t ∧ rest < rest') := by
  refine ⟨⟨?_, ?_⟩, ?_, ?_⟩
  · exact read_writeSignedNumIncreasing ha.1 ha.2 rest
  · exact signedNum_lt_iff ha hb rest rest'
  · exact readString_writeString s rest
  · exact string_lt_iff s t rest rest'

/-- The numbers are of two and of ten bytes. -/
theorem ordered_code_twoLengths : writeSignedNumIncreasing (-100) ++ [1] < writeSignedNumIncreasing (2 ^ 62) ++ [0] := by
  have h := ordered_code (a := -100) (b := 2 ^ 62) (by decide) (by decide) [] [0] [1] [0]
  exact h.1.2.mpr (Or.inl (by decide))

end OrderedCode

end ShoppingList.Firestore
