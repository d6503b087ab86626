import ShoppingList.Item
import ShoppingList.Lib.Pattern

/-!
# The registration form

`registerClicked` checks the form before it asks for an account. The email
address is matched, as a whole, against a pattern whose domain part may hold
dots and letters itself; which strings it accepts is nevertheless decided by
their one `@` and their last dot.
-/

namespace ShoppingList

open Separated

def inRanges (ranges : List (Char × Char)) (c : Char) : Bool := ranges.any fun r => r.1 ≤ c && c ≤ r.2

/-- `[A-Z0-9a-z._%+-]` -/
def userClass : Char → Bool := inRanges
  [('A', 'Z'), ('0', '9'), ('a', 'z'), ('.', '.'), ('_', '_'), ('%', '%'), ('+', '+'), ('-', '-')]

/-- `[A-Za-z0-9.-]` -/
def domainClass : Char → Bool := inRanges [('A', 'Z'), ('a', 'z'), ('0', '9'), ('.', '.'), ('-', '-')]

/-- `[A-Za-z]` -/
def letterClass : Char → Bool := inRanges [('A', 'Z'), ('a', 'z')]

/-- `[A-Z0-9a-z._%+-]+@[A-Za-z0-9.-]+\.[A-Za-z]{2,64}` -/
def emailFormat : Pattern Char :=
  .seq (.many1 (.oneOf userClass)) (.seq (.oneOf (· == '@')) (.seq (.many1 (.oneOf domainClass))
    (.seq (.oneOf (· == '.')) (.between 2 64 (.oneOf letterClass)))))

/-- `SELF MATCHES`, which takes the whole string. -/
def validateEmail (enteredEmail : Text) : Bool := emailFormat.accepts enteredEmail

/-! ## The classes -/

theorem isAlpha_iff (c : Char) : c.isAlpha = true ↔ ('A' ≤ c ∧ c ≤ 'Z') ∨ ('a' ≤ c ∧ c ≤ 'z') := by
  have hc : c.isAlpha = (decide ('A'.val ≤ c.val ∧ c.val ≤ 'Z'.val) ||
      (decide ('a'.val ≤ c.val) && decide (c.val ≤ 'z'.val))) := rfl
  rw [hc]
  simp [Char.le_def]

theorem isDigit_iff (c : Char) : c.isDigit = true ↔ '0' ≤ c ∧ c ≤ '9' := by
  simp [Char.isDigit, Char.le_def]

theorem letterClass_iff (c : Char) : letterClass c = true ↔ c.isAlpha = true := by
  rw [isAlpha_iff]
  simp [letterClass, inRanges]

theorem range_self (c a : Char) : a ≤ c ∧ c ≤ a ↔ c = a := by
  refine ⟨fun h => Char.le_antisymm h.2 h.1, ?_⟩
  rintro rfl
  exact ⟨Char.le_refl c, Char.le_refl c⟩

theorem domainClass_iff (c : Char) :
    domainClass c = true ↔ c.isAlphanum = true ∨ c ∈ ['.', '-'] := by
  rw [Char.isAlphanum, Bool.or_eq_true, isAlpha_iff, isDigit_iff]
  simp [domainClass, inRanges, range_self, or_assoc]

theorem userClass_iff (c : Char) :
    userClass c = true ↔ c.isAlphanum = true ∨ c ∈ ['.', '_', '%', '+', '-'] := by
  rw [Char.isAlphanum, Bool.or_eq_true, isAlpha_iff, isDigit_iff]
  simp only [userClass, inRanges, List.any_cons, List.any_nil, Bool.or_eq_true, Bool.and_eq_true,
    decide_eq_true_eq, range_self, List.mem_cons, List.not_mem_nil]
  tauto

/-! ## The accepted strings -/

theorem validateEmail_split (s : Text) : validateEmail s = true ↔ ∃ user domain top,
    s = user ++ '@' :: (domain ++ '.' :: top) ∧
    (user ≠ [] ∧ ∀ c ∈ user, userClass c = true) ∧ (domain ≠ [] ∧ ∀ c ∈ domain, domainClass c = true) ∧
    (2 ≤ top.length ∧ top.length ≤ 64 ∧ ∀ c ∈ top, letterClass c = true) := by
  rw [validateEmail, Pattern.accepts_iff, emailFormat]
  simp only [Pattern.mem_seq, Pattern.mem_oneOf, Pattern.mem_many1_oneOf,
    Pattern.mem_between_oneOf (show 2 ≤ 64 by decide), beq_iff_eq]
  refine ⟨?_, ?_⟩
  · rintro ⟨user, huser, _, ⟨_, ⟨_, rfl, rfl⟩, _, ⟨domain, hdomain, _, ⟨_, ⟨_, rfl, rfl⟩, top, htop, rfl⟩, rfl⟩,
      rfl⟩, rfl⟩
    exact ⟨user, domain, top, rfl, huser, hdomain, htop⟩
  · rintro ⟨user, domain, top, rfl, huser, hdomain, htop⟩
    exact ⟨user, huser, _, ⟨['@'], ⟨'@', rfl, rfl⟩, _, ⟨domain, hdomain, _,
      ⟨['.'], ⟨'.', rfl, rfl⟩, top, htop, rfl⟩, rfl⟩, rfl⟩, rfl⟩

theorem not_mem_of_class {p : Char → Bool} {xs : Text} (h : ∀ c ∈ xs, p c = true) {a : Char}
    (ha : p a = false) : a ∉ xs := by
  intro hm
  rw [h a hm] at ha
  cases ha

/-- **The language of `validateEmail`.** -/
theorem validateEmail_iff (s : Text) : validateEmail s = true ↔
    s.count '@' = 1 ∧
    (beforeFirst '@' s ≠ [] ∧
      ∀ c ∈ beforeFirst '@' s, c.isAlphanum = true ∨ c ∈ ['.', '_', '%', '+', '-']) ∧
    ((∀ c ∈ afterFirst '@' s, c.isAlphanum = true ∨ c ∈ ['.', '-']) ∧ '.' ∈ afterFirst '@' s) ∧
    (2 ≤ (afterLast '.' s).length ∧ (afterLast '.' s).length ≤ 64 ∧
      ∀ c ∈ afterLast '.' s, c.isAlpha = true) ∧
    beforeLast '.' (afterFirst '@' s) ≠ [] := by
  rw [validateEmail_split]
  simp only [← userClass_iff, ← domainClass_iff, ← letterClass_iff]
  refine ⟨?_, ?_⟩
  · rintro ⟨user, domain, top, rfl, ⟨hune, huser⟩, ⟨hdne, hdomain⟩, htlo, hthi, htop⟩
    have hu : '@' ∉ user := not_mem_of_class huser (by decide)
    have hd : '@' ∉ domain := not_mem_of_class hdomain (by decide)
    have ht : '@' ∉ top := not_mem_of_class htop (by decide)
    have hdot : '.' ∉ top := not_mem_of_class htop (by decide)
    have hlast : afterLast '.' (user ++ '@' :: (domain ++ '.' :: top)) = top := by
      rw [← List.cons_append, ← List.append_assoc, afterLast_append hdot]
    rw [hlast, beforeFirst_append hu, afterFirst_append hu, beforeLast_append hdot]
    refine ⟨?_, ⟨hune, huser⟩, ⟨?_, by simp⟩, ⟨htlo, hthi, htop⟩, hdne⟩
    · simp [List.count_eq_zero_of_not_mem hu, List.count_eq_zero_of_not_mem hd,
        List.count_eq_zero_of_not_mem ht]
    · intro c hc
      rcases List.mem_append.mp hc with hc | hc
      · exact hdomain c hc
      rcases List.mem_cons.mp hc with rfl | hc
      · decide
      · rw [domainClass_iff, Char.isAlphanum, (letterClass_iff c).mp (htop c hc)]
        exact Or.inl rfl
  · rintro ⟨hcount, huser, ⟨hafter, hdot⟩, ⟨htlo, hthi, htop⟩, hbetween⟩
    have hat : '@' ∈ s := List.count_pos_iff.mp (by omega)
    obtain ⟨domain, top, hsplit, htopdot⟩ := exists_append_last hdot
    have hs : s = beforeFirst '@' s ++ '@' :: (domain ++ '.' :: top) := hsplit ▸ eq_append_first hat
    have hlast : afterLast '.' s = top := by
      rw [hs, ← List.cons_append, ← List.append_assoc, afterLast_append htopdot]
    rw [hlast] at htlo hthi htop
    rw [hsplit, beforeLast_append htopdot] at hbetween
    refine ⟨_, domain, top, hs, huser, ⟨hbetween, fun c hc => ?_⟩, htlo, hthi, htop⟩
    exact hafter c (hsplit ▸ List.mem_append_left _ hc)

example : validateEmail ['j', '.', 'p', '@', 'a', '.', 'b', '.', 'b', 'e'] = true := by decide

/-! ## The checks of the form -/

structure RegisterForm where
  username : Text
  password : Text
  password2 : Text

/-- The warning, or nothing when `register()` is called. -/
def registerClicked (form : RegisterForm) : Option String :=
  if form.username.isEmpty then
    some "Please give a valid email address"
  -- the text of the email field again
  else if form.username.isEmpty then
    some "Please fill in a password"
  else if !validateEmail form.username then
    some "Please give a valid email address"
  else if form.password ≠ form.password2 then
    some "Passwords don't match"
  else if form.password.length < 6 then
    some "Password shoud be 6 or more characters"
  else
    none

theorem validateEmail_nil : validateEmail [] = false := rfl

/-- An account is asked for exactly when the address is accepted and the
password, given twice, has six characters; an empty password gets the last of
the warnings and never the second. -/
theorem registerClicked_eq_none_iff (form : RegisterForm) : registerClicked form = none ↔
    validateEmail form.username = true ∧ form.password = form.password2 ∧ 6 ≤ form.password.length := by
  unfold registerClicked
  by_cases hempty : form.username = []
  · simp [hempty, validateEmail_nil]
  · have he : form.username.isEmpty = false := List.isEmpty_eq_false_iff.mpr hempty
    cases validateEmail form.username with
    | false => simp [he]
    | true =>
      by_cases hpassword : form.password = form.password2
      · simp [he, hpassword]
      · simp [he, hpassword]

end ShoppingList
