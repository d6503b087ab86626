import Mathlib.Tactic.Common

/-!
# Lists cut at a separator

`List.splitOn c` cuts a list at every `c`. `upTo c n xs` is the part of `xs`
before its `(n + 1)`-st `c`, and its components are the first `n + 1`
components of `xs` (`splitOn_upTo`). A reader that keeps a fixed number of
components therefore sees `upTo` and nothing else. A list is also cut in two at
its first or at its last `c`.
-/

namespace Separated

universe u

variable {α : Type u} [DecidableEq α]

/-- The part of a list before its `(n + 1)`-st `c`. -/
def upTo (c : α) : Nat → List α → List α
  | _, [] => []
  | n, x :: xs =>
    if x = c then
      match n with
      | 0 => []
      | n + 1 => x :: upTo c n xs
    else x :: upTo c n xs

@[simp] theorem upTo_nil (c : α) (n : Nat) : upTo c n [] = [] := by cases n <;> rfl

@[simp] theorem upTo_zero_sep (c : α) (xs : List α) : upTo c 0 (c :: xs) = [] := by simp [upTo]

@[simp] theorem upTo_succ_sep (c : α) (n : Nat) (xs : List α) :
    upTo c (n + 1) (c :: xs) = c :: upTo c n xs := by simp [upTo]

theorem upTo_cons_ne {c x : α} (h : x ≠ c) (n : Nat) (xs : List α) :
    upTo c n (x :: xs) = x :: upTo c n xs := by cases n <;> simp [upTo, h]

theorem modifyHead_take_succ {β : Type u} (f : β → β) (n : Nat) (l : List β) :
    (l.take (n + 1)).modifyHead f = (l.modifyHead f).take (n + 1) := by
  cases l <;> rfl

theorem splitOn_upTo (c : α) : ∀ (n : Nat) (xs : List α),
    (upTo c n xs).splitOn c = (xs.splitOn c).take (n + 1)
  | n, [] => by simp
  | n, x :: xs => by
    by_cases hx : x = c
    · subst hx
      cases n with
      | zero => simp [List.splitOn_cons_eq_if_modifyHead]
      | succ n => simp [List.splitOn_cons_eq_if_modifyHead, splitOn_upTo x n xs]
    · rw [upTo_cons_ne hx, List.splitOn_cons_eq_if_modifyHead, List.splitOn_cons_eq_if_modifyHead,
        if_neg (by simpa using hx), if_neg (by simpa using hx), splitOn_upTo c n xs,
        modifyHead_take_succ]

theorem intercalate_take_splitOn (c : α) (n : Nat) (xs : List α) :
    [c].intercalate ((xs.splitOn c).take (n + 1)) = upTo c n xs := by
  rw [← splitOn_upTo, List.intercalate_splitOn]

/-! ## Counting separators -/

theorem length_splitOn (c : α) : ∀ xs : List α, (xs.splitOn c).length = xs.count c + 1
  | [] => by simp
  | x :: xs => by
    rw [List.splitOn_cons_eq_if_modifyHead, List.count_cons]
    by_cases hx : x = c
    · simp [hx, length_splitOn c xs]
    · simp [hx, length_splitOn c xs]

theorem count_upTo (c : α) (n : Nat) (xs : List α) : (upTo c n xs).count c = min n (xs.count c) := by
  have h := congrArg List.length (splitOn_upTo c n xs)
  rw [List.length_take, length_splitOn, length_splitOn] at h
  omega

theorem upTo_of_count_le (c : α) (n : Nat) (xs : List α) (h : xs.count c ≤ n) : upTo c n xs = xs := by
  have hl : (xs.splitOn c).length ≤ n + 1 := by rw [length_splitOn]; omega
  rw [← intercalate_take_splitOn, List.take_of_length_le hl, List.intercalate_splitOn]

theorem upTo_eq_self_iff (c : α) (n : Nat) (xs : List α) : upTo c n xs = xs ↔ xs.count c ≤ n := by
  refine ⟨?_, ?_⟩
  · intro h
    have hc := count_upTo c n xs
    rw [h] at hc
    omega
  · exact upTo_of_count_le c n xs

theorem not_mem_of_mem_splitOn {c : α} : ∀ {xs w : List α}, w ∈ xs.splitOn c → c ∉ w
  | [], w, hw => by simp at hw; simp [hw]
  | x :: xs, w, hw => by
    rw [List.splitOn_cons_eq_if_modifyHead] at hw
    by_cases hx : x = c
    · simp only [hx, beq_self_eq_true, ite_true, List.mem_cons] at hw
      rcases hw with rfl | hw
      · simp
      · exact not_mem_of_mem_splitOn hw
    · simp only [beq_iff_eq, hx, ite_false] at hw
      obtain ⟨r, rs, hr⟩ := List.exists_cons_of_ne_nil (List.splitOn_ne_nil c xs)
      rw [hr, List.modifyHead_cons, List.mem_cons] at hw
      rcases hw with rfl | hw
      · have hr' : c ∉ r := not_mem_of_mem_splitOn (hr ▸ List.mem_cons_self ..)
        simp [Ne.symm hx, hr']
      · exact not_mem_of_mem_splitOn (hr ▸ List.mem_cons_of_mem _ hw)

/-! ## The first and the last separator -/

def beforeFirst (c : α) (xs : List α) : List α := xs.takeWhile (· ≠ c)

def afterFirst (c : α) (xs : List α) : List α := (xs.dropWhile (· ≠ c)).tail

def beforeLast (c : α) (xs : List α) : List α := (afterFirst c xs.reverse).reverse

def afterLast (c : α) (xs : List α) : List α := (beforeFirst c xs.reverse).reverse

section
variable {c : α} {xs : List α}

theorem beforeFirst_append (h : c ∉ xs) (ys : List α) : beforeFirst c (xs ++ c :: ys) = xs := by
  have hx : ∀ x ∈ xs, decide (x ≠ c) = true := fun x hx => decide_eq_true fun e => h (e ▸ hx)
  rw [beforeFirst, List.takeWhile_append_of_pos hx, List.takeWhile_cons_of_neg (by simp), List.append_nil]

theorem afterFirst_append (h : c ∉ xs) (ys : List α) : afterFirst c (xs ++ c :: ys) = ys := by
  have hx : ∀ x ∈ xs, decide (x ≠ c) = true := fun x hx => decide_eq_true fun e => h (e ▸ hx)
  rw [afterFirst, List.dropWhile_append_of_pos hx, List.dropWhile_cons_of_neg (by simp), List.tail_cons]

theorem beforeLast_append {ys : List α} (h : c ∉ ys) (xs : List α) : beforeLast c (xs ++ c :: ys) = xs := by
  rw [beforeLast, List.reverse_append, List.reverse_cons, List.append_assoc, List.singleton_append,
    afterFirst_append (by simpa using h), List.reverse_reverse]

theorem afterLast_append {ys : List α} (h : c ∉ ys) (xs : List α) : afterLast c (xs ++ c :: ys) = ys := by
  rw [afterLast, List.reverse_append, List.reverse_cons, List.append_assoc, List.singleton_append,
    beforeFirst_append (by simpa using h), List.reverse_reverse]

theorem eq_append_first (h : c ∈ xs) : xs = beforeFirst c xs ++ c :: afterFirst c xs := by
  obtain ⟨us, vs, rfl, hus⟩ := List.eq_append_cons_of_mem h
  rw [beforeFirst_append hus, afterFirst_append hus]

omit [DecidableEq α] in
theorem exists_append_last (h : c ∈ xs) : ∃ us vs, xs = us ++ c :: vs ∧ c ∉ vs := by
  obtain ⟨us, vs, hxs, hus⟩ := List.eq_append_cons_of_mem (List.mem_reverse.mpr h)
  refine ⟨vs.reverse, us.reverse, ?_, by simpa using hus⟩
  rw [← List.reverse_reverse xs, hxs]
  simp

end

end Separated
