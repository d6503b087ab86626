import Mathlib.Data.List.Count
import Mathlib.Data.List.Nodup
import ShoppingList.Lib.Lists

/-!
# Ledgers of a shared list

Several parties add elements to a shared list and remove elements from it. A
ledger lists the changes, the latest first. It says which elements must be in
the list (`Survives`) and how many copies can be (`remaining`). A list that
agrees with its ledger (`Sound`) keeps agreeing when an element is added by set
union, and when a party overwrites the list with its own copy less one row,
provided the copy holds what the list holds.
-/

namespace Ledger

universe u

variable {α : Type u} [DecidableEq α]

inductive Change (α : Type u) where
  | added (a : α)
  | removed (a : α)
  deriving DecidableEq

/-- Append an element unless an equal one is in the list. -/
def addAbsent (xs : List α) (a : α) : List α := if a ∈ xs then xs else xs ++ [a]

theorem addAbsent_of_mem {xs : List α} {a : α} (h : a ∈ xs) : addAbsent xs a = xs := if_pos h

theorem addAbsent_of_not_mem {xs : List α} {a : α} (h : a ∉ xs) : addAbsent xs a = xs ++ [a] := if_neg h

theorem mem_addAbsent {xs : List α} {a b : α} : b ∈ addAbsent xs a ↔ b ∈ xs ∨ b = a := by
  unfold addAbsent
  split
  · rename_i h
    exact ⟨Or.inl, fun hb => hb.elim id fun e => e ▸ h⟩
  · rw [List.mem_append, List.mem_singleton]

theorem nodup_addAbsent {xs : List α} (h : xs.Nodup) (a : α) : (addAbsent xs a).Nodup := by
  unfold addAbsent
  by_cases ha : a ∈ xs
  · rwa [if_pos ha]
  · rw [if_neg ha]
    exact List.nodup_append'.mpr ⟨h, List.nodup_singleton a, by simpa using ha⟩

theorem count_addAbsent_le (xs : List α) (a b : α) :
    (addAbsent xs a).count b ≤ xs.count b + if a = b then 1 else 0 := by
  unfold addAbsent
  split
  · omega
  · rw [List.count_append, List.count_singleton]
    simp only [beq_iff_eq]
    exact Nat.le_refl _

/-! ## What a ledger says -/

/-- `a` was added after it was last removed, or was there at the start and was
never removed. -/
def Survives (start : List α) (ledger : List (Change α)) (a : α) : Prop :=
  (∃ later earlier, ledger = later ++ .added a :: earlier ∧ .removed a ∉ later) ∨
    (a ∈ start ∧ .removed a ∉ ledger)

/-- The copies of `a` that were there at the start or added, and not removed. -/
def remaining (start : List α) : List (Change α) → α → Nat
  | [], a => start.count a
  | .added b :: ledger, a => remaining start ledger a + if b = a then 1 else 0
  | .removed b :: ledger, a => remaining start ledger a - if b = a then 1 else 0

variable {start xs ys : List α} {ledger : List (Change α)} {a b : α}

omit [DecidableEq α] in
theorem Survives.of_added (h : Survives start (.added b :: ledger) a) (hne : a ≠ b) :
    Survives start ledger a := by
  rcases h with ⟨later, earlier, he, hn⟩ | ⟨hs, hn⟩
  · cases later with
    | nil =>
      rw [List.nil_append, List.cons.injEq, Change.added.injEq] at he
      exact absurd he.1.symm hne
    | cons c later =>
      rw [List.cons_append, List.cons.injEq] at he
      exact Or.inl ⟨later, earlier, he.2, fun hm => hn (List.mem_cons_of_mem _ hm)⟩
  · exact Or.inr ⟨hs, fun hm => hn (List.mem_cons_of_mem _ hm)⟩

omit [DecidableEq α] in
theorem Survives.of_removed (h : Survives start (.removed b :: ledger) a) :
    a ≠ b ∧ Survives start ledger a := by
  rcases h with ⟨later, earlier, he, hn⟩ | ⟨hs, hn⟩
  · cases later with
    | nil => simp at he
    | cons c later =>
      rw [List.cons_append, List.cons.injEq] at he
      obtain ⟨hc, he⟩ := he
      subst hc
      exact ⟨fun e => hn (e ▸ List.mem_cons_self ..),
        Or.inl ⟨later, earlier, he, fun hm => hn (List.mem_cons_of_mem _ hm)⟩⟩
  · exact ⟨fun e => hn (e ▸ List.mem_cons_self ..),
      Or.inr ⟨hs, fun hm => hn (List.mem_cons_of_mem _ hm)⟩⟩

/-! ## Lists that agree with their ledger -/

structure Sound (start : List α) (ledger : List (Change α)) (xs : List α) : Prop where
  survivors : ∀ a, Survives start ledger a → a ∈ xs
  count_le : ∀ a, xs.count a ≤ remaining start ledger a

theorem Sound.initial : Sound start [] start where
  survivors := by
    rintro a (⟨later, earlier, he, -⟩ | ⟨hs, -⟩)
    · simp at he
    · exact hs
  count_le := fun _ => Nat.le_refl _

theorem Sound.added (h : Sound start ledger xs) (b : α) :
    Sound start (.added b :: ledger) (addAbsent xs b) where
  survivors := by
    intro a ha
    rw [mem_addAbsent]
    by_cases hab : a = b
    · exact Or.inr hab
    · exact Or.inl (h.survivors a (ha.of_added hab))
  count_le := by
    intro a
    have hc := count_addAbsent_le xs b a
    have hr := h.count_le a
    simp only [remaining]
    omega

theorem Sound.removed (h : Sound start ledger xs) (hp : ys.Perm xs) {row : Nat} (hb : ys[row]? = some b) :
    Sound start (.removed b :: ledger) (ys.eraseIdx row) := by
  have hperm : ys.Perm (b :: ys.eraseIdx row) := Lists.perm_cons_eraseIdx hb
  refine ⟨?_, ?_⟩
  · intro a ha
    obtain ⟨hne, ha⟩ := ha.of_removed
    have hm : a ∈ b :: ys.eraseIdx row := hperm.mem_iff.mp (hp.mem_iff.mpr (h.survivors a ha))
    exact (List.mem_cons.mp hm).resolve_left hne
  · intro a
    have hc := hperm.count_eq a
    rw [hp.count_eq, List.count_cons] at hc
    have hr := h.count_le a
    simp only [remaining]
    simp only [beq_iff_eq] at hc
    omega

theorem Sound.not_mem (h : Sound start ledger xs) (ha : remaining start ledger a = 0) : a ∉ xs := by
  have := h.count_le a
  exact List.count_eq_zero.mp (by omega)

end Ledger
