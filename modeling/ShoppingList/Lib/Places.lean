import Mathlib.Data.List.Perm.Basic
import Mathlib.Logic.Function.Basic

/-!
# Things and their places

`place` says of every thing where it is. A list of things with their places
(`Books`) and a set of things (`Reflects`) are kept in step with it: each lemma
says how the list or the set changes when one thing moves.
-/

namespace Places

universe u v

variable {α : Type u} {β : Type v}

/-- The entries are the things at places where one is held, each of them once. -/
structure Books (held : β → Prop) (place : α → β) (entries : List (α × β)) : Prop where
  nodup : entries.Nodup
  mem : ∀ a b, (a, b) ∈ entries ↔ place a = b ∧ held b

/-- The things at a known place that are in `s` are those at a place that counts. -/
def Reflects (known counts : β → Prop) (place : α → β) (s : α → Prop) : Prop :=
  ∀ a, known (place a) → (s a ↔ counts (place a))

namespace Books

variable {held : β → Prop} {place : α → β} {entries rest : List (α × β)} {a : α} {b c : β}

theorem perm (h : Books held place entries) (hp : entries.Perm rest) : Books held place rest :=
  ⟨hp.nodup_iff.mp h.nodup, fun x y => hp.mem_iff.symm.trans (h.mem x y)⟩

theorem place_eq (h : Books held place ((a, b) :: rest)) : place a = b :=
  ((h.mem a b).mp (List.mem_cons_self ..)).1

theorem mem_rest (h : Books held place ((a, b) :: rest)) (x : α) (y : β) :
    (x, y) ∈ rest ↔ x ≠ a ∧ place x = y ∧ held y := by
  have hnot := (List.nodup_cons.mp h.nodup).1
  rw [← h.mem x y, List.mem_cons]
  refine ⟨fun hm => ⟨?_, Or.inr hm⟩, fun ⟨hx, hm⟩ => hm.resolve_left ?_⟩
  · rintro rfl
    have hy := ((h.mem x y).mp (List.mem_cons_of_mem _ hm)).1
    rw [h.place_eq] at hy
    exact hnot (hy ▸ hm)
  · rintro ⟨⟩
    exact hx rfl

variable [DecidableEq α]

theorem add (h : Books held place entries) (ha : ¬held (place a)) (hb : held b) :
    Books held (Function.update place a b) ((a, b) :: entries) := by
  have hnot : ∀ y, (a, y) ∉ entries := fun y hm => by
    obtain ⟨hy, hheld⟩ := (h.mem a y).mp hm
    exact ha (hy ▸ hheld)
  refine ⟨List.nodup_cons.mpr ⟨hnot b, h.nodup⟩, fun x y => ?_⟩
  by_cases hx : x = a
  · subst hx
    simp only [List.mem_cons, Prod.mk.injEq, true_and, Function.update_self]
    refine ⟨?_, fun hm => Or.inl hm.1.symm⟩
    rintro (rfl | hm)
    · exact ⟨rfl, hb⟩
    · exact absurd hm (hnot y)
  · simp [hx, h.mem]

theorem drop (h : Books held place ((a, b) :: rest)) (hc : ¬held c) :
    Books held (Function.update place a c) rest := by
  refine ⟨(List.nodup_cons.mp h.nodup).2, fun x y => ?_⟩
  rw [h.mem_rest x y]
  by_cases hx : x = a
  · subst hx
    rw [Function.update_self]
    exact ⟨fun hm => absurd rfl hm.1, fun hm => absurd (hm.1 ▸ hm.2) hc⟩
  · simp [hx]

theorem move (h : Books held place ((a, b) :: rest)) (hc : held c) :
    Books held (Function.update place a c) ((a, c) :: rest) := by
  have hnot : (a, c) ∉ rest := fun hm => ((h.mem_rest a c).mp hm).1 rfl
  refine ⟨List.nodup_cons.mpr ⟨hnot, (List.nodup_cons.mp h.nodup).2⟩, fun x y => ?_⟩
  rw [List.mem_cons, h.mem_rest x y]
  by_cases hx : x = a
  · subst hx
    simp only [Prod.mk.injEq, true_and, Function.update_self]
    refine ⟨?_, fun hm => Or.inl hm.1.symm⟩
    rintro (rfl | hm)
    · exact ⟨rfl, hc⟩
    · exact absurd rfl hm.1
  · simp [hx]

end Books

namespace Reflects

variable [DecidableEq α] {known counts : β → Prop} {place : α → β} {s s' : α → Prop} {a : α} {b : β}

theorem move (h : Reflects known counts place s) (hrest : ∀ x, x ≠ a → (s' x ↔ s x))
    (ha : s' a ↔ counts b) : Reflects known counts (Function.update place a b) s' := by
  intro x hk
  by_cases hx : x = a
  · subst hx
    rwa [Function.update_self]
  · rw [Function.update_of_ne hx] at hk ⊢
    rw [hrest x hx]
    exact h x hk

/-- A move between two places that count alike leaves the set as it is. -/
theorem relabel (h : Reflects known counts place s) (hk : known (place a))
    (hab : counts (place a) ↔ counts b) : Reflects known counts (Function.update place a b) s :=
  h.move (fun _ _ => Iff.rfl) ((h a hk).trans hab)

end Reflects

end Places
