import Mathlib.Data.List.Perm.Basic
import Mathlib.Tactic.Common

/-!
# Lists read and shortened

Reading a whole list through a partial function, pairing two lists, and taking
one element out of a list.
-/

namespace Lists

universe u v

variable {α : Type u} {β : Type v}

theorem mapM_eq_some_iff {α β : Type u} {f : α → Option β} :
    ∀ {xs : List α} {ys : List β}, xs.mapM f = some ys ↔ xs.map f = ys.map some
  | [], ys => by cases ys <;> simp
  | x :: xs, ys => by
    rw [List.mapM_cons]
    cases hx : f x with
    | none => cases ys <;> simp [hx]
    | some y =>
      cases hxs : xs.mapM f with
      | none =>
        have hno : ∀ zs : List β, xs.map f ≠ zs.map some := fun zs hz => by
          rw [mapM_eq_some_iff.mpr hz] at hxs
          cases hxs
        cases ys <;> simp [hx, hno]
      | some zs =>
        have hzs := mapM_eq_some_iff.mp hxs
        cases ys with
        | nil => simp
        | cons y' ys =>
          simp only [Option.pure_def, Option.bind_eq_bind, Option.bind_some, Option.some.injEq,
            List.map_cons, hx, hzs, List.cons.injEq]
          rw [List.map_inj_right fun a b h => Option.some.inj h]

theorem exists_mapM_of_forall {α β : Type u} {f : α → Option β} :
    ∀ {xs : List α}, (∀ x ∈ xs, (f x).isSome) → ∃ ys, xs.mapM f = some ys
  | [], _ => ⟨[], rfl⟩
  | x :: xs, h => by
    obtain ⟨y, hy⟩ := Option.isSome_iff_exists.mp (h x (List.mem_cons_self ..))
    obtain ⟨ys, hys⟩ := exists_mapM_of_forall fun x' hx' => h x' (List.mem_cons_of_mem _ hx')
    exact ⟨y :: ys, by rw [List.mapM_cons, hy, hys]; rfl⟩

theorem zipWith_eq_map {γ : Type u} {f : α → β → γ} {g : α → γ} :
    ∀ {xs : List α} {ys : List β}, xs.length = ys.length → (∀ x ∈ xs, ∀ y, f x y = g x) →
      List.zipWith f xs ys = xs.map g
  | [], [], _, _ => rfl
  | [], _ :: _, h, _ | _ :: _, [], h, _ => nomatch h
  | x :: xs, y :: ys, h, hf => by
    rw [List.zipWith_cons_cons, List.map_cons, hf x (List.mem_cons_self ..) y]
    rw [zipWith_eq_map (Nat.succ.inj h) fun x' hx' => hf x' (List.mem_cons_of_mem _ hx')]

theorem perm_cons_eraseIdx {xs : List α} {i : Nat} {a : α} (h : xs[i]? = some a) :
    xs.Perm (a :: xs.eraseIdx i) := by
  obtain ⟨hlt, rfl⟩ := List.getElem?_eq_some_iff.mp h
  exact (List.getElem_cons_eraseIdx_perm hlt).symm

/-- `ys` is `xs` less one occurrence of `a`. -/
def RemovesOne (a : α) (xs ys : List α) : Prop := ∃ i, xs[i]? = some a ∧ ys = xs.eraseIdx i

end Lists
