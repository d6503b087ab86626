import Mathlib.Computability.Language

/-!
# Patterns

Regular expressions over classes of characters, with bounded repetition. What a
pattern stands for is a `Language`; `accepts` decides it by derivatives and
reads a string once, from the left (`accepts_iff`). For repetitions of one class
the language is described without any splitting.
-/

universe u

inductive Pattern (α : Type u) where
  | fail
  | empty
  | oneOf (p : α → Bool)
  | alt (r s : Pattern α)
  | seq (r s : Pattern α)
  | star (r : Pattern α)
  | atMost (n : Nat) (r : Pattern α)

namespace Pattern

variable {α : Type u}

open Computability

def language : Pattern α → Language α
  | fail => 0
  | empty => 1
  | oneOf p => {xs | ∃ a, p a = true ∧ xs = [a]}
  | alt r s => r.language + s.language
  | seq r s => r.language * s.language
  | star r => r.language∗
  | atMost n r => (1 + r.language) ^ n

def many1 (r : Pattern α) : Pattern α := seq r (star r)

def exactly : Nat → Pattern α → Pattern α
  | 0, _ => empty
  | n + 1, r => seq r (exactly n r)

/-- `r{m,n}` -/
def between (m n : Nat) (r : Pattern α) : Pattern α := seq (exactly m r) (atMost (n - m) r)

/-! ## Matching -/

def nullable : Pattern α → Bool
  | fail => false
  | empty => true
  | oneOf _ => false
  | alt r s => r.nullable || s.nullable
  | seq r s => r.nullable && s.nullable
  | star _ => true
  | atMost _ _ => true

/-- What may follow `a`. -/
def deriv (a : α) : Pattern α → Pattern α
  | fail => fail
  | empty => fail
  | oneOf p => if p a then empty else fail
  | alt r s => alt (deriv a r) (deriv a s)
  | seq r s =>
    if r.nullable then alt (seq (deriv a r) s) (deriv a s) else seq (deriv a r) s
  | star r => seq (deriv a r) (star r)
  | atMost 0 _ => fail
  | atMost (n + 1) r => seq (deriv a r) (atMost n r)

def accepts : Pattern α → List α → Bool
  | r, [] => r.nullable
  | r, a :: xs => accepts (deriv a r) xs

theorem nil_mem_pow (l : Language α) : ∀ n : Nat, [] ∈ (1 + l) ^ n
  | 0 => Language.nil_mem_one
  | n + 1 => by
    rw [pow_succ']
    exact Language.mem_mul.mpr ⟨[], Or.inl rfl, [], nil_mem_pow l n, rfl⟩

theorem nullable_iff (r : Pattern α) : r.nullable = true ↔ [] ∈ r.language := by
  induction r with
  | fail => simp [nullable, language]
  | empty => simp [nullable, language]
  | oneOf p =>
    refine ⟨nofun, ?_⟩
    rintro ⟨a, -, h⟩
    cases h
  | alt r s ihr ihs =>
    rw [nullable, Bool.or_eq_true, ihr, ihs]
    exact (Language.mem_add _ _ _).symm
  | seq r s ihr ihs =>
    rw [nullable, Bool.and_eq_true, ihr, ihs, language, Language.mem_mul]
    refine ⟨?_, ?_⟩
    · intro ⟨hr, hs⟩
      exact ⟨[], hr, [], hs, rfl⟩
    · intro ⟨u, hu, v, hv, huv⟩
      obtain ⟨rfl, rfl⟩ := List.append_eq_nil_iff.mp huv
      exact ⟨hu, hv⟩
  | star r => exact iff_of_true rfl (Language.nil_mem_kstar _)
  | atMost n r => exact iff_of_true rfl (nil_mem_pow _ n)

/-! ## Strings cut after their first character -/

section
variable {l m : Language α} {a : α} {xs : List α}

theorem cons_mem_mul : a :: xs ∈ l * m ↔
    (∃ u, a :: u ∈ l ∧ ∃ v ∈ m, u ++ v = xs) ∨ ([] ∈ l ∧ a :: xs ∈ m) := by
  rw [Language.mem_mul]
  refine ⟨?_, ?_⟩
  · intro ⟨u, hu, v, hv, huv⟩
    cases u with
    | nil =>
      rw [List.nil_append] at huv
      exact Or.inr ⟨hu, huv ▸ hv⟩
    | cons b u =>
      rw [List.cons_append, List.cons.injEq] at huv
      obtain ⟨rfl, huv⟩ := huv
      exact Or.inl ⟨u, hu, v, hv, huv⟩
  · rintro (⟨u, hu, v, hv, rfl⟩ | ⟨hnil, hxs⟩)
    · exact ⟨a :: u, hu, v, hv, rfl⟩
    · exact ⟨[], hnil, a :: xs, hxs, rfl⟩

theorem cons_mem_kstar : a :: xs ∈ l∗ ↔ ∃ u, a :: u ∈ l ∧ ∃ v ∈ l∗, u ++ v = xs := by
  refine ⟨?_, ?_⟩
  · intro h
    obtain ⟨L, hL, hmem⟩ := Language.mem_kstar_iff_exists_nonempty.mp h
    cases L with
    | nil => cases hL
    | cons y L =>
      obtain ⟨hy, hne⟩ := hmem y (List.mem_cons_self ..)
      obtain ⟨b, u, rfl⟩ := List.exists_cons_of_ne_nil hne
      rw [List.flatten_cons, List.cons_append, List.cons.injEq] at hL
      obtain ⟨rfl, hL⟩ := hL
      refine ⟨u, hy, L.flatten, ?_, hL.symm⟩
      exact Language.join_mem_kstar fun z hz => (hmem z (List.mem_cons_of_mem _ hz)).1
  · intro ⟨u, hu, v, hv, huv⟩
    subst huv
    rw [← Language.one_add_self_mul_kstar_eq_kstar]
    exact Or.inr (Language.mem_mul.mpr ⟨a :: u, hu, v, hv, rfl⟩)

theorem cons_mem_pow : ∀ n : Nat, a :: xs ∈ (1 + l) ^ (n + 1) ↔
    ∃ u, a :: u ∈ l ∧ ∃ v ∈ (1 + l) ^ n, u ++ v = xs := by
  intro n
  have hone : ∀ u, a :: u ∈ 1 + l ↔ a :: u ∈ l := by
    intro u
    rw [Language.mem_add, Language.mem_one]
    simp
  induction n with
  | zero =>
    rw [pow_one, hone]
    simp [Language.mem_one]
  | succ n ih =>
    rw [pow_succ', cons_mem_mul]
    simp only [hone]
    refine ⟨?_, Or.inl⟩
    rintro (h | ⟨-, h⟩)
    · exact h
    · obtain ⟨u, hu, v, hv, huv⟩ := ih.mp h
      refine ⟨u, hu, v, ?_, huv⟩
      rw [pow_succ']
      exact Language.mem_mul.mpr ⟨[], Or.inl rfl, v, hv, rfl⟩

end

theorem mem_deriv (a : α) (r : Pattern α) :
    ∀ xs, xs ∈ (deriv a r).language ↔ a :: xs ∈ r.language := by
  induction r with
  | fail => intro xs; exact Iff.rfl
  | empty => intro xs; simp [deriv, language]
  | oneOf p =>
    intro xs
    have hone : a :: xs ∈ (oneOf p).language ↔ p a = true ∧ xs = [] := by
      refine ⟨?_, ?_⟩
      · rintro ⟨b, hb, heq⟩
        cases heq
        exact ⟨hb, rfl⟩
      · rintro ⟨ha, rfl⟩
        exact ⟨a, ha, rfl⟩
    rw [hone, deriv]
    split
    · rename_i ha
      simp [ha, language]
    · rename_i ha
      simp [ha, language]
  | alt r s ihr ihs =>
    intro xs
    exact or_congr (ihr xs) (ihs xs)
  | seq r s ihr ihs =>
    intro xs
    have hleft : xs ∈ (deriv a r).language * s.language ↔
        ∃ u, a :: u ∈ r.language ∧ ∃ v ∈ s.language, u ++ v = xs := by
      rw [Language.mem_mul]
      exact exists_congr fun u => and_congr_left' (ihr u)
    rw [language, cons_mem_mul, ← hleft, deriv]
    split
    · rename_i hn
      rw [and_iff_right ((nullable_iff r).mp hn), ← ihs]
      rfl
    · rename_i hn
      rw [or_iff_left fun h => hn ((nullable_iff r).mpr h.1)]
      rfl
  | star r ih =>
    intro xs
    rw [deriv, language, language, cons_mem_kstar, Language.mem_mul]
    exact exists_congr fun u => and_congr_left' (ih u)
  | atMost n r ih =>
    intro xs
    cases n with
    | zero => simp [deriv, language]
    | succ n =>
      rw [deriv, language, language, language, cons_mem_pow, Language.mem_mul]
      exact exists_congr fun u => and_congr_left' (ih u)

theorem accepts_iff : ∀ (r : Pattern α) (xs : List α), r.accepts xs = true ↔ xs ∈ r.language
  | r, [] => nullable_iff r
  | r, a :: xs => by rw [accepts, accepts_iff, mem_deriv]

/-! ## Repetitions of one class -/

section
variable {p : α → Bool} {xs : List α}

theorem mem_seq {r s : Pattern α} :
    xs ∈ (seq r s).language ↔ ∃ u ∈ r.language, ∃ v ∈ s.language, u ++ v = xs := Language.mem_mul

theorem mem_oneOf : xs ∈ (oneOf p).language ↔ ∃ a, p a = true ∧ xs = [a] := Iff.rfl

theorem mem_star_oneOf : xs ∈ (star (oneOf p)).language ↔ ∀ a ∈ xs, p a = true := by
  rw [language, Language.mem_kstar]
  refine ⟨?_, ?_⟩
  · rintro ⟨L, rfl, hL⟩ a ha
    obtain ⟨y, hy, ha⟩ := List.mem_flatten.mp ha
    obtain ⟨b, hb, rfl⟩ := mem_oneOf.mp (hL y hy)
    exact List.mem_singleton.mp ha ▸ hb
  · intro h
    refine ⟨xs.map fun a => [a], ?_, fun y hy => ?_⟩
    · rw [← List.flatMap_def, List.flatMap_singleton']
    · obtain ⟨a, ha, rfl⟩ := List.mem_map.mp hy
      exact ⟨a, h a ha, rfl⟩

theorem mem_many1_oneOf : xs ∈ (many1 (oneOf p)).language ↔ xs ≠ [] ∧ ∀ a ∈ xs, p a = true := by
  rw [many1, mem_seq]
  refine ⟨?_, ?_⟩
  · rintro ⟨_, ⟨a, ha, rfl⟩, v, hv, rfl⟩
    refine ⟨by simp, fun b hb => ?_⟩
    rcases List.mem_cons.mp hb with rfl | hb
    · exact ha
    · exact mem_star_oneOf.mp hv b hb
  · rintro ⟨hne, h⟩
    obtain ⟨a, v, rfl⟩ := List.exists_cons_of_ne_nil hne
    have hv : v ∈ (star (oneOf p)).language :=
      mem_star_oneOf.mpr fun b hb => h b (List.mem_cons_of_mem _ hb)
    exact ⟨[a], ⟨a, h a (List.mem_cons_self ..), rfl⟩, v, hv, rfl⟩

theorem mem_exactly_oneOf : ∀ {m : Nat} {xs : List α},
    xs ∈ (exactly m (oneOf p)).language ↔ xs.length = m ∧ ∀ a ∈ xs, p a = true
  | 0, xs => by
    rw [exactly, language, Language.mem_one, List.length_eq_zero_iff]
    refine ⟨?_, And.left⟩
    rintro rfl
    exact ⟨rfl, nofun⟩
  | m + 1, xs => by
    rw [exactly, mem_seq]
    refine ⟨?_, ?_⟩
    · rintro ⟨_, ⟨a, ha, rfl⟩, v, hv, rfl⟩
      obtain ⟨hlen, hall⟩ := mem_exactly_oneOf.mp hv
      refine ⟨by rw [List.cons_append, List.length_cons, List.nil_append, hlen], fun b hb => ?_⟩
      rcases List.mem_cons.mp hb with rfl | hb
      · exact ha
      · exact hall b hb
    · rintro ⟨hlen, h⟩
      obtain ⟨a, v, rfl⟩ := List.exists_cons_of_length_eq_add_one hlen
      have hv : v ∈ (exactly m (oneOf p)).language :=
        mem_exactly_oneOf.mpr ⟨Nat.succ.inj hlen, fun b hb => h b (List.mem_cons_of_mem _ hb)⟩
      exact ⟨[a], ⟨a, h a (List.mem_cons_self ..), rfl⟩, v, hv, rfl⟩

theorem mem_atMost_oneOf : ∀ {n : Nat} {xs : List α},
    xs ∈ (atMost n (oneOf p)).language ↔ xs.length ≤ n ∧ ∀ a ∈ xs, p a = true
  | n, [] => iff_of_true (nil_mem_pow _ n) ⟨Nat.zero_le n, nofun⟩
  | 0, a :: xs => iff_of_false (by rw [language, pow_zero, Language.mem_one]; nofun) (by simp)
  | n + 1, a :: xs => by
    rw [language, cons_mem_pow]
    refine ⟨?_, ?_⟩
    · rintro ⟨u, ⟨b, hb, heq⟩, v, hv, rfl⟩
      cases heq
      obtain ⟨hlen, hall⟩ := mem_atMost_oneOf.mp hv
      refine ⟨Nat.succ_le_succ hlen, fun c hc => ?_⟩
      rcases List.mem_cons.mp hc with rfl | hc
      · exact hb
      · exact hall c hc
    · rintro ⟨hlen, h⟩
      have hxs : xs ∈ (atMost n (oneOf p)).language :=
        mem_atMost_oneOf.mpr ⟨Nat.le_of_succ_le_succ hlen, fun b hb => h b (List.mem_cons_of_mem _ hb)⟩
      exact ⟨[], ⟨a, h a (List.mem_cons_self ..), rfl⟩, xs, hxs, rfl⟩

theorem mem_between_oneOf {m n : Nat} (hmn : m ≤ n) : xs ∈ (between m n (oneOf p)).language ↔
    m ≤ xs.length ∧ xs.length ≤ n ∧ ∀ a ∈ xs, p a = true := by
  rw [between, mem_seq]
  refine ⟨?_, ?_⟩
  · rintro ⟨u, hu, v, hv, rfl⟩
    obtain ⟨hulen, hu⟩ := mem_exactly_oneOf.mp hu
    obtain ⟨hvlen, hv⟩ := mem_atMost_oneOf.mp hv
    rw [List.length_append]
    refine ⟨by omega, by omega, fun a ha => ?_⟩
    exact (List.mem_append.mp ha).elim (hu a) (hv a)
  · rintro ⟨hm, hn, h⟩
    refine ⟨xs.take m, mem_exactly_oneOf.mpr ⟨?_, ?_⟩, xs.drop m, mem_atMost_oneOf.mpr ⟨?_, ?_⟩,
      List.take_append_drop m xs⟩
    · exact List.length_take_of_le hm
    · exact fun a ha => h a (List.mem_of_mem_take ha)
    · rw [List.length_drop]; omega
    · exact fun a ha => h a (List.mem_of_mem_drop ha)

end

end Pattern
