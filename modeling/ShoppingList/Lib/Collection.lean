import Mathlib.Data.List.AList

/-!
# Collections of keyed documents

A collection has at most one document for each key. Documents are read by key
(`lookup`) or by a query on their contents (`select`). The two address the same
document when every document carries its own key (`select_eq_of_key`).
-/

universe u v

abbrev Collection (κ : Type u) (ν : Type v) := AList fun _ : κ => ν

namespace Collection

variable {κ : Type u} {ν : Type v} [DecidableEq κ] {s : Collection κ ν} {k k' : κ} {v : ν}

/-- Change the document at `k`; without one, nothing happens. -/
def update (s : Collection κ ν) (k : κ) (f : ν → ν) : Collection κ ν :=
  match s.lookup k with
  | some v => s.insert k (f v)
  | none => s

theorem lookup_update_self (s : Collection κ ν) (k : κ) (f : ν → ν) :
    (s.update k f).lookup k = (s.lookup k).map f := by
  unfold update
  cases h : s.lookup k with
  | none => exact h
  | some v => exact AList.lookup_insert s

theorem lookup_update_ne (f : ν → ν) (h : k' ≠ k) : (s.update k f).lookup k' = s.lookup k' := by
  unfold update
  cases s.lookup k with
  | none => rfl
  | some v => exact AList.lookup_insert_ne h

theorem forall_update {P : κ → ν → Prop} {f : ν → ν} (h : ∀ k v, s.lookup k = some v → P k v)
    (hf : ∀ v, s.lookup k = some v → P k v → P k (f v)) :
    ∀ k' v, (s.update k f).lookup k' = some v → P k' v := by
  intro k' v hv
  by_cases hk : k' = k
  · subst hk
    rw [lookup_update_self, Option.map_eq_some_iff] at hv
    obtain ⟨w, hw, rfl⟩ := hv
    exact hf w hw (h k' w hw)
  · rw [lookup_update_ne f hk] at hv
    exact h k' v hv

theorem forall_insert {P : κ → ν → Prop} (h : ∀ k v, s.lookup k = some v → P k v) (hv : P k v) :
    ∀ k' w, (s.insert k v).lookup k' = some w → P k' w := by
  intro k' w hw
  by_cases hk : k' = k
  · subst hk
    rw [AList.lookup_insert, Option.some.injEq] at hw
    exact hw ▸ hv
  · rw [AList.lookup_insert_ne hk] at hw
    exact h k' w hw

/-! ## Queries -/

/-- The documents, with their keys, whose contents satisfy `p`. -/
def select (s : Collection κ ν) (p : ν → Bool) : List (κ × ν) :=
  (s.entries.map fun e => (e.1, e.2)).filter fun e => p e.2

theorem mem_select {p : ν → Bool} : (k, v) ∈ s.select p ↔ s.lookup k = some v ∧ p v = true := by
  unfold select
  rw [List.mem_filter, List.mem_map]
  refine and_congr_left fun _ => ?_
  have hm : s.lookup k = some v ↔ (⟨k, v⟩ : Sigma fun _ : κ => ν) ∈ s.entries := AList.mem_lookup_iff
  rw [hm]
  refine ⟨?_, ?_⟩
  · intro ⟨e, he, heq⟩
    rw [Prod.mk.injEq] at heq
    obtain ⟨rfl, rfl⟩ := heq
    exact he
  · exact fun he => ⟨_, he, rfl⟩

omit [DecidableEq κ] in
theorem nodup_select (s : Collection κ ν) (p : ν → Bool) : (s.select p).Nodup := by
  have hinj : Function.Injective fun e : Sigma fun _ : κ => ν => (e.1, e.2) := by
    intro ⟨a, b⟩ ⟨a', b'⟩ h
    simp only [Prod.mk.injEq] at h
    rw [h.1, h.2]
  exact (s.nodupKeys.nodup.map hinj).filter _

/-- When each document carries its key, the query for a key finds the document
at that key and no other. -/
theorem select_eq_of_key {key : ν → κ} (h : ∀ k v, s.lookup k = some v → key v = k) (k : κ) :
    s.select (fun v => key v = k) = (s.lookup k).toList.map fun v => (k, v) := by
  have hmem : ∀ k' v, (k', v) ∈ s.select (fun v => key v = k) ↔ k' = k ∧ s.lookup k = some v := by
    intro k' v
    rw [mem_select, decide_eq_true_eq]
    refine ⟨?_, ?_⟩
    · intro ⟨hv, hk⟩
      have hk' : k' = k := (h k' v hv).symm.trans hk
      exact ⟨hk', hk' ▸ hv⟩
    · intro ⟨rfl, hv⟩
      exact ⟨hv, h k' v hv⟩
  cases hl : s.lookup k with
  | none =>
    refine List.eq_nil_iff_forall_not_mem.mpr fun ⟨k', v⟩ hv => ?_
    rw [hmem, hl] at hv
    exact absurd hv.2 (by simp)
  | some v =>
    refine List.perm_singleton.mp ?_
    refine (List.perm_ext_iff_of_nodup (nodup_select s _) (List.nodup_singleton _)).mpr ?_
    intro ⟨k', v'⟩
    rw [hmem, hl, List.mem_singleton, Prod.mk.injEq, Option.some.injEq]
    exact and_congr_right fun _ => eq_comm

end Collection
