import Mathlib.Tactic.Common

/-!
# Runs of a guarded step function

`step s e` is `some s'` when the event `e` can happen in `s`. `run` replays a
list of events, and `Along R` says that every step a list of events takes
satisfies `R`. A condition on the steps and a conclusion about them are both
stated with `Along`; `Along.conclude` passes from one to the other through an
invariant. `record` runs a history variable beside the state.
-/

namespace Runs

universe u v w

variable {σ : Type u} {ε : Type v} {γ : Type w} (step : σ → ε → Option σ)

def run : σ → List ε → Option σ
  | s, [] => some s
  | s, e :: es => (step s e).bind fun s' => run s' es

def Along (R : σ → ε → σ → Prop) : σ → List ε → Prop
  | _, [] => True
  | s, e :: es => ∀ s', step s e = some s' → R s e s' ∧ Along R s' es

theorem run_cons (s : σ) (e : ε) (es : List ε) :
    run step s (e :: es) = (step s e).bind fun s' => run step s' es := rfl

variable {step}

theorem run_cons_some {s s'' : σ} {e : ε} {es : List ε} (h : run step s (e :: es) = some s'') :
    ∃ s', step s e = some s' ∧ run step s' es = some s'' := by
  rw [run_cons, Option.bind_eq_some_iff] at h
  exact h

theorem run_append (s : σ) : ∀ (es fs : List ε),
    run step s (es ++ fs) = (run step s es).bind fun s' => run step s' fs := by
  intro es fs
  induction es generalizing s with
  | nil => rfl
  | cons e es ih =>
    rw [List.cons_append, run_cons, run_cons, Option.bind_assoc]
    congr 1
    funext s'
    exact ih s'

theorem Along_cons_of_none {R : σ → ε → σ → Prop} {s : σ} {e : ε} {es : List ε} (h : step s e = none) :
    Along step R s (e :: es) := fun s' hs => by rw [h] at hs; cases hs

theorem Along_cons_of_some {R : σ → ε → σ → Prop} {s t : σ} {e : ε} {es : List ε} (h : step s e = some t) :
    Along step R s (e :: es) ↔ R s e t ∧ Along step R t es := by
  refine ⟨?_, ?_⟩
  · exact fun ha => ha t h
  · intro ha s' hs
    rw [h, Option.some.injEq] at hs
    exact hs ▸ ha

instance Along.decidable {R : σ → ε → σ → Prop} [∀ s e s', Decidable (R s e s')] :
    ∀ (es : List ε) (s : σ), Decidable (Along step R s es)
  | [], _ => .isTrue trivial
  | e :: es, s =>
    match h : step s e with
    | none => .isTrue (Along_cons_of_none h)
    | some t =>
      have : Decidable (Along step R t es) := Along.decidable es t
      decidable_of_iff (R s e t ∧ Along step R t es) (Along_cons_of_some h).symm

/-- What a run on fixed events reaches can be computed. -/
instance decidableReaches {α : Type u} {p : α → Prop} [DecidablePred p] : ∀ o : Option α,
    Decidable (∃ a, o = some a ∧ p a)
  | none => .isFalse fun ⟨_, h, _⟩ => nomatch h
  | some a => decidable_of_iff (p a) ⟨fun h => ⟨a, rfl, h⟩, fun ⟨_, h, hp⟩ => Option.some.inj h ▸ hp⟩

/-! ## Conditions and conclusions along a run -/

theorem Along.of_forall {p : ε → Prop} : ∀ {es : List ε} (s : σ), (∀ e ∈ es, p e) →
    Along step (fun _ e _ => p e) s es
  | [], _, _ => trivial
  | e :: _, _, h => fun s' _ =>
    ⟨h e (List.mem_cons_self ..), Along.of_forall s' fun e' he' => h e' (List.mem_cons_of_mem _ he')⟩

theorem Along.and {R Q : σ → ε → σ → Prop} :
    ∀ {es : List ε} {s : σ}, Along step R s es → Along step Q s es →
      Along step (fun s e s' => R s e s' ∧ Q s e s') s es
  | [], _, _, _ => trivial
  | _ :: _, _, hr, hq => fun s' hs =>
    ⟨⟨(hr s' hs).1, (hq s' hs).1⟩, (hr s' hs).2.and (hq s' hs).2⟩

section
variable {I : σ → Prop} {C R : σ → ε → σ → Prop}

/-- An invariant kept by every step that meets `C` holds after every run whose
steps meet `C`. -/
theorem Along.invariant (hI : ∀ s e s', I s → C s e s' → step s e = some s' → I s') :
    ∀ {es : List ε} {s s' : σ}, I s → Along step C s es → run step s es = some s' → I s'
  | [], _, _, hs, _, hr => by cases hr; exact hs
  | _ :: _, _, _, hs, ha, hr => by
    obtain ⟨t, ht, hr⟩ := run_cons_some hr
    exact Along.invariant hI (hI _ _ _ hs (ha t ht).1 ht) (ha t ht).2 hr

theorem Along.conclude (hI : ∀ s e s', I s → C s e s' → step s e = some s' → I s')
    (hR : ∀ s e s', I s → C s e s' → step s e = some s' → R s e s') :
    ∀ {es : List ε} {s : σ}, I s → Along step C s es → Along step R s es
  | [], _, _, _ => trivial
  | _ :: _, _, hs, ha => fun t ht =>
    ⟨hR _ _ _ hs (ha t ht).1 ht, Along.conclude hI hR (hI _ _ _ hs (ha t ht).1 ht) (ha t ht).2⟩

/-- When, under the invariant and the side condition `C`, a step meets `R`
exactly if it meets `Q`, and meeting `R` is what keeps the invariant, a run
meets `R` throughout exactly if it meets `Q` throughout. -/
theorem Along.iff_of_step {Q : σ → ε → σ → Prop}
    (hRQ : ∀ s e s', I s → C s e s' → step s e = some s' → (R s e s' ↔ Q s e s'))
    (hI : ∀ s e s', I s → C s e s' → R s e s' → step s e = some s' → I s') :
    ∀ {es : List ε} {s : σ}, I s → Along step C s es → (Along step R s es ↔ Along step Q s es)
  | [], _, _, _ => Iff.rfl
  | e :: es, s, hs, ha => by
    have key : ∀ s', step s e = some s' →
        (R s e s' ∧ Along step R s' es ↔ Q s e s' ∧ Along step Q s' es) := by
      intro s' hs'
      have hiff := hRQ s e s' hs (ha s' hs').1 hs'
      refine ⟨?_, ?_⟩
      · intro ⟨hr, hrest⟩
        have ih := Along.iff_of_step hRQ hI (hI s e s' hs (ha s' hs').1 hr hs') (ha s' hs').2
        exact ⟨hiff.mp hr, ih.mp hrest⟩
      · intro ⟨hq, hrest⟩
        have hr := hiff.mpr hq
        have ih := Along.iff_of_step hRQ hI (hI s e s' hs (ha s' hs').1 hr hs') (ha s' hs').2
        exact ⟨hr, ih.mpr hrest⟩
    exact ⟨fun h s' hs' => (key s' hs').mp (h s' hs'), fun h s' hs' => (key s' hs').mpr (h s' hs')⟩

end

theorem run_invariant {I : σ → Prop} (hI : ∀ s e s', I s → step s e = some s' → I s')
    {es : List ε} {s s' : σ} (hs : I s) (hr : run step s es = some s') : I s' :=
  Along.invariant (C := fun _ _ _ => True) (fun s e s' h _ hst => hI s e s' h hst) hs
    (Along.of_forall s fun _ _ => trivial) hr

/-! ## History variables -/

/-- The step function with a history variable beside it. The history reads the
step and never decides it. -/
def record (step : σ → ε → Option σ) (g : σ → ε → σ → γ → γ) (p : σ × γ) (e : ε) : Option (σ × γ) :=
  (step p.1 e).map fun s' => (s', g p.1 e s' p.2)

theorem record_some {g : σ → ε → σ → γ → γ} {p p' : σ × γ} {e : ε} :
    record step g p e = some p' ↔ step p.1 e = some p'.1 ∧ p'.2 = g p.1 e p'.1 p.2 := by
  unfold record
  rw [Option.map_eq_some_iff]
  refine ⟨?_, ?_⟩
  · rintro ⟨s', hs, rfl⟩
    exact ⟨hs, rfl⟩
  · intro ⟨hs, hg⟩
    exact ⟨p'.1, hs, by rw [← hg]⟩

theorem Along.record {R : σ → ε → σ → Prop} {g : σ → ε → σ → γ → γ} : ∀ {es : List ε} {s : σ} {h : γ},
    Along step R s es → Along (record step g) (fun p e p' => R p.1 e p'.1) (s, h) es
  | [], _, _, _ => trivial
  | _ :: _, _, _, ha => fun p' hp => by
    have hs := (record_some.mp hp).1
    exact ⟨(ha p'.1 hs).1, Along.record (ha p'.1 hs).2⟩

end Runs
