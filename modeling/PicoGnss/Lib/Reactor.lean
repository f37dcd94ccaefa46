import Mathlib.Data.List.Induction

/-! A component that steps where it can, and what its steps bring about. -/

namespace Reactor
set_option autoImplicit true

variable {σ : Type u} {ε : Type v} {φ : Type w} {step : σ → ε → Option (List φ × σ)}

/-- A run, with all its effects in order. -/
def run (step : σ → ε → Option (List φ × σ)) (s : σ) : List ε → Option (List φ × σ)
  | [] => some ([], s)
  | e :: events => do
    let (effects, s) ← step s e
    let (rest, s) ← run step s events
    return (effects ++ rest, s)

theorem run_cons (s : σ) (e : ε) (events : List ε) : run step s (e :: events) =
    (step s e).bind fun t => (run step t.2 events).map fun r => (t.1 ++ r.1, r.2) := by
  rw [run]
  cases step s e with
  | none => rfl
  | some t => cases h : run step t.2 events <;> simp only [h, Option.bind_eq_bind, Option.bind_some,
      Option.bind_none, Option.map_some, Option.map_none, Option.pure_def]

theorem run_concat (s : σ) (events : List ε) (e : ε) :
    run step s (events ++ [e]) = (run step s events).bind fun r =>
      (step r.2 e).map fun t => (r.1 ++ t.1, t.2) := by
  induction events generalizing s with
  | nil =>
    rw [List.nil_append, run_cons]
    cases h : step s e <;> simp only [h, run, Option.bind_none, Option.bind_some, Option.map_none,
      Option.map_some, List.append_nil, List.nil_append]
  | cons x events ih =>
    rw [List.cons_append, run_cons, run_cons]
    cases step s x with
    | none => rfl
    | some t =>
      simp only [Option.bind_some, ih]
      cases run step t.2 events with
      | none => rfl
      | some r => cases h : step r.2 e <;> simp only [h, Option.bind_some, Option.map_some,
          Option.map_none, List.append_assoc]

/-- A relation of the events and the effects so far to the state, kept by every step, holds after
every run. -/
theorem run_history {P : List ε → List φ → σ → Prop}
    (hstep : ∀ events fx s e fx' s', P events fx s → step s e = some (fx', s') →
      P (events ++ [e]) (fx ++ fx') s')
    (hs : P [] [] s) (h : run step s events = some (fx, s')) : P events fx s' := by
  induction events using List.reverseRecOn generalizing fx s' with
  | nil =>
    cases h
    exact hs
  | append_singleton events e ih =>
    rw [run_concat, Option.bind_eq_some_iff] at h
    obtain ⟨⟨fx₀, s₀⟩, h₀, hlast⟩ := h
    obtain ⟨⟨fx₁, s₁⟩, h₁, heq⟩ := Option.map_eq_some_iff.1 hlast
    cases heq
    exact hstep _ _ _ _ _ _ (ih h₀) h₁

/-- The same for the effects alone. -/
theorem run_invariant {P : List φ → σ → Prop}
    (hstep : ∀ fx s e fx' s', P fx s → step s e = some (fx', s') → P (fx ++ fx') s')
    (hs : P [] s) (h : run step s events = some (fx, s')) : P fx s' :=
  run_history (P := fun _ => P) (fun _ => hstep) hs h

/-- Where every step keeps `P`, and brings about what `Q` asks of it after the effects before it,
every effect of a run is as `Q` asks. -/
theorem run_effects {P : List φ → σ → Prop} {Q : List φ → φ → Prop}
    (hstep : ∀ fx s e fx' s', P fx s → step s e = some (fx', s') →
      P (fx ++ fx') s' ∧ ∀ pre o post, fx' = pre ++ o :: post → Q (fx ++ pre) o)
    (hs : P [] s) (h : run step s events = some (fx, s')) :
    P fx s' ∧ ∀ pre o post, fx = pre ++ o :: post → Q pre o := by
  refine run_invariant (P := fun fx s' => P fx s' ∧ ∀ pre o post, fx = pre ++ o :: post → Q pre o)
    ?_ ⟨hs, fun pre o post hnil => absurd hnil (by simp)⟩ h
  rintro fx s₁ e fx' s₂ ⟨hp, hq⟩ he
  obtain ⟨hp', hq'⟩ := hstep fx s₁ e fx' s₂ hp he
  refine ⟨hp', fun pre o post hsplit => ?_⟩
  rcases List.append_eq_append_iff.1 hsplit with
    ⟨between, rfl, hbetween⟩ | ⟨between, hbetween, hrest⟩
  · exact hq' between o post hbetween
  · cases between with
    | nil =>
      rw [List.append_nil] at hbetween
      subst hbetween
      have ho := hq' [] o post hrest.symm
      rwa [List.append_nil] at ho
    | cons x between =>
      obtain ⟨rfl, rfl⟩ := List.cons.inj hrest
      exact hq pre o between hbetween

end Reactor
