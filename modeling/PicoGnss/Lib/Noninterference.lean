import PicoGnss.Lib.Mealy

/-! Inputs that leave no trace in what the other inputs read and are answered. -/

namespace Noninterference
set_option autoImplicit true

open Mealy

variable {σ : Type u} {ι : Type v} {ο : Type w}

/-- A view of the state that the visible inputs act on by themselves and the hidden ones keep. -/
structure Unwinding (step : σ → ι → ο × σ) (visible : ι → Bool) (view : σ → τ) : Prop where
  answer : ∀ s s' x, visible x = true → view s = view s' → (step s x).1 = (step s' x).1
  next : ∀ s s' x, visible x = true → view s = view s' → view (step s x).2 = view (step s' x).2
  hidden : ∀ s x, visible x = false → view (step s x).2 = view s

variable (step : σ → ι → ο × σ) (visible : ι → Bool)

/-- The answers to the visible inputs, in order. -/
def visibleOutputs (s : σ) : List ι → List ο
  | [] => []
  | x :: xs =>
    if visible x then (step s x).1 :: visibleOutputs (step s x).2 xs
    else visibleOutputs (step s x).2 xs

variable {step visible} {view : σ → τ}

/-- A run looks as if its hidden inputs had been purged. -/
theorem Unwinding.purge (h : Unwinding step visible view) {s s' : σ} (hs : view s = view s')
    (xs : List ι) :
    visibleOutputs step visible s xs = outputs step s' (xs.filter visible) ∧
      view (final step s xs) = view (final step s' (xs.filter visible)) := by
  induction xs generalizing s s' with
  | nil => exact ⟨rfl, hs⟩
  | cons x xs ih =>
    cases hx : visible x with
    | true =>
      obtain ⟨hout, hview⟩ := ih (h.next s s' x hx hs)
      rw [visibleOutputs, if_pos hx, List.filter_cons_of_pos hx, outputs_cons, hout,
        h.answer s s' x hx hs]
      exact ⟨rfl, hview⟩
    | false =>
      obtain ⟨hout, hview⟩ := ih ((h.hidden s x hx).trans hs)
      rw [visibleOutputs, hx, List.filter_cons_of_neg (by rw [hx]; exact Bool.false_ne_true)]
      exact ⟨hout, hview⟩

/-- Runs with the same visible inputs give them the same answers and end in the same view. -/
theorem Unwinding.sameVisible (h : Unwinding step visible view) {s s' : σ}
    (hs : view s = view s') {xs ys : List ι} (hxy : xs.filter visible = ys.filter visible) :
    visibleOutputs step visible s xs = visibleOutputs step visible s' ys ∧
      view (final step s xs) = view (final step s' ys) := by
  obtain ⟨hout, hview⟩ := h.purge hs xs
  obtain ⟨hout', hview'⟩ := h.purge (rfl : view s' = view s') ys
  rw [hxy] at hout hview
  exact ⟨hout.trans hout'.symm, hview.trans hview'.symm⟩

/-- A run looks like the run of another component on its visible inputs, as long as that one keeps
up with the visible inputs and need not move for the hidden ones. -/
theorem visibleOutputs_of_simulation {σ' : Type u'} {ι' : Type v'} {step' : σ' → ι' → ο × σ'}
    {f : ι → ι'} {R : σ → σ' → Prop} {A : σ → ι → Prop}
    (hvisible : ∀ s s' x, R s s' → A s x → visible x = true →
      (step s x).1 = (step' s' (f x)).1 ∧ R (step s x).2 (step' s' (f x)).2)
    (hhidden : ∀ s s' x, R s s' → A s x → visible x = false → R (step s x).2 s')
    {s : σ} {s' : σ'} (hs : R s s') {xs : List ι}
    (hxs : ∀ i x, xs[i]? = some x → A (final step s (xs.take i)) x) :
    visibleOutputs step visible s xs = outputs step' s' ((xs.filter visible).map f) := by
  induction xs generalizing s s' with
  | nil => rfl
  | cons x xs ih =>
    have hx := hxs 0 x rfl
    have hrest (i : Nat) (y : ι) (hy : xs[i]? = some y) :
        A (final step (step s x).2 (xs.take i)) y := hxs (i + 1) y hy
    cases hv : visible x with
    | true =>
      obtain ⟨hout, hnext⟩ := hvisible s s' x hs hx hv
      rw [visibleOutputs, if_pos hv, List.filter_cons_of_pos hv, List.map_cons, outputs_cons, hout,
        ih hnext hrest]
    | false =>
      have hnext := hhidden s s' x hs hx hv
      rw [visibleOutputs, hv, List.filter_cons_of_neg (by rw [hv]; exact Bool.false_ne_true)]
      exact ih hnext hrest

end Noninterference
