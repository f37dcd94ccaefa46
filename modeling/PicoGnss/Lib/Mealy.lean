import Mathlib.Data.List.Basic

/-! Runs of a deterministic component that answers every input and keeps a state. -/

namespace Mealy
set_option autoImplicit true

theorem answer_eq {p : α × β} (h : p = (a, b)) : p.1 = a := by rw [h]

theorem next_eq {p : α × β} (h : p = (a, b)) : p.2 = b := by rw [h]

variable {σ : Type u} {ι : Type v} {ο : Type w} (step : σ → ι → ο × σ)

/-- The state after a sequence of inputs. -/
def final (s : σ) : List ι → σ
  | [] => s
  | x :: xs => final (step s x).2 xs

/-- The answers to a sequence of inputs, in order. -/
def outputs (s : σ) : List ι → List ο
  | [] => []
  | x :: xs => (step s x).1 :: outputs (step s x).2 xs

@[simp] theorem final_nil (s : σ) : final step s [] = s := rfl

@[simp] theorem final_cons (s : σ) (x : ι) (xs : List ι) :
    final step s (x :: xs) = final step (step s x).2 xs := rfl

@[simp] theorem outputs_nil (s : σ) : outputs step s [] = [] := rfl

@[simp] theorem outputs_cons (s : σ) (x : ι) (xs : List ι) :
    outputs step s (x :: xs) = (step s x).1 :: outputs step (step s x).2 xs := rfl

theorem final_append (s : σ) (xs ys : List ι) :
    final step s (xs ++ ys) = final step (final step s xs) ys := by
  induction xs generalizing s with
  | nil => rfl
  | cons x xs ih => exact ih _

theorem outputs_append (s : σ) (xs ys : List ι) :
    outputs step s (xs ++ ys) = outputs step s xs ++ outputs step (final step s xs) ys := by
  induction xs generalizing s with
  | nil => rfl
  | cons x xs ih => simp only [List.cons_append, outputs_cons, final_cons, ih]

@[simp] theorem length_outputs (s : σ) (xs : List ι) :
    (outputs step s xs).length = xs.length := by
  induction xs generalizing s with
  | nil => rfl
  | cons x xs ih => simp only [outputs_cons, List.length_cons, ih]

/-- Each answer is the component's answer in the state its predecessors left. -/
theorem getElem?_outputs (s : σ) (xs : List ι) (i : Nat) :
    (outputs step s xs)[i]? = xs[i]?.map fun x => (step (final step s (xs.take i)) x).1 := by
  induction xs generalizing s i with
  | nil => rfl
  | cons x xs ih =>
    cases i with
    | zero => rfl
    | succ i => exact ih _ i

theorem forall_outputs_iff (s : σ) (xs : List ι) {R : ο → Prop} :
    (∀ o ∈ outputs step s xs, R o) ↔
      ∀ i x, xs[i]? = some x → R (step (final step s (xs.take i)) x).1 := by
  constructor
  · intro h i x hx
    apply h
    apply List.mem_of_getElem? (i := i)
    rw [getElem?_outputs, hx, Option.map_some]
  · intro h o ho
    obtain ⟨i, hi⟩ := List.getElem?_of_mem ho
    rw [getElem?_outputs] at hi
    obtain ⟨x, hx, rfl⟩ := Option.map_eq_some_iff.1 hi
    exact h i x hx

theorem final_concat (s : σ) (xs : List ι) (x : ι) :
    final step s (xs ++ [x]) = (step (final step s xs) x).2 :=
  final_append step s xs [x]

theorem final_take_succ (s : σ) {xs : List ι} (h : xs[i]? = some x) :
    final step s (xs.take (i + 1)) = (step (final step s (xs.take i)) x).2 := by
  rw [List.take_add_one, h, Option.toList_some, final_concat]

/-- The last answer of a run. -/
theorem getLast?_outputs_concat (s : σ) (xs : List ι) (x : ι) :
    (outputs step s (xs ++ [x])).getLast? = some (step (final step s xs) x).1 := by
  simp only [outputs_append, outputs_cons, outputs_nil, List.getLast?_append_of_ne_nil,
    List.getLast?_singleton, ne_eq, not_false_eq_true, List.cons_ne_self]

variable {step}

/-- A property that every admitted input preserves holds at the end of a run. -/
theorem final_invariant {P : σ → Prop} {Q : ι → Prop}
    (hstep : ∀ s x, P s → Q x → P (step s x).2) {s : σ} (hs : P s) {xs : List ι}
    (hxs : ∀ x ∈ xs, Q x) : P (final step s xs) := by
  induction xs generalizing s with
  | nil => exact hs
  | cons x xs ih =>
    apply ih (hstep s x hs (hxs x (List.mem_cons_self ..)))
    intro y hy
    exact hxs y (List.mem_cons_of_mem x hy)

/-- The form of `final_invariant` for a property that every input preserves. -/
theorem final_preserves {P : σ → Prop} (hstep : ∀ s x, P s → P (step s x).2) {s : σ}
    (hs : P s) (xs : List ι) : P (final step s xs) :=
  final_invariant (Q := fun _ => True) (fun s x h _ => hstep s x h) hs fun _ _ => trivial

/-- The invariant holds before each input of a run. -/
theorem invariant_take {P : σ → Prop} {Q : ι → Prop}
    (hstep : ∀ s x, P s → Q x → P (step s x).2) {s : σ} (hs : P s) {xs : List ι}
    (hxs : ∀ x ∈ xs, Q x) (i : Nat) : P (final step s (xs.take i)) := by
  apply final_invariant hstep hs
  intro x hx
  exact hxs x (List.mem_of_mem_take hx)

theorem forall_outputs_of_invariant {P : σ → Prop} {Q : ι → Prop} {R : ο → Prop}
    (hstep : ∀ s x, P s → Q x → P (step s x).2 ∧ R (step s x).1) {s : σ} (hs : P s)
    {xs : List ι} (hxs : ∀ x ∈ xs, Q x) : ∀ o ∈ outputs step s xs, R o := by
  rw [forall_outputs_iff]
  intro i x hx
  have hinv := invariant_take (fun s x h hx => (hstep s x h hx).1) hs hxs i
  exact (hstep _ x hinv (hxs x (List.mem_of_getElem? hx))).2

/-- Where an invariant decides each answer, the answers to a run are as good as its inputs. -/
theorem forall_outputs_iff_of_invariant {P : σ → Prop} {Q : ι → Prop} {R : ο → Prop}
    {B : σ → ι → Prop} (hstep : ∀ s x, P s → Q x → P (step s x).2 ∧ (R (step s x).1 ↔ ¬B s x))
    {s : σ} (hs : P s) {xs : List ι} (hxs : ∀ x ∈ xs, Q x) :
    (∀ o ∈ outputs step s xs, R o) ↔
      ∀ i x, xs[i]? = some x → ¬B (final step s (xs.take i)) x := by
  rw [forall_outputs_iff]
  apply forall₃_congr
  intro i x hx
  have hinv := invariant_take (fun s x h hx => (hstep s x h hx).1) hs hxs i
  exact (hstep _ x hinv (hxs x (List.mem_of_getElem? hx))).2

end Mealy
