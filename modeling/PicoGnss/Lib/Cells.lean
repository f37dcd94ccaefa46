import Mathlib.Data.List.Basic
import Mathlib.Logic.Function.Basic
import Mathlib.Logic.Relation

/-! Sequences that pass through shared cells one cell at a time. -/

namespace Cells
set_option autoImplicit true

variable {α : Type u} {cells : Nat → α} {l l' : List α}

/-- The first `n` cells hold the first `n` elements of a list. -/
def Holds (cells : Nat → α) (l : List α) (n : Nat) : Prop := ∀ i < n, l[i]? = some (cells i)

theorem Holds.zero (cells : Nat → α) (l : List α) : Holds cells l 0 :=
  fun i hi => absurd hi (Nat.not_lt_zero i)

/-- One more element written. -/
theorem Holds.write (h : Holds cells l n) (ha : l[n]? = some a) :
    Holds (Function.update cells n a) l (n + 1) := by
  intro i hi
  rcases Nat.lt_succ_iff_lt_or_eq.1 hi with hi | rfl
  · rw [Function.update_of_ne (Nat.ne_of_lt hi)]
    exact h i hi
  · rw [Function.update_self]
    exact ha

/-- One more cell read. -/
theorem Holds.read (h : Holds cells l l.length) :
    Holds cells (l ++ [cells l.length]) (l ++ [cells l.length]).length := by
  intro i hi
  rw [List.length_append, List.length_singleton] at hi
  rcases Nat.lt_succ_iff_lt_or_eq.1 hi with hi | rfl
  · rw [List.getElem?_append_left hi]
    exact h i hi
  · exact List.getElem?_concat_length

/-- Cells that hold the whole of two lists hold one list. -/
theorem Holds.unique (h : Holds cells l l.length) (h' : Holds cells l' l'.length)
    (hlength : l.length = l'.length) : l = l' := by
  apply List.ext_getElem?
  intro i
  rcases Nat.lt_or_ge i l.length with hi | hi
  · rw [h i hi, h' i (hlength ▸ hi)]
  · rw [List.getElem?_eq_none hi, List.getElem?_eq_none (hlength ▸ hi)]

/-- The cells after a whole list has been written over them. -/
def load (cells : Nat → α) (l : List α) : Nat → α := fun i => l.getD i (cells i)

theorem holds_load (cells : Nat → α) (l : List α) : Holds (load cells l) l l.length := by
  intro i hi
  rw [load, List.getD_eq_getElem?_getD, List.getElem?_eq_getElem hi, Option.getD_some]

theorem load_of_holds (h : Holds cells l l.length) : load cells l = cells := by
  funext i
  rcases Nat.lt_or_ge i l.length with hi | hi
  · rw [load, List.getD_eq_getElem?_getD, h i hi, Option.getD_some]
  · rw [load, List.getD_eq_getElem?_getD, List.getElem?_eq_none hi, Option.getD_none]

/-- Writing one element more. -/
theorem update_load_take (h : l[n]? = some a) :
    Function.update (load cells (l.take n)) n a = load cells (l.take (n + 1)) := by
  have hn := (List.getElem?_eq_some_iff.1 h).1
  funext i
  rcases Nat.lt_trichotomy i n with hlt | rfl | hgt
  · rw [Function.update_of_ne (Nat.ne_of_lt hlt), load, load, List.getD_eq_getElem?_getD,
      List.getD_eq_getElem?_getD, List.getElem?_take_of_lt hlt,
      List.getElem?_take_of_lt (Nat.lt_succ_of_lt hlt)]
  · rw [Function.update_self, load, List.getD_eq_getElem?_getD,
      List.getElem?_take_of_lt (Nat.lt_succ_self i), h, Option.getD_some]
  · have hlen : (l.take (n + 1)).length ≤ i := by
      rw [List.length_take]
      omega
    have hlen' : (l.take n).length ≤ i := by
      rw [List.length_take]
      omega
    rw [Function.update_of_ne (Nat.ne_of_gt hgt), load, load, List.getD_eq_getElem?_getD,
      List.getD_eq_getElem?_getD, List.getElem?_eq_none hlen, List.getElem?_eq_none hlen']

/-- Reading one element more. -/
theorem Holds.take_succ (h : Holds cells l n) (hi : i < n) (hn : n ≤ l.length) :
    l.take i ++ [cells (l.take i).length] = l.take (i + 1) := by
  have hlength : (l.take i).length = i := by
    rw [List.length_take]
    omega
  rw [hlength, List.take_add_one, h i hi]
  rfl

/-- A loop of `n` steps. -/
theorem reflTransGen_of_loop {σ : Type v} {R : σ → σ → Prop} (f : Nat → σ) (n : Nat)
    (h : ∀ i < n, R (f i) (f (i + 1))) : Relation.ReflTransGen R (f 0) (f n) := by
  induction n with
  | zero => exact .refl
  | succ n ih => exact (ih fun i hi => h i (Nat.lt_succ_of_lt hi)).tail (h n (Nat.lt_succ_self n))

end Cells
