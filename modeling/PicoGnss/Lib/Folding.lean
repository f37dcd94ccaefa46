import Mathlib.Algebra.Group.Basic
import Mathlib.Algebra.Order.Group.Unbundled.Int

/-! Residues in the interval of one period about zero, open below and closed above. -/

namespace Folding
set_option autoImplicit true

/-- `y` is what is left of `x` when whole periods are taken off it. -/
structure Folds (m x y : Int) : Prop where
  low : -m < 2 * y
  high : 2 * y ≤ m
  dvd : m ∣ x - y

namespace Folds

theorem unique (h : Folds m x y) (h' : Folds m x z) : z = y := by
  have hdvd : m ∣ y - z := by
    have hsub := Int.dvd_sub h'.dvd h.dvd
    rwa [sub_sub_sub_cancel_left] at hsub
  have hlow := h.low
  have hhigh := h.high
  have hlow' := h'.low
  have hhigh' := h'.high
  have hzero := Int.eq_zero_of_abs_lt_dvd hdvd (abs_lt.2 ⟨by omega, by omega⟩)
  omega

theorem iff_eq (h : Folds m x y) (z : Int) : Folds m x z ↔ z = y := by
  constructor
  · exact h.unique
  · rintro rfl
    exact h

/-- A quantity within half of a period is its own fold. -/
theorem self (hlow : -m < 2 * x) (hhigh : 2 * x ≤ m) : Folds m x x where
  low := hlow
  high := hhigh
  dvd := by rw [Int.sub_self]; exact Int.dvd_zero m

end Folds

theorem sign_spec (x : Int) :
    x < 0 ∧ x.sign = -1 ∨ x = 0 ∧ x.sign = 0 ∨ 0 < x ∧ x.sign = 1 := by
  rcases Int.lt_trichotomy x 0 with hlt | rfl | hgt
  · exact .inl ⟨hlt, Int.sign_eq_neg_one_of_neg hlt⟩
  · exact .inr (.inl ⟨rfl, Int.sign_zero⟩)
  · exact .inr (.inr ⟨hgt, Int.sign_eq_one_of_pos hgt⟩)

/-- The remainder of a truncating division has the sign of the dividend. -/
theorem tmod_spec (hm : 0 < m) (x : Int) :
    m ∣ x - x.tmod m ∧ (0 ≤ x → 0 ≤ x.tmod m ∧ x.tmod m < m) ∧
      (x ≤ 0 → -m < x.tmod m ∧ x.tmod m ≤ 0) := by
  have hsplit := Int.mul_tdiv_add_tmod x m
  have hlt := Int.tmod_lt_of_pos x hm
  have hgt := Int.tmod_lt_of_pos (-x) hm
  rw [Int.neg_tmod] at hgt
  refine ⟨⟨x.tdiv m, by omega⟩, ?_, ?_⟩
  · intro hx
    exact ⟨Int.tmod_nonneg m hx, hlt⟩
  · intro hx
    have hrem := Int.tmod_nonneg m (by omega : 0 ≤ -x)
    rw [Int.neg_tmod] at hrem
    exact ⟨by omega, by omega⟩

/-- A truncating remainder is folded by one period at most. -/
theorem folds_tmod (hm : 0 < m) (x : Int) :
    Folds m x (if m < 2 * x.tmod m then x.tmod m - m
      else if 2 * x.tmod m ≤ -m then x.tmod m + m else x.tmod m) := by
  obtain ⟨hdvd, hpos, hneg⟩ := tmod_spec hm x
  have hbounds : -m < x.tmod m ∧ x.tmod m < m := by
    rcases Int.le_total 0 x with hx | hx
    · have hrem := hpos hx
      omega
    · have hrem := hneg hx
      omega
  split
  · refine ⟨by omega, by omega, ?_⟩
    rw [sub_sub_eq_add_sub, add_sub_right_comm]
    exact Int.dvd_add hdvd (Int.dvd_refl m)
  · split
    · refine ⟨by omega, by omega, ?_⟩
      rw [← Int.sub_sub]
      exact Int.dvd_sub hdvd (Int.dvd_refl m)
    · exact ⟨by omega, by omega, hdvd⟩

end Folding
