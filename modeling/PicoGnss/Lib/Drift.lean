import Mathlib.Algebra.Order.Ring.Int
import Mathlib.Tactic.Ring

/-! A counter that runs at a constant rate beside a time scale, and readings of the scale that are
corrected to first order. -/

namespace Drift
set_option autoImplicit true

/-- How far the reading `u` at count `q` is ahead of a scale that stood at `u₀` at count `q₀`, where
the counter counts `b + e` while the scale advances by `b`; in units of `1 / (b + e)`. -/
def ahead (b e q₀ u₀ q u : Int) : Int := (u - u₀) * (b + e) - (q - q₀) * b

theorem ahead_advance (b e q₀ u₀ q u d x : Int) :
    ahead b e q₀ u₀ (q + d) (u + x) = ahead b e q₀ u₀ q u + (x * (b + e) - d * b) := by
  unfold ahead
  ring

/-- The scale's own reading, any number of its periods on. -/
theorem ahead_periods (b e q₀ u₀ n : Int) :
    ahead b e q₀ u₀ (q₀ + n * (b + e)) (u₀ + n * b) = 0 := by
  unfold ahead
  ring

variable {b d e : Int}

theorem tdiv_mul_bounds_of_nonneg (hb : 0 < b) (hd : 0 ≤ d) (he : 0 ≤ e) :
    0 ≤ (d * e).tdiv b * e ∧ (d * e).tdiv b * e ≤ d * (e * e) / b := by
  have hde := Int.mul_nonneg hd he
  have hle : (d * e).tdiv b * b ≤ d * e := by
    rw [Int.tdiv_eq_ediv_of_nonneg hde]
    exact Int.ediv_mul_le _ (Int.ne_of_gt hb)
  refine ⟨Int.mul_nonneg (Int.tdiv_nonneg hde (Int.le_of_lt hb)) he, ?_⟩
  apply (Int.le_ediv_iff_mul_le hb).2
  calc (d * e).tdiv b * e * b = (d * e).tdiv b * b * e := by ring
    _ ≤ d * e * e := Int.mul_le_mul_of_nonneg_right hle he
    _ = d * (e * e) := Int.mul_assoc d e e

/-- The quotient has the sign of the rate, and rounds towards zero. -/
theorem tdiv_mul_bounds (hb : 0 < b) (hd : 0 ≤ d) (e : Int) :
    0 ≤ (d * e).tdiv b * e ∧ (d * e).tdiv b * e ≤ d * (e * e) / b := by
  rcases Int.le_total 0 e with he | he
  · exact tdiv_mul_bounds_of_nonneg hb hd he
  · have h := tdiv_mul_bounds_of_nonneg hb hd (Int.neg_nonneg_of_nonpos he)
    rwa [Int.mul_neg d e, Int.neg_tdiv, Int.neg_mul_neg, Int.neg_mul_neg] at h

/-- A count corrected by its rate gains less than one and loses the square of the rate. -/
theorem first_order (hb : 0 < b) (hd : 0 ≤ d) (e : Int) :
    (d - (d * e).tdiv b) * (b + e) - d * b ≤ b ∧
      -(b + d * (e * e) / b) ≤ (d - (d * e).tdiv b) * (b + e) - d * b := by
  obtain ⟨hlo, hhi⟩ := tdiv_mul_bounds hb hd e
  have hsplit := Int.mul_tdiv_add_tmod (d * e) b
  have hlt := Int.tmod_lt_of_pos (d * e) hb
  have hgt := Int.tmod_lt_of_pos (-(d * e)) hb
  rw [Int.neg_tmod] at hgt
  have hgap : (d - (d * e).tdiv b) * (b + e) - d * b = (d * e).tmod b - (d * e).tdiv b * e := by
    calc (d - (d * e).tdiv b) * (b + e) - d * b
        = d * e - b * (d * e).tdiv b - (d * e).tdiv b * e := by ring
      _ = (d * e).tmod b - (d * e).tdiv b * e := by omega
  rw [hgap]
  omega

end Drift
