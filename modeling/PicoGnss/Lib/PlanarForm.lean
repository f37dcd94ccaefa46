import Mathlib.Tactic.Linarith
import Mathlib.Tactic.Ring

/-! Planar recursions that contract a quadratic form but for a bounded disturbance. -/

namespace PlanarForm
set_option autoImplicit true

variable {R : Type u} [CommRing R]

/-- A binary quadratic form. -/
def form (a b c x y : R) : R := a * x ^ 2 + b * (x * y) + c * y ^ 2

/-- The form that belongs to a linear map is scaled by its determinant. -/
theorem form_map (p q r s x y : R) :
    form (-r) (p - s) q (p * x + q * y) (r * x + s * y) =
      (p * s - q * r) * form (-r) (p - s) q x y := by
  unfold form
  ring

theorem form_scale (a b c k x y : R) : form a b c (k * x) (k * y) = k ^ 2 * form a b c x y := by
  unfold form
  ring

variable [LinearOrder R] [IsStrictOrderedRing R] {a b c : R}

theorem mul_sq_left_le_form (a b c x y : R) :
    (4 * a * c - b ^ 2) * x ^ 2 ≤ 4 * c * form a b c x y := by
  have hsquare := sq_nonneg (b * x + 2 * c * y)
  have hsplit : 4 * c * form a b c x y =
      (b * x + 2 * c * y) ^ 2 + (4 * a * c - b ^ 2) * x ^ 2 := by
    unfold form
    ring
  rw [hsplit]
  exact le_add_of_nonneg_left hsquare

theorem form_nonneg (hc : 0 < c) (h : b ^ 2 ≤ 4 * a * c) (x y : R) : 0 ≤ form a b c x y := by
  have hleft := mul_sq_left_le_form a b c x y
  have hsquare : 0 ≤ (4 * a * c - b ^ 2) * x ^ 2 := mul_nonneg (sub_nonneg.2 h) (sq_nonneg x)
  exact nonneg_of_mul_nonneg_right (hsquare.trans hleft) (by linarith)

/-- A disturbance `(u, v)` costs a share of the form and a multiple of its own. -/
theorem form_add_le (k : R) (h : 0 ≤ form a b c (x - k * u) (y - k * v)) :
    k * form a b c (x + u) (y + v) ≤ (k + 1) * form a b c x y + k * (k + 1) * form a b c u v := by
  have hsplit : (k + 1) * form a b c x y + k * (k + 1) * form a b c u v =
      k * form a b c (x + u) (y + v) + form a b c (x - k * u) (y - k * v) := by
    unfold form
    ring
  rw [hsplit]
  exact le_add_of_nonneg_right h

/-- The same for a square, of which a form may be the sum of several. -/
theorem sq_add_le (k x u : R) : k * (x + u) ^ 2 ≤ (k + 1) * x ^ 2 + k * (k + 1) * u ^ 2 := by
  have hsquare := sq_nonneg (x - k * u)
  have hsplit : (k + 1) * x ^ 2 + k * (k + 1) * u ^ 2 = k * (x + u) ^ 2 + (x - k * u) ^ 2 := by
    ring
  rw [hsplit]
  exact le_add_of_nonneg_right hsquare

/-- One more step of a geometric decay. -/
theorem decay_succ {w w' z : R} (ha : 0 ≤ a) (hb : 0 ≤ b) (hstep : b * w' ≤ a * w)
    (h : b ^ n * w ≤ a ^ n * z) : b ^ (n + 1) * w' ≤ a ^ (n + 1) * z := by
  calc b ^ (n + 1) * w' = b ^ n * (b * w') := by ring
    _ ≤ b ^ n * (a * w) := mul_le_mul_of_nonneg_left hstep (pow_nonneg hb n)
    _ = a * (b ^ n * w) := by ring
    _ ≤ a * (a ^ n * z) := mul_le_mul_of_nonneg_left h ha
    _ = a ^ (n + 1) * z := by ring

/-- What is halved in every `m` steps is down by `2 ^ k` after `k * m` of them. -/
theorem decay_halves {w z : R} (ha : 0 ≤ a) (hb : 0 < b) (hab : a ≤ b)
    (hhalf : 2 * a ^ m ≤ b ^ m) (hz : 0 ≤ z) (hn : m * k ≤ n)
    (h : b ^ n * w ≤ a ^ n * (2 ^ k * z)) : w ≤ z := by
  obtain ⟨i, rfl⟩ := Nat.exists_eq_add_of_le hn
  have hpow : a ^ (m * k + i) * 2 ^ k ≤ b ^ (m * k + i) := by
    calc a ^ (m * k + i) * 2 ^ k = (2 * a ^ m) ^ k * a ^ i := by
          rw [pow_add, pow_mul, mul_pow]
          ring
      _ ≤ (b ^ m) ^ k * b ^ i :=
          mul_le_mul (pow_le_pow_left₀ (by positivity) hhalf k) (pow_le_pow_left₀ ha hab i)
            (by positivity) (by positivity)
      _ = b ^ (m * k + i) := by rw [pow_add, pow_mul]
  have hscaled : b ^ (m * k + i) * w ≤ b ^ (m * k + i) * z := by
    calc b ^ (m * k + i) * w ≤ a ^ (m * k + i) * (2 ^ k * z) := h
      _ = a ^ (m * k + i) * 2 ^ k * z := by ring
      _ ≤ b ^ (m * k + i) * z := mul_le_mul_of_nonneg_right hpow hz
  exact le_of_mul_le_mul_left hscaled (pow_pos hb _)

end PlanarForm
