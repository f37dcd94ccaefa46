import Mathlib.Algebra.Order.Field.Basic
import Mathlib.Algebra.Order.Ring.Cast
import Mathlib.Data.Int.Order.Basic
import Mathlib.Tactic.Ring

/-! Division that rounds, to the nearest or toward zero. -/

namespace Rounding
set_option autoImplicit true

/-- A quantity off a multiple by less than half of the unit rounds to that multiple. -/
theorem nearest_multiple {x d m j : Nat} (hlow : d * m ≤ x + j) (hhigh : x ≤ d * m + j)
    (hj : 2 * j < m) : (x + m / 2) / m = d := by
  apply Nat.div_eq_of_lt_le
  · omega
  · rw [Nat.succ_mul]
    omega

/-- A mean that moves a share of the way to a sample, rounded down, stays between. -/
theorem mean_mem {x t lo hi : Int} (hx : lo ≤ x ∧ x ≤ hi) (ht : lo ≤ t ∧ t ≤ hi) (s : Nat) :
    lo ≤ x + (t - x) >>> s ∧ x + (t - x) >>> s ≤ hi := by
  have hpos : (0 : Int) < ((2 ^ s : Nat) : Int) := Int.natCast_pos.2 (Nat.two_pow_pos s)
  rw [Int.shiftRight_eq_div_pow]
  rcases Int.le_total 0 (t - x) with hup | hdown
  · have hlow := Int.ediv_nonneg hup hpos.le
    have hhigh := Int.ediv_le_self ((2 ^ s : Nat) : Int) hup
    omega
  · have hlow := Int.self_le_ediv_of_nonpos_of_nonneg hdown hpos.le
    have hhigh := Int.ediv_nonpos_of_nonpos_of_neg hdown hpos
    omega

variable {K : Int}

/-- The remainder has the sign of the dividend. -/
theorem tdiv_bounds (hK : 0 < K) (x : Int) :
    (0 ≤ x → 0 ≤ x.tdiv K ∧ K * x.tdiv K ≤ x ∧ x < K * x.tdiv K + K) ∧
      (x ≤ 0 → x.tdiv K ≤ 0 ∧ x ≤ K * x.tdiv K ∧ K * x.tdiv K < x + K) := by
  have hsplit := Int.mul_tdiv_add_tmod x K
  have hlt := Int.tmod_lt_of_pos x hK
  have hgt := Int.tmod_lt_of_pos (-x) hK
  rw [Int.neg_tmod] at hgt
  constructor
  · intro hx
    have hrem := Int.tmod_nonneg K hx
    exact ⟨Int.tdiv_nonneg hx hK.le, by omega, by omega⟩
  · intro hx
    have hrem := Int.tmod_nonneg K (by omega : 0 ≤ -x)
    have hquot := Int.tdiv_nonneg (by omega : 0 ≤ -x) hK.le
    rw [Int.neg_tmod] at hrem
    rw [Int.neg_tdiv] at hquot
    exact ⟨by omega, by omega, by omega⟩

theorem le_tdiv (hK : 0 < K) (h : K * m ≤ x) : m ≤ x.tdiv K := by
  have hmono := Int.tdiv_le_tdiv hK h
  rwa [Int.mul_tdiv_cancel_left _ hK.ne'] at hmono

theorem tdiv_le (hK : 0 < K) (h : x ≤ K * m) : x.tdiv K ≤ m := by
  have hmono := Int.tdiv_le_tdiv hK h
  rwa [Int.mul_tdiv_cancel_left _ hK.ne'] at hmono

theorem tdiv_error (hK : 0 < K) (x : Int) : (x - K * x.tdiv K).natAbs < K := by
  obtain ⟨hpos, hneg⟩ := tdiv_bounds hK x
  rcases Int.le_total 0 x with hx | hx
  · have hbounds := hpos hx
    omega
  · have hbounds := hneg hx
    omega

/-- A truncated quotient is the quotient, but for less than one. -/
theorem exists_tdiv_eq [Field R] [LinearOrder R] [IsStrictOrderedRing R] (hK : 0 < K) (x : Int) :
    ∃ e : R, |e| ≤ 1 ∧ ((x.tdiv K : Int) : R) = x / K + e := by
  have hKR : (0 : R) < K := Int.cast_pos.2 hK
  have herror : |((x - K * x.tdiv K : Int) : R)| ≤ K := by
    rw [← Int.cast_abs, Int.cast_le, Int.abs_eq_natAbs]
    exact (tdiv_error hK x).le
  refine ⟨-(((x - K * x.tdiv K : Int) : R) / K), ?_, ?_⟩
  · rw [abs_neg, abs_div, abs_of_pos hKR]
    exact div_le_one_of_le₀ herror hKR.le
  · rw [Int.cast_sub, Int.cast_mul, sub_div, mul_div_cancel_left₀ _ hKR.ne']
    ring

/-- Truncation makes two quotients less than one further apart. -/
theorem tdiv_sub_lt (hK : 0 < K) (x y : Int) :
    K * (y.tdiv K - x.tdiv K) < (y - x).natAbs + K := by
  obtain ⟨hxpos, hxneg⟩ := tdiv_bounds hK x
  obtain ⟨hypos, hyneg⟩ := tdiv_bounds hK y
  rcases Int.le_total 0 x with hx | hx
  · obtain ⟨hq, hlow, hhigh⟩ := hxpos hx
    rcases Int.le_total 0 y with hy | hy
    · have hbounds := hypos hy
      rw [Int.mul_sub]
      omega
    · have hbounds := hyneg hy
      have hle := Int.mul_nonneg hK.le (by omega : 0 ≤ x.tdiv K - y.tdiv K)
      rw [Int.mul_sub] at hle ⊢
      omega
  · have hbounds := hxneg hx
    rw [Int.mul_sub]
    rcases Int.le_total 0 y with hy | hy
    · have hbounds' := hypos hy
      omega
    · have hbounds' := hyneg hy
      omega

/-- A quotient moves by no more whole steps than the dividend can pay for. -/
theorem tdiv_sub_le (hK : 0 < K) (hn : 0 ≤ n) (h : y - x ≤ K * n) :
    y.tdiv K - x.tdiv K ≤ n := by
  rcases Int.le_total y x with hyx | hyx
  · have hmono := Int.tdiv_le_tdiv hK hyx
    omega
  · have hlt := tdiv_sub_lt hK x y
    have hstep : K * (y.tdiv K - x.tdiv K) < K * (n + 1) := by
      rw [Int.mul_add, Int.mul_one]
      omega
    exact Int.le_of_lt_add_one (Int.lt_of_mul_lt_mul_left hstep hK.le)

end Rounding
