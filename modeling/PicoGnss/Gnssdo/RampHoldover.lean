import Mathlib.Algebra.Order.Field.Rat
import Mathlib.Algebra.Order.Ring.Abs
import Mathlib.Tactic.Linarith
import Mathlib.Tactic.LinearCombination
import PicoGnss.Gnssdo.ReadOut
import PicoGnss.Lib.Rounding

/-! Holdover on a crystal that keeps to its ramp. -/

namespace PicoGnss
open FixedWidth Rounding
set_option autoImplicit true

/-- The local time after `H` true seconds, the `k`-th of which lasts `1000000000 + f0 + r * k`. -/
def rampLocalNs (f0 r : Int) (H : Nat) : Int :=
  ((List.range H).map fun k : Nat => 1000000000 + f0 + r * k).sum

theorem rampLocalNs_succ (f0 r : Int) (H : Nat) :
    rampLocalNs f0 r (H + 1) = rampLocalNs f0 r H + (1000000000 + f0 + r * H) := by
  rw [rampLocalNs, List.range_succ, List.map_append, List.sum_append, List.map_singleton,
    List.sum_singleton, ← rampLocalNs]

/-- What the ramp has added to the nominal local time. -/
theorem two_mul_rampLocalNs (f0 r : Int) (H : Nat) :
    2 * (rampLocalNs f0 r H - 1000000000 * H) = 2 * (f0 * H) + r * (H * (H - 1)) := by
  induction H with
  | zero => simp [rampLocalNs]
  | succ H ih =>
    rw [rampLocalNs_succ]
    push_cast
    linear_combination ih

/-- The quadratic term of the ramp cancels. -/
theorem ramp_cancels {delta : Int} (hdelta : 2 * delta = 2 * (f0 * H) + r * (H * (H - 1))) :
    2000000000000000000 * delta - 2000000000 * (f0 * (1000000000 * H + delta)) -
        r * (1000000000 * H + delta) * (1000000000 * H + delta) =
      -(1000000000000000000 * (r * H) + 2000000000 * (delta * (f0 + r * H)) +
        r * (delta * delta)) := by
  linear_combination 1000000000000000000 * hdelta

/-- The terms of second and third order are bounded by the square of the last offset. -/
theorem ramp_cross_terms {F R H D : Nat} (hD : 2 * D ≤ 2 * (F * H) + R * (H * H))
    (hA : F + R * H ≤ 1500000) :
    2000000000 * (D * (F + R * H)) + R * (D * D) ≤
      2000000000 * (H * ((F + R * H) * (F + R * H))) := by
  obtain ⟨A, hsum⟩ : ∃ A, F + R * H = A := ⟨_, rfl⟩
  have hHA : H * A = F * H + R * (H * H) := by
    rw [← hsum]
    ring
  have hbalance : 2 * D + R * (H * H) ≤ 2 * (H * A) := by omega
  have hcross : 2 * (D * A) + R * (H * H) * A ≤ 2 * (H * (A * A)) := by
    calc 2 * (D * A) + R * (H * H) * A = (2 * D + R * (H * H)) * A := by ring
      _ ≤ 2 * (H * A) * A := Nat.mul_le_mul_right A hbalance
      _ = 2 * (H * (A * A)) := by ring
  have hsquare : R * (D * D) ≤ R * (H * H) * A * 1500000 := by
    calc R * (D * D) ≤ R * (H * A * (H * A)) :=
          Nat.mul_le_mul_left R (Nat.mul_le_mul (by omega) (by omega))
      _ = R * (H * H) * A * A := by ring
      _ ≤ R * (H * H) * A * 1500000 := Nat.mul_le_mul_left _ (hsum ▸ hA)
  rw [hsum]
  omega

variable {c : DisciplinedClock} {f0 r : Int} {H : Nat}

theorem ramp_offset_le {delta : Int} (hdelta : 2 * delta = 2 * (f0 * H) + r * (H * (H - 1))) :
    2 * delta.natAbs ≤ 2 * (f0.natAbs * H) + r.natAbs * (H * H) := by
  have hstart := natAbs_mul_le (Nat.le_refl f0.natAbs) (Int.natAbs_natCast H).le
  have hpairs : ((H : Int) * (H - 1)).natAbs ≤ H * H := by
    rcases Nat.eq_zero_or_pos H with rfl | hpos
    · exact Nat.le_refl 0
    · exact natAbs_mul_le (Int.natAbs_natCast H).le (by omega)
  have hramp := natAbs_mul_le (Nat.le_refl r.natAbs) hpairs
  omega

/-- The error at the end of the holdover, scaled by both denominators. -/
theorem ramp_holdover_scaled (hfreq : c.freqMppb = 1000 * f0) (hslope : c.freqSlopeMppb = 1000 * r)
    (hA : f0.natAbs + r.natAbs * H ≤ 1500000) :
    2000000000000000000 * (c.holdoverElapsed (rampLocalNs f0 r H) - H * 1000000000).natAbs ≤
      1000000000000000000 * (r.natAbs * H) + 2000000000 * (H * ((f0.natAbs + r.natAbs * H) *
        (f0.natAbs + r.natAbs * H))) + 4000000000000000000 := by
  obtain ⟨delta, hlocal⟩ : ∃ delta, rampLocalNs f0 r H = 1000000000 * H + delta :=
    ⟨rampLocalNs f0 r H - 1000000000 * H, by omega⟩
  have hdelta := two_mul_rampLocalNs f0 r H
  rw [hlocal, add_sub_cancel_left] at hdelta
  have hcancel := ramp_cancels hdelta
  rw [hlocal, DisciplinedClock.holdoverElapsed, DisciplinedClock.trueElapsed, hfreq, hslope]
  have hlevel := tdiv_error (by decide : (0 : Int) < 1000000000000)
    ((1000000000 * H + delta) * (1000 * f0))
  have hbent := tdiv_error (by decide : (0 : Int) < 2000000000000000000000)
    (1000 * r * (1000000000 * H + delta) * (1000000000 * H + delta))
  generalize ((1000000000 * H + delta) * (1000 * f0)).tdiv 1000000000000 = a at hlevel ⊢
  generalize (1000 * r * (1000000000 * H + delta) * (1000000000 * H + delta)).tdiv
    2000000000000000000000 = b at hbent ⊢
  have hfirst : (f0 * (1000000000 * H + delta) - 1000000000 * a).natAbs < 1000000000 := by
    have hunits : (1000000000 * H + delta) * (1000 * f0) =
        1000 * (f0 * (1000000000 * H + delta)) := by ring
    rw [hunits] at hlevel
    omega
  have hsecond : (r * (1000000000 * H + delta) * (1000000000 * H + delta) -
      2000000000000000000 * b).natAbs < 2000000000000000000 := by
    have hunits : 1000 * r * (1000000000 * H + delta) * (1000000000 * H + delta) =
        1000 * (r * (1000000000 * H + delta) * (1000000000 * H + delta)) := by ring
    rw [hunits] at hbent
    omega
  -- what the ramp leaves, and the remainders of the two divisions
  have herror : 2000000000000000000 * (1000000000 * H + delta - a - b - H * 1000000000) =
      -(1000000000000000000 * (r * H) + 2000000000 * (delta * (f0 + r * H)) +
        r * (delta * delta)) + 2000000000 * (f0 * (1000000000 * H + delta) - 1000000000 * a) +
      (r * (1000000000 * H + delta) * (1000000000 * H + delta) - 2000000000000000000 * b) := by
    linear_combination hcancel
  generalize f0 * (1000000000 * H + delta) - 1000000000 * a = e₁ at hfirst herror
  generalize r * (1000000000 * H + delta) * (1000000000 * H + delta) -
    2000000000000000000 * b = e₂ at hsecond herror
  have hrate := natAbs_mul_le (Nat.le_refl r.natAbs) (Int.natAbs_natCast H).le
  have hcross := natAbs_mul_le (Nat.le_refl delta.natAbs)
    (by omega : (f0 + r * H).natAbs ≤ f0.natAbs + r.natAbs * H)
  have hsquare := natAbs_mul_le (Nat.le_refl r.natAbs)
    (natAbs_mul_le (Nat.le_refl delta.natAbs) (Nat.le_refl delta.natAbs))
  have hterms := ramp_cross_terms (ramp_offset_le hdelta) hA
  clear hlevel hbent hcancel hdelta hA
  generalize r * H = p at hrate hcross herror
  generalize delta * (f0 + p) = q at hcross herror
  generalize r * (delta * delta) = s at hsquare herror
  generalize 1000000000 * (H : Int) + delta - a - b - H * 1000000000 = x at herror ⊢
  omega

theorem rampLocalNs_mem (hf : f0.natAbs ≤ 1000000) (hr : r.natAbs ≤ 5) (hH : H ≤ 100000) :
    0 ≤ rampLocalNs f0 r H ∧ rampLocalNs f0 r H < 9223372036854775808 := by
  have hoffset := ramp_offset_le (two_mul_rampLocalNs f0 r H)
  have hstart := Nat.mul_le_mul_right H hf
  have hramp := Nat.mul_le_mul hr (Nat.mul_le_mul_right H hH)
  omega

/-- The read-out at the end of the ramp. -/
theorem nowFromCaptureNsHoldover_ramp (hp : c.epochCaptureNs = some 0) (hu : c.epochUnixNs = some U)
    (hf : f0.natAbs ≤ 1000000) (hr : r.natAbs ≤ 5) (hH : H ≤ 100000)
    (hfits : InI64 (U + c.holdoverElapsed (rampLocalNs f0 r H))) :
    c.nowFromCaptureNsHoldover (rampLocalNs f0 r H).toNat =
      some (U + c.holdoverElapsed (rampLocalNs f0 r H)) := by
  obtain ⟨hpos, hlt⟩ := rampLocalNs_mem hf hr hH
  have hword : asI64 (rampLocalNs f0 r H).toNat = rampLocalNs f0 r H := by
    rw [asI64_of_lt (by omega), Int.toNat_of_nonneg hpos]
  have hstart : asI64 0 = 0 := rfl
  have hlocal : wrap64 (rampLocalNs f0 r H) = rampLocalNs f0 r H :=
    wrap64_of_natAbs_lt (by omega)
  rw [DisciplinedClock.nowFromCaptureNsHoldover_eq hp hu, hword, hstart, Int.sub_zero, hlocal,
    wrap64_of_inI64 hfits]

/-- With the level and the slope of the ramp, the error of the holdover is linear but for the
terms of higher order in the offsets themselves. -/
theorem holdover_error_is_linear (hfreq : c.freqMppb = 1000 * f0)
    (hslope : c.freqSlopeMppb = 1000 * r) (hp : c.epochCaptureNs = some 0)
    (hu : c.epochUnixNs = some U) (hf : f0.natAbs ≤ 1000000) (hr : r.natAbs ≤ 5)
    (hH : H ≤ 100000) (hfits : InI64 (U + c.holdoverElapsed (rampLocalNs f0 r H))) :
    ∃ t, c.nowFromCaptureNsHoldover (rampLocalNs f0 r H).toNat = some t ∧
      |((t - (U + H * 10 ^ 9) : Int) : ℚ)| ≤ |(r : ℚ)| * H / 2 +
        ((f0 : ℚ) ^ 2 * H + 2 * |(f0 : ℚ) * r| * H ^ 2 + (r : ℚ) ^ 2 * H ^ 3) / 10 ^ 9 + 2 := by
  refine ⟨_, nowFromCaptureNsHoldover_ramp hp hu hf hr hH hfits, ?_⟩
  have hA : f0.natAbs + r.natAbs * H ≤ 1500000 := by
    have hramp := Nat.mul_le_mul hr hH
    omega
  have hscaled := (Nat.cast_le (α := ℚ)).2 (ramp_holdover_scaled hfreq hslope hA)
  push_cast [Nat.cast_natAbs, Int.cast_abs] at hscaled
  have hsquare : (f0 : ℚ) ^ 2 * H + 2 * |(f0 : ℚ) * r| * H ^ 2 + (r : ℚ) ^ 2 * H ^ 3 =
      H * ((|(f0 : ℚ)| + |(r : ℚ)| * H) * (|(f0 : ℚ)| + |(r : ℚ)| * H)) := by
    rw [abs_mul, ← sq_abs (f0 : ℚ), ← sq_abs (r : ℚ)]
    ring
  have hmoved : U + c.holdoverElapsed (rampLocalNs f0 r H) - (U + H * 10 ^ 9) =
      c.holdoverElapsed (rampLocalNs f0 r H) - H * 1000000000 := by ring
  rw [hsquare, hmoved]
  push_cast
  linarith

/-- Three minutes on a ramp of -2 ppb a second. -/
theorem holdover_error_is_linear_falling :
    ∃ t, ({ config := .default
            freqMppb := 1000 * 3000
            freqSlopeMppb := 1000 * -2
            epochCaptureNs := some 0
            epochUnixNs := some 1700000000000000000 } : DisciplinedClock).nowFromCaptureNsHoldover
          (rampLocalNs 3000 (-2) 180).toNat = some t ∧
      |((t - (1700000000000000000 + (180 : Nat) * 10 ^ 9) : Int) : ℚ)| ≤
        |((-2 : Int) : ℚ)| * (180 : Nat) / 2 + (((3000 : Int) : ℚ) ^ 2 * (180 : Nat) +
          2 * |((3000 : Int) : ℚ) * (-2 : Int)| * (180 : Nat) ^ 2 +
          ((-2 : Int) : ℚ) ^ 2 * (180 : Nat) ^ 3) / 10 ^ 9 + 2 :=
  holdover_error_is_linear rfl rfl rfl rfl (by decide) (by decide) (by decide)
    (by decide +kernel)

/-- A perfect crystal with its epoch at the last nanosecond that an `i64` can tell. -/
def lastSecondClock : DisciplinedClock where
  config := .default
  epochCaptureNs := some 0
  epochUnixNs := some 9223372036854775807

theorem lastSecondClock_wraps : lastSecondClock.nowFromCaptureNsHoldover
    (rampLocalNs 0 0 1).toNat = some (-9223372035854775809) := by decide

/-- A second later its read-out has wrapped. -/
theorem holdover_error_wraps :
    ¬∀ (c : DisciplinedClock) (f0 r U : Int) (H : Nat), c.freqMppb = 1000 * f0 →
      c.freqSlopeMppb = 1000 * r → c.epochCaptureNs = some 0 → c.epochUnixNs = some U →
      f0.natAbs ≤ 1000000 → r.natAbs ≤ 5 → H ≤ 100000 → InI64 U →
      ∃ t, c.nowFromCaptureNsHoldover (rampLocalNs f0 r H).toNat = some t ∧
        |((t - (U + H * 10 ^ 9) : Int) : ℚ)| ≤ |(r : ℚ)| * H / 2 +
          ((f0 : ℚ) ^ 2 * H + 2 * |(f0 : ℚ) * r| * H ^ 2 + (r : ℚ) ^ 2 * H ^ 3) / 10 ^ 9 + 2 := by
  intro hclaim
  obtain ⟨t, ht, hbound⟩ := hclaim lastSecondClock 0 0 9223372036854775807 1 rfl rfl rfl rfl
    (by decide) (by decide) (by decide) (by decide)
  cases Option.some.inj (ht.symm.trans lastSecondClock_wraps)
  norm_num at hbound

end PicoGnss
