import Mathlib.Data.Int.Order.Lemmas
import PicoGnss.Gnssdo.ConstantCrystal
import PicoGnss.Gnssdo.Range
import PicoGnss.Lib.PlanarForm

/-! The tracker on a frequency that moves at a constant rate. -/

namespace PicoGnss
set_option autoImplicit true

open FixedWidth PlanarForm

/-- The form that the locked loop contracts, of the errors of the prediction and of the slope. -/
def loopForm (lag drift : Int) : Int := form 1 (-17) 512 lag drift

theorem loopForm_eq (lag drift : Int) :
    loopForm lag drift = lag * lag - 17 * (lag * drift) + 512 * (drift * drift) := by
  unfold loopForm form
  ring

theorem lag_sq_le (lag drift : Int) : 1759 * (lag * lag) ≤ 2048 * loopForm lag drift := by
  have h := mul_sq_left_le_form 1 (-17) 512 lag drift
  unfold loopForm
  linarith

/-- Rounding down, at both shifts, moves the loop by less than one unit each. -/
theorem loopForm_rounding {c rho : Int} (hlow : 32 * c ≤ rho) (hrho : 0 ≤ rho) (hc : 0 ≤ c)
    (hlt : rho < 512) : loopForm (512 * c - 17 * rho) (-rho) ≤ 134217728 := by
  have hsplit : loopForm (512 * c - 17 * rho) (-rho) =
      512 * (rho * rho) - (17 * rho - 512 * c) * (512 * c) := by
    rw [loopForm_eq]
    ring
  have hcross : 0 ≤ (17 * rho - 512 * c) * (512 * c) := mul_nonneg (by omega) (by omega)
  have hsquare : rho * rho ≤ 512 * 512 := mul_self_le_mul_self hrho hlt.le
  omega

/-- One sample of the locked loop, before the clamp. -/
theorem loopForm_step (lag drift : Int) :
    64 * loopForm (lag + -lag / 32 + (drift + -lag / 512)) (drift + -lag / 512) ≤
      63 * loopForm lag drift + 2064384 := by
  obtain ⟨a, rho, hlag, hrho, hlt⟩ :
      ∃ a rho : Int, -lag = 512 * a + rho ∧ 0 ≤ rho ∧ rho < 512 :=
    ⟨-lag / 512, -lag % 512, by omega, by omega, by omega⟩
  obtain ⟨c, hlow, hhigh⟩ : ∃ c : Int, 32 * c ≤ rho ∧ rho < 32 * c + 32 :=
    ⟨rho / 32, by omega, by omega⟩
  have hslow : -lag / 512 = a := by omega
  have hfast : -lag / 32 = 16 * a + c := by omega
  have hround := loopForm_rounding hlow hrho (by omega) hlt
  rw [hslow, hfast]
  -- the loop is its linear part, scaled by 512, and the two remainders
  have hmap := form_map 495 512 (-1) 512 lag drift
  have hsum := form_add_le (a := 1) (b := -17) (c := 512) (x := 495 * lag + 512 * drift)
    (y := -1 * lag + 512 * drift) (u := 512 * c - 17 * rho) (v := -rho) 62
    (form_nonneg (by decide) (by decide) _ _)
  have hscale := form_scale 1 (-17) 512 512 (lag + (16 * a + c) + (drift + a)) (drift + a)
  have hx : 512 * (lag + (16 * a + c) + (drift + a)) =
      495 * lag + 512 * drift + (512 * c - 17 * rho) := by omega
  have hy : 512 * (drift + a) = -1 * lag + 512 * drift + -rho := by omega
  rw [hx, hy] at hscale
  unfold loopForm at hround ⊢
  norm_num at hmap hscale hsum
  linarith

/-- Moving both errors together, as the clamp on the slope does. -/
theorem loopForm_pull (lag drift t : Int) : loopForm lag drift =
    loopForm (lag - t) (drift - t) + t * (1007 * (drift - t) + 511 * t - 15 * lag) := by
  rw [loopForm_eq, loopForm_eq]
  ring

/-- The clamp pulls the slope toward the rate of the ramp. -/
theorem loopForm_clamp {rate lag : Int} (drift : Int) (hrate : rate.natAbs ≤ 3000)
    (hlag : lag.natAbs ≤ 134000) :
    loopForm (lag + (clamp (rate + drift) (-5000) 5000 - rate - drift))
      (clamp (rate + drift) (-5000) 5000 - rate) ≤ loopForm lag drift := by
  obtain ⟨t, ht⟩ : ∃ t, clamp (rate + drift) (-5000) 5000 = rate + drift - t :=
    ⟨rate + drift - clamp (rate + drift) (-5000) 5000, by omega⟩
  have hpull := loopForm_pull lag drift t
  have hgain : 0 ≤ t * (1007 * (drift - t) + 511 * t - 15 * lag) := by
    unfold clamp at ht
    rcases Int.lt_trichotomy t 0 with hneg | hzero | hpos
    · exact mul_nonneg_of_nonpos_of_nonpos hneg.le (by omega)
    · rw [hzero, zero_mul]
    · exact mul_nonneg hpos.le (by omega)
  have hlag' : lag + (rate + drift - t - rate - drift) = lag - t := by omega
  have hdrift : rate + drift - t - rate = drift - t := by omega
  rw [ht, hlag', hdrift, hpull]
  exact le_add_of_nonneg_right hgain

/-- The default clock before sample `n` of a ramp. -/
def DisciplinedClock.onRamp (f0 r : Int) (n : Nat) : DisciplinedClock :=
  Mealy.final updateFreq .new ((List.range n).map fun k : Nat => 1000000000 + (f0 + r * k))

theorem DisciplinedClock.onRamp_zero (f0 r : Int) : onRamp f0 r 0 = .new := rfl

theorem DisciplinedClock.onRamp_succ (f0 r : Int) (n : Nat) :
    onRamp f0 r (n + 1) = ((onRamp f0 r n).updateFreq (1000000000 + (f0 + r * n))).2 := by
  rw [onRamp, List.range_succ, List.map_append, List.map_singleton, Mealy.final_concat, ← onRamp]

theorem DisciplinedClock.onRamp_bounds (f0 r : Int) (n : Nat) :
    EstimatorBounds (onRamp f0 r n) := by
  induction n with
  | zero => exact .new
  | succ n ih =>
    rw [onRamp_succ]
    exact updateFreq_bounds ih _

/-- A ramp that stands still is a constant crystal, for as long as it is sampled. -/
theorem DisciplinedClock.onRamp_constant (hf : f0.natAbs ≤ 100000) (n : Nat) :
    OnCrystal f0 n (onRamp f0 0 n) := by
  induction n with
  | zero => exact .new f0
  | succ n ih =>
    rw [onRamp_succ, Int.zero_mul, Int.add_zero]
    exact (ih.sample hf).2

/-- How far the prediction after sample `n` is off. -/
def DisciplinedClock.rampLag (c : DisciplinedClock) (f0 r : Int) (n : Nat) : Int :=
  c.freqMppb + c.freqSlopeMppb - 1000 * (f0 + r * (n + 1))

def DisciplinedClock.rampDrift (c : DisciplinedClock) (r : Int) : Int := c.freqSlopeMppb - 1000 * r

/-- Before the lock: the prediction has fallen behind by the ramp at most. -/
structure RampConverging (f0 r : Int) (n : Nat) (c : DisciplinedClock) : Prop where
  config : c.config = .default
  quarantine : c.quarantine = 0
  samples : c.samples = n + 1
  slope : c.freqSlopeMppb = 0
  lag : (c.rampLag f0 r n).natAbs ≤ 3000 * (n + 1)

/-- Since the lock, `j` samples ago. -/
structure RampLocked (f0 r : Int) (j : Nat) (c : DisciplinedClock) : Prop where
  config : c.config = .default
  quarantine : c.quarantine = 0
  samples : c.samples = j + 8
  slope : c.freqSlopeMppb.natAbs ≤ 5000
  decay : 64 ^ j * (loopForm (c.rampLag f0 r (j + 7)) (c.rampDrift r) - 2064384) ≤
    63 ^ j * (2 ^ 13 * 1000000)

variable {c : DisciplinedClock} {f0 r : Int}

theorem ramp_natAbs_le (hf : f0.natAbs ≤ 90000) (hr : r.natAbs ≤ 3) (n : Nat) :
    (f0 + r * n).natAbs ≤ 90000 + 3 * n := by
  have hramp := natAbs_mul_le hr (Int.natAbs_natCast n).le
  omega

/-- A ramp that has not left the sanity window has not left it before. -/
theorem ramp_window (hf : f0.natAbs ≤ 90000) (hk : k ≤ n)
    (hwindow : (f0 + r * (n : Nat)).natAbs < 1000000) :
    (f0 + r * (k : Nat)).natAbs < 1000000 := by
  have hcast : (k : Int) ≤ n := Int.ofNat_le.2 hk
  rcases Int.le_total 0 r with hup | hdown
  · have hfirst : 0 ≤ r * (k : Nat) := mul_nonneg hup (Int.natCast_nonneg k)
    have hlast : r * (k : Nat) ≤ r * (n : Nat) := mul_le_mul_of_nonneg_left hcast hup
    omega
  · have hfirst : r * (k : Nat) ≤ 0 := mul_nonpos_of_nonpos_of_nonneg hdown (Int.natCast_nonneg k)
    have hlast : r * (n : Nat) ≤ r * (k : Nat) := mul_le_mul_of_nonpos_left hcast hdown
    omega

/-- A ramp that moves leaves the sanity window long before the sample counter wraps. -/
theorem ramp_window_length (hf : f0.natAbs ≤ 90000) (hr : r ≠ 0)
    (hwindow : (f0 + r * (n : Nat)).natAbs < 1000000) : n < 1090000 := by
  have hlength : n ≤ (r * (n : Nat)).natAbs := by
    rw [Int.natAbs_mul, Int.natAbs_natCast]
    exact Nat.le_mul_of_pos_left n (Int.natAbs_pos.2 hr)
  omega

/-- The residual of the next sample is the lag. -/
theorem ramp_resid (c : DisciplinedClock) (f0 r : Int) (n : Nat) :
    (f0 + r * (n + 1 : Nat)) * 1000 - (c.freqMppb + c.freqSlopeMppb) = -c.rampLag f0 r n := by
  unfold DisciplinedClock.rampLag
  push_cast
  ring

theorem rampLag_succ {k : Int} {c' : DisciplinedClock}
    (hfreq : c'.freqMppb = c.freqMppb + c.freqSlopeMppb + -c.rampLag f0 r n / k) :
    c'.rampLag f0 r (n + 1) = c.rampLag f0 r n + -c.rampLag f0 r n / k + c'.rampDrift r := by
  unfold DisciplinedClock.rampLag DisciplinedClock.rampDrift at *
  rw [hfreq]
  push_cast
  ring

namespace RampConverging

theorem first (hf : f0.natAbs ≤ 90000) (hr : r.natAbs ≤ 3) :
    ((DisciplinedClock.onRamp f0 r 0).updateFreq (1000000000 + (f0 + r * (0 : Nat)))).1 =
        .applied ∧
      RampConverging f0 r 0 (DisciplinedClock.onRamp f0 r (0 + 1)) := by
  have hdev := ramp_natAbs_le hf hr 0
  have hfirst := updateFreq_default (c := .new) rfl
    (show (f0 + r * (0 : Nat)).natAbs < 1000000 by omega)
  rw [DisciplinedClock.onRamp_succ, DisciplinedClock.onRamp_zero, hfirst]
  refine ⟨rfl, rfl, rfl, rfl, rfl, ?_⟩
  change ((f0 + r * (0 : Nat)) * 1000 + 0 - 1000 * (f0 + r * ((0 : Nat) + 1))).natAbs ≤ _
  omega

theorem succ (h : RampConverging f0 r n c) (hn : n < 7) (hf : f0.natAbs ≤ 90000)
    (hr : r.natAbs ≤ 3) :
    (c.updateFreq (1000000000 + (f0 + r * (n + 1 : Nat)))).1 = .applied ∧
      RampConverging f0 r (n + 1) (c.updateFreq (1000000000 + (f0 + r * (n + 1 : Nat)))).2 := by
  have hdev := ramp_natAbs_le hf hr (n + 1)
  have hlag := h.lag
  have hslope := h.slope
  have hsamples := h.samples
  have hgate : c.qualityGated (f0 + r * (n + 1 : Nat)) = false := by
    rw [qualityGated_converging h.config (by omega), decide_eq_false_iff_not]
    omega
  rw [updateFreq_default h.config (by omega), if_neg (by rw [h.quarantine]; decide),
    if_neg (by omega), if_neg (by rw [hgate]; decide), trackFreq_converging h.config (by omega),
    ramp_resid]
  refine ⟨rfl, h.config, h.quarantine, ?_, hslope, ?_⟩
  · change (c.samples + 1) % 4294967296 = n + 1 + 1
    omega
  · rw [rampLag_succ (c := c) (k := 8) rfl, DisciplinedClock.rampDrift]
    simp only [hslope]
    omega

theorem lock (h : RampConverging f0 r 7 c) (hr : r.natAbs ≤ 3) : RampLocked f0 r 0 c := by
  have hdrift : (c.rampDrift r).natAbs ≤ 3000 := by
    rw [DisciplinedClock.rampDrift, h.slope]
    omega
  have hlag := natAbs_mul_le h.lag h.lag
  have hcross := natAbs_mul_le h.lag hdrift
  have hsquare := natAbs_mul_le hdrift hdrift
  refine ⟨h.config, h.quarantine, h.samples, by rw [h.slope]; decide, ?_⟩
  rw [Nat.zero_add, loopForm_eq]
  omega

end RampConverging

namespace RampLocked

/-- The errors that the lock begins with are never exceeded. -/
theorem form_le (h : RampLocked f0 r j c) :
    loopForm (c.rampLag f0 r (j + 7)) (c.rampDrift r) ≤ 8194064384 := by
  have hdecay := h.decay
  have hpow : (63 : Int) ^ j ≤ 64 ^ j := pow_le_pow_left₀ (by decide) (by decide) j
  have hpos : (0 : Int) < 64 ^ j := pow_pos (by decide) j
  have hle := hdecay.trans (mul_le_mul_of_nonneg_right hpow (by decide))
  have hform := le_of_mul_le_mul_left hle hpos
  omega

theorem lag_le (h : loopForm lag drift ≤ 8194064384) : lag.natAbs ≤ 98000 := by
  have hsquare := lag_sq_le lag drift
  have hlt : lag.natAbs < (98001 : Int).natAbs := Int.natAbs_lt_iff_mul_self_lt.2 (by omega)
  exact Nat.le_of_lt_succ hlt

/-- One sample of the locked loop, with the clamp. -/
theorem form_succ (h : RampLocked f0 r j c) (hr : r.natAbs ≤ 3) {c' : DisciplinedClock}
    (hfreq : c'.freqMppb = c.freqMppb + c.freqSlopeMppb + -c.rampLag f0 r (j + 7) / 32)
    (hslope : c'.freqSlopeMppb = trackedSlope c.freqSlopeMppb (-c.rampLag f0 r (j + 7))) :
    64 * (loopForm (c'.rampLag f0 r (j + 1 + 7)) (c'.rampDrift r) - 2064384) ≤
      63 * (loopForm (c.rampLag f0 r (j + 7)) (c.rampDrift r) - 2064384) := by
  have hform := h.form_le
  have hlag := lag_le hform
  have hsum : c.freqSlopeMppb + -c.rampLag f0 r (j + 7) / 512 =
      1000 * r + (c.rampDrift r + -c.rampLag f0 r (j + 7) / 512) := by
    rw [DisciplinedClock.rampDrift]
    omega
  rw [Nat.add_right_comm, rampLag_succ hfreq, DisciplinedClock.rampDrift, hslope, trackedSlope,
    if_pos (by omega), hsum]
  generalize c.rampLag f0 r (j + 7) = lag at hform hlag ⊢
  generalize c.rampDrift r = drift at hform ⊢
  have hstep := loopForm_step lag drift
  have hfree := lag_le (by omega : loopForm (lag + -lag / 32 + (drift + -lag / 512))
    (drift + -lag / 512) ≤ 8194064384)
  have hclamp := loopForm_clamp (drift + -lag / 512) (by omega : (1000 * r).natAbs ≤ 3000)
    (Nat.le_trans hfree (by decide))
  have hmoved : lag + -lag / 32 + (drift + -lag / 512) +
      (clamp (1000 * r + (drift + -lag / 512)) (-5000) 5000 - 1000 * r - (drift + -lag / 512)) =
      lag + -lag / 32 + (clamp (1000 * r + (drift + -lag / 512)) (-5000) 5000 - 1000 * r) := by
    ring
  rw [hmoved] at hclamp
  omega

theorem succ (h : RampLocked f0 r j c) (hj : j < 4294967287) (hr : r.natAbs ≤ 3)
    (hwindow : (f0 + r * (j + 7 + 1 : Nat)).natAbs < 1000000) :
    (c.updateFreq (1000000000 + (f0 + r * (j + 7 + 1 : Nat)))).1 = .applied ∧
      RampLocked f0 r (j + 1) (c.updateFreq (1000000000 + (f0 + r * (j + 7 + 1 : Nat)))).2 := by
  have hslope := h.slope
  have hsamples := h.samples
  have hlag := lag_le h.form_le
  have hresid := ramp_resid c f0 r (j + 7)
  have hgate : c.qualityGated (f0 + r * (j + 7 + 1 : Nat)) = false := by
    rw [qualityGated_locked h.config (by omega), decide_eq_false_iff_not]
    omega
  rw [updateFreq_default h.config hwindow, if_neg (by rw [h.quarantine]; decide),
    if_neg (by omega), if_neg (by rw [hgate]; decide), trackFreq_locked h.config (by omega),
    hresid]
  refine ⟨rfl, h.config, h.quarantine, ?_, trackedSlope_bound hslope _, ?_⟩
  · change (c.samples + 1) % 4294967296 = j + 1 + 8
    omega
  · exact decay_succ (by decide) (by decide) (h.form_succ hr rfl rfl) h.decay

/-- Six hundred samples after the lock, what is left is the rounding. -/
theorem lag_settled (h : RampLocked f0 r j c) (hj : 585 ≤ j) :
    (c.rampLag f0 r (j + 7)).natAbs ≤ 2000 := by
  have hform := decay_halves (by decide) (by decide) (by decide)
    (by norm_num : 2 * (63 : Int) ^ 45 ≤ 64 ^ 45) (by decide) (k := 13) hj h.decay
  have hsquare := lag_sq_le (c.rampLag f0 r (j + 7)) (c.rampDrift r)
  have hlt : (c.rampLag f0 r (j + 7)).natAbs < (2001 : Int).natAbs :=
    Int.natAbs_lt_iff_mul_self_lt.2 (by omega)
  exact Nat.le_of_lt_succ hlt

end RampLocked

namespace DisciplinedClock

theorem onRamp_converging (hf : f0.natAbs ≤ 90000) (hr : r.natAbs ≤ 3) (hn : n ≤ 7) :
    ((onRamp f0 r n).updateFreq (1000000000 + (f0 + r * n))).1 = .applied ∧
      RampConverging f0 r n (onRamp f0 r (n + 1)) := by
  induction n with
  | zero => exact RampConverging.first hf hr
  | succ n ih =>
    have hnext := (ih (Nat.le_of_succ_le hn)).2.succ hn hf hr
    rw [onRamp_succ f0 r (n + 1)]
    exact hnext

theorem onRamp_locked (hf : f0.natAbs ≤ 90000) (hr : r.natAbs ≤ 3) (hj : j < 1090000)
    (hwindow : (f0 + r * (j + 7 : Nat)).natAbs < 1000000) :
    RampLocked f0 r j (onRamp f0 r (j + 8)) := by
  induction j with
  | zero => exact (onRamp_converging hf hr (Nat.le_refl 7)).2.lock hr
  | succ j ih =>
    rw [Nat.add_right_comm] at hwindow
    have hbefore := ih (Nat.lt_of_succ_lt hj) (ramp_window hf (Nat.le_succ _) hwindow)
    have hnext := (hbefore.succ (by omega) hr hwindow).2
    have hcount : j + 1 + 8 = j + 8 + 1 := by omega
    rw [hcount, onRamp_succ]
    exact hnext

theorem onRamp_applied (hf : f0.natAbs ≤ 90000) (hr : r.natAbs ≤ 3)
    (hwindow : (f0 + r * (n : Nat)).natAbs < 1000000) :
    ((onRamp f0 r n).updateFreq (1000000000 + (f0 + r * n))).1 = .applied := by
  by_cases hstill : r = 0
  · subst hstill
    have hf' : f0.natAbs ≤ 100000 := by omega
    rw [Int.zero_mul, Int.add_zero]
    exact ((onRamp_constant hf' n).sample hf').1
  have hlength := ramp_window_length hf hstill hwindow
  rcases Nat.lt_or_ge n 8 with hlt | hge
  · exact (onRamp_converging hf hr (Nat.le_of_lt_succ hlt)).1
  · obtain ⟨j, rfl⟩ := Nat.exists_eq_add_of_le' hge
    have hlocked := onRamp_locked hf hr (by omega : j < 1090000)
      (ramp_window hf (Nat.le_succ _) hwindow)
    exact (hlocked.succ (by omega) hr hwindow).1

theorem onRamp_gatedSane (h : ¬(f0 + r * (n : Nat)).natAbs < 1000000) :
    ((onRamp f0 r n).updateFreq (1000000000 + (f0 + r * n))).1 = .gatedSane := by
  rw [updateFreq_gatedSane (onRamp_bounds f0 r n).config h]

end DisciplinedClock

/-- Whatever the start and the rate, the tracker takes the ramp up to where it leaves the sanity
window and has no standing lag. -/
theorem ramp_has_no_lag (hf : f0.natAbs ≤ 90000) (hr : r.natAbs ≤ 3) (n : Nat) :
    (((DisciplinedClock.onRamp f0 r n).updateFreq (1000000000 + (f0 + r * n))).1 = .applied ↔
        (f0 + r * n).natAbs < 1000000) ∧
      (1000 ≤ n → n ≤ 100000 → ((DisciplinedClock.onRamp f0 r (n + 1)).predictedFreqMppb -
        1000 * (f0 + r * (n + 1))).natAbs ≤ 2000) := by
  refine ⟨⟨?_, DisciplinedClock.onRamp_applied hf hr⟩, ?_⟩
  · intro happlied
    by_contra hout
    rw [DisciplinedClock.onRamp_gatedSane hout] at happlied
    cases happlied
  · intro hlate hn
    have hdev := ramp_natAbs_le hf hr n
    obtain ⟨j, rfl⟩ := Nat.exists_eq_add_of_le' (Nat.le_trans (by decide : 7 ≤ 1000) hlate)
    have hlocked := DisciplinedClock.onRamp_locked hf hr (by omega : j < 1090000) (by omega)
    rw [predictedFreqMppb_default hlocked.config]
    exact hlocked.lag_settled (by omega)

theorem ramp_has_no_lag_two :
    ((DisciplinedClock.onRamp 3000 2 1000).updateFreq
      (1000000000 + (3000 + 2 * (1000 : Nat)))).1 = .applied ∧
    ((DisciplinedClock.onRamp 3000 2 (1000 + 1)).predictedFreqMppb -
      1000 * (3000 + 2 * ((1000 : Nat) + 1))).natAbs ≤ 2000 := by
  obtain ⟨happlied, hlag⟩ := ramp_has_no_lag (by decide : (3000 : Int).natAbs ≤ 90000)
    (by decide : (2 : Int).natAbs ≤ 3) 1000
  exact ⟨happlied.2 (by decide), hlag (Nat.le_refl 1000) (by decide)⟩

/-- The steepest ramp from the highest start leaves the sanity window after three and a half
days. -/
theorem steepest_ramp_gated :
    ¬∀ (f0 r : Int) (n : Nat), f0.natAbs ≤ 90000 → r.natAbs ≤ 3 →
      ((DisciplinedClock.onRamp f0 r n).updateFreq (1000000000 + (f0 + r * n))).1 =
        .applied := by
  intro h
  have happlied := h 90000 3 303334 (by decide) (by decide)
  rw [DisciplinedClock.onRamp_gatedSane (by decide)] at happlied
  cases happlied

end PicoGnss
