import PicoGnss.Lib.Mealy
import PicoGnss.Gnssdo.Clock

namespace PicoGnss
open FixedWidth
set_option autoImplicit true

variable {c : DisciplinedClock}

/-- One call on the frequency estimator. -/
inductive DisciplineCall where
  | updateFreq (intervalNs : Int)
  | startQuarantine

def DisciplinedClock.call (c : DisciplinedClock) : DisciplineCall →
    Option FreqUpdate × DisciplinedClock
  | .updateFreq ns => (some (c.updateFreq ns).1, (c.updateFreq ns).2)
  | .startQuarantine => (none, c.startQuarantine)

theorem DisciplinedClock.call_updateFreq (c : DisciplinedClock) (ns : Int) :
    c.call (.updateFreq ns) = (some (c.updateFreq ns).1, (c.updateFreq ns).2) := rfl

theorem DisciplinedClock.call_updateFreq_snd (c : DisciplinedClock) (ns : Int) :
    (c.call (.updateFreq ns)).2 = (c.updateFreq ns).2 :=
  Mealy.next_eq (c.call_updateFreq ns)

/-- What the default configuration maintains under every call. -/
structure EstimatorBounds (c : DisciplinedClock) : Prop where
  config : c.config = .default
  slope : c.freqSlopeMppb.natAbs ≤ 5000
  quarantine : c.quarantine ≤ 5

theorem EstimatorBounds.new : EstimatorBounds .new := ⟨rfl, by decide, by decide⟩

theorem shiftRight_eq_div (x : Int) (n : Nat) : x >>> n = x / (2 : Int) ^ n := by
  rw [Int.shiftRight_eq_div_pow]
  norm_cast

theorem isLocked_default (hc : c.config = .default) : c.isLocked = decide (8 ≤ c.samples) := by
  simp only [DisciplinedClock.isLocked, hc, DisciplinedClockConfig.default]

theorem trackTemp_default (hc : c.config = .default) (m : Int) : c.trackTemp m = c := by
  simp only [DisciplinedClock.trackTemp, hc, DisciplinedClockConfig.default, Bool.false_and,
    Bool.false_eq_true, ↓reduceIte]

theorem qualityGated_converging (hc : c.config = .default) (hs : c.samples < 8) (dev : Int) :
    c.qualityGated dev = decide (100000 < dev.natAbs) := by
  have hl : ¬ 8 ≤ c.samples := by omega
  have hg : asI64 100000 = 100000 := asI64_of_lt (by decide)
  simp only [DisciplinedClock.qualityGated, isLocked_default hc, decide_eq_true_eq, hl, hc,
    DisciplinedClockConfig.default, ↓reduceIte, hg, decide_eq_decide]
  omega

theorem qualityGated_locked (hc : c.config = .default) (hs : 8 ≤ c.samples) (dev : Int) :
    c.qualityGated dev =
      decide (5000000 + 8 * c.freqSlopeMppb.natAbs < (dev * 1000 - c.freqMppb).natAbs) := by
  have hg : asI64 5000 = 5000 := asI64_of_lt (by decide)
  simp only [DisciplinedClock.qualityGated, isLocked_default hc, decide_eq_true_eq, hs, hc,
    DisciplinedClockConfig.default, ↓reduceIte, hg, decide_eq_decide]
  omega

theorem trackFreq_converging (hc : c.config = .default) (hs : c.samples < 8) (m : Int) :
    c.trackFreq m = { c with
      freqMppb := c.freqMppb + c.freqSlopeMppb + (m - (c.freqMppb + c.freqSlopeMppb)) / 8 } := by
  have hl : ¬c.isLocked = true := by
    rw [isLocked_default hc, decide_eq_true_iff]
    omega
  have hmin : min 3 63 = 3 := rfl
  have h3 (x : Int) : x >>> (3 : Nat) = x / 8 := shiftRight_eq_div x 3
  simp only [DisciplinedClock.trackFreq, hl, hc, DisciplinedClockConfig.default, ↓reduceIte,
    false_and, hmin, h3, Bool.false_eq_true]

/-- The slope that an accepted sample with residual `resid` leaves on a locked clock. -/
def trackedSlope (slope resid : Int) : Int :=
  if resid.natAbs < 2000000 then clamp (slope + resid / 512) (-5000) 5000 else slope

theorem trackedSlope_bound {slope : Int} (h : slope.natAbs ≤ 5000) (resid : Int) :
    (trackedSlope slope resid).natAbs ≤ 5000 := by
  unfold trackedSlope
  have hm := clamp_mem (show (-5000 : Int) ≤ 5000 by decide) (slope + resid / 512)
  split <;> omega

theorem trackFreq_locked (hc : c.config = .default) (hs : 8 ≤ c.samples) (m : Int) :
    c.trackFreq m = { c with
      freqMppb := c.freqMppb + c.freqSlopeMppb + (m - (c.freqMppb + c.freqSlopeMppb)) / 32
      freqSlopeMppb := trackedSlope c.freqSlopeMppb (m - (c.freqMppb + c.freqSlopeMppb)) } := by
  have hl : c.isLocked = true := by rw [isLocked_default hc, decide_eq_true hs]
  have he (x : Int) : ((x.natAbs : Int) < 2000000) = (x.natAbs < 2000000) := by
    simp only [eq_iff_iff]
    omega
  have hmin : min 5 63 = 5 ∧ min 9 63 = 9 := ⟨rfl, rfl⟩
  have h5 (x : Int) : x >>> (5 : Nat) = x / 32 := shiftRight_eq_div x 5
  have h9 (x : Int) : x >>> (9 : Nat) = x / 512 := shiftRight_eq_div x 9
  simp only [DisciplinedClock.trackFreq, hl, hc, DisciplinedClockConfig.default, ↓reduceIte,
    true_and, hmin, h5, h9, he, trackedSlope]

/-- The gates in the order the code tries them, for a deviation inside the emergency stop. -/
theorem updateFreq_default (hc : c.config = .default) (hd : dev.natAbs < 1000000) :
    c.updateFreq (1000000000 + dev) =
      if 0 < c.quarantine then (.quarantined, { c with quarantine := c.quarantine - 1 })
      else if c.samples = 0 then (.applied, { c with freqMppb := dev * 1000, samples := 1 })
      else if c.qualityGated dev then (.gatedQuality, c)
      else (.applied, { c.trackFreq (dev * 1000) with
        samples := (c.samples + 1) % 4294967296 }) := by
  have hg : asI64 1000000 = 1000000 := asI64_of_lt (by decide)
  have hd' : ¬ (1000000 : Int) ≤ dev.natAbs := by omega
  have he : 1000000000 + dev - 1000000000 = dev := by omega
  have hct : (c.trackFreq (dev * 1000)).config = .default := hc
  simp only [DisciplinedClock.updateFreq, he, hc, DisciplinedClockConfig.default, hg, hd',
    ↓reduceIte]
  rw [trackTemp_default hct]
  rfl

theorem updateFreq_quarantined (hc : c.config = .default) (hd : dev.natAbs < 1000000)
    (hq : 0 < c.quarantine) : (c.updateFreq (1000000000 + dev)).1 = .quarantined ∧
      (c.updateFreq (1000000000 + dev)).2.samples = c.samples ∧
      (c.updateFreq (1000000000 + dev)).2.quarantine + 1 = c.quarantine := by
  rw [updateFreq_default hc hd, if_pos hq]
  exact ⟨rfl, rfl, Nat.sub_add_cancel hq⟩

theorem updateFreq_gatedSane (hc : c.config = .default) (hd : ¬ dev.natAbs < 1000000) :
    c.updateFreq (1000000000 + dev) = (.gatedSane, c) := by
  have hg : asI64 1000000 = 1000000 := asI64_of_lt (by decide)
  have hd' : (1000000 : Int) ≤ dev.natAbs := by omega
  have he : 1000000000 + dev - 1000000000 = dev := by omega
  simp only [DisciplinedClock.updateFreq, he, hc, DisciplinedClockConfig.default, hg, hd',
    ↓reduceIte]

theorem trackFreq_bounds (h : EstimatorBounds c) (m : Int) :
    EstimatorBounds (c.trackFreq m) := by
  rcases Nat.lt_or_ge c.samples 8 with hs | hs
  · rw [trackFreq_converging h.config hs]
    exact ⟨h.config, h.slope, h.quarantine⟩
  · rw [trackFreq_locked h.config hs]
    exact ⟨h.config, trackedSlope_bound h.slope _, h.quarantine⟩

theorem updateFreq_bounds (h : EstimatorBounds c) (ns : Int) :
    EstimatorBounds (c.updateFreq ns).2 := by
  obtain ⟨dev, rfl⟩ : ∃ dev, ns = 1000000000 + dev := ⟨ns - 1000000000, by omega⟩
  by_cases hd : dev.natAbs < 1000000
  · have ht := trackFreq_bounds h (dev * 1000)
    have hq := h.quarantine
    rw [updateFreq_default h.config hd]
    split_ifs with hq' hs hg
    · exact ⟨h.config, h.slope, by simp only; omega⟩
    · exact ⟨h.config, h.slope, hq⟩
    · exact h
    · exact ⟨ht.config, ht.slope, ht.quarantine⟩
  · rw [updateFreq_gatedSane h.config hd]
    exact h

theorem startQuarantine_default (hc : c.config = .default) (hs : c.samples ≠ 0) :
    c.startQuarantine = { c with quarantine := 5 } := by
  rw [DisciplinedClock.startQuarantine, if_pos (Nat.pos_of_ne_zero hs), hc]
  rfl

theorem startQuarantine_bounds (h : EstimatorBounds c) : EstimatorBounds c.startQuarantine := by
  by_cases hs : c.samples = 0
  · rw [DisciplinedClock.startQuarantine, if_neg (by omega)]
    exact h
  · rw [startQuarantine_default h.config hs]
    exact ⟨h.config, h.slope, Nat.le_refl 5⟩

end PicoGnss
