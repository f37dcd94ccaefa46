import PicoGnss.Gnssdo.Checked
import PicoGnss.Gnssdo.Estimator
import PicoGnss.Gnssdo.Temperature

/-! How far the estimate of a clock with the default configuration can go. -/

namespace PicoGnss
open FixedWidth
set_option autoImplicit true

variable {c : DisciplinedClock}

/-- The level settles at the largest sane sample once the slope's pull and its 32nd part balance. -/
structure LevelBounds (c : DisciplinedClock) : Prop extends EstimatorBounds c where
  level : c.freqMppb.natAbs ≤ 1000154000

/-- What the estimator maintains in its first `k` calls, before the sample counter can wrap. -/
structure EstimatorRange (k : Nat) (c : DisciplinedClock) : Prop extends LevelBounds c where
  idle : c.samples < 8 → c.freqSlopeMppb = 0
  samples : c.samples ≤ k

theorem LevelBounds.new : LevelBounds .new := ⟨.new, by decide⟩

theorem EstimatorRange.new : EstimatorRange 0 .new := ⟨.new, fun _ => rfl, Nat.le_refl 0⟩

theorem EstimatorRange.mono (h : EstimatorRange k c) (hk : k ≤ k') : EstimatorRange k' c :=
  ⟨h.toLevelBounds, h.idle, Nat.le_trans h.samples hk⟩

/-- A projection and an eighth or a 32nd of the way to a sane sample. -/
theorem tracked_level {level slope m : Int} (hlevel : level.natAbs ≤ 1000154000)
    (hslope : slope.natAbs ≤ 5000) (hm : m.natAbs ≤ 999999000) :
    (level + slope + (m - (level + slope)) / 8).natAbs ≤ 1000154000 ∧
      (level + slope + (m - (level + slope)) / 32).natAbs ≤ 1000154000 := by
  constructor <;> omega

theorem LevelBounds.trackFreq (h : LevelBounds c) (hm : m.natAbs ≤ 999999000) :
    (c.trackFreq m).freqMppb.natAbs ≤ 1000154000 := by
  obtain ⟨hfast, hslow⟩ := tracked_level h.level h.slope hm
  rcases Nat.lt_or_ge c.samples 8 with hs | hs
  · rw [trackFreq_converging h.config hs]
    exact hfast
  · rw [trackFreq_locked h.config hs]
    exact hslow

theorem LevelBounds.updateFreq (h : LevelBounds c) (ns : Int) :
    LevelBounds (c.updateFreq ns).2 := by
  have hb := updateFreq_bounds h.toEstimatorBounds ns
  obtain ⟨dev, rfl⟩ : ∃ dev, ns = 1000000000 + dev := ⟨ns - 1000000000, by omega⟩
  by_cases hd : dev.natAbs < 1000000
  · have hlevel := h.trackFreq (show (dev * 1000).natAbs ≤ 999999000 by omega)
    rw [updateFreq_default h.config hd] at hb ⊢
    split_ifs at hb ⊢ with hq hs hg
    · exact ⟨hb, h.level⟩
    · exact ⟨hb, by simp only; omega⟩
    · exact h
    · exact ⟨hb, hlevel⟩
  · rw [updateFreq_gatedSane h.config hd]
    exact h

theorem EstimatorRange.updateFreq (h : EstimatorRange k c) (hk : k + 1 < 4294967296) (ns : Int) :
    EstimatorRange (k + 1) (c.updateFreq ns).2 := by
  have hl := h.toLevelBounds.updateFreq ns
  have hsamples := h.samples
  obtain ⟨dev, rfl⟩ : ∃ dev, ns = 1000000000 + dev := ⟨ns - 1000000000, by omega⟩
  by_cases hd : dev.natAbs < 1000000
  · rw [updateFreq_default h.config hd] at hl ⊢
    split_ifs at hl ⊢ with hq hs hg
    · exact ⟨hl, h.idle, Nat.le_succ_of_le h.samples⟩
    · exact ⟨hl, fun _ => h.idle (by omega), by simp only; omega⟩
    · exact h.mono (Nat.le_succ k)
    · have hmod : (c.samples + 1) % 4294967296 = c.samples + 1 := Nat.mod_eq_of_lt (by omega)
      refine ⟨hl, fun hs8 => ?_, ?_⟩
      · simp only [hmod] at hs8
        rw [trackFreq_converging h.config (by omega)]
        exact h.idle (by omega)
      · simp only [hmod]
        omega
  · rw [updateFreq_gatedSane h.config hd]
    exact h.mono (Nat.le_succ k)

theorem LevelBounds.startQuarantine (h : LevelBounds c) : LevelBounds c.startQuarantine := by
  have hb := startQuarantine_bounds h.toEstimatorBounds
  by_cases hs : c.samples = 0
  · rw [DisciplinedClock.startQuarantine, if_neg (by omega)]
    exact h
  · rw [startQuarantine_default h.config hs] at hb ⊢
    exact ⟨hb, h.level⟩

theorem EstimatorRange.startQuarantine (h : EstimatorRange k c) :
    EstimatorRange k c.startQuarantine := by
  have hl := h.toLevelBounds.startQuarantine
  by_cases hs : c.samples = 0
  · rw [DisciplinedClock.startQuarantine, if_neg (by omega)]
    exact h
  · rw [startQuarantine_default h.config hs] at hl ⊢
    exact ⟨hl, h.idle, h.samples⟩

/-- A clock that shows the same estimate and configuration. -/
theorem EstimatorRange.same (h : EstimatorRange k c) (hconfig : c'.config = c.config)
    (hlevel : c'.freqMppb = c.freqMppb) (hslope : c'.freqSlopeMppb = c.freqSlopeMppb)
    (hsamples : c'.samples = c.samples) (hquarantine : c'.quarantine = c.quarantine) :
    EstimatorRange k c' := by
  refine ⟨⟨⟨?_, ?_, ?_⟩, ?_⟩, ?_, ?_⟩
  · rw [hconfig, h.config]
  · rw [hslope]
    exact h.slope
  · rw [hquarantine]
    exact h.quarantine
  · rw [hlevel]
    exact h.level
  · rw [hsamples, hslope]
    exact h.idle
  · rw [hsamples]
    exact h.samples

theorem EstimatorRange.updateTemp (h : EstimatorRange k c) (temp : Int) :
    EstimatorRange k (c.updateTemp temp) := by
  unfold DisciplinedClock.updateTemp
  split <;> exact h.same rfl rfl rfl rfl rfl

theorem LevelBounds.handle (h : LevelBounds c) (hx : ClockCall.disciplines x = true) :
    LevelBounds (c.handle x).2 := by
  cases x with
  | updateFreq ns =>
    rw [Mealy.next_eq (c.handle_updateFreq ns)]
    exact h.updateFreq ns
  | startQuarantine => exact h.startQuarantine
  | updateEpoch => exact ⟨⟨h.config, h.slope, h.quarantine⟩, h.level⟩
  | updateTemp | setTempFfEnable | setTempFfParams | setTempFfLag => cases hx

/-- The clocks that some calls lead to from the default configuration. -/
def DisciplinedClock.Reachable (c : DisciplinedClock) : Prop :=
  ∃ calls, Mealy.final DisciplinedClock.handle .new calls = c

namespace DisciplinedClock

theorem Reachable.handle (h : Reachable c) (x : ClockCall) : Reachable (c.handle x).2 := by
  obtain ⟨calls, rfl⟩ := h
  exact ⟨calls ++ [x], Mealy.final_concat _ _ _ x⟩

/-- Leaving the temperature out leaves a clock that looks the same and keeps its bounds. -/
theorem Reachable.disciplined (h : Reachable c) : ∃ d, c.blind = d.blind ∧ LevelBounds d := by
  obtain ⟨calls, rfl⟩ := h
  have hfilter : calls.filter ClockCall.disciplines =
      (calls.filter ClockCall.disciplines).filter ClockCall.disciplines := by
    rw [List.filter_filter]
    simp only [Bool.and_self]
  obtain ⟨-, hblind⟩ := unwinding.sameVisible (rfl : new.blind = new.blind) hfilter
  have hbounds : LevelBounds (Mealy.final DisciplinedClock.handle new
      (calls.filter ClockCall.disciplines)) :=
    Mealy.final_invariant (P := LevelBounds) (fun _ _ => LevelBounds.handle) LevelBounds.new
      fun x hx => (List.mem_filter.1 hx).2
  exact ⟨_, hblind, hbounds⟩

theorem Reachable.estimate (h : Reachable c) :
    c.freqMppb.natAbs ≤ 1000154000 ∧ c.freqSlopeMppb.natAbs ≤ 5000 := by
  obtain ⟨d, hblind, hbounds⟩ := h.disciplined
  have hlevel : c.blind.freqMppb = d.blind.freqMppb := by rw [hblind]
  have hslope : c.blind.freqSlopeMppb = d.blind.freqSlopeMppb := by rw [hblind]
  change c.freqMppb = d.freqMppb at hlevel
  change c.freqSlopeMppb = d.freqSlopeMppb at hslope
  rw [hlevel, hslope]
  exact ⟨hbounds.level, hbounds.slope⟩

end DisciplinedClock

/-- The calls that leave the feedforward's tuning alone, with intervals well inside a word. -/
def ClockCall.Admitted : ClockCall → Prop
  | updateFreq ns => ns.natAbs ≤ 4611686018427387904
  | startQuarantine => True
  | updateEpoch .. => True
  | updateTemp _ => True
  | _ => False

theorem EstimatorRange.handle (h : EstimatorRange k c) (hk : k + 1 < 4294967296)
    (hx : ClockCall.Admitted x) : EstimatorRange (k + 1) (c.handle x).2 := by
  cases x with
  | updateFreq ns =>
    rw [Mealy.next_eq (c.handle_updateFreq ns)]
    exact h.updateFreq hk ns
  | startQuarantine => exact h.startQuarantine.mono (Nat.le_succ k)
  | updateEpoch captureNs queryNs unixNs =>
    have hsame : EstimatorRange k (c.updateEpoch captureNs queryNs unixNs) :=
      h.same rfl rfl rfl rfl rfl
    exact hsame.mono (Nat.le_succ k)
  | updateTemp temp => exact (h.updateTemp temp).mono (Nat.le_succ k)
  | setTempFfEnable | setTempFfParams | setTempFfLag => cases hx

theorem EstimatorRange.final (h : EstimatorRange k c) (xs : List ClockCall)
    (hxs : ∀ x ∈ xs, x.Admitted) (hk : k + xs.length < 4294967296) :
    EstimatorRange (k + xs.length) (Mealy.final DisciplinedClock.handle c xs) := by
  induction xs generalizing k c with
  | nil => exact h
  | cons x xs ih =>
    rw [List.length_cons] at hk
    have hstep := h.handle (by omega) (hxs x (List.mem_cons_self ..))
    have hrest := ih hstep (fun y hy => hxs y (List.mem_cons_of_mem x hy)) (by omega)
    rw [List.length_cons, Mealy.final_cons, show k + (xs.length + 1) = k + 1 + xs.length by omega]
    exact hrest

theorem predictedFreqMppb_default (hc : c.config = .default) :
    c.predictedFreqMppb = c.freqMppb + c.freqSlopeMppb := by
  simp only [DisciplinedClock.predictedFreqMppb, hc, DisciplinedClockConfig.default,
    Bool.false_and, Bool.false_eq_true, ↓reduceIte, Int.mul_one]

/-- The slope stays so small that the steering clamp never acts on it. -/
theorem EstimatorBounds.steering (h : EstimatorBounds c) :
    c.steeringFreqMppb = c.predictedFreqMppb := by
  have hslope := h.slope
  have hclamp : clamp c.freqSlopeMppb (-100000) 100000 = c.freqSlopeMppb :=
    clamp_of_mem (by omega) (by omega)
  have hdelta : c.freqMppb + c.freqSlopeMppb - c.freqMppb = c.freqSlopeMppb := by omega
  simp only [DisciplinedClock.steeringFreqMppb, predictedFreqMppb_default h.config, h.config,
    DisciplinedClockConfig.default, hdelta, hclamp]

theorem LevelBounds.qualityGatedChecked (h : LevelBounds c) (hd : dev.natAbs < 1000000) :
    c.qualityGatedChecked dev (dev * 1000) = some (c.qualityGated dev) := by
  have hlevel := h.level
  have hslope := h.slope
  by_cases hl : c.isLocked = true
  · have hgate : asI64 c.config.residualGateNs.get * 1000 = 5000000 := by
      rw [h.config]
      decide
    have hwiden : c.config.residualSlopeWiden = 8 := by
      rw [h.config]
      rfl
    rw [DisciplinedClock.qualityGatedChecked, DisciplinedClock.qualityGated, if_pos hl, if_pos hl,
      hgate, hwiden]
    rw [checked_bind (by decide), checked_bind_of_natAbs_lt (by omega),
      checked_bind_of_natAbs_lt (by omega), checked_bind_of_natAbs_lt (by omega),
      checked_bind_of_natAbs_lt (by omega), checked_bind_of_natAbs_lt (by omega)]
  · rw [DisciplinedClock.qualityGatedChecked, DisciplinedClock.qualityGated, if_neg hl, if_neg hl,
      checked_bind_of_natAbs_lt (by omega)]

theorem LevelBounds.trackSlopeChecked (h : LevelBounds c) (hr : resid.natAbs < 4000000000) :
    ∃ slope, c.trackSlopeChecked resid = some slope := by
  have hslope := h.slope
  by_cases hl : c.isLocked = true
  · have hshift : resid >>> (9 : Nat) = resid / 512 := shiftRight_eq_div resid 9
    rw [DisciplinedClock.trackSlopeChecked, if_pos hl, checked_bind_of_natAbs_lt (by omega)]
    split
    · rw [h.config]
      change ∃ slope, (checked (c.freqSlopeMppb + resid >>> (9 : Nat)) >>= fun slope =>
        checked (-5000) >>= fun lo => some (clamp slope lo 5000)) = some slope
      rw [hshift, checked_bind_of_natAbs_lt (by omega), checked_bind (by decide)]
      exact ⟨_, rfl⟩
    · exact ⟨_, rfl⟩
  · rw [DisciplinedClock.trackSlopeChecked, if_neg hl]
    exact ⟨_, rfl⟩

theorem LevelBounds.trackFreqChecked (h : LevelBounds c) (hm : m.natAbs ≤ 999999000) :
    c.trackFreqChecked m = some (c.trackFreq m) := by
  have hlevel := h.level
  have hslope := h.slope
  have hshift : ((m - (c.freqMppb + c.freqSlopeMppb)) >>>
      min (if c.isLocked = true then c.config.emaShift else c.config.emaShiftFast) 63).natAbs <
      4000000000 := by
    have h3 (x : Int) : x >>> (3 : Nat) = x / 8 := shiftRight_eq_div x 3
    have h5 (x : Int) : x >>> (5 : Nat) = x / 32 := shiftRight_eq_div x 5
    rw [h.config]
    split
    · change ((m - (c.freqMppb + c.freqSlopeMppb)) >>> (5 : Nat)).natAbs < 4000000000
      rw [h5]
      omega
    · change ((m - (c.freqMppb + c.freqSlopeMppb)) >>> (3 : Nat)).natAbs < 4000000000
      rw [h3]
      omega
  have hresid : (m - (c.freqMppb + c.freqSlopeMppb)).natAbs < 4000000000 := by omega
  obtain ⟨slope, hs⟩ := h.trackSlopeChecked hresid
  have hrun : c.trackFreqChecked m = some { c with
      freqMppb := c.freqMppb + c.freqSlopeMppb + (m - (c.freqMppb + c.freqSlopeMppb)) >>>
        min (if c.isLocked = true then c.config.emaShift else c.config.emaShiftFast) 63
      freqSlopeMppb := slope } := by
    rw [DisciplinedClock.trackFreqChecked, checked_bind_of_natAbs_lt (by omega),
      checked_bind_of_natAbs_lt (by omega), checked_bind_of_natAbs_lt (by omega), hs]
    rfl
  rw [DisciplinedClock.trackFreq_of_checked hrun, hrun]

/-- Nothing in the update overflows, whatever interval is measured. -/
theorem LevelBounds.updateFreqChecked (h : LevelBounds c)
    (hns : ns.natAbs ≤ 4611686018427387904) :
    c.updateFreqChecked ns = some (c.updateFreq ns) := by
  obtain ⟨u, c', hstep⟩ := DisciplinedClock.FreqStep.exists c ns
  rw [hstep.eq, DisciplinedClock.updateFreqChecked, checked_bind_of_natAbs_lt (by omega),
    checked_bind_of_natAbs_lt (by omega)]
  have hsaneDev : asI64 c.config.saneDevNs.get = 1000000 := by
    rw [h.config]
    decide
  cases hstep with
  | gatedSane hsane => rw [if_pos hsane]
  | quarantined hsane hq => rw [if_neg hsane, if_pos hq]
  | first hsane hq hs =>
    rw [if_neg hsane, if_neg hq, checked_bind_of_natAbs_lt (by omega), if_pos hs]
  | gatedQuality hsane hq hs hg =>
    rw [if_neg hsane, if_neg hq, checked_bind_of_natAbs_lt (by omega), if_neg hs,
      h.qualityGatedChecked (by omega), hg]
    rfl
  | @tracked c' hsane hq hs hg htrack =>
    have hconfig : (c.trackFreq ((ns - 1000000000) * 1000)).config = .default := h.config
    have hoff : (c.trackFreq ((ns - 1000000000) * 1000)).trackTempChecked
        ((ns - 1000000000) * 1000) = some (c.trackFreq ((ns - 1000000000) * 1000)) := by
      rw [DisciplinedClock.trackTempChecked, hconfig]
      rfl
    rw [trackTemp_default hconfig] at htrack
    rw [if_neg hsane, if_neg hq, checked_bind_of_natAbs_lt (by omega), if_neg hs,
      h.qualityGatedChecked (by omega), Bool.eq_false_of_not_eq_true hg,
      h.trackFreqChecked (by omega), htrack]
    change ((c.trackFreq ((ns - 1000000000) * 1000)).trackTempChecked
      ((ns - 1000000000) * 1000)).bind _ = _
    rw [hoff]
    rfl

/-- The range of every reachable estimate, in which the update cannot overflow. -/
theorem estimator_in_range (calls : List ClockCall) (hcalls : ∀ x ∈ calls, x.Admitted)
    (hlen : calls.length < 4294967296) :
    let c := Mealy.final DisciplinedClock.handle .new calls
    c.freqSlopeMppb.natAbs ≤ 5000 ∧
      (c.isLocked = false → c.freqSlopeMppb = 0) ∧
      c.quarantine ≤ 5 ∧
      c.freqMppb.natAbs ≤ 1000154000 ∧
      c.steeringFreqMppb = c.predictedFreqMppb ∧
      ∀ ns : Int, ns.natAbs ≤ 4611686018427387904 →
        c.updateFreqChecked ns = some (c.updateFreq ns) := by
  intro c
  have h : EstimatorRange (0 + calls.length) c :=
    EstimatorRange.new.final calls hcalls (by omega)
  refine ⟨h.slope, fun hl => h.idle ?_, h.quarantine, h.level, h.steering,
    fun ns hns => h.updateFreqChecked hns⟩
  rw [isLocked_default h.config, decide_eq_false_iff_not] at hl
  omega

theorem slow_crystal_in_range :
    (Mealy.final DisciplinedClock.handle .new
      [.updateTemp 20, .updateFreq 999001001, .updateFreq 1000000000]).freqMppb.natAbs ≤
        1000154000 := by
  have h := estimator_in_range [.updateTemp 20, .updateFreq 999001001, .updateFreq 1000000000]
    (by simp [ClockCall.Admitted]) (by decide)
  exact h.2.2.2.1

end PicoGnss
