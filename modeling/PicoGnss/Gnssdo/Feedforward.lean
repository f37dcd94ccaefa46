import PicoGnss.Gnssdo.Exact
import PicoGnss.Gnssdo.Range
import PicoGnss.Lib.Rounding

/-! How far the states of the temperature feedforward can go. -/

namespace PicoGnss
open FixedWidth Rounding
set_option autoImplicit true

namespace DisciplinedClock

/-- A fresh default clock whose feedforward is on. -/
def heated : DisciplinedClock := new.setTempFfEnable true

/-- What the regression is left with of the temperature and of the frequency of a sample, once
their means have moved. -/
def tempResid (c : DisciplinedClock) : Int :=
  c.tempSm - c.tempMt - (c.tempSm - c.tempMt) / 128

def freqResid (c : DisciplinedClock) (m : Int) : Int :=
  m - c.tempMfMppb - (m - c.tempMfMppb) / 128

/-- The sample moves the covariance, where it will be shifted, to more than 55 bits. -/
def CovOverruns (c : DisciplinedClock) (m : Int) : Prop :=
  128 ≤ 127 * c.tempVar + c.tempResid * c.tempResid ∧
    ¬(-4611686018427387904 ≤ 127 * c.tempCov + c.tempResid * c.freqResid m ∧
      127 * c.tempCov + c.tempResid * c.freqResid m < 4611686018427387904)

instance (c : DisciplinedClock) (m : Int) : Decidable (c.CovOverruns m) := by
  unfold CovOverruns
  infer_instance

/-- The sample is one that the regression of a locked clock takes, and overruns its covariance. -/
structure Overruns (c : DisciplinedClock) (ns : Int) : Prop where
  sane : (ns - 1000000000).natAbs < 1000000
  unquarantined : c.quarantine = 0
  locked : c.isLocked = true
  read : c.tempHave = true
  accepted : c.qualityGated (ns - 1000000000) = false
  cov : c.CovOverruns ((ns - 1000000000) * 1000)

end DisciplinedClock

/-- The states of the feedforward, for readings up to `1048320` in 1/256 units. -/
structure ThermalBounds (c : DisciplinedClock) : Prop where
  tempSm : 0 ≤ c.tempSm ∧ c.tempSm ≤ 268369920
  tempMt : 0 ≤ c.tempMt ∧ c.tempMt ≤ 268369920
  tempRef : 0 ≤ c.tempRef ∧ c.tempRef ≤ 268369920
  tempDieLp : 0 ≤ c.tempDieLp ∧ c.tempDieLp ≤ 268369920
  tempDiePrev : 0 ≤ c.tempDiePrev ∧ c.tempDiePrev ≤ 268369920
  tempDlead : -268369920 ≤ c.tempDlead ∧ c.tempDlead ≤ 268369920
  tcrysHat : -16384 ≤ c.tcrysHat ∧ c.tcrysHat ≤ 268386304
  tempMf : -1000154000 ≤ c.tempMfMppb ∧ c.tempMfMppb ≤ 1000154000
  tempCov : -540000000000000000 ≤ c.tempCov ∧ c.tempCov ≤ 540000000000000000
  tempVar : 0 ≤ c.tempVar ∧ c.tempVar ≤ 80000000000000000
  rResid : -110000000000 ≤ c.rResid ∧ c.rResid ≤ 110000000000

structure ThermalRange (c : DisciplinedClock) : Prop extends ThermalBounds c where
  config : c.config = DisciplinedClock.heated.config
  reachable : c.Reachable

/-- The covariance can be shifted wherever a quotient is taken. -/
def CovFits (c : DisciplinedClock) : Prop := 0 < c.tempVar → InI64 (c.tempCov * 256)

variable {c : DisciplinedClock}

theorem DisciplinedClock.trackFreqChecked_setTempFfEnable (c : DisciplinedClock) (en : Bool)
    (m : Int) : (c.setTempFfEnable en).trackFreqChecked m =
      (c.trackFreqChecked m).map (·.setTempFfEnable en) := by
  simp only [trackFreqChecked, Option.bind_eq_bind, Option.map_bind, Function.comp_def,
    Option.map_some]
  rfl

namespace ThermalRange

theorem heated : ThermalRange DisciplinedClock.heated where
  config := rfl
  reachable := ⟨[.setTempFfEnable true], rfl⟩
  tempSm := by decide
  tempMt := by decide
  tempRef := by decide
  tempDieLp := by decide
  tempDiePrev := by decide
  tempDlead := by decide
  tcrysHat := by decide
  tempMf := by decide
  tempCov := by decide
  tempVar := by decide
  rResid := by decide

/-- The estimator does not see that the feedforward is on. -/
theorem cold (h : ThermalRange c) : LevelBounds (c.setTempFfEnable false) := by
  obtain ⟨d, hblind, hbounds⟩ := h.reachable.disciplined
  have hlevel : c.blind.freqMppb = d.blind.freqMppb := congrArg DisciplinedClock.freqMppb hblind
  change c.freqMppb = d.freqMppb at hlevel
  have hslope : c.blind.freqSlopeMppb = d.blind.freqSlopeMppb :=
    congrArg DisciplinedClock.freqSlopeMppb hblind
  change c.freqSlopeMppb = d.freqSlopeMppb at hslope
  have hquarantine : c.blind.quarantine = d.blind.quarantine :=
    congrArg DisciplinedClock.quarantine hblind
  change c.quarantine = d.quarantine at hquarantine
  refine ⟨⟨?_, ?_, ?_⟩, ?_⟩
  · change { c.config with tempFfEnable := false } = _
    rw [h.config]
    rfl
  · change c.freqSlopeMppb.natAbs ≤ 5000
    rw [hslope]
    exact hbounds.slope
  · change c.quarantine ≤ 5
    rw [hquarantine]
    exact hbounds.quarantine
  · change c.freqMppb.natAbs ≤ 1000154000
    rw [hlevel]
    exact hbounds.level

theorem qualityGatedChecked (h : ThermalRange c) (hd : dev.natAbs < 1000000) :
    c.qualityGatedChecked dev (dev * 1000) = some (c.qualityGated dev) :=
  h.cold.qualityGatedChecked hd

theorem trackFreqChecked (h : ThermalRange c) (hm : m.natAbs ≤ 999999000) :
    c.trackFreqChecked m = some (c.trackFreq m) := by
  have hcold := h.cold.trackFreqChecked hm
  rw [DisciplinedClock.trackFreqChecked_setTempFfEnable] at hcold
  obtain ⟨c', hc', -⟩ := Option.map_eq_some_iff.1 hcold
  rw [DisciplinedClock.trackFreq_of_checked hc', hc']

/-- Where a reading takes what is smoothed of the temperatures. -/
theorem smoothed (h : ThermalRange c) (ht : 0 ≤ tFp ∧ tFp ≤ 268369920) :
    let s := min c.config.tempFfSmShift 30
    let sm := c.tempSm + (tFp - c.tempSm) >>> s
    let lp := c.tempDieLp + (tFp - c.tempDieLp) >>> s
    let dlead := c.tempDlead +
      (lp - c.tempDiePrev - c.tempDlead) >>> min c.config.tempFfDleadShift 63
    (0 ≤ sm ∧ sm ≤ 268369920) ∧ (0 ≤ lp ∧ lp ≤ 268369920) ∧
      -268369920 ≤ dlead ∧ dlead ≤ 268369920 := by
  intro s sm lp dlead
  have hprev := h.tempDiePrev
  have hlp : 0 ≤ lp ∧ lp ≤ 268369920 := mean_mem h.tempDieLp ht s
  exact ⟨mean_mem h.tempSm ht s, hlp, mean_mem h.tempDlead (by omega) _⟩

theorem updateTempExact (h : ThermalRange c) (hlow : 0 ≤ temp) (hhigh : temp ≤ 1048320) :
    c.updateTempExact temp = some (c.updateTemp temp) := by
  have hwrap : wrap64 (temp * 256) = temp * 256 := wrap64_of_natAbs_lt (by omega)
  have hbound : c.config.tempFfLeadClampRaw * 256 = 16384 := by
    rw [h.config]
    rfl
  have hlag : c.config.tempFfLagQ8 = 1536 := by
    rw [h.config]
    rfl
  have htFp : 0 ≤ temp * 256 ∧ temp * 256 ≤ 268369920 := by omega
  obtain ⟨hsm, hlp, hlead⟩ := h.smoothed htFp
  have hprev := h.tempDiePrev
  have hsm₀ := h.tempSm
  have hlp₀ := h.tempDieLp
  have hlead₀ := h.tempDlead
  have hshift (x : Int) : x >>> (8 : Nat) = x / 256 := shiftRight_eq_div x 8
  rw [DisciplinedClock.updateTempExact, DisciplinedClock.updateTemp, hwrap, hbound, hlag,
    checked_bind_of_natAbs_lt (by omega)]
  split
  · rw [checked_bind_of_natAbs_lt (by omega), checked_bind_of_natAbs_lt (by omega),
      checked_bind_of_natAbs_lt (by omega), checked_bind_of_natAbs_lt (by omega),
      checked_bind_of_natAbs_lt (by omega), checked_bind_of_natAbs_lt (by omega),
      checked_bind_of_natAbs_lt (by omega), checked_bind_of_natAbs_lt (by omega),
      checked_bind (by decide), checked_bind (by unfold InI64; rw [hshift]; omega),
      checked_bind_of_natAbs_lt (by omega), checked_bind_of_natAbs_lt (by omega)]
    rfl
  · rfl

theorem updateTemp (h : ThermalRange c) (hlow : 0 ≤ temp) (hhigh : temp ≤ 1048320) :
    ThermalRange (c.updateTemp temp) := by
  have hreach : (c.updateTemp temp).Reachable := h.reachable.handle (.updateTemp temp)
  have hwrap : wrap64 (temp * 256) = temp * 256 := wrap64_of_natAbs_lt (by omega)
  have hlevel := h.reachable.estimate.1
  have htFp : 0 ≤ temp * 256 ∧ temp * 256 ≤ 268369920 := by omega
  obtain ⟨hsm, hlp, hlead⟩ := h.smoothed htFp
  have hbound : wrap64 (c.config.tempFfLeadClampRaw * 256) = 16384 := by
    rw [h.config]
    rfl
  rw [DisciplinedClock.updateTemp, hwrap, hbound] at hreach ⊢
  by_cases hhave : c.tempHave = true
  · rw [if_pos hhave] at hreach ⊢
    refine ⟨⟨hsm, h.tempMt, h.tempRef, hlp, hlp, hlead, ?_, h.tempMf, h.tempCov, h.tempVar,
      h.rResid⟩, h.config, hreach⟩
    dsimp only
    unfold clamp
    omega
  · have hzero : -268369920 ≤ (0 : Int) ∧ (0 : Int) ≤ 268369920 := by decide
    rw [if_neg hhave] at hreach ⊢
    exact ⟨⟨htFp, htFp, htFp, htFp, htFp, hzero, by dsimp only; omega, by dsimp only; omega,
      h.tempCov, h.tempVar, h.rResid⟩, h.config, hreach⟩

end ThermalRange

namespace DisciplinedClock

/-- The regression after a sample, before the observer. -/
def regressed (c : DisciplinedClock) (m : Int) : DisciplinedClock :=
  { c with
    tempMt := c.tempMt + (c.tempSm - c.tempMt) / 128
    tempMfMppb := c.tempMfMppb + (m - c.tempMfMppb) / 128
    tempCov := c.tempCov + (c.tempResid * c.freqResid m - c.tempCov) / 128
    tempVar := c.tempVar + (c.tempResid * c.tempResid - c.tempVar) / 128 }

/-- The observer after a sample that the feedforward explains by `ff`. -/
def observed (c : DisciplinedClock) (m ff : Int) : DisciplinedClock :=
  { c with rResid := c.rResid + (m - ff - c.rResid) / 4 }

theorem tempResid_eq (c : DisciplinedClock) :
    c.tempSm - (c.tempMt + (c.tempSm - c.tempMt) / 128) = c.tempResid := by
  unfold tempResid
  omega

theorem freqResid_eq (c : DisciplinedClock) (m : Int) :
    m - (c.tempMfMppb + (m - c.tempMfMppb) / 128) = c.freqResid m := by
  unfold freqResid
  omega

theorem heated_shifts (hc : c.config = heated.config) :
    min c.config.tempFfShift 30 = 7 ∧ min c.config.residObsShift 63 = 2 := by
  rw [hc]
  exact ⟨rfl, rfl⟩

theorem heated_tempKClampMppb (hc : c.config = heated.config) :
    c.config.tempKClampMppb = 100000 := by
  rw [hc]
  rfl

/-- With the feedforward on, the regression takes the samples of a locked clock that has seen a
temperature. -/
theorem takesTemp_iff (hc : c.config = heated.config) :
    (c.config.tempFfEnable && c.tempHave && c.isLocked) = true ↔
      c.tempHave = true ∧ c.isLocked = true := by
  have henable : c.config.tempFfEnable = true := by
    rw [hc]
    rfl
  rw [henable, Bool.true_and, Bool.and_eq_true]

theorem trackTemp_heated (hc : c.config = heated.config) (hhave : c.tempHave = true)
    (hlocked : c.isLocked = true) (m : Int) :
    c.trackTemp m = (c.regressed m).observed m ((c.regressed m).tempFfMppb c.tcrysHat) := by
  obtain ⟨hs, hobs⟩ := heated_shifts hc
  have h7 (x : Int) : x >>> (7 : Nat) = x / 128 := shiftRight_eq_div x 7
  have h2 (x : Int) : x >>> (2 : Nat) = x / 4 := shiftRight_eq_div x 2
  rw [trackTemp, if_pos ((takesTemp_iff hc).2 ⟨hhave, hlocked⟩)]
  simp only [hs, hobs, h7, h2, c.tempResid_eq, c.freqResid_eq]
  rfl

theorem tempKMppbPerUnitExact_of_fits (h : CovFits c) :
    c.tempKMppbPerUnitExact = some c.tempKMppbPerUnit := by
  rw [tempKMppbPerUnitExact, tempKMppbPerUnit]
  split
  · rename_i hvar
    have hfits := h hvar
    have hquot : InI64 ((c.tempCov * 256).tdiv c.tempVar) := by
      unfold InI64 at hfits ⊢
      exact ⟨le_tdiv hvar (by omega), tdiv_le hvar (by omega)⟩
    rw [checked_bind hfits, checked_of_inI64 hquot, wrap64_of_inI64 hfits]
  · rfl

theorem tempKMppbPerUnitExact_of_not_fits (h : ¬CovFits c) : c.tempKMppbPerUnitExact = none := by
  obtain ⟨hvar, hwide⟩ := Classical.not_imp.1 h
  rw [tempKMppbPerUnitExact, if_pos hvar, checked, if_neg hwide]
  rfl

/-- However wrong the quotient is, the clamp on it keeps the feedforward small. -/
theorem feedforward_natAbs_le (h : ThermalBounds c) (slope : Int) :
    (clamp slope (-100000) 100000 * (c.tcrysHat - c.tempRef)).natAbs ≤ 100000 * 268386304 ∧
      ((clamp slope (-100000) 100000 * (c.tcrysHat - c.tempRef)).tdiv 256).natAbs ≤
        104840000000 := by
  have htcrys := h.tcrysHat
  have href := h.tempRef
  have hk := natAbs_clamp_le slope (by decide : (0 : Int) ≤ 100000)
  have hdt : (c.tcrysHat - c.tempRef).natAbs ≤ 268386304 := by omega
  have hproduct := natAbs_mul_le (by omega : (clamp slope (-100000) 100000).natAbs ≤ 100000) hdt
  have hquot := natAbs_tdiv_le hproduct (by decide : 0 < 256)
    (by decide : ((256 : Nat) : Int) ≤ 256)
  exact ⟨hproduct, by omega⟩

theorem tempFfMppb_heated (h : ThermalBounds c) (hc : c.config = heated.config) :
    c.tempFfMppb c.tcrysHat = if c.tempVar ≤ 0 then 0 else
      (clamp c.tempKMppbPerUnit (-100000) 100000 * (c.tcrysHat - c.tempRef)).tdiv 256 := by
  have hff := (feedforward_natAbs_le h c.tempKMppbPerUnit).2
  rw [tempFfMppb, heated_tempKClampMppb hc, wrap64_of_natAbs_lt (by omega)]

theorem tempFfMppb_natAbs_le (h : ThermalBounds c) (hc : c.config = heated.config) :
    (c.tempFfMppb c.tcrysHat).natAbs ≤ 104840000000 := by
  rw [tempFfMppb_heated h hc]
  split
  · exact Nat.zero_le _
  · exact (feedforward_natAbs_le h _).2

theorem tempFfMppbExact_of_fits (h : ThermalBounds c) (hc : c.config = heated.config)
    (hfits : CovFits c) : c.tempFfMppbExact c.tcrysHat = some (c.tempFfMppb c.tcrysHat) := by
  obtain ⟨hproduct, hquot⟩ := feedforward_natAbs_le h c.tempKMppbPerUnit
  have htcrys := h.tcrysHat
  have href := h.tempRef
  rw [tempFfMppbExact, tempFfMppb_heated h hc, heated_tempKClampMppb hc]
  split
  · rfl
  · rw [checked_bind (by decide), tempKMppbPerUnitExact_of_fits hfits]
    change (checked (c.tcrysHat - c.tempRef) >>= fun dt =>
      checked128 (clamp c.tempKMppbPerUnit (-100000) 100000 * dt) >>= fun kDt =>
        checked (kDt.tdiv 256)) = _
    rw [checked_bind_of_natAbs_lt (by omega), checked128_bind (by unfold InI128; omega),
      checked_of_natAbs_lt (by omega)]

theorem tempFfMppbExact_of_not_fits (hc : c.config = heated.config) (h : ¬CovFits c) (t : Int) :
    c.tempFfMppbExact t = none := by
  obtain ⟨hvar, -⟩ := Classical.not_imp.1 h
  rw [tempFfMppbExact, if_neg (Int.not_le.2 hvar), heated_tempKClampMppb hc,
    checked_bind (by decide), tempKMppbPerUnitExact_of_not_fits h]
  rfl

theorem covFits_regressed_iff (c : DisciplinedClock) (m : Int) :
    CovFits (c.regressed m) ↔ ¬c.CovOverruns m := by
  unfold CovFits CovOverruns InI64
  change (0 < c.tempVar + (c.tempResid * c.tempResid - c.tempVar) / 128 →
    -9223372036854775808 ≤ (c.tempCov + (c.tempResid * c.freqResid m - c.tempCov) / 128) * 256 ∧
    (c.tempCov + (c.tempResid * c.freqResid m - c.tempCov) / 128) * 256 ≤ 9223372036854775807) ↔ _
  generalize c.tempResid * c.tempResid = q
  generalize c.tempResid * c.freqResid m = p
  omega

theorem resid_bounds (h : ThermalBounds c) (hm : m.natAbs ≤ 999999000) :
    c.tempResid.natAbs ≤ 268369920 ∧ (c.freqResid m).natAbs ≤ 2000153000 ∧
      (c.tempResid * c.freqResid m).natAbs ≤ 540000000000000000 ∧
      0 ≤ c.tempResid * c.tempResid ∧ c.tempResid * c.tempResid ≤ 80000000000000000 := by
  have hsm := h.tempSm
  have hmt := h.tempMt
  have hmf := h.tempMf
  have hdt : c.tempResid.natAbs ≤ 268369920 := by
    unfold tempResid
    omega
  have hdf : (c.freqResid m).natAbs ≤ 2000153000 := by
    unfold freqResid
    omega
  have hproduct := natAbs_mul_le hdt hdf
  have hsquare := natAbs_mul_le hdt hdt
  exact ⟨hdt, hdf, by omega, mul_self_nonneg _, by omega⟩

theorem regressed_bounds (h : ThermalBounds c) (hm : m.natAbs ≤ 999999000) :
    ThermalBounds (c.regressed m) := by
  obtain ⟨-, -, hproduct, hsquare⟩ := resid_bounds h hm
  have hmt := mean_mem h.tempMt h.tempSm 7
  have hmf := mean_mem h.tempMf (by omega : -1000154000 ≤ m ∧ m ≤ 1000154000) 7
  have hcov := mean_mem h.tempCov (by omega : -540000000000000000 ≤ c.tempResid * c.freqResid m ∧
    c.tempResid * c.freqResid m ≤ 540000000000000000) 7
  have hvar := mean_mem h.tempVar hsquare 7
  rw [shiftRight_eq_div] at hmt hmf hcov hvar
  exact ⟨h.tempSm, hmt, h.tempRef, h.tempDieLp, h.tempDiePrev, h.tempDlead, h.tcrysHat, hmf, hcov,
    hvar, h.rResid⟩

theorem observed_bounds (h : ThermalBounds c) (hm : m.natAbs ≤ 999999000)
    (hff : ff.natAbs ≤ 104840000000) : ThermalBounds (c.observed m ff) := by
  have hresid := mean_mem h.rResid (t := m - ff) (by omega) 2
  rw [shiftRight_eq_div] at hresid
  exact ⟨h.tempSm, h.tempMt, h.tempRef, h.tempDieLp, h.tempDiePrev, h.tempDlead, h.tcrysHat,
    h.tempMf, h.tempCov, h.tempVar, hresid⟩

theorem trackTempExact_heated (h : ThermalBounds c) (hc : c.config = heated.config)
    (hhave : c.tempHave = true) (hlocked : c.isLocked = true) (hm : m.natAbs ≤ 999999000) :
    c.trackTempExact m = (c.regressed m).tempFfMppbExact c.tcrysHat >>= fun ff =>
      checked (m - ff) >>= fun unexplained => checked (unexplained - c.rResid) >>= fun innov =>
        checked (c.rResid + innov / 4) >>= fun resid =>
          some { c.regressed m with rResid := resid } := by
  obtain ⟨hdt₀, hdf₀, hcov₀, hvar₀⟩ := resid_bounds h hm
  have hsm := h.tempSm
  have hmt := h.tempMt
  have hmf := h.tempMf
  have hcov := h.tempCov
  have hvar := h.tempVar
  obtain ⟨hs, hobs⟩ := heated_shifts hc
  have h7 (x : Int) : x >>> (7 : Nat) = x / 128 := shiftRight_eq_div x 7
  have h2 (x : Int) : x >>> (2 : Nat) = x / 4 := shiftRight_eq_div x 2
  rw [trackTempExact, if_pos ((takesTemp_iff hc).2 ⟨hhave, hlocked⟩)]
  simp only [hs, hobs, h7, h2]
  rw [checked_bind_of_natAbs_lt (by omega), checked_bind_of_natAbs_lt (by omega),
    checked_bind_of_natAbs_lt (by omega), checked_bind_of_natAbs_lt (by omega),
    c.tempResid_eq, c.freqResid_eq,
    checked_bind_of_natAbs_lt (by omega), checked_bind_of_natAbs_lt (by omega),
    checked_bind_of_natAbs_lt (by omega), checked_bind_of_natAbs_lt (by omega),
    checked_bind_of_natAbs_lt (by omega), checked_bind_of_natAbs_lt (by omega),
    checked_bind_of_natAbs_lt (by omega), checked_bind_of_natAbs_lt (by omega)]
  rfl

theorem trackTemp_bounds (h : ThermalBounds c) (hc : c.config = heated.config)
    (hm : m.natAbs ≤ 999999000) : ThermalBounds (c.trackTemp m) := by
  by_cases hon : (c.config.tempFfEnable && c.tempHave && c.isLocked) = true
  · have hr := regressed_bounds h hm
    obtain ⟨hhave, hlocked⟩ := (takesTemp_iff hc).1 hon
    rw [trackTemp_heated hc hhave hlocked]
    exact observed_bounds hr hm (tempFfMppb_natAbs_le hr hc)
  · rw [trackTemp, if_neg hon]
    exact h

theorem trackTempExact_of_fits (h : ThermalBounds c) (hc : c.config = heated.config)
    (hhave : c.tempHave = true) (hlocked : c.isLocked = true) (hm : m.natAbs ≤ 999999000)
    (hfits : CovFits (c.regressed m)) : c.trackTempExact m = some (c.trackTemp m) := by
  have hr := regressed_bounds h hm
  have hff := tempFfMppb_natAbs_le hr hc
  have hresid := h.rResid
  have hexact : (c.regressed m).tempFfMppbExact c.tcrysHat =
      some ((c.regressed m).tempFfMppb c.tcrysHat) := tempFfMppbExact_of_fits hr hc hfits
  change ((c.regressed m).tempFfMppb c.tcrysHat).natAbs ≤ 104840000000 at hff
  rw [trackTempExact_heated h hc hhave hlocked hm, trackTemp_heated hc hhave hlocked, hexact]
  generalize (c.regressed m).tempFfMppb c.tcrysHat = ff at hff
  change (checked (m - ff) >>= fun unexplained => checked (unexplained - c.rResid) >>= fun innov =>
    checked (c.rResid + innov / 4) >>= fun resid =>
      some { c.regressed m with rResid := resid }) = _
  rw [checked_bind_of_natAbs_lt (by omega), checked_bind_of_natAbs_lt (by omega),
    checked_bind_of_natAbs_lt (by omega)]
  rfl

theorem trackTempExact_of_not_fits (h : ThermalBounds c) (hc : c.config = heated.config)
    (hhave : c.tempHave = true) (hlocked : c.isLocked = true) (hm : m.natAbs ≤ 999999000)
    (hfits : ¬CovFits (c.regressed m)) : c.trackTempExact m = none := by
  have hnone : (c.regressed m).tempFfMppbExact c.tcrysHat = none :=
    tempFfMppbExact_of_not_fits (c := c.regressed m) hc hfits _
  rw [trackTempExact_heated h hc hhave hlocked hm, hnone]
  rfl

/-- Only the shift of the covariance can lose anything. -/
theorem trackTempExact_eq (h : ThermalBounds c) (hc : c.config = heated.config)
    (hm : m.natAbs ≤ 999999000) : c.trackTempExact m =
      if c.tempHave = true ∧ c.isLocked = true ∧ c.CovOverruns m then none
      else some (c.trackTemp m) := by
  by_cases hon : c.tempHave = true ∧ c.isLocked = true
  · have hiff := covFits_regressed_iff c m
    by_cases hover : c.CovOverruns m
    · rw [if_pos ⟨hon.1, hon.2, hover⟩]
      exact trackTempExact_of_not_fits h hc hon.1 hon.2 hm fun hfits => hiff.1 hfits hover
    · rw [if_neg fun ho => hover ho.2.2]
      exact trackTempExact_of_fits h hc hon.1 hon.2 hm (hiff.2 hover)
  · have hoff := fun hall => hon ((takesTemp_iff hc).1 hall)
    rw [if_neg fun ho => hon ⟨ho.1, ho.2.1⟩, trackTempExact, trackTemp, if_neg hoff, if_neg hoff]

end DisciplinedClock

end PicoGnss
