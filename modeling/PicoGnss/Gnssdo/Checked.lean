import PicoGnss.Gnssdo.Clock

/-! The frequency update with a trap on every signed overflow. -/

namespace PicoGnss
open FixedWidth
set_option autoImplicit true

namespace DisciplinedClock

def tempFfMppbChecked (c : DisciplinedClock) (tcrysHatFp : Int) : Option Int :=
  if c.tempVar ≤ 0 then some 0
  else do
    let lo ← checked (-c.config.tempKClampMppb)
    let k := clamp c.tempKMppbPerUnit lo c.config.tempKClampMppb
    let dt ← checked (tcrysHatFp - c.tempRef)
    some (wrap64 ((k * dt).tdiv 256))

def qualityGatedChecked (c : DisciplinedClock) (dev measuredMppb : Int) : Option Bool :=
  if c.isLocked then do
    let residualGate ← checked (asI64 c.config.residualGateNs.get * 1000)
    let absSlope ← checked c.freqSlopeMppb.natAbs
    let widened ← checked (absSlope * c.config.residualSlopeWiden)
    let gate ← checked (residualGate + widened)
    let resid ← checked (measuredMppb - c.freqMppb)
    let absResid ← checked resid.natAbs
    some (decide (gate < absResid))
  else do
    let absDev ← checked dev.natAbs
    some (decide (asI64 c.config.convergeGateNs.get < absDev))

def trackSlopeChecked (c : DisciplinedClock) (resid : Int) : Option Int :=
  if c.isLocked then do
    let absResid ← checked resid.natAbs
    if absResid < c.config.slopeFreezeResidMppb then do
      let slope ← checked (c.freqSlopeMppb + resid >>> (min c.config.slopeEmaShift 63 : Nat))
      let lo ← checked (-c.config.slopeMaxMppb)
      some (clamp slope lo c.config.slopeMaxMppb)
    else some c.freqSlopeMppb
  else some c.freqSlopeMppb

def trackFreqChecked (c : DisciplinedClock) (measuredMppb : Int) : Option DisciplinedClock := do
  let levelShift := min (if c.isLocked then c.config.emaShift else c.config.emaShiftFast) 63
  let projected ← checked (c.freqMppb + c.freqSlopeMppb)
  let resid ← checked (measuredMppb - projected)
  let level ← checked (projected + resid >>> levelShift)
  let slope ← c.trackSlopeChecked resid
  some { c with freqMppb := level, freqSlopeMppb := slope }

def trackTempChecked (c : DisciplinedClock) (measuredMppb : Int) : Option DisciplinedClock :=
  if c.config.tempFfEnable && c.tempHave && c.isLocked then do
    let s := min c.config.tempFfShift 30
    let stepMt ← checked (c.tempSm - c.tempMt)
    let mt ← checked (c.tempMt + stepMt >>> s)
    let stepMf ← checked (measuredMppb - c.tempMfMppb)
    let mf ← checked (c.tempMfMppb + stepMf >>> s)
    let dt ← checked (c.tempSm - mt)
    let df ← checked (measuredMppb - mf)
    let dtDf ← checked (dt * df)
    let stepCov ← checked (dtDf - c.tempCov)
    let cov ← checked (c.tempCov + stepCov >>> s)
    let dtDt ← checked (dt * dt)
    let stepVar ← checked (dtDt - c.tempVar)
    let var ← checked (c.tempVar + stepVar >>> s)
    let c := { c with tempMt := mt, tempMfMppb := mf, tempCov := cov, tempVar := var }
    let ff ← c.tempFfMppbChecked c.tcrysHat
    let unexplained ← checked (measuredMppb - ff)
    let innov ← checked (unexplained - c.rResid)
    let resid ← checked (c.rResid + innov >>> (min c.config.residObsShift 63 : Nat))
    some { c with rResid := resid }
  else some c

def updateFreqChecked (c : DisciplinedClock) (intervalNs : Int) :
    Option (FreqUpdate × DisciplinedClock) := do
  let dev ← checked (intervalNs - 1000000000)
  let absDev ← checked dev.natAbs
  if asI64 c.config.saneDevNs.get ≤ absDev then some (.gatedSane, c)
  else if 0 < c.quarantine then some (.quarantined, { c with quarantine := c.quarantine - 1 })
  else do
    let measuredMppb ← checked (dev * 1000)
    if c.samples = 0 then some (.applied, { c with freqMppb := measuredMppb, samples := 1 })
    else do
      let gated ← c.qualityGatedChecked dev measuredMppb
      if gated then some (.gatedQuality, c)
      else do
        let tracked ← c.trackFreqChecked measuredMppb
        let tracked ← tracked.trackTempChecked measuredMppb
        some (.applied, { tracked with samples := (tracked.samples + 1) % 4294967296 })

theorem tempFfMppb_of_checked (h : tempFfMppbChecked c t = some f) : c.tempFfMppb t = f := by
  by_cases hvar : c.tempVar ≤ 0
  · rw [tempFfMppbChecked, if_pos hvar] at h
    rw [tempFfMppb, if_pos hvar]
    exact Option.some.inj h
  · rw [tempFfMppbChecked, if_neg hvar] at h
    iterate 2 replace h := of_checked_bind h
    rw [tempFfMppb, if_neg hvar]
    exact Option.some.inj h

theorem qualityGated_of_checked (h : qualityGatedChecked c dev (dev * 1000) = some gated) :
    c.qualityGated dev = gated := by
  by_cases hl : c.isLocked = true
  · rw [qualityGatedChecked, if_pos hl] at h
    iterate 6 replace h := of_checked_bind h
    rw [qualityGated, if_pos hl]
    exact Option.some.inj h
  · rw [qualityGatedChecked, if_neg hl] at h
    replace h := of_checked_bind h
    rw [qualityGated, if_neg hl]
    exact Option.some.inj h

theorem trackSlope_of_checked {slope : Int} (h : trackSlopeChecked c resid = some slope) :
    (if c.isLocked ∧ resid.natAbs < c.config.slopeFreezeResidMppb then
      clamp (c.freqSlopeMppb + resid >>> min c.config.slopeEmaShift 63)
        (-c.config.slopeMaxMppb) c.config.slopeMaxMppb
      else c.freqSlopeMppb) = slope := by
  by_cases hl : c.isLocked = true
  · rw [trackSlopeChecked, if_pos hl] at h
    replace h := of_checked_bind h
    by_cases hf : resid.natAbs < c.config.slopeFreezeResidMppb
    · rw [if_pos hf] at h
      iterate 2 replace h := of_checked_bind h
      rw [if_pos ⟨hl, hf⟩]
      exact Option.some.inj h
    · rw [if_neg hf] at h
      rw [if_neg fun h' => hf h'.2]
      exact Option.some.inj h
  · rw [trackSlopeChecked, if_neg hl] at h
    rw [if_neg fun h' => hl h'.1]
    exact Option.some.inj h

theorem trackFreq_of_checked (h : trackFreqChecked c m = some c') : c.trackFreq m = c' := by
  rw [trackFreqChecked] at h
  iterate 3 replace h := of_checked_bind h
  obtain ⟨slope, hslope, h⟩ := Option.bind_eq_some_iff.1 h
  rw [trackFreq, trackSlope_of_checked hslope]
  exact Option.some.inj h

theorem trackTemp_of_checked (h : trackTempChecked c m = some c') : c.trackTemp m = c' := by
  by_cases hff : (c.config.tempFfEnable && c.tempHave && c.isLocked) = true
  · rw [trackTempChecked, if_pos hff] at h
    iterate 12 replace h := of_checked_bind h
    obtain ⟨ff, hff', h⟩ := Option.bind_eq_some_iff.1 h
    iterate 3 replace h := of_checked_bind h
    have hff' := tempFfMppb_of_checked hff'
    subst hff'
    rw [trackTemp, if_pos hff]
    exact Option.some.inj h
  · rw [trackTempChecked, if_neg hff] at h
    rw [trackTemp, if_neg hff]
    exact Option.some.inj h

/-- Where nothing traps, the update is the one modelled without traps. -/
theorem updateFreq_of_checked (h : updateFreqChecked c ns = some r) : c.updateFreq ns = r := by
  rw [updateFreqChecked] at h
  iterate 2 replace h := of_checked_bind h
  by_cases hsane : asI64 c.config.saneDevNs.get ≤ (ns - 1000000000).natAbs
  · rw [if_pos hsane] at h
    cases h
    exact (FreqStep.gatedSane hsane).eq
  by_cases hq : 0 < c.quarantine
  · rw [if_neg hsane, if_pos hq] at h
    cases h
    exact (FreqStep.quarantined hsane hq).eq
  rw [if_neg hsane, if_neg hq] at h
  replace h := of_checked_bind h
  by_cases hs : c.samples = 0
  · rw [if_pos hs] at h
    cases h
    exact (FreqStep.first hsane hq hs).eq
  rw [if_neg hs] at h
  obtain ⟨gated, hgated, h⟩ := Option.bind_eq_some_iff.1 h
  have hgated := qualityGated_of_checked hgated
  cases gated with
  | true =>
    rw [if_pos rfl] at h
    cases h
    exact (FreqStep.gatedQuality hsane hq hs hgated).eq
  | false =>
    rw [if_neg Bool.false_ne_true] at h
    obtain ⟨tracked, htrack, hrest⟩ := Option.bind_eq_some_iff.1 h
    obtain ⟨c', htemp, hr⟩ := Option.bind_eq_some_iff.1 hrest
    have htemp := trackTemp_of_checked htemp
    rw [← trackFreq_of_checked htrack] at htemp
    cases hr
    exact (FreqStep.tracked hsane hq hs (by rw [hgated]; exact Bool.false_ne_true) htemp.symm).eq

end DisciplinedClock

end PicoGnss
