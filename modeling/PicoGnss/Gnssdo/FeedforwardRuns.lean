import PicoGnss.Gnssdo.Feedforward

/-! Runs of the temperature feedforward: exact until a sample overruns the covariance. -/

namespace PicoGnss
open FixedWidth
set_option autoImplicit true

variable {c : DisciplinedClock}

/-- The bounds say nothing of the estimator's own fields. -/
theorem ThermalBounds.estimator (h : ThermalBounds c) (freq slope : Int)
    (samples quarantine : Nat) : ThermalBounds { c with
      freqMppb := freq
      freqSlopeMppb := slope
      samples := samples
      quarantine := quarantine } :=
  ⟨h.tempSm, h.tempMt, h.tempRef, h.tempDieLp, h.tempDiePrev, h.tempDlead, h.tcrysHat, h.tempMf,
    h.tempCov, h.tempVar, h.rResid⟩

namespace ThermalRange

theorem saneDev (h : ThermalRange c) : asI64 c.config.saneDevNs.get = 1000000 := by
  rw [h.config]
  decide

theorem trackFreq (h : ThermalRange c) (m : Int) : ThermalBounds (c.trackFreq m) :=
  h.toThermalBounds.estimator _ _ _ _

theorem updateFreq (h : ThermalRange c) (ns : Int) : ThermalRange (c.updateFreq ns).2 := by
  have hreach := h.reachable.handle (.updateFreq ns)
  rw [Mealy.next_eq (c.handle_updateFreq ns)] at hreach
  obtain ⟨u, c', hstep⟩ := DisciplinedClock.FreqStep.exists c ns
  rw [hstep.eq] at hreach ⊢
  have hsane := h.saneDev
  cases hstep with
  | gatedSane | gatedQuality => exact h
  | quarantined | first => exact ⟨h.toThermalBounds.estimator _ _ _ _, h.config, hreach⟩
  | tracked hdev hq hs hg htrack =>
    subst htrack
    have hconfig := (DisciplinedClock.trackTemp_frame (c.trackFreq ((ns - 1000000000) * 1000))
      ((ns - 1000000000) * 1000)).1
    have hm : ((ns - 1000000000) * 1000).natAbs ≤ 999999000 := by omega
    have hbounds := DisciplinedClock.trackTemp_bounds (h.trackFreq ((ns - 1000000000) * 1000))
      h.config hm
    exact ⟨hbounds.estimator _ _ _ _, hconfig.trans h.config, hreach⟩

/-- Nothing in the update of the frequency is lost but what the shift of the covariance loses. -/
theorem updateFreqExact_iff (h : ThermalRange c) (hns : ns.natAbs ≤ 4611686018427387904) :
    c.updateFreqExact ns = some (c.updateFreq ns) ↔ ¬c.Overruns ns := by
  obtain ⟨u, c', hstep⟩ := DisciplinedClock.FreqStep.exists c ns
  rw [hstep.eq, DisciplinedClock.updateFreqExact, checked_bind_of_natAbs_lt (by omega),
    checked_bind_of_natAbs_lt (by omega)]
  have hsaneDev := h.saneDev
  cases hstep with
  | gatedSane hsane =>
    rw [if_pos hsane]
    exact iff_of_true rfl fun ho => by have hnear := ho.sane; omega
  | quarantined hsane hq =>
    rw [if_neg hsane, if_pos hq]
    exact iff_of_true rfl fun ho => by have hnone := ho.unquarantined; omega
  | first hsane hq hs =>
    rw [if_neg hsane, if_neg hq, checked_bind_of_natAbs_lt (by omega), if_pos hs]
    refine iff_of_true rfl fun ho => ?_
    have hlocked := ho.locked
    rw [DisciplinedClock.isLocked, h.config, hs] at hlocked
    cases hlocked
  | gatedQuality hsane hq hs hg =>
    rw [if_neg hsane, if_neg hq, checked_bind_of_natAbs_lt (by omega), if_neg hs,
      h.qualityGatedChecked (by omega), hg]
    refine iff_of_true rfl fun ho => ?_
    rw [ho.accepted] at hg
    exact Bool.false_ne_true hg
  | @tracked c' hsane hq hs hg htrack =>
    have hm : ((ns - 1000000000) * 1000).natAbs ≤ 999999000 := by omega
    rw [if_neg hsane, if_neg hq, checked_bind_of_natAbs_lt (by omega), if_neg hs,
      h.qualityGatedChecked (by omega), Bool.eq_false_of_not_eq_true hg, h.trackFreqChecked hm,
      htrack]
    change ((c.trackFreq ((ns - 1000000000) * 1000)).trackTempExact
      ((ns - 1000000000) * 1000)).bind _ = _ ↔ _
    rw [DisciplinedClock.trackTempExact_eq (h.trackFreq _) h.config hm]
    split
    · rename_i hover
      refine iff_of_false (Option.some_ne_none _).symm (not_not_intro ?_)
      exact ⟨by omega, by omega, hover.2.1, hover.1, Bool.eq_false_of_not_eq_true hg, hover.2.2⟩
    · rename_i hkeeps
      exact iff_of_true rfl fun ho => hkeeps ⟨ho.read, ho.locked, ho.cov⟩

/-- Without an overrun the covariance still fits afterwards. -/
theorem covFits_updateFreq (h : ThermalRange c) (hfits : CovFits c) (ns : Int)
    (hkeeps : ¬c.Overruns ns) : CovFits (c.updateFreq ns).2 := by
  obtain ⟨u, c', hstep⟩ := DisciplinedClock.FreqStep.exists c ns
  have hsane := h.saneDev
  rw [hstep.eq]
  cases hstep with
  | gatedSane | gatedQuality | quarantined | first => exact hfits
  | tracked hdev hq hs hg htrack =>
    subst htrack
    change CovFits ((c.trackFreq ((ns - 1000000000) * 1000)).trackTemp ((ns - 1000000000) * 1000))
    by_cases hon : c.tempHave = true ∧ c.isLocked = true
    · have hnext := DisciplinedClock.trackTemp_heated
        (c := c.trackFreq ((ns - 1000000000) * 1000)) h.config hon.1 hon.2
        ((ns - 1000000000) * 1000)
      rw [hnext]
      apply (DisciplinedClock.covFits_regressed_iff (c.trackFreq ((ns - 1000000000) * 1000))
        ((ns - 1000000000) * 1000)).2
      intro hover
      exact hkeeps ⟨by omega, by omega, hon.2, hon.1, Bool.eq_false_of_not_eq_true hg, hover⟩
    · have hsame : (c.trackFreq ((ns - 1000000000) * 1000)).trackTemp ((ns - 1000000000) * 1000) =
          c.trackFreq ((ns - 1000000000) * 1000) :=
        if_neg fun hall => hon ((DisciplinedClock.takesTemp_iff h.config).1 hall)
      rw [hsame]
      exact hfits

end ThermalRange

/-- A reading of the firmware's sensor, or an interval well inside a word. -/
def ClockCall.Measures : ClockCall → Prop
  | updateFreq ns => ns.natAbs ≤ 4611686018427387904
  | updateTemp temp => 0 ≤ temp ∧ temp ≤ 1048320
  | _ => False

/-- No operation of the call loses anything. -/
def DisciplinedClock.Exact (c : DisciplinedClock) : ClockCall → Prop
  | .updateFreq ns => c.updateFreqExact ns = some (c.updateFreq ns)
  | .updateTemp temp => c.updateTempExact temp = some (c.updateTemp temp)
  | _ => True

/-- In a run, every call is exact, and so are the quotient and the feedforward in between. -/
structure FeedsExactly (c : DisciplinedClock) (calls : List ClockCall) : Prop where
  step : ∀ i x, calls[i]? = some x →
    (Mealy.final DisciplinedClock.handle c (calls.take i)).Exact x
  quotient : ∀ i, let d := Mealy.final DisciplinedClock.handle c (calls.take i)
    d.tempKMppbPerUnitExact = some d.tempKMppbPerUnit
  feedforward : ∀ i, let d := Mealy.final DisciplinedClock.handle c (calls.take i)
    d.tempFfMppbExact d.tcrysHat = some (d.tempFfMppb d.tcrysHat)

theorem ThermalRange.handle (h : ThermalRange c) (hx : ClockCall.Measures x) :
    ThermalRange (c.handle x).2 := by
  cases x with
  | updateFreq ns =>
    rw [Mealy.next_eq (c.handle_updateFreq ns)]
    exact h.updateFreq ns
  | updateTemp temp => exact h.updateTemp hx.1 hx.2
  | startQuarantine | updateEpoch | setTempFfEnable | setTempFfParams | setTempFfLag => cases hx

theorem covFits_updateTemp (hfits : CovFits c) (temp : Int) : CovFits (c.updateTemp temp) := by
  unfold DisciplinedClock.updateTemp
  split <;> exact hfits

theorem covFits_take {calls : List ClockCall} (hcalls : ∀ x ∈ calls, x.Measures)
    (hkeeps : ∀ i ns, calls[i]? = some (.updateFreq ns) →
      ¬(Mealy.final DisciplinedClock.handle .heated (calls.take i)).Overruns ns) (i : Nat) :
    CovFits (Mealy.final DisciplinedClock.handle .heated (calls.take i)) := by
  induction i with
  | zero =>
    rw [List.take_zero]
    exact fun hvar => absurd hvar (by decide)
  | succ i ih =>
    have hrange := Mealy.invariant_take (P := ThermalRange) (fun _ _ => ThermalRange.handle)
      ThermalRange.heated hcalls i
    cases hx : calls[i]? with
    | none =>
      rw [List.getElem?_eq_none_iff] at hx
      rw [List.take_of_length_le hx] at ih
      rw [List.take_of_length_le (Nat.le_succ_of_le hx)]
      exact ih
    | some x =>
      have hmeasures := hcalls x (List.mem_of_getElem? hx)
      rw [Mealy.final_take_succ _ _ hx]
      cases x with
      | updateFreq ns =>
        rw [Mealy.next_eq (DisciplinedClock.handle_updateFreq _ ns)]
        exact hrange.covFits_updateFreq ih ns (hkeeps i ns hx)
      | updateTemp temp => exact covFits_updateTemp ih temp
      | startQuarantine | updateEpoch | setTempFfEnable | setTempFfParams | setTempFfLag =>
        cases hmeasures

/-- The feedforward is exact in just the runs in which no sample overruns the covariance. -/
theorem feedforward_exact_iff {calls : List ClockCall} (hcalls : ∀ x ∈ calls, x.Measures) :
    FeedsExactly .heated calls ↔ ∀ i ns, calls[i]? = some (.updateFreq ns) →
      ¬(Mealy.final DisciplinedClock.handle .heated (calls.take i)).Overruns ns := by
  have hrange := Mealy.invariant_take (P := ThermalRange) (fun _ _ => ThermalRange.handle)
    ThermalRange.heated hcalls
  constructor
  · intro h i ns hx
    exact ((hrange i).updateFreqExact_iff (hcalls _ (List.mem_of_getElem? hx))).1 (h.step i _ hx)
  · intro hkeeps
    have hfits := covFits_take hcalls hkeeps
    refine ⟨?_, fun i => DisciplinedClock.tempKMppbPerUnitExact_of_fits (hfits i), fun i =>
      DisciplinedClock.tempFfMppbExact_of_fits (hrange i).toThermalBounds (hrange i).config
        (hfits i)⟩
    intro i x hx
    have hmeasures := hcalls x (List.mem_of_getElem? hx)
    cases x with
    | updateFreq ns => exact ((hrange i).updateFreqExact_iff hmeasures).2 (hkeeps i ns hx)
    | updateTemp temp => exact (hrange i).updateTempExact hmeasures.1 hmeasures.2
    | startQuarantine | updateEpoch | setTempFfEnable | setTempFfParams | setTempFfLag =>
      cases hmeasures

theorem feedforward_exact_iff_warm :
    FeedsExactly .heated [.updateTemp 230400, .updateFreq 1000000500] := by
  refine (feedforward_exact_iff ?_).2 ?_
  · rintro x (_ | ⟨_, _ | ⟨_, ⟨⟩⟩⟩)
    · exact ⟨by decide, by decide⟩
    · change (1000000500 : Int).natAbs ≤ _
      decide
  · intro i ns hx hover
    match i with
    | 0 => cases hx
    | 1 => exact absurd hover.locked (by decide)

/-- A sensor that goes from one end to the other while the level is far from where it was at the
first reading. -/
def steepSweep : List ClockCall :=
  .updateFreq 1000999999 :: .updateTemp 0 :: List.replicate 7 (.updateFreq 999900000) ++
    List.replicate 40 (.updateTemp 1048320) ++ List.replicate 60 (.updateFreq 1000328000)

/-- The shift loses the sign of the covariance, and the quotient is not the one it stands for. -/
theorem steep_sweep_overruns : ¬FeedsExactly .heated steepSweep ∧
    (Mealy.final DisciplinedClock.handle .heated steepSweep).tempKMppbPerUnit = 595 ∧
    (256 * (Mealy.final DisciplinedClock.handle .heated steepSweep).tempCov).tdiv
      (Mealy.final DisciplinedClock.handle .heated steepSweep).tempVar = -693 := by
  refine ⟨fun h => ?_, by decide +kernel, by decide +kernel⟩
  have hquotient := h.quotient 109
  revert hquotient
  decide +kernel

end PicoGnss
