import PicoGnss.Gnssdo.Clock
import PicoGnss.Lib.Folding
import PicoGnss.RpPps.EdgeTimeline

/-! The phase of an output edge against the reference, as captured on two free-running counters. -/

namespace PicoGnss
open FixedWidth Folding
set_option autoImplicit true

/-- The ticks of one second. -/
def captureTicksPerSecond (clkHz : Nat) : Nat := clkHz / captureCyclesPerTick

/-- What the two captures are apart, less the offset of their counters, before any folding. -/
def loopbackRawLagTicks (referenceCapture outputCapture offsetTicks : UInt32) : Int :=
  asI32 (referenceCapture - outputCapture - offsetTicks)

def loopbackPhaseTicks (referenceCapture outputCapture offsetTicks : UInt32)
    (ticksPerSecond : Nat) : Int :=
  let elapsed := asI32 (referenceCapture - outputCapture - offsetTicks)
  let m := wrap32 ticksPerSecond
  let r := elapsed.tmod m
  if m.tdiv 2 < r then wrap32 (r - m)
  else if r < (wrap32 (-m)).tdiv 2 then wrap32 (r + m)
  else r

def loopbackPhaseNs (referenceCapture outputCapture offsetTicks : UInt32) (clkHz : Nat) : Int :=
  let ticks := loopbackPhaseTicks referenceCapture outputCapture offsetTicks
    (captureTicksPerSecond clkHz)
  wrap64 ((ticks * captureCyclesPerTick * 1000000000).tdiv clkHz)

/-- The software path's phase, which is told apart by no whole second of either argument. -/
def foldPhaseNs (outNs refNs : Int) : Int :=
  let d := (wrap64 (outNs - refNs)).tmod 1000000000
  if (1000000000 : Int).tdiv 2 < d then wrap64 (d - 1000000000)
  else if d ≤ (-1000000000 : Int).tdiv 2 then wrap64 (d + 1000000000)
  else d

theorem foldPhaseNs_folds (h : InI64 (outNs - refNs)) :
    Folds 1000000000 (outNs - refNs) (foldPhaseNs outNs refNs) := by
  have hfold := folds_tmod (by decide : (0 : Int) < 1000000000) (outNs - refNs)
  have hhalf : (1000000000 : Int).tdiv 2 = 500000000 := rfl
  have hneg : (-1000000000 : Int).tdiv 2 = -500000000 := rfl
  simp only [foldPhaseNs, wrap64_of_inI64 h, hhalf, hneg]
  obtain ⟨-, hpos, hneg⟩ := tmod_spec (by decide : (0 : Int) < 1000000000) (outNs - refNs)
  generalize (outNs - refNs).tmod 1000000000 = d at *
  split
  · rw [if_pos (by omega)] at hfold
    rw [wrap64_of_natAbs_lt (by omega)]
    exact hfold
  · rw [if_neg (by omega)] at hfold
    split
    · rw [if_pos (by omega)] at hfold
      rw [wrap64_of_natAbs_lt (by omega)]
      exact hfold
    · rw [if_neg (by omega)] at hfold
      exact hfold

/-- The remainder of the lag, but for a lag of whole seconds and a half that is beyond the far
side: it stays where it is. -/
theorem loopbackPhaseTicks_eq (reference output offset : UInt32) :
    loopbackPhaseTicks reference output offset 62500000 =
      let r := (loopbackRawLagTicks reference output offset).tmod 62500000
      if 31250000 < r then r - 62500000 else if r < -31250000 then r + 62500000 else r := by
  have hm : wrap32 (62500000 : Nat) = 62500000 := rfl
  have hn : wrap32 (-62500000) = -62500000 := rfl
  have hhalf : (62500000 : Int).tdiv 2 = 31250000 := rfl
  have hneg : (-62500000 : Int).tdiv 2 = -31250000 := rfl
  simp only [loopbackPhaseTicks, hm, hn, hhalf, hneg]
  obtain ⟨-, hpos, hneg⟩ := tmod_spec (by decide : (0 : Int) < 62500000)
    (loopbackRawLagTicks reference output offset)
  rw [loopbackRawLagTicks] at *
  generalize asI32 (reference - output - offset) = lag at *
  generalize lag.tmod 62500000 = r at *
  split
  · rw [wrap32_of_mem (by omega) (by omega)]
  · split
    · rw [wrap32_of_mem (by omega) (by omega)]
    · rfl

/-- A lag of some seconds and a half on the far side, the one lag that is not folded. -/
def HalfSecondBehind (lag : Int) : Prop := lag < 0 ∧ lag % 62500000 = 31250000

/-- A residual of some seconds and a half on the near side, the one that rounds up. -/
def HalfSecondAhead (raw : Int) : Prop := 0 < raw ∧ raw % 1000000000 = 500000000

theorem loopbackPhaseTicks_folds_iff (reference output offset : UInt32) :
    Folds 62500000 (loopbackRawLagTicks reference output offset)
        (loopbackPhaseTicks reference output offset 62500000) ↔
      ¬HalfSecondBehind (loopbackRawLagTicks reference output offset) := by
  rw [loopbackPhaseTicks_eq]
  generalize loopbackRawLagTicks reference output offset = lag
  have hfold := folds_tmod (by decide : (0 : Int) < 62500000) lag
  obtain ⟨⟨k, hk⟩, hpos, hneg⟩ := tmod_spec (by decide : (0 : Int) < 62500000) lag
  simp only [HalfSecondBehind]
  generalize lag.tmod 62500000 = r at *
  constructor
  · rintro hfolds ⟨hlt, hhalf⟩
    have hr : r = -31250000 := by omega
    rw [hr] at hfolds
    exact absurd hfolds.low (by decide)
  · intro hhalf
    by_cases hup : 31250000 < r
    · rw [if_pos (by omega)] at hfold
      rw [if_pos hup]
      exact hfold
    · rw [if_neg (by omega)] at hfold
      rw [if_neg hup]
      by_cases hdown : r < -31250000
      · rw [if_pos (by omega)] at hfold
        rw [if_pos hdown]
        exact hfold
      · rw [if_neg (by omega)] at hfold
        rw [if_neg hdown]
        exact hfold

theorem snapToSecondNs_eq (h : InI64 (raw + raw.sign * 500000000)) :
    snapToSecondNs raw = raw - (raw + raw.sign * 500000000).tdiv 1000000000 * 1000000000 := by
  rw [snapToSecondNs, wrap64_of_inI64 h]
  apply wrap64_of_natAbs_lt
  have herror := Int.mul_tdiv_add_tmod (raw + raw.sign * 500000000) 1000000000
  obtain ⟨-, hpos, hneg⟩ :=
    tmod_spec (by decide : (0 : Int) < 1000000000) (raw + raw.sign * 500000000)
  rcases sign_spec raw with hsign | hsign | hsign <;> omega

theorem snapToSecondNs_eq_iff (h : InI64 (raw + raw.sign * 500000000)) :
    snapToSecondNs raw = foldPhaseNs raw 0 ↔ ¬HalfSecondAhead raw := by
  have hraw : InI64 (raw - 0) := by
    have hsign := sign_spec raw
    unfold InI64 at *
    omega
  have hfold := foldPhaseNs_folds hraw
  rw [Int.sub_zero] at hfold
  rw [← hfold.iff_eq, snapToSecondNs_eq h]
  have hsplit := Int.mul_tdiv_add_tmod (raw + raw.sign * 500000000) 1000000000
  obtain ⟨-, hpos, hneg⟩ :=
    tmod_spec (by decide : (0 : Int) < 1000000000) (raw + raw.sign * 500000000)
  have hsign := sign_spec raw
  simp only [HalfSecondAhead]
  constructor
  · rintro ⟨hlow, -, -⟩ ⟨hgt, hhalf⟩
    omega
  · intro hhalf
    refine ⟨?_, ?_, (raw + raw.sign * 500000000).tdiv 1000000000, by omega⟩ <;> omega

/-- One tick is sixteen nanoseconds at 125 MHz. -/
theorem loopbackPhaseNs_eq (reference output offset : UInt32) :
    loopbackPhaseNs reference output offset 125000000 =
      16 * loopbackPhaseTicks reference output offset 62500000 := by
  have hticks : captureTicksPerSecond 125000000 = 62500000 := rfl
  simp only [loopbackPhaseNs, hticks]
  obtain ⟨hlow, hhigh⟩ := wrap32_bounds (reference - output - offset).toNat
  have hphase : (loopbackPhaseTicks reference output offset 62500000).natAbs ≤ 62500000 := by
    rw [loopbackPhaseTicks_eq]
    obtain ⟨-, hpos, hneg⟩ := tmod_spec (by decide : (0 : Int) < 62500000)
      (loopbackRawLagTicks reference output offset)
    simp only
    split
    · omega
    · split <;> omega
  generalize loopbackPhaseTicks reference output offset 62500000 = ticks at *
  have hmul : ticks * (captureCyclesPerTick : Nat) * 1000000000 =
      16 * ticks * (125000000 : Nat) := by
    rw [captureCyclesPerTick]
    omega
  rw [hmul, Int.mul_tdiv_cancel _ (by decide)]
  exact wrap64_of_natAbs_lt (by omega)

/-- The four metrics share their half-second convention exactly where the phase in ticks is no half
second behind and the snapped residual no half second ahead. -/
theorem one_fold_convention_iff (reference output offset : UInt32) (outNs refNs raw : Int)
    (hdiff : InI64 (outNs - refNs)) (hraw : InI64 (raw + raw.sign * 500000000)) :
    (∀ y, Folds 62500000 (loopbackRawLagTicks reference output offset) y ↔
        y = loopbackPhaseTicks reference output offset 62500000) ∧
      (∀ y, Folds 1000000000 (outNs - refNs) y ↔ y = foldPhaseNs outNs refNs) ∧
      snapToSecondNs raw = foldPhaseNs raw 0 ∧
      loopbackPhaseNs reference output offset 125000000 =
        16 * loopbackPhaseTicks reference output offset 62500000 ↔
    ¬HalfSecondBehind (loopbackRawLagTicks reference output offset) ∧ ¬HalfSecondAhead raw := by
  rw [← loopbackPhaseTicks_folds_iff, ← snapToSecondNs_eq_iff hraw]
  constructor
  · rintro ⟨hticks, -, hsnap, -⟩
    exact ⟨(hticks _).2 rfl, hsnap⟩
  · rintro ⟨hticks, hsnap⟩
    exact ⟨hticks.iff_eq, (foldPhaseNs_folds hdiff).iff_eq, hsnap,
      loopbackPhaseNs_eq reference output offset⟩

/-- A quarter of a second of lead, and a whole second and a quarter to snap. -/
theorem one_fold_convention_quarter :
    (∀ y, Folds 62500000 (loopbackRawLagTicks 15625000 0 0) y ↔
        y = loopbackPhaseTicks 15625000 0 0 62500000) ∧
      (∀ y, Folds 1000000000 (250000000 - 0) y ↔ y = foldPhaseNs 250000000 0) ∧
      snapToSecondNs 1250000000 = foldPhaseNs 1250000000 0 ∧
      loopbackPhaseNs 15625000 0 0 125000000 = 16 * loopbackPhaseTicks 15625000 0 0 62500000 := by
  apply (one_fold_convention_iff 15625000 0 0 250000000 0 1250000000 (by decide) (by decide)).2
  unfold HalfSecondBehind HalfSecondAhead
  decide

/-- Half a second behind is not folded, and half a second ahead snaps to the other side. -/
theorem half_second_not_folded :
    (¬∀ reference output offset : UInt32, ∀ y,
      Folds 62500000 (loopbackRawLagTicks reference output offset) y ↔
        y = loopbackPhaseTicks reference output offset 62500000) ∧
    ¬∀ raw, InI64 (raw + raw.sign * 500000000) → snapToSecondNs raw = foldPhaseNs raw 0 := by
  constructor
  · intro h
    have hfolds := (h 0 31250000 0 (loopbackPhaseTicks 0 31250000 0 62500000)).2 rfl
    exact absurd hfolds.low (by decide)
  · intro h
    exact absurd (h 500000000 (by decide)) (by decide)

/-- The gate of the firmware's capture task: the two captures are of neighbouring edges. -/
def paired (referenceCapture outputCapture offsetTicks : UInt32) (clkHz : Nat) : Bool :=
  decide ((loopbackRawLagTicks referenceCapture outputCapture offsetTicks).natAbs ≤ clkHz / 200)

/-- What two counters read, at `t` and at `t'` ticks, tells the ticks between. -/
theorem captures_realise (c c' : UInt32) (t t' : Nat) :
    counterAt c t - counterAt c' t' - (c - c') = .ofInt (t' - t) := by
  have hcast (n : Nat) : UInt32.ofInt n = .ofNat n := by
    rw [UInt32.ofInt, ← UInt32.toNat_inj, UInt32.toNat_ofNat', UInt32.toNat_ofNat']
    omega
  rw [counterAt, counterAt, Int.sub_eq_add_neg, UInt32.ofInt_add, UInt32.ofInt_neg, hcast, hcast]
  generalize UInt32.ofNat t = x
  generalize UInt32.ofNat t' = y
  grind

/-- A slip of whole seconds is told from a true phase by its size, and a phase that passes is read
exactly. -/
theorem gate_tells_mispair (reference output offset : UInt32) (phase slip j : Int)
    (hphase : phase.natAbs ≤ 312500) (hj : j.natAbs ≤ 30)
    (hslip : 1000 * (slip - 62500000 * j).natAbs ≤ 62500000 * j.natAbs)
    (hcaptures : reference - output - offset = .ofInt (phase + slip)) :
    ((loopbackRawLagTicks reference output offset).natAbs ≤ 625000 ↔ j = 0) ∧
      (paired reference output offset 125000000 = true ↔ j = 0) ∧
      ((loopbackRawLagTicks reference output offset).natAbs ≤ 625000 →
        loopbackPhaseTicks reference output offset 62500000 = phase) := by
  have hlag : loopbackRawLagTicks reference output offset = phase + slip := by
    rw [loopbackRawLagTicks, hcaptures, asI32_ofInt]
    exact wrap32_of_mem (by omega) (by omega)
  have hgate : (loopbackRawLagTicks reference output offset).natAbs ≤ 625000 ↔ j = 0 := by
    rw [hlag]
    constructor
    · intro hsmall
      omega
    · rintro rfl
      omega
  refine ⟨hgate, ?_, ?_⟩
  · rw [paired, decide_eq_true_eq]
    exact hgate
  · intro hsmall
    have hzero := hgate.1 hsmall
    have hfolds := (loopbackPhaseTicks_folds_iff reference output offset).2
    rw [hlag, HalfSecondBehind] at hfolds
    have hself : Folds 62500000 (phase + slip) phase := by
      have hslip : slip = 0 := by omega
      rw [hslip, Int.add_zero]
      exact .self (by omega) (by omega)
    exact hself.unique (hfolds (by omega))

/-- An output edge a millisecond after its reference, and the one of five slow seconds later. -/
theorem gate_tells_mispair_five :
    (paired (counterAt 7 100) (counterAt 9 62600) (7 - 9) 125000000 = true ∧
      loopbackPhaseTicks (counterAt 7 100) (counterAt 9 62600) (7 - 9) 62500000 = 62500) ∧
    ¬paired (counterAt 7 100) (counterAt 9 312562750) (7 - 9) 125000000 = true := by
  have hnear := gate_tells_mispair (counterAt 7 100) (counterAt 9 62600) (7 - 9) 62500 0 0
    (by decide) (by decide) (by decide) (captures_realise 7 9 100 62600)
  have hfar := gate_tells_mispair (counterAt 7 100) (counterAt 9 312562750) (7 - 9) 62500
    312500150 5 (by decide) (by decide) (by decide) (captures_realise 7 9 100 312562750)
  refine ⟨⟨hnear.2.1.2 rfl, hnear.2.2 (hnear.1.2 rfl)⟩, ?_⟩
  rw [hfar.2.1]
  decide

end PicoGnss
