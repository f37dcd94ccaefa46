import PicoGnss.Lib.Noninterference
import PicoGnss.Gnssdo.Clock

/-! The temperature feedforward sees the estimator and is not seen by it. -/

namespace PicoGnss
open FixedWidth
set_option autoImplicit true

/-- One call that changes the clock. -/
inductive ClockCall where
  | updateFreq (intervalNs : Int)
  | startQuarantine
  | updateEpoch (captureNs queryNs : Nat) (unixNs : Int)
  | updateTemp (temp : Int)
  | setTempFfEnable (en : Bool)
  | setTempFfParams (smShift shift : Nat) (gainQ8 : Int)
  | setTempFfLag (lagQ8 : Int) (dleadShift obsShift : Nat)

/-- The calls that do not concern the temperature. -/
def ClockCall.disciplines : ClockCall → Bool
  | updateFreq _ => true
  | startQuarantine => true
  | updateEpoch .. => true
  | _ => false

namespace DisciplinedClock

def handle (c : DisciplinedClock) : ClockCall → Option FreqUpdate × DisciplinedClock
  | .updateFreq ns => (some (c.updateFreq ns).1, (c.updateFreq ns).2)
  | .startQuarantine => (none, c.startQuarantine)
  | .updateEpoch captureNs queryNs unixNs => (none, c.updateEpoch captureNs queryNs unixNs)
  | .updateTemp temp => (none, c.updateTemp temp)
  | .setTempFfEnable en => (none, c.setTempFfEnable en)
  | .setTempFfParams smShift shift gainQ8 => (none, c.setTempFfParams smShift shift gainQ8)
  | .setTempFfLag lagQ8 dleadShift obsShift => (none, c.setTempFfLag lagQ8 dleadShift obsShift)

theorem handle_updateFreq (c : DisciplinedClock) (ns : Int) :
    c.handle (.updateFreq ns) = (some (c.updateFreq ns).1, (c.updateFreq ns).2) := rfl

/-- Everything a caller can read off the clock but its forecast of the frequency. -/
structure ReadOuts where
  freqMppb : Int
  freqSlopeMppb : Int
  freqPpb : Int
  isLocked : Bool
  inQuarantine : Bool
  trueToLocalNs : Int → Int
  nowFromCaptureNs : Nat → Option Int
  nowFromCaptureNsHoldover : Nat → Option Int
  nowFromQueryNs : Nat → Option Int
  queryNsForUnixNs : Int → Option Int
  captureNsForUnixNs : Int → Option Int
  predictionResidualNs : Nat → Int → Option Int
  predictionResidualHoldoverNs : Nat → Int → Option Int
  fireResidualNs : Nat → Int → Option Int
  holdoverNs : Nat → Nat

def readOuts (c : DisciplinedClock) : ReadOuts where
  freqMppb := c.freqMppb
  freqSlopeMppb := c.freqSlopeMppb
  freqPpb := c.freqPpb
  isLocked := c.isLocked
  inQuarantine := c.inQuarantine
  trueToLocalNs := c.trueToLocalNs
  nowFromCaptureNs := c.nowFromCaptureNs
  nowFromCaptureNsHoldover := c.nowFromCaptureNsHoldover
  nowFromQueryNs := c.nowFromQueryNs
  queryNsForUnixNs := c.queryNsForUnixNs
  captureNsForUnixNs := c.captureNsForUnixNs
  predictionResidualNs := c.predictionResidualNs
  predictionResidualHoldoverNs := c.predictionResidualHoldoverNs
  fireResidualNs := c.fireResidualNs
  holdoverNs := c.holdoverNs

/-- The clock as it would be without a temperature sensor. -/
def blind (c : DisciplinedClock) : DisciplinedClock where
  config := { c.config with
    tempFfEnable := false
    tempFfShift := 0
    tempFfSmShift := 0
    tempFfGainQ8 := 0
    tempFfLagQ8 := 0
    tempFfDleadShift := 0
    residObsShift := 0 }
  freqMppb := c.freqMppb
  freqSlopeMppb := c.freqSlopeMppb
  samples := c.samples
  quarantine := c.quarantine
  epochCaptureNs := c.epochCaptureNs
  epochQueryNs := c.epochQueryNs
  epochUnixNs := c.epochUnixNs
  lastQueryNs := c.lastQueryNs

theorem readOuts_blind (c : DisciplinedClock) : c.blind.readOuts = c.readOuts := rfl

theorem blind_trackTemp (c : DisciplinedClock) (m : Int) : (c.trackTemp m).blind = c.blind := by
  unfold trackTemp
  split <;> rfl

theorem trackTemp_blind (c : DisciplinedClock) (m : Int) : c.blind.trackTemp m = c.blind := rfl

theorem blind_trackFreq (c : DisciplinedClock) (m : Int) :
    (c.trackFreq m).blind = c.blind.trackFreq m := rfl

/-- The estimator acts on the blind clock by itself. -/
theorem FreqStep.blind (h : FreqStep c ns u c') : FreqStep c.blind ns u c'.blind := by
  cases h with
  | gatedSane hsane => exact .gatedSane hsane
  | quarantined hsane hq => exact .quarantined hsane hq
  | first hsane hq hs => exact .first hsane hq hs
  | gatedQuality hsane hq hs hg => exact .gatedQuality hsane hq hs hg
  | @tracked c' hsane hq hs hg htrack =>
    have hblind : c'.blind = (c.blind.trackFreq ((ns - 1000000000) * 1000)).trackTemp
        ((ns - 1000000000) * 1000) := by
      rw [htrack, blind_trackTemp, ← blind_trackFreq, trackTemp_blind]
    have hstep : FreqStep c.blind ns .applied
        { c'.blind with samples := (c'.blind.samples + 1) % 4294967296 } :=
      .tracked hsane hq hs hg hblind
    exact hstep

theorem startQuarantine_blind (c : DisciplinedClock) :
    c.blind.startQuarantine = c.startQuarantine.blind := by
  have hsamples : c.blind.samples = c.samples := rfl
  unfold startQuarantine
  rw [hsamples]
  split <;> rfl

theorem blind_updateTemp (c : DisciplinedClock) (temp : Int) :
    (c.updateTemp temp).blind = c.blind := by
  unfold updateTemp
  split <;> rfl

/-- A call on the clock is, to the blind clock, the same call or none. -/
theorem handle_blind (c : DisciplinedClock) (x : ClockCall) (hx : x.disciplines = true) :
    c.blind.handle x = ((c.handle x).1, (c.handle x).2.blind) := by
  cases x with
  | updateFreq ns =>
    obtain ⟨u, c', h⟩ := FreqStep.exists c ns
    rw [handle_updateFreq, handle_updateFreq, h.eq, h.blind.eq]
  | startQuarantine => rw [handle, handle, startQuarantine_blind]
  | updateEpoch captureNs queryNs unixNs => rfl
  | updateTemp | setTempFfEnable | setTempFfParams | setTempFfLag => cases hx

theorem blind_handle (c : DisciplinedClock) (x : ClockCall) (hx : x.disciplines = false) :
    (c.handle x).2.blind = c.blind := by
  cases x with
  | updateTemp temp => exact c.blind_updateTemp temp
  | setTempFfEnable | setTempFfParams | setTempFfLag => rfl
  | updateFreq | startQuarantine | updateEpoch => cases hx

theorem unwinding : Noninterference.Unwinding handle ClockCall.disciplines blind := by
  refine ⟨fun c c' x hx hc => ?_, fun c c' x hx hc => ?_, blind_handle⟩
  · have h := congrArg (fun d : DisciplinedClock => (d.handle x).1) hc
    simp only [handle_blind c x hx, handle_blind c' x hx] at h
    exact h
  · have h := congrArg (fun d : DisciplinedClock => (d.handle x).2) hc
    simp only [handle_blind c x hx, handle_blind c' x hx] at h
    exact h

theorem predictedFreqMppb_blind {c : DisciplinedClock} (h : c.config.tempFfEnable = false) :
    c.blind.predictedFreqMppb = c.predictedFreqMppb := by
  have hblind : c.blind.config.tempFfEnable = false := rfl
  rw [predictedFreqMppb, predictedFreqMppb, h, hblind]
  rfl

theorem steeringFreqMppb_blind {c : DisciplinedClock} (h : c.config.tempFfEnable = false) :
    c.blind.steeringFreqMppb = c.steeringFreqMppb := by
  rw [steeringFreqMppb, steeringFreqMppb, predictedFreqMppb_blind h]
  rfl

end DisciplinedClock

/-- Two runs that differ in their temperature calls only cannot be told apart, except by the
forecast of a clock whose feedforward is on. -/
theorem temperature_never_influences (c : DisciplinedClock) (xs ys : List ClockCall)
    (h : xs.filter ClockCall.disciplines = ys.filter ClockCall.disciplines) :
    let a := Mealy.final DisciplinedClock.handle c xs
    let b := Mealy.final DisciplinedClock.handle c ys
    Noninterference.visibleOutputs DisciplinedClock.handle ClockCall.disciplines c xs =
        Noninterference.visibleOutputs DisciplinedClock.handle ClockCall.disciplines c ys ∧
      a.readOuts = b.readOuts ∧
      (a.config.tempFfEnable = false → b.config.tempFfEnable = false →
        a.predictedFreqMppb = b.predictedFreqMppb ∧
          a.steeringFreqMppb = b.steeringFreqMppb) := by
  intro a b
  obtain ⟨houtputs, hblind⟩ := DisciplinedClock.unwinding.sameVisible (rfl : c.blind = c.blind) h
  refine ⟨houtputs, ?_, fun ha hb => ⟨?_, ?_⟩⟩
  · rw [← a.readOuts_blind, ← b.readOuts_blind, hblind]
  · rw [← DisciplinedClock.predictedFreqMppb_blind ha,
      ← DisciplinedClock.predictedFreqMppb_blind hb, hblind]
  · rw [← DisciplinedClock.steeringFreqMppb_blind ha, ← DisciplinedClock.steeringFreqMppb_blind hb,
      hblind]

theorem temperature_never_influences_heated :
    let xs := [ClockCall.setTempFfEnable true, .updateFreq 1000002500, .updateTemp 900,
      .setTempFfEnable false]
    (Mealy.final DisciplinedClock.handle .new xs).readOuts =
      (Mealy.final DisciplinedClock.handle .new [.updateFreq 1000002500]).readOuts := by
  intro xs
  exact (temperature_never_influences .new xs [.updateFreq 1000002500] rfl).2.1

end PicoGnss
