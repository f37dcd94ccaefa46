import PicoGnss.Gnssdo.Clock

/-! The read-outs of the clock before their words wrap. -/

namespace PicoGnss
open FixedWidth
set_option autoImplicit true

theorem wrap64_asI64_sub (a b : Nat) : wrap64 (asI64 (a + b) - asI64 a) = wrap64 b := by
  simp only [asI64, wrap64]
  omega

namespace DisciplinedClock

/-- What the read-outs take off an elapsed time for the frequency of the crystal. -/
def takenOff (c : DisciplinedClock) (d : Int) : Int := (d * c.freqMppb).tdiv 1000000000000

/-- What the correction of a local interval computes where nothing overflows. -/
def trueElapsed (c : DisciplinedClock) (d : Int) : Int :=
  d - (d * c.freqMppb).tdiv 1000000000000

theorem trueElapsed_eq (c : DisciplinedClock) (d : Int) : c.trueElapsed d = d - c.takenOff d := rfl

theorem corrected_eq (c : DisciplinedClock) (d : Int) :
    c.corrected d = wrap64 (c.trueElapsed d) := by
  simp only [corrected, trueElapsed, wrap64]
  omega

/-- What the inverse correction of a true interval computes where nothing overflows. -/
def localElapsed (c : DisciplinedClock) (d : Int) : Int :=
  d + (d * c.freqMppb).tdiv 1000000000000

/-- What the slope-aware correction computes where nothing overflows. -/
def holdoverElapsed (c : DisciplinedClock) (d : Int) : Int :=
  c.trueElapsed d - (c.freqSlopeMppb * d * d).tdiv 2000000000000000000000

theorem correctedSlope_eq (c : DisciplinedClock) (d : Int) :
    c.correctedSlope d = wrap64 (c.holdoverElapsed d) := by
  simp only [correctedSlope, holdoverElapsed, trueElapsed, wrap64]
  omega

variable {c : DisciplinedClock}

theorem nowFromQueryNs_eq (hq : c.epochQueryNs = some ei) (hu : c.epochUnixNs = some eu)
    (q : Nat) : c.nowFromQueryNs q =
      some (wrap64 (eu + c.trueElapsed (wrap64 (asI64 q - asI64 ei)))) := by
  rw [nowFromQueryNs, hq, hu, ← wrap64_add_wrap64, ← corrected_eq]
  rfl

theorem nowFromCaptureNs_eq (hp : c.epochCaptureNs = some ep) (hu : c.epochUnixNs = some eu)
    (t : Nat) : c.nowFromCaptureNs t =
      some (wrap64 (eu + c.trueElapsed (wrap64 (asI64 t - asI64 ep)))) := by
  rw [nowFromCaptureNs, hp, hu, ← wrap64_add_wrap64, ← corrected_eq]
  rfl

theorem nowFromCaptureNsHoldover_eq (hp : c.epochCaptureNs = some ep)
    (hu : c.epochUnixNs = some eu) (t : Nat) : c.nowFromCaptureNsHoldover t =
      some (wrap64 (eu + c.holdoverElapsed (wrap64 (asI64 t - asI64 ep)))) := by
  rw [nowFromCaptureNsHoldover, hp, hu, ← wrap64_add_wrap64, ← correctedSlope_eq]
  rfl

end DisciplinedClock

end PicoGnss
