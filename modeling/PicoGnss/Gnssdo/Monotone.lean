import PicoGnss.Gnssdo.Range
import PicoGnss.Gnssdo.ReadOut
import PicoGnss.Lib.Rounding

/-! Disciplined time between two corrections does not run backwards. -/

namespace PicoGnss
open FixedWidth Rounding
set_option autoImplicit true

namespace DisciplinedClock

variable {c : DisciplinedClock} {d d' : Int}

theorem trueElapsed_mono (hfreq : c.freqMppb.natAbs ≤ 1000000000000) (h : d ≤ d') :
    c.trueElapsed d ≤ c.trueElapsed d' := by
  obtain ⟨n, hn, rfl⟩ : ∃ n : Int, 0 ≤ n ∧ d' = d + n := ⟨d' - d, by omega, by omega⟩
  have hproduct := natAbs_mul_le (Nat.le_refl n.natAbs) hfreq
  have hmoved : (d + n) * c.freqMppb - d * c.freqMppb ≤ 1000000000000 * n := by
    rw [Int.add_mul]
    omega
  have htaken := tdiv_sub_le (by decide) hn hmoved
  unfold trueElapsed
  omega

/-- The level and the slope can each round a nanosecond away. -/
theorem holdoverElapsed_back (hfreq : c.freqMppb.natAbs ≤ 1000154000)
    (hslope : c.freqSlopeMppb.natAbs ≤ 5000) (hd : 0 ≤ d) (h : d ≤ d')
    (hd' : d' ≤ 100000000000000000) : c.holdoverElapsed d ≤ c.holdoverElapsed d' + 1 := by
  obtain ⟨n, hn, rfl⟩ : ∃ n : Int, 0 ≤ n ∧ d' = d + n := ⟨d' - d, by omega, by omega⟩
  have hlevel := natAbs_mul_le (Nat.le_refl n.natAbs) hfreq
  have hspan := natAbs_mul_le (Nat.le_refl n.natAbs)
    (by omega : (d + (d + n)).natAbs ≤ 200000000000000000)
  have hsquare := natAbs_mul_le hslope hspan
  have hmoved : (d + n) * c.freqMppb - d * c.freqMppb ≤ 1000000000000 * ((n + 1) / 2) := by
    rw [Int.add_mul]
    omega
  have hcurved : c.freqSlopeMppb * (d + n) * (d + n) - c.freqSlopeMppb * d * d ≤
      2000000000000000000000 * ((n + 1) / 2) := by
    have hfactored : c.freqSlopeMppb * (d + n) * (d + n) - c.freqSlopeMppb * d * d =
        c.freqSlopeMppb * (n * (d + (d + n))) := by ring
    rw [hfactored]
    omega
  have htaken := tdiv_sub_le (by decide) (by omega) hmoved
  have hbent := tdiv_sub_le (by decide) (by omega) hcurved
  unfold holdoverElapsed trueElapsed
  omega

def correctedSlopeChecked (c : DisciplinedClock) (d : Int) : Option Int := do
  let scaled ← checked128 (d * c.freqMppb)
  let level ← checked (scaled.tdiv 1000000000000)
  let rate ← checked128 (c.freqSlopeMppb * d)
  let square ← checked128 (rate * d)
  let slopeTerm ← checked (square.tdiv 2000000000000000000000)
  let levelled ← checked (d - level)
  checked (levelled - slopeTerm)

/-- The holdover read-out with a trap on every overflow and on every cast that loses something. -/
def nowFromCaptureNsHoldoverChecked (c : DisciplinedClock) (captureNs : Nat) : Option Int := do
  let ep ← c.epochCaptureNs
  let eu ← c.epochUnixNs
  let t ← checked captureNs
  let t0 ← checked ep
  let d ← checked (t - t0)
  let elapsed ← c.correctedSlopeChecked d
  checked (eu + elapsed)

theorem correctedSlope_of_checked (h : correctedSlopeChecked c d = some x) :
    c.correctedSlope d = x := by
  rw [correctedSlopeChecked] at h
  obtain ⟨hlevel, h⟩ := wrap64_of_checked_bind (of_checked128_bind h)
  obtain ⟨hbent, h⟩ := wrap64_of_checked_bind (of_checked128_bind (of_checked128_bind h))
  obtain ⟨hlevelled, h⟩ := wrap64_of_checked_bind h
  obtain ⟨hx, rfl⟩ := checked_eq_some_iff.1 h
  rw [correctedSlope, hlevel, hbent]
  simp only [hlevelled]
  exact wrap64_of_inI64 hx

/-- What the read-out computes with traps is what it computes without. -/
theorem nowFromCaptureNsHoldover_of_checked (h : c.nowFromCaptureNsHoldoverChecked t = some x) :
    c.nowFromCaptureNsHoldover t = some x := by
  rw [nowFromCaptureNsHoldoverChecked] at h
  obtain ⟨ep, hp, h⟩ := Option.bind_eq_some_iff.1 h
  obtain ⟨eu, hu, h⟩ := Option.bind_eq_some_iff.1 h
  obtain ⟨ht, h⟩ := wrap64_of_checked_bind h
  obtain ⟨hep, h⟩ := wrap64_of_checked_bind h
  obtain ⟨hd, h⟩ := wrap64_of_checked_bind h
  obtain ⟨elapsed, helapsed, h⟩ := Option.bind_eq_some_iff.1 h
  obtain ⟨hx, rfl⟩ := checked_eq_some_iff.1 h
  rw [nowFromCaptureNsHoldover, hp, hu]
  simp only [Option.bind_eq_bind, Option.bind_some, asI64, ht, hep, hd,
    correctedSlope_of_checked helapsed, wrap64_of_inI64 hx]

theorem correctedSlopeChecked_eq (hfreq : c.freqMppb.natAbs ≤ 1000154000)
    (hslope : c.freqSlopeMppb.natAbs ≤ 5000) (hd : d.natAbs ≤ 100000000000000000) :
    c.correctedSlopeChecked d = some (c.holdoverElapsed d) := by
  have hscaled := natAbs_mul_le hd hfreq
  have hrate := natAbs_mul_le hslope hd
  have hsquare := natAbs_mul_le hrate hd
  have hlevel := natAbs_tdiv_le hscaled (by decide)
    (by decide : ((1000000000000 : Nat) : Int) ≤ 1000000000000)
  have hbent := natAbs_tdiv_le hsquare (by decide)
    (by decide : ((2000000000000000000000 : Nat) : Int) ≤ 2000000000000000000000)
  rw [correctedSlopeChecked, checked128_bind (by unfold InI128; omega),
    checked_bind_of_natAbs_lt (by omega), checked128_bind (by unfold InI128; omega),
    checked128_bind (by unfold InI128; omega), checked_bind_of_natAbs_lt (by omega),
    checked_bind_of_natAbs_lt (by omega), checked_of_natAbs_lt (by omega)]
  rfl

/-- Over three years of holdover nothing overflows, but the last addition may. -/
theorem nowFromCaptureNsHoldoverChecked_eq (h : c.Reachable) (hp : c.epochCaptureNs = some ep)
    (hu : c.epochUnixNs = some eu) (ht : ep ≤ t) (hspan : t ≤ ep + 100000000000000000)
    (hlocal : t < 9223372036854775808) : c.nowFromCaptureNsHoldoverChecked t =
      checked (eu + c.holdoverElapsed (t - ep)) := by
  obtain ⟨hfreq, hslope⟩ := h.estimate
  rw [nowFromCaptureNsHoldoverChecked, hp, hu]
  simp only [Option.bind_eq_bind, Option.bind_some]
  rw [← Option.bind_eq_bind, checked_bind_of_natAbs_lt (by omega),
    checked_bind_of_natAbs_lt (by omega), checked_bind_of_natAbs_lt (by omega),
    correctedSlopeChecked_eq hfreq hslope (by omega)]
  rfl

end DisciplinedClock

/-- No part of a read-out at local time `q` overflows. -/
structure ReadsOut (c : DisciplinedClock) (epochNs : Nat) (unixNs : Int) (q : Nat) : Prop where
  localNs : q < 9223372036854775808
  elapsed : InI64 (asI64 q - asI64 epochNs)
  unix : InI64 (unixNs + c.trueElapsed (asI64 q - asI64 epochNs))

namespace ReadsOut

variable {c : DisciplinedClock}

theorem eq (h : ReadsOut c e u q) :
    wrap64 (u + c.trueElapsed (wrap64 (asI64 q - asI64 e))) =
      u + c.trueElapsed (asI64 q - asI64 e) := by
  rw [wrap64_of_inI64 h.elapsed, wrap64_of_inI64 h.unix]

theorem mono (h : ReadsOut c e u q) (h' : ReadsOut c e u q') (hq : q ≤ q')
    (hfreq : c.freqMppb.natAbs ≤ 1000000000000) :
    u + c.trueElapsed (asI64 q - asI64 e) ≤ u + c.trueElapsed (asI64 q' - asI64 e) := by
  have hlocal := asI64_of_lt h.localNs
  have hlocal' := asI64_of_lt h'.localNs
  have hmono := DisciplinedClock.trueElapsed_mono hfreq
    (by omega : asI64 q - asI64 e ≤ asI64 q' - asI64 e)
  omega

end ReadsOut

/-- Whatever the calls so far, no later local time reads as an earlier UTC, in holdover but for one
nanosecond of rounding. -/
theorem disciplined_utc_never_back (h : DisciplinedClock.Reachable c)
    (hu : c.epochUnixNs = some u) :
    (∀ e q q', c.epochQueryNs = some e → q ≤ q' → ReadsOut c e u q → ReadsOut c e u q' →
      ∃ t t', c.nowFromQueryNs q = some t ∧ c.nowFromQueryNs q' = some t' ∧ t ≤ t') ∧
    (∀ e q q', c.epochCaptureNs = some e → q ≤ q' → ReadsOut c e u q → ReadsOut c e u q' →
      ∃ t t', c.nowFromCaptureNs q = some t ∧ c.nowFromCaptureNs q' = some t' ∧ t ≤ t') ∧
    ∀ e q q', c.epochCaptureNs = some e → e ≤ q → q ≤ q' → q' ≤ e + 100000000000000000 →
      q' < 9223372036854775808 →
      c.nowFromCaptureNsHoldoverChecked q = checked (u + c.holdoverElapsed (q - e)) ∧
      (InI64 (u + c.holdoverElapsed (q - e)) → InI64 (u + c.holdoverElapsed (q' - e)) →
        ∃ t t', c.nowFromCaptureNsHoldoverChecked q = some t ∧
          c.nowFromCaptureNsHoldoverChecked q' = some t' ∧ c.nowFromCaptureNsHoldover q = some t ∧
          c.nowFromCaptureNsHoldover q' = some t' ∧ t ≤ t' + 1) := by
  obtain ⟨hfreq, hslope⟩ := h.estimate
  have hslow := Nat.le_trans hfreq (by decide : 1000154000 ≤ 1000000000000)
  refine ⟨?_, ?_, ?_⟩
  · intro e q q' he hq hout hout'
    refine ⟨_, _, DisciplinedClock.nowFromQueryNs_eq he hu q,
      DisciplinedClock.nowFromQueryNs_eq he hu q', ?_⟩
    rw [hout.eq, hout'.eq]
    exact hout.mono hout' hq hslow
  · intro e q q' he hq hout hout'
    refine ⟨_, _, DisciplinedClock.nowFromCaptureNs_eq he hu q,
      DisciplinedClock.nowFromCaptureNs_eq he hu q', ?_⟩
    rw [hout.eq, hout'.eq]
    exact hout.mono hout' hq hslow
  · intro e q q' he hstart hq hspan hlocal
    have hread := DisciplinedClock.nowFromCaptureNsHoldoverChecked_eq h he hu hstart (by omega)
      (by omega)
    have hread' := DisciplinedClock.nowFromCaptureNsHoldoverChecked_eq h he hu (by omega) hspan
      hlocal
    refine ⟨hread, ?_⟩
    intro hfits hfits'
    rw [checked_of_inI64 hfits] at hread
    rw [checked_of_inI64 hfits'] at hread'
    have hback := DisciplinedClock.holdoverElapsed_back hfreq hslope
      (by omega : (0 : Int) ≤ q - e) (by omega : (q : Int) - e ≤ q' - e) (by omega)
    exact ⟨_, _, hread, hread', DisciplinedClock.nowFromCaptureNsHoldover_of_checked hread,
      DisciplinedClock.nowFromCaptureNsHoldover_of_checked hread', by omega⟩

/-- A clock that runs 3 ppm fast, with an epoch a second after its start. -/
def fastClock : DisciplinedClock :=
  Mealy.final DisciplinedClock.handle .new
    [.updateFreq 1000003000, .updateEpoch 1000000000 1000000000 5000000000000]

theorem disciplined_utc_never_back_fast :
    ∃ t t', fastClock.nowFromCaptureNsHoldoverChecked 3000000000 = some t ∧
      fastClock.nowFromCaptureNsHoldoverChecked 3000000001 = some t' ∧
      fastClock.nowFromCaptureNsHoldover 3000000000 = some t ∧
      fastClock.nowFromCaptureNsHoldover 3000000001 = some t' ∧ t ≤ t' + 1 :=
  ((disciplined_utc_never_back (c := fastClock) ⟨_, rfl⟩ rfl).2.2 1000000000 3000000000 3000000001
    rfl (by decide) (by decide) (by decide) (by decide)).2 (by decide) (by decide)

/-- An epoch in the last second that an `i64` of nanoseconds can tell leaves no room for the
elapsed time. -/
theorem holdover_read_out_overflows :
    ¬∀ (c : DisciplinedClock) (e : Nat) (u : Int) (q : Nat), c.Reachable →
      c.epochCaptureNs = some e → c.epochUnixNs = some u → e ≤ q →
      q ≤ e + 100000000000000000 → c.nowFromCaptureNsHoldoverChecked q ≠ none := by
  intro hclaim
  have hsome := hclaim (DisciplinedClock.new.updateEpoch 0 0 9223372036854775807) 0
    9223372036854775807 1000000000 ⟨[.updateEpoch 0 0 9223372036854775807], rfl⟩ rfl rfl (by decide)
    (by decide)
  exact hsome (by decide)

end PicoGnss
