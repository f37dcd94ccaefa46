import PicoGnss.Lib.FixedWidth

namespace PicoGnss
set_option autoImplicit true

open FixedWidth

def ntpUnixOffsetSecs : Int := 2208988800
def nanosPerSec : Int := 1000000000
def eraSecs : Int := 4294967296

/-- Seconds since 1900 without the era, and a binary fraction of a second. -/
structure NtpTimestamp where
  secs : UInt32
  frac : UInt32
deriving DecidableEq

def NtpTimestamp.zero : NtpTimestamp := ⟨0, 0⟩

def NtpTimestamp.fromBits (bits : UInt64) : NtpTimestamp := ⟨(bits >>> 32).toUInt32, bits.toUInt32⟩

def NtpTimestamp.toBits (t : NtpTimestamp) : UInt64 := t.secs.toUInt64 <<< 32 ||| t.frac.toUInt64

def NtpTimestamp.fromUnixNs (unixNs : Int) : NtpTimestamp :=
  let secsFloor := unixNs / nanosPerSec
  let nanos := (unixNs % nanosPerSec).toNat
  let ntpFull := secsFloor + ntpUnixOffsetSecs
  let frac := (nanos * 4294967296 + 1000000000 / 2) / 1000000000
  ⟨.ofNat (ntpFull % eraSecs).toNat, .ofNat frac⟩

def NtpTimestamp.toUnixNsInEra (t : NtpTimestamp) (era : Int) : Int :=
  let ntpFull := era * eraSecs + t.secs.toNat
  let unixSecs := ntpFull - ntpUnixOffsetSecs
  let nanos := (t.frac.toNat * 1000000000 + 2147483648) / 4294967296
  let total := unixSecs * nanosPerSec + nanos
  if total > 9223372036854775807 then 9223372036854775807
  else if total < -9223372036854775808 then -9223372036854775808
  else total

/-- One candidate of the era search: keep the era of the strictly smaller distance. -/
def NtpTimestamp.closer (t : NtpTimestamp) (refNtpFull : Int) (best : Int × Nat) (era : Int) :
    Int × Nat :=
  let cand := era * eraSecs + t.secs.toNat
  let diff := (cand - refNtpFull).natAbs
  if diff < best.2 then (era, diff) else best

def NtpTimestamp.toUnixNsNear (t : NtpTimestamp) (referenceUnixNs : Int) : Int :=
  let refNtpFull := referenceUnixNs / nanosPerSec + ntpUnixOffsetSecs
  let refEra := refNtpFull / eraSecs
  let best := [refEra - 1, refEra, refEra + 1].foldl (t.closer refNtpFull)
    (refEra, 9223372036854775807)
  t.toUnixNsInEra best.1

/-- Seconds and a binary fraction in sixteen bits each. -/
structure NtpShort where
  bits : UInt32
deriving DecidableEq

def NtpShort.zero : NtpShort := ⟨0⟩

def NtpShort.fromNanos (nanos : UInt64) : NtpShort :=
  let secs := nanos.toNat / 1000000000
  if secs > 65535 then ⟨.ofNat 4294967295⟩
  else
    let rem := nanos.toNat % 1000000000
    let frac := (rem * 65536 + 1000000000 / 2) / 1000000000
    let bits := secs * 65536 + frac
    if bits > 4294967295 then ⟨.ofNat 4294967295⟩ else ⟨.ofNat bits⟩

def NtpShort.toNanos (s : NtpShort) : UInt64 :=
  let secs := s.bits.toNat / 65536
  let frac := s.bits.toNat % 65536
  .ofNat (secs * 1000000000 + (frac * 1000000000 + 32768) / 65536)

theorem NtpTimestamp.toNat_toBits (t : NtpTimestamp) :
    t.toBits.toNat = t.secs.toNat * 4294967296 + t.frac.toNat := by
  have hs := t.secs.toNat_lt
  have hf := t.frac.toNat_lt
  rw [toBits, UInt64.toNat_or, UInt64.toNat_shiftLeft, UInt32.toNat_toUInt64,
    UInt32.toNat_toUInt64]
  have hshift : t.secs.toNat <<< 32 = t.secs.toNat * 4294967296 := Nat.shiftLeft_eq _ 32
  have h32 : UInt64.toNat 32 % 64 = 32 := rfl
  rw [h32, Nat.mod_eq_of_lt (by omega), ← Nat.shiftLeft_add_eq_or_of_lt hf, hshift]

theorem NtpTimestamp.fromBits_toBits (t : NtpTimestamp) : fromBits t.toBits = t := by
  have hs := t.secs.toNat_lt
  have hf := t.frac.toNat_lt
  have hb := t.toNat_toBits
  have hsecs : (t.toBits >>> 32).toUInt32 = t.secs := by
    apply UInt32.toNat_inj.1
    have h32 : UInt64.toNat 32 % 64 = 32 := rfl
    rw [UInt64.toNat_toUInt32, UInt64.toNat_shiftRight, h32, hb, Nat.shiftRight_eq_div_pow]
    omega
  have hfrac : t.toBits.toUInt32 = t.frac := by
    apply UInt32.toNat_inj.1
    rw [UInt64.toNat_toUInt32, hb]
    omega
  rw [fromBits, hsecs, hfrac]

theorem NtpTimestamp.toBits_fromBits (bits : UInt64) : (fromBits bits).toBits = bits := by
  have hbits := bits.toNat_lt
  have h32 : UInt64.toNat 32 % 64 = 32 := rfl
  apply UInt64.toNat_inj.1
  rw [toNat_toBits, fromBits, UInt64.toNat_toUInt32, UInt64.toNat_toUInt32,
    UInt64.toNat_shiftRight, h32, Nat.shiftRight_eq_div_pow]
  omega

/-- How far a candidate era is from the reference, in seconds. -/
def NtpTimestamp.eraDist (t : NtpTimestamp) (ref era : Int) : Nat :=
  (era * eraSecs + t.secs.toNat - ref).natAbs

theorem NtpTimestamp.closer_of_lt (h : eraDist t ref era < d) :
    t.closer ref (e, d) era = (era, t.eraDist ref era) := if_pos h

theorem NtpTimestamp.closer_of_le (h : d ≤ eraDist t ref era) :
    t.closer ref (e, d) era = (e, d) := if_neg (Nat.not_lt.2 h)

/-- The era nearest to the reference is the one the seconds came from. -/
theorem NtpTimestamp.foldl_closer (t : NtpTimestamp) (full ref : Int)
    (hsecs : full % eraSecs = t.secs.toNat) (hnear : (full - ref).natAbs < 2147483648) :
    ([ref / eraSecs - 1, ref / eraSecs, ref / eraSecs + 1].foldl (t.closer ref)
      (ref / eraSecs, 9223372036854775807)).1 = full / eraSecs := by
  have hs := t.secs.toNat_lt
  unfold eraSecs at hsecs ⊢
  have hera : full / 4294967296 = ref / 4294967296 - 1 ∨ full / 4294967296 = ref / 4294967296 ∨
      full / 4294967296 = ref / 4294967296 + 1 := by
    omega
  have hfirst : t.eraDist ref (ref / 4294967296 - 1) < 9223372036854775807 := by
    unfold eraDist eraSecs
    omega
  rw [List.foldl_cons, closer_of_lt hfirst, List.foldl_cons, List.foldl_cons, List.foldl_nil]
  obtain h | h | h := hera
  · have h1 : t.eraDist ref (ref / 4294967296 - 1) ≤ t.eraDist ref (ref / 4294967296) := by
      unfold eraDist eraSecs
      omega
    have h2 : t.eraDist ref (ref / 4294967296 - 1) ≤ t.eraDist ref (ref / 4294967296 + 1) := by
      unfold eraDist eraSecs
      omega
    rw [closer_of_le h1, closer_of_le h2, h]
  · have h1 : t.eraDist ref (ref / 4294967296) < t.eraDist ref (ref / 4294967296 - 1) := by
      unfold eraDist eraSecs
      omega
    have h2 : t.eraDist ref (ref / 4294967296) ≤ t.eraDist ref (ref / 4294967296 + 1) := by
      unfold eraDist eraSecs
      omega
    rw [closer_of_lt h1, closer_of_le h2, h]
  · have h1 : t.eraDist ref (ref / 4294967296) < t.eraDist ref (ref / 4294967296 - 1) := by
      unfold eraDist eraSecs
      omega
    have h2 : t.eraDist ref (ref / 4294967296 + 1) < t.eraDist ref (ref / 4294967296) := by
      unfold eraDist eraSecs
      omega
    rw [closer_of_lt h1, closer_of_lt h2, h]

/-- A nanosecond count survives the binary fraction. -/
theorem nanos_frac (h : n < 1000000000) :
    (n * 4294967296 + 1000000000 / 2) / 1000000000 < 4294967296 ∧
      ((n * 4294967296 + 1000000000 / 2) / 1000000000 * 1000000000 + 2147483648) / 4294967296 =
        n := by
  omega

theorem NtpTimestamp.toUnixNsInEra_fromUnixNs (h : InI64 u) :
    (fromUnixNs u).toUnixNsInEra ((u / nanosPerSec + ntpUnixOffsetSecs) / eraSecs) = u := by
  obtain ⟨hf, hn⟩ := nanos_frac (n := (u % nanosPerSec).toNat) (by unfold nanosPerSec; omega)
  have hfrac : (fromUnixNs u).frac.toNat =
      ((u % nanosPerSec).toNat * 4294967296 + 1000000000 / 2) / 1000000000 := by
    rw [fromUnixNs, UInt32.toNat_ofNat', Nat.mod_eq_of_lt hf]
  have hsecs : ((fromUnixNs u).secs.toNat : Int) =
      (u / nanosPerSec + ntpUnixOffsetSecs) % eraSecs := by
    rw [fromUnixNs, UInt32.toNat_ofNat']
    unfold eraSecs
    omega
  have htotal : ((u / nanosPerSec + ntpUnixOffsetSecs) / eraSecs * eraSecs +
      (u / nanosPerSec + ntpUnixOffsetSecs) % eraSecs - ntpUnixOffsetSecs) * nanosPerSec +
      ((u % nanosPerSec).toNat : Int) = u := by
    unfold eraSecs nanosPerSec
    omega
  unfold InI64 at h
  simp only [toUnixNsInEra, hfrac, hn, hsecs, htotal]
  rw [if_neg (by omega), if_neg (by omega)]

/-- Wire conversion and era resolution give the time back within half an era of the reference. -/
theorem NtpTimestamp.toUnixNsNear_fromUnixNs (h : InI64 u)
    (hnear : (u - r).natAbs ≤ 2147483647 * 1000000000) : (fromUnixNs u).toUnixNsNear r = u := by
  have hsecs : (u / nanosPerSec + ntpUnixOffsetSecs) % eraSecs = (fromUnixNs u).secs.toNat := by
    rw [fromUnixNs, UInt32.toNat_ofNat']
    unfold eraSecs
    omega
  have hdist : ((u / nanosPerSec + ntpUnixOffsetSecs) -
      (r / nanosPerSec + ntpUnixOffsetSecs)).natAbs < 2147483648 := by
    unfold nanosPerSec
    omega
  simp only [toUnixNsNear]
  rw [foldl_closer _ _ _ hsecs hdist, toUnixNsInEra_fromUnixNs h]

end PicoGnss
