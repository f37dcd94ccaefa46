import Mathlib.Algebra.Order.BigOperators.Group.List
import PicoGnss.Lib.Rounding
import PicoGnss.RpPps.Loopback

/-! The offset of the two counters, as the mean of what they differ by on the same edges. -/

namespace PicoGnss
open FixedWidth
set_option autoImplicit true

/-- The loop over the samples, which keeps their sum and their number. -/
def addSample (acc : Int × Int) (sample : UInt32 × UInt32) : Int × Int :=
  (wrap64 (acc.1 + asI32 (sample.1 - sample.2)), wrap64 (acc.2 + 1))

def calibrateLoopbackOffset (samples : List (UInt32 × UInt32)) : Option UInt32 :=
  let (sum, n) := samples.foldl addSample (0, 0)
  if n = 0 then none else some (.ofInt (wrap32 (sum.tdiv n)))

/-- What the counters differ by on a sample, as the mean takes it. -/
def signedDiff (p : UInt32 × UInt32) : Int := asI32 (p.1 - p.2)

def unsignedDiff (p : UInt32 × UInt32) : Int := (p.1 - p.2).toNat

/-- Samples of one common offset, each off by `s` at most. -/
def SameEdge (K : Int) (s : Nat) (samples : List (UInt32 × UInt32)) : Prop :=
  ∀ p ∈ samples, ∃ e : Int, e.natAbs ≤ s ∧ p.1 - p.2 = .ofInt (K + e)

/-- Some samples are on the one side of the signed wrap and some on the other. -/
def Straddles (s : Nat) (samples : List (UInt32 × UInt32)) : Prop :=
  ∃ p ∈ samples, ∃ q ∈ samples, 2 * s < (signedDiff p - signedDiff q).natAbs

/-- How many samples the signed cast takes a whole turn off. -/
def turned (samples : List (UInt32 × UInt32)) : Nat :=
  samples.countP fun p => decide (signedDiff p < 0)

/-- The samples on one side of the wrap are so many that the turns of the others, shared out among
all, do not take the mean out of the slack. -/
def Outnumbered (s : Nat) (samples : List (UInt32 × UInt32)) : Prop :=
  (∀ p ∈ samples, 4294967296 * (turned samples : Int) + samples.length * unsignedDiff p ≤
    (samples.map unsignedDiff).sum + samples.length * (2 * s)) ∨
  ∀ p ∈ samples, 4294967296 * (samples.length - turned samples : Int) +
    (samples.map unsignedDiff).sum ≤ samples.length * unsignedDiff p + samples.length * (2 * s)

/-- Neither the sum of the samples nor their number leaves its word. -/
structure SumFits (samples : List (UInt32 × UInt32)) : Prop where
  sum : InI64 (samples.map signedDiff).sum
  count : samples.length < 9223372036854775808

theorem signedDiff_eq (p : UInt32 × UInt32) :
    signedDiff p = unsignedDiff p - 4294967296 * (if signedDiff p < 0 then 1 else 0) := by
  have hlt := (p.1 - p.2).toNat_lt
  rw [signedDiff, unsignedDiff, asI32]
  unfold wrap32
  split <;> omega

theorem sum_signedDiff (samples : List (UInt32 × UInt32)) :
    (samples.map signedDiff).sum =
      (samples.map unsignedDiff).sum - 4294967296 * (turned samples : Int) := by
  induction samples with
  | nil => rfl
  | cons p samples ih =>
    have hp := signedDiff_eq p
    rw [List.map_cons, List.map_cons, List.sum_cons, List.sum_cons, ih, turned, turned,
      List.countP_cons]
    simp only [decide_eq_true_eq]
    push_cast
    split at hp <;> rename_i hneg <;> simp only [hneg, ↓reduceIte] <;> omega

/-- Unbounded, the sums of the loop. -/
theorem foldl_sums (samples : List (UInt32 × UInt32)) (sum n : Int) :
    samples.foldl addSample (wrap64 sum, wrap64 n) =
      (wrap64 (sum + (samples.map signedDiff).sum), wrap64 (n + samples.length)) := by
  induction samples generalizing sum n with
  | nil => simp only [List.foldl_nil, List.map_nil, List.sum_nil, List.length_nil, Nat.cast_zero,
      Int.add_zero]
  | cons p samples ih =>
    have hstep : addSample (wrap64 sum, wrap64 n) p =
        (wrap64 (sum + signedDiff p), wrap64 (n + 1)) := by
      rw [addSample, Int.add_comm, wrap64_add_wrap64, Int.add_comm, Int.add_comm (wrap64 n),
        wrap64_add_wrap64, Int.add_comm 1, signedDiff]
    rw [List.foldl_cons, hstep, ih, List.map_cons, List.sum_cons, List.length_cons,
      Int.add_assoc, Int.add_assoc]
    push_cast
    rw [Int.add_comm 1]

section
variable {samples : List (UInt32 × UInt32)}

theorem signedDiff_mem (p : UInt32 × UInt32) :
    -2147483648 ≤ signedDiff p ∧ signedDiff p ≤ 2147483647 := by
  have hbounds := wrap32_bounds (p.1 - p.2).toNat
  rw [signedDiff, asI32]
  omega

/-- A sum of no more than `n` of one bound. -/
theorem sum_le_of_forall {f : UInt32 × UInt32 → Int} (h : ∀ p ∈ samples, f p ≤ m) :
    (samples.map f).sum ≤ samples.length * m := by
  have hsum := List.sum_le_card_nsmul (samples.map f) m fun x hx => by
    obtain ⟨p, hp, rfl⟩ := List.mem_map.1 hx
    exact h p hp
  rwa [List.length_map, nsmul_eq_mul] at hsum

theorem le_sum_of_forall {f : UInt32 × UInt32 → Int} (h : ∀ p ∈ samples, m ≤ f p) :
    samples.length * m ≤ (samples.map f).sum := by
  have hsum := List.card_nsmul_le_sum (samples.map f) m fun x hx => by
    obtain ⟨p, hp, rfl⟩ := List.mem_map.1 hx
    exact h p hp
  rwa [List.length_map, nsmul_eq_mul] at hsum

/-- Four billion samples cannot take the sum out of its word. -/
theorem sumFits_of_length_le (hlen : samples.length ≤ 4294967296) : SumFits samples := by
  have hlow : samples.length * -2147483648 ≤ (samples.map signedDiff).sum :=
    le_sum_of_forall fun p _ => (signedDiff_mem p).1
  have hhigh : (samples.map signedDiff).sum ≤ samples.length * 2147483647 :=
    sum_le_of_forall fun p _ => (signedDiff_mem p).2
  refine ⟨⟨?_, ?_⟩, ?_⟩ <;> omega

/-- The mean, where the sum fits its word. -/
theorem calibrateLoopbackOffset_eq (hne : samples ≠ []) (hfits : SumFits samples) :
    calibrateLoopbackOffset samples =
      some (.ofInt ((samples.map signedDiff).sum.tdiv samples.length)) := by
  have hpos : 0 < samples.length := List.length_pos_iff.2 hne
  have hlow : samples.length * -2147483648 ≤ (samples.map signedDiff).sum :=
    le_sum_of_forall fun p _ => (signedDiff_mem p).1
  have hhigh : (samples.map signedDiff).sum ≤ samples.length * 2147483647 :=
    sum_le_of_forall fun p _ => (signedDiff_mem p).2
  have hcount : InI64 samples.length := by
    have hlt := hfits.count
    unfold InI64
    omega
  have hmean_low := Rounding.le_tdiv (Int.natCast_pos.2 hpos) hlow
  have hmean_high := Rounding.tdiv_le (Int.natCast_pos.2 hpos) hhigh
  have hfold := foldl_sums samples 0 0
  rw [wrap64_zero, Int.zero_add, Int.zero_add, wrap64_of_inI64 hfits.sum,
    wrap64_of_inI64 hcount] at hfold
  simp only [calibrateLoopbackOffset, hfold]
  rw [if_neg (by omega), wrap32_of_mem (by omega) (by omega)]

theorem loopbackRawLagTicks_ofInt (p : UInt32 × UInt32) (c : Int) :
    loopbackRawLagTicks p.1 p.2 (.ofInt c) = wrap32 (signedDiff p - c) :=
  asI32_sub_ofInt (p.1 - p.2) c

/-- Two samples are as close as their errors, or a whole turn further apart. -/
theorem SameEdge.apart (h : SameEdge K s samples) (hp : p ∈ samples) (hq : q ∈ samples)
    (hs : s ≤ 1000) : (signedDiff p - signedDiff q).natAbs ≤ 2 * s ∨
      4294967296 ≤ (signedDiff p - signedDiff q).natAbs + 2 * s := by
  obtain ⟨e, he, hep⟩ := h p hp
  obtain ⟨e', he', heq⟩ := h q hq
  rw [signedDiff, signedDiff, hep, heq, asI32_ofInt, asI32_ofInt]
  unfold wrap32
  omega

/-- Samples across the wrap from one another are all beside it. -/
theorem SameEdge.beside (h : SameEdge K s samples) (hs : s ≤ 1000)
    (hstraddles : Straddles s samples) (hp : p ∈ samples) :
    2147479648 ≤ (signedDiff p).natAbs := by
  obtain ⟨q, hq, q', hq', hfar⟩ := hstraddles
  have hturn := (h.apart hq hq' hs).resolve_left (Nat.not_le.2 hfar)
  have hfirst := h.apart hp hq hs
  have hmem := signedDiff_mem q
  have hmem' := signedDiff_mem q'
  generalize signedDiff p = x at *
  generalize signedDiff q = y at *
  generalize signedDiff q' = y' at *
  omega

/-- Across the wrap, the unsigned differences stay together, about half a turn. -/
theorem SameEdge.together (h : SameEdge K s samples) (hs : s ≤ 1000)
    (hstraddles : Straddles s samples) (hp : p ∈ samples) (hq : q ∈ samples) :
    2147479648 ≤ unsignedDiff p ∧ unsignedDiff p ≤ 2147487648 ∧
      unsignedDiff p ≤ unsignedDiff q + 2 * s := by
  have hbeside := h.beside hs hstraddles hp
  have hbeside' := h.beside hs hstraddles hq
  have hnear := h.apart hp hq hs
  have hmem := signedDiff_mem p
  have hmem' := signedDiff_mem q
  have heq := signedDiff_eq p
  have heq' := signedDiff_eq q
  generalize signedDiff p = x at *
  generalize signedDiff q = y at *
  by_cases hx : x < 0
  · rw [if_pos hx] at heq
    by_cases hy : y < 0
    · rw [if_pos hy] at heq'
      omega
    · rw [if_neg hy] at heq'
      omega
  · rw [if_neg hx] at heq
    by_cases hy : y < 0
    · rw [if_pos hy] at heq'
      omega
    · rw [if_neg hy] at heq'
      omega

/-- The lags that a mean leaves. -/
def NullsWith (s : Nat) (samples : List (UInt32 × UInt32)) (c : Int) : Prop :=
  ∀ p ∈ samples, (wrap32 (signedDiff p - c)).natAbs ≤ 2 * s

theorem nulls_of_not_straddles (hne : samples ≠ []) (hs : s ≤ 1000)
    (hstraddles : ¬Straddles s samples) :
    NullsWith s samples ((samples.map signedDiff).sum.tdiv samples.length) := by
  have hpos : 0 < (samples.length : Int) := Int.natCast_pos.2 (List.length_pos_iff.2 hne)
  have hclose (p) (hp : p ∈ samples) (q) (hq : q ∈ samples) :
      (signedDiff p - signedDiff q).natAbs ≤ 2 * s := by
    apply Nat.le_of_not_lt
    intro hfar
    exact hstraddles ⟨p, hp, q, hq, hfar⟩
  intro p hp
  have hlow : samples.length * (signedDiff p - 2 * s) ≤ (samples.map signedDiff).sum :=
    le_sum_of_forall fun q hq => by
      have hpq := hclose p hp q hq
      omega
  have hhigh : (samples.map signedDiff).sum ≤ samples.length * (signedDiff p + 2 * s) :=
    sum_le_of_forall fun q hq => by
      have hpq := hclose p hp q hq
      omega
  have hmean_low := Rounding.le_tdiv hpos hlow
  have hmean_high := Rounding.tdiv_le hpos hhigh
  rw [wrap32_of_mem (by omega) (by omega)]
  omega

/-- A lag is small where the mean is as close, or a turn below. -/
theorem SameEdge.small_iff (h : SameEdge K s samples) (hs : s ≤ 1000)
    (hstraddles : Straddles s samples) (hp : p ∈ samples) (hl : -2147483648 ≤ c)
    (hh : c ≤ 2147483647) :
    (wrap32 (signedDiff p - c)).natAbs ≤ 2 * s ↔
      (unsignedDiff p - c).natAbs ≤ 2 * s ∨
        (unsignedDiff p - 4294967296 - c).natAbs ≤ 2 * s := by
  obtain ⟨hlow, hhigh, -⟩ := h.together hs hstraddles hp hp
  have heq := signedDiff_eq p
  generalize unsignedDiff p = v at *
  generalize signedDiff p = x at *
  unfold wrap32
  split at heq <;> omega

/-- Across the wrap, the mean of so many samples is close to them only where one side is
outnumbered. -/
theorem SameEdge.nulls_iff_outnumbered (h : SameEdge K s samples) (hs : s ≤ 1000)
    (hstraddles : Straddles s samples) :
    NullsWith s samples ((samples.map signedDiff).sum.tdiv samples.length) ↔
      Outnumbered s samples := by
  obtain ⟨p, hp, -⟩ := id hstraddles
  have hpos : 0 < (samples.length : Int) :=
    Int.natCast_pos.2 (List.length_pos_iff.2 (List.ne_nil_of_mem hp))
  have hlow : -2147483648 ≤ (samples.map signedDiff).sum.tdiv samples.length :=
    Rounding.le_tdiv hpos (le_sum_of_forall fun p _ => (signedDiff_mem p).1)
  have hhigh : (samples.map signedDiff).sum.tdiv samples.length ≤ 2147483647 :=
    Rounding.tdiv_le hpos (sum_le_of_forall fun p _ => (signedDiff_mem p).2)
  obtain ⟨hpositive, hnegative⟩ := Rounding.tdiv_bounds hpos (samples.map signedDiff).sum
  have hsum := sum_signedDiff samples
  have hturned : (turned samples : Int) ≤ samples.length :=
    Int.ofNat_le.2 List.countP_le_length
  have hmean (q) (hq : q ∈ samples) := h.small_iff hs hstraddles hq hlow hhigh
  have htop (q) (hq : q ∈ samples) : (samples.map unsignedDiff).sum ≤
      samples.length * (unsignedDiff q + 2 * s) :=
    sum_le_of_forall fun r hr => (h.together hs hstraddles hr hq).2.2
  have hbottom (q) (hq : q ∈ samples) : samples.length * (unsignedDiff q - 2 * s) ≤
      (samples.map unsignedDiff).sum :=
    le_sum_of_forall fun r hr => by
      have hqr := (h.together hs hstraddles hq hr).2.2
      omega
  have hbig := h.together hs hstraddles hp hp
  have hrange (q) (hq : q ∈ samples) := h.together hs hstraddles hq hq
  rw [NullsWith, forall₂_congr hmean, Outnumbered]
  generalize (samples.map signedDiff).sum = sum at *
  generalize hc : sum.tdiv samples.length = c at *
  generalize (samples.map unsignedDiff).sum = total at *
  generalize (samples.length : Int) = n at *
  constructor
  · intro hnulls
    rcases hnulls p hp with hnear | hnear
    · refine .inl fun q hq => ?_
      have hle : unsignedDiff q - 2 * s ≤ c := by
        have hrange' := hrange q hq
        rcases hnulls q hq with hq' | hq' <;> omega
      have hmul := Int.mul_le_mul_of_nonneg_left hle hpos.le
      have hmean' := (hpositive (by omega)).2.1
      rw [Int.mul_sub] at hmul
      omega
    · refine .inr fun q hq => ?_
      have hle : c ≤ unsignedDiff q - 4294967296 + 2 * s := by
        have hrange' := hrange q hq
        rcases hnulls q hq with hq' | hq' <;> omega
      have hmul := Int.mul_le_mul_of_nonneg_left hle hpos.le
      have hmean' := (hnegative (by omega)).2.1
      rw [Int.mul_add, Int.mul_sub] at hmul
      omega
  · rintro (hfew | hfew) q hq
    · have hfew' := hfew q hq
      have htop' := htop q hq
      have hle : unsignedDiff q - 2 * s ≤ c := by
        rw [← hc]
        apply Rounding.le_tdiv hpos
        rw [Int.mul_sub]
        omega
      have hge : c ≤ unsignedDiff q + 2 * s := by
        rw [← hc]
        apply Rounding.tdiv_le hpos
        omega
      exact .inl (by omega)
    · have hfew' := hfew q hq
      have hbottom' := hbottom q hq
      rw [Int.mul_sub] at hbottom'
      have hle : c ≤ unsignedDiff q - 4294967296 + 2 * s := by
        rw [← hc]
        apply Rounding.tdiv_le hpos
        rw [Int.mul_add, Int.mul_sub]
        omega
      have hge : unsignedDiff q - 4294967296 - 2 * s ≤ c := by
        rw [← hc]
        apply Rounding.le_tdiv hpos
        rw [Int.mul_sub, Int.mul_sub]
        omega
      exact .inr (by omega)

/-- Among at most a million samples no side is that small: what is left is not to straddle. -/
theorem SameEdge.not_outnumbered (h : SameEdge K s samples) (hs : s ≤ 1000)
    (hstraddles : Straddles s samples) (hfew : samples.length ≤ 1000000) :
    ¬Outnumbered s samples := by
  obtain ⟨p, hp, q, hq, hfar⟩ := id hstraddles
  have hsign : signedDiff p < 0 ∧ 0 ≤ signedDiff q ∨ signedDiff q < 0 ∧ 0 ≤ signedDiff p := by
    have hturn := (h.apart hp hq hs).resolve_left (Nat.not_le.2 hfar)
    have hmem := signedDiff_mem p
    have hmem' := signedDiff_mem q
    omega
  have hsome : 0 < turned samples := by
    apply List.countP_pos_iff.2
    rcases hsign with ⟨hneg, -⟩ | ⟨hneg, -⟩
    · exact ⟨p, hp, decide_eq_true hneg⟩
    · exact ⟨q, hq, decide_eq_true hneg⟩
  have hrest : turned samples < samples.length := by
    apply Nat.lt_of_le_of_ne List.countP_le_length
    intro hall
    have hturned := List.countP_eq_length.1 hall
    have hneg := of_decide_eq_true (hturned p hp)
    have hneg' := of_decide_eq_true (hturned q hq)
    omega
  have htop : (samples.map unsignedDiff).sum ≤ samples.length * (unsignedDiff p + 2 * s) :=
    sum_le_of_forall fun r hr => (h.together hs hstraddles hr hp).2.2
  have hbottom : samples.length * (unsignedDiff p - 2 * s) ≤ (samples.map unsignedDiff).sum :=
    le_sum_of_forall fun r hr => by
      have hpr := (h.together hs hstraddles hp hr).2.2
      omega
  have hslack : (samples.length : Int) * (2 * s) ≤ samples.length * 2000 :=
    Int.mul_le_mul_of_nonneg_left (by omega) (by omega)
  rw [Int.mul_add] at htop
  rw [Int.mul_sub] at hbottom
  rintro (houtnumbered | houtnumbered)
  · have hp' := houtnumbered p hp
    omega
  · have hp' := houtnumbered p hp
    omega

end

/-- The calibrated offset nulls its own samples exactly where they do not straddle the wrap, or do
with one side outnumbered by millions. -/
theorem calibration_nulls_iff (samples : List (UInt32 × UInt32)) (hne : samples ≠ [])
    (hfits : SumFits samples) (K : Int) (s : Nat) (hs : s ≤ 1000)
    (hsame : SameEdge K s samples) :
    (∃ c, calibrateLoopbackOffset samples = some c ∧
      ∀ p ∈ samples, (loopbackRawLagTicks p.1 p.2 c).natAbs ≤ 2 * s) ↔
    ¬Straddles s samples ∨ Outnumbered s samples := by
  rw [calibrateLoopbackOffset_eq hne hfits]
  have hnulls : (∃ c, some (UInt32.ofInt ((samples.map signedDiff).sum.tdiv samples.length)) =
      some c ∧ ∀ p ∈ samples, (loopbackRawLagTicks p.1 p.2 c).natAbs ≤ 2 * s) ↔
      NullsWith s samples ((samples.map signedDiff).sum.tdiv samples.length) := by
    simp only [Option.some.injEq, exists_eq_left', loopbackRawLagTicks_ofInt, NullsWith]
  rw [hnulls]
  by_cases hstraddles : Straddles s samples
  · rw [hsame.nulls_iff_outnumbered hs hstraddles]
    constructor
    · exact .inr
    · rintro (hside | hfew)
      · exact absurd hstraddles hside
      · exact hfew
  · constructor
    · intro _
      exact .inl hstraddles
    · intro _
      exact nulls_of_not_straddles hne hs hstraddles

/-- Two captures of each of two edges, one counter a turn and some ticks past the other. -/
theorem calibration_nulls_pair :
    SameEdge 4294967396 1 [(5000, 4901), (8000, 7899)] ∧
    ∃ c, calibrateLoopbackOffset [(5000, 4901), (8000, 7899)] = some c ∧
      ∀ p ∈ [(5000, 4901), (8000, 7899)], (loopbackRawLagTicks p.1 p.2 c).natAbs ≤ 2 * 1 := by
  have hsame : SameEdge 4294967396 1 [(5000, 4901), (8000, 7899)] := by
    intro p hp
    rcases List.mem_pair.1 hp with rfl | rfl
    · exact ⟨-1, by decide, by decide⟩
    · exact ⟨1, by decide, by decide⟩
  refine ⟨hsame, (calibration_nulls_iff _ (by decide) (sumFits_of_length_le (by decide))
    4294967396 1 (by decide) hsame).2 (.inl ?_)⟩
  unfold Straddles
  decide

/-- Counters half a turn apart: one sample on either side of the wrap, and a mean far from both. -/
theorem calibration_straddles :
    ¬∀ samples : List (UInt32 × UInt32), samples ≠ [] → ∀ (K : Int) (s : Nat), s ≤ 1000 →
      SameEdge K s samples → ∃ c, calibrateLoopbackOffset samples = some c ∧
        ∀ p ∈ samples, (loopbackRawLagTicks p.1 p.2 c).natAbs ≤ 2 * s := by
  intro h
  have hsame : SameEdge 2147483648 1 [(2147483648, 0), (2147483647, 0)] := by
    intro p hp
    rcases List.mem_pair.1 hp with rfl | rfl
    · exact ⟨0, by decide, by decide⟩
    · exact ⟨-1, by decide, by decide⟩
  obtain ⟨c, hc, hnulls⟩ := h _ (by decide) 2147483648 1 (by decide) hsame
  have hzero : calibrateLoopbackOffset [(2147483648, 0), (2147483647, 0)] = some 0 := by decide
  cases hc.symm.trans hzero
  exact absurd (hnulls (2147483648, 0) (List.mem_cons_self ..)) (by decide)

end PicoGnss
