import PicoGnss.Lib.Window
import PicoGnss.RpPps.Calibration
import PicoGnss.RpPps.EdgeTimeline

/-! The offset `k` of the two capture counters: found at boot, measured again while the loop is
locked, and slewed to what was measured. -/

namespace PicoGnss
open FixedWidth
set_option autoImplicit true

def recalSamples : Nat := 6
def recalSampleTickGate : Nat := 64
def recalKSlewTicks : Int := 2

/-- The least and the greatest difference, from the far ends of the signed words. -/
def diffRange (samples : List (UInt32 × UInt32)) : Int × Int :=
  Window.extremes (2147483647, -2147483648) (samples.map signedDiff)

def diffSpread (samples : List (UInt32 × UInt32)) : Int :=
  (diffRange samples).2 - (diffRange samples).1

structure BootK where
  k : UInt32
  n : Nat
  clean : Bool

/-- The attempts at boot, each with the samples of its edges: the first clean one ends it, and one
without samples gives up. -/
def bootCalibrate (k : UInt32) (n : Nat) : List (List (UInt32 × UInt32)) → BootK
  | [] => ⟨k, n, false⟩
  | samples :: rest =>
    if samples = [] then ⟨k, n, false⟩
    else
      let (k, n) := match calibrateLoopbackOffset samples with
        | some kk => (kk, samples.length)
        | none => (k, n)
      if 3 ≤ samples.length ∧ diffSpread samples ≤ 1 then ⟨k, n, true⟩
      else bootCalibrate k n rest

/-- A sample this far from the offset in use is of two different edges. -/
def sampleGated (k : UInt32) (sample : UInt32 × UInt32) : Bool :=
  decide (recalSampleTickGate < (wrap32 (signedDiff sample - asI32 k)).natAbs)

/-- The offset that a measurement ends with: the old one, unless the samples are enough and agree
and their mean is no jump. -/
def evaluateRecal (k : UInt32) (samples : List (UInt32 × UInt32)) : UInt32 :=
  if samples.length < 3 then k
  else if 2 < diffSpread samples then k
  else
    match calibrateLoopbackOffset samples with
    | none => k
    | some nk => if 500 < wrap32 (asI32 (nk - k)).natAbs then k else nk

/-- One edge's step of the offset towards what was measured. -/
def slewK (k kTarget : UInt32) : UInt32 :=
  if k ≠ kTarget then
    k + .ofInt (clamp (asI32 (kTarget - k)) (-recalKSlewTicks) recalKSlewTicks)
  else k

/-- How far two offsets are apart on the circle of the counter. -/
def kDistance (k k' : UInt32) : Nat := (asI32 (k' - k)).natAbs

theorem diffRange_bounds (hp : p ∈ samples) :
    (diffRange samples).1 ≤ signedDiff p ∧ signedDiff p ≤ (diffRange samples).2 :=
  Window.extremes_bounds _ (List.mem_map_of_mem hp)

theorem diffSpread_le (h : diffSpread samples ≤ s) (hp : p ∈ samples) (hq : q ∈ samples) :
    (signedDiff p - signedDiff q).natAbs ≤ s := by
  have hp := diffRange_bounds hp
  have hq := diffRange_bounds hq
  rw [diffSpread] at h
  omega

/-- The mean of samples that agree to `s` ticks is as close to each of them. -/
theorem mean_near (hne : samples ≠ []) (hs : diffSpread samples ≤ s) (hp : p ∈ samples) :
    ((samples.map signedDiff).sum.tdiv samples.length - signedDiff p).natAbs ≤ s := by
  have hpos : (0 : Int) < samples.length := Int.natCast_pos.2 (List.length_pos_iff.2 hne)
  have hlow : samples.length * (signedDiff p - s) ≤ (samples.map signedDiff).sum :=
    le_sum_of_forall fun q hq => by
      have := diffSpread_le hs hp hq
      omega
  have hhigh : (samples.map signedDiff).sum ≤ samples.length * (signedDiff p + s) :=
    sum_le_of_forall fun q hq => by
      have := diffSpread_le hs hp hq
      omega
  have hlow := Rounding.le_tdiv hpos hlow
  have hhigh := Rounding.tdiv_le hpos hhigh
  omega

theorem asI32_sub (x y : UInt32) : asI32 (x - y) = wrap32 (asI32 x - asI32 y) := by
  have hy : y = .ofInt y.toNat := by
    rw [UInt32.ofInt, ← UInt32.toNat_inj, UInt32.toNat_ofNat']
    have hlt := y.toNat_lt
    omega
  have hsub := asI32_sub_ofInt x y.toNat
  rw [← hy] at hsub
  rw [hsub, asI32, asI32]
  unfold wrap32
  omega

/-- A mean of samples that agree, none of them gated, is as close to the old offset as they are. -/
theorem mean_ungated (hne : samples ≠ []) (hs : diffSpread samples ≤ 2)
    (hgate : ∀ p ∈ samples, sampleGated k p = false) :
    (wrap32 ((samples.map signedDiff).sum.tdiv samples.length - asI32 k)).natAbs ≤
      recalSampleTickGate := by
  have hgate : ∀ p ∈ samples, (wrap32 (signedDiff p - asI32 k)).natAbs ≤ 64 := by
    intro p hp
    exact Nat.le_of_not_lt (of_decide_eq_false (hgate p hp))
  obtain ⟨p, hp⟩ := List.exists_mem_of_ne_nil samples hne
  -- the samples are all in the turn of the first one, and so is their mean
  obtain ⟨turn, hturn⟩ : ∃ turn : Int, ∀ q ∈ samples,
      asI32 k + turn * 4294967296 - 64 ≤ signedDiff q ∧
        signedDiff q ≤ asI32 k + turn * 4294967296 + 64 := by
    refine ⟨(signedDiff p - asI32 k + 2147483648) / 4294967296, fun q hq => ?_⟩
    have hfirst := hgate p hp
    have hother := hgate q hq
    have hclose := diffSpread_le hs hp hq
    unfold wrap32 at hfirst hother
    omega
  have hpos : (0 : Int) < samples.length := Int.natCast_pos.2 (List.length_pos_iff.2 hne)
  have hlow := Rounding.le_tdiv hpos (le_sum_of_forall fun q hq => (hturn q hq).1)
  have hhigh := Rounding.tdiv_le hpos (sum_le_of_forall fun q hq => (hturn q hq).2)
  rw [recalSampleTickGate]
  unfold wrap32
  omega

/-- What a measurement ends with: the old offset, or one that is no further from it than the gate
and leaves each of at least three samples within two ticks. -/
structure Adopted (k k' : UInt32) (samples : List (UInt32 × UInt32)) : Prop where
  enough : 3 ≤ samples.length
  nulls : ∀ p ∈ samples, (loopbackRawLagTicks p.1 p.2 k').natAbs ≤ 2
  near : kDistance k k' ≤ recalSampleTickGate

/-- The measurement is adopted whenever there are three samples that agree: the cap on the jump
never turns one down that the gate has let pass. -/
theorem evaluateRecal_adopted (hlen : samples.length ≤ 4294967296)
    (hgate : ∀ p ∈ samples, sampleGated k p = false) (henough : 3 ≤ samples.length)
    (hs : diffSpread samples ≤ 2) : Adopted k (evaluateRecal k samples) samples ∧
      calibrateLoopbackOffset samples = some (evaluateRecal k samples) := by
  have hne : samples ≠ [] := List.ne_nil_of_length_pos (by omega)
  have hmean := calibrateLoopbackOffset_eq hne (sumFits_of_length_le hlen)
  have hnear := mean_ungated hne hs hgate
  let m := (samples.map signedDiff).sum.tdiv samples.length
  have hjump : asI32 (.ofInt m - k) = wrap32 (m - asI32 k) := by
    rw [asI32_sub, asI32_ofInt]
    unfold wrap32
    omega
  have heval : evaluateRecal k samples = .ofInt m := by
    rw [evaluateRecal, if_neg (by omega), if_neg (by omega)]
    simp only [hmean]
    rw [if_neg]
    rw [hjump]
    rw [recalSampleTickGate] at hnear
    have hsmall : (wrap32 (m - asI32 k)).natAbs ≤ 64 := hnear
    rw [wrap32_of_mem (by omega) (by omega)]
    omega
  rw [heval]
  refine ⟨⟨henough, ?_, ?_⟩, hmean⟩
  · intro p hp
    have hclose : ((m - signedDiff p).natAbs : Int) ≤ 2 := mean_near hne hs hp
    have hmem := signedDiff_mem p
    rw [loopbackRawLagTicks_ofInt]
    rw [wrap32_of_mem (by omega) (by omega)]
    omega
  · rw [kDistance, hjump]
    exact hnear

theorem evaluateRecal_cases (hlen : samples.length ≤ 4294967296)
    (hgate : ∀ p ∈ samples, sampleGated k p = false) :
    evaluateRecal k samples = k ∨ Adopted k (evaluateRecal k samples) samples := by
  by_cases henough : samples.length < 3
  · left
    rw [evaluateRecal, if_pos henough]
  · by_cases hs : 2 < diffSpread samples
    · left
      rw [evaluateRecal, if_neg henough, if_pos hs]
    · exact .inr (evaluateRecal_adopted hlen hgate (Nat.le_of_not_lt henough) (by omega)).1

theorem kDistance_self (k : UInt32) : kDistance k k = 0 := by
  rw [kDistance, UInt32.sub_self]
  decide

theorem eq_of_kDistance_zero (h : kDistance k k' = 0) : k = k' := by
  have hz : asI32 (k' - k) = 0 := Int.natAbs_eq_zero.1 h
  have hzero : (k' - k).toNat = 0 := by
    have hlt := (k' - k).toNat_lt
    unfold asI32 wrap32 at hz
    omega
  have hsub : k' - k = 0 := UInt32.toNat_inj.1 hzero
  grind

/-- The offset comes two ticks closer on each edge, and stays when it is there. -/
theorem kDistance_slewK (k kTarget : UInt32) :
    kDistance (slewK k kTarget) kTarget = kDistance k kTarget - 2 := by
  by_cases heq : k = kTarget
  · rw [slewK, if_neg (not_not.2 heq), heq, kDistance_self]
  · rw [slewK, if_pos heq, kDistance, kDistance]
    have hbounds := wrap32_bounds (kTarget - k).toNat
    rw [← asI32] at hbounds
    have hstep (d : Int) : asI32 (kTarget - (k + .ofInt d)) = wrap32 (asI32 (kTarget - k) - d) := by
      rw [← asI32_sub_ofInt]
      congr 1
      grind
    rw [hstep, recalKSlewTicks]
    generalize asI32 (kTarget - k) = x at *
    unfold clamp
    rw [wrap32_of_mem (by omega) (by omega)]
    omega

/-- A clean offset comes from one attempt of three samples or more, and leaves each of them within
a tick. -/
theorem bootCalibrate_clean (hlen : ∀ samples ∈ attempts, samples.length ≤ recalSamples)
    (h : (bootCalibrate k n attempts).clean = true) :
    ∃ samples ∈ attempts, 3 ≤ samples.length ∧ (bootCalibrate k n attempts).n = samples.length ∧
      ∀ p ∈ samples,
        (loopbackRawLagTicks p.1 p.2 (bootCalibrate k n attempts).k).natAbs ≤ 1 := by
  induction attempts generalizing k n with
  | nil => cases h
  | cons samples rest ih =>
    have hrest := fun k n => ih (k := k) (n := n) fun s hs => hlen s (List.mem_cons_of_mem _ hs)
    by_cases hne : samples = []
    · rw [bootCalibrate, if_pos hne] at h
      cases h
    · have hfits : samples.length ≤ 6 := hlen samples (List.mem_cons_self ..)
      have hmean := calibrateLoopbackOffset_eq hne (sumFits_of_length_le (by omega))
      simp only [bootCalibrate, if_neg hne, hmean] at h ⊢
      by_cases hclean : 3 ≤ samples.length ∧ diffSpread samples ≤ 1
      · rw [if_pos hclean]
        refine ⟨samples, List.mem_cons_self .., hclean.1, rfl, fun p hp => ?_⟩
        have hclose := mean_near hne hclean.2 hp
        have hmem := signedDiff_mem p
        rw [loopbackRawLagTicks_ofInt, wrap32_of_mem (by omega) (by omega)]
        omega
      · rw [if_neg hclean] at h ⊢
        obtain ⟨s, hs, hspec⟩ := hrest _ _ h
        exact ⟨s, List.mem_cons_of_mem _ hs, hspec⟩

theorem ofInt_natCast (n : Nat) : UInt32.ofInt n = .ofNat n := by
  rw [UInt32.ofInt, ← UInt32.toNat_inj, UInt32.toNat_ofNat', UInt32.toNat_ofNat']
  omega

/-- Counters as the two captures read them: on edges at different ticks, further apart than the gate
and the error of the offset, the sample is gated. -/
theorem sampleGated_of_apart (a b : UInt32) {t t' : Nat}
    (hfar : (recalSampleTickGate + kDistance k (a - b) : Int) < ((t' : Int) - t).natAbs)
    (hturn : (((t' : Int) - t).natAbs + recalSampleTickGate + kDistance k (a - b) : Int) <
      4294967296) :
    sampleGated k (counterAt a t, counterAt b t') = true := by
  have hdiff : counterAt a t - counterAt b t' = (a - b) - .ofInt (t - t') := by
    rw [counterAt, counterAt, Int.sub_eq_add_neg, UInt32.ofInt_add, UInt32.ofInt_neg,
      ofInt_natCast, ofInt_natCast]
    grind
  have hlag : (wrap32 (signedDiff (counterAt a t, counterAt b t') - asI32 k)) =
      wrap32 (asI32 (a - b - k) - (t - t')) := by
    rw [signedDiff, hdiff, asI32_sub_ofInt, asI32_sub (a - b) k]
    generalize asI32 (a - b) = x
    generalize asI32 k = y
    unfold wrap32
    omega
  rw [sampleGated, hlag]
  apply decide_eq_true
  rw [kDistance] at hfar hturn
  rw [recalSampleTickGate] at *
  unfold wrap32
  omega

end PicoGnss
