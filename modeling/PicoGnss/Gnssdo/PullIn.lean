import Mathlib.Algebra.Order.Field.Rat
import Mathlib.Algebra.Order.Ring.Abs
import Mathlib.Tactic.NormNum
import PicoGnss.Lib.FixedWidth
import PicoGnss.Lib.PlanarForm
import PicoGnss.Lib.Rounding

/-! How a phase swings in: the loop on unbounded integers, and what its swings lose. -/

namespace PicoGnss
open FixedWidth PlanarForm Rounding
set_option autoImplicit true

/-- The phase, and what the loop remembers of its last edge. -/
structure Swing where
  phaseNs : Int
  corrNs : Int := 0
  trimMppb : Int := 0
  pred : Int := 0

namespace Swing

instance : Neg Swing := ⟨fun x => ⟨-x.phaseNs, -x.corrNs, -x.trimMppb, -x.pred⟩⟩

/-- The phase less the correction in flight. -/
def ahead (x : Swing) : Int := x.phaseNs - x.corrNs

def nextTrim (x : Swing) (integrates : Bool) : Int :=
  if integrates then x.trimMppb - (x.ahead * 1000).tdiv 128 else x.trimMppb

def nextCorr (x : Swing) (damps : Bool) : Int :=
  x.ahead.tdiv 8 + if damps then (x.ahead - x.pred).tdiv 4 else 0

/-- One edge, with the integral and the derivative on or off. -/
def next (x : Swing) (integrates damps : Bool) : Swing :=
  ⟨x.phaseNs + (x.nextTrim integrates).tdiv 1000 - x.nextCorr damps, x.nextCorr damps,
    x.nextTrim integrates, x.ahead⟩

/-- The band of phases in which the integral is on. -/
def inBand (x : Swing) : Bool := decide (x.phaseNs.natAbs < 5000)

theorem nextTrim_inBand (x : Swing) : x.nextTrim x.inBand =
    if x.phaseNs.natAbs < 5000 then x.trimMppb - (x.ahead * 1000).tdiv 128 else x.trimMppb := by
  simp only [nextTrim, inBand, decide_eq_true_eq]

/-- What an edge takes off the trim. -/
theorem natAbs_pull_le (x : Swing) :
    ((x.ahead * 1000).tdiv 128).natAbs ≤ (x.ahead * 1000).natAbs / 128 :=
  natAbs_tdiv_le (Nat.le_refl _) (by decide : 0 < 128) (by decide : ((128 : Nat) : Int) ≤ 128)

theorem neg_inBand (x : Swing) : (-x).inBand = x.inBand := by
  change decide ((-x.phaseNs).natAbs < 5000) = _
  rw [Int.natAbs_neg]
  rfl

theorem neg_ahead (x : Swing) : (-x).ahead = -x.ahead := by
  change -x.phaseNs - -x.corrNs = -(x.phaseNs - x.corrNs)
  omega

theorem neg_nextTrim (x : Swing) (integrates : Bool) :
    (-x).nextTrim integrates = -x.nextTrim integrates := by
  cases integrates with
  | false => rfl
  | true =>
    change -x.trimMppb - ((-x).ahead * 1000).tdiv 128 = -(x.trimMppb - (x.ahead * 1000).tdiv 128)
    rw [neg_ahead, Int.neg_mul, Int.neg_tdiv]
    omega

theorem neg_nextCorr (x : Swing) (damps : Bool) : (-x).nextCorr damps = -x.nextCorr damps := by
  have hpred : -x.ahead - (-x).pred = -(x.ahead - x.pred) := by
    change -x.ahead - -x.pred = -(x.ahead - x.pred)
    omega
  unfold nextCorr
  rw [neg_ahead, hpred, Int.neg_tdiv, Int.neg_tdiv]
  split <;> omega

theorem next_neg (x : Swing) (integrates damps : Bool) :
    (-x).next integrates damps = -x.next integrates damps := by
  have hphase : (-x).phaseNs + -(x.nextTrim integrates).tdiv 1000 - -x.nextCorr damps =
      -(x.phaseNs + (x.nextTrim integrates).tdiv 1000 - x.nextCorr damps) := by
    change -x.phaseNs + _ - _ = _
    omega
  unfold next
  rw [neg_ahead, neg_nextTrim, neg_nextCorr, Int.neg_tdiv, hphase]
  rfl

/-- A phase on its way down, ahead of all it remembers. -/
structure Descends (x : Swing) : Prop where
  phase : 590 ≤ x.phaseNs
  corr : 0 ≤ x.corrNs
  corr_le : 7000 * x.corrNs ≤ 1000 * x.phaseNs - x.trimMppb
  pred : 8 * x.corrNs ≤ x.pred ∧ x.pred ≤ 8 * x.corrNs + 7
  trim : x.trimMppb = 0 ∨ (x.trimMppb ≤ 0 ∧ x.phaseNs ≤ 10 * x.corrNs ∧
    -10 * x.trimMppb ≤ 631 * (5000 - x.phaseNs))

/-- While the integral is off, and while it is on, what is left falls by a tenth. -/
theorem Descends.next (h : Descends x) (hp : 1000 ≤ x.phaseNs) :
    Descends (x.next x.inBand false) ∧
      10 * (x.next x.inBand false).phaseNs ≤ 9 * x.phaseNs := by
  obtain ⟨hphase, hcorr, hcorrle, hpred, htrim⟩ := h
  have hahead : x.ahead = x.phaseNs - x.corrNs := rfl
  obtain ⟨hc, hclow, hchigh⟩ :=
    (tdiv_bounds (by decide : (0 : Int) < 8) x.ahead).1 (by omega)
  obtain ⟨hs, hslow, hshigh⟩ :=
    (tdiv_bounds (by decide : (0 : Int) < 128) (x.ahead * 1000)).1 (by omega)
  have htrim' := x.nextTrim_inBand
  obtain ⟨ht, htlow, hthigh⟩ := (tdiv_bounds (by decide : (0 : Int) < 1000)
    (x.nextTrim x.inBand)).2 (by omega)
  have hnext : x.nextCorr false = x.ahead.tdiv 8 := Int.add_zero _
  unfold Swing.next
  rw [hnext]
  generalize x.ahead.tdiv 8 = c at *
  generalize (x.ahead * 1000).tdiv 128 = s at *
  generalize x.nextTrim x.inBand = trim at *
  generalize trim.tdiv 1000 = t at *
  rw [hahead] at *
  refine ⟨⟨?_, hc, ?_, ?_, ?_⟩, ?_⟩ <;> dsimp only <;> split at htrim' <;> omega

/-- The size of a swing in the phase, the last correction, the trim in ns per edge and the last
prediction. -/
def form (p h t l : ℚ) : ℚ :=
  (15 * l - 4 * h - 12 * p) ^ 2 + 4 * (15 * h - p) ^ 2 + 36 * (20 * t - p) ^ 2 + 180 * p ^ 2

/-- The loop without its derivative and without its truncations. -/
theorem form_glide (p h t l : ℚ) :
    40 * form (p + (t - (p - h) / 128) - (p - h) / 8) ((p - h) / 8) (t - (p - h) / 128) (p - h) ≤
      39 * form p h t l := by
  unfold form
  linarith [sq_nonneg (2000 * t - 294 * p - 676 * h), sq_nonneg (100 * p + 5 * h - 121 * l),
    sq_nonneg (100 * l - 791 * h), sq_nonneg h, sq_nonneg p, sq_nonneg l, sq_nonneg t,
    sq_nonneg (p - h), sq_nonneg (20 * t - p)]

/-- The loop with its derivative. -/
theorem form_damp (p h t l : ℚ) :
    40 * form (p + (t - (p - h) / 128) - ((p - h) / 8 + (p - h - l) / 4))
        ((p - h) / 8 + (p - h - l) / 4) (t - (p - h) / 128) (p - h) ≤ 39 * form p h t l := by
  unfold form
  linarith [sq_nonneg (2000 * t - 536 * p - 435 * h + 241 * l),
    sq_nonneg (100 * p + 170 * h - 125 * l), sq_nonneg (100 * l - 385 * h), sq_nonneg h,
    sq_nonneg p, sq_nonneg l, sq_nonneg t, sq_nonneg (p - l), sq_nonneg (20 * t + 8 * p),
    sq_nonneg (20 * t + 9 * l)]

theorem form_add_le (p h t l a b c : ℚ) :
    195 * form (p + a) (h + b) (t + c) l ≤ 196 * form p h t l + 38220 * form a b c 0 := by
  have hl := sq_add_le 195 (15 * l - 4 * h - 12 * p) (-(4 * b) - 12 * a)
  have hh := sq_add_le 195 (15 * h - p) (15 * b - a)
  have ht := sq_add_le 195 (20 * t - p) (20 * c - a)
  have hp := sq_add_le 195 p a
  unfold form
  linarith

/-- What the truncations put in: `b` at the correction, `c` at the trim, `a` at its nanoseconds. -/
theorem form_truncations {a b c : ℚ} (ha : |a| ≤ 1) (hb : |b| ≤ 2) (hc : |c| ≤ 1 / 1000) :
    form (c + a - b) b c 0 ≤ 7100 := by
  rw [abs_le] at ha hb hc
  have hl : (15 * 0 - 4 * b - 12 * (c + a - b)) ^ 2 ≤ 28.012 ^ 2 :=
    sq_le_sq' (by linarith) (by linarith)
  have hh : (15 * b - (c + a - b)) ^ 2 ≤ 33.001 ^ 2 := sq_le_sq' (by linarith) (by linarith)
  have ht : (20 * c - (c + a - b)) ^ 2 ≤ 3.019 ^ 2 := sq_le_sq' (by linarith) (by linarith)
  have hp : (c + a - b) ^ 2 ≤ 3.001 ^ 2 := sq_le_sq' (by linarith) (by linarith)
  unfold form
  norm_num at hl hh ht hp
  linarith

def size (x : Swing) : ℚ := form x.phaseNs x.corrNs (x.trimMppb / 1000) x.pred

theorem size_neg (x : Swing) : (-x).size = x.size := by
  change form ((-x.phaseNs : ℤ) : ℚ) ((-x.corrNs : ℤ) : ℚ) (((-x.trimMppb : ℤ) : ℚ) / 1000)
    ((-x.pred : ℤ) : ℚ) = _
  unfold size form
  push_cast
  ring

theorem nextTrim_near (x : Swing) : ∃ c : ℚ, |c| ≤ 1 / 1000 ∧
    ((x.nextTrim true : ℤ) : ℚ) / 1000 = x.trimMppb / 1000 - (x.phaseNs - x.corrNs) / 128 + c := by
  obtain ⟨e, he, htdiv⟩ := exists_tdiv_eq (R := ℚ) (by decide : 0 < (128 : ℤ)) (x.ahead * 1000)
  have htrim : x.nextTrim true = x.trimMppb - (x.ahead * 1000).tdiv 128 := rfl
  refine ⟨-e / 1000, ?_, ?_⟩
  · rw [abs_le] at he ⊢
    constructor <;> linarith
  · rw [htrim, Int.cast_sub, htdiv, ahead]
    push_cast
    ring

theorem nextCorr_near (x : Swing) (damps : Bool) : ∃ b : ℚ, |b| ≤ 2 ∧
    ((x.nextCorr damps : ℤ) : ℚ) = (x.phaseNs - x.corrNs) / 8 +
      (if damps then ((x.phaseNs - x.corrNs - x.pred) / 4 : ℚ) else 0) + b := by
  obtain ⟨e, he, hp⟩ := exists_tdiv_eq (R := ℚ) (by decide : 0 < (8 : ℤ)) x.ahead
  obtain ⟨e', he', hd⟩ := exists_tdiv_eq (R := ℚ) (by decide : 0 < (4 : ℤ)) (x.ahead - x.pred)
  rw [abs_le] at he he'
  cases damps with
  | false =>
    have hcorr : x.nextCorr false = x.ahead.tdiv 8 := Int.add_zero _
    refine ⟨e, by rw [abs_le]; constructor <;> linarith, ?_⟩
    rw [hcorr, hp, ahead, if_neg Bool.false_ne_true]
    push_cast
    ring
  | true =>
    have hcorr : x.nextCorr true = x.ahead.tdiv 8 + (x.ahead - x.pred).tdiv 4 := rfl
    refine ⟨e + e', by rw [abs_le]; constructor <;> linarith, ?_⟩
    rw [hcorr, Int.cast_add, hp, hd, ahead, if_pos rfl]
    push_cast
    ring

/-- An edge takes a fiftieth off what a swing is larger than its truncations make it. -/
theorem size_next (x : Swing) (damps : Bool) :
    50 * ((x.next true damps).size - 70000000) ≤ 49 * (x.size - 70000000) := by
  obtain ⟨a, ha, ht⟩ := exists_tdiv_eq (R := ℚ) (by decide : 0 < (1000 : ℤ)) (x.nextTrim true)
  obtain ⟨b, hb, hcorr⟩ := x.nextCorr_near damps
  obtain ⟨c, hc, htrim⟩ := x.nextTrim_near
  have hround := form_truncations ha hb hc
  have hphase : (((x.next true damps).phaseNs : ℤ) : ℚ) = x.phaseNs +
      ((x.nextTrim true : ℤ) : ℚ) / 1000 + a - (x.nextCorr damps : ℤ) := by
    unfold next
    push_cast
    rw [ht]
    push_cast
    ring
  have hahead : ((x.ahead : ℤ) : ℚ) = x.phaseNs - x.corrNs := Int.cast_sub ..
  unfold size
  rw [hphase]
  unfold next
  dsimp only
  rw [hcorr, htrim, hahead]
  generalize ((x.phaseNs : ℤ) : ℚ) = p
  generalize ((x.corrNs : ℤ) : ℚ) = h
  generalize ((x.trimMppb : ℤ) : ℚ) / 1000 = t
  generalize ((x.pred : ℤ) : ℚ) = l
  cases damps with
  | false =>
    have hlinear := form_glide p h t l
    have hsum := form_add_le (p + (t - (p - h) / 128) - (p - h) / 8) ((p - h) / 8)
      (t - (p - h) / 128) (p - h) (c + a - b) b c
    have hmoved : p + (t - (p - h) / 128 + c) + a - ((p - h) / 8 + 0 + b) =
        p + (t - (p - h) / 128) - (p - h) / 8 + (c + a - b) := by ring
    rw [if_neg Bool.false_ne_true, hmoved, add_zero]
    linarith
  | true =>
    have hlinear := form_damp p h t l
    have hsum := form_add_le (p + (t - (p - h) / 128) - ((p - h) / 8 + (p - h - l) / 4))
      ((p - h) / 8 + (p - h - l) / 4) (t - (p - h) / 128) (p - h) (c + a - b) b c
    have hmoved : p + (t - (p - h) / 128 + c) + a - ((p - h) / 8 + (p - h - l) / 4 + b) =
        p + (t - (p - h) / 128) - ((p - h) / 8 + (p - h - l) / 4) + (c + a - b) := by ring
    rw [if_pos rfl, hmoved]
    linarith

theorem natAbs_le_of_sq {z : ℤ} {B : ℕ} (h : (z : ℚ) ^ 2 ≤ (B : ℚ) ^ 2) : z.natAbs ≤ B := by
  have habs := abs_le_of_sq_le_sq' h (Nat.cast_nonneg B)
  have hlow : -(B : ℤ) ≤ z := by exact_mod_cast habs.1
  have hhigh : z ≤ B := by exact_mod_cast habs.2
  omega

theorem sq_phase_le (x : Swing) : 180 * (x.phaseNs : ℚ) ^ 2 ≤ x.size := by
  unfold size form
  linarith [sq_nonneg (15 * (x.pred : ℚ) - 4 * x.corrNs - 12 * x.phaseNs),
    sq_nonneg (15 * (x.corrNs : ℚ) - x.phaseNs),
    sq_nonneg (20 * ((x.trimMppb : ℚ) / 1000) - x.phaseNs)]

/-- What a swing of the size that the descent leaves can be. -/
structure Moderate (x : Swing) : Prop where
  phase : x.phaseNs.natAbs ≤ 3000
  corr : x.corrNs.natAbs ≤ 2000
  trim : x.trimMppb.natAbs ≤ 500000
  pred : x.pred.natAbs ≤ 6000

theorem moderate (h : x.size ≤ 1620000000) : Moderate x := by
  have hphase : x.phaseNs.natAbs ≤ 3000 := by
    apply natAbs_le_of_sq
    have hsq := x.sq_phase_le
    norm_num
    linarith
  have hcorr : (15 * x.corrNs - x.phaseNs).natAbs ≤ 20125 := by
    apply natAbs_le_of_sq
    unfold size form at h
    push_cast
    linarith [sq_nonneg (15 * (x.pred : ℚ) - 4 * x.corrNs - 12 * x.phaseNs),
      sq_nonneg (20 * ((x.trimMppb : ℚ) / 1000) - x.phaseNs), sq_nonneg (x.phaseNs : ℚ)]
  have htrim : (x.trimMppb - 50 * x.phaseNs).natAbs ≤ 340000 := by
    apply natAbs_le_of_sq
    unfold size form at h
    push_cast
    linarith [sq_nonneg (15 * (x.pred : ℚ) - 4 * x.corrNs - 12 * x.phaseNs),
      sq_nonneg (15 * (x.corrNs : ℚ) - x.phaseNs), sq_nonneg (x.phaseNs : ℚ)]
  have hpred : (15 * x.pred - 4 * x.corrNs - 12 * x.phaseNs).natAbs ≤ 40250 := by
    apply natAbs_le_of_sq
    unfold size form at h
    push_cast
    linarith [sq_nonneg (20 * ((x.trimMppb : ℚ) / 1000) - x.phaseNs),
      sq_nonneg (15 * (x.corrNs : ℚ) - x.phaseNs), sq_nonneg (x.phaseNs : ℚ)]
  exact ⟨hphase, by omega, by omega, by omega⟩

/-- A swing that starts in the lock window is small. -/
theorem size_start (hp : p.natAbs < 1000) : size ⟨p, 0, 0, 0⟩ ≤ 1600000000 := by
  have hlow : (-1000 : ℚ) ≤ p := by exact_mod_cast (by omega : -1000 ≤ p)
  have hhigh : (p : ℚ) ≤ 1000 := by exact_mod_cast (by omega : p ≤ 1000)
  have hsq : (p : ℚ) ^ 2 ≤ 1000 ^ 2 := sq_le_sq' hlow hhigh
  unfold size form
  norm_num at hsq ⊢
  linarith

/-- A swing that descends into the lock window is no larger than what it can lose in time. -/
theorem Descends.size_le (h : Descends x) (hp : x.phaseNs < 1000) : x.size ≤ 1600000000 := by
  obtain ⟨hphase, hcorr, hcorrle, hpred, htrim⟩ := h
  unfold size
  have hp₀ : (590 : ℚ) ≤ x.phaseNs := by exact_mod_cast hphase
  have hp₁ : (x.phaseNs : ℚ) ≤ 1000 := by exact_mod_cast hp.le
  have hh₀ : (0 : ℚ) ≤ x.corrNs := by exact_mod_cast hcorr
  have hh₁ : 7 * (x.corrNs : ℚ) ≤ x.phaseNs - (x.trimMppb : ℚ) / 1000 := by
    have hcast : 7000 * (x.corrNs : ℚ) ≤ 1000 * x.phaseNs - x.trimMppb := by
      exact_mod_cast hcorrle
    linarith
  have hl₀ : 8 * (x.corrNs : ℚ) ≤ x.pred := by exact_mod_cast hpred.1
  have hl₁ : (x.pred : ℚ) ≤ 8 * x.corrNs + 7 := by exact_mod_cast hpred.2
  have hsq : (x.phaseNs : ℚ) ^ 2 ≤ 1590 * x.phaseNs - 590000 := by
    linarith [mul_nonneg (sub_nonneg.2 hp₀) (sub_nonneg.2 hp₁)]
  rcases htrim with hzero | ⟨hneg, hfollows, hpull⟩
  · rw [hzero] at hh₁ ⊢
    norm_num at hh₁ ⊢
    have hl : (15 * (x.pred : ℚ) - 4 * x.corrNs - 12 * x.phaseNs) ^ 2 ≤ 12000 ^ 2 :=
      sq_le_sq' (by linarith) (by linarith)
    have hh : (15 * (x.corrNs : ℚ) - x.phaseNs) ^ 2 ≤ 1200 ^ 2 :=
      sq_le_sq' (by linarith) (by linarith)
    unfold form
    norm_num at hl hh ⊢
    linarith
  · have hh₂ : (x.phaseNs : ℚ) ≤ 10 * x.corrNs := by exact_mod_cast hfollows
    have ht₀ : (x.trimMppb : ℚ) / 1000 ≤ 0 := by
      have hcast : (x.trimMppb : ℚ) ≤ 0 := by exact_mod_cast hneg
      linarith
    have ht₁ : -10000 * ((x.trimMppb : ℚ) / 1000) ≤ 631 * (5000 - x.phaseNs) := by
      have hcast : -10 * (x.trimMppb : ℚ) ≤ 631 * (5000 - x.phaseNs) := by exact_mod_cast hpull
      linarith
    generalize (x.trimMppb : ℚ) / 1000 = t at *
    have hl : (15 * (x.pred : ℚ) - 4 * x.corrNs - 12 * x.phaseNs) ^ 2 ≤ 8860 ^ 2 :=
      sq_le_sq' (by linarith) (by linarith)
    have hh : (15 * (x.corrNs : ℚ) - x.phaseNs) ^ 2 ≤ 1684 ^ 2 :=
      sq_le_sq' (by linarith) (by linarith)
    have ht : (20 * t - x.phaseNs) ^ 2 ≤ (6310 - 0.262 * x.phaseNs) ^ 2 :=
      sq_le_sq' (by linarith) (by linarith)
    unfold form
    linarith

end Swing

end PicoGnss
