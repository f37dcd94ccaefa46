import Mathlib.Algebra.GroupWithZero.Nat
import Mathlib.Data.List.Induction

/-! The polarity probe: what the counts of a run of samples say of the level held for longer. -/

namespace PicoGnss
set_option autoImplicit true

inductive PpsPolarity where
  | activeHigh
  | activeLow
deriving DecidableEq

structure PolarityProbe where
  high : UInt32
  total : UInt32
deriving DecidableEq

/-- `u32::saturating_add` of one. -/
def satSucc (n : UInt32) : UInt32 := .ofNat (min (n.toNat + 1) 4294967295)

namespace PolarityProbe

def new : PolarityProbe := ⟨0, 0⟩

def sample (probe : PolarityProbe) (pinHigh : Bool) : PolarityProbe where
  high := if pinHigh then satSucc probe.high else probe.high
  total := satSucc probe.total

/-- The percentage, with a product that wraps. -/
def dutyPercent (probe : PolarityProbe) : Option UInt32 :=
  if probe.total ≠ 0 then some (probe.high * 100 / probe.total) else none

def polarity (probe : PolarityProbe) : Option PpsPolarity :=
  probe.dutyPercent.map fun pct => if pct > 50 then .activeLow else .activeHigh

/-- The probe after some samples. -/
def run (samples : List Bool) : PolarityProbe := samples.foldl sample new

end PolarityProbe

theorem toNat_satSucc (n : UInt32) : (satSucc n).toNat = min (n.toNat + 1) 4294967295 := by
  rw [satSucc, UInt32.toNat_ofNat']
  omega

namespace PolarityProbe

/-- The counters hold the counts, as far as they go. -/
structure Counts (probe : PolarityProbe) (ups n : Nat) : Prop where
  high_eq : probe.high.toNat = min ups 4294967295
  total_eq : probe.total.toNat = min n 4294967295

theorem Counts.sample (h : Counts probe ups n) (pinHigh : Bool) :
    Counts (probe.sample pinHigh) (ups + pinHigh.toNat) (n + 1) := by
  obtain ⟨hhigh, htotal⟩ := h
  constructor
  · cases pinHigh with
    | false => exact hhigh
    | true =>
      change (satSucc probe.high).toNat = min (ups + 1) 4294967295
      rw [toNat_satSucc, hhigh]
      omega
  · change (satSucc probe.total).toNat = _
    rw [toNat_satSucc, htotal]
    omega

theorem counts_run (samples : List Bool) :
    Counts (run samples) (samples.count true) samples.length := by
  induction samples using List.reverseRecOn with
  | nil => exact ⟨rfl, rfl⟩
  | append_singleton samples pinHigh ih =>
    have hrun : run (samples ++ [pinHigh]) = (run samples).sample pinHigh := by
      rw [run, List.foldl_append]
      rfl
    have hcount : (samples ++ [pinHigh]).count true = samples.count true + pinHigh.toNat := by
      rw [List.count_append]
      cases pinHigh <;> rfl
    rw [hrun, hcount, List.length_append]
    exact ih.sample pinHigh

theorem Counts.high_of_lt (h : Counts probe ups n) (hmax : ups < 2 ^ 32) :
    probe.high.toNat = ups := by
  rw [h.high_eq]
  omega

/-- The percentage as it is computed, while the counters have not saturated. -/
theorem Counts.polarity (h : Counts probe ups n) (hle : ups ≤ n) (hpos : 0 < n)
    (hmax : n < 2 ^ 32) : probe.polarity =
      some (if 50 < ups * 100 % 2 ^ 32 / n then .activeLow else .activeHigh) := by
  have hhigh := h.high_of_lt (Nat.lt_of_le_of_lt hle hmax)
  have htotal : probe.total.toNat = n := by
    rw [h.total_eq]
    omega
  have hzero : probe.total ≠ 0 := by
    intro hzero
    rw [hzero] at htotal
    exact Nat.ne_of_lt hpos htotal
  have hpct : (probe.high * 100 / probe.total).toNat = ups * 100 % 2 ^ 32 / n := by
    rw [UInt32.toNat_div, UInt32.toNat_mul, hhigh, htotal]
    rfl
  have hgt : probe.high * 100 / probe.total > 50 ↔ 50 < ups * 100 % 2 ^ 32 / n := by
    rw [gt_iff_lt, UInt32.lt_iff_toNat_lt, hpct]
    rfl
  simp only [PolarityProbe.polarity, dutyPercent, if_pos hzero, Option.map_some, hgt]

end PolarityProbe

/-- The level held for longer, and low if they are even. -/
def majority (ups n : Nat) : PpsPolarity := if n < 2 * ups then .activeLow else .activeHigh

/-- A product that has wrapped is never 51 in 100 of the count again. -/
theorem wrapped_percent_lt (hle : ups ≤ n) (h : 2 ^ 32 ≤ ups * 100) :
    ups * 100 % 2 ^ 32 < 51 * n := by
  have hwraps : 1 ≤ ups * 100 / 2 ^ 32 := Nat.div_pos h (by decide)
  have hsplit := Nat.div_add_mod (ups * 100) (2 ^ 32)
  have hmod := Nat.mod_lt (ups * 100) (by decide : 2 ^ 32 > 0)
  omega

/-- The percentage is above half for 51 in 100, as long as its product fits. -/
theorem percent_high_iff (hle : ups ≤ n) (hpos : 0 < n) :
    50 < ups * 100 % 2 ^ 32 / n ↔ 51 * n ≤ 100 * ups ∧ ups * 100 < 2 ^ 32 := by
  have hdiv : 50 < ups * 100 % 2 ^ 32 / n ↔ 51 * n ≤ ups * 100 % 2 ^ 32 :=
    Nat.le_div_iff_mul_le hpos
  rw [hdiv]
  by_cases hfits : ups * 100 < 2 ^ 32
  · rw [Nat.mod_eq_of_lt hfits, and_iff_left hfits, Nat.mul_comm ups]
  · have hwrapped := wrapped_percent_lt hle (Nat.le_of_not_lt hfits)
    exact iff_of_false (Nat.not_le.2 hwrapped) fun h => hfits h.2

theorem answers_eq_iff {p q : Prop} [Decidable p] [Decidable q] :
    (if p then PpsPolarity.activeLow else .activeHigh) = (if q then .activeLow else .activeHigh) ↔
      (p ↔ q) := by
  by_cases hp : p
  · by_cases hq : q
    · simp only [hp, hq]
    · simp only [hp, hq, if_true, if_false, reduceCtorEq, iff_false, not_true]
  · by_cases hq : q
    · simp only [hp, hq, if_true, if_false, reduceCtorEq, false_iff, not_true]
    · simp only [hp, hq]

/-- The probe names the level held for longer, and its product of a percentage fits. -/
def NamesMajority (samples : List Bool) : Prop :=
  (PolarityProbe.run samples).polarity = some (majority (samples.count true) samples.length) ∧
    (PolarityProbe.run samples).high.toNat * 100 < 2 ^ 32

/-- The probe names the level held for longer exactly where the product fits and a high majority is
one of 51 in 100. -/
theorem namesMajority_iff (samples : List Bool) (hne : samples ≠ [])
    (hmax : samples.length < 2 ^ 32) : NamesMajority samples ↔
      samples.count true ≤ 42949672 ∧
        (2 * samples.count true ≤ samples.length ∨
          51 * samples.length ≤ 100 * samples.count true) := by
  have hcounts := PolarityProbe.counts_run samples
  have hle : samples.count true ≤ samples.length := List.count_le_length
  have hpos := List.length_pos_iff.2 hne
  have hhigh := hcounts.high_of_lt (Nat.lt_of_le_of_lt hle hmax)
  rw [NamesMajority, hcounts.polarity hle hpos hmax, Option.some.injEq, majority, answers_eq_iff,
    percent_high_iff hle hpos, hhigh]
  omega

theorem namesMajority_pulse : NamesMajority [true, false, false] :=
  (namesMajority_iff [true, false, false] (by decide) (by decide)).2 ⟨by decide, by decide⟩

/-- 26 of 51. -/
theorem bare_majority_missed :
    ¬ ∀ samples : List Bool, samples ≠ [] → samples.length < 2 ^ 32 → NamesMajority samples := by
  intro h
  have hnames := (h (.replicate 26 true ++ .replicate 25 false) (by decide) (by decide)).1
  have hcounts := PolarityProbe.counts_run (.replicate 26 true ++ .replicate 25 false)
  rw [hcounts.polarity (by decide) (by decide) (by decide)] at hnames
  exact absurd hnames (by decide)

end PicoGnss
