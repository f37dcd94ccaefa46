import Mathlib.Algebra.BigOperators.Group.List.Basic
import Mathlib.Algebra.Order.Field.Rat
import Mathlib.Tactic.Linarith
import Mathlib.Tactic.NormNum
import PicoGnss.Lib.FixedWidth
import PicoGnss.Lib.Mealy
import PicoGnss.Lib.Rounding

/-! PPS intervals corrected by the quantization errors that a timing receiver reports. -/

namespace PicoGnss
open FixedWidth
set_option autoImplicit true

/-- To the nearest nanosecond, halves away from zero. -/
def psToNsRound (ps : Int) : Int :=
  (wrap64 (ps + if 0 ≤ ps then 500 else -500)).tdiv 1000

/-- The change of the error from one edge to the next, rounded once. -/
def correctIntervalNs (rawIntervalNs qerrPrevPs qerrNowPs : Int) : Int :=
  wrap64 (rawIntervalNs - psToNsRound (wrap64 (qerrNowPs - qerrPrevPs)))

/-- An interval as captured, and what the receiver says of the edge that ends it. -/
structure QErrEdge where
  rawIntervalNs : Int
  qerrPs : Int
deriving DecidableEq

structure QErrCorrector where
  prevQerrPs : Option Int
deriving DecidableEq

namespace QErrCorrector

def new : QErrCorrector := ⟨none⟩

def correctIntervalNs (c : QErrCorrector) (x : QErrEdge) : Int × QErrCorrector :=
  (match c.prevQerrPs with
    | some prev => PicoGnss.correctIntervalNs x.rawIntervalNs prev x.qerrPs
    | none => x.rawIntervalNs, ⟨some x.qerrPs⟩)

end QErrCorrector

/-- The quantization error is a signed 32-bit word. -/
def QErrEdge.Reported (x : QErrEdge) : Prop := -2147483648 ≤ x.qerrPs ∧ x.qerrPs ≤ 2147483647

/-- No correction of an interval overflows. -/
def Corrects (prev : Int) : List QErrEdge → Prop
  | [] => True
  | x :: xs => InI64 (x.rawIntervalNs - psToNsRound (x.qerrPs - prev)) ∧ Corrects x.qerrPs xs

def lastQerrPs (prev : Int) : List QErrEdge → Int
  | [] => prev
  | x :: xs => lastQerrPs x.qerrPs xs

theorem psToNsRound_error (h : ps.natAbs < 9223372036854775000) :
    (1000 * psToNsRound ps - ps).natAbs ≤ 500 := by
  rw [psToNsRound]
  by_cases hps : 0 ≤ ps
  · rw [if_pos hps, wrap64_of_natAbs_lt (by omega)]
    have hbounds := (Rounding.tdiv_bounds (by decide : (0 : Int) < 1000) (ps + 500)).1 (by omega)
    omega
  · rw [if_neg hps, wrap64_of_natAbs_lt (by omega)]
    have hbounds := (Rounding.tdiv_bounds (by decide : (0 : Int) < 1000) (ps + -500)).2 (by omega)
    omega

/-- What a correction takes off, but for half a nanosecond. -/
theorem correctIntervalNs_error {x : QErrEdge} (hprev : -2147483648 ≤ prev ∧ prev ≤ 2147483647)
    (hx : x.Reported) (hfits : InI64 (x.rawIntervalNs - psToNsRound (x.qerrPs - prev))) :
    (1000 * (correctIntervalNs x.rawIntervalNs prev x.qerrPs - x.rawIntervalNs) +
      (x.qerrPs - prev)).natAbs ≤ 500 := by
  unfold QErrEdge.Reported at hx
  have hdiff : (x.qerrPs - prev).natAbs < 9223372036854775000 := by omega
  have herror := psToNsRound_error hdiff
  rw [correctIntervalNs, wrap64_of_natAbs_lt (x := x.qerrPs - prev) (by omega),
    wrap64_of_inI64 hfits]
  omega

/-- Half a nanosecond an edge is all that the corrections of a run are off by. -/
theorem sum_corrected_error (hprev : -2147483648 ≤ prev ∧ prev ≤ 2147483647)
    {xs : List QErrEdge} (hxs : ∀ x ∈ xs, x.Reported) (hfits : Corrects prev xs) :
    (1000 * ((Mealy.outputs QErrCorrector.correctIntervalNs ⟨some prev⟩ xs).sum -
      (xs.map QErrEdge.rawIntervalNs).sum) + (lastQerrPs prev xs - prev)).natAbs ≤
        500 * xs.length := by
  induction xs generalizing prev with
  | nil => simp only [Mealy.outputs_nil, List.map_nil, lastQerrPs, Int.sub_self]; decide
  | cons x xs ih =>
    have hx := hxs x (List.mem_cons_self ..)
    have herror := correctIntervalNs_error hprev hx hfits.1
    have hrest := ih hx (fun y hy => hxs y (List.mem_cons_of_mem x hy)) hfits.2
    simp only [Mealy.outputs_cons, QErrCorrector.correctIntervalNs, List.sum_cons, List.map_cons,
      List.length_cons, lastQerrPs]
    omega

/-- The corrected intervals after the first add up to the raw ones less the whole change of the
error, but for half a nanosecond an edge. -/
theorem corrected_intervals_add_up (first : QErrEdge) (xs : List QErrEdge)
    (hreported : ∀ x ∈ first :: xs, x.Reported) (hfits : Corrects first.qerrPs xs) :
    let corrected := Mealy.outputs QErrCorrector.correctIntervalNs .new (first :: xs)
    corrected.head? = some first.rawIntervalNs ∧
      |((corrected.tail.sum : ℚ) - ((xs.map QErrEdge.rawIntervalNs).sum -
        ((lastQerrPs first.qerrPs xs : ℚ) - first.qerrPs) / 1000))| ≤ (xs.length : ℚ) / 2 := by
  intro corrected
  have herror := sum_corrected_error (hreported first (List.mem_cons_self ..))
    (fun x hx => hreported x (List.mem_cons_of_mem first hx)) hfits
  have htail : corrected.tail.sum =
      (Mealy.outputs QErrCorrector.correctIntervalNs ⟨some first.qerrPs⟩ xs).sum := rfl
  refine ⟨rfl, ?_⟩
  rw [htail]
  generalize (Mealy.outputs QErrCorrector.correctIntervalNs ⟨some first.qerrPs⟩ xs).sum = sum at *
  generalize (xs.map QErrEdge.rawIntervalNs).sum = raw at *
  have hscaled := (Nat.cast_le (α := ℚ)).2 herror
  push_cast [Nat.cast_natAbs, Int.cast_abs] at hscaled
  rw [abs_le] at hscaled ⊢
  constructor <;> linarith [hscaled.1, hscaled.2]

/-- A ramp that rounds up by half a nanosecond at each of its edges. -/
theorem corrected_intervals_add_up_ramp :
    |(((Mealy.outputs QErrCorrector.correctIntervalNs .new
        [⟨0, 0⟩, ⟨1000000000, 500⟩, ⟨1000000000, 1000⟩]).tail.sum : ℚ) -
      (([⟨1000000000, 500⟩, ⟨1000000000, 1000⟩].map QErrEdge.rawIntervalNs).sum -
        ((lastQerrPs 0 [⟨1000000000, 500⟩, ⟨1000000000, 1000⟩] : ℚ) - (0 : Int)) / 1000))| ≤
      ([⟨1000000000, 500⟩, ⟨1000000000, 1000⟩] : List QErrEdge).length / 2 :=
  (corrected_intervals_add_up ⟨0, 0⟩ [⟨1000000000, 500⟩, ⟨1000000000, 1000⟩]
    (by unfold QErrEdge.Reported; decide) ⟨by decide, by decide, trivial⟩).2

/-- A slow ramp whose every step rounds away: three edges are off by more than a nanosecond. -/
theorem corrected_intervals_drift :
    ¬∀ (first : QErrEdge) (xs : List QErrEdge), (∀ x ∈ first :: xs, x.Reported) →
      Corrects first.qerrPs xs →
      |(((Mealy.outputs QErrCorrector.correctIntervalNs .new (first :: xs)).tail.sum : ℚ) -
        ((xs.map QErrEdge.rawIntervalNs).sum -
          ((lastQerrPs first.qerrPs xs : ℚ) - first.qerrPs) / 1000))| ≤ 1 := by
  intro h
  have hramp := h ⟨0, 0⟩ [⟨1000000000, 400⟩, ⟨1000000000, 800⟩, ⟨1000000000, 1200⟩]
    (by unfold QErrEdge.Reported; decide) ⟨by decide, by decide, by decide, trivial⟩
  have hsum : (Mealy.outputs QErrCorrector.correctIntervalNs .new [⟨0, 0⟩, ⟨1000000000, 400⟩,
      ⟨1000000000, 800⟩, ⟨1000000000, 1200⟩]).tail.sum = 3000000000 := by decide
  rw [hsum] at hramp
  norm_num [lastQerrPs] at hramp

end PicoGnss
