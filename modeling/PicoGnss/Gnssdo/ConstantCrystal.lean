import PicoGnss.Gnssdo.Gnssdo
import PicoGnss.Gnssdo.ReadOut
import PicoGnss.Gnssdo.Recovery
import Mathlib.Algebra.Order.Ring.Int

namespace PicoGnss
open FixedWidth
set_option autoImplicit true

/-- Local time of edge `i` on a crystal that runs `e` ppb fast, the first one at `t`. -/
def constantEdgeNs (e : Int) (t i : Nat) : Nat := t + i * (1000000000 + e).toNat

/-- The first `n` edges of a perfect pulse, timed by that crystal. -/
def constantEdges (e : Int) (t n : Nat) : List PolicyCall :=
  (List.range n).map fun i => .pps (constantEdgeNs e t i / 1000) (1000000000 + e)

def Gnssdo.afterConstant (e : Int) (t n : Nat) : Gnssdo :=
  Mealy.final Gnssdo.call .new (constantEdges e t n)

/-- The clock after `m` samples of a crystal it has measured exactly. -/
structure OnCrystal (e : Int) (m : Nat) (c : DisciplinedClock) : Prop where
  config : c.config = .default
  slope : c.freqSlopeMppb = 0
  free : c.quarantine = 0
  samples : c.samples = m % 4294967296
  level : 0 < m → c.freqMppb = 1000 * e

/-- The policy after `m + 1` edges. -/
structure OnPulse (e : Int) (t m : Nat) (g : Gnssdo) : Prop extends OnCrystal e m g.clock where
  tracker : g.tracker.config = .default
  lastUs : g.tracker.lastUs = some (constantEdgeNs e t m / 1000)
  locked : 0 < m → g.lastPpsLocked = true

theorem afterConstant_succ (e : Int) (t n : Nat) :
    Gnssdo.afterConstant e t (n + 1) = ((Gnssdo.afterConstant e t n).onPps
      (constantEdgeNs e t n / 1000) (1000000000 + e)).2 := by
  rw [Gnssdo.afterConstant, constantEdges, List.range_succ, List.map_append, List.map_singleton,
    Mealy.final_concat]
  exact Mealy.next_eq (Gnssdo.call_pps ..)

variable {c : DisciplinedClock}

theorem OnCrystal.bounds (h : OnCrystal e m c) : EstimatorBounds c := by
  refine ⟨h.config, ?_, ?_⟩
  · rw [h.slope]
    decide
  · rw [h.free]
    exact Nat.zero_le 5

theorem OnCrystal.new (e : Int) : OnCrystal e 0 .new :=
  ⟨rfl, rfl, rfl, rfl, fun h => absurd h (Nat.lt_irrefl 0)⟩

/-- One more exact sample is taken and moves nothing but the sample counter, which wraps. -/
theorem OnCrystal.sample (h : OnCrystal e m c) (he : e.natAbs ≤ 100000) :
    (c.updateFreq (1000000000 + e)).1 = .applied ∧
      OnCrystal e (m + 1) (c.updateFreq (1000000000 + e)).2 := by
  have hd : e.natAbs < 1000000 := by omega
  have hq : ¬0 < c.quarantine := by
    rw [h.free]
    exact Nat.lt_irrefl 0
  have hcount : (c.samples + 1) % 4294967296 = (m + 1) % 4294967296 := by
    rw [h.samples, Nat.mod_add_mod]
  by_cases hs : c.samples = 0
  · rw [updateFreq_default h.config hd, if_neg hq, if_pos hs]
    refine ⟨rfl, h.config, h.slope, h.free, ?_, fun _ => Int.mul_comm e 1000⟩
    rw [← hcount, hs]
  have hm : 0 < m := by
    rcases Nat.eq_zero_or_pos m with rfl | hm
    · exact absurd h.samples hs
    · exact hm
  have hlevel := h.level hm
  rcases Nat.lt_or_ge c.samples 8 with hl | hl
  · have hfast : 1000 * e + fastError c.freqSlopeMppb (c.freqMppb - 1000 * e) = 1000 * e := by
      rw [h.slope, hlevel, Int.sub_self]
      exact Int.add_zero _
    rw [updateFreq_fast h.bounds h.free (Nat.pos_of_ne_zero hs) hl he, hfast]
    refine ⟨rfl, h.config, h.slope, h.free, ?_, fun _ => rfl⟩
    rw [← hcount]
    exact (Nat.mod_eq_of_lt (Nat.lt_trans (Nat.succ_lt_succ hl) (by decide))).symm
  · have hg : c.qualityGated e = false := by
      rw [qualityGated_locked h.config hl, hlevel, h.slope]
      exact decide_eq_false (by omega)
    have hresid : e * 1000 - (c.freqMppb + c.freqSlopeMppb) = 0 := by
      rw [hlevel, h.slope]
      omega
    rw [updateFreq_default h.config hd, if_neg hq, if_neg hs, hg, trackFreq_locked h.config hl,
      hresid]
    refine ⟨rfl, h.config, ?_, h.free, hcount, fun _ => ?_⟩
    · change trackedSlope c.freqSlopeMppb 0 = 0
      rw [h.slope]
      rfl
    · change c.freqMppb + c.freqSlopeMppb + 0 = 1000 * e
      rw [hlevel, h.slope, Int.add_zero, Int.add_zero]

/-- Consecutive edges are a second apart to within a microsecond of the crystal's error. -/
theorem constantEdge_isLocked (tracker : PpsTracker) (ht : tracker.config = .default)
    (hlast : tracker.lastUs = some (constantEdgeNs e t m / 1000)) (he : e.natAbs ≤ 100000) :
    (tracker.record (constantEdgeNs e t (m + 1) / 1000)).1.isLocked = true := by
  have hstep : constantEdgeNs e t (m + 1) = constantEdgeNs e t m + (1000000000 + e).toNat := by
    rw [constantEdgeNs, constantEdgeNs, Nat.succ_mul, Nat.add_assoc]
  have hinterval : constantEdgeNs e t (m + 1) / 1000 - constantEdgeNs e t m / 1000 <
      18446744073709051616 := by omega
  rw [PpsTracker.record, hlast]
  apply (tracker.classify_isLocked_iff ht hinterval).2
  omega

/-- The first edge, whatever interval it comes with. -/
theorem OnPulse.firstEdge (e : Int) (t : Nat) (intervalNs : Int) :
    OnPulse e t 0 (Gnssdo.new.onPps (constantEdgeNs e t 0 / 1000) intervalNs).2 := by
  have hstep : Gnssdo.PpsStep .new (constantEdgeNs e t 0 / 1000) intervalNs _ _ :=
    .held (by simp [Gnssdo.new, Gnssdo.withConfig, PpsTracker.withConfig, PpsTracker.record,
      PpsEvent.isLocked])
  rw [hstep.eq]
  exact ⟨.new e, rfl, rfl, fun h => absurd h (Nat.lt_irrefl 0)⟩

theorem OnPulse.first (e : Int) (t : Nat) : OnPulse e t 0 (Gnssdo.afterConstant e t 1) := by
  rw [afterConstant_succ]
  exact .firstEdge e t (1000000000 + e)

theorem OnPulse.onUtc (h : OnPulse e t m g) (c q : Nat) (unixNs : Int) :
    OnPulse e t m (g.onUtc c q unixNs) :=
  ⟨⟨h.config, h.slope, h.free, h.samples, h.level⟩, h.tracker, h.lastUs, h.locked⟩

theorem OnPulse.edge (h : OnPulse e t m g) (he : e.natAbs ≤ 100000) :
    OnPulse e t (m + 1) (g.onPps (constantEdgeNs e t (m + 1) / 1000) (1000000000 + e)).2 := by
  have hl := constantEdge_isLocked g.tracker h.tracker h.lastUs he
  have hns : 0 < 1000000000 + e := by omega
  have hclock :
      g.disciplined (g.tracker.record (constantEdgeNs e t (m + 1) / 1000)).1 = g.clock := by
    rcases Nat.eq_zero_or_pos m with rfl | hm
    · rw [Gnssdo.disciplined, DisciplinedClock.startQuarantine, if_neg (c := 0 < _), ite_self]
      rw [h.samples]
      exact Nat.lt_irrefl 0
    · exact Gnssdo.disciplined_of_lastPpsLocked (h.locked hm) _
  have hnext := (h.sample he).2
  rw [← hclock] at hnext
  rw [← Gnssdo.onPps_clock_of_locked g ⟨hns, hl⟩] at hnext
  obtain ⟨-, htracker, hlast⟩ :=
    g.onPps_tracked (constantEdgeNs e t (m + 1) / 1000) (1000000000 + e)
  refine ⟨hnext, ?_, ?_, fun _ => hlast.trans hl⟩
  · rw [htracker]
    exact h.tracker
  · rw [htracker]
    rfl

/-- Whatever the crystal's error, all but the first edge are exact samples. -/
theorem onPulse_afterConstant (t : Nat) (he : e.natAbs ≤ 100000) (n : Nat) :
    OnPulse e t n (Gnssdo.afterConstant e t (n + 1)) := by
  induction n with
  | zero => exact .first e t
  | succ n ih =>
    rw [afterConstant_succ]
    exact ih.edge he

/-- The true part of a local interval, rounded towards zero as the read-outs do. -/
theorem tdiv_crystal {x y : Int} (hy : 0 ≤ y) (hyx : y ≤ x.natAbs * 100000) :
    x ≤ (1000000000 * x + y).tdiv 1000000000 ∧
      (1000000000 * x + y).tdiv 1000000000 ≤ x + y / 1000000000 + 1 := by
  rcases Int.le_total 0 x with hx | hx
  · rw [Int.tdiv_eq_ediv_of_nonneg (by omega)]
    omega
  · have hneg : (1000000000 * x + y).tdiv 1000000000 =
        -((-(1000000000 * x + y)) / 1000000000) := by
      rw [← Int.tdiv_eq_ediv_of_nonneg (by omega), Int.neg_tdiv, Int.neg_neg]
    rw [hneg]
    omega

/-- First-order correction leaves the square of the crystal's error. -/
theorem trueElapsed_constant (hf : c.freqMppb = 1000 * e) (he : e.natAbs ≤ 100000) (n : Nat) :
    (c.trueElapsed (n * (1000000000 + e)) - n * 1000000000).natAbs ≤
      n * (e * e) / 1000000000 + 1 := by
  obtain ⟨x, hx⟩ : ∃ x : Int, x = n * e := ⟨_, rfl⟩
  obtain ⟨y, hy⟩ : ∃ y : Int, y = n * (e * e) := ⟨_, rfl⟩
  have hy0 : 0 ≤ y := by
    rw [hy]
    exact Int.mul_nonneg (Int.natCast_nonneg n) (mul_self_nonneg e)
  have hyx : y ≤ x.natAbs * 100000 := by
    have hle : (x * e).natAbs ≤ x.natAbs * 100000 := by
      rw [Int.natAbs_mul]
      exact Nat.mul_le_mul_left _ he
    have hxe : y = x * e := by
      rw [hx, hy, Int.mul_assoc]
    omega
  have hlocal : (n : Int) * (1000000000 + e) = n * 1000000000 + x := by
    rw [hx, Int.mul_add]
  have hscale : (n : Int) * (1000000000 + e) * c.freqMppb = 1000 * (1000000000 * x + y) := by
    rw [hf, hx, hy]
    ring
  obtain ⟨hlo, hhi⟩ := tdiv_crystal hy0 hyx
  have hdiv : (1000 * (1000000000 * x + y)).tdiv 1000000000000 =
      (1000000000 * x + y).tdiv 1000000000 :=
    Int.mul_tdiv_mul_of_pos (1000000000 * x + y) 1000000000 (by decide)
  rw [DisciplinedClock.trueElapsed, hscale, hdiv, hlocal, ← hy]
  omega

/-- However it is pinned, the clock reads `n` true seconds later to within the error that the
correction leaves, as long as no read-out overflows. -/
def Gnssdo.HoldsTime (e : Int) (g : Gnssdo) : Prop :=
  ∀ (captureNs queryNs : Nat) (unixNs : Int) (n : Nat),
    InI64 (n * (1000000000 + e)) → InI64 (g.clock.trueElapsed (n * (1000000000 + e))) →
    InI64 (unixNs + g.clock.trueElapsed (n * (1000000000 + e))) →
    ∃ a b, (g.onUtc captureNs queryNs unixNs).clock.nowFromCaptureNs
        (captureNs + n * (1000000000 + e).toNat) = some a ∧
      (g.onUtc captureNs queryNs unixNs).nowFromQueryNs
        (queryNs + n * (1000000000 + e).toNat) = some b ∧
      (a - (unixNs + n * 1000000000)).natAbs ≤ n * (e * e) / 1000000000 + 1 ∧
      (b - (unixNs + n * 1000000000)).natAbs ≤ n * (e * e) / 1000000000 + 1

theorem holdsTime_of_level {g : Gnssdo} (hf : g.clock.freqMppb = 1000 * e)
    (he : e.natAbs ≤ 100000) : g.HoldsTime e := by
  intro captureNs queryNs unixNs n hd helapsed hin
  have hbound := trueElapsed_constant hf he n
  have hlocal : ((n * (1000000000 + e).toNat : Nat) : Int) = n * (1000000000 + e) := by
    rw [Nat.cast_mul, Int.toNat_of_nonneg (by omega)]
  have hsub (a : Nat) : wrap64 (asI64 (a + n * (1000000000 + e).toNat) - asI64 a) =
      n * (1000000000 + e) := by
    rw [wrap64_asI64_sub, hlocal, wrap64_of_inI64 hd]
  refine ⟨_, _, rfl, rfl, ?_, ?_⟩
  · change ((wrap64 (unixNs + g.clock.corrected (wrap64 _)) - _).natAbs : Int) ≤ _
    rw [hsub captureNs, DisciplinedClock.corrected_eq, wrap64_of_inI64 helapsed,
      wrap64_of_inI64 hin]
    omega
  · change ((wrap64 (unixNs + g.clock.corrected (wrap64 _)) - _).natAbs : Int) ≤ _
    rw [hsub queryNs, DisciplinedClock.corrected_eq, wrap64_of_inI64 helapsed, wrap64_of_inI64 hin]
    omega

/-- A pulse on a constant crystal is measured exactly and held to second order; the clock is in
lock unless the wrapping sample counter has just passed zero. -/
theorem constant_crystal_iff (e : Int) (he : e.natAbs ≤ 100000) (t n : Nat) (hn : 9 ≤ n) :
    ((Gnssdo.afterConstant e t n).frequencyLocked = true ∧
        (Gnssdo.afterConstant e t n).clock.freqMppb = 1000 * e ∧
        (Gnssdo.afterConstant e t n).clock.freqSlopeMppb = 0 ∧
        (Gnssdo.afterConstant e t n).HoldsTime e) ↔
      8 ≤ (n - 1) % 4294967296 := by
  obtain ⟨m, rfl⟩ : ∃ m, n = m + 1 := ⟨n - 1, by omega⟩
  have h := onPulse_afterConstant t he m
  have hlevel := h.level (by omega)
  rw [Gnssdo.frequencyLocked, isLocked_default h.config, h.samples, decide_eq_true_iff,
    Nat.add_sub_cancel]
  exact and_iff_left ⟨hlevel, h.slope, holdsTime_of_level hlevel he⟩

/-- A day on a crystal 2.5 ppm fast. -/
theorem constant_crystal_day : (Gnssdo.afterConstant 2500 0 86400).HoldsTime 2500 :=
  ((constant_crystal_iff 2500 (by decide) 0 86400 (by decide)).2 (by decide)).2.2.2

/-- The sample counter's wrap takes a perfect crystal out of lock. -/
theorem constant_crystal_unlocks :
    ¬∀ (e : Int) (t n : Nat), e.natAbs ≤ 100000 → 9 ≤ n →
      (Gnssdo.afterConstant e t n).frequencyLocked = true ∧
        (Gnssdo.afterConstant e t n).clock.freqMppb = 1000 * e ∧
        (Gnssdo.afterConstant e t n).clock.freqSlopeMppb = 0 ∧
        (Gnssdo.afterConstant e t n).HoldsTime e := by
  intro h
  have hwrap := onPulse_afterConstant 0 (show (0 : Int).natAbs ≤ 100000 by decide) 4294967296
  have hlocked := (h 0 0 4294967297 (by decide) (by decide)).1
  rw [Gnssdo.frequencyLocked, isLocked_default hwrap.config, hwrap.samples,
    decide_eq_true_iff] at hlocked
  exact absurd hlocked (by decide)

end PicoGnss
