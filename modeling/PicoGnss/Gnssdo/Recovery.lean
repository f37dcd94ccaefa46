import PicoGnss.Gnssdo.Estimator

namespace PicoGnss
open FixedWidth
set_option autoImplicit true

variable {c : DisciplinedClock}

/-- Consecutive samples of a healthy crystal that runs `e` ppb fast. -/
def honestCalls (e : Int) (n : Nat) : List DisciplineCall :=
  List.replicate n (.updateFreq (1000000000 + e))

def DisciplinedClock.afterHonest (e : Int) (c : DisciplinedClock) (n : Nat) : DisciplinedClock :=
  Mealy.final DisciplinedClock.call c (honestCalls e n)

/-- The level error an honest sample leaves while converging, on a clock with slope `s`. -/
def fastError (s err : Int) : Int := err + s + -(err + s) / 8

/-- The level error at the moment of lock, with `k` honest samples to go. -/
def errorAtLock (s : Int) : Nat → Int → Int
  | 0, err => err
  | k + 1, err => errorAtLock s k (fastError s err)

/-- Nothing has been measured yet, or the honest samples still needed to lock bring the level
inside the gate that then applies to them. -/
def Recoverable (e : Int) (c : DisciplinedClock) : Prop :=
  c.samples = 0 ∨
    (errorAtLock c.freqSlopeMppb (8 - c.samples) (c.freqMppb - 1000 * e)).natAbs ≤
      5000000 + 8 * c.freqSlopeMppb.natAbs

instance (e : Int) (c : DisciplinedClock) : Decidable (Recoverable e c) := by
  unfold Recoverable
  infer_instance

@[simp] theorem afterHonest_zero (e : Int) (c : DisciplinedClock) : c.afterHonest e 0 = c := rfl

theorem afterHonest_succ (e : Int) (c : DisciplinedClock) (n : Nat) :
    c.afterHonest e (n + 1) = (c.updateFreq (1000000000 + e)).2.afterHonest e n := by
  simp only [DisciplinedClock.afterHonest, honestCalls, List.replicate_succ, Mealy.final_cons]
  rw [DisciplinedClock.call_updateFreq_snd]

theorem afterHonest_add (e : Int) (c : DisciplinedClock) (m n : Nat) :
    c.afterHonest e (m + n) = (c.afterHonest e m).afterHonest e n := by
  simp only [DisciplinedClock.afterHonest, honestCalls, List.replicate_add, Mealy.final_append]

/-- The estimate agrees with the crystal to within the residual gate. -/
structure Settled (e : Int) (c : DisciplinedClock) : Prop extends EstimatorBounds c where
  free : c.quarantine = 0
  error : (c.freqMppb - 1000 * e).natAbs ≤ 5000000

/-- The estimate is locked too far from the crystal for its samples to pass the gate. -/
structure LockedOut (e : Int) (c : DisciplinedClock) : Prop where
  config : c.config = .default
  free : c.quarantine = 0
  locked : 8 ≤ c.samples
  error : 5000000 + 8 * c.freqSlopeMppb.natAbs < (c.freqMppb - 1000 * e).natAbs

theorem updateFreq_first (h : EstimatorBounds c) (hq : c.quarantine = 0) (hs : c.samples = 0)
    (he : e.natAbs ≤ 100000) : (c.updateFreq (1000000000 + e)).1 = .applied ∧
      Settled e (c.updateFreq (1000000000 + e)).2 := by
  have hd : e.natAbs < 1000000 := by omega
  have hq' : ¬ 0 < c.quarantine := by omega
  rw [updateFreq_default h.config hd, if_neg hq', if_pos hs]
  exact ⟨rfl, ⟨h.config, h.slope, h.quarantine⟩, hq, by simp only; omega⟩

theorem updateFreq_fast (h : EstimatorBounds c) (hq : c.quarantine = 0) (hs : 0 < c.samples)
    (hl : c.samples < 8) (he : e.natAbs ≤ 100000) :
    c.updateFreq (1000000000 + e) = (.applied, { c with
      freqMppb := 1000 * e + fastError c.freqSlopeMppb (c.freqMppb - 1000 * e)
      samples := c.samples + 1 }) := by
  have hd : e.natAbs < 1000000 := by omega
  have hq' : ¬ 0 < c.quarantine := by omega
  have hs' : c.samples ≠ 0 := by omega
  have hg : c.qualityGated e = false := by
    rw [qualityGated_converging h.config hl]
    exact decide_eq_false (by omega)
  have hf : c.freqMppb + c.freqSlopeMppb + (e * 1000 - (c.freqMppb + c.freqSlopeMppb)) / 8 =
      1000 * e + fastError c.freqSlopeMppb (c.freqMppb - 1000 * e) := by
    unfold fastError
    omega
  have hn : (c.samples + 1) % 4294967296 = c.samples + 1 := Nat.mod_eq_of_lt (by omega)
  rw [updateFreq_default h.config hd, if_neg hq', if_neg hs', hg,
    trackFreq_converging h.config hl, hf, hn]
  rfl

/-- A locked clock within the gate accepts the sample and ends well inside the gate. -/
theorem updateFreq_locked (h : EstimatorBounds c) (hq : c.quarantine = 0) (hl : 8 ≤ c.samples)
    (he : e.natAbs ≤ 100000)
    (herr : (c.freqMppb - 1000 * e).natAbs ≤ 5000000 + 8 * c.freqSlopeMppb.natAbs) :
    (c.updateFreq (1000000000 + e)).1 = .applied ∧
      Settled e (c.updateFreq (1000000000 + e)).2 := by
  have hb := updateFreq_bounds h (1000000000 + e)
  have hd : e.natAbs < 1000000 := by omega
  have hq' : ¬ 0 < c.quarantine := by omega
  have hs' : c.samples ≠ 0 := by omega
  have hslope := h.slope
  have hg : c.qualityGated e = false := by
    rw [qualityGated_locked h.config hl]
    exact decide_eq_false (by omega)
  rw [updateFreq_default h.config hd, if_neg hq', if_neg hs', hg,
    trackFreq_locked h.config hl] at hb ⊢
  refine ⟨rfl, hb, hq, ?_⟩
  change (c.freqMppb + c.freqSlopeMppb + (e * 1000 - (c.freqMppb + c.freqSlopeMppb)) / 32 -
    1000 * e).natAbs ≤ 5000000
  omega

theorem Settled.honest (h : Settled e c) (he : e.natAbs ≤ 100000) :
    (c.updateFreq (1000000000 + e)).1 = .applied ∧
      Settled e (c.updateFreq (1000000000 + e)).2 := by
  have hb := h.toEstimatorBounds
  have herr := h.error
  have hslope := h.slope
  rcases Nat.eq_zero_or_pos c.samples with hs | hs
  · exact updateFreq_first hb h.free hs he
  rcases Nat.lt_or_ge c.samples 8 with hl | hl
  · rw [updateFreq_fast hb h.free hs hl he]
    refine ⟨rfl, ⟨h.config, h.slope, h.quarantine⟩, h.free, ?_⟩
    simp only [fastError]
    omega
  · exact updateFreq_locked hb h.free hl he (by omega)

theorem Settled.afterHonest (h : Settled e c) (he : e.natAbs ≤ 100000) (n : Nat) :
    Settled e (c.afterHonest e n) := by
  induction n generalizing c with
  | zero => exact h
  | succ n ih =>
    rw [afterHonest_succ]
    exact ih (h.honest he).2

theorem LockedOut.honest (h : LockedOut e c) (he : e.natAbs ≤ 100000) :
    c.updateFreq (1000000000 + e) = (.gatedQuality, c) := by
  have hd : e.natAbs < 1000000 := by omega
  have hq : ¬ 0 < c.quarantine := by have hf := h.free; omega
  have hs : c.samples ≠ 0 := by have hl := h.locked; omega
  have hg : c.qualityGated e = true := by
    have herr := h.error
    rw [qualityGated_locked h.config h.locked]
    exact decide_eq_true (by omega)
  rw [updateFreq_default h.config hd, if_neg hq, if_neg hs, hg]
  rfl

theorem LockedOut.afterHonest (h : LockedOut e c) (he : e.natAbs ≤ 100000) (n : Nat) :
    c.afterHonest e n = c := by
  induction n with
  | zero => rfl
  | succ n ih => rw [afterHonest_succ, h.honest he, ih]

theorem afterHonest_drain (h : EstimatorBounds c) (he : e.natAbs ≤ 100000) (q : Nat)
    (hq : c.quarantine = q) : c.afterHonest e q = { c with quarantine := 0 } := by
  have hd : e.natAbs < 1000000 := by omega
  induction q generalizing c with
  | zero =>
    change c = _
    rw [← hq]
  | succ q ih =>
    have hu : c.updateFreq (1000000000 + e) = (.quarantined, { c with quarantine := q }) := by
      rw [updateFreq_default h.config hd, if_pos (by omega), hq]
      rfl
    have hb : EstimatorBounds { c with quarantine := q } :=
      ⟨h.config, h.slope, by have := h.quarantine; simp only; omega⟩
    rw [afterHonest_succ, hu, ih hb rfl]

/-- The last samples before lock shrink the error and change nothing else. -/
theorem afterHonest_converge (h : EstimatorBounds c) (hq : c.quarantine = 0)
    (hs : 0 < c.samples) (he : e.natAbs ≤ 100000) (k : Nat) (hk : c.samples + k = 8) :
    c.afterHonest e k = { c with
      freqMppb := 1000 * e + errorAtLock c.freqSlopeMppb k (c.freqMppb - 1000 * e)
      samples := 8 } := by
  induction k generalizing c with
  | zero =>
    have hf : 1000 * e + (c.freqMppb - 1000 * e) = c.freqMppb := by omega
    simp only [errorAtLock, hf, ← hk]
    rfl
  | succ k ih =>
    have hu := updateFreq_fast h hq hs (by omega) he
    have hb : EstimatorBounds { c with
        freqMppb := 1000 * e + fastError c.freqSlopeMppb (c.freqMppb - 1000 * e)
        samples := c.samples + 1 } := ⟨h.config, h.slope, h.quarantine⟩
    rw [afterHonest_succ, hu, ih hb hq (Nat.succ_pos _) (by simp only; omega)]
    simp only [errorAtLock, add_sub_cancel_left]

/-- A recoverable clock has settled by the fourteenth honest sample. -/
theorem Recoverable.settles (hr : Recoverable e c) (h : EstimatorBounds c)
    (he : e.natAbs ≤ 100000) : ∃ n ≤ 13, Settled e (c.afterHonest e n) := by
  have hq := h.quarantine
  have hdrain := afterHonest_drain h he c.quarantine rfl
  have hfree : EstimatorBounds { c with quarantine := 0 } :=
    ⟨h.config, h.slope, by simp only; omega⟩
  have hone (d : DisciplinedClock) (hd : (d.updateFreq (1000000000 + e)).1 = .applied ∧
      Settled e (d.updateFreq (1000000000 + e)).2) : Settled e (d.afterHonest e 1) := by
    rw [afterHonest_succ, afterHonest_zero]
    exact hd.2
  rcases Nat.eq_zero_or_pos c.samples with hs | hs
  · refine ⟨c.quarantine + 1, by omega, ?_⟩
    rw [afterHonest_add, hdrain]
    exact hone _ (updateFreq_first hfree rfl hs he)
  have herr := hr.resolve_left (by omega)
  rcases Nat.lt_or_ge c.samples 8 with hl | hl
  · have hconv := afterHonest_converge hfree rfl hs he (8 - c.samples) (by simp only; omega)
    refine ⟨c.quarantine + (8 - c.samples) + 1, by omega, ?_⟩
    rw [afterHonest_add, afterHonest_add, hdrain, hconv]
    apply hone
    exact updateFreq_locked ⟨h.config, h.slope, hfree.quarantine⟩ rfl (le_refl 8) he
      (by simpa only [add_sub_cancel_left] using herr)
  · refine ⟨c.quarantine + 1, by omega, ?_⟩
    have hk : 8 - c.samples = 0 := by omega
    rw [hk] at herr
    rw [afterHonest_add, hdrain]
    exact hone _ (updateFreq_locked hfree rfl hl he herr)

/-- What the thousandth honest sample after `calls` finds and leaves. -/
def Recovers (calls : List DisciplineCall) (e : Int) : Prop :=
  let run := calls ++ honestCalls e 1000
  (Mealy.outputs DisciplinedClock.call .new run).getLast? = some (some .applied) ∧
    ((Mealy.final DisciplinedClock.call .new run).freqMppb - 1000 * e).natAbs ≤ 5000000

theorem LockedOut.stays (h : LockedOut e (c.afterHonest e k)) (he : e.natAbs ≤ 100000)
    (hk : k ≤ n) : LockedOut e (c.afterHonest e n) := by
  obtain ⟨m, rfl⟩ := Nat.exists_eq_add_of_le hk
  rw [afterHonest_add, h.afterHonest he]
  exact h

end PicoGnss
