import PicoGnss.Gnssdo.Gnssdo
import Mathlib.Data.Nat.Count

namespace PicoGnss
open FixedWidth
set_option autoImplicit true

/-- A sequence of calls on a fresh policy. -/
structure PolicyRun where
  tracker : PpsTrackerConfig
  clock : DisciplinedClockConfig
  calls : List PolicyCall

namespace PolicyRun

/-- The state before call `n`. -/
def stateAt (run : PolicyRun) (n : Nat) : Gnssdo :=
  Mealy.final Gnssdo.call (.withConfig run.tracker run.clock) (run.calls.take n)

def answerAt (run : PolicyRun) (n : Nat) : Option GnssdoStep :=
  (Mealy.outputs Gnssdo.call (.withConfig run.tracker run.clock) run.calls)[n]?.join

def freqAt (run : PolicyRun) (n : Nat) : Option FreqUpdate := (run.answerAt n).bind GnssdoStep.freq

def EdgeAt (run : PolicyRun) (n : Nat) : Prop := ∃ us ns, run.calls[n]? = some (.pps us ns)

/-- Call `n` is an edge that the tracker classified as locked. -/
def LockedAt (run : PolicyRun) (n : Nat) : Prop :=
  ∃ step, run.answerAt n = some step ∧ step.event.isLocked = true

/-- Call `n` is an edge that the tracker classified as anything else. -/
def UnlockedAt (run : PolicyRun) (n : Nat) : Prop :=
  ∃ step, run.answerAt n = some step ∧ step.event.isLocked = false

/-- Call `j` is the last one before call `n` at which the tracker went into lock. -/
structure LockedSince (run : PolicyRun) (j n : Nat) : Prop where
  lt : j < n
  locked : run.LockedAt j
  stays : ∀ k, j < k → k < n → ¬run.UnlockedAt k
  entered : ∀ i < j, run.LockedAt i → ∃ k, i < k ∧ k < j ∧ run.UnlockedAt k

/-- How many edges from call `j` until call `n` were quarantined. -/
def quarantinedFrom (run : PolicyRun) (j n : Nat) : Nat :=
  Nat.count (fun k => j ≤ k ∧ run.freqAt k = some .quarantined) n

/-- Every edge but the first comes with a positive interval. -/
def Paced (run : PolicyRun) : Prop :=
  ∀ m n us ns, m < n → run.EdgeAt m → run.calls[n]? = some (.pps us ns) → 0 < ns

/-- What the counters of the policy say about the calls so far. -/
structure Ledger (run : PolicyRun) (n : Nat) : Prop where
  config : (run.stateAt n).clock.config = run.clock
  recorded : (run.stateAt n).tracker.lastUs ≠ none → ∃ m < n, run.EdgeAt m
  samples : (run.stateAt n).clock.samples ≤ (run.calls.take n).countP PolicyCall.isPps
  unapplied : (run.stateAt n).clock.samples = 0 → ∀ k < n, run.freqAt k ≠ some .applied
  unlocked : (run.stateAt n).lastPpsLocked = false →
    ∀ i < n, run.LockedAt i → ∃ k, i < k ∧ k < n ∧ run.UnlockedAt k
  locked : (run.stateAt n).lastPpsLocked = true → ∃ j, run.LockedSince j n ∧
    ((∀ k < j, run.freqAt k ≠ some .applied) ∨
      run.clock.quarantineSamples ≤ (run.stateAt n).clock.quarantine + run.quarantinedFrom j n)

variable {run : PolicyRun}

theorem stateAt_succ (h : run.calls[n]? = some x) :
    run.stateAt (n + 1) = ((run.stateAt n).call x).2 :=
  Mealy.final_take_succ Gnssdo.call _ h

theorem answerAt_eq (h : run.calls[n]? = some x) :
    run.answerAt n = ((run.stateAt n).call x).1 := by
  rw [answerAt, Mealy.getElem?_outputs, h]
  rfl

theorem stateAt_utc (h : run.calls[n]? = some (.utc captureNs queryNs unixNs)) :
    run.stateAt (n + 1) = (run.stateAt n).onUtc captureNs queryNs unixNs ∧
      run.answerAt n = none :=
  ⟨stateAt_succ h, answerAt_eq h⟩

theorem stateAt_pps (h : run.calls[n]? = some (.pps us ns)) :
    ∃ step, Gnssdo.PpsStep (run.stateAt n) us ns step (run.stateAt (n + 1)) ∧
      run.answerAt n = some step := by
  obtain ⟨step, g', hstep⟩ := Gnssdo.PpsStep.exists (run.stateAt n) us ns
  have hnext := stateAt_succ h
  have hanswer := answerAt_eq h
  rw [Gnssdo.call_pps, hstep.eq] at hnext hanswer
  exact ⟨step, hnext ▸ hstep, hanswer⟩

theorem LockedAt.not_unlockedAt (h : run.LockedAt n) : ¬run.UnlockedAt n := by
  intro ⟨step, hanswer, hunlocked⟩
  obtain ⟨step', hanswer', hlocked⟩ := h
  cases hanswer.symm.trans hanswer'
  rw [hlocked] at hunlocked
  cases hunlocked

theorem LockedSince.extend (h : run.LockedSince j n) (hn : ¬run.UnlockedAt n) :
    run.LockedSince j (n + 1) := by
  refine ⟨Nat.lt_succ_of_lt h.lt, h.locked, fun k hj hk => ?_, h.entered⟩
  rcases Nat.lt_succ_iff_lt_or_eq.1 hk with hk | rfl
  · exact h.stays k hj hk
  · exact hn

theorem LockedSince.start (hn : run.LockedAt n)
    (h : ∀ i < n, run.LockedAt i → ∃ k, i < k ∧ k < n ∧ run.UnlockedAt k) :
    run.LockedSince n (n + 1) :=
  ⟨Nat.lt_succ_self n, hn, fun _ h1 h2 => absurd (Nat.le_of_lt_succ h2) (Nat.not_le.2 h1), h⟩

theorem quarantinedFrom_succ (run : PolicyRun) (h : j ≤ n) :
    run.quarantinedFrom j (n + 1) =
      run.quarantinedFrom j n + (if run.freqAt n = some .quarantined then 1 else 0) := by
  simp only [quarantinedFrom, Nat.count_succ, h, true_and]

theorem countP_take_succ (h : run.calls[n]? = some x) :
    (run.calls.take (n + 1)).countP PolicyCall.isPps =
      (run.calls.take n).countP PolicyCall.isPps + (if x.isPps then 1 else 0) := by
  rw [List.take_add_one, h, List.countP_append, Option.toList_some, List.countP_singleton]

/-- Facts about the calls before `n + 1`, from those before `n` and the one at `n`. -/
theorem forall_lt_succ {P : Nat → Prop} (h : ∀ k < n, P k) (hn : P n) : ∀ k < n + 1, P k := by
  intro k hk
  rcases Nat.lt_succ_iff_lt_or_eq.1 hk with hk | rfl
  · exact h k hk
  · exact hn

theorem Ledger.zero (run : PolicyRun) : Ledger run 0 where
  config := rfl
  recorded h := absurd rfl h
  samples := Nat.le_refl 0
  unapplied _ k hk := absurd hk (Nat.not_lt_zero k)
  unlocked _ i hi := absurd hi (Nat.not_lt_zero i)
  locked h := by cases h

theorem Ledger.utc (h : Ledger run n) (hx : run.calls[n]? = some (.utc captureNs queryNs unixNs)) :
    Ledger run (n + 1) := by
  obtain ⟨hnext, hanswer⟩ := stateAt_utc hx
  have hfreq : run.freqAt n = none := by rw [freqAt, hanswer, Option.bind_none]
  have hlocked : ¬run.LockedAt n := fun ⟨step, hs, _⟩ => by
    rw [hanswer] at hs
    cases hs
  have hunlocked : ¬run.UnlockedAt n := fun ⟨step, hs, _⟩ => by
    rw [hanswer] at hs
    cases hs
  refine ⟨?_, ?_, ?_, ?_, ?_, ?_⟩
  · rw [hnext]
    exact h.config
  · rw [hnext]
    intro hlast
    obtain ⟨m, hm, hedge⟩ := h.recorded hlast
    exact ⟨m, Nat.lt_succ_of_lt hm, hedge⟩
  · rw [hnext, countP_take_succ hx]
    exact h.samples
  · rw [hnext]
    intro hs
    apply forall_lt_succ (h.unapplied hs)
    rw [hfreq]
    exact fun hn => nomatch hn
  · rw [hnext]
    intro hl
    apply forall_lt_succ
    · intro i hi hlock
      obtain ⟨k, hik, hkn, hk⟩ := h.unlocked hl i hi hlock
      exact ⟨k, hik, Nat.lt_succ_of_lt hkn, hk⟩
    · exact fun hlock => absurd hlock hlocked
  · rw [hnext]
    intro hl
    obtain ⟨j, hj, hq⟩ := h.locked hl
    refine ⟨j, hj.extend hunlocked, ?_⟩
    rw [run.quarantinedFrom_succ (Nat.le_of_lt hj.lt), hfreq]
    exact hq

/-- The first edge is never locked, so a locked one has a predecessor. -/
theorem Ledger.paced (h : Ledger run n) (hpaced : run.Paced)
    (hx : run.calls[n]? = some (.pps us ns))
    (hl : ((run.stateAt n).tracker.record us).1.isLocked = true) : 0 < ns := by
  have hlast : (run.stateAt n).tracker.lastUs ≠ none := by
    intro hnone
    rw [PpsTracker.record, hnone] at hl
    cases hl
  obtain ⟨m, hm, hedge⟩ := h.recorded hlast
  exact hpaced m n us ns hm hedge hx

/-- The edges until then bound the sample counter. -/
theorem Ledger.samples_lt (h : Ledger run n)
    (hcount : run.calls.countP PolicyCall.isPps < 4294967296)
    (hx : run.calls[n]? = some (.pps us ns)) :
    (run.stateAt n).clock.samples < 4294967295 := by
  have hsucc := countP_take_succ hx
  have hle : (run.calls.take (n + 1)).countP PolicyCall.isPps ≤ run.calls.countP PolicyCall.isPps :=
    (List.take_sublist (n + 1) run.calls).countP_le
  have hsamples := h.samples
  change _ = _ + 1 at hsucc
  omega

/-- An edge in lock, with the quarantine that its recovery left to serve. -/
theorem Ledger.lockedSince (h : Ledger run n) (hlocked : run.LockedAt n)
    (hl : event.isLocked = true) : ∃ j, run.LockedSince j (n + 1) ∧
      ((∀ k < j, run.freqAt k ≠ some .applied) ∨ run.clock.quarantineSamples ≤
        ((run.stateAt n).disciplined event).quarantine + run.quarantinedFrom j n) := by
  cases hlast : (run.stateAt n).lastPpsLocked with
  | true =>
    obtain ⟨j, hj, hq⟩ := h.locked hlast
    rw [Gnssdo.disciplined_of_lastPpsLocked hlast]
    exact ⟨j, hj.extend hlocked.not_unlockedAt, hq⟩
  | false =>
    refine ⟨n, .start hlocked (h.unlocked hlast), ?_⟩
    rcases Nat.eq_zero_or_pos (run.stateAt n).clock.samples with hs | hs
    · exact .inl (h.unapplied hs)
    · rw [Gnssdo.disciplined_of_recovered hlast hl hs, h.config]
      exact .inr (Nat.le_add_right _ _)

theorem Ledger.pps (h : Ledger run n) (hpaced : run.Paced)
    (hcount : run.calls.countP PolicyCall.isPps < 4294967296)
    (hx : run.calls[n]? = some (.pps us ns)) : Ledger run (n + 1) := by
  obtain ⟨step, hstep, hanswer⟩ := stateAt_pps hx
  have hlt := h.samples_lt hcount hx
  obtain ⟨hevent, hrecorded, hlast⟩ := hstep.tracked
  obtain ⟨hc, hs⟩ := hstep.counters hlt
  have hfreq : run.freqAt n = step.freq := by rw [freqAt, hanswer, Option.bind_some]
  refine ⟨hc.trans h.config, fun _ => ⟨n, Nat.lt_succ_self n, us, ns, hx⟩, ?_, ?_, ?_, ?_⟩
  · have hsamples := h.samples
    rw [hs, countP_take_succ hx]
    change _ ≤ _ + 1
    split <;> omega
  · intro hzero
    rw [hs] at hzero
    obtain ⟨hzero, happlied⟩ := Nat.add_eq_zero_iff.1 hzero
    apply forall_lt_succ (h.unapplied hzero)
    rw [hfreq]
    exact fun hu => absurd happlied (by rw [if_pos hu]; exact Nat.one_ne_zero)
  · intro hl
    rw [hlast] at hl
    exact fun i hi hlocked => by
      have hunlocked : run.UnlockedAt n := ⟨step, hanswer, hl⟩
      rcases Nat.lt_succ_iff_lt_or_eq.1 hi with hi | rfl
      · exact ⟨n, hi, Nat.lt_succ_self n, hunlocked⟩
      · exact absurd hunlocked hlocked.not_unlockedAt
  · intro hl
    rw [hlast] at hl
    have hns := h.paced hpaced hx (hevent ▸ hl)
    obtain ⟨j, hj, hq⟩ := h.lockedSince ⟨step, hanswer, hl⟩ hl
    refine ⟨j, hj, hq.imp_right fun hq => ?_⟩
    rw [hstep.quarantine hlt hns hl] at hq
    rw [run.quarantinedFrom_succ (Nat.le_of_lt_succ hj.lt), hfreq]
    omega

theorem ledger (hpaced : run.Paced) (hcount : run.calls.countP PolicyCall.isPps < 4294967296)
    (hn : n ≤ run.calls.length) : Ledger run n := by
  induction n with
  | zero => exact .zero run
  | succ n ih =>
    have h := ih (Nat.le_of_succ_le hn)
    have hx : run.calls[n]? = some run.calls[n] := List.getElem?_eq_getElem hn
    cases hcall : run.calls[n] with
    | pps us ns => exact h.pps hpaced hcount (hcall ▸ hx)
    | utc captureNs queryNs unixNs => exact h.utc (hcall ▸ hx)

end PolicyRun

open PolicyRun in
/-- An edge moves the level or the slope only in lock, within the emergency stop, and after a
quarantine served since the tracker went into lock, unless there was nothing to protect then. -/
theorem disciplined_only_when_trusted (run : PolicyRun) (hpaced : run.Paced)
    (hcount : run.calls.countP PolicyCall.isPps < 4294967296) (n us : Nat) (ns : Int)
    (hx : run.calls[n]? = some (.pps us ns)) :
    let c := (run.stateAt n).clock
    let c' := (run.stateAt (n + 1)).clock
    (c'.freqMppb ≠ c.freqMppb ∨ c'.freqSlopeMppb ≠ c.freqSlopeMppb →
      run.LockedAt n ∧ (ns - 1000000000).natAbs < run.clock.saneDevNs.get ∧
      ∃ j, run.LockedSince j (n + 1) ∧ ((∀ k < j, run.freqAt k ≠ some .applied) ∨
        run.clock.quarantineSamples ≤ run.quarantinedFrom j n)) ∧
    (¬run.LockedAt n ∨ run.freqAt n ≠ some .applied →
      c'.freqMppb = c.freqMppb ∧ c'.freqSlopeMppb = c.freqSlopeMppb ∧
        c'.samples = c.samples ∧ DisciplinedClock.SameEpoch c c') := by
  intro c c'
  obtain ⟨step, hstep, hanswer⟩ := stateAt_pps hx
  have hledger := ledger hpaced hcount (Nat.le_of_lt (List.getElem?_eq_some_iff.1 hx).1)
  have hfreq : run.freqAt n = step.freq := by rw [freqAt, hanswer, Option.bind_some]
  constructor
  · intro hmoved
    have happlied : step.freq = some .applied := by
      by_contra hu
      obtain ⟨hlevel, hslope, -⟩ := hstep.estimate hu
      exact hmoved.elim (absurd hlevel) (absurd hslope)
    obtain ⟨hl, hsane, hq⟩ := hstep.trusted happlied
    obtain ⟨j, hj, hserved⟩ := hledger.lockedSince ⟨step, hanswer, hl⟩ hl
    rw [hledger.config] at hsane
    rw [hq, Nat.zero_add] at hserved
    refine ⟨⟨step, hanswer, hl⟩, ?_, j, hj, hserved⟩
    exact Int.ofNat_lt.1 (hsane.trans_le (asI64_le _))
  · intro huntrusted
    have hu : step.freq ≠ some .applied := by
      intro hu
      rcases huntrusted with hl | hu'
      · exact hl ⟨step, hanswer, (hstep.trusted hu).1⟩
      · exact hu' (hfreq.trans hu)
    obtain ⟨hlevel, hslope, hsamples⟩ := hstep.estimate hu
    have hsame := Gnssdo.onPps_sameEpoch (run.stateAt n) us ns
    rw [hstep.eq] at hsame
    exact ⟨hlevel, hslope, hsamples, hsame⟩

/-- Two seconds of a default policy: the second edge sets the level. -/
theorem disciplined_only_when_trusted_twice :
    let run : PolicyRun := ⟨.default, .default, [.pps 0 0, .utc 0 0 5, .pps 1000000 1000000250]⟩
    (run.stateAt 3).clock.freqMppb = 250000 ∧ run.LockedAt 2 := by
  intro run
  have hlevel : (run.stateAt 3).clock.freqMppb = 250000 := by decide
  have hmoved : (run.stateAt 3).clock.freqMppb ≠ (run.stateAt 2).clock.freqMppb := by decide
  have hpaced : run.Paced := by
    intro m n us ns hm _ hn
    match n, hn with
    | 1, hn => cases hn
    | 2, hn =>
      cases hn
      decide
  exact ⟨hlevel, ((disciplined_only_when_trusted run hpaced (by decide) 2 1000000 1000000250
    rfl).1 (.inl hmoved)).1⟩

end PicoGnss
