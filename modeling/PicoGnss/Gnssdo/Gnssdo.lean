import PicoGnss.Gnssdo.Tracker
import PicoGnss.Gnssdo.Estimator

namespace PicoGnss
open FixedWidth
set_option autoImplicit true

/-- What the discipline policy did with one edge. -/
structure GnssdoStep where
  event : PpsEvent
  freq : Option FreqUpdate
  recovered : Bool
deriving DecidableEq

structure Gnssdo where
  tracker : PpsTracker
  clock : DisciplinedClock
  lastPpsLocked : Bool

namespace Gnssdo

def withConfig (tracker : PpsTrackerConfig) (clock : DisciplinedClockConfig) : Gnssdo where
  tracker := .withConfig tracker
  clock := .withConfig clock
  lastPpsLocked := false

def new : Gnssdo := withConfig .default .default

def onPps (g : Gnssdo) (captureTimeUs : Nat) (intervalNs : Int) : GnssdoStep × Gnssdo :=
  let tracked := g.tracker.record captureTimeUs
  let locked := tracked.1.isLocked
  let recovered := locked && !g.lastPpsLocked
  if 0 < intervalNs ∧ locked then
    let clock := if recovered then g.clock.startQuarantine else g.clock
    let updated := clock.updateFreq intervalNs
    (⟨tracked.1, some updated.1, recovered⟩, ⟨tracked.2, updated.2, locked⟩)
  else (⟨tracked.1, none, recovered⟩, ⟨tracked.2, g.clock, locked⟩)

def onUtc (g : Gnssdo) (captureNs queryNs : Nat) (unixNs : Int) : Gnssdo :=
  { g with clock := g.clock.updateEpoch captureNs queryNs unixNs }

def nowFromQueryNs (g : Gnssdo) (queryNs : Nat) : Option Int := g.clock.nowFromQueryNs queryNs

def freqPpb (g : Gnssdo) : Int := g.clock.freqPpb

def holdoverNs (g : Gnssdo) (queryNs : Nat) : Nat := g.clock.holdoverNs queryNs

def frequencyLocked (g : Gnssdo) : Bool := g.clock.isLocked

/-- The clock that an edge hands to the frequency update. -/
def disciplined (g : Gnssdo) (event : PpsEvent) : DisciplinedClock :=
  if event.isLocked && !g.lastPpsLocked then g.clock.startQuarantine else g.clock

theorem onPps_of_locked (g : Gnssdo) (h : 0 < intervalNs ∧ (g.tracker.record us).1.isLocked) :
    g.onPps us intervalNs =
      (⟨(g.tracker.record us).1,
        some ((g.disciplined (g.tracker.record us).1).updateFreq intervalNs).1,
        (g.tracker.record us).1.isLocked && !g.lastPpsLocked⟩,
       ⟨(g.tracker.record us).2,
        ((g.disciplined (g.tracker.record us).1).updateFreq intervalNs).2,
        (g.tracker.record us).1.isLocked⟩) := if_pos h

theorem onPps_of_not_locked (g : Gnssdo)
    (h : ¬(0 < intervalNs ∧ (g.tracker.record us).1.isLocked)) :
    g.onPps us intervalNs =
      (⟨(g.tracker.record us).1, none, (g.tracker.record us).1.isLocked && !g.lastPpsLocked⟩,
       ⟨(g.tracker.record us).2, g.clock, (g.tracker.record us).1.isLocked⟩) := if_neg h

theorem fields_eq {p : GnssdoStep × Gnssdo} (h : p = (⟨e, f, r⟩, ⟨t, c, l⟩)) :
    p.1.event = e ∧ p.1.freq = f ∧ p.2.tracker = t ∧ p.2.clock = c ∧ p.2.lastPpsLocked = l := by
  rw [h]
  exact ⟨rfl, rfl, rfl, rfl, rfl⟩

theorem onPps_clock_of_locked (g : Gnssdo)
    (h : 0 < intervalNs ∧ (g.tracker.record us).1.isLocked) : (g.onPps us intervalNs).2.clock =
      ((g.disciplined (g.tracker.record us).1).updateFreq intervalNs).2 :=
  (fields_eq (g.onPps_of_locked h)).2.2.2.1

theorem onPps_clock_of_not_locked (g : Gnssdo)
    (h : ¬(0 < intervalNs ∧ (g.tracker.record us).1.isLocked)) :
    (g.onPps us intervalNs).2.clock = g.clock := (fields_eq (g.onPps_of_not_locked h)).2.2.2.1

theorem onPps_freq_of_locked (g : Gnssdo)
    (h : 0 < intervalNs ∧ (g.tracker.record us).1.isLocked) : (g.onPps us intervalNs).1.freq =
      some ((g.disciplined (g.tracker.record us).1).updateFreq intervalNs).1 :=
  (fields_eq (g.onPps_of_locked h)).2.1

/-- Whether or not the edge disciplines the clock, the tracker records it. -/
theorem onPps_tracked (g : Gnssdo) (us : Nat) (intervalNs : Int) :
    (g.onPps us intervalNs).1.event = (g.tracker.record us).1 ∧
      (g.onPps us intervalNs).2.tracker = (g.tracker.record us).2 ∧
      (g.onPps us intervalNs).2.lastPpsLocked = (g.tracker.record us).1.isLocked := by
  by_cases h : 0 < intervalNs ∧ (g.tracker.record us).1.isLocked
  · obtain ⟨he, -, ht, -, hl⟩ := fields_eq (g.onPps_of_locked h)
    exact ⟨he, ht, hl⟩
  · obtain ⟨he, -, ht, -, hl⟩ := fields_eq (g.onPps_of_not_locked h)
    exact ⟨he, ht, hl⟩

/-- What one edge can do to the policy. -/
inductive PpsStep (g : Gnssdo) (us : Nat) (ns : Int) : GnssdoStep → Gnssdo → Prop where
  | updated : (g.tracker.record us).1.isLocked = true → 0 < ns →
      DisciplinedClock.FreqStep (g.disciplined (g.tracker.record us).1) ns u c' →
      PpsStep g us ns ⟨(g.tracker.record us).1, some u, !g.lastPpsLocked⟩
        ⟨(g.tracker.record us).2, c', true⟩
  | held : ¬(0 < ns ∧ (g.tracker.record us).1.isLocked) →
      PpsStep g us ns
        ⟨(g.tracker.record us).1, none, (g.tracker.record us).1.isLocked && !g.lastPpsLocked⟩
        ⟨(g.tracker.record us).2, g.clock, (g.tracker.record us).1.isLocked⟩

theorem PpsStep.eq (h : PpsStep g us ns step g') : g.onPps us ns = (step, g') := by
  cases h with
  | updated hl hns hfreq => rw [g.onPps_of_locked ⟨hns, hl⟩, hfreq.eq, hl, Bool.true_and]
  | held h => exact g.onPps_of_not_locked h

theorem PpsStep.exists (g : Gnssdo) (us : Nat) (ns : Int) : ∃ step g', PpsStep g us ns step g' := by
  by_cases h : 0 < ns ∧ (g.tracker.record us).1.isLocked
  · obtain ⟨u, c', hfreq⟩ := DisciplinedClock.FreqStep.exists (g.disciplined _) ns
    exact ⟨_, _, .updated h.2 h.1 hfreq⟩
  · exact ⟨_, _, .held h⟩

theorem disciplined_frame (g : Gnssdo) (event : PpsEvent) :
    (g.disciplined event).config = g.clock.config ∧
      (g.disciplined event).freqMppb = g.clock.freqMppb ∧
      (g.disciplined event).freqSlopeMppb = g.clock.freqSlopeMppb ∧
      (g.disciplined event).samples = g.clock.samples := by
  unfold disciplined
  split
  · exact g.clock.startQuarantine_frame
  · exact ⟨rfl, rfl, rfl, rfl⟩

theorem disciplined_of_lastPpsLocked {g : Gnssdo} (h : g.lastPpsLocked = true) (event : PpsEvent) :
    g.disciplined event = g.clock := by
  rw [disciplined, h, Bool.not_true, Bool.and_false]
  rfl

/-- A recovery restarts the quarantine of a clock that has an estimate to protect. -/
theorem disciplined_of_recovered {g : Gnssdo} {event : PpsEvent} (h : g.lastPpsLocked = false)
    (hl : event.isLocked = true) (hs : 0 < g.clock.samples) :
    (g.disciplined event).quarantine = g.clock.config.quarantineSamples := by
  rw [disciplined, h, hl]
  exact DisciplinedClock.startQuarantine_quarantine hs

theorem PpsStep.tracked (h : PpsStep g us ns step g') :
    step.event = (g.tracker.record us).1 ∧ g'.tracker.lastUs = some us ∧
      g'.lastPpsLocked = step.event.isLocked := by
  cases h with
  | updated hl => exact ⟨rfl, rfl, hl.symm⟩
  | held => exact ⟨rfl, rfl, rfl⟩

theorem PpsStep.counters (h : PpsStep g us ns step g') (hs : g.clock.samples < 4294967295) :
    g'.clock.config = g.clock.config ∧
      g'.clock.samples = g.clock.samples + (if step.freq = some .applied then 1 else 0) := by
  cases h with
  | @updated u c' _ _ hfreq =>
    obtain ⟨hc, -, -, hsamples⟩ := g.disciplined_frame (g.tracker.record us).1
    rw [← hsamples] at hs
    obtain ⟨hc', hsamples', -⟩ := hfreq.counters hs
    refine ⟨hc'.trans hc, ?_⟩
    simp only [hsamples', hsamples, Option.some.injEq]
  | held => exact ⟨rfl, rfl⟩

/-- A locked edge is either quarantined or leaves the quarantine as long as it was. -/
theorem PpsStep.quarantine (h : PpsStep g us ns step g') (hs : g.clock.samples < 4294967295)
    (hns : 0 < ns) (hl : step.event.isLocked = true) :
    (g.disciplined step.event).quarantine =
      g'.clock.quarantine + (if step.freq = some .quarantined then 1 else 0) := by
  cases h with
  | updated _ _ hfreq =>
    rw [← (g.disciplined_frame (g.tracker.record us).1).2.2.2] at hs
    simp only [(hfreq.counters hs).2.2, Option.some.injEq]
  | held h => exact absurd ⟨hns, hl⟩ h

theorem PpsStep.estimate (h : PpsStep g us ns step g') (hu : step.freq ≠ some .applied) :
    g'.clock.freqMppb = g.clock.freqMppb ∧ g'.clock.freqSlopeMppb = g.clock.freqSlopeMppb ∧
      g'.clock.samples = g.clock.samples := by
  cases h with
  | updated _ _ hfreq =>
    obtain ⟨-, hlevel, hslope, hsamples⟩ := g.disciplined_frame (g.tracker.record us).1
    obtain ⟨hlevel', hslope', hsamples'⟩ := hfreq.estimate fun hu' => hu (congrArg some hu')
    exact ⟨hlevel'.trans hlevel, hslope'.trans hslope, hsamples'.trans hsamples⟩
  | held => exact ⟨rfl, rfl, rfl⟩

theorem PpsStep.trusted (h : PpsStep g us ns step g') (hu : step.freq = some .applied) :
    step.event.isLocked = true ∧
      (ns - 1000000000).natAbs < asI64 g.clock.config.saneDevNs.get ∧
      (g.disciplined step.event).quarantine = 0 := by
  cases h with
  | updated hl _ hfreq =>
    cases hu
    obtain ⟨hsane, hq⟩ := hfreq.trusted
    rw [(g.disciplined_frame (g.tracker.record us).1).1] at hsane
    exact ⟨hl, hsane, hq⟩
  | held => cases hu

theorem disciplined_sameEpoch (g : Gnssdo) (event : PpsEvent) :
    DisciplinedClock.SameEpoch g.clock (g.disciplined event) := by
  unfold disciplined
  split
  · exact g.clock.startQuarantine_sameEpoch
  · exact .refl _

theorem onPps_sameEpoch (g : Gnssdo) (us : Nat) (intervalNs : Int) :
    DisciplinedClock.SameEpoch g.clock (g.onPps us intervalNs).2.clock := by
  by_cases h : 0 < intervalNs ∧ (g.tracker.record us).1.isLocked
  · rw [g.onPps_clock_of_locked h]
    exact (g.disciplined_sameEpoch _).trans (DisciplinedClock.updateFreq_sameEpoch _ _)
  · rw [g.onPps_clock_of_not_locked h]
    exact .refl _

theorem disciplined_bounds {g : Gnssdo} (h : EstimatorBounds g.clock) (event : PpsEvent) :
    EstimatorBounds (g.disciplined event) := by
  unfold disciplined
  split
  · exact startQuarantine_bounds h
  · exact h

theorem onPps_bounds {g : Gnssdo} (h : EstimatorBounds g.clock) (us : Nat) (intervalNs : Int) :
    EstimatorBounds (g.onPps us intervalNs).2.clock := by
  by_cases hl : 0 < intervalNs ∧ (g.tracker.record us).1.isLocked
  · rw [g.onPps_clock_of_locked hl]
    exact updateFreq_bounds (disciplined_bounds h _) _
  · rw [g.onPps_clock_of_not_locked hl]
    exact h

end Gnssdo

/-- One call on the discipline policy. -/
inductive PolicyCall where
  | pps (captureTimeUs : Nat) (intervalNs : Int)
  | utc (captureNs queryNs : Nat) (unixNs : Int)

def PolicyCall.isPps : PolicyCall → Bool
  | pps .. => true
  | utc .. => false

def Gnssdo.call (g : Gnssdo) : PolicyCall → Option GnssdoStep × Gnssdo
  | .pps us ns => (some (g.onPps us ns).1, (g.onPps us ns).2)
  | .utc captureNs queryNs unixNs => (none, g.onUtc captureNs queryNs unixNs)

theorem Gnssdo.call_pps (g : Gnssdo) (us : Nat) (ns : Int) :
    g.call (.pps us ns) = (some (g.onPps us ns).1, (g.onPps us ns).2) := rfl

end PicoGnss
