import Mathlib.Data.Nat.Count
import Mathlib.Data.Rat.Floor
import Mathlib.Tactic.IntervalCases
import Mathlib.Tactic.Linarith
import Mathlib.Tactic.NormNum
import PicoGnss.RpPps.PpsGpsdo

/-! One PPS edge a second on a crystal's capture counter, with outages of any length. -/

namespace PicoGnss
set_option autoImplicit true

open FixedWidth

/-- A capture counter at a constant rate within 100 ppm of 62.5 MHz. -/
structure Crystal (K : Type u) [Field K] [LinearOrder K] where
  phase : K
  ticksPerSecond : K
  accurate : 62493750 ≤ ticksPerSecond ∧ ticksPerSecond ≤ 62506250

/-- What turns a raw capture into a disciplined frequency. -/
structure CaptureChain where
  timeline : PpsEdgeTimeline
  gpsdo : PpsGpsdo

namespace CaptureChain

def new (source : NmeaTimeSource) (association : PpsNmeaAssociation) : CaptureChain where
  timeline := .new 125000000
  gpsdo := .withConfig source association

def timed (c : CaptureChain) (raw : UInt32) : TimedEdge := (c.timeline.observe raw).1

def edge (c : CaptureChain) (raw : UInt32) (queryNs : Nat) : GnssdoStep × PpsGpsdo :=
  c.gpsdo.onPpsEdge (c.timed raw) queryNs

def next (c : CaptureChain) (raw : UInt32) (queryNs : Nat) : CaptureChain where
  timeline := (c.timeline.observe raw).2
  gpsdo := (c.edge raw queryNs).2

/-- An interval that the next gates would accept as one second. -/
def Regular (c : CaptureChain) (raw : UInt32) (queryNs : Nat) : Prop :=
  (c.edge raw queryNs).1.event.isLocked = true ∧
    ((c.timed raw).intervalNs - 1000000000 : Int).natAbs < 1000000

instance (c : CaptureChain) (raw : UInt32) (q : Nat) : Decidable (c.Regular raw q) := by
  unfold Regular
  infer_instance

end CaptureChain

/-- The edges that arrive, each at the start of a later second than the one before. -/
structure EdgeRun (K : Type u) [Field K] [LinearOrder K] where
  crystal : Crystal K
  source : NmeaTimeSource
  association : PpsNmeaAssociation
  second : Nat → Nat
  increasing : ∀ n, second n < second (n + 1)
  queryNs : Nat → Nat

variable {K : Type u} [Field K] [LinearOrder K] [FloorRing K]

/-- The ticks that have elapsed at the start of a second. -/
def Crystal.ticks (x : Crystal K) (second : Nat) : Int := ⌊x.phase + x.ticksPerSecond * second⌋

/-- The counter counts down. -/
def Crystal.raw (x : Crystal K) (second : Nat) : UInt32 := .ofInt (-x.ticks second)

namespace EdgeRun

def rawAt (run : EdgeRun K) (n : Nat) : UInt32 := run.crystal.raw (run.second n)

/-- The state before edge `n`. -/
def stateAt (run : EdgeRun K) : Nat → CaptureChain
  | 0 => .new run.source run.association
  | n + 1 => (run.stateAt n).next (run.rawAt n) (run.queryNs n)

def edgeAt (run : EdgeRun K) (n : Nat) : GnssdoStep × PpsGpsdo :=
  (run.stateAt n).edge (run.rawAt n) (run.queryNs n)

def RegularAt (run : EdgeRun K) (n : Nat) : Prop :=
  (run.stateAt n).Regular (run.rawAt n) (run.queryNs n)

instance (run : EdgeRun K) (n : Nat) : Decidable (run.RegularAt n) := by
  unfold RegularAt
  infer_instance

/-- The edge after edge `n` is seen as irregular, and the regular ones after it are quarantined. -/
structure Recovers (run : EdgeRun K) (n : Nat) : Prop where
  seen : (run.edgeAt (n + 1)).1.event.isLocked = false
  quarantined : ∀ j, run.RegularAt (n + 2 + j) →
    Nat.count (fun i => run.RegularAt (n + 2 + i)) j <
      DisciplinedClockConfig.default.quarantineSamples →
    (run.edgeAt (n + 2 + j)).1.freq = some .quarantined

/-- The ticks between edges `n` and `n + 1`, of which the counter keeps the low 32 bits, put the
timeline within the tolerance of one second. -/
def Aliases (run : EdgeRun K) (n : Nat) : Prop :=
  let edgeNs : Int := (run.stateAt (n + 1)).timeline.edgeNs
  let ticks := (run.crystal.ticks (run.second (n + 1)) - run.crystal.ticks (run.second n)) %
    4294967296
  950000000 ≤ edgeNs % 1000 + 16 * ticks ∧ edgeNs % 1000 + 16 * ticks < 1050001000 ∧
    edgeNs + 16 * ticks < 18446744073709551616

end EdgeRun

/-- The capture interval at 125 MHz, exact at 16 ns a tick. -/
theorem intervalNs_125MHz (prev curr : UInt32) :
    intervalNs prev curr 125000000 = 16 * (intervalTicks prev curr).toNat := by
  have hlt := (intervalTicks prev curr).toNat_lt
  rw [intervalNs, captureCyclesPerTick]
  omega

theorem Crystal.intervalTicks_raw (x : Crystal K) (s s' : Nat) :
    ((intervalTicks (x.raw s) (x.raw s')).toNat : Int) = (x.ticks s' - x.ticks s) % 4294967296 := by
  have hsub : x.raw s - x.raw s' = .ofInt (x.ticks s' - x.ticks s) := by
    rw [raw, raw, UInt32.sub_eq_add_neg, ← UInt32.ofInt_neg, ← UInt32.ofInt_add]
    congr 1
    omega
  rw [intervalTicks, hsub, UInt32.ofInt, UInt32.toNat_ofNat']
  omega

namespace CaptureChain

variable {c : CaptureChain}

/-- What every edge maintains under the default configuration. -/
structure Configured (c : CaptureChain) : Prop where
  clkHz : c.timeline.clkHz = 125000000
  tracker : c.gpsdo.clock.tracker.config = .default
  bounds : EstimatorBounds c.gpsdo.clock.clock

/-- The timeline and the tracker agree on the last edge. -/
structure Follows (c : CaptureChain) (raw : UInt32) : Prop extends Configured c where
  last : c.timeline.last = some raw
  edgeNs : c.timeline.edgeNs < 18446744073709551616
  lastUs : c.gpsdo.clock.tracker.lastUs = some (c.timeline.edgeNs / 1000)

theorem timed_eq (c : CaptureChain) (raw : UInt32) : (c.timed raw).edgeNs =
      (c.timeline.edgeNs + (c.timed raw).intervalNs) % 18446744073709551616 := rfl

theorem next_timeline (c : CaptureChain) (raw : UInt32) (queryNs : Nat) :
    (c.next raw queryNs).timeline.clkHz = c.timeline.clkHz ∧
      (c.next raw queryNs).timeline.last = some raw ∧
      (c.next raw queryNs).timeline.edgeNs = (c.timed raw).edgeNs := ⟨rfl, rfl, rfl⟩

theorem next_clock (c : CaptureChain) (raw : UInt32) (queryNs : Nat) :
    (c.next raw queryNs).gpsdo.clock = (c.gpsdo.clock.onPps ((c.timed raw).edgeNs / 1000)
      (asI64 (c.timed raw).intervalNs)).2 := by
  rw [next, edge, PpsGpsdo.onPpsEdge_clock]

theorem edge_fst (c : CaptureChain) (raw : UInt32) (queryNs : Nat) :
    (c.edge raw queryNs).1 = (c.gpsdo.clock.onPps ((c.timed raw).edgeNs / 1000)
      (asI64 (c.timed raw).intervalNs)).1 := by
  rw [edge, PpsGpsdo.onPpsEdge_fst]

theorem Configured.next (h : c.Configured) (raw : UInt32) (queryNs : Nat) :
    (c.next raw queryNs).Follows raw := by
  have hedge := (c.next_timeline raw queryNs).2.2
  obtain ⟨-, htracker, -⟩ := c.gpsdo.clock.onPps_tracked ((c.timed raw).edgeNs / 1000)
    (asI64 (c.timed raw).intervalNs)
  rw [← next_clock c raw queryNs] at htracker
  refine ⟨⟨h.clkHz, ?_, ?_⟩, rfl, ?_, ?_⟩
  · rw [htracker, PpsTracker.record_config, h.tracker]
  · rw [next_clock]
    exact Gnssdo.onPps_bounds h.bounds _ _
  · rw [hedge, timed_eq]
    exact Nat.mod_lt _ (by decide)
  · rw [htracker, PpsTracker.record_lastUs, hedge]

theorem Follows.intervalNs (h : c.Follows prev) (raw : UInt32) :
    (c.timed raw).intervalNs = 16 * (intervalTicks prev raw).toNat := by
  rw [← intervalNs_125MHz, timed, PpsEdgeTimeline.observe, h.last, h.clkHz]

theorem edge_event (c : CaptureChain) (raw : UInt32) (queryNs : Nat) :
    (c.edge raw queryNs).1.event =
      (c.gpsdo.clock.tracker.record ((c.timed raw).edgeNs / 1000)).1 := by
  rw [edge_fst, (Gnssdo.onPps_tracked ..).1]

/-- The tracker sees one second when the timeline moves on by one within the tolerance. -/
theorem Follows.isLocked_iff (h : c.Follows prev) (raw : UInt32) (queryNs : Nat) :
    (c.edge raw queryNs).1.event.isLocked = true ↔
      950000000 ≤ c.timeline.edgeNs % 1000 + (c.timed raw).intervalNs ∧
      c.timeline.edgeNs % 1000 + (c.timed raw).intervalNs < 1050001000 ∧
      c.timeline.edgeNs + (c.timed raw).intervalNs < 18446744073709551616 := by
  have hedge := h.edgeNs
  have hinterval := h.intervalNs raw
  have hticks := (intervalTicks prev raw).toNat_lt
  have htimed := timed_eq c raw
  rw [edge_event, PpsTracker.record, h.lastUs,
    PpsTracker.classify_isLocked_iff _ h.tracker (by omega)]
  generalize (c.timed raw).edgeNs = edge at *
  generalize (c.timed raw).intervalNs = interval at *
  generalize c.timeline.edgeNs = last at *
  omega

/-- An edge that is not locked leaves the estimate alone and makes the next locked one a
recovery. -/
theorem next_of_not_isLocked (hl : (c.edge raw queryNs).1.event.isLocked = false) :
    (c.next raw queryNs).gpsdo.clock.clock = c.gpsdo.clock.clock ∧
      (c.next raw queryNs).gpsdo.clock.lastPpsLocked = false := by
  obtain ⟨-, -, hlast⟩ := c.gpsdo.clock.onPps_tracked ((c.timed raw).edgeNs / 1000)
    (asI64 (c.timed raw).intervalNs)
  rw [edge_event] at hl
  rw [next_clock]
  refine ⟨c.gpsdo.clock.onPps_clock_of_not_locked fun h => ?_, hlast.trans hl⟩
  rw [hl] at h
  cases h.2

theorem Follows.edge_of_isLocked (h : c.Follows prev)
    (hl : (c.edge raw queryNs).1.event.isLocked = true) :
    (c.edge raw queryNs).1.freq = some ((c.gpsdo.clock.disciplined
      (c.edge raw queryNs).1.event).updateFreq (c.timed raw).intervalNs).1 ∧
    (c.next raw queryNs).gpsdo.clock.clock = ((c.gpsdo.clock.disciplined
      (c.edge raw queryNs).1.event).updateFreq (c.timed raw).intervalNs).2 := by
  have hinterval := h.intervalNs raw
  have hticks := (intervalTicks prev raw).toNat_lt
  have hwindow := (h.isLocked_iff raw queryNs).1 hl
  have hi64 : asI64 (c.timed raw).intervalNs = (c.timed raw).intervalNs :=
    asI64_of_lt (by omega)
  rw [edge_event] at hl
  have hpos : 0 < ((c.timed raw).intervalNs : Int) := by omega
  rw [edge_event, edge_fst, next_clock, hi64]
  exact ⟨c.gpsdo.clock.onPps_freq_of_locked ⟨hpos, hl⟩,
    c.gpsdo.clock.onPps_clock_of_locked ⟨hpos, hl⟩⟩

/-- The next edges that pass for a second are quarantined until five of them have been. -/
structure Quarantining (c : CaptureChain) (used : Nat) : Prop where
  samples : c.gpsdo.clock.clock.samples ≠ 0
  pending : c.gpsdo.clock.lastPpsLocked = false ∨ 5 ≤ c.gpsdo.clock.clock.quarantine + used

theorem Quarantining.disciplined (h : c.Quarantining used) (hc : c.Configured)
    {event : PpsEvent} (hl : event.isLocked = true) :
    (c.gpsdo.clock.disciplined event).config = .default ∧
      (c.gpsdo.clock.disciplined event).samples ≠ 0 ∧
      5 ≤ (c.gpsdo.clock.disciplined event).quarantine + used := by
  have hconfig := hc.bounds.config
  rw [Gnssdo.disciplined, hl]
  cases hlast : c.gpsdo.clock.lastPpsLocked with
  | false =>
    simp only [Bool.not_false, Bool.and_self, ↓reduceIte]
    rw [startQuarantine_default hconfig h.samples]
    exact ⟨hconfig, h.samples, Nat.le_add_right 5 used⟩
  | true =>
    simp only [Bool.not_true, Bool.and_false, Bool.false_eq_true, ↓reduceIte]
    refine ⟨hconfig, h.samples, ?_⟩
    rcases h.pending with hp | hp
    · rw [hlast] at hp
      cases hp
    · exact hp

theorem Quarantining.next_of_not_regular (h : c.Quarantining used) (hf : c.Follows prev)
    (hr : ¬c.Regular raw queryNs) : (c.next raw queryNs).Quarantining used := by
  cases hl : (c.edge raw queryNs).1.event.isLocked with
  | false =>
    obtain ⟨hclock, hlast⟩ := next_of_not_isLocked hl
    refine ⟨?_, .inl hlast⟩
    rw [hclock]
    exact h.samples
  | true =>
    obtain ⟨dev, hdev⟩ : ∃ dev, ((c.timed raw).intervalNs : Int) = 1000000000 + dev :=
      ⟨(c.timed raw).intervalNs - 1000000000, by omega⟩
    have hsane : ¬dev.natAbs < 1000000 := fun hlt => hr ⟨hl, by omega⟩
    obtain ⟨hconfig, hsamples, hquarantine⟩ := h.disciplined hf.toConfigured hl
    have hclock := (hf.edge_of_isLocked hl).2
    rw [hdev, updateFreq_gatedSane hconfig hsane] at hclock
    refine ⟨?_, .inr ?_⟩
    · rw [hclock]
      exact hsamples
    · rw [hclock]
      exact hquarantine

theorem Quarantining.next_of_regular (h : c.Quarantining used) (hf : c.Follows prev)
    (hr : c.Regular raw queryNs) (hused : used < 5) :
    (c.edge raw queryNs).1.freq = some .quarantined ∧
      (c.next raw queryNs).Quarantining (used + 1) := by
  obtain ⟨hl, hregular⟩ := hr
  obtain ⟨dev, hdev⟩ : ∃ dev, ((c.timed raw).intervalNs : Int) = 1000000000 + dev :=
    ⟨(c.timed raw).intervalNs - 1000000000, by omega⟩
  obtain ⟨hconfig, hsamples, hquarantine⟩ := h.disciplined hf.toConfigured hl
  obtain ⟨hfreq, hclock⟩ := hf.edge_of_isLocked hl
  obtain ⟨hq, hs, hleft⟩ := updateFreq_quarantined hconfig (by omega : dev.natAbs < 1000000)
    (show 0 < (c.gpsdo.clock.disciplined (c.edge raw queryNs).1.event).quarantine by omega)
  rw [← hdev] at hq hs hleft
  refine ⟨by rw [hfreq, hq], ?_, .inr ?_⟩
  · rw [hclock, hs]
    exact hsamples
  · rw [hclock]
    omega

end CaptureChain

namespace EdgeRun

theorem configured (run : EdgeRun K) (n : Nat) : (run.stateAt n).Configured := by
  induction n with
  | zero => exact ⟨rfl, rfl, .new⟩
  | succ n ih => exact (ih.next _ _).toConfigured

theorem follows (run : EdgeRun K) (n : Nat) : (run.stateAt (n + 1)).Follows (run.rawAt n) :=
  (run.configured n).next _ _

/-- Only an interval that aliases to one second passes for locked. -/
theorem aliases_iff (run : EdgeRun K) (n : Nat) :
    run.Aliases n ↔ (run.edgeAt (n + 1)).1.event.isLocked = true := by
  have hticks := run.crystal.intervalTicks_raw (run.second n) (run.second (n + 1))
  have hinterval := (run.follows n).intervalNs (run.rawAt (n + 1))
  rw [edgeAt, (run.follows n).isLocked_iff, hinterval, Aliases, ← hticks, rawAt, rawAt]
  omega

theorem quarantining (run : EdgeRun K) (n : Nat)
    (hsamples : (run.stateAt (n + 1)).gpsdo.clock.clock.samples ≠ 0)
    (hseen : (run.edgeAt (n + 1)).1.event.isLocked = false) (j : Nat)
    (hj : Nat.count (fun i => run.RegularAt (n + 2 + i)) j ≤ 5) :
    (run.stateAt (n + 2 + j)).Quarantining
      (Nat.count (fun i => run.RegularAt (n + 2 + i)) j) := by
  induction j with
  | zero =>
    obtain ⟨hclock, hlast⟩ := CaptureChain.next_of_not_isLocked hseen
    refine ⟨?_, .inl hlast⟩
    rw [Nat.add_zero, stateAt, hclock]
    exact hsamples
  | succ j ih =>
    rw [Nat.count_succ] at hj
    have hbefore := ih (by omega)
    have hfollows := run.follows (n + 1 + j)
    rw [show n + 1 + j + 1 = n + 2 + j by omega] at hfollows
    rw [Nat.count_succ]
    by_cases hr : run.RegularAt (n + 2 + j)
    · rw [if_pos hr] at hj ⊢
      exact (hbefore.next_of_regular hfollows hr (by omega)).2
    · rw [if_neg hr, Nat.add_zero]
      exact hbefore.next_of_not_regular hfollows hr

end EdgeRun

/-- An outage of any length is seen and quarantined exactly when it does not alias to one
second. -/
theorem recovers_iff_not_aliases (run : EdgeRun K) (n : Nat)
    (hsamples : (run.stateAt (n + 1)).gpsdo.clock.clock.samples ≠ 0) :
    run.Recovers n ↔ ¬run.Aliases n := by
  rw [run.aliases_iff, Bool.not_eq_true]
  constructor
  · exact fun h => h.seen
  · intro hseen
    refine ⟨hseen, fun j hr hj => ?_⟩
    have hused : Nat.count (fun i => run.RegularAt (n + 2 + i)) j < 5 := hj
    have hbefore := run.quarantining n hsamples hseen j (Nat.le_of_lt hused)
    have hfollows := run.follows (n + 1 + j)
    rw [show n + 1 + j + 1 = n + 2 + j by omega] at hfollows
    exact (hbefore.next_of_regular hfollows hr hused).1

/-- A nominal crystal: the edges of seconds 0 and 1, an outage, and every edge after it. -/
def outageRun (missing : Nat) : EdgeRun ℚ where
  crystal := ⟨0, 62500000, by norm_num⟩
  source := .zda
  association := .sameSecond
  second := fun n => n + missing * min (n - 1) 1
  increasing := fun n => by
    have hmono := Nat.mul_le_mul_left missing (show min (n - 1) 1 ≤ min (n + 1 - 1) 1 by omega)
    omega
  queryNs := fun n => 1000000000 * n

/-- One missing edge. -/
theorem outageRun_recovers : (outageRun 1).Recovers 1 := by
  have hsamples : ((outageRun 1).stateAt (1 + 1)).gpsdo.clock.clock.samples ≠ 0 := by
    decide +kernel
  have hunlocked : ((outageRun 1).edgeAt (1 + 1)).1.event.isLocked = false := by decide +kernel
  apply (recovers_iff_not_aliases (outageRun 1) 1 hsamples).2
  rw [EdgeRun.aliases_iff, hunlocked]
  nofun

/-- Eight minutes and two seconds, which the counter shows as 0.963662848 s. -/
theorem outageRun_not_recovers :
    ((outageRun 481).stateAt (1 + 1)).gpsdo.clock.clock.samples ≠ 0 ∧
      (outageRun 481).second 2 = (outageRun 481).second 1 + 482 ∧
      ¬(outageRun 481).Recovers 1 := by
  have hlocked : ((outageRun 481).edgeAt (1 + 1)).1.event.isLocked = true := by decide +kernel
  refine ⟨by decide +kernel, rfl, fun h => ?_⟩
  rw [h.seen] at hlocked
  cases hlocked

variable [IsStrictOrderedRing K]

/-- Over any number of seconds the counter keeps within 100 ppm of nominal. -/
theorem Crystal.ticks_add (x : Crystal K) (s g : Nat) :
    x.ticks s + 62493750 * g ≤ x.ticks (s + g) ∧ x.ticks (s + g) ≤ x.ticks s + 62506250 * g := by
  have hle := Int.floor_le (x.phase + x.ticksPerSecond * s)
  have hlt := Int.lt_floor_add_one (x.phase + x.ticksPerSecond * s)
  have hg : (0 : K) ≤ g := Nat.cast_nonneg g
  have hlow := mul_le_mul_of_nonneg_right x.accurate.1 hg
  have hhigh := mul_le_mul_of_nonneg_right x.accurate.2 hg
  constructor
  · apply Int.le_floor.2
    push_cast [ticks]
    linarith
  · apply Int.lt_add_one_iff.1
    apply Int.floor_lt.2
    push_cast [ticks]
    linarith

/-- No outage of less than 482 seconds aliases, whatever the crystal's error. -/
theorem EdgeRun.not_aliases_of_short (run : EdgeRun K)
    (hlo : run.second n + 2 ≤ run.second (n + 1))
    (hhi : run.second (n + 1) < run.second n + 482) : ¬run.Aliases n := by
  obtain ⟨g, hg⟩ := Nat.exists_eq_add_of_le (show run.second n ≤ run.second (n + 1) by omega)
  have hticks := run.crystal.ticks_add (run.second n) g
  rintro ⟨h1, h2, -⟩
  rw [hg] at h1 h2 hlo hhi
  generalize hd : run.crystal.ticks (run.second n + g) - run.crystal.ticks (run.second n) = d at *
  have hsplit := Int.mul_ediv_add_emod d 4294967296
  have hm : 0 ≤ d / 4294967296 ∧ d / 4294967296 ≤ 7 := by omega
  generalize d / 4294967296 = m at *
  generalize d % 4294967296 = low at *
  obtain ⟨hm0, hm7⟩ := hm
  interval_cases m <;> omega

end PicoGnss
