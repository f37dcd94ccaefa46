import PicoGnss.Gnssdo.Gnssdo
import PicoGnss.RpPps.CivilTime
import PicoGnss.RpPps.Sentences
import PicoGnss.RpPps.Timeline

namespace PicoGnss
set_option autoImplicit true

open FixedWidth

inductive NmeaTimeSource where
  | rmc
  | zda
deriving DecidableEq

def NmeaTimeSource.parse : NmeaTimeSource → List UInt8 → Option RmcTimeDate
  | rmc => parseRmcTimeDate
  | zda => parseZdaTimeDate

structure SyncReport where
  captureNs : Nat
  unixNs : Int
  errNs : Int
  fireNs : Int
  holdoverNs : Nat
  freqPpb : Int
deriving DecidableEq

structure PpsGpsdo where
  clock : Gnssdo
  sync : PpsTimeSync
  source : NmeaTimeSource

namespace PpsGpsdo

def withConfig (source : NmeaTimeSource) (association : PpsNmeaAssociation) : PpsGpsdo where
  clock := .new
  sync := .withAssociation association
  source := source

def withAssociation (association : PpsNmeaAssociation) : PpsGpsdo := withConfig .zda association

def new : PpsGpsdo := withAssociation .sameSecond

def onPpsEdge (g : PpsGpsdo) (edge : TimedEdge) (queryNs : Nat) : GnssdoStep × PpsGpsdo :=
  let sync := g.sync.onPpsEdge edge.edgeNs queryNs
  let stepped := g.clock.onPps (edge.edgeNs / 1000) (asI64 edge.intervalNs)
  (stepped.1, { g with clock := stepped.2, sync })

def feedNmea (g : PpsGpsdo) (sentence : List UInt8) : Option SyncReport × PpsGpsdo :=
  match g.source.parse sentence with
  | none => (none, g)
  | some t =>
    match (g.sync.setDate t.year t.month t.day).onTime t.hour t.minute t.second with
    | (none, sync) => (none, { g with sync })
    | (some epoch, sync) =>
      let errNs := (g.clock.clock.predictionResidualNs epoch.captureNs epoch.unixNs).getD 0
      let fireNs := (g.clock.clock.fireResidualNs epoch.captureNs epoch.unixNs).getD 0
      let holdoverNs := g.clock.holdoverNs epoch.queryNs
      let clock := g.clock.onUtc epoch.captureNs epoch.queryNs epoch.unixNs
      (some ⟨epoch.captureNs, epoch.unixNs, errNs, fireNs, holdoverNs, clock.freqPpb⟩,
        { g with sync, clock })

def nowFromQueryNs (g : PpsGpsdo) (queryNs : Nat) : Option Int := g.clock.nowFromQueryNs queryNs

def holdoverNs (g : PpsGpsdo) (queryNs : Nat) : Nat := g.clock.holdoverNs queryNs

def frequencyLocked (g : PpsGpsdo) : Bool := g.clock.frequencyLocked

end PpsGpsdo

/-- One call on the bundle. -/
inductive GpsdoCall where
  | edge (edge : TimedEdge) (queryNs : Nat)
  | nmea (sentence : List UInt8)

inductive GpsdoAnswer where
  | step (step : GnssdoStep)
  | report (report : Option SyncReport)
deriving DecidableEq

def PpsGpsdo.call (g : PpsGpsdo) : GpsdoCall → GpsdoAnswer × PpsGpsdo
  | .edge edge queryNs => (.step (g.onPpsEdge edge queryNs).1, (g.onPpsEdge edge queryNs).2)
  | .nmea sentence => (.report (g.feedNmea sentence).1, (g.feedNmea sentence).2)

/-- The three bytes that name the configured sentence. -/
def NmeaTimeSource.tag : NmeaTimeSource → List UInt8
  | rmc => rmcTag
  | zda => zdaTag

theorem NmeaTimeSource.parse_valid {source : NmeaTimeSource} (h : source.parse s = some t) :
    t.Valid ∧ strGet s 3 6 = some source.tag := by
  cases source with
  | rmc => exact parseRmcTimeDate_valid h
  | zda => exact parseZdaTimeDate_valid h

/-- The instant that a sentence gives to its edge. -/
def PpsNmeaAssociation.edgeUnixNs (association : PpsNmeaAssociation) (t : RmcTimeDate) : Int :=
  wrap64 ((t.toUnix + association.edgeOffsetSeconds) * 1000000000)

theorem PpsNmeaAssociation.edgeUnixNs_eq (association : PpsNmeaAssociation) (h : t.Valid)
    (hy : t.year ≤ 2261) : association.edgeUnixNs t =
      t.toUnix * 1000000000 + association.edgeOffsetSeconds * 1000000000 ∧
    InI64 (association.edgeUnixNs t) := by
  have ht := h.toUnix_mem hy
  refine ⟨?_, wrap64_inI64 _⟩
  have hoff : -1 ≤ association.edgeOffsetSeconds ∧ association.edgeOffsetSeconds ≤ 1 := by
    cases association <;> decide
  rw [edgeUnixNs, wrap64_of_natAbs_lt (by omega), Int.add_mul]

namespace PpsGpsdo

/-- Two states that differ in the retained date at most. -/
structure SameButDate (g g' : PpsGpsdo) : Prop where
  clock : g'.clock = g.clock
  pending : g'.sync.pending = g.sync.pending
  association : g'.sync.association = g.sync.association
  source : g'.source = g.source

/-- A sentence that pins the pending edge. -/
structure Pins (g : PpsGpsdo) (s : List UInt8) (t : RmcTimeDate) (c q : Nat) (r : SyncReport)
    (g' : PpsGpsdo) : Prop where
  parsed : g.source.parse s = some t
  edge : g.sync.pending = some (c, q)
  captureNs : r.captureNs = c
  unixNs : r.unixNs = g.sync.association.edgeUnixNs t
  clock : g'.clock = g.clock.onUtc c q r.unixNs
  pending : g'.sync.pending = none
  association : g'.sync.association = g.sync.association
  source : g'.source = g.source

theorem feedNmea_cases (g : PpsGpsdo) (s : List UInt8) :
    ((g.feedNmea s).1 = none ∧ SameButDate g (g.feedNmea s).2) ∨
      ∃ t c q r, (g.feedNmea s).1 = some r ∧ Pins g s t c q r (g.feedNmea s).2 := by
  cases hp : g.source.parse s with
  | none =>
    left
    simp only [feedNmea, hp]
    exact ⟨trivial, rfl, rfl, rfl, rfl⟩
  | some t =>
    cases hpend : g.sync.pending with
    | none =>
      left
      simp only [feedNmea, hp, PpsTimeSync.setDate, PpsTimeSync.onTime, hpend]
      exact ⟨trivial, rfl, hpend.symm, rfl, rfl⟩
    | some edge =>
      obtain ⟨c, q⟩ := edge
      right
      refine ⟨t, c, q, ?_⟩
      simp only [feedNmea, hp, PpsTimeSync.setDate, PpsTimeSync.onTime, hpend]
      exact ⟨_, rfl, hp, hpend, rfl, rfl, rfl, rfl, rfl, rfl⟩

theorem feedNmea_none (h : (feedNmea g s).1 = none) : SameButDate g (feedNmea g s).2 := by
  obtain ⟨-, hs⟩ | ⟨t, c, q, r, hr, -⟩ := feedNmea_cases g s
  · exact hs
  · rw [h] at hr
    cases hr

theorem feedNmea_some (h : (feedNmea g s).1 = some r) :
    ∃ t c q, Pins g s t c q r (feedNmea g s).2 := by
  obtain ⟨hn, -⟩ | ⟨t, c, q, r', hr, hpins⟩ := feedNmea_cases g s
  · rw [h] at hn
    cases hn
  · rw [h] at hr
    cases hr
    exact ⟨t, c, q, hpins⟩

/-- A sentence that parses uses up whatever edge is pending. -/
theorem feedNmea_parsed (h : (g : PpsGpsdo).source.parse s = some t) :
    (feedNmea g s).2.sync.pending = none ∧
      ∀ c q, g.sync.pending = some (c, q) → ∃ r, (feedNmea g s).1 = some r ∧ r.captureNs = c ∧
        r.unixNs = g.sync.association.edgeUnixNs t := by
  obtain ⟨hnone, hsame⟩ | ⟨t', c', q', r, hr, hpins⟩ := feedNmea_cases g s
  · have hpend : g.sync.pending = none := by
      cases hp : g.sync.pending with
      | none => rfl
      | some edge =>
        simp only [feedNmea, h, PpsTimeSync.setDate, PpsTimeSync.onTime, hp] at hnone
        cases hnone
    refine ⟨hsame.pending.trans hpend, fun c q hc => ?_⟩
    rw [hpend] at hc
    cases hc
  · refine ⟨hpins.pending, fun c q hc => ⟨r, hr, ?_, ?_⟩⟩
    · cases hc.symm.trans hpins.edge
      exact hpins.captureNs
    · cases h.symm.trans hpins.parsed
      exact hpins.unixNs

theorem onPpsEdge_eq (g : PpsGpsdo) (e : TimedEdge) (q : Nat) :
    g.onPpsEdge e q = ((g.clock.onPps (e.edgeNs / 1000) (asI64 e.intervalNs)).1,
      ⟨(g.clock.onPps (e.edgeNs / 1000) (asI64 e.intervalNs)).2, g.sync.onPpsEdge e.edgeNs q,
        g.source⟩) := by
  rw [onPpsEdge]

theorem fields_eq {p : α × PpsGpsdo} (h : p = (a, ⟨c, s, src⟩)) :
    p.1 = a ∧ p.2.clock = c ∧ p.2.sync = s ∧ p.2.source = src := by
  rw [h]
  exact ⟨rfl, rfl, rfl, rfl⟩

theorem onPpsEdge_fst (g : PpsGpsdo) (e : TimedEdge) (q : Nat) :
    (g.onPpsEdge e q).1 = (g.clock.onPps (e.edgeNs / 1000) (asI64 e.intervalNs)).1 :=
  (fields_eq (g.onPpsEdge_eq e q)).1

theorem onPpsEdge_clock (g : PpsGpsdo) (e : TimedEdge) (q : Nat) :
    (g.onPpsEdge e q).2.clock = (g.clock.onPps (e.edgeNs / 1000) (asI64 e.intervalNs)).2 :=
  (fields_eq (g.onPpsEdge_eq e q)).2.1

theorem onPpsEdge_sync (g : PpsGpsdo) (e : TimedEdge) (q : Nat) :
    (g.onPpsEdge e q).2.sync = g.sync.onPpsEdge e.edgeNs q :=
  (fields_eq (g.onPpsEdge_eq e q)).2.2.1

theorem onPpsEdge_source (g : PpsGpsdo) (e : TimedEdge) (q : Nat) :
    (g.onPpsEdge e q).2.source = g.source :=
  (fields_eq (g.onPpsEdge_eq e q)).2.2.2

theorem onPpsEdge_sameEpoch (g : PpsGpsdo) (e : TimedEdge) (q : Nat) :
    DisciplinedClock.SameEpoch g.clock.clock (g.onPpsEdge e q).2.clock.clock := by
  rw [onPpsEdge_clock]
  exact g.clock.onPps_sameEpoch _ _

theorem call_edge (g : PpsGpsdo) (e : TimedEdge) (q : Nat) :
    g.call (.edge e q) = (.step (g.onPpsEdge e q).1, (g.onPpsEdge e q).2) := by
  rw [call]

theorem call_nmea (g : PpsGpsdo) (s : List UInt8) :
    g.call (.nmea s) = (.report (g.feedNmea s).1, (g.feedNmea s).2) := by
  rw [call]

theorem call_config (g : PpsGpsdo) (x : GpsdoCall) :
    (g.call x).2.source = g.source ∧ (g.call x).2.sync.association = g.sync.association := by
  cases x with
  | edge e q =>
    rw [call_edge, onPpsEdge_source, onPpsEdge_sync]
    exact ⟨rfl, rfl⟩
  | nmea s =>
    rw [call_nmea]
    obtain ⟨-, hs⟩ | ⟨t, c, q, r, -, hpins⟩ := feedNmea_cases g s
    · exact ⟨hs.source, hs.association⟩
    · exact ⟨hpins.source, hpins.association⟩

end PpsGpsdo

end PicoGnss
