import PicoGnss.Gnssdo.Range
import PicoGnss.RpPps.Pairing
import PicoGnss.TinyNtp.Server

/-! What the firmware's clock lets its server say. -/

namespace PicoGnss
set_option autoImplicit true

open FixedWidth

/-- The server policy of the firmware; its source is `GPS`. -/
def ntpServerConfig : ServerConfig where
  precision := -15
  poll := 0
  source := .referenceClock #v[71, 80, 83, 0]
  baseDispersionNs := 1000000
  holdoverDriftPpb := 1000
  maxHoldoverNs := 3600 * 1000000000

def PpsGpsdo.clockState (g : PpsGpsdo) (q : UInt64) : Option Int × ClockState :=
  let now := g.nowFromQueryNs q.toNat
  let holdoverNs := UInt64.ofNat (g.holdoverNs q.toNat)
  (now,
    { lastUpdateUnixNs := now.map fun n => wrap64 (n - asI64 holdoverNs.toNat)
      holdoverNs
      frequencyLocked := g.frequencyLocked
      leap := .none })

def GpsdoCall.isEdge : GpsdoCall → Bool
  | edge .. => true
  | nmea _ => false

/-- An edge that the frequency discipline applied. -/
def GpsdoAnswer.isApplied : GpsdoAnswer → Bool
  | .step outcome => outcome.freq == some .applied
  | .report _ => false

theorem gate_referenceClock_iff (hsource : cfg.source = .referenceClock refId) :
    gate cfg state = .ok lastUpdate ↔ state.lastUpdateUnixNs = some lastUpdate ∧
      state.frequencyLocked = true ∧ state.holdoverNs ≤ cfg.maxHoldoverNs := by
  have hstratum : ¬(Source.referenceClock refId).stratum ≥ maxStratum := by
    rw [Source.stratum]
    decide
  cases hu : state.lastUpdateUnixNs with
  | none => simp [gate, hu]
  | some u =>
    cases hl : state.frequencyLocked with
    | false => simp [gate, hu, hl]
    | true =>
      by_cases hh : state.holdoverNs ≤ cfg.maxHoldoverNs
      · simp [gate, hu, hl, hsource, hstratum, hh, UInt64.not_lt.2 hh]
      · simp [gate, hu, hl, hh, UInt64.not_le.1 hh]

theorem broadcast_ntpServerConfig (h : broadcast ntpServerConfig state t = .serve packet) :
    (∃ lastUpdate, state.lastUpdateUnixNs = some lastUpdate) ∧ state.frequencyLocked = true ∧
      state.holdoverNs ≤ ntpServerConfig.maxHoldoverNs := by
  obtain ⟨lastUpdate, hgate⟩ :=
    silentReason_eq_none_iff.1 ((broadcast_serves_iff ntpServerConfig state t).1 ⟨packet, h⟩)
  obtain ⟨hupdate, hlocked, hholdover⟩ := (gate_referenceClock_iff rfl).1 hgate
  exact ⟨⟨lastUpdate, hupdate⟩, hlocked, hholdover⟩

namespace PpsGpsdo

variable {g : PpsGpsdo}

/-- A sentence can move the epoch and nothing of the estimate. -/
theorem feedNmea_estimate (g : PpsGpsdo) (s : List UInt8) :
    (g.feedNmea s).2.clock.clock.config = g.clock.clock.config ∧
      (g.feedNmea s).2.clock.clock.samples = g.clock.clock.samples := by
  obtain ⟨-, hsame⟩ | ⟨t, c, q, r, -, hpins⟩ := g.feedNmea_cases s
  · rw [hsame.clock]
    exact ⟨rfl, rfl⟩
  · rw [hpins.clock]
    exact ⟨rfl, rfl⟩

/-- The sample counter counts an applied edge, unless it is full. -/
theorem call_estimate (x : GpsdoCall)
    (h : g.clock.clock.samples + (if x.isEdge = true then 1 else 0) ≤ 4294967295) :
    (g.call x).2.clock.clock.config = g.clock.clock.config ∧
      (g.call x).2.clock.clock.samples =
        g.clock.clock.samples + (if (g.call x).1.isApplied = true then 1 else 0) := by
  cases x with
  | edge e q =>
    obtain ⟨step, c, hstep⟩ := Gnssdo.PpsStep.exists g.clock (e.edgeNs / 1000) (asI64 e.intervalNs)
    have hcall : g.call (.edge e q) = (.step step, ⟨c, g.sync.onPpsEdge e.edgeNs q, g.source⟩) := by
      rw [call_edge, onPpsEdge_eq, hstep.eq]
    have hlt : g.clock.clock.samples < 4294967295 := by
      rw [GpsdoCall.isEdge, if_pos rfl] at h
      exact h
    obtain ⟨hconfig, hsamples⟩ := hstep.counters hlt
    rw [hcall]
    refine ⟨hconfig, hsamples.trans ?_⟩
    simp only [GpsdoAnswer.isApplied, beq_iff_eq]
  | nmea s =>
    obtain ⟨hconfig, hsamples⟩ := g.feedNmea_estimate s
    rw [call_nmea]
    exact ⟨hconfig, hsamples⟩

theorem samples_final (calls : List GpsdoCall)
    (h : g.clock.clock.samples + calls.countP GpsdoCall.isEdge ≤ 4294967295) :
    (Mealy.final call g calls).clock.clock.config = g.clock.clock.config ∧
      (Mealy.final call g calls).clock.clock.samples =
        g.clock.clock.samples + (Mealy.outputs call g calls).countP GpsdoAnswer.isApplied := by
  induction calls generalizing g with
  | nil => exact ⟨rfl, rfl⟩
  | cons x calls ih =>
    rw [List.countP_cons] at h
    have hone : g.clock.clock.samples + (if x.isEdge = true then 1 else 0) ≤ 4294967295 := by omega
    obtain ⟨hconfig, hsamples⟩ := g.call_estimate x hone
    have happlied : (g.call x).1.isApplied = true → x.isEdge = true := by
      cases x with
      | edge => exact fun _ => rfl
      | nmea s => exact fun ha => nomatch ha
    have hrest : (g.call x).2.clock.clock.samples + calls.countP GpsdoCall.isEdge ≤
        4294967295 := by
      rw [hsamples]
      split
      · rename_i ha
        rw [if_pos (happlied ha)] at h
        omega
      · omega
    obtain ⟨hconfig', hsamples'⟩ := ih hrest
    refine ⟨hconfig'.trans hconfig, ?_⟩
    rw [Mealy.final_cons, Mealy.outputs_cons, List.countP_cons, hsamples', hsamples]
    omega

end PpsGpsdo

namespace GpsdoRun

variable {run : GpsdoRun}

def edgeCount (run : GpsdoRun) : Nat := run.calls.countP GpsdoCall.isEdge

/-- How many of the first `n` calls were edges that the discipline applied. -/
def appliedBefore (run : GpsdoRun) (n : Nat) : Nat :=
  (Mealy.outputs PpsGpsdo.call (.withConfig run.source run.association)
    (run.calls.take n)).countP GpsdoAnswer.isApplied

/-- Call `k` is the last of the first `n` calls to report. -/
structure LastReport (run : GpsdoRun) (n k : Nat) (r : SyncReport) : Prop where
  lt : k < n
  reports : run.Reports k r
  quiet : ∀ k', k + 1 ≤ k' → k' < n → ∀ r', ¬run.Reports k' r'

theorem lastReport_cases (run : GpsdoRun) (n : Nat) :
    (∀ k < n, ∀ r, ¬run.Reports k r) ∨ ∃ k r, run.LastReport n k r := by
  induction n with
  | zero => exact .inl fun k hk => absurd hk (Nat.not_lt_zero k)
  | succ n ih =>
    by_cases hn : ∃ r, run.Reports n r
    · obtain ⟨r, hr⟩ := hn
      exact .inr ⟨n, r, Nat.lt_succ_self n, hr, fun k' h1 h2 => by omega⟩
    · have hquiet : ∀ r, ¬run.Reports n r := fun r hr => hn ⟨r, hr⟩
      obtain hnone | ⟨k, r, hlast⟩ := ih
      · left
        intro k hk
        rcases Nat.lt_succ_iff_lt_or_eq.1 hk with hk | rfl
        · exact hnone k hk
        · exact hquiet
      · right
        refine ⟨k, r, Nat.lt_succ_of_lt hlast.lt, hlast.reports, ?_⟩
        intro k' h1 h2
        rcases Nat.lt_succ_iff_lt_or_eq.1 h2 with h2 | rfl
        · exact hlast.quiet k' h1 h2
        · exact hquiet

/-- The epoch is the last report's edge and second, and so is the start of the holdover. -/
theorem LastReport.epoch (h : run.LastReport n k r) (hn : n ≤ run.calls.length)
    (hj : run.MostRecentEdge k j e q) :
    (run.stateAt n).clock.clock.epochQueryNs = some q ∧
      (run.stateAt n).clock.clock.lastQueryNs = some q ∧
      (run.stateAt n).clock.clock.epochUnixNs = some r.unixNs := by
  obtain ⟨s, t, c, q', hs, hpins⟩ := h.reports.pins
  obtain ⟨j', e', hj', -, -⟩ := pending_edge (Nat.le_of_lt h.reports.lt_length) hpins.edge
  have hedge := hj'.edge
  rw [← hj.unique hj', hj.edge] at hedge
  cases hedge
  have hsame := sameEpoch_of_quiet h.lt hn h.quiet
  have hclock : (run.stateAt (k + 1)).clock.clock =
      (run.stateAt k).clock.clock.updateEpoch c q r.unixNs := by
    rw [hpins.clock]
    rfl
  rw [hsame.queryNs, hsame.lastQueryNs, hsame.unixNs, hclock]
  exact ⟨rfl, rfl, rfl⟩

theorem epoch_of_unreported (hn : n ≤ run.calls.length)
    (hnone : ∀ k < n, ∀ r, ¬run.Reports k r) :
    (run.stateAt n).clock.clock.epochQueryNs = none := by
  have hsame := sameEpoch_of_quiet (Nat.zero_le n) hn fun k _ hk => hnone k hk
  exact hsame.queryNs

/-- With fewer edges than the counter holds, it holds how many were applied. -/
theorem stateAt_samples (run : GpsdoRun) (hedges : run.edgeCount < 4294967296) (n : Nat) :
    (run.stateAt n).clock.clock.config = .default ∧
      (run.stateAt n).clock.clock.samples = run.appliedBefore n := by
  have hsome : (run.calls.take n).countP GpsdoCall.isEdge ≤ run.edgeCount :=
    (List.take_sublist n run.calls).countP_le
  obtain ⟨hconfig, hsamples⟩ := PpsGpsdo.samples_final
    (g := .withConfig run.source run.association) (run.calls.take n)
    (Nat.le_trans (Nat.add_le_add_left hsome 0) (by omega))
  exact ⟨hconfig, hsamples.trans (Nat.zero_add _)⟩

theorem frequencyLocked_iff (run : GpsdoRun) (hedges : run.edgeCount < 4294967296) (n : Nat) :
    (run.stateAt n).frequencyLocked = true ↔ 8 ≤ run.appliedBefore n := by
  obtain ⟨hconfig, hsamples⟩ := run.stateAt_samples hedges n
  rw [PpsGpsdo.frequencyLocked, Gnssdo.frequencyLocked, isLocked_default hconfig,
    decide_eq_true_iff, hsamples]

/-- What the gate reads off the clock after a report. -/
theorem LastReport.holdoverNs (h : run.LastReport n k r) (hn : n ≤ run.calls.length)
    (hj : run.MostRecentEdge k j e edgeQueryNs) (q : UInt64) :
    ((run.stateAt n).clockState q).2.holdoverNs.toNat = q.toNat - edgeQueryNs := by
  have hq := q.toNat_lt
  obtain ⟨-, hlast, -⟩ := h.epoch hn hj
  have hholdover : (run.stateAt n).holdoverNs q.toNat = q.toNat - edgeQueryNs := by
    simp only [PpsGpsdo.holdoverNs, Gnssdo.holdoverNs, DisciplinedClock.holdoverNs, hlast]
  rw [PpsGpsdo.clockState, UInt64.toNat_ofNat', hholdover]
  omega

/-- Time is served on an estimate of eight samples and a report whose edge is no older than the
holdover may be, and on nothing else. -/
theorem served_only_when_disciplined (run : GpsdoRun) (hedges : run.edgeCount < 4294967296)
    (hn : n ≤ run.calls.length) (q : UInt64) :
    (∀ t packet, broadcast ntpServerConfig ((run.stateAt n).clockState q).2 t = .serve packet →
      8 ≤ run.appliedBefore n ∧ ∃ k r j e edgeQueryNs, run.LastReport n k r ∧
        run.MostRecentEdge k j e edgeQueryNs ∧
        q.toNat - ntpServerConfig.maxHoldoverNs.toNat ≤ edgeQueryNs) ∧
    ∀ k r j e edgeQueryNs, run.LastReport n k r → run.MostRecentEdge k j e edgeQueryNs →
      edgeQueryNs + ntpServerConfig.maxHoldoverNs.toNat < q.toNat →
      ∀ t, ∃ reason, broadcast ntpServerConfig ((run.stateAt n).clockState q).2 t =
        .silent reason := by
  constructor
  · intro t packet hserve
    obtain ⟨⟨lastUpdate, hupdate⟩, hlocked, hholdover⟩ := broadcast_ntpServerConfig hserve
    refine ⟨(run.frequencyLocked_iff hedges n).1 hlocked, ?_⟩
    obtain hnone | ⟨k, r, hlast⟩ := run.lastReport_cases n
    · have hunset : (run.stateAt n).nowFromQueryNs q.toNat = none := by
        rw [PpsGpsdo.nowFromQueryNs, Gnssdo.nowFromQueryNs, DisciplinedClock.nowFromQueryNs,
          epoch_of_unreported hn hnone]
        rfl
      simp only [PpsGpsdo.clockState, hunset] at hupdate
      cases hupdate
    · obtain ⟨s, t', j, e, edgeQueryNs, -, -, hj, -⟩ := hlast.reports.edge
      refine ⟨k, r, j, e, edgeQueryNs, hlast, hj, ?_⟩
      have hle := UInt64.le_iff_toNat_le.1 hholdover
      rw [hlast.holdoverNs hn hj] at hle
      omega
  · intro k r j e edgeQueryNs hlast hj hlate t
    cases hb : broadcast ntpServerConfig ((run.stateAt n).clockState q).2 t with
    | silent reason => exact ⟨reason, rfl⟩
    | serve packet =>
      obtain ⟨-, -, hholdover⟩ := broadcast_ntpServerConfig hb
      have hle := UInt64.le_iff_toNat_le.1 hholdover
      rw [hlast.holdoverNs hn hj] at hle
      omega

/-- Nine edges a second apart and the sentence of the last. -/
def steadyRun : GpsdoRun where
  source := .zda
  association := .sameSecond
  calls := (List.range 9).map (fun i =>
    .edge ⟨0, if i = 0 then 0 else 1000000000, i * 1000000000⟩ (i * 1000000000)) ++
    [.nmea zdaSentence]

theorem steadyRun_served : silentReason ntpServerConfig
    ((steadyRun.stateAt 10).clockState 8250000000).2 = none := by
  decide +kernel

theorem served_only_when_disciplined_steady : 8 ≤ steadyRun.appliedBefore 10 ∧
    ∃ k r j e edgeQueryNs, steadyRun.LastReport 10 k r ∧
      steadyRun.MostRecentEdge k j e edgeQueryNs ∧
      UInt64.toNat 8250000000 - ntpServerConfig.maxHoldoverNs.toNat ≤ edgeQueryNs := by
  obtain ⟨packet, hserve⟩ := (broadcast_serves_iff ntpServerConfig
    ((steadyRun.stateAt 10).clockState 8250000000).2 5).2 steadyRun_served
  obtain ⟨hserved, -⟩ := served_only_when_disciplined steadyRun (by decide) (n := 10) (by decide)
    8250000000
  exact hserved 5 packet hserve

end GpsdoRun

end PicoGnss
