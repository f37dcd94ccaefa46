import PicoGnss.Gnssdo.ConstantCrystal
import PicoGnss.Lib.Drift
import PicoGnss.Lib.Rounding
import PicoGnss.PicoNtp.Server

/-! When frames leave, by a pulse that is on time and a crystal that is off by a constant. -/

namespace PicoGnss
open FixedWidth Drift
set_option autoImplicit true

/-- A pulse on every second from `unixNs` on, and a crystal that runs `e` ppb fast: the first edge
is at `queryNs` of its clock, and every edge is read `lagNs` after it at the latest. -/
structure Pulse where
  e : Int
  near : e.natAbs ≤ 100000
  queryNs : Nat
  lagNs : Nat
  unixNs : Int

namespace Pulse

/-- A true second on the crystal's clock. -/
def secondNs (p : Pulse) : Nat := (1000000000 + p.e).toNat

/-- How far a reading of UTC is ahead of what it was, in units of `1 / (1000000000 + e)` ns. -/
def ahead (p : Pulse) (q : Nat) (unixNs : Int) : Int :=
  Drift.ahead 1000000000 p.e p.queryNs p.unixNs q unixNs

/-- Edge `m` was read at `q`. -/
def ReadsEdge (p : Pulse) (m q : Nat) : Prop :=
  p.queryNs + m * p.secondNs ≤ q ∧ q ≤ p.queryNs + m * p.secondNs + p.lagNs

/-- A call after others: an edge is timed exactly, and a sentence names the second of the edge
before it. -/
def Paced (p : Pulse) (source : NmeaTimeSource) (association : PpsNmeaAssociation)
    (before : List GpsdoCall) : GpsdoCall → Prop
  | .edge edge q => edge.edgeNs = before.countP GpsdoCall.isEdge * p.secondNs ∧
      (0 < before.countP GpsdoCall.isEdge → edge.intervalNs = p.secondNs) ∧
      p.ReadsEdge (before.countP GpsdoCall.isEdge) q
  | .nmea s => ∀ t ∈ source.parse s, 0 < before.countP GpsdoCall.isEdge →
      association.edgeUnixNs t =
        p.unixNs + (before.countP GpsdoCall.isEdge - 1 : Nat) * 1000000000

/-- Every call of a run is paced. -/
def Drives (p : Pulse) (run : GpsdoRun) : Prop :=
  ∀ before x after, run.calls = before ++ x :: after →
    p.Paced run.source run.association before x

instance (p : Pulse) (source : NmeaTimeSource) (association : PpsNmeaAssociation)
    (before : List GpsdoCall) (x : GpsdoCall) : Decidable (p.Paced source association before x) :=
  match x with
  | .edge .. => inferInstanceAs (Decidable (_ ∧ _ ∧ _ ∧ _))
  | .nmea s => inferInstanceAs (Decidable (∀ t ∈ source.parse s, _ → _))

theorem drives_iff (p : Pulse) (run : GpsdoRun) : p.Drives run ↔
    ∀ i < run.calls.length, ∀ x ∈ run.calls[i]?,
      p.Paced run.source run.association (run.calls.take i) x := by
  constructor
  · intro h i hi x hx
    obtain ⟨hlt, rfl⟩ := List.getElem?_eq_some_iff.1 hx
    refine h _ _ (run.calls.drop (i + 1)) ?_
    rw [List.getElem_cons_drop, List.take_append_drop]
  · intro h before x after heq
    have hpaced := h before.length
    rw [heq] at hpaced
    simpa using hpaced

instance (p : Pulse) (run : GpsdoRun) : Decidable (p.Drives run) :=
  decidable_of_iff _ (p.drives_iff run).symm

theorem Drives.left {p : Pulse} {source : NmeaTimeSource} {association : PpsNmeaAssociation}
    {calls more : List GpsdoCall} (h : p.Drives ⟨source, association, calls ++ more⟩) :
    p.Drives ⟨source, association, calls⟩ := by
  intro before x after heq
  refine h before x (after ++ more) ?_
  rw [← List.cons_append, ← List.append_assoc]
  exact congrArg (· ++ more) heq

theorem secondNs_eq (p : Pulse) : (p.secondNs : Int) = 1000000000 + p.e := by
  have hnear := p.near
  exact Int.toNat_of_nonneg (by omega)

/-- A reading `d` after edge `k` was read, `l` late, from that edge's second and `x` on. -/
theorem ahead_edge (p : Pulse) (k l d : Nat) (x : Int) :
    p.ahead (p.queryNs + k * p.secondNs + l + d) (p.unixNs + k * 1000000000 + x) =
      x * (1000000000 + p.e) - d * 1000000000 - l * 1000000000 := by
  have hcount : ((p.queryNs + k * p.secondNs + l + d : Nat) : Int) =
      p.queryNs + k * (1000000000 + p.e) + (l + d : Nat) := by
    rw [← secondNs_eq]
    push_cast
    ring
  rw [ahead, hcount, ahead_advance, ahead_periods]
  push_cast
  ring

theorem ahead_later (p : Pulse) (q d : Nat) (u x : Int) :
    p.ahead (q + d) (u + x) = p.ahead q u + (x * (1000000000 + p.e) - d * 1000000000) := by
  rw [ahead, Nat.cast_add, ahead_advance, ahead]

end Pulse

/-- What a clock on such a pulse has made of the calls so far. -/
structure OnTime (p : Pulse) (calls : List GpsdoCall) (g : PpsGpsdo) : Prop where
  fresh : calls.countP GpsdoCall.isEdge = 0 → g.clock = .new
  clock : ∀ m, calls.countP GpsdoCall.isEdge = m + 1 → OnPulse p.e 0 m g.clock
  pending : ∀ c q, g.sync.pending = some (c, q) → ∃ m x, calls.countP GpsdoCall.isEdge = m + 1 ∧
    .edge x q ∈ calls ∧ p.ReadsEdge m q
  epoch : ∀ q, g.clock.clock.epochQueryNs = some q → ∃ (m : Nat) (x : TimedEdge),
    .edge x q ∈ calls ∧ p.ReadsEdge m q ∧ g.clock.clock.lastQueryNs = some q ∧
      g.clock.clock.epochUnixNs = some (p.unixNs + m * 1000000000)

namespace OnTime

variable {p : Pulse} {g : PpsGpsdo} {calls : List GpsdoCall}

theorem start (p : Pulse) (source : NmeaTimeSource) (association : PpsNmeaAssociation) :
    OnTime p [] (.withConfig source association) where
  fresh := fun _ => rfl
  clock := fun _ h => nomatch h
  pending := fun _ _ h => nomatch h
  epoch := fun _ h => nomatch h

theorem edge (h : OnTime p calls g) {x : TimedEdge}
    (hpaced : p.Paced source association calls (.edge x q)) :
    OnTime p (calls ++ [.edge x q]) (g.onPpsEdge x q).2 := by
  obtain ⟨htime, hinterval, hq⟩ := hpaced
  have hcount : (calls ++ [GpsdoCall.edge x q]).countP GpsdoCall.isEdge =
      calls.countP GpsdoCall.isEdge + 1 := List.countP_append
  have hsecond := p.secondNs_eq
  have hnear := p.near
  have hus : x.edgeNs = constantEdgeNs p.e 0 (calls.countP GpsdoCall.isEdge) := by
    rw [htime, constantEdgeNs, Nat.zero_add]
    rfl
  have hsame := g.clock.onPps_sameEpoch (x.edgeNs / 1000) (asI64 x.intervalNs)
  constructor
  · intro hzero
    cases hcount.symm.trans hzero
  · intro m hm
    obtain rfl : calls.countP GpsdoCall.isEdge = m := by omega
    rw [PpsGpsdo.onPpsEdge_clock, hus]
    cases hn : calls.countP GpsdoCall.isEdge with
    | zero =>
      rw [h.fresh hn]
      exact .firstEdge ..
    | succ m =>
      rw [hinterval (by omega), asI64_of_lt (by omega), hsecond]
      exact (h.clock m hn).edge p.near
  · intro c q' hpending
    cases hpending
    exact ⟨_, x, hcount, List.mem_append_right calls List.mem_cons_self, hq⟩
  · intro q' hepoch
    rw [PpsGpsdo.onPpsEdge_clock, hsame.queryNs] at hepoch
    obtain ⟨m, y, hmem, hread, hlast, hunix⟩ := h.epoch q' hepoch
    rw [PpsGpsdo.onPpsEdge_clock, hsame.unixNs, hsame.lastQueryNs]
    exact ⟨m, y, List.mem_append_left _ hmem, hread, hlast, hunix⟩

theorem sentence (h : OnTime p calls g)
    (hpaced : p.Paced g.source g.sync.association calls (.nmea s)) :
    OnTime p (calls ++ [.nmea s]) (g.feedNmea s).2 := by
  have hcount : (calls ++ [GpsdoCall.nmea s]).countP GpsdoCall.isEdge =
      calls.countP GpsdoCall.isEdge := List.countP_append
  have hleft {x : TimedEdge} {q : Nat} (hmem : GpsdoCall.edge x q ∈ calls) :
      .edge x q ∈ calls ++ [.nmea s] := List.mem_append_left _ hmem
  obtain ⟨-, hsame⟩ | ⟨t, c, q, r, -, hpins⟩ := g.feedNmea_cases s
  · constructor
    · rw [hcount, hsame.clock]
      exact h.fresh
    · rw [hcount, hsame.clock]
      exact h.clock
    · intro c q hpending
      rw [hsame.pending] at hpending
      obtain ⟨m, x, hm, hmem, hread⟩ := h.pending c q hpending
      exact ⟨m, x, hcount.trans hm, hleft hmem, hread⟩
    · intro q hepoch
      rw [hsame.clock] at hepoch ⊢
      obtain ⟨m, x, hmem, hread⟩ := h.epoch q hepoch
      exact ⟨m, x, hleft hmem, hread⟩
  · obtain ⟨m, x, hm, hmem, hread⟩ := h.pending c q hpins.edge
    have hunix := hpaced t hpins.parsed (by omega)
    rw [hm, Nat.add_sub_cancel] at hunix
    constructor
    · intro hzero
      omega
    · rw [hcount, hpins.clock]
      exact fun m hm => (h.clock m hm).onUtc ..
    · intro c q hpending
      cases hpins.pending.symm.trans hpending
    · intro q' hepoch
      rw [hpins.clock] at hepoch ⊢
      cases hepoch
      refine ⟨m, x, hleft hmem, hread, rfl, ?_⟩
      rw [← hunix, ← hpins.unixNs]
      rfl

theorem run (run : GpsdoRun) (h : p.Drives run) : OnTime p run.calls run.final := by
  obtain ⟨source, association, calls⟩ := run
  rw [GpsdoRun.final, GpsdoRun.stateAt, List.take_length]
  induction calls using List.reverseRecOn with
  | nil => exact .start p source association
  | append_singleton calls x ih =>
    have hbefore := ih fun before y after heq => h before y (after ++ [x]) (by
      rw [← List.cons_append, ← List.append_assoc, ← heq])
    have hpaced := h calls x [] rfl
    have hconfig := GpsdoRun.stateAt_config ⟨source, association, calls⟩ calls.length
    rw [GpsdoRun.stateAt, List.take_length] at hconfig
    rw [Mealy.final_concat]
    cases x with
    | edge x q => exact hbefore.edge hpaced
    | nmea s =>
      apply hbefore.sentence
      rw [hconfig.1, hconfig.2]
      exact hpaced

/-- The pulse has set a clock by edge `k`, which was read `l` late. -/
structure Sets (p : Pulse) (g : PpsGpsdo) (k l : Nat) : Prop where
  late : l ≤ p.lagNs
  queryNs : g.clock.clock.epochQueryNs = some (p.queryNs + k * p.secondNs + l)
  unixNs : g.clock.clock.epochUnixNs = some (p.unixNs + k * 1000000000)
  lastQueryNs : g.clock.clock.lastQueryNs = some (p.queryNs + k * p.secondNs + l)
  level : g.clock.clock.freqMppb = 1000 * p.e

theorem exists_sets (h : OnTime p calls g) (hedges : calls.countP GpsdoCall.isEdge = m + 2)
    (hepoch : g.clock.clock.epochQueryNs = some q) :
    ∃ k l x, Sets p g k l ∧ .edge x q ∈ calls ∧ q = p.queryNs + k * p.secondNs + l := by
  obtain ⟨k, x, hmem, ⟨hlo, hhi⟩, hlast, hunix⟩ := h.epoch q hepoch
  obtain ⟨l, rfl⟩ := Nat.exists_eq_add_of_le hlo
  exact ⟨k, l, x, ⟨Nat.le_of_add_le_add_left hhi, hepoch, hunix, hlast,
    (h.clock (m + 1) hedges).level (Nat.succ_pos m)⟩, hmem, rfl⟩

/-- A locked clock has had two edges. -/
theorem two_edges (h : OnTime p calls g) (hlocked : g.frequencyLocked = true) :
    ∃ m, calls.countP GpsdoCall.isEdge = m + 2 := by
  rw [PpsGpsdo.frequencyLocked, Gnssdo.frequencyLocked] at hlocked
  cases hn : calls.countP GpsdoCall.isEdge with
  | zero =>
    rw [h.fresh hn] at hlocked
    cases hlocked
  | succ m =>
    cases m with
    | zero =>
      have hclock := h.clock 0 hn
      rw [DisciplinedClock.isLocked, hclock.config, hclock.samples] at hlocked
      cases hlocked
    | succ m => exact ⟨m, rfl⟩

end OnTime

/-- The time since an edge, corrected to first order. -/
def Pulse.elapsed (p : Pulse) (d : Nat) : Int := d - (d * p.e).tdiv 1000000000

namespace Pulse

variable (p : Pulse)

theorem elapsed_bounds (d : Nat) : 0 ≤ p.elapsed d ∧ p.elapsed d ≤ 2 * d := by
  have hproduct : ((d : Int) * p.e).natAbs ≤ d * 100000 :=
    natAbs_mul_le (Nat.le_of_eq (Int.natAbs_natCast d)) p.near
  have hquotient := natAbs_tdiv_le hproduct (by decide) (by decide : ((1000000000 : Nat) : Int) ≤
    1000000000)
  unfold elapsed
  omega

/-- A later reading is later, by at most twice the time. -/
theorem elapsed_later (d n : Nat) :
    p.elapsed d ≤ p.elapsed (d + n) ∧ p.elapsed (d + n) ≤ p.elapsed d + 2 * n := by
  have hnear := p.near
  have hproduct : ((n : Int) * p.e).natAbs ≤ n * 100000 :=
    natAbs_mul_le (Nat.le_of_eq (Int.natAbs_natCast n)) hnear
  have hsplit : ((d + n : Nat) : Int) * p.e = d * p.e + n * p.e := by
    push_cast
    exact Int.add_mul ..
  have hfaster := Rounding.tdiv_sub_le (by decide) (Int.natCast_nonneg n)
    (by omega : ((d + n : Nat) : Int) * p.e - d * p.e ≤ 1000000000 * n)
  have hslower := Rounding.tdiv_sub_le (by decide) (Int.natCast_nonneg n)
    (by omega : (d : Int) * p.e - (d + n : Nat) * p.e ≤ 1000000000 * n)
  unfold elapsed
  omega

/-- What the first-order correction leaves out. -/
theorem second_order_le (d : Nat) : (d : Int) * (p.e * p.e) / 1000000000 ≤ 10 * d := by
  have hsquare := natAbs_mul_le p.near p.near
  have hproduct := natAbs_mul_le (Nat.le_of_eq (Int.natAbs_natCast d)) hsquare
  omega

theorem ahead_elapsed (k l d : Nat) :
    p.ahead (p.queryNs + k * p.secondNs + l + d) (p.unixNs + k * 1000000000 + p.elapsed d) ≤
        1000000000 ∧
      -(((l + 1 : Nat) : Int) * 1000000000 + 10 * d) ≤
        p.ahead (p.queryNs + k * p.secondNs + l + d)
          (p.unixNs + k * 1000000000 + p.elapsed d) := by
  obtain ⟨hearly, hlate⟩ := first_order (by decide : (0 : Int) < 1000000000)
    (Int.natCast_nonneg d) p.e
  have hsecond := p.second_order_le d
  rw [ahead_edge, elapsed]
  omega

end Pulse

theorem trueElapsed_level {c : DisciplinedClock} (hf : c.freqMppb = 1000 * p.e) (d : Nat) :
    c.trueElapsed d = Pulse.elapsed p d := by
  have hscale : (1000000000000 : Int) = 1000 * 1000000000 := by norm_num
  rw [DisciplinedClock.trueElapsed, hf, Int.mul_left_comm, hscale,
    Int.mul_tdiv_mul_of_pos _ _ (by decide)]
  rfl

namespace OnTime.Sets

variable {p : Pulse} {g : PpsGpsdo} {k l : Nat}

theorem holdover (h : Sets p g k l) (d : Nat) :
    g.holdoverNs (p.queryNs + k * p.secondNs + l + d) = d := by
  rw [PpsGpsdo.holdoverNs, Gnssdo.holdoverNs, DisciplinedClock.holdoverNs, h.lastQueryNs]
  exact Nat.add_sub_cancel_left _ _

/-- A gate that lets a reading pass has seen an edge within the hour. -/
theorem gated (h : Sets p g k l) {q : UInt64}
    (hq : p.queryNs + k * p.secondNs + l + d ≤ q.toNat)
    (hgate : (g.clockState q).2.holdoverNs ≤ ntpServerConfig.maxHoldoverNs) :
    d ≤ 3600000000000 := by
  obtain ⟨n, hn⟩ := Nat.exists_eq_add_of_le hq
  have hheld : (g.clockState q).2.holdoverNs = UInt64.ofNat (d + n) := by
    rw [PpsGpsdo.clockState, hn, Nat.add_assoc _ d n, h.holdover]
  have hle := UInt64.le_iff_toNat_le.1 hgate
  have hlt : q.toNat < UInt64.size := q.toNat_lt
  rw [hheld, UInt64.toNat_ofNat_of_lt' (by omega)] at hle
  exact Nat.le_trans (Nat.le_add_right d n) hle

/-- The seconds of the pulse are of the length of the crystal's, give or take a half. -/
theorem fits (hunix : 0 ≤ p.unixNs)
    (hrange : p.unixNs + 2 * (p.queryNs + k * p.secondNs + l + d : Nat) ≤ 9223372036854775807) :
    InI64 d ∧ InI64 (p.unixNs + k * 1000000000 + p.elapsed d) := by
  obtain ⟨hpos, htwice⟩ := p.elapsed_bounds d
  have hhalf : k * 500000000 ≤ k * p.secondNs := by
    have hsecond := p.secondNs_eq
    have hnear := p.near
    exact Nat.mul_le_mul_left k (by omega)
  generalize k * p.secondNs = n at hhalf hrange
  generalize p.elapsed d = x at hpos htwice
  unfold InI64
  omega

theorem reading (h : Sets p g k l) (hunix : 0 ≤ p.unixNs)
    (hrange : p.unixNs + 2 * (p.queryNs + k * p.secondNs + l + d : Nat) ≤ 9223372036854775807) :
    g.nowFromQueryNs (p.queryNs + k * p.secondNs + l + d) =
      some (p.unixNs + k * 1000000000 + p.elapsed d) := by
  obtain ⟨hcount, hnow⟩ := fits hunix hrange
  rw [PpsGpsdo.nowFromQueryNs, Gnssdo.nowFromQueryNs,
    DisciplinedClock.nowFromQueryNs_eq h.queryNs h.unixNs, wrap64_asI64_sub,
    wrap64_of_inI64 hcount, trueElapsed_level h.level, wrap64_of_inI64 hnow]

end OnTime.Sets

namespace NtpServer

/-- How long the actions of an iteration sleep. -/
def sleptNs (actions : List TxAction) : Nat := (actions.map fun
  | .sleepUs us => us * 1000
  | .linkPulse | .send _ => 0).sum

/-- The timer in an iteration: it does not run backwards, and no sleep ends early or more than
`lateNs` late. -/
structure Timely (lateNs : Nat) (pass : NtpPass) (handoverNs : UInt64)
    (actions : List TxAction) : Prop where
  edges : ∀ raw q, .fed (.edge raw q) ∈ pass.before → q ≤ pass.startNs.toNat
  built : pass.startNs.toNat ≤ pass.buildNs.toNat
  waited : pass.startNs.toNat ≤ pass.waitNs.toNat
  early : pass.waitNs.toNat + sleptNs actions ≤ handoverNs.toNat
  late : handoverNs.toNat ≤ pass.waitNs.toNat + sleptNs actions + lateNs

/-- What is handed over at `handoverNs` is handed over at `targetUnixNs`: by the crystal, at most
2.6 µs early, and late by what the edges, the timer and the building of the frame are late, and
38 µs, most of it the square of the crystal's error over the holdover. -/
structure Punctual (p : Pulse) (lateNs : Nat) (pass : NtpPass) (handoverNs : UInt64)
    (targetUnixNs : Int) : Prop where
  early : p.ahead handoverNs.toNat targetUnixNs ≤ 2600000000000
  late : -(((p.lagNs + lateNs + 3 * (pass.waitNs.toNat - pass.startNs.toNat) + 38000 : Nat) : Int) *
    1000000000) ≤ p.ahead handoverNs.toNat targetUnixNs

theorem sleptNs_sleepUntil (targetUnixNs now : Int) (words : List (BitVec 32))
    (hfits : InI64 (targetUnixNs - now)) :
    (sleptNs (NtpTask.sleepUntil targetUnixNs (some now) ++ [.send words]) : Int) ≤
        max (targetUnixNs - now) 0 ∧
      targetUnixNs - now - 1000 <
        sleptNs (NtpTask.sleepUntil targetUnixNs (some now) ++ [.send words]) := by
  have hslept : sleptNs (NtpTask.sleepUntil targetUnixNs (some now) ++ [.send words]) =
      (max (targetUnixNs - now) 0 / 1000).toNat * 1000 := by
    rw [NtpTask.sleepUntil, wrap64_of_inI64 hfits]
    simp only [sleptNs, List.cons_append, List.nil_append, List.map_cons, List.map_nil,
      List.sum_cons, List.sum_nil, Nat.add_zero]
  rw [hslept]
  omega

/-- Between two readings of the same second's clock, a wait to the second and what it adds. -/
theorem punctual_of_wait (p : Pulse) (prepNs d spent lateNs : Nat) {left : Int} {slept : Nat}
    (hlo : -(2 * prepNs : Int) ≤ left) (hhi : left ≤ 16000000)
    (hslept : (slept : Int) ≤ max left 0 ∧ left - 1000 < slept)
    (hearly : slept ≤ spent) (hlate : spent ≤ slept + lateNs)
    (hd : d ≤ 3600000000000 + prepNs) {now : Int}
    (hnow : p.ahead q now ≤ 1000000000 ∧
      -(((p.lagNs + 1 : Nat) : Int) * 1000000000 + 10 * d) ≤ p.ahead q now) :
    p.ahead (q + spent) (now + left) ≤ 2600000000000 ∧
      -(((p.lagNs + lateNs + 3 * prepNs + 38000 : Nat) : Int) * 1000000000) ≤
        p.ahead (q + spent) (now + left) := by
  -- the sleep rounds a microsecond off, and the crystal's error counts over what is left
  have hproduct := natAbs_mul_le (Nat.le_refl left.natAbs) p.near
  rw [p.ahead_later, Int.mul_add]
  generalize p.ahead q now = a at hnow
  generalize left * p.e = x at hproduct
  omega

theorem edge_before {pass : NtpPass} (htimer : Timely lateNs pass handoverNs actions)
    (h : .edge x q ∈ (heard clkHz source association pass.before).calls) :
    q ≤ pass.startNs.toNat := by
  obtain ⟨raw, hraw⟩ := IngestInput.edge_mem_calls h
  obtain ⟨event, hevent, hinput⟩ := List.mem_filterMap.1 hraw
  obtain ⟨effect, heffect, hfed⟩ := List.mem_filterMap.1 hevent
  obtain rfl : event = .edge raw q := by
    cases event <;> cases hinput
    rfl
  obtain rfl : effect = .fed (.edge raw q) := by
    cases effect <;> cases hfed
    rfl
  exact htimer.edges raw q heffect

/-- What an iteration reads of a clock that edge `k` has set: its first reading is `d` after that
edge was read, and the one before the wait `n` later still. -/
structure PassReads (p : Pulse) (g : PpsGpsdo) (pass : NtpPass) (k l d n : Nat) : Prop where
  late : l ≤ p.lagNs
  startNs : pass.startNs.toNat = p.queryNs + k * p.secondNs + l + d
  waitNs : pass.waitNs.toNat = p.queryNs + k * p.secondNs + l + (d + n)
  gated : d ≤ 3600000000000
  start : (g.clockState pass.startNs).1 = some (p.unixNs + k * 1000000000 + p.elapsed d)
  wait : (g.clockState pass.waitNs).1 = some (p.unixNs + k * 1000000000 + p.elapsed (d + n))
  fits : InI64 (p.unixNs + k * 1000000000 + p.elapsed (d + n))

variable {p : Pulse} {pass : NtpPass}

theorem Sent.reads (he : Sent port clkHz source association pass handoverNs actions e)
    (hdrives : p.Drives (heard clkHz source association pass.before)) (hunix : 0 ≤ p.unixNs)
    (hnow : pass.now = some t) (htimer : Timely lateNs pass handoverNs actions)
    (hrange : p.unixNs + 2 * (handoverNs.toNat : Int) ≤ 9223372036854775807) :
    ∃ k l d n,
      PassReads p (heard clkHz source association pass.before).final pass k l d n := by
  have htime := OnTime.run _ hdrives
  have hstart := he.now.trans hnow
  obtain ⟨q, hq, hserve⟩ := he.built
  obtain ⟨-, hlocked, hholdover⟩ := broadcast_ntpServerConfig hserve
  obtain ⟨m, hm⟩ := htime.two_edges hlocked
  -- a clock without an epoch would have read nothing
  cases hepoch : (heard clkHz source association pass.before).final.clock.clock.epochQueryNs with
  | none =>
    rw [PpsGpsdo.clockState, PpsGpsdo.nowFromQueryNs, Gnssdo.nowFromQueryNs,
      DisciplinedClock.nowFromQueryNs, hepoch] at hstart
    cases hstart
  | some epochNs =>
    -- the edge of the epoch was read before the iteration began
    obtain ⟨k, l, x, hsets, hmem, rfl⟩ := htime.exists_sets hm hepoch
    obtain ⟨d, hd⟩ := Nat.exists_eq_add_of_le (edge_before htimer hmem)
    obtain ⟨n, hn⟩ := Nat.exists_eq_add_of_le htimer.waited
    rw [hd, Nat.add_assoc _ d n] at hn
    have hearly := htimer.early
    have hreads (d' : Nat) (hle : d' ≤ d + n) := hsets.reading (d := d') hunix (by omega)
    refine ⟨k, l, d, n, hsets.late, hd, hn, ?_, ?_, ?_, ?_⟩
    · apply hsets.gated _ hholdover
      rw [← hd]
      obtain rfl | rfl := hq
      · exact Nat.le_refl _
      · exact htimer.built
    · rw [PpsGpsdo.clockState, hd]
      exact hreads d (Nat.le_add_right d n)
    · rw [PpsGpsdo.clockState, hn]
      exact hreads (d + n) (Nat.le_refl _)
    · exact (OnTime.Sets.fits (k := k) (l := l) (d := d + n) hunix (by omega)).2

theorem Sent.punctual (he : Sent port clkHz source association pass handoverNs actions e)
    (hdrives : p.Drives (heard clkHz source association pass.before)) (hunix : 0 ≤ p.unixNs)
    (hdated : DatedLooks pass.effects) (htimer : Timely lateNs pass handoverNs actions)
    (hrange : p.unixNs + 2 * (handoverNs.toNat : Int) ≤ 9223372036854775807) :
    Punctual p lateNs pass handoverNs e.targetUnixNs := by
  obtain ⟨-, now, hnow, hlt, hle⟩ := he.aimed hdated
  obtain ⟨k, l, d, n, h⟩ := he.reads hdrives hunix hnow htimer hrange
  obtain rfl := Option.some.inj (h.start.symm.trans (he.now.trans hnow))
  -- the second was ahead of the first reading, and the one before the wait can be past it
  obtain ⟨hmono, htwice⟩ := p.elapsed_later d n
  have hpos := (p.elapsed_bounds d).1
  have hfits := h.fits
  have hslept := sleptNs_sleepUntil e.targetUnixNs
    (p.unixNs + k * 1000000000 + p.elapsed (d + n)) (frameWords e.frame)
    (by unfold InI64 at hfits ⊢; omega)
  rw [← h.wait, ← he.waited] at hslept
  obtain ⟨s, hs⟩ := Nat.exists_eq_add_of_le
    (Nat.le_trans (Nat.le_add_right _ _) htimer.early)
  have hearly := htimer.early
  have hlate := htimer.late
  have hgated := h.gated
  have hlag := h.late
  obtain ⟨hread, hlater⟩ := p.ahead_elapsed k l (d + n)
  have hpunctual := punctual_of_wait p n (d + n) s lateNs (by omega) (by omega) hslept
    (by omega) (by omega) (by omega) ⟨hread, by omega⟩
  rw [← h.waitNs, ← hs, add_sub_cancel] at hpunctual
  have hprep : pass.waitNs.toNat - pass.startNs.toNat = n := by
    rw [h.waitNs, h.startNs, ← Nat.add_assoc, Nat.add_sub_cancel_left]
  refine ⟨hpunctual.1, ?_⟩
  rw [hprep]
  exact hpunctual.2

theorem drives_left (h : p.Drives (heard clkHz source association (fx ++ fx'))) :
    p.Drives (heard clkHz source association fx) := by
  have hinputs : inputs (fed (fx ++ fx')) = inputs (fed fx) ++ inputs (fed fx') := by
    rw [fed_append]
    exact List.filterMap_append
  obtain ⟨more, hmore⟩ := IngestInput.calls_left clkHz (inputs (fed fx)) (inputs (fed fx'))
  rw [heard, hinputs, hmore] at h
  exact h.left

/-- On a crystal that is off by a constant, by a pulse on every second that is timed exactly and
sentences that name the seconds, every frame says when it is handed over: in every run, however the
readers and the task take turns, a frame is handed over no earlier than 2.6 µs before its second,
and later only by what the edges, the timer and the building of the frame are late, and 38 µs. -/
theorem broadcasts_on_time (p : Pulse) (hunix : 0 ≤ p.unixNs)
    (h : (start fast clkHz source association).run port events = some (fx, w))
    (hsplit : fx = pre ++ .acted handoverNs actions :: post) (hsend : .send words ∈ actions)
    (hedges : (heard clkHz source association pre).edgeCount < 4294967296)
    (hdrives : p.Drives (heard clkHz source association pre)) (hdated : DatedLooks pre)
    (htimer : ∀ pass, pre = NtpPass.effects pass → Timely lateNs pass handoverNs actions)
    (hrange : p.unixNs + 2 * (handoverNs.toNat : Int) ≤ 9223372036854775807) :
    ∃ pass e, pre = NtpPass.effects pass ∧
      Sent port clkHz source association pass handoverNs actions e ∧
      Punctual p lateNs pass handoverNs e.targetUnixNs := by
  obtain ⟨-, pass, e, rfl, he⟩ := sound_of_run h hsplit hedges words hsend
  exact ⟨pass, e, rfl, he, he.punctual (drives_left hdrives) hunix hdated (htimer pass rfl)
    hrange⟩

theorem zdaRead_fits : (zdaSentence ++ [carriageReturn, lineFeed]).length ≤ nmeaReadLen := by decide

/-- Nine edges of a crystal that is 16 ppb fast, each read 300 ns late, the sentence of the last
one, and an iteration 10 ms before the next second. -/
def ninthSecondOnTime : List NtpServerEvent :=
  (List.range 9).map (fun i =>
    .reader (.edge (counterAt 1000 (i * 62500001)) (i * 1000000016 + 300))) ++
    .reader (.read ⟨zdaSentence ++ [carriageReturn, lineFeed], zdaRead_fits⟩) ::
    (zdaSentence ++ [carriageReturn, lineFeed]).map (fun b => .reader (.push b)) ++
    [.iterate 8990000000 8990001000 8990002000 [] 9000000200]

def sixteenPpb : Pulse where
  e := 16
  near := by decide
  queryNs := 0
  lagNs := 300
  unixNs := 1787020959000000000

/-- The readings of that run's effects. -/
def ninthReadings : NtpServerEffect → Bool
  | .fed (.edge _ q) => decide (q ≤ 8990000000)
  | .fed _ => true
  | .looked q q' q'' now => decide (q = 8990000000 ∧ q' = 8990001000 ∧ q'' = 8990002000 ∧
      now = some 1787020967989999557)
  | .acted handoverNs actions => decide (handoverNs = 9000000200 ∧ sleptNs actions = 9998000)

theorem ninthSecondOnTime_run :
    ((start true 125000000 .zda .sameSecond).run 123 ninthSecondOnTime).map (fun r =>
      ((r.1.flatMap sendsOf).map List.length, r.1.length, r.1.all ninthReadings,
        decide (sixteenPpb.Drives (heard 125000000 .zda .sameSecond r.1)))) =
      some ([103], 47, true, true) := by
  decide +kernel

theorem ninthReadings_dated
    (h : ∀ o ∈ pre ++ .acted handoverNs actions :: post, ninthReadings o = true) :
    DatedLooks pre ∧ handoverNs = 9000000200 ∧ sleptNs actions = 9998000 := by
  refine ⟨?_, of_decide_eq_true (h _ (List.mem_append_right pre List.mem_cons_self))⟩
  intro q q' q'' now hmem
  obtain ⟨-, -, -, hnow⟩ := of_decide_eq_true (h _ (List.mem_append_left _ hmem))
  cases hnow
  decide

theorem ninthReadings_timely {pass : NtpPass}
    (h : ∀ o ∈ pass.effects ++ .acted handoverNs actions :: post, ninthReadings o = true) :
    Timely 200 pass handoverNs actions := by
  have hlooked := h (.looked pass.startNs pass.buildNs pass.waitNs pass.now)
    (List.mem_append_left _ (List.mem_append_right _ List.mem_cons_self))
  obtain ⟨hstart, hbuild, hwait, -⟩ := of_decide_eq_true hlooked
  obtain ⟨-, hhandover, hslept⟩ := ninthReadings_dated h
  constructor
  · intro raw q hmem
    have hq := of_decide_eq_true (h _ (List.mem_append_left _ (List.mem_append_left _ hmem)))
    rw [hstart]
    exact hq
  all_goals
    simp only [hstart, hbuild, hwait, hhandover, hslept]
    decide

theorem broadcasts_on_time_ninth_second : ∃ pass handoverNs actions e,
    Sent 123 125000000 .zda .sameSecond pass handoverNs actions e ∧
      Punctual sixteenPpb 200 pass handoverNs e.targetUnixNs := by
  obtain ⟨⟨fx, w⟩, hrun, hchecks⟩ := Option.map_eq_some_iff.1 ninthSecondOnTime_run
  simp only [Prod.mk.injEq, decide_eq_true_eq, List.all_eq_true] at hchecks
  obtain ⟨hlengths, hlength, hreadings, hdrives⟩ := hchecks
  obtain ⟨pre, handoverNs, actions, post, words, rfl, hsend, hpre⟩ := acted_of_sends hlengths
  have hedges := edgeCount_heard_le 125000000 .zda .sameSecond pre
  obtain ⟨hdated, rfl, -⟩ := ninthReadings_dated hreadings
  obtain ⟨pass, e, -, he, hpunctual⟩ := broadcasts_on_time sixteenPpb (by decide) hrun rfl hsend
    (by omega) (drives_left hdrives) hdated
    (fun pass hpass => ninthReadings_timely (by rwa [← hpass])) (by decide)
  exact ⟨pass, _, actions, e, he, hpunctual⟩

end NtpServer

end PicoGnss
