import PicoGnss.Lib.Reactor
import PicoGnss.PicoNtp.Broadcast
import PicoGnss.RpPps.Ingest

/-! The firmware of the server: two readers feed the clock, and the task that broadcasts reads it
between their steps. -/

namespace PicoGnss
open FixedWidth
set_option autoImplicit true

structure NtpServer where
  trusted : Bool
  ingest : Ingest
  task : NtpTask

/-- A step of a reader, or an iteration of the task that broadcasts, by the times of its four
readings; the readers go on before the last one, while the task sleeps. -/
inductive NtpServerEvent where
  | reader (e : IngestEvent)
  | iterate (startNs buildNs waitNs : UInt64) (asleep : List IngestEvent) (handoverNs : UInt64)

inductive NtpServerEffect where
  | fed (e : IngestEvent)
  /-- An iteration has read the clock up to its wait, and `now` first. -/
  | looked (startNs buildNs waitNs : UInt64) (now : Option Int)
  | acted (handoverNs : UInt64) (actions : List TxAction)

namespace NtpServer

/-- The tasks as they are spawned, once the link is up. -/
def start (trusted : Bool) (clkHz : Nat) (source : NmeaTimeSource)
    (association : PpsNmeaAssociation) : NtpServer where
  trusted
  ingest := .start clkHz source association
  task := .start

/-- What an iteration reads, the clock of `before` until it sleeps and the clock of `after` then. -/
def reads (w : NtpServer) (startNs buildNs waitNs handoverNs : UInt64) (after : Ingest) :
    NtpReads where
  trusted := w.trusted
  start := w.ingest.clock.clockState startNs
  build := w.ingest.clock.clockState buildNs
  wait := w.ingest.clock.clockState waitNs
  handover := after.clock.clockState handoverNs

def step (port : UInt16) (w : NtpServer) :
    NtpServerEvent → Option (List NtpServerEffect × NtpServer)
  | .reader e => (w.ingest.step e).map fun ingest => ([.fed e], { w with ingest })
  | .iterate startNs buildNs waitNs asleep handoverNs => do
    let ingest ← w.ingest.run asleep
    let x := w.reads startNs buildNs waitNs handoverNs ingest
    let actions ← (w.task.iterate port x).1
    return (.looked startNs buildNs waitNs x.start.1 :: asleep.map .fed ++
      [.acted handoverNs actions], { w with ingest, task := (w.task.iterate port x).2 })

def run (port : UInt16) (w : NtpServer) (events : List NtpServerEvent) :
    Option (List NtpServerEffect × NtpServer) := Reactor.run (step port) w events

/-- What the readers have done. -/
def fed (fx : List NtpServerEffect) : List IngestEvent := fx.filterMap fun
  | .fed e => some e
  | .looked .. | .acted .. => none

/-- The calls that the readers have made on the clock. -/
def heard (clkHz : Nat) (source : NmeaTimeSource) (association : PpsNmeaAssociation)
    (fx : List NtpServerEffect) : GpsdoRun where
  source
  association
  calls := IngestInput.calls clkHz (inputs (fed fx))

end NtpServer

namespace GpsdoRun

def final (run : GpsdoRun) : PpsGpsdo := run.stateAt run.calls.length

/-- Eight samples are in the estimate, and the edge of the last report is no older than the
holdover may be. -/
def Disciplined (run : GpsdoRun) (q : UInt64) : Prop :=
  8 ≤ run.appliedBefore run.calls.length ∧ ∃ k r j e edgeQueryNs,
    run.LastReport run.calls.length k r ∧ run.MostRecentEdge k j e edgeQueryNs ∧
      q.toNat - ntpServerConfig.maxHoldoverNs.toNat ≤ edgeQueryNs

theorem disciplined_of_gate (run : GpsdoRun) (hedges : run.edgeCount < 4294967296) (q : UInt64)
    (hgate : silentReason ntpServerConfig (run.final.clockState q).2 = none) :
    run.Disciplined q := by
  obtain ⟨lastUpdate, hok⟩ := silentReason_eq_none_iff.1 hgate
  obtain ⟨hupdate, hlocked, hholdover⟩ := (gate_referenceClock_iff rfl).1 hok
  refine ⟨(run.frequencyLocked_iff hedges run.calls.length).1 hlocked, ?_⟩
  obtain hnone | ⟨k, r, hlast⟩ := run.lastReport_cases run.calls.length
  · have hunset : run.final.nowFromQueryNs q.toNat = none := by
      rw [PpsGpsdo.nowFromQueryNs, Gnssdo.nowFromQueryNs, DisciplinedClock.nowFromQueryNs, final,
        epoch_of_unreported (Nat.le_refl _) hnone]
      rfl
    simp only [PpsGpsdo.clockState, hunset] at hupdate
    cases hupdate
  · obtain ⟨s, t, j, e, edgeQueryNs, -, -, hj, -⟩ := hlast.reports.edge
    refine ⟨k, r, j, e, edgeQueryNs, hlast, hj, ?_⟩
    have hle := UInt64.le_iff_toNat_le.1 hholdover
    rw [final, hlast.holdoverNs (Nat.le_refl _) hj] at hle
    omega

end GpsdoRun

namespace NtpServer

variable {port : UInt16} {clkHz : Nat} {source : NmeaTimeSource}
  {association : PpsNmeaAssociation} {w w' : NtpServer} {fx fx' pre post : List NtpServerEffect}

theorem fed_append : fed (fx ++ fx') = fed fx ++ fed fx' := List.filterMap_append ..

theorem fed_map (events : List IngestEvent) : fed (events.map .fed) = events := by
  rw [fed, List.filterMap_map]
  exact List.filterMap_some

/-- What one step can be. -/
inductive Step (port : UInt16) (w : NtpServer) : List NtpServerEffect → NtpServer → Prop where
  | reader {ingest' : Ingest} (e : IngestEvent) (hs : w.ingest.step e = some ingest') :
      Step port w [.fed e] { w with ingest := ingest' }
  | iterate {ingest' : Ingest} {actions : List TxAction} {task' : NtpTask}
      (startNs buildNs waitNs : UInt64) (asleep : List IngestEvent) (handoverNs : UInt64)
      (hrun : w.ingest.run asleep = some ingest')
      (hacts : w.task.iterate port (w.reads startNs buildNs waitNs handoverNs ingest') =
        (some actions, task')) :
      Step port w (.looked startNs buildNs waitNs (w.ingest.clock.clockState startNs).1 ::
        asleep.map .fed ++ [.acted handoverNs actions])
        { w with ingest := ingest', task := task' }

theorem step_cases (h : w.step port e = some (fx, w')) : Step port w fx w' := by
  cases e with
  | reader e =>
    obtain ⟨ingest, hs, heq⟩ := Option.map_eq_some_iff.1 h
    cases heq
    exact .reader e hs
  | iterate startNs buildNs waitNs asleep handoverNs =>
    simp only [step, Option.bind_eq_bind, Option.bind_eq_some_iff, Option.pure_def,
      Option.some.injEq, Prod.mk.injEq] at h
    obtain ⟨ingest, hrun, actions, hacts, rfl, rfl⟩ := h
    exact .iterate startNs buildNs waitNs asleep handoverNs hrun (Prod.ext hacts rfl)

theorem fed_iterate (startNs buildNs waitNs : UInt64) (now : Option Int)
    (asleep : List IngestEvent) :
    fed (fx ++ .looked startNs buildNs waitNs now :: asleep.map .fed) = fed fx ++ asleep := by
  rw [fed_append]
  exact congrArg (fed fx ++ ·) (fed_map asleep)

/-- The clock reads times between 1970 and the last second but one that the counter holds. -/
def DatedLooks (fx : List NtpServerEffect) : Prop :=
  ∀ q q' q'' now, .looked q q' q'' (some now) ∈ fx → 0 ≤ now ∧ now < 9223372035000000000

/-- The readers have done what the effects say, and the task keeps its buffers and its schedule. -/
structure Keeps (fast : Bool) (clkHz : Nat) (source : NmeaTimeSource)
    (association : PpsNmeaAssociation) (fx : List NtpServerEffect) (w : NtpServer) : Prop where
  trusted : w.trusted = fast
  ingest : (Ingest.start clkHz source association).run (fed fx) = some w.ingest
  buffers : w.task.Buffers
  aimable : DatedLooks fx → NtpTask.Aimable w.task.lastTargetNs

variable {fast : Bool} {i : Ingest}

theorem final_heard (h : (Ingest.start clkHz source association).run (fed fx) = some i) :
    (heard clkHz source association fx).final = i.clock := by
  rw [(Ingest.run_spec h).2.clock, GpsdoRun.final, GpsdoRun.stateAt, List.take_length]
  rfl

theorem DatedLooks.left (h : DatedLooks (fx ++ fx')) : DatedLooks fx :=
  fun q q' q'' now hmem => h q q' q'' now (List.mem_append_left fx' hmem)

theorem DatedLooks.reads
    (h : DatedLooks (fx ++ .looked q q' q'' (w.ingest.clock.clockState q).1 :: fx'))
    (handoverNs : UInt64) (after : Ingest) : NtpTask.Dated (w.reads q q' q'' handoverNs after) := by
  intro now hnow
  refine h q q' q'' now (List.mem_append_right fx ?_)
  rw [← show _ = some now from hnow]
  exact List.mem_cons_self

theorem Keeps.step (h : Keeps fast clkHz source association fx w) (hs : Step port w fx' w') :
    Keeps fast clkHz source association (fx ++ fx') w' := by
  cases hs with
  | reader e hs =>
    refine ⟨h.trusted, ?_, h.buffers, fun hdated => h.aimable hdated.left⟩
    rw [fed_append, Ingest.run_append, h.ingest]
    exact (Ingest.run_concat w.ingest [] e).trans hs
  | @iterate after actions task' startNs buildNs waitNs asleep handoverNs hrun hacts =>
    obtain ⟨actions', task, hiter, hbuffers, hlast, -⟩ := NtpTask.iterate_cases port h.buffers
      (w.reads startNs buildNs waitNs handoverNs after)
    cases hacts.symm.trans hiter
    refine ⟨h.trusted, ?_, hbuffers, fun hdated => ?_⟩
    · rw [← List.append_assoc, fed_append, fed_iterate, Ingest.run_append, Ingest.run_append,
        h.ingest, Option.bind_some, hrun]
      rfl
    · rw [hlast]
      exact (NtpTask.ntpIteration_dated (h.aimable hdated.left)
        (DatedLooks.reads hdated handoverNs after)).2

/-- An iteration up to its handover: what was done before it, its first three readings, and what
the readers did while it slept. -/
structure NtpPass where
  before : List NtpServerEffect
  startNs : UInt64
  buildNs : UInt64
  waitNs : UInt64
  now : Option Int
  asleep : List IngestEvent

def NtpPass.effects (p : NtpPass) : List NtpServerEffect :=
  p.before ++ .looked p.startNs p.buildNs p.waitNs p.now :: p.asleep.map .fed

/-- What an iteration hands over at `handoverNs`. -/
structure Sent (port : UInt16) (clkHz : Nat) (source : NmeaTimeSource)
    (association : PpsNmeaAssociation) (p : NtpPass) (handoverNs : UInt64)
    (actions : List TxAction) (e : NtpSend) : Prop where
  accepted : Accepted (ntpFrameSpec port e.ipId e.packet.encode) e.frame
  now : ((heard clkHz source association p.before).final.clockState p.startNs).1 = p.now
  built : ∃ q, (q = p.startNs ∨ q = p.buildNs) ∧ broadcast ntpServerConfig
    ((heard clkHz source association p.before).final.clockState q).2
    (wrap64 (e.targetUnixNs + txLagNs)) = .serve e.packet
  waited : actions = NtpTask.sleepUntil e.targetUnixNs
    ((heard clkHz source association p.before).final.clockState p.waitNs).1 ++
      [.send (frameWords e.frame)]
  disciplined : (heard clkHz source association p.effects).Disciplined handoverNs
  aimed : DatedLooks p.effects → e.targetUnixNs % 1000000000 = 0 ∧ ∃ now, p.now = some now ∧
    now < e.targetUnixNs ∧ e.targetUnixNs ≤ now + 16000000

/-- What an effect may be, of the effects before it. -/
def Sound (port : UInt16) (fast : Bool) (clkHz : Nat) (source : NmeaTimeSource)
    (association : PpsNmeaAssociation) (pre : List NtpServerEffect) : NtpServerEffect → Prop
  | .acted handoverNs actions =>
      (heard clkHz source association pre).edgeCount < 4294967296 →
        ∀ words, .send words ∈ actions → fast = true ∧ ∃ p e, pre = p.effects ∧
          Sent port clkHz source association p handoverNs actions e
  | .fed _ | .looked .. => True

theorem stateToServe_cases (x : NtpReads) :
    NtpTask.stateToServe x = x.start.2 ∨ NtpTask.stateToServe x = x.build.2 := by
  unfold NtpTask.stateToServe
  split
  · exact .inr rfl
  · exact .inl rfl

theorem mem_or_last {α : Type} {xs pre post : List α} {x o : α}
    (h : xs ++ [x] = pre ++ o :: post) : o ∈ xs ∨ pre = xs ∧ o = x := by
  rcases List.eq_nil_or_concat post with rfl | ⟨post, y, rfl⟩
  · obtain ⟨rfl, hlast⟩ := List.append_inj' h rfl
    exact .inr ⟨rfl, (List.cons.inj hlast).1.symm⟩
  · rw [List.concat_eq_append, ← List.cons_append, ← List.append_assoc] at h
    rw [(List.append_inj' h rfl).1]
    exact .inl (List.mem_append_right pre List.mem_cons_self)

theorem Keeps.sound (h : Keeps fast clkHz source association fx w) (hs : Step port w fx' w')
    (hsplit : fx' = pre ++ o :: post) :
    Sound port fast clkHz source association (fx ++ pre) o := by
  cases hs with
  | reader e hs =>
    obtain ⟨rfl, ho⟩ | ⟨-, hnil⟩ := List.singleton_eq_append_iff.1 hsplit
    · obtain ⟨rfl, -⟩ := List.cons.inj ho
      trivial
    · cases hnil
  | @iterate after actions task' startNs buildNs waitNs asleep handoverNs hrun hacts =>
    obtain hmem | ⟨rfl, rfl⟩ := mem_or_last hsplit
    · rcases List.mem_cons.1 hmem with rfl | hmem
      · trivial
      · obtain ⟨e, -, rfl⟩ := List.mem_map.1 hmem
        trivial
    intro hedges words hsend
    obtain ⟨actions', task'', hiter, -, -, hsent⟩ := NtpTask.iterate_cases port h.buffers
      (w.reads startNs buildNs waitNs handoverNs after)
    obtain ⟨hsame, -⟩ := Prod.mk.inj (hacts.symm.trans hiter)
    obtain rfl := Option.some.inj hsame
    obtain hnone | ⟨e, he, hone, -⟩ := hsent
    · have hwords : words ∈ actions.filterMap NtpTask.sentWords :=
        List.mem_filterMap.2 ⟨_, hsend, rfl⟩
      rw [hnone] at hwords
      cases hwords
    have hbefore := final_heard h.ingest
    have hserved := he.served
    have hasleep : (Ingest.start clkHz source association).run (fed (fx ++ .looked startNs buildNs
        waitNs (w.ingest.clock.clockState startNs).1 :: asleep.map .fed)) = some after := by
      rw [fed_iterate, Ingest.run_append, h.ingest]
      exact hrun
    refine ⟨h.trusted.symm.trans he.trusted,
      ⟨fx, startNs, buildNs, waitNs, (w.ingest.clock.clockState startNs).1, asleep⟩, e, rfl,
      he.accepted, by rw [hbefore], ?_, ?_, ?_, ?_⟩
    · obtain hx | hx := stateToServe_cases (w.reads startNs buildNs waitNs handoverNs after)
      · rw [hx] at hserved
        exact ⟨startNs, .inl rfl, by rw [hbefore]; exact hserved⟩
      · rw [hx] at hserved
        exact ⟨buildNs, .inr rfl, by rw [hbefore]; exact hserved⟩
    · rw [hbefore]
      exact hone
    · refine GpsdoRun.disciplined_of_gate _ hedges handoverNs ?_
      rw [final_heard hasleep]
      exact he.gate
    · intro hdated
      obtain ⟨hsound, -⟩ := NtpTask.sound_of_from (h.aimable hdated.left)
        (DatedLooks.reads hdated handoverNs after) he
      exact ⟨hsound.whole, hsound.ahead⟩

theorem keeps_start (fast : Bool) (clkHz : Nat) (source : NmeaTimeSource)
    (association : PpsNmeaAssociation) :
    Keeps fast clkHz source association [] (start fast clkHz source association) :=
  ⟨rfl, rfl, NtpTask.start_buffers, fun _ => .inl rfl⟩

theorem sound_of_run (h : (start fast clkHz source association).run port events = some (fx, w))
    (hsplit : fx = pre ++ o :: post) : Sound port fast clkHz source association pre o := by
  refine (Reactor.run_effects (P := Keeps fast clkHz source association)
    (Q := Sound port fast clkHz source association) ?_ (keeps_start fast clkHz source association)
    h).2 pre o post hsplit
  intro fx w e fx' w' hp he
  have hs := step_cases he
  exact ⟨hp.step hs, fun pre o post hsplit => hp.sound hs hsplit⟩

/-- In every run, however the readers and the task that broadcasts take turns, what is handed over
is a frame that a receiver accepts, built on the clock as the edges and sentences read so far have
it, for a second that is at most 16 ms away, and at the handover the clock has eight samples and a
report whose edge is within the holdover. -/
theorem broadcasts_disciplined
    (h : (start fast clkHz source association).run port events = some (fx, w))
    (hsplit : fx = pre ++ .acted handoverNs actions :: post) (hsend : .send words ∈ actions)
    (hedges : (heard clkHz source association pre).edgeCount < 4294967296) :
    fast = true ∧ ∃ p e, pre = p.effects ∧
      Sent port clkHz source association p handoverNs actions e :=
  sound_of_run h hsplit hedges words hsend

theorem length_calls_le (clkHz : Nat) (xs : List IngestInput) :
    (IngestInput.calls clkHz xs).length ≤ xs.length := by
  induction xs using List.reverseRecOn with
  | nil => exact Nat.le_refl 0
  | append_singleton xs x ih =>
    have hone : (IngestInput.call clkHz xs x).length ≤ 1 := by
      cases x with
      | byte b => cases h : spoken (IngestInput.bytes xs) b <;> simp [IngestInput.call, h]
      | edge raw q => exact Nat.le_refl 1
    rw [IngestInput.calls_concat, List.length_append, List.length_append, List.length_singleton]
    omega

/-- Each call takes a step. -/
theorem edgeCount_heard_le (clkHz : Nat) (source : NmeaTimeSource)
    (association : PpsNmeaAssociation) (fx : List NtpServerEffect) :
    (heard clkHz source association fx).edgeCount ≤ fx.length := by
  have hcalls := length_calls_le clkHz (inputs (fed fx))
  have hinputs : (inputs (fed fx)).length ≤ (fed fx).length := List.length_filterMap_le ..
  have hfed : (fed fx).length ≤ fx.length := List.length_filterMap_le ..
  have hedges : (heard clkHz source association fx).edgeCount ≤
      (IngestInput.calls clkHz (inputs (fed fx))).length := List.countP_le_length
  omega

/-- Nine edges, the sentence of the last one, and an iteration 10 ms before the next second that
sleeps while the line feed comes. -/
def ninthSecond : List NtpServerEvent :=
  (List.range 9).map (fun i => .reader (.edge (counterAt 1000 (i * 62500000)) (i * 1000000000))) ++
    .reader (.read ⟨zdaSentence ++ [carriageReturn, lineFeed], Nat.le_of_ble_eq_true rfl⟩) ::
    (zdaSentence ++ [carriageReturn]).map (fun b => .reader (.push b)) ++
    [.iterate 8990000000 8990001000 8990002000 [.push lineFeed] 8999999900]

def sendsOf : NtpServerEffect → List (List (BitVec 32))
  | .acted _ actions => actions.filterMap NtpTask.sentWords
  | .fed _ | .looked .. => []

theorem ninthSecond_sends : ((start true 125000000 .zda .sameSecond).run 123 ninthSecond).map
    (fun r => ((r.1.flatMap sendsOf).map List.length, r.1.length)) = some ([103], 47) := by
  decide +kernel

/-- The step that a buffer handed over comes from. -/
theorem acted_of_sends {n : Nat} (h : (fx.flatMap sendsOf).map List.length = [n]) :
    ∃ pre handoverNs actions post words, fx = pre ++ .acted handoverNs actions :: post ∧
      .send words ∈ actions ∧ pre.length ≤ fx.length := by
  obtain ⟨words, hwords, -⟩ : ∃ words ∈ fx.flatMap sendsOf, words.length = n := by
    rw [← List.mem_map, h]
    exact List.mem_singleton_self n
  obtain ⟨o, ho, hsend⟩ := List.mem_flatMap.1 hwords
  obtain ⟨pre, post, rfl⟩ := List.append_of_mem ho
  have hlength : pre.length ≤ (pre ++ o :: post).length := by
    rw [List.length_append]
    exact Nat.le_add_right _ _
  cases o with
  | fed | looked => cases hsend
  | acted handoverNs actions =>
    obtain ⟨action, haction, heq⟩ := List.mem_filterMap.1 hsend
    obtain rfl : action = .send words := by
      cases action <;> cases heq
      rfl
    exact ⟨pre, handoverNs, actions, post, words, rfl, haction, hlength⟩

theorem broadcasts_disciplined_ninth_second : ∃ p handoverNs actions e,
    Sent 123 125000000 .zda .sameSecond p handoverNs actions e := by
  obtain ⟨⟨fx, w⟩, hrun, hsends⟩ := Option.map_eq_some_iff.1 ninthSecond_sends
  obtain ⟨hlengths, hlength⟩ := Prod.mk.inj hsends
  obtain ⟨pre, handoverNs, actions, post, words, hsplit, hsend, hpre⟩ := acted_of_sends hlengths
  have hedges := edgeCount_heard_le 125000000 .zda .sameSecond pre
  obtain ⟨-, p, e, -, he⟩ := broadcasts_disciplined hrun hsplit hsend (by omega)
  exact ⟨p, handoverNs, actions, e, he⟩

end NtpServer

end PicoGnss
