import Mathlib.Data.List.DropRight
import PicoGnss.RpPps.Assembler
import PicoGnss.RpPps.EdgeTimeline
import PicoGnss.RpPps.Pairing

/-! The two tasks that feed a shared clock: one reads edges, the other the receiver's bytes. -/

namespace PicoGnss
set_option autoImplicit true

/-- The bytes as a `&str`, if they are one. -/
def fromUtf8 (bytes : List UInt8) : Option (List UInt8) :=
  if (ByteArray.mk bytes.toArray).validateUTF8 then some bytes else none

def nmeaReadLen : Nat := 64

/-- What the tasks keep: the bytes of the last read still to be pushed, the assembler of
`run_nmea`, the capture of `run_capture`, and the clock that both lock. -/
structure Ingest where
  buf : List UInt8
  assembler : NmeaLineAssembler
  timeline : PpsEdgeTimeline
  clock : PpsGpsdo

/-- A read that fails, a read that fills the buffer, a byte of it pushed, an edge taken. -/
inductive IngestEvent where
  | failed
  | read (bytes : BoundedVec UInt8 nmeaReadLen)
  | push (byte : UInt8)
  | edge (raw : UInt32) (queryNs : Nat)

namespace Ingest

def start (clkHz : Nat) (source : NmeaTimeSource) (association : PpsNmeaAssociation) : Ingest where
  buf := []
  assembler := .new
  timeline := .new clkHz
  clock := .withConfig source association

/-- The body of the loop over `buf[..n]`. -/
def pushByte (w : Ingest) (byte : UInt8) : Option SyncReport × Ingest :=
  let pushed := w.assembler.push byte
  match pushed.1.bind fromUtf8 with
  | some s => ((w.clock.feedNmea s).1,
      { w with assembler := pushed.2, clock := (w.clock.feedNmea s).2 })
  | none => (none, { w with assembler := pushed.2 })

def takeEdge (w : Ingest) (raw : UInt32) (queryNs : Nat) : Ingest :=
  let edge := w.timeline.observe raw
  { w with timeline := edge.2, clock := (w.clock.onPpsEdge edge.1 queryNs).2 }

/-- One step of either task, where it stands at that step. -/
def step (w : Ingest) : IngestEvent → Option Ingest
  | .failed => if w.buf = [] then some w else none
  | .read bytes => if w.buf = [] then some { w with buf := bytes.toList } else none
  | .push byte =>
    match w.buf with
    | [] => none
    | b :: rest => if b = byte then some (({ w with buf := rest }).pushByte byte).2 else none
  | .edge raw queryNs => some (w.takeEdge raw queryNs)

def run (w : Ingest) (events : List IngestEvent) : Option Ingest := events.foldlM step w

theorem run_append (w : Ingest) (events events' : List IngestEvent) :
    w.run (events ++ events') = (w.run events).bind fun w => w.run events' :=
  List.foldlM_append

theorem run_concat (w : Ingest) (events : List IngestEvent) (e : IngestEvent) :
    w.run (events ++ [e]) = (w.run events).bind fun w => w.step e := by
  rw [run_append]
  cases w.run events with
  | none => rfl
  | some w =>
    simp only [run, Option.bind_eq_bind, Option.bind_some, List.foldlM_cons, List.foldlM_nil,
      Option.pure_def, Option.bind_fun_some]

end Ingest

/-- The bytes after the last `$`, where none but plain bytes follow it. -/
def openSentence (history : List UInt8) : Option (List UInt8) :=
  if (history.rdropWhile fun b => decide (Plain b)).getLast? = some dollar then
    some (history.rtakeWhile fun b => decide (Plain b))
  else none

/-- The sentence that a byte completes after the bytes before it. -/
def spoken (history : List UInt8) (byte : UInt8) : Option (List UInt8) :=
  if byte = carriageReturn ∨ byte = lineFeed then
    match openSentence history with
    | some body =>
      if 1 ≤ body.length ∧ body.length ≤ 81 then fromUtf8 (dollar :: body) else none
    | none => none
  else none

/-- What reaches the clock's two callers: a byte, or an edge. -/
inductive IngestInput where
  | byte (byte : UInt8)
  | edge (raw : UInt32) (queryNs : Nat)

namespace IngestInput

def bytes (inputs : List IngestInput) : List UInt8 :=
  inputs.flatMap fun
    | byte b => [b]
    | edge .. => []

def raws (inputs : List IngestInput) : List UInt32 :=
  inputs.flatMap fun
    | byte _ => []
    | edge raw _ => [raw]

/-- The edge as the capture times it after the inputs before it. -/
def timed (clkHz : Nat) (before : List IngestInput) (raw : UInt32) : TimedEdge :=
  ((Mealy.final PpsEdgeTimeline.observe (.new clkHz) (raws before)).observe raw).1

/-- The call on the clock that an input makes after the inputs before it. -/
def call (clkHz : Nat) (before : List IngestInput) : IngestInput → List GpsdoCall
  | byte b => ((spoken (bytes before) b).map GpsdoCall.nmea).toList
  | edge raw queryNs => [.edge (timed clkHz before raw) queryNs]

def callsFrom (clkHz : Nat) (before : List IngestInput) : List IngestInput → List GpsdoCall
  | [] => []
  | x :: rest => x.call clkHz before ++ callsFrom clkHz (before ++ [x]) rest

def calls (clkHz : Nat) (inputs : List IngestInput) : List GpsdoCall := callsFrom clkHz [] inputs

theorem bytes_append (xs ys : List IngestInput) : bytes (xs ++ ys) = bytes xs ++ bytes ys :=
  List.flatMap_append

theorem raws_append (xs ys : List IngestInput) : raws (xs ++ ys) = raws xs ++ raws ys :=
  List.flatMap_append

theorem bytes_byte (b : UInt8) : bytes [byte b] = [b] := rfl

theorem bytes_edge (raw : UInt32) (q : Nat) : bytes [edge raw q] = [] := rfl

theorem raws_byte (b : UInt8) : raws [byte b] = [] := rfl

theorem raws_edge (raw : UInt32) (q : Nat) : raws [edge raw q] = [raw] := rfl

theorem callsFrom_concat (clkHz : Nat) (before xs : List IngestInput) (x : IngestInput) :
    callsFrom clkHz before (xs ++ [x]) =
      callsFrom clkHz before xs ++ x.call clkHz (before ++ xs) := by
  induction xs generalizing before with
  | nil => simp only [List.nil_append, callsFrom, List.append_nil]
  | cons y xs ih =>
    simp only [List.cons_append, callsFrom, ih, List.append_assoc, List.nil_append]

theorem calls_concat (clkHz : Nat) (xs : List IngestInput) (x : IngestInput) :
    calls clkHz (xs ++ [x]) = calls clkHz xs ++ x.call clkHz xs :=
  callsFrom_concat clkHz [] xs x

theorem calls_left (clkHz : Nat) (xs ys : List IngestInput) :
    ∃ more, calls clkHz (xs ++ ys) = calls clkHz xs ++ more := by
  induction ys using List.reverseRecOn with
  | nil => exact ⟨[], by rw [List.append_nil, List.append_nil]⟩
  | append_singleton ys y ih =>
    obtain ⟨more, hmore⟩ := ih
    refine ⟨more ++ y.call clkHz (xs ++ ys), ?_⟩
    rw [← List.append_assoc, calls_concat, hmore, List.append_assoc]

/-- An edge that the clock was told of was read by the task. -/
theorem edge_mem_calls {xs : List IngestInput} (h : .edge x q ∈ calls clkHz xs) :
    ∃ raw, edge raw q ∈ xs := by
  induction xs using List.reverseRecOn with
  | nil => cases h
  | append_singleton xs y ih =>
    rw [calls_concat, List.mem_append] at h
    obtain h | h := h
    · obtain ⟨raw, hraw⟩ := ih h
      exact ⟨raw, List.mem_append_left [y] hraw⟩
    · cases y with
      | byte b => cases hs : spoken (bytes xs) b <;>
          simp [call, hs] at h
      | edge raw q' =>
        obtain ⟨-, rfl⟩ := GpsdoCall.edge.inj (List.mem_singleton.1 h)
        exact ⟨raw, List.mem_append_right xs List.mem_cons_self⟩

end IngestInput

open IngestInput (bytes raws timed calls)

def IngestEvent.input : IngestEvent → Option IngestInput
  | .failed => none
  | .read _ => none
  | .push b => some (.byte b)
  | .edge raw queryNs => some (.edge raw queryNs)

def IngestEvent.bytesRead : IngestEvent → List UInt8
  | .failed => []
  | .read bytes => bytes.toList
  | .push _ => []
  | .edge .. => []

def inputs (events : List IngestEvent) : List IngestInput := events.filterMap IngestEvent.input

theorem inputs_concat (events : List IngestEvent) (e : IngestEvent) :
    inputs (events ++ [e]) = inputs events ++ e.input.toList := by
  rw [inputs, List.filterMap_append]
  cases h : e.input <;>
    simp only [inputs, List.filterMap_cons, h, List.filterMap_nil, Option.toList]

theorem openSentence_eq_some_iff : openSentence history = some body ↔ Open history body := by
  unfold openSentence
  constructor
  · intro h
    split at h
    · rename_i hlast
      obtain ⟨pre, hpre⟩ := List.getLast?_eq_some_iff.1 hlast
      cases h
      refine ⟨⟨pre, ?_⟩, fun b hb => ?_⟩
      · rw [List.append_cons, ← hpre, List.rdropWhile_append_rtakeWhile]
      · have hp := List.mem_rtakeWhile_imp hb
        exact of_decide_eq_true hp
    · cases h
  · rintro ⟨⟨pre, rfl⟩, hb⟩
    have hall : ∀ b ∈ body.reverse, decide (Plain b) = true := by
      intro b hmem
      exact decide_eq_true (hb b (List.mem_reverse.1 hmem))
    have hdollar : ¬ decide (Plain dollar) = true := by decide
    rw [List.rdropWhile, List.rtakeWhile, List.reverse_append, List.reverse_cons,
      List.append_assoc, List.dropWhile_append_of_pos hall, List.takeWhile_append_of_pos hall,
      List.singleton_append, List.dropWhile_cons_of_neg (p := fun b => decide (Plain b)) hdollar,
      List.takeWhile_cons_of_neg (p := fun b => decide (Plain b)) hdollar, List.append_nil,
      List.reverse_cons, List.reverse_reverse,
      List.reverse_reverse, List.getLast?_concat, if_pos rfl]

/-- What the assembler answers is what the bytes before say. -/
theorem push_spoken (h : Tracks a history) (b : UInt8) :
    (a.push b).1.bind fromUtf8 = spoken history b := by
  unfold spoken
  by_cases ht : Terminator b
  · rw [if_pos (show b = _ ∨ b = _ from ht)]
    cases ho : openSentence history with
    | none =>
      cases hp : (a.push b).1 with
      | none => rfl
      | some line =>
        obtain ⟨body, hopen, -⟩ := (push_terminator ht h line).1 hp
        rw [openSentence_eq_some_iff.2 hopen] at ho
        cases ho
    | some body =>
      have hopen := openSentence_eq_some_iff.1 ho
      by_cases hlen : 1 ≤ body.length ∧ body.length ≤ 81
      · have hp := (push_terminator ht h (dollar :: body)).2 ⟨body, hopen, hlen.1, hlen.2, rfl⟩
        simp only [hp, Option.bind_some, if_pos hlen]
      · cases hp : (a.push b).1 with
        | none => simp only [Option.bind_none, if_neg hlen]
        | some line =>
          obtain ⟨body', hopen', hlo, hhi, -⟩ := (push_terminator ht h line).1 hp
          rw [hopen'.unique hopen] at hlo hhi
          exact absurd ⟨hlo, hhi⟩ hlen
  · rw [if_neg (show ¬ (b = _ ∨ b = _) from ht), push_silent ht, Option.bind_none]

namespace Ingest

variable {clkHz : Nat} {source : NmeaTimeSource} {association : PpsNmeaAssociation}

/-- What the tasks' state says about the inputs so far. -/
structure Follows (clkHz : Nat) (source : NmeaTimeSource) (association : PpsNmeaAssociation)
    (w : Ingest) (xs : List IngestInput) : Prop where
  assembler : Tracks w.assembler (bytes xs)
  timeline : w.timeline = Mealy.final PpsEdgeTimeline.observe (.new clkHz) (raws xs)
  clock : w.clock = Mealy.final PpsGpsdo.call (.withConfig source association) (calls clkHz xs)

theorem Follows.pushByte (h : Follows clkHz source association w xs) (b : UInt8) :
    Follows clkHz source association (w.pushByte b).2 (xs ++ [.byte b]) := by
  have hp := push_spoken h.assembler b
  have hpushed : (w.pushByte b).2.assembler = (w.assembler.push b).2 ∧
      (w.pushByte b).2.timeline = w.timeline ∧ (w.pushByte b).2.clock =
        Mealy.final PpsGpsdo.call w.clock (IngestInput.call clkHz xs (.byte b)) := by
    simp only [Ingest.pushByte, IngestInput.call, hp]
    cases spoken (bytes xs) b with
    | none => exact ⟨rfl, rfl, rfl⟩
    | some s => exact ⟨rfl, rfl, by rw [Option.map_some, Option.toList_some, Mealy.final_cons,
        PpsGpsdo.call_nmea, Mealy.final_nil]⟩
  constructor
  · rw [hpushed.1, IngestInput.bytes_append]
    exact h.assembler.push b
  · rw [hpushed.2.1, h.timeline, IngestInput.raws_append, IngestInput.raws_byte, List.append_nil]
  · rw [hpushed.2.2, h.clock, IngestInput.calls_concat, Mealy.final_append]

theorem Follows.takeEdge (h : Follows clkHz source association w xs) (raw : UInt32) (q : Nat) :
    Follows clkHz source association (w.takeEdge raw q) (xs ++ [.edge raw q]) := by
  constructor
  · rw [IngestInput.bytes_append, IngestInput.bytes_edge, List.append_nil]
    exact h.assembler
  · rw [IngestInput.raws_append, IngestInput.raws_edge, Mealy.final_concat, ← h.timeline]
    rfl
  · rw [IngestInput.calls_concat, Mealy.final_append, ← h.clock, IngestInput.call,
      Mealy.final_cons, PpsGpsdo.call_edge, Mealy.final_nil, IngestInput.timed, ← h.timeline]
    rfl

theorem pushByte_buf (w : Ingest) (b : UInt8) : (w.pushByte b).2.buf = w.buf := by
  simp only [Ingest.pushByte]
  split <;> rfl

theorem Follows.withBuf (h : Follows clkHz source association w xs) (buf : List UInt8) :
    Follows clkHz source association { w with buf := buf } xs :=
  ⟨h.assembler, h.timeline, h.clock⟩

/-- A read replaces an empty buffer, a push takes its first byte, an edge leaves it. -/
theorem step_cases (h : step w e = some w') :
    (w.buf = [] ∧ e.input = none ∧ w' = { w with buf := e.bytesRead }) ∨
      (∃ b rest, e = .push b ∧ w.buf = b :: rest ∧
        w' = (({ w with buf := rest }).pushByte b).2) ∨
      ∃ raw q, e = .edge raw q ∧ w' = w.takeEdge raw q := by
  cases e with
  | failed =>
    simp only [step, Option.ite_none_right_eq_some, Option.some.injEq] at h
    obtain ⟨hb, rfl⟩ := h
    exact .inl ⟨hb, rfl, by rw [IngestEvent.bytesRead, ← hb]⟩
  | read bytes =>
    simp only [step, Option.ite_none_right_eq_some, Option.some.injEq] at h
    exact .inl ⟨h.1, rfl, h.2.symm⟩
  | push b =>
    cases hb : w.buf with
    | nil => simp only [step, hb, reduceCtorEq] at h
    | cons b' rest =>
      simp only [step, hb, Option.ite_none_right_eq_some, Option.some.injEq] at h
      obtain ⟨rfl, rfl⟩ := h
      exact .inr (.inl ⟨b', rest, rfl, rfl, rfl⟩)
  | edge raw q => exact .inr (.inr ⟨raw, q, rfl, (Option.some.inj h).symm⟩)

/-- The bytes pushed and the bytes in the buffer are the bytes read. -/
structure Reads (w : Ingest) (events : List IngestEvent) : Prop where
  bytes : events.flatMap IngestEvent.bytesRead = bytes (inputs events) ++ w.buf

theorem Reads.step (h : Reads w events) (hs : w.step e = some w') : Reads w' (events ++ [e]) := by
  constructor
  rw [List.flatMap_append, h.bytes, inputs_concat, IngestInput.bytes_append, List.flatMap_singleton]
  obtain ⟨hb, he, rfl⟩ | ⟨b, rest, rfl, hb, rfl⟩ | ⟨raw, q, rfl, rfl⟩ := step_cases hs
  · rw [hb, he, Option.toList_none, List.append_nil]
    exact congrArg (· ++ e.bytesRead) (List.append_nil _).symm
  · simp only [hb, pushByte_buf, IngestEvent.input, IngestEvent.bytesRead, Option.toList_some,
      IngestInput.bytes_byte, List.append_assoc, List.append_nil, List.singleton_append]
  · simp only [takeEdge, IngestEvent.input, IngestEvent.bytesRead, Option.toList_some,
      IngestInput.bytes_edge, List.append_nil]

theorem Follows.step (h : Follows clkHz source association w (inputs events))
    (hs : w.step e = some w') :
    Follows clkHz source association w' (inputs (events ++ [e])) := by
  rw [inputs_concat]
  obtain ⟨-, he, rfl⟩ | ⟨b, rest, rfl, -, rfl⟩ | ⟨raw, q, rfl, rfl⟩ := step_cases hs
  · rw [he, Option.toList_none, List.append_nil]
    exact h.withBuf _
  · exact (h.withBuf rest).pushByte b
  · exact h.takeEdge raw q

theorem run_spec (h : (start clkHz source association).run events = some w) :
    Reads w events ∧ Follows clkHz source association w (inputs events) := by
  induction events using List.reverseRecOn generalizing w with
  | nil =>
    cases h
    exact ⟨⟨rfl⟩, ⟨Tracks.new, rfl, rfl⟩⟩
  | append_singleton events e ih =>
    rw [run_concat, Option.bind_eq_some_iff] at h
    obtain ⟨w₀, h₀, hs⟩ := h
    obtain ⟨hr, hf⟩ := ih h₀
    exact ⟨hr.step hs, hf.step hs⟩

/-- However the bytes are split over reads, and whatever reads fail between them, none is lost or
pushed twice, and the clock is where the edges and the sentences of the stream take it. -/
theorem run_clock (h : (start clkHz source association).run events = some w) :
    events.flatMap IngestEvent.bytesRead = bytes (inputs events) ++ w.buf ∧
      w.clock = Mealy.final PpsGpsdo.call (.withConfig source association)
        (calls clkHz (inputs events)) :=
  ⟨(run_spec h).1.bytes, (run_spec h).2.clock⟩

/-- Two edges, the second in the middle of a sentence that two reads bring, one failing between. -/
def splitReads : List IngestEvent :=
  [.edge 1000 5, .read ⟨zdaSentence.take 9, Nat.le_of_ble_eq_true rfl⟩] ++
    (zdaSentence.take 9).map .push ++
    [.failed, .edge (counterAt 1000 62500000) 7,
      .read ⟨zdaSentence.drop 9, Nat.le_of_ble_eq_true rfl⟩] ++
    (zdaSentence.drop 9).map .push

theorem run_clock_split :
    ∃ w, (start 125000000 .zda .sameSecond).run splitReads = some w ∧
      bytes (inputs splitReads) ++ w.buf = zdaSentence ∧
      w.clock = Mealy.final PpsGpsdo.call (.withConfig .zda .sameSecond)
        [.edge ⟨1000, 0, 0⟩ 5, .edge ⟨counterAt 1000 62500000, 1000000000, 1000000000⟩ 7] := by
  have hrun : ((start 125000000 .zda .sameSecond).run splitReads).isSome = true := by
    decide +kernel
  obtain ⟨w, hw⟩ := Option.isSome_iff_exists.1 hrun
  obtain ⟨hbytes, hclock⟩ := run_clock hw
  have hcalls : calls 125000000 (inputs splitReads) =
      [.edge ⟨1000, 0, 0⟩ 5, .edge ⟨counterAt 1000 62500000, 1000000000, 1000000000⟩ 7] := rfl
  rw [hcalls] at hclock
  exact ⟨w, hw, hbytes.symm.trans (by decide +kernel), hclock⟩

end Ingest

/-- An edge, or a sentence that the clock can read: what was pending is no longer. -/
def IngestInput.Settles (source : NmeaTimeSource) (before : List IngestInput) :
    IngestInput → Prop
  | byte b => ∃ s t, spoken (bytes before) b = some s ∧ source.parse s = some t
  | edge .. => True

/-- The last edge of the inputs, timed `c` and `q`, that no sentence has used since. -/
def FreshEdge (clkHz : Nat) (source : NmeaTimeSource) (xs : List IngestInput) (c q : Nat) : Prop :=
  ∃ before raw since, xs = before ++ .edge raw q :: since ∧ c = (timed clkHz before raw).edgeNs ∧
    ∀ mid x rest, since = mid ++ x :: rest → ¬ x.Settles source (before ++ .edge raw q :: mid)

theorem freshEdge_concat (clkHz : Nat) (source : NmeaTimeSource) (xs : List IngestInput)
    (x : IngestInput) (c q : Nat) :
    FreshEdge clkHz source (xs ++ [x]) c q ↔
      (∃ raw, x = .edge raw q ∧ c = (timed clkHz xs raw).edgeNs) ∨
        (¬ x.Settles source xs ∧ FreshEdge clkHz source xs c q) := by
  constructor
  · rintro ⟨before, raw, since, hxs, hc, hquiet⟩
    rcases List.eq_nil_or_concat since with rfl | ⟨since, y, rfl⟩
    · obtain ⟨rfl, hx⟩ := List.append_inj' hxs rfl
      cases hx
      exact .inl ⟨raw, rfl, hc⟩
    · rw [List.concat_eq_append] at hxs hquiet
      rw [← List.cons_append, ← List.append_assoc] at hxs
      obtain ⟨rfl, hx⟩ := List.append_inj' hxs rfl
      cases hx
      refine .inr ⟨hquiet since x [] rfl, before, raw, since, rfl, hc, fun mid y rest hs => ?_⟩
      exact hquiet mid y (rest ++ [x]) (by rw [hs, List.append_assoc, List.cons_append])
  · rintro (⟨raw, rfl, hc⟩ | ⟨hx, before, raw, since, rfl, hc, hquiet⟩)
    · exact ⟨xs, raw, [], rfl, hc, fun mid x rest hs => by cases mid <;> cases hs⟩
    · refine ⟨before, raw, since ++ [x], by rw [List.append_assoc, List.cons_append], hc, ?_⟩
      intro mid y rest hs
      rcases List.eq_nil_or_concat rest with rfl | ⟨rest, z, rfl⟩
      · obtain ⟨rfl, hy⟩ := List.append_inj' hs rfl
        cases hy
        exact hx
      · rw [List.concat_eq_append, ← List.cons_append, ← List.append_assoc] at hs
        exact hquiet mid y rest (List.append_inj' hs rfl).1

namespace Ingest

variable {clkHz : Nat} {source : NmeaTimeSource} {association : PpsNmeaAssociation}

theorem Follows.config (h : Follows clkHz source association w xs) :
    w.clock.source = source ∧ w.clock.sync.association = association := by
  have hstep : ∀ (g : PpsGpsdo) (x : GpsdoCall),
      (g.source = source ∧ g.sync.association = association) →
      ((g.call x).2.source = source ∧ (g.call x).2.sync.association = association) := by
    intro g x hg
    obtain ⟨hs, ha⟩ := g.call_config x
    exact ⟨hs.trans hg.1, ha.trans hg.2⟩
  rw [h.clock]
  exact Mealy.final_preserves hstep ⟨rfl, rfl⟩ _

theorem pushByte_cases (h : Follows clkHz source association w xs) (b : UInt8) :
    (¬ IngestInput.Settles source xs (.byte b) ∧ (w.pushByte b).1 = none ∧
      (w.pushByte b).2.clock.sync.pending = w.clock.sync.pending) ∨
    ∃ s t, spoken (bytes xs) b = some s ∧ source.parse s = some t ∧
      (w.pushByte b).2.clock.sync.pending = none ∧
      (w.pushByte b).1 = (w.clock.feedNmea s).1 := by
  have hp := push_spoken h.assembler b
  cases hs : spoken (bytes xs) b with
  | none =>
    refine .inl ⟨?_, ?_, ?_⟩
    · rintro ⟨s, t, hs', -⟩
      cases hs.symm.trans hs'
    all_goals simp only [Ingest.pushByte, hp, hs]
  | some s =>
    cases ht : source.parse s with
    | none =>
      have hfeed : w.clock.feedNmea s = (none, w.clock) := by
        simp only [PpsGpsdo.feedNmea, h.config.1, ht]
      refine .inl ⟨?_, ?_, ?_⟩
      · rintro ⟨s', t, hs', ht'⟩
        cases hs.symm.trans hs'
        cases ht.symm.trans ht'
      all_goals simp only [Ingest.pushByte, hp, hs, hfeed]
    | some t =>
      have hparse : w.clock.source.parse s = some t := by rw [h.config.1, ht]
      refine .inr ⟨s, t, rfl, ht, ?_, ?_⟩
      · simp only [Ingest.pushByte, hp, hs]
        exact (PpsGpsdo.feedNmea_parsed hparse).1
      · simp only [Ingest.pushByte, hp, hs]

/-- The pending edge is the fresh one. -/
def Pends (clkHz : Nat) (source : NmeaTimeSource) (w : Ingest) (xs : List IngestInput) : Prop :=
  ∀ c q, w.clock.sync.pending = some (c, q) ↔ FreshEdge clkHz source xs c q

theorem Pends.pushByte (hp : Pends clkHz source w xs) (h : Follows clkHz source association w xs)
    (b : UInt8) : Pends clkHz source (w.pushByte b).2 (xs ++ [.byte b]) := by
  intro c q
  rw [freshEdge_concat]
  obtain ⟨hidle, -, hsame⟩ | ⟨s, t, hs, ht, hnone, -⟩ := pushByte_cases h b
  · rw [hsame, hp c q]
    constructor
    · exact fun hf => .inr ⟨hidle, hf⟩
    · rintro (⟨raw, hx, -⟩ | ⟨-, hf⟩)
      · cases hx
      · exact hf
  · rw [hnone]
    constructor
    · intro hc
      cases hc
    · rintro (⟨raw, hx, -⟩ | ⟨hidle, -⟩)
      · cases hx
      · exact absurd ⟨s, t, hs, ht⟩ hidle

theorem Pends.takeEdge (h : Follows clkHz source association w xs) (raw : UInt32) (q : Nat) :
    Pends clkHz source (w.takeEdge raw q) (xs ++ [.edge raw q]) := by
  intro c q'
  have hpend : (w.takeEdge raw q).clock.sync.pending =
      some ((timed clkHz xs raw).edgeNs, q) := by
    rw [Ingest.takeEdge, PpsGpsdo.onPpsEdge_sync, IngestInput.timed, ← h.timeline]
    rfl
  rw [freshEdge_concat, hpend]
  constructor
  · intro hc
    cases hc
    exact .inl ⟨raw, rfl, rfl⟩
  · rintro (⟨raw', hx, rfl⟩ | ⟨hidle, -⟩)
    · cases hx
      rfl
    · exact absurd trivial hidle

theorem run_pends (h : (start clkHz source association).run events = some w) :
    Pends clkHz source w (inputs events) := by
  induction events using List.reverseRecOn generalizing w with
  | nil =>
    cases h
    intro c q
    constructor
    · intro hc
      cases hc
    · rintro ⟨before, raw, since, hxs, -⟩
      cases before <;> cases hxs
  | append_singleton events e ih =>
    rw [run_concat, Option.bind_eq_some_iff] at h
    obtain ⟨w₀, h₀, hs⟩ := h
    have hf := (run_spec h₀).2
    have hp := ih h₀
    rw [inputs_concat]
    obtain ⟨-, he, rfl⟩ | ⟨b, rest, rfl, -, rfl⟩ | ⟨raw, q, rfl, rfl⟩ := step_cases hs
    · rw [he, Option.toList_none, List.append_nil]
      exact hp
    · exact Pends.pushByte (w := { w₀ with buf := rest }) hp (hf.withBuf rest) b
    · exact Pends.takeEdge hf raw q

/-- A fresh edge is the last edge there was. -/
theorem FreshEdge.last (h : FreshEdge clkHz source xs c q)
    (htrain : TickTrain n ticks) (hfits : elapsedNs clkHz ticks n < 18446744073709551616)
    (hraws : raws xs = rawEdges first ticks n) : c = elapsedNs clkHz ticks n := by
  obtain ⟨before, raw, since, rfl, rfl, hquiet⟩ := h
  have hsince : raws since = [] := by
    apply List.flatMap_eq_nil_iff.2
    intro x hx
    obtain ⟨mid, rest, hs⟩ := List.append_of_mem hx
    cases x with
    | byte b => rfl
    | edge raw' q' => exact absurd trivial (hquiet mid _ rest hs)
  have hlast : raws before ++ [raw] = rawEdges first ticks n := by
    have hcons : raws (IngestInput.edge raw q :: since) = raw :: raws since := rfl
    rw [← hraws, IngestInput.raws_append, hcons, hsince]
  have htimed := Mealy.getLast?_outputs_concat PpsEdgeTimeline.observe (.new clkHz)
    (raws before) raw
  rw [hlast, List.getLast?_eq_getElem?, Mealy.length_outputs, rawEdges, List.length_map,
    List.length_range, Nat.add_sub_cancel, ← rawEdges, htrain.timed hfits first (Nat.le_refl n)]
    at htimed
  exact (congrArg TimedEdge.edgeNs (Option.some.inj htimed)).symm

/-- Whatever the reads are and however edges fall between them, the next byte reports exactly where
it completes a sentence that the clock can read and an edge has come that no sentence before it has
used; the report gives the sentence's second to that edge, the last one on the counter. -/
theorem run_reports_iff (h : (start clkHz source association).run events = some w)
    (htrain : TickTrain n ticks) (hfits : elapsedNs clkHz ticks n < 18446744073709551616)
    (hraws : raws (inputs events) = rawEdges first ticks n) (byte : UInt8) :
    ((∃ r, (w.pushByte byte).1 = some r) ↔
      ∃ s t c q, spoken (bytes (inputs events)) byte = some s ∧ source.parse s = some t ∧
        FreshEdge clkHz source (inputs events) c q) ∧
    ∀ r s t, (w.pushByte byte).1 = some r → spoken (bytes (inputs events)) byte = some s →
      source.parse s = some t →
      r.captureNs = elapsedNs clkHz ticks n ∧ r.unixNs = association.edgeUnixNs t := by
  obtain ⟨-, hf⟩ := run_spec h
  have hpend := run_pends h
  obtain ⟨hidle, hnone, -⟩ | ⟨s, t, hs, ht, -, hreport⟩ := pushByte_cases hf byte
  · constructor
    · constructor
      · rintro ⟨r, hr⟩
        cases hnone.symm.trans hr
      · rintro ⟨s, t, c, q, hs, ht, -⟩
        exact absurd ⟨s, t, hs, ht⟩ hidle
    · intro r s t hr
      cases hnone.symm.trans hr
  · have hparse : w.clock.source.parse s = some t := by rw [hf.config.1, ht]
    have hpins := (PpsGpsdo.feedNmea_parsed hparse).2
    rw [hreport]
    constructor
    · constructor
      · rintro ⟨r, hr⟩
        obtain ⟨t', c, q, hp⟩ := PpsGpsdo.feedNmea_some hr
        exact ⟨s, t, c, q, hs, ht, (hpend c q).1 hp.edge⟩
      · rintro ⟨s', t', c, q, hs', ht', hfresh⟩
        obtain ⟨r, hr, -⟩ := hpins c q ((hpend c q).2 hfresh)
        exact ⟨r, hr⟩
    · intro r s' t' hr hs' ht'
      cases hs.symm.trans hs'
      cases ht.symm.trans ht'
      obtain ⟨t'', c, q, hp⟩ := PpsGpsdo.feedNmea_some hr
      cases hparse.symm.trans hp.parsed
      have hc := FreshEdge.last ((hpend c q).1 hp.edge) htrain hfits hraws
      exact ⟨hp.captureNs.trans hc, by rw [hp.unixNs, hf.config.2]⟩

theorem run_reports_iff_split :
    ∃ w r, (start 125000000 .zda .sameSecond).run splitReads = some w ∧
      (w.pushByte carriageReturn).1 = some r ∧ r.captureNs = 1000000000 ∧
      r.unixNs = 1787020967000000000 := by
  have hrun : ((start 125000000 .zda .sameSecond).run splitReads).isSome = true := by
    decide +kernel
  obtain ⟨w, hw⟩ := Option.isSome_iff_exists.1 hrun
  have htrain : TickTrain 1 (fun i => 62500000 * i) := by
    constructor <;> intro i _ <;> omega
  have hspoken : spoken (bytes (inputs splitReads)) carriageReturn = some zdaSentence := by
    decide +kernel
  obtain ⟨hiff, hreport⟩ := run_reports_iff hw htrain (by decide)
    (show raws (inputs splitReads) = rawEdges 1000 _ 1 by decide +kernel) carriageReturn
  have hpend : ((start 125000000 .zda .sameSecond).run splitReads).map (·.clock.sync.pending) =
      some (some (1000000000, 7)) := by
    decide +kernel
  rw [hw, Option.map_some, Option.some.injEq] at hpend
  have hfresh := (run_pends hw 1000000000 7).1 hpend
  obtain ⟨r, hr⟩ := hiff.2 ⟨_, _, _, _, hspoken, parse_zdaSentence, hfresh⟩
  obtain ⟨hc, hu⟩ := hreport r _ _ hr hspoken parse_zdaSentence
  exact ⟨w, r, hw, hr, hc.trans (by decide), hu.trans (by decide)⟩

end Ingest

end PicoGnss
