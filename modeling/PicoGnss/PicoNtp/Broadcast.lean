import PicoGnss.PicoNtp.Schedule
import PicoGnss.PicoNtp.Service
import PicoGnss.RpPps.Sentences
import PicoGnss.TenBaseT.Transmitter
import PicoGnss.TenBaseT.FrameReceiver

/-! The task that broadcasts a packet for every second and keeps the link up in between. -/

namespace PicoGnss
set_option autoImplicit true

open FixedWidth Bytes

/-- Decimal digits up to a `u16`; anything else does not build. -/
def parsePort (s : List UInt8) : Option UInt16 :=
  if s = [] then none else (parseDigits 65535 0 s).map UInt16.ofNat

def dstPort : Option (List UInt8) → Option UInt16
  | some s => parsePort s
  | none => some 123

def handoverLagNs : Int := 118400
def wireLagNs : Int := 117800
def txLagNs : Int := handoverLagNs + wireLagNs

/-- Fixed network identity, limited broadcast, one hop. -/
def ntpFrameSpec (port ipId : UInt16) (payload : List UInt8) : UdpFrameSpec where
  srcMac := ⟨#v[0x02, 0x00, 0x00, 0xC0, 0xFF, 0xEE]⟩
  dstMac := ⟨#v[0xFF, 0xFF, 0xFF, 0xFF, 0xFF, 0xFF]⟩
  srcIp := ⟨#v[192, 168, 0, 200]⟩
  dstIp := ⟨#v[255, 255, 255, 255]⟩
  srcPort := 123
  dstPort := port
  ipId
  ttl := 1
  payload

def ntpFrameLen : Nat := frameLen packetLen
def symbolWords : Nat := encodedWords ntpFrameLen

inductive TxAction where
  | linkPulse
  | sleepUs (us : Nat)
  | send (words : List (BitVec 32))
deriving DecidableEq

/-- What one iteration reads: whether the source is trusted, and the clock at its start, before
building, before the wait and at the handover. -/
structure NtpReads where
  trusted : Bool
  start : Option Int × ClockState
  build : Option Int × ClockState
  wait : Option Int × ClockState
  handover : Option Int × ClockState

structure NtpTask where
  frame : List UInt8
  symbols : List (BitVec 32)
  ipId : UInt16
  sent : UInt32
  lastTargetNs : Int

namespace NtpTask

def start : NtpTask where
  frame := List.replicate ntpFrameLen 0
  symbols := List.replicate symbolWords 0
  ipId := 0
  sent := 0
  lastTargetNs := i64Min

def holdLink : List TxAction := [.linkPulse, .sleepUs nlpIntervalUs]

/-- Sleep what is left until the second. -/
def sleepUntil (targetUnixNs : Int) : Option Int → List TxAction
  | some beforeWait =>
    [.sleepUs (max (wrap64 (targetUnixNs - beforeWait)) 0 / 1000).toNat]
  | none => []

/-- Ask the gate again, and only then hand the symbols over. -/
def handOver (s : NtpTask) (x : NtpReads) (words : Nat) : List TxAction × NtpTask :=
  match silentReason ntpServerConfig x.handover.2 with
  | some _ => (holdLink, s)
  | none => ([.send (s.symbols.take words)], { s with sent := s.sent + 1 })

/-- Build the frame of a packet and its symbols; a buffer too small ends the iteration, and `none`
is an arithmetic overflow. -/
def serve (port : UInt16) (s : NtpTask) (targetUnixNs : Int) (x : NtpReads) (packet : NtpPacket) :
    Option (List TxAction) × NtpTask :=
  let ipId := s.ipId + 1
  let s := { s with ipId }
  match buildUdpFrame (ntpFrameSpec port ipId packet.encode) s.frame with
  | none => (none, s)
  | some (none, frame) => (some [], { s with frame })
  | some (some len, frame) =>
    match encodeFrame (frame.take len) s.symbols with
    | (none, symbols) => (some [], { s with frame, symbols })
    | (some words, symbols) =>
      let (actions, s) := handOver { s with frame, symbols } x words
      (some (sleepUntil targetUnixNs x.wait.1 ++ actions), s)

/-- Build on the fresher of two readings that has an epoch. -/
def stateToServe (x : NtpReads) : ClockState :=
  if x.build.2.lastUpdateUnixNs.isSome then x.build.2 else x.start.2

/-- One iteration of the loop. -/
def iterate (port : UInt16) (s : NtpTask) (x : NtpReads) : Option (List TxAction) × NtpTask :=
  match ntpIteration s.lastTargetNs (if x.trusted then x.start.1 else none) with
  | (none, _) => (some holdLink, s)
  | (some it, lastTargetNs) =>
    let s := { s with lastTargetNs }
    if it.aims then
      match broadcast ntpServerConfig (stateToServe x) (wrap64 (it.targetUnixNs + txLagNs)) with
      | .silent _ => (some holdLink, s)
      | .serve packet => s.serve port it.targetUnixNs x packet
    else (some holdLink, s)

def answers (port : UInt16) (reads : List NtpReads) : List (Option (List TxAction)) :=
  Mealy.outputs (iterate port) start reads

def sentWords : TxAction → Option (List (BitVec 32))
  | .send words => some words
  | _ => none

/-- The buffers handed to the transmitter, in order. -/
def sends (port : UInt16) (reads : List NtpReads) : List (List (BitVec 32)) :=
  (answers port reads).flatMap fun actions => (actions.getD []).filterMap sentWords

end NtpTask

/-- A port is its decimal digits, whatever zeros stand before them. -/
theorem parsePort_eq_some_iff : parsePort s = some port ↔ Digits s port.toNat := by
  have hlt := port.toNat_lt
  by_cases hs : s = []
  · subst hs
    exact iff_of_false nofun fun h => h.ne_nil rfl
  · rw [parsePort, if_neg hs, Option.map_eq_some_iff, parseDigits_eq]
    constructor
    · rintro ⟨n, hn, rfl⟩
      obtain ⟨hspells, hle⟩ := (Numerals.readUpTo_eq_some_iff_spells (by decide) hs).1 hn
      rw [UInt16.toNat_ofNat', Nat.mod_eq_of_lt (Nat.lt_succ_of_le hle)]
      exact hspells
    · intro h
      refine ⟨port.toNat, ?_, UInt16.ofNat_toNat⟩
      exact (Numerals.readUpTo_eq_some_iff_spells (by decide) hs).2 ⟨h, Nat.le_of_lt_succ hlt⟩

theorem buildUdpFrame_frame (spec : UdpFrameSpec) (out : List UInt8)
    (hout : frameLen spec.payload.length ≤ out.length) (hn : 28 + spec.payload.length ≤ 65535) :
    ∃ frame, Accepted spec frame ∧ frame.length = frameLen spec.payload.length ∧
      buildUdpFrame spec out = some (some (frameLen spec.payload.length),
        frame ++ out.drop (frameLen spec.payload.length)) := by
  obtain ⟨ipCk, udpCk, -, hudp, hne, hipv, hudpv, hbuild⟩ := buildUdpFrame_writes spec out hout hn
  refine ⟨_, frameBody_accepted spec hn hudp hne hipv hudpv, ?_, hbuild⟩
  rw [List.length_append, length_le, length_frameBody]

/-- What leaves in one iteration: a frame that a receiver accepts, for a second that the source is
trusted for and that the gate lets pass twice. -/
structure NtpSend where
  targetUnixNs : Int
  ipId : UInt16
  packet : NtpPacket
  frame : List UInt8

structure NtpSend.From (port : UInt16) (lastTargetNs : Int) (x : NtpReads) (e : NtpSend) :
    Prop where
  trusted : x.trusted = true
  target : ∃ now, x.start.1 = some now ∧ e.targetUnixNs = nextTargetNs lastTargetNs now ∧
    wrap64 (e.targetUnixNs - now) ≤ 16000000
  served : broadcast ntpServerConfig (NtpTask.stateToServe x)
    (wrap64 (e.targetUnixNs + txLagNs)) = .serve e.packet
  gate : silentReason ntpServerConfig x.handover.2 = none
  accepted : Accepted (ntpFrameSpec port e.ipId e.packet.encode) e.frame

namespace NtpTask

variable {port : UInt16} {s : NtpTask} {x : NtpReads}

/-- The buffers have the size of the one frame they are for. -/
structure Buffers (s : NtpTask) : Prop where
  frame : s.frame.length = ntpFrameLen
  symbols : s.symbols.length = symbolWords

/-- What comes of a packet: the frame is built, and sent if the gate still lets it pass. -/
theorem serve_cases (port : UInt16) (h : s.Buffers) (targetUnixNs : Int) (x : NtpReads)
    (packet : NtpPacket) :
    ∃ frame actions s', Accepted (ntpFrameSpec port (s.ipId + 1) packet.encode) frame ∧
      s.serve port targetUnixNs x packet =
          (some (sleepUntil targetUnixNs x.wait.1 ++ actions), s') ∧
      s'.Buffers ∧ s'.lastTargetNs = s.lastTargetNs ∧
      ((actions = holdLink ∧ silentReason ntpServerConfig x.handover.2 ≠ none) ∨
        (actions = [.send (frameWords frame)] ∧
          silentReason ntpServerConfig x.handover.2 = none)) := by
  let spec := ntpFrameSpec port (s.ipId + 1) packet.encode
  have hlen : spec.payload.length = packetLen := by
    change packet.encode.length = _
    rw [NtpPacket.encode_eq, NtpPacket.length_wire]
  obtain ⟨frame, haccepted, hframe, hbuild⟩ := buildUdpFrame_frame spec s.frame
    (by rw [hlen, h.frame]; exact Nat.le_refl _) (by rw [hlen]; decide)
  have hfull : frame.length = ntpFrameLen := by rw [hframe, hlen, ntpFrameLen]
  rw [hlen] at hbuild
  have htake : (frame ++ s.frame.drop (frameLen packetLen)).take (frameLen packetLen) = frame :=
    List.take_left' hfull
  have hwords : encodedWords frame.length = symbolWords := by rw [hfull, symbolWords]
  have hencode := encodeFrame_words frame s.symbols (by rw [hwords, h.symbols])
  let built : NtpTask :=
    { s with
      ipId := s.ipId + 1
      frame := frame ++ s.frame.drop (frameLen packetLen)
      symbols := frameWords frame ++ s.symbols.drop (encodedWords frame.length) }
  have hserve : s.serve port targetUnixNs x packet =
      (some (sleepUntil targetUnixNs x.wait.1 ++
        (built.handOver x (encodedWords frame.length)).1),
        (built.handOver x (encodedWords frame.length)).2) := by
    simp only [serve]
    rw [hbuild]
    simp only [htake, hencode]
    rfl
  have hbuffers : built.Buffers := by
    constructor
    · change (frame ++ s.frame.drop (frameLen packetLen)).length = _
      rw [List.length_append, List.length_drop, h.frame, hfull, ntpFrameLen]
      omega
    · change (frameWords frame ++ s.symbols.drop (encodedWords frame.length)).length = _
      rw [List.length_append, List.length_drop, length_frameWords, hwords, h.symbols]
      omega
  refine ⟨frame, _, _, haccepted, hserve, ?_⟩
  rw [handOver]
  cases hsilent : silentReason ntpServerConfig x.handover.2 with
  | some reason => exact ⟨hbuffers, rfl, .inl ⟨rfl, nofun⟩⟩
  | none =>
    refine ⟨⟨hbuffers.frame, hbuffers.symbols⟩, rfl, .inr ⟨?_, rfl⟩⟩
    exact congrArg (fun ws => [TxAction.send ws]) (List.take_left' (length_frameWords frame))

theorem filterMap_sleepUntil (target : Int) (wait : Option Int) :
    (sleepUntil target wait).filterMap sentWords = [] := by
  cases wait <;> rfl

/-- What the schedule reads of an iteration. -/
def reading (x : NtpReads) : Option Int := if x.trusted then x.start.1 else none

/-- One iteration either leaves the transmitter to link pulses, or hands it one frame. -/
theorem iterate_cases (port : UInt16) (h : s.Buffers) (x : NtpReads) :
    ∃ actions s', s.iterate port x = (some actions, s') ∧ s'.Buffers ∧
      s'.lastTargetNs = (ntpIteration s.lastTargetNs (reading x)).2 ∧
      (actions.filterMap sentWords = [] ∨ ∃ e : NtpSend, e.From port s.lastTargetNs x ∧
        actions = sleepUntil e.targetUnixNs x.wait.1 ++ [.send (frameWords e.frame)] ∧
        s'.lastTargetNs = e.targetUnixNs) := by
  have hsame : ∀ last : Int, ({ s with lastTargetNs := last } : NtpTask).Buffers :=
    fun last => ⟨h.frame, h.symbols⟩
  cases hreading : reading x with
  | none =>
    refine ⟨holdLink, s, ?_, h, rfl, .inl rfl⟩
    rw [iterate, ← reading, hreading]
    rfl
  | some now =>
    obtain ⟨hwait, hiter⟩ | hiter := ntpIteration_cases s.lastTargetNs now
    · have htrusted : x.trusted = true ∧ x.start.1 = some now := by
        rw [reading] at hreading
        split at hreading
        · exact ⟨‹_›, hreading⟩
        · cases hreading
      let aimed : NtpTask := { s with lastTargetNs := nextTargetNs s.lastTargetNs now }
      cases hserve : broadcast ntpServerConfig (stateToServe x)
          (wrap64 (nextTargetNs s.lastTargetNs now + txLagNs)) with
      | silent reason =>
        refine ⟨holdLink, aimed, ?_, hsame _, by rw [hiter], .inl rfl⟩
        rw [iterate, ← reading, hreading, hiter]
        simp only [hserve, ↓reduceIte]
        rfl
      | serve packet =>
        obtain ⟨frame, actions, s', haccepted, heq, hbuffers, hlast, hactions⟩ :=
          serve_cases port (hsame (nextTargetNs s.lastTargetNs now))
            (nextTargetNs s.lastTargetNs now) x packet
        refine ⟨sleepUntil (nextTargetNs s.lastTargetNs now) x.wait.1 ++ actions, s', ?_, hbuffers,
          ?_, ?_⟩
        · rw [iterate, ← reading, hreading, hiter]
          simp only [hserve, ↓reduceIte]
          exact heq
        · rw [hlast, hiter]
        · obtain ⟨rfl, -⟩ | ⟨rfl, hgate⟩ := hactions
          · exact .inl (by rw [List.filterMap_append, filterMap_sleepUntil]; rfl)
          · refine .inr ⟨⟨nextTargetNs s.lastTargetNs now, s.ipId + 1, packet, frame⟩, ?_, rfl,
              hlast⟩
            exact ⟨htrusted.1, ⟨now, htrusted.2, rfl, hwait⟩, hserve, hgate, haccepted⟩
    · refine ⟨holdLink, s, ?_, h, by rw [hiter], .inl rfl⟩
      rw [iterate, ← reading, hreading, hiter]
      rfl

/-- The clock reads a time between 1970 and the last second but one that the counter holds. -/
def Dated (x : NtpReads) : Prop :=
  ∀ now, x.start.1 = some now → 0 ≤ now ∧ now < 9223372035000000000

/-- What a dated loop can have aimed at last. -/
def Aimable (lastTargetNs : Int) : Prop :=
  lastTargetNs = i64Min ∨
    (lastTargetNs % 1000000000 = 0 ∧ 0 ≤ lastTargetNs ∧ lastTargetNs ≤ 9223372035016000000)

theorem nextTargetNs_dated (hlast : Aimable last) (hnow : 0 ≤ now ∧ now < 9223372035000000000) :
    last < nextTargetNs last now ∧ nextTargetNs last now % 1000000000 = 0 ∧
      now < nextTargetNs last now ∧ nextTargetNs last now ≤ 9223372036016000000 := by
  have hmin : i64Min = -9223372036854775808 := rfl
  unfold Aimable at hlast
  have hfits : InI64 ((now / 1000000000 + 1) * 1000000000) := by
    unfold InI64
    omega
  rw [nextTargetNs, wrap64_of_inI64 hfits]
  by_cases hle : (now / 1000000000 + 1) * 1000000000 ≤ last
  · have hfits' : InI64 (last + 1000000000) := by
      unfold InI64
      omega
    rw [if_pos hle, wrap64_of_inI64 hfits']
    omega
  · rw [if_neg hle]
    omega

/-- A second aimed at is at most 16 ms away, and is the last one aimed at from then on. -/
theorem aimed_dated (hlast : Aimable last) (hnow : 0 ≤ now ∧ now < 9223372035000000000)
    (hwait : wrap64 (nextTargetNs last now - now) ≤ 16000000) :
    nextTargetNs last now ≤ now + 16000000 ∧ Aimable (nextTargetNs last now) := by
  obtain ⟨-, hwhole, hlater, hmax⟩ := nextTargetNs_dated hlast hnow
  rw [wrap64_of_inI64 (by unfold InI64; omega)] at hwait
  refine ⟨by omega, .inr ⟨hwhole, by omega, by omega⟩⟩

theorem ntpIteration_dated (hlast : Aimable last) (hx : Dated x) :
    last ≤ (ntpIteration last (reading x)).2 ∧ Aimable (ntpIteration last (reading x)).2 := by
  cases hreading : reading x with
  | none => exact ⟨Int.le_refl _, hlast⟩
  | some now =>
    have hnow : x.start.1 = some now := by
      rw [reading] at hreading
      split at hreading
      · exact hreading
      · cases hreading
    obtain ⟨hwait, hiter⟩ | hiter := ntpIteration_cases last now
    · rw [hiter]
      exact ⟨Int.le_of_lt (nextTargetNs_dated hlast (hx now hnow)).1,
        (aimed_dated hlast (hx now hnow) hwait).2⟩
    · rw [hiter]
      exact ⟨Int.le_refl _, hlast⟩

end NtpTask

/-- What a receiver may rely on in what was sent. -/
structure NtpSend.Sound (port : UInt16) (x : NtpReads) (e : NtpSend) : Prop where
  trusted : x.trusted = true
  gate : silentReason ntpServerConfig x.handover.2 = none
  whole : e.targetUnixNs % 1000000000 = 0
  ahead : ∃ now, x.start.1 = some now ∧ now < e.targetUnixNs ∧ e.targetUnixNs ≤ now + 16000000
  served : broadcast ntpServerConfig (NtpTask.stateToServe x) (e.targetUnixNs + txLagNs) =
    .serve e.packet
  accepted : Accepted (ntpFrameSpec port e.ipId e.packet.encode) e.frame

namespace NtpTask

theorem sound_of_from (hlast : Aimable last) (hx : Dated x) (h : NtpSend.From port last x e) :
    e.Sound port x ∧ last < e.targetUnixNs := by
  obtain ⟨now, hnow, htarget, hwait⟩ := h.target
  obtain ⟨hlater, hwhole, hahead, hmax⟩ := nextTargetNs_dated hlast (hx now hnow)
  rw [htarget] at hwait
  obtain ⟨hnear, -⟩ := aimed_dated hlast (hx now hnow) hwait
  have hserved := h.served
  have hlag : txLagNs = 236200 := rfl
  have hpos := (hx now hnow).1
  rw [htarget, wrap64_of_inI64 (by rw [hlag]; unfold InI64; omega)] at hserved
  rw [← htarget] at hlater hwhole hahead hnear hserved
  exact ⟨⟨h.trusted, h.gate, hwhole, ⟨now, hnow, hahead, hnear⟩, hserved, h.accepted⟩, hlater⟩

theorem outputs_log (port : UInt16) (reads : List NtpReads) (hdated : ∀ x ∈ reads, Dated x)
    (h : s.Buffers)
    (hlast : Aimable s.lastTargetNs) :
    (∀ a ∈ Mealy.outputs (iterate port) s reads, a.isSome) ∧ ∃ log : List NtpSend,
      (Mealy.outputs (iterate port) s reads).flatMap (fun a => (a.getD []).filterMap sentWords) =
        log.map (fun e => frameWords e.frame) ∧
      (∀ e ∈ log, ∃ x ∈ reads, e.Sound port x) ∧
      (log.map NtpSend.targetUnixNs).Pairwise (· < ·) ∧
      ∀ e ∈ log, s.lastTargetNs < e.targetUnixNs := by
  induction reads generalizing s with
  | nil =>
    exact ⟨List.forall_mem_nil _, [], rfl, List.forall_mem_nil _, .nil, List.forall_mem_nil _⟩
  | cons x reads ih =>
    have hx := hdated x List.mem_cons_self
    obtain ⟨actions, s', hstep, hbuffers, hnext, hsent⟩ := iterate_cases port h x
    obtain ⟨hle, haimable⟩ := ntpIteration_dated hlast hx
    rw [← hnext] at hle haimable
    obtain ⟨hsome, log, hlog, hsound, hpairs, hafter⟩ :=
      ih (fun y hy => hdated y (List.mem_cons_of_mem _ hy)) hbuffers haimable
    have hfirst : (iterate port s x).1 = some actions := Mealy.answer_eq hstep
    rw [Mealy.outputs_cons, hfirst, Mealy.next_eq hstep]
    refine ⟨fun a ha => ?_, ?_⟩
    · rcases List.mem_cons.1 ha with rfl | ha
      · rfl
      · exact hsome a ha
    · obtain hnone | ⟨e, he, hacts, htarget⟩ := hsent
      · refine ⟨log, ?_, fun e he => ?_, hpairs, fun e he => Int.lt_of_le_of_lt hle (hafter e he)⟩
        · rw [List.flatMap_cons, Option.getD_some, hnone, hlog, List.nil_append]
        · obtain ⟨y, hy, hys⟩ := hsound e he
          exact ⟨y, List.mem_cons_of_mem _ hy, hys⟩
      · obtain ⟨hesound, hlater⟩ := sound_of_from hlast hx he
        rw [htarget] at hafter
        refine ⟨e :: log, ?_, ?_, ?_, ?_⟩
        · rw [List.flatMap_cons, Option.getD_some, hacts, List.filterMap_append,
            filterMap_sleepUntil, hlog]
          rfl
        · intro e' he'
          rcases List.mem_cons.1 he' with rfl | he'
          · exact ⟨x, List.mem_cons_self, hesound⟩
          · obtain ⟨y, hy, hys⟩ := hsound e' he'
            exact ⟨y, List.mem_cons_of_mem _ hy, hys⟩
        · refine .cons (fun t ht => ?_) hpairs
          obtain ⟨e', he', rfl⟩ := List.mem_map.1 ht
          exact hafter e' he'
        · intro e' he'
          rcases List.mem_cons.1 he' with rfl | he'
          · exact hlater
          · exact Int.lt_trans hlater (hafter e' he')

theorem start_buffers : start.Buffers := ⟨List.length_replicate, List.length_replicate⟩

/-- No iteration fails, and what leaves over a run is a frame a second at most: each for a later
second than the one before, and each one sound. -/
theorem broadcast_run (port : UInt16) (reads : List NtpReads) (hdated : ∀ x ∈ reads, Dated x) :
    (∀ a ∈ answers port reads, a.isSome) ∧ ∃ log : List NtpSend,
      sends port reads = log.map (fun e => frameWords e.frame) ∧
      (∀ e ∈ log, ∃ x ∈ reads, e.Sound port x) ∧
      (log.map NtpSend.targetUnixNs).Pairwise (· < ·) := by
  obtain ⟨hsome, log, hlog, hsound, hpairs, -⟩ :=
    outputs_log port reads hdated start_buffers (.inl rfl)
  exact ⟨hsome, log, hlog, hsound, hpairs⟩

/-- A disciplined clock that reads the same four times. -/
def steadyReads (trusted : Bool) (now : Int) : NtpReads :=
  let reading := (some now, { lastUpdateUnixNs := some 1798761596000000000, holdoverNs := 0,
                              frequencyLocked := true, leap := .none })
  ⟨trusted, reading, reading, reading, reading⟩

/-- The last seconds of the year 2026; the source is not trusted at first. -/
def newYearReads : List NtpReads :=
  [steadyReads false 1798761596990000000, steadyReads true 1798761597500000000,
    steadyReads true 1798761597990000000]

theorem newYearReads_dated : ∀ x ∈ newYearReads, Dated x := by
  intro x hx now hnow
  simp only [newYearReads, List.mem_cons, List.not_mem_nil, or_false] at hx
  obtain rfl | rfl | rfl := hx <;> cases hnow <;> decide

theorem newYearReads_sends : (sends 123 newYearReads).map List.length = [103] := by decide +kernel

/-- One frame leaves, for the second that is ten milliseconds away. -/
theorem broadcast_run_new_year : ∃ e : NtpSend, sends 123 newYearReads = [frameWords e.frame] ∧
    e.targetUnixNs = 1798761598000000000 := by
  obtain ⟨-, log, hlog, hsound, -⟩ := broadcast_run 123 newYearReads newYearReads_dated
  have hone := congrArg List.length newYearReads_sends
  rw [hlog, List.length_map, List.length_map] at hone
  obtain ⟨e, rfl⟩ := List.length_eq_one_iff.1 hone
  refine ⟨e, hlog, ?_⟩
  obtain ⟨x, hx, he⟩ := hsound e List.mem_cons_self
  obtain ⟨now, hnow, hlater, hnear⟩ := he.ahead
  have htrusted := he.trusted
  have hwhole := he.whole
  simp only [newYearReads, List.mem_cons, List.not_mem_nil, or_false] at hx
  obtain rfl | rfl | rfl := hx
  · cases htrusted
  · cases hnow
    omega
  · cases hnow
    omega

end NtpTask

/-- What a receiver takes from a frame. -/
def receivePacket (frame : List UInt8) : Option NtpPacket :=
  (parseUdpFrame frame).bind fun spec => NtpPacket.decode spec.payload

theorem broadcast_packet (h : broadcast ntpServerConfig state t = .serve packet) :
    packet.mode = .broadcast ∧ packet.version = 4 ∧ packet.stratum = 1 ∧
      packet.transmitTimestamp = .fromUnixNs t := by
  rw [broadcast] at h
  split at h
  · cases h
  · cases h
    exact ⟨rfl, rfl, rfl, rfl⟩

theorem NtpSend.Sound.received (h : NtpSend.Sound port x e) :
    receivePacket e.frame = some e.packet := by
  obtain ⟨-, hversion, -⟩ := broadcast_packet h.served
  have hparsed : parseUdpFrame e.frame = some (ntpFrameSpec port e.ipId e.packet.encode) :=
    h.accepted.parsed
  have hdecode : NtpPacket.decode e.packet.encode = some e.packet :=
    NtpPacket.decode_encode e.packet (by rw [hversion]; decide)
  simp only [receivePacket, hparsed, Option.bind_some, ntpFrameSpec, hdecode]

/-- The transmit time comes back to the nanosecond, whatever the era. -/
theorem NtpSend.Sound.transmit {r : Int} (h : NtpSend.Sound port x e) (hx : NtpTask.Dated x)
    (hnear : (e.targetUnixNs + txLagNs - r).natAbs ≤ 2147483647 * 1000000000) :
    e.packet.transmitTimestamp.toUnixNsNear r = e.targetUnixNs + txLagNs := by
  obtain ⟨-, -, -, htransmit⟩ := broadcast_packet h.served
  obtain ⟨now, hnow, hlater, hsoon⟩ := h.ahead
  obtain ⟨hpos, hmax⟩ := hx now hnow
  have hlag : txLagNs = 236200 := rfl
  rw [htransmit]
  apply NtpTimestamp.toUnixNsNear_fromUnixNs _ hnear
  rw [hlag]
  unfold InI64
  omega

open Serialiser (Event Fed)

/-- What a listener at the far end hears of a run of the task is one accepted frame for each second
served, in order, and each frame says that it left its lag after a later second than the frame
before it. -/
theorem broadcasts_heard (port : UInt16) (reads : List NtpReads)
    (hdated : ∀ x ∈ reads, NtpTask.Dated x) {env : Nat → List (Event (BitVec 32))}
    (hcalls : ∀ t, ∀ e ∈ env t, e = .move ∨ e = .push nlpWord ∨
      ∃ words ∈ NtpTask.sends port reads, e = .send words)
    (hbus : Fed env 16) (hdone : ∀ t, t₀ ≤ t → ∀ e ∈ env t, e = .move)
    (hsent : (Tx10BaseT.taken env t₀).filter (· ≠ [nlpWord]) = NtpTask.sends port reads) :
    ∃ (targets : List Int) (t₁ : Nat), targets.length = (NtpTask.sends port reads).length ∧
      targets.Pairwise (· < ·) ∧ (∀ target ∈ targets, target % 1000000000 = 0) ∧
      ∀ t, t₁ ≤ t → ∃ w, Tx10BaseT.wire env t = some w ∧
        (∀ frame ∈ listen w, ∃ spec, Accepted spec frame) ∧
        List.Forall₂ (fun frame target => ∃ packet, receivePacket frame = some packet ∧
          packet.mode = .broadcast ∧ packet.stratum = 1 ∧
          ∀ r : Int, (target + txLagNs - r).natAbs ≤ 2147483647 * 1000000000 →
            packet.transmitTimestamp.toUnixNsNear r = target + txLagNs)
          (listen w) targets := by
  obtain ⟨-, log, hlog, hsound, hpairs⟩ := NtpTask.broadcast_run port reads hdated
  have hhanded : ∀ t, ∀ e ∈ env t, Handed e := by
    intro t e he
    rcases hcalls t e he with rfl | rfl | ⟨words, hwords, rfl⟩
    · exact .move
    · exact .linkPulse
    · rw [hlog] at hwords
      obtain ⟨sent, -, rfl⟩ := List.mem_map.1 hwords
      exact Handed.of_frame sent.frame
  obtain ⟨ts, t₁, htaken, -, hheard⟩ := frames_heard hhanded hbus hdone
  have hframes : ts.filterMap Transmission.frame? = log.map NtpSend.frame := by
    apply frames_of_words
    rw [← htaken, hsent, hlog, List.map_map]
    rfl
  refine ⟨log.map NtpSend.targetUnixNs, t₁, ?_, hpairs, ?_, fun t ht => ?_⟩
  · rw [hlog, List.length_map, List.length_map]
  · intro target htarget
    obtain ⟨e, he, rfl⟩ := List.mem_map.1 htarget
    obtain ⟨x, -, hx⟩ := hsound e he
    exact hx.whole
  · obtain ⟨w, hw, hlisten, -⟩ := hheard t ht
    rw [hframes] at hlisten
    refine ⟨w, hw, ?_, ?_⟩
    · rw [hlisten]
      intro frame hframe
      obtain ⟨e, he, rfl⟩ := List.mem_map.1 hframe
      obtain ⟨x, -, hx⟩ := hsound e he
      exact ⟨_, hx.accepted⟩
    · rw [hlisten, List.forall₂_map_left_iff, List.forall₂_map_right_iff, List.forall₂_same]
      intro e he
      obtain ⟨x, hmem, hx⟩ := hsound e he
      obtain ⟨hmode, -, hstratum, -⟩ := broadcast_packet hx.served
      exact ⟨e.packet, hx.received, hmode, hstratum, fun r hr => hx.transmit (hdated x hmem) hr⟩

/-- The frame of the new year, and a copier that gets the bus in every cycle. -/
def newYearEnv : Nat → List (Event (BitVec 32))
  | 0 => (NtpTask.sends 123 NtpTask.newYearReads).map .send ++ [.move]
  | _ + 1 => [.move]

theorem broadcasts_heard_new_year : ∃ t₁, ∀ t, t₁ ≤ t → ∃ w frame spec,
    Tx10BaseT.wire newYearEnv t = some w ∧ listen w = [frame] ∧ Accepted spec frame := by
  obtain ⟨words, hsends, hwords⟩ := List.map_eq_singleton_iff.1 NtpTask.newYearReads_sends
  have hzero : newYearEnv 0 = [.send words, .move] := by
    rw [newYearEnv, hsends]
    rfl
  have hcalls : ∀ t, ∀ e ∈ newYearEnv t, e = .move ∨ e = .push nlpWord ∨
      ∃ words ∈ NtpTask.sends 123 NtpTask.newYearReads, e = .send words := by
    intro t e he
    cases t with
    | zero =>
      rw [hzero] at he
      rcases List.mem_pair.1 he with rfl | rfl
      · exact .inr (.inr ⟨words, by rw [hsends]; exact List.mem_cons_self, rfl⟩)
      · exact .inl rfl
    | succ t => exact .inl (List.mem_singleton.1 he)
  have hbus : Fed newYearEnv 16 := by
    intro t
    refine ⟨0, by decide, ?_⟩
    cases t with
    | zero => exact List.mem_append_right _ List.mem_cons_self
    | succ t => exact List.mem_cons_self
  have hdone : ∀ t, 1 ≤ t → ∀ e ∈ newYearEnv t, e = .move := by
    intro t ht e he
    obtain ⟨t, rfl⟩ := Nat.exists_eq_succ_of_ne_zero (Nat.ne_of_gt ht)
    exact List.mem_singleton.1 he
  have hsent : (Tx10BaseT.taken newYearEnv 1).filter (· ≠ [nlpWord]) =
      NtpTask.sends 123 NtpTask.newYearReads := by
    have htaken : Tx10BaseT.taken newYearEnv 1 = [words] := by
      change PioOut.Feeder.takesAll txDepth Tx10BaseT.new (newYearEnv 0) = _
      rw [hzero]
      rfl
    have hne : words ≠ [nlpWord] := by
      rintro rfl
      exact absurd hwords (by decide)
    rw [htaken, hsends, List.filter_cons, if_pos (decide_eq_true hne)]
    rfl
  obtain ⟨targets, t₁, hlength, -, -, hheard⟩ := broadcasts_heard 123 NtpTask.newYearReads
    NtpTask.newYearReads_dated hcalls hbus hdone hsent
  refine ⟨t₁, fun t ht => ?_⟩
  obtain ⟨w, hw, haccepted, hpackets⟩ := hheard t ht
  have hone : (listen w).length = 1 := by rw [hpackets.length_eq, hlength, hsends]; rfl
  obtain ⟨frame, hframe⟩ := List.length_eq_one_iff.1 hone
  obtain ⟨spec, hspec⟩ := haccepted frame (by rw [hframe]; exact List.mem_cons_self)
  exact ⟨w, frame, spec, hw, hframe, hspec⟩

end PicoGnss
