import Mathlib.Data.Set.List
import PicoGnss.Lib.PioOut
import PicoGnss.TenBaseT.Phy

namespace PicoGnss
set_option autoImplicit true

open PioOut (Feeder Legal)
open Serialiser (Event Fed Paced)

def nlpWord : BitVec 32 := 0x0000000A

def pioClockHz : Nat := 20000000

def pioClockDividerBits (clkHz : UInt32) : UInt32 :=
  .ofNat (clkHz.toNat <<< 8 / pioClockHz)

def ser10baseTProgram : PioOut.Program where
  code := [⟨2, 0b00⟩, ⟨2, 0b01⟩, ⟨2, 0b10⟩]
  origin := 0
  sideSet := 2
  wrapTarget := 0
  wrap := 2

/-- Both queues of the state machine joined into the transmit queue. -/
def txDepth : Nat := 8

/-- The pair as its two pins drive it; the low one is TX−. -/
def LineState.ofPins : Nat → Option LineState
  | 0b00 => some .idle
  | 0b01 => some .low
  | 0b10 => some .high
  | _ => none

namespace Tx10BaseT

def new : Feeder := { sm := PioOut.start ser10baseTProgram, dma := [] }

/-- Give the words to the copier; the call returns once they are all in the queue. -/
def send (tx : Feeder) (symbols : List (BitVec 32)) : Feeder := { tx with dma := symbols }

def linkPulse (tx : Feeder) : Bool × Feeder := tx.tryPush txDepth nlpWord

def isIdle (tx : Feeder) : Bool := tx.sm.queue.isEmpty

def run (env : Nat → List (Event (BitVec 32))) : Nat → Feeder :=
  PioOut.run ser10baseTProgram txDepth env new

def taken (env : Nat → List (Event (BitVec 32))) : Nat → List (List (BitVec 32)) :=
  PioOut.taken ser10baseTProgram txDepth env new

/-- What the pins do to the pair. -/
def driven (tx : Feeder) : Option LineState := (tx.sm.pins ser10baseTProgram).bind LineState.ofPins

/-- The pair over some cycles. -/
def wire (env : Nat → List (Event (BitVec 32))) (t : Nat) : Option (List LineState) :=
  (List.range t).mapM fun u => driven (run env (u + 1))

end Tx10BaseT

/-- A listener on the pair: the burst since the last idle, and the frames heard. -/
structure Listener where
  burst : List LineState
  frames : List (List UInt8)

/-- The frame of a burst that begins with the preamble and ends with the end-of-transmission
pulse. -/
def frameOfBurst (burst : List LineState) : Option (List UInt8) :=
  let (bits, tail) := receiveBits burst
  if tail = List.replicate 6 .high then preambleSfd.isPrefixOf? (packBytes bits) else none

def Listener.hear (l : Listener) : LineState → Listener
  | .idle => { burst := [], frames := l.frames ++ (frameOfBurst l.burst).toList }
  | level => { l with burst := l.burst ++ [level] }

def listen (wire : List LineState) : List (List UInt8) := (wire.foldl Listener.hear ⟨[], []⟩).frames

/-- The divider never makes a half-bit too long, and is exact on a multiple of 78.125 kHz. -/
theorem pioClockDividerBits_spec (clkHz : UInt32) :
    (pioClockDividerBits clkHz).toNat * pioClockHz ≤ clkHz.toNat * 256 ∧
      ((pioClockDividerBits clkHz).toNat * pioClockHz = clkHz.toNat * 256 ↔
        78125 ∣ clkHz.toNat) := by
  have hlt := clkHz.toNat_lt
  have hbits : (pioClockDividerBits clkHz).toNat = clkHz.toNat * 256 / 20000000 := by
    rw [pioClockDividerBits, UInt32.toNat_ofNat', Nat.shiftLeft_eq, pioClockHz]
    omega
  rw [hbits, pioClockHz]
  omega

theorem ser10baseTProgram_uniform : ser10baseTProgram.Uniform 2 where
  pos := by decide
  dvd := by decide
  bits := by decide

theorem new_inside : Tx10BaseT.new.Inside ser10baseTProgram 2 where
  pc := by decide
  dvd := by decide
  le := by decide
  legal := nofun

theorem new_quiet : (Tx10BaseT.new.abs 2).Quiet := ⟨rfl, rfl, rfl⟩

/-- Each symbol is the address of the instruction that drives its state. -/
theorem ofPins_side (pc : Nat) (h : pc < 3) :
    (ser10baseTProgram.code[pc]?.map PioOut.Instr.side).bind LineState.ofPins =
      LineState.ofSymbol (.ofNat 2 pc) := by
  match pc, h with
  | 0, _ => rfl
  | 1, _ => rfl
  | 2, _ => rfl

/-- The state of a symbol that is one. -/
def levelOf (a : BitVec 2) : LineState := (LineState.ofSymbol a).getD .idle

theorem ofSymbol_eq (a : BitVec 2) :
    (a.toNat < 3 → LineState.ofSymbol a = some (levelOf a)) ∧
      ((LineState.ofSymbol a).isSome → a.toNat < 3) := by
  revert a
  decide

theorem mapM_eq_some {f : α → Option β} {l : List α} (h : l.mapM f = some l') (d : β) :
    (∀ a ∈ l, (f a).isSome) ∧ l.map (fun a => (f a).getD d) = l' := by
  induction l generalizing l' with
  | nil =>
    cases h
    exact ⟨nofun, rfl⟩
  | cons a l ih =>
    rw [List.mapM_cons] at h
    cases ha : f a with
    | none =>
      rw [ha] at h
      cases h
    | some b =>
      cases hl : l.mapM f with
      | none =>
        rw [ha, hl] at h
        cases h
      | some bs =>
        rw [ha, hl] at h
        cases h
        obtain ⟨hsome, hmap⟩ := ih hl
        refine ⟨fun x hx => ?_, ?_⟩
        · rcases List.mem_cons.1 hx with rfl | hx
          · rw [ha]
            rfl
          · exact hsome x hx
        · rw [List.map_cons, hmap, ha]
          rfl

/-- A word whose sixteen symbols are states is played as these states. -/
theorem symbols_of_wordStates (h : wordStates word = some ls) :
    Legal ser10baseTProgram 2 word ∧ (PioOut.symbols 2 word).map levelOf = ls := by
  have hsymbols : (PioOut.symbols 2 word).mapM LineState.ofSymbol = some ls := by
    rw [← h, wordStates, PioOut.symbols, List.mapM_map]
    rfl
  obtain ⟨hsome, hmap⟩ := mapM_eq_some hsymbols .idle
  exact ⟨fun a ha => (ofSymbol_eq a).2 (hsome a ha), hmap⟩

theorem line_of_lineStates (h : lineStates words = some ls) :
    (∀ word ∈ words, Legal ser10baseTProgram 2 word) ∧
      (Serialiser.line (PioOut.symbols 2) words).map levelOf = ls := by
  rw [lineStates, Option.map_eq_some_iff] at h
  obtain ⟨lss, hlss, rfl⟩ := h
  obtain ⟨hsome, hmap⟩ := mapM_eq_some hlss []
  refine ⟨fun word hw => ?_, ?_⟩
  · obtain ⟨l, hl⟩ := Option.isSome_iff_exists.1 (hsome word hw)
    exact (symbols_of_wordStates hl).1
  · rw [Serialiser.line, List.map_flatMap, ← hmap, ← List.flatMap_def]
    apply List.flatMap_congr
    intro word hw
    obtain ⟨l, hl⟩ := Option.isSome_iff_exists.1 (hsome word hw)
    rw [hl, (symbols_of_wordStates hl).2]
    rfl

theorem lineStates_of_legal (h : ∀ word ∈ words, (wordStates word).isSome) :
    ∃ states, lineStates words = some states := by
  induction words with
  | nil => exact ⟨[], rfl⟩
  | cons word words ih =>
    obtain ⟨first, hfirst⟩ := Option.isSome_iff_exists.1 (h word List.mem_cons_self)
    obtain ⟨rest, hrest⟩ := ih fun w hw => h w (List.mem_cons_of_mem _ hw)
    have hone : lineStates [word] = some first := by simp [lineStates, hfirst]
    exact ⟨first ++ rest, lineStates_append hone hrest⟩

section Run
variable {env : Nat → List (Event (BitVec 32))}
  (hlegal : ∀ t, ∀ e ∈ env t, ∀ word ∈ e.words, (wordStates word).isSome)
include hlegal

theorem legal_words : ∀ t, ∀ e ∈ env t, ∀ word ∈ e.words, Legal ser10baseTProgram 2 word := by
  intro t e he word hw
  obtain ⟨ls, hls⟩ := Option.isSome_iff_exists.1 (hlegal t e he word hw)
  exact (symbols_of_wordStates hls).1

/-- The transmitter as the register, queue and buffer of its symbols. -/
theorem abs_txRun (t : Nat) : (Tx10BaseT.run env t).Inside ser10baseTProgram 2 ∧
    (Tx10BaseT.run env t).abs 2 =
      Serialiser.run (PioOut.symbols 2) txDepth env (Tx10BaseT.new.abs 2) t :=
  PioOut.abs_run ser10baseTProgram_uniform new_inside (legal_words hlegal) t

theorem taken_eq_sent (t : Nat) : Tx10BaseT.taken env t =
    Serialiser.sent (PioOut.symbols 2) txDepth env (Tx10BaseT.new.abs 2) t :=
  PioOut.taken_eq ser10baseTProgram_uniform new_inside (legal_words hlegal) t

/-- The pins show the symbol at which the machine stands. -/
theorem driven_run (t : Nat) : Tx10BaseT.driven (Tx10BaseT.run env t) =
    some (levelOf ((Tx10BaseT.run env t).abs 2).out) := by
  have hinside := (abs_txRun hlegal t).1
  rw [Tx10BaseT.driven, PioOut.State.pins, ofPins_side _ hinside.pc]
  apply (ofSymbol_eq _).1
  have hpc : (Tx10BaseT.run env t).sm.pc < 3 := hinside.pc
  rw [BitVec.toNat_ofNat]
  omega

theorem wire_eq_map (t : Nat) : Tx10BaseT.wire env t =
    some ((Serialiser.wire (PioOut.symbols 2) txDepth env (Tx10BaseT.new.abs 2) t).map
      levelOf) := by
  induction t with
  | zero => rfl
  | succ t ih =>
    rw [Tx10BaseT.wire, List.range_succ, List.mapM_append, ← Tx10BaseT.wire, ih, Serialiser.wire,
      List.map_append]
    simp only [List.mapM_cons, List.mapM_nil, driven_run hlegal (t + 1),
      (abs_txRun hlegal (t + 1)).2]
    rfl

end Run

/-- What a caller asks of the transmitter. -/
inductive Transmission where
  | frame (bytes : List UInt8)
  | linkPulse

def Transmission.words : Transmission → List (BitVec 32)
  | .frame bytes => frameWords bytes
  | .linkPulse => [nlpWord]

def Transmission.frame? : Transmission → Option (List UInt8)
  | .frame bytes => some bytes
  | .linkPulse => none

/-- The events of a transmitter that is handed encoded frames and link pulses. -/
inductive Handed : Event (BitVec 32) → Prop where
  | move : Handed .move
  | frame (h : encodeFrame bytes out = (some n, out')) : Handed (.send (out'.take n))
  | linkPulse : Handed (.push nlpWord)

theorem Handed.of_frame (bytes : List UInt8) : Handed (.send (frameWords bytes)) := by
  have h := encodeFrame_words bytes (List.replicate (encodedWords bytes.length) 0)
    (Nat.le_of_eq List.length_replicate.symm)
  have hwords := Handed.frame h
  rwa [List.take_left' (length_frameWords bytes)] at hwords

theorem frameWords_ne_nlp (bytes : List UInt8) : frameWords bytes ≠ [nlpWord] := by
  intro h
  have hlen := congrArg List.length h
  rw [length_frameWords, encodedWords, preambleSfd] at hlen
  simp at hlen

/-- The frames of some transmissions are what was sent that is no link pulse. -/
theorem frames_of_words {ts : List Transmission} {frames : List (List UInt8)}
    (h : (ts.map Transmission.words).filter (· ≠ [nlpWord]) = frames.map frameWords) :
    ts.filterMap Transmission.frame? = frames := by
  have hfilter : (ts.map Transmission.words).filter (· ≠ [nlpWord]) =
      (ts.filterMap Transmission.frame?).map frameWords := by
    clear h
    induction ts with
    | nil => rfl
    | cons t ts ih =>
      cases t with
      | frame bytes =>
        rw [List.map_cons, Transmission.words, List.filter_cons,
          if_pos (decide_eq_true (frameWords_ne_nlp bytes)), ih]
        rfl
      | linkPulse => exact ih
  exact List.map_injective_iff.2 frameWords_injective (hfilter.symm.trans h)

/-- The states of a transmission. -/
def Transmission.states : Transmission → List LineState
  | .frame bytes => manchester (preambleSfd ++ bytes) ++ tpIdl
  | .linkPulse => [.high, .high] ++ List.replicate 14 .idle

theorem Transmission.lineStates_words (t : Transmission) : lineStates t.words = some t.states := by
  cases t with
  | frame bytes => exact (frameWords_legible bytes).symbols
  | linkPulse => decide

/-- A transmission comes to rest with its last word. -/
theorem Transmission.ends (t : Transmission) :
    Serialiser.Ends 0 (Serialiser.line (PioOut.symbols 2) t.words) := by
  intro a ha
  cases t with
  | frame bytes =>
    have hlast : (Serialiser.line (PioOut.symbols 2) [tpIdlWord]).getLast? = some 0 := by decide
    rw [Transmission.words, frameWords, Serialiser.line_append, List.getLast?_append, hlast] at ha
    exact (Option.some.inj ha).symm
  | linkPulse =>
    have hlast : (Serialiser.line (PioOut.symbols 2) [nlpWord]).getLast? = some 0 := by decide
    exact Option.some.inj (ha.symm.trans hlast)

theorem foldl_hear_burst (burst : List LineState) (h : .idle ∉ burst) (l : Listener) :
    burst.foldl Listener.hear l = { l with burst := l.burst ++ burst } := by
  induction burst generalizing l with
  | nil => simp
  | cons level burst ih =>
    have htail : LineState.idle ∉ burst := fun hm => h (List.mem_cons_of_mem _ hm)
    cases level with
    | idle => exact absurd List.mem_cons_self h
    | low =>
      refine (ih htail _).trans ?_
      simp [Listener.hear]
    | high =>
      refine (ih htail _).trans ?_
      simp [Listener.hear]

theorem hear_gap (frames : List (List UInt8)) :
    Listener.hear ⟨[], frames⟩ .idle = ⟨[], frames⟩ := by
  rw [Listener.hear]
  change Listener.mk [] (frames ++ []) = _
  rw [List.append_nil]

theorem foldl_hear_gap (n : Nat) (frames : List (List UInt8)) :
    (List.replicate n LineState.idle).foldl Listener.hear ⟨[], frames⟩ = ⟨[], frames⟩ := by
  induction n with
  | zero => rfl
  | succ n ih => rw [List.replicate_succ, List.foldl_cons, hear_gap, ih]

theorem idle_not_mem_manchester (bytes : List UInt8) : .idle ∉ manchester bytes := by
  intro h
  obtain ⟨bit, -, hm⟩ := List.mem_flatMap.1 h
  cases bit <;> simp [halfBits] at hm

theorem frameOfBurst_frame (frame : List UInt8) :
    frameOfBurst (manchester (preambleSfd ++ frame) ++ List.replicate 6 .high) = some frame := by
  have hpulse : receiveBits (List.replicate 6 .high) = ([], List.replicate 6 .high) := rfl
  rw [frameOfBurst, manchester, receiveBits_halfBits, hpulse]
  simp only [List.append_nil, ↓reduceIte, packBytes_flatMap]
  rfl

/-- A listener at rest hears exactly the frame of a transmission, and nothing in a link pulse. -/
theorem Transmission.heard (t : Transmission) (frames : List (List UInt8)) :
    t.states.foldl Listener.hear ⟨[], frames⟩ = ⟨[], frames ++ t.frame?.toList⟩ := by
  cases t with
  | frame bytes =>
    let burst := manchester (preambleSfd ++ bytes) ++ List.replicate 6 .high
    have hburst : LineState.idle ∉ burst := by
      rw [List.mem_append, not_or]
      exact ⟨idle_not_mem_manchester _, by decide⟩
    have hstates : (Transmission.frame bytes).states =
        burst ++ (.idle :: List.replicate 9 .idle) := by
      rw [Transmission.states, tpIdl, List.append_assoc]
      rfl
    rw [hstates, List.foldl_append, foldl_hear_burst burst hburst, List.foldl_cons, Listener.hear,
      List.nil_append, frameOfBurst_frame, foldl_hear_gap]
    rfl
  | linkPulse =>
    rw [Transmission.states, List.foldl_append, foldl_hear_burst [.high, .high] (by decide),
      List.replicate_succ, List.foldl_cons, Listener.hear]
    have hnone : frameOfBurst ([] ++ [.high, .high]) = none := rfl
    rw [hnone, foldl_hear_gap]
    rfl

/-- Transmissions with any idle between them are heard in order. -/
theorem listen_paced {ts : List Transmission} {w : List LineState}
    (h : Paced .idle (ts.map Transmission.states) w) :
    w.foldl Listener.hear ⟨[], []⟩ = ⟨[], ts.filterMap Transmission.frame?⟩ := by
  generalize hls : ts.map Transmission.states = ls at h
  induction h generalizing ts with
  | nil =>
    rw [List.map_eq_nil_iff.1 hls]
    rfl
  | gap _ ih => rw [List.foldl_append, ih hls, List.foldl_cons, List.foldl_nil, hear_gap]
  | line _ ih =>
    obtain ⟨first, last, rfl, hfirst, hlast⟩ := List.map_eq_append_iff.1 hls
    obtain ⟨t, rfl, ht⟩ := List.map_eq_singleton_iff.1 hlast
    rw [List.foldl_append, ih hfirst, ← ht, t.heard, List.filterMap_append]
    cases ht : t.frame? <;> simp [ht]

/-- What a caller hands over is a transmission. -/
theorem Handed.transmission (h : Handed e) (hne : e ≠ .move) :
    ∃ t : Transmission, e.words = t.words := by
  cases h with
  | move => exact absurd rfl hne
  | linkPulse => exact ⟨.linkPulse, rfl⟩
  | @frame bytes out n out' h =>
    refine ⟨.frame bytes, ?_⟩
    by_cases hlen : out.length < encodedWords bytes.length
    · rw [encodeFrame_short bytes out hlen] at h
      cases h
    · rw [encodeFrame_words bytes out (Nat.le_of_not_lt hlen), Prod.mk.injEq,
        Option.some.injEq] at h
      rw [← h.1, ← h.2]
      exact List.take_left' (length_frameWords bytes)

theorem Handed.legal (h : Handed e) : ∀ word ∈ e.words, (wordStates word).isSome := by
  by_cases hne : e = .move
  · rw [hne]
    exact nofun
  · obtain ⟨t, ht⟩ := h.transmission hne
    intro word hw
    have hstates := t.lineStates_words
    rw [lineStates, Option.map_eq_some_iff] at hstates
    obtain ⟨lss, hlss, -⟩ := hstates
    exact (mapM_eq_some hlss []).1 word (ht ▸ hw)

/-- Whatever the callers and the copier do, the pair follows the words taken, state by state: the
machine stays in its three instructions, no state is lost or comes twice, and the pair only ever
holds a state at the end of a word. -/
theorem pair_follows_words {env : Nat → List (Event (BitVec 32))}
    (hlegal : ∀ t, ∀ e ∈ env t, ∀ word ∈ e.words, (wordStates word).isSome) :
    (∀ t, (Tx10BaseT.run env t).sm.pc < 3 ∧ (Tx10BaseT.run env t).sm.queue.length ≤ 8) ∧
    ∃ shown : Nat → Nat, shown 0 = 0 ∧ ∀ t,
      (shown (t + 1) = shown t + 1 ∨ (shown (t + 1) = shown t ∧ 16 ∣ shown t)) ∧
      ∃ states, lineStates (Tx10BaseT.taken env t).flatten = some states ∧
        shown t ≤ states.length ∧
        Tx10BaseT.driven (Tx10BaseT.run env t) = (LineState.idle :: states)[shown t]? := by
  constructor
  · intro t
    obtain ⟨hinside, habs⟩ := abs_txRun hlegal t
    refine ⟨hinside.pc, ?_⟩
    change ((Tx10BaseT.run env t).abs 2).queue.length ≤ txDepth
    rw [habs]
    exact Serialiser.length_queue_run env _ (Nat.zero_le _) t
  · let shown := Serialiser.position (PioOut.symbols 2) txDepth env (Tx10BaseT.new.abs 2)
    obtain ⟨hzero, hsteps⟩ : shown 0 = 0 ∧ _ :=
      Serialiser.position_steps new_quiet (PioOut.length_symbols 2)
    refine ⟨shown, hzero, fun t => ?_⟩
    obtain ⟨hstep, hshown⟩ := hsteps t
    have hwords : ∀ word ∈ (Tx10BaseT.taken env t).flatten, (wordStates word).isSome := by
      intro word hword
      obtain ⟨op, hop, hw⟩ := List.mem_flatten.1 hword
      rw [taken_eq_sent hlegal] at hop
      obtain ⟨u, e, he, -, rfl⟩ := Serialiser.mem_sent hop
      exact hlegal u e he word hw
    obtain ⟨states, hstates⟩ := lineStates_of_legal hwords
    obtain ⟨-, hmap⟩ := line_of_lineStates hstates
    rw [taken_eq_sent hlegal, Serialiser.line_flatten] at hmap
    have hget := congrArg (Option.map levelOf) hshown
    rw [← List.getElem?_map, List.map_cons, hmap] at hget
    refine ⟨hstep, states, hstates, ?_, ?_⟩
    · have hlt := (List.getElem?_eq_some_iff.1 hget).1
      exact Nat.le_of_lt_succ hlt
    · rw [driven_run hlegal, (abs_txRun hlegal t).2]
      exact hget.symm

/-- A frame of three bytes, and a copier that gets the bus in every cycle. -/
def threeBytes : Nat → List (Event (BitVec 32))
  | 0 => [.send ((encodeFrame [0x01, 0x02, 0x03] (List.replicate 16 0)).2.take 12), .move]
  | _ + 1 => [.move]

theorem threeBytes_handed : ∀ t, ∀ e ∈ threeBytes t, Handed e := by
  have hframe : Handed (.send ((encodeFrame [0x01, 0x02, 0x03] (List.replicate 16 0)).2.take 12)) :=
    .frame (Prod.ext (by decide) rfl)
  intro t e he
  cases t with
  | zero =>
    rcases List.mem_pair.1 he with rfl | rfl
    · exact hframe
    · exact .move
  | succ t =>
    rw [List.mem_singleton.1 he]
    exact .move

theorem pair_follows_words_three_bytes : ∃ shown : Nat → Nat, shown 0 = 0 ∧
    ∀ t, (Tx10BaseT.run threeBytes t).sm.queue.length ≤ 8 ∧
      ∃ states, lineStates (Tx10BaseT.taken threeBytes t).flatten = some states ∧
        Tx10BaseT.driven (Tx10BaseT.run threeBytes t) = (LineState.idle :: states)[shown t]? := by
  obtain ⟨hrange, shown, hzero, hshown⟩ :=
    pair_follows_words fun t e he => (threeBytes_handed t e he).legal
  refine ⟨shown, hzero, fun t => ⟨(hrange t).2, ?_⟩⟩
  obtain ⟨-, states, hstates, -, hdriven⟩ := hshown t
  exact ⟨states, hstates, hdriven⟩

section Heard
variable {env : Nat → List (Event (BitVec 32))} (hcalls : ∀ t, ∀ e ∈ env t, Handed e)
include hcalls

theorem taken_transmissions (t : Nat) :
    ∃ ts : List Transmission, Tx10BaseT.taken env t = ts.map Transmission.words := by
  rw [taken_eq_sent fun t e he => (hcalls t e he).legal]
  have hmem : Serialiser.sent (PioOut.symbols 2) txDepth env (Tx10BaseT.new.abs 2) t ∈
      {l | ∀ op ∈ l, op ∈ Set.range Transmission.words} := by
    intro op hop
    obtain ⟨u, e, he, hne, rfl⟩ := Serialiser.mem_sent hop
    obtain ⟨t, ht⟩ := (hcalls u e he).transmission hne
    exact ⟨t, ht.symm⟩
  rw [← Set.range_list_map] at hmem
  obtain ⟨ts, hts⟩ := hmem
  exact ⟨ts, hts.symm⟩

/-- Once everything taken has been shown, it has been heard. -/
theorem heard_when_empty {ts : List Transmission} (hbus : Fed env 16)
    (hts : Tx10BaseT.taken env t = ts.map Transmission.words)
    (hrest : ((Tx10BaseT.run env t).abs 2).rest (PioOut.symbols 2) = []) :
    ∃ w, Tx10BaseT.wire env t = some w ∧ listen w = ts.filterMap Transmission.frame? ∧
      Tx10BaseT.driven (Tx10BaseT.run env t) = some .idle ∧
      Tx10BaseT.isIdle (Tx10BaseT.run env t) = true := by
  have hlegal : ∀ t, ∀ e ∈ env t, ∀ word ∈ e.words, (wordStates word).isSome :=
    fun t e he => (hcalls t e he).legal
  have hk := PioOut.length_symbols 2
  have hquiet := Serialiser.quiet_of_rest hk (by decide) hrest
  have habs := (abs_txRun hlegal t).2
  rw [taken_eq_sent hlegal] at hts
  have hends : ∀ op ∈ Serialiser.sent (PioOut.symbols 2) txDepth env (Tx10BaseT.new.abs 2) t,
      Serialiser.Ends 0 (Serialiser.line (PioOut.symbols 2) op) := by
    intro op hop
    rw [hts] at hop
    obtain ⟨u, -, rfl⟩ := List.mem_map.1 hop
    exact u.ends
  rw [habs] at hrest
  have hout := Serialiser.out_of_rest new_quiet rfl (by decide) hk (by decide) hbus t hends hrest
  have hpaced := (Serialiser.wire_paced new_quiet rfl (by decide) hk (by decide) hbus t hends).map
    levelOf
  have hstates : (ts.map Transmission.words).map
      (fun ws => (Serialiser.line (PioOut.symbols 2) ws).map levelOf) =
        ts.map Transmission.states := by
    rw [List.map_map]
    exact List.map_congr_left fun u _ => (line_of_lineStates u.lineStates_words).2
  rw [hrest, List.append_nil, hts, List.map_map] at hpaced
  refine ⟨_, wire_eq_map hlegal t, ?_, ?_, ?_⟩
  · rw [listen, listen_paced (hstates ▸ hpaced)]
  · rw [driven_run hlegal, habs, hout]
    rfl
  · exact List.isEmpty_iff.2 hquiet.2.1

/-- When the copier gets the bus once in every sixteen cycles, a listener on the pair hears the
frames handed over, in order and nothing else, and the pair is idle soon after the last one. -/
theorem frames_heard (hbus : Fed env 16) (hdone : ∀ t, t₀ ≤ t → ∀ e ∈ env t, e = .move) :
    ∃ (ts : List Transmission) (t₁ : Nat),
      Tx10BaseT.taken env t₀ = ts.map Transmission.words ∧
      t₁ ≤ t₀ + 17 * (16 * (Tx10BaseT.taken env t₀).flatten.length) ∧
      ∀ t, t₁ ≤ t → ∃ w, Tx10BaseT.wire env t = some w ∧
        listen w = ts.filterMap Transmission.frame? ∧
        Tx10BaseT.driven (Tx10BaseT.run env t) = some .idle ∧
        Tx10BaseT.isIdle (Tx10BaseT.run env t) = true := by
  have hlegal : ∀ t, ∀ e ∈ env t, ∀ word ∈ e.words, (wordStates word).isSome :=
    fun t e he => (hcalls t e he).legal
  have hk := PioOut.length_symbols 2
  have hmoves : ∀ u, ∀ e ∈ env (t₀ + u), e = .move := fun u => hdone _ (Nat.le_add_right t₀ u)
  obtain ⟨ts, hts⟩ := taken_transmissions hcalls t₀
  obtain ⟨d, hd, hdrained⟩ := Serialiser.drains hmoves hk (by decide) (by decide : 0 < txDepth)
    (s := (Tx10BaseT.run env t₀).abs 2) fun u => by simpa only [Nat.add_assoc] using hbus (t₀ + u)
  have hleft : (((Tx10BaseT.run env t₀).abs 2).rest (PioOut.symbols 2)).length ≤
      16 * (Tx10BaseT.taken env t₀).flatten.length := by
    rw [(abs_txRun hlegal t₀).2, taken_eq_sent hlegal]
    exact Serialiser.length_rest_le new_quiet hk t₀
  refine ⟨ts, t₀ + d, hts, ?_, fun t ht => ?_⟩
  · exact Nat.add_le_add_left (hd.trans (Nat.mul_le_mul_left 17 hleft)) t₀
  · obtain ⟨e, rfl⟩ := Nat.exists_eq_add_of_le ht
    apply heard_when_empty hcalls hbus
    · rw [taken_eq_sent hlegal, Nat.add_assoc, Serialiser.sent_add,
        Serialiser.sent_moves hmoves, List.append_nil, ← taken_eq_sent hlegal, hts]
    · rw [(abs_txRun hlegal _).2, Nat.add_assoc, Serialiser.run_add, ← (abs_txRun hlegal t₀).2,
        Serialiser.run_add]
      exact Serialiser.empty_stays (fun u => hmoves (d + u)) hdrained e

end Heard

theorem Transmission.words_injective : Function.Injective Transmission.words := by
  intro t t' h
  cases t with
  | frame bytes =>
    cases t' with
    | frame bytes' => rw [frameWords_injective h]
    | linkPulse => exact absurd h (frameWords_ne_nlp bytes)
  | linkPulse =>
    cases t' with
    | frame bytes' => exact absurd h.symm (frameWords_ne_nlp bytes')
    | linkPulse => rfl

theorem frames_heard_three_bytes : ∃ t₁, ∀ t, t₁ ≤ t → ∃ w,
    Tx10BaseT.wire threeBytes t = some w ∧ listen w = [[0x01, 0x02, 0x03]] := by
  have hbus : Fed threeBytes 16 := by
    intro t
    refine ⟨0, by decide, ?_⟩
    cases t with
    | zero => exact List.mem_cons_of_mem _ List.mem_cons_self
    | succ t => exact List.mem_cons_self
  have hdone : ∀ t, 1 ≤ t → ∀ e ∈ threeBytes t, e = .move := by
    intro t ht e he
    obtain ⟨t, rfl⟩ := Nat.exists_eq_succ_of_ne_zero (Nat.ne_of_gt ht)
    exact List.mem_singleton.1 he
  obtain ⟨ts, t₁, htaken, -, hheard⟩ := frames_heard threeBytes_handed hbus hdone
  have hwords : (encodeFrame [0x01, 0x02, 0x03] (List.replicate 16 0)).2.take 12 =
      frameWords [0x01, 0x02, 0x03] := by
    rw [encodeFrame_words _ _ (by decide)]
    exact List.take_left' (length_frameWords _)
  have hone : Tx10BaseT.taken threeBytes 1 =
      [Transmission.frame [0x01, 0x02, 0x03]].map Transmission.words :=
    congrArg (fun words => [words]) hwords
  obtain rfl := List.map_injective_iff.2 Transmission.words_injective (hone.symm.trans htaken)
  refine ⟨t₁, fun t ht => ?_⟩
  obtain ⟨w, hw, hlisten, -⟩ := hheard t ht
  exact ⟨w, hw, hlisten⟩

end PicoGnss
