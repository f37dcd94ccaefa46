import Mathlib.Data.List.Basic
import PicoGnss.Lib.Bytes

namespace PicoGnss
set_option autoImplicit true

/-- A state of the differential pair; each is also an address in the serialiser program. -/
inductive LineState where
  | idle
  | low
  | high
deriving DecidableEq

def symbolIdle : BitVec 2 := 0b00
def symbolLow : BitVec 2 := 0b01
def symbolHigh : BitVec 2 := 0b10

def LineState.ofSymbol (s : BitVec 2) : Option LineState :=
  if s = symbolIdle then some .idle
  else if s = symbolLow then some .low
  else if s = symbolHigh then some .high
  else none

def preambleSfd : List UInt8 := [0x55, 0x55, 0x55, 0x55, 0x55, 0x55, 0x55, 0xD5]

def tpIdlWord : BitVec 32 := 0x00000AAA

def manchesterWord (byte : UInt8) : BitVec 32 :=
  (List.range 8).foldl (fun word bit =>
    let nibble : BitVec 32 := if byte.toBitVec.getLsbD bit then 0x9 else 0x6
    word ||| nibble <<< (4 * bit)) 0

def manchesterTable : Vector (BitVec 32) 256 :=
  .ofFn fun i => manchesterWord (UInt8.ofNat i)

def encodedWords (frameLen : Nat) : Nat := preambleSfd.length + frameLen + 1

/-- Write the table word of one byte at the cursor and move on. -/
def writeByte (cursor : Nat × List (BitVec 32)) (b : UInt8) : Nat × List (BitVec 32) :=
  (cursor.1 + 1, cursor.2.set cursor.1 (manchesterTable.get b.toFin))

/-- The number of words written and the buffer afterwards. -/
def encodeFrame (frame : List UInt8) (out : List (BitVec 32)) :
    Option Nat × List (BitVec 32) :=
  let n := encodedWords frame.length
  if out.length < n then (none, out)
  else
    let (i, out) := preambleSfd.foldl writeByte (0, out)
    let (i, out) := frame.foldl writeByte (i, out)
    (some (i + 1), out.set i tpIdlWord)

/-- The two half-bits of a data bit: a `0` falls in the middle, a `1` rises. -/
def halfBits (bit : Bool) : List LineState := if bit then [.low, .high] else [.high, .low]

/-- The line states that carry a byte string. -/
def manchester (bytes : List UInt8) : List LineState := (bytes.flatMap Bytes.bits).flatMap halfBits

/-- Six half-bits of high, then idle to the end of the word. -/
def tpIdl : List LineState := List.replicate 6 .high ++ List.replicate 10 .idle

/-- The sixteen symbols of a word in transmission order, unless one is unused. -/
def wordStates (word : BitVec 32) : Option (List LineState) :=
  (List.range 16).mapM fun n => LineState.ofSymbol (word.extractLsb' (2 * n) 2)

def lineStates (words : List (BitVec 32)) : Option (List LineState) :=
  (words.mapM wordStates).map List.flatten

/-- A receiver: data bits from the mid-bit transitions, and the line from the first other pair. -/
def receiveBits : List LineState → List Bool × List LineState
  | .low :: .high :: rest => let (bits, tail) := receiveBits rest; (true :: bits, tail)
  | .high :: .low :: rest => let (bits, tail) := receiveBits rest; (false :: bits, tail)
  | rest => ([], rest)

/-- Octets of a bit string, least significant bit first. -/
def packBytes : List Bool → List UInt8
  | b0 :: b1 :: b2 :: b3 :: b4 :: b5 :: b6 :: b7 :: rest =>
    .ofNat ([b0, b1, b2, b3, b4, b5, b6, b7].foldr (fun b n => b.toNat + 2 * n) 0) ::
      packBytes rest
  | _ => []

theorem manchesterTable_get (b : UInt8) : manchesterTable.get b.toFin = manchesterWord b := by
  have hget : manchesterTable.get b.toFin = manchesterWord (.ofNat b.toFin) :=
    Vector.getElem_ofFn b.toFin.isLt
  rw [hget]
  exact congrArg manchesterWord UInt8.ofNat_toNat

theorem wordStates_manchesterWord (b : UInt8) :
    wordStates (manchesterWord b) = some (manchester [b]) := by
  have h : ∀ i : Fin 256, wordStates (manchesterWord (.ofFin i)) =
      some (manchester [.ofFin i]) := by
    decide +kernel
  exact h b.toFin

theorem wordStates_table (b : UInt8) :
    wordStates (manchesterTable.get b.toFin) = some (manchester [b]) := by
  rw [manchesterTable_get, wordStates_manchesterWord]

theorem wordStates_tpIdl : wordStates tpIdlWord = some tpIdl := by decide

theorem packBytes_bits (b : UInt8) (bits : List Bool) :
    packBytes (Bytes.bits b ++ bits) = b :: packBytes bits := by
  have h : ∀ i : Fin 256, UInt8.ofNat ((Bytes.bits (UInt8.ofFin i)).foldr
      (fun b n => b.toNat + 2 * n) 0) = UInt8.ofFin i := by
    decide +kernel
  exact congrArg (· :: packBytes bits) (h b.toFin)

theorem packBytes_flatMap (bytes : List UInt8) : packBytes (bytes.flatMap Bytes.bits) = bytes := by
  induction bytes with
  | nil => rfl
  | cons b bytes ih => rw [List.flatMap_cons, packBytes_bits, ih]

theorem receiveBits_halfBits (bits : List Bool) (rest : List LineState) :
    receiveBits (bits.flatMap halfBits ++ rest) =
      (bits ++ (receiveBits rest).1, (receiveBits rest).2) := by
  induction bits with
  | nil => rfl
  | cons b bits ih =>
    rw [List.flatMap_cons, List.append_assoc]
    cases b with
    | true =>
      change receiveBits (.low :: .high :: (bits.flatMap halfBits ++ rest)) = _
      rw [receiveBits, ih]
      rfl
    | false =>
      change receiveBits (.high :: .low :: (bits.flatMap halfBits ++ rest)) = _
      rw [receiveBits, ih]
      rfl

/-- Decoding a transmission gives back its bytes and leaves the end-of-transmission pulse. -/
theorem receiveBits_manchester (bytes : List UInt8) :
    receiveBits (manchester bytes ++ tpIdl) = (bytes.flatMap Bytes.bits, tpIdl) := by
  rw [manchester, receiveBits_halfBits]
  change (bytes.flatMap Bytes.bits ++ [], tpIdl) = _
  rw [List.append_nil]

theorem lineStates_append {ws : List (BitVec 32)} (h : lineStates ws = some ls)
    (h' : lineStates ws' = some ls') : lineStates (ws ++ ws') = some (ls ++ ls') := by
  simp only [lineStates, Option.map_eq_some_iff] at h h' ⊢
  obtain ⟨xs, hx, rfl⟩ := h
  obtain ⟨ys, hy, rfl⟩ := h'
  exact ⟨xs ++ ys, by simp [hx, hy], List.flatten_append⟩

theorem lineStates_table (bytes : List UInt8) :
    lineStates (bytes.map fun b => manchesterTable.get b.toFin) = some (manchester bytes) := by
  induction bytes with
  | nil => rfl
  | cons b bytes ih =>
    have hb : lineStates [manchesterTable.get b.toFin] = some (manchester [b]) := by
      simp [lineStates, wordStates_table]
    have he : manchester (b :: bytes) = manchester [b] ++ manchester bytes := by
      simp [manchester]
    rw [he, List.map_cons, ← List.singleton_append]
    exact lineStates_append hb ih

/-- Writing a byte string puts its table words at the cursor and leaves the rest. -/
theorem foldl_writeByte (bytes : List UInt8) (i : Nat) (out : List (BitVec 32))
    (h : i + bytes.length ≤ out.length) :
    bytes.foldl writeByte (i, out) = (i + bytes.length,
      out.take i ++ (bytes.map fun b => manchesterTable.get b.toFin) ++
        out.drop (i + bytes.length)) := by
  induction bytes generalizing i out with
  | nil => simp
  | cons b bytes ih =>
    simp only [List.foldl_cons, List.length_cons, List.map_cons, writeByte] at h ⊢
    have hlen : (out.take i).length = i := List.length_take_of_le (by omega)
    have htake : (out.set i (manchesterTable.get b.toFin)).take (i + 1) =
        out.take i ++ [manchesterTable.get b.toFin] := by
      rw [List.set_eq_take_append_cons_drop, if_pos (by omega), List.take_append, hlen,
        List.take_of_length_le (by omega), Nat.add_sub_cancel_left]
      rfl
    rw [ih _ _ (by rw [List.length_set]; omega), htake, List.drop_set_of_lt (by omega)]
    simp [Nat.add_assoc, Nat.add_comm 1]

/-- The words a transmission consists of. -/
def frameWords (frame : List UInt8) : List (BitVec 32) :=
  ((preambleSfd ++ frame).map fun b => manchesterTable.get b.toFin) ++ [tpIdlWord]

theorem length_frameWords (frame : List UInt8) :
    (frameWords frame).length = encodedWords frame.length := by
  simp [frameWords, encodedWords, Nat.add_assoc]

theorem encodeFrame_words (frame : List UInt8) (out : List (BitVec 32))
    (h : encodedWords frame.length ≤ out.length) :
    encodeFrame frame out = (some (encodedWords frame.length),
      frameWords frame ++ out.drop (encodedWords frame.length)) := by
  have hn : encodedWords frame.length = (preambleSfd ++ frame).length + 1 := by
    rw [List.length_append]
    rfl
  have hw := foldl_writeByte (preambleSfd ++ frame) 0 out (by omega)
  rw [List.foldl_append, Nat.zero_add, List.take_zero, List.nil_append] at hw
  have hlen : ((preambleSfd ++ frame).map fun b => manchesterTable.get b.toFin).length =
      (preambleSfd ++ frame).length := List.length_map _
  rw [hn] at h
  simp only [encodeFrame, hn, hw]
  rw [if_neg (Nat.not_lt.2 h), List.set_append_right _ _ (Nat.le_of_eq hlen), hlen, Nat.sub_self,
    List.drop_eq_getElem_cons (by omega), List.set_cons_zero, frameWords, List.append_assoc,
    List.singleton_append]

theorem encodeFrame_short (frame : List UInt8) (out : List (BitVec 32))
    (h : out.length < encodedWords frame.length) : encodeFrame frame out = (none, out) := by
  rw [encodeFrame]
  exact if_pos h

theorem halfBits_getElem? (bits : List Bool) (rest : List LineState) (hj : j < bits.length) :
    ∃ bit, bits[j]? = some bit ∧
      [(bits.flatMap halfBits ++ rest)[2 * j]?, (bits.flatMap halfBits ++ rest)[2 * j + 1]?] =
        (halfBits bit).map some := by
  induction bits generalizing j with
  | nil => cases hj
  | cons b bits ih =>
    cases j with
    | zero =>
      refine ⟨b, rfl, ?_⟩
      cases b <;> rfl
    | succ j =>
      obtain ⟨bit, hbit, hhalf⟩ := ih (Nat.lt_of_succ_lt_succ hj)
      refine ⟨bit, hbit, hhalf ▸ ?_⟩
      cases b <;> rfl

/-- Every bit cell has a mid-bit transition, so no level spans three half-bits. -/
theorem halfBits_no_run (bits : List Bool) (rest : List LineState) (level : LineState)
    (hi : i + 2 < 2 * bits.length) :
    ¬((bits.flatMap halfBits ++ rest)[i]? = some level ∧
      (bits.flatMap halfBits ++ rest)[i + 1]? = some level ∧
      (bits.flatMap halfBits ++ rest)[i + 2]? = some level) := by
  have cell : ∀ j < bits.length, ¬((bits.flatMap halfBits ++ rest)[2 * j]? = some level ∧
      (bits.flatMap halfBits ++ rest)[2 * j + 1]? = some level) := by
    intro j hj ⟨h0, h1⟩
    obtain ⟨bit, -, hhalf⟩ := halfBits_getElem? bits rest hj
    rw [h0, h1] at hhalf
    cases bit <;> cases level <;> simp [halfBits] at hhalf
  intro ⟨h0, h1, h2⟩
  obtain ⟨j, rfl | rfl⟩ : ∃ j, i = 2 * j ∨ i = 2 * j + 1 := ⟨i / 2, by omega⟩
  · exact cell j (by omega) ⟨h0, h1⟩
  · exact cell (j + 1) (by omega) ⟨h1, h2⟩

/-- What a listener sees of the words of a transmission of `bytes`. -/
structure Legible (words : List (BitVec 32)) (bytes : List UInt8) (wire : List LineState) :
    Prop where
  symbols : lineStates words = some wire
  transition : ∀ j < 8 * bytes.length, ∃ bit, (bytes.flatMap Bytes.bits)[j]? = some bit ∧
    [wire[2 * j]?, wire[2 * j + 1]?] = (halfBits bit).map some
  no_run : ∀ i level, i + 2 < 16 * bytes.length →
    ¬(wire[i]? = some level ∧ wire[i + 1]? = some level ∧ wire[i + 2]? = some level)
  decoded : packBytes (receiveBits wire).1 = bytes
  ended : (receiveBits wire).2 = tpIdl

theorem frameWords_legible (frame : List UInt8) :
    Legible (frameWords frame) (preambleSfd ++ frame)
      (manchester (preambleSfd ++ frame) ++ tpIdl) := by
  have hlen := Bytes.length_flatMap_bits (preambleSfd ++ frame)
  have hrecv := receiveBits_manchester (preambleSfd ++ frame)
  constructor
  case symbols =>
    apply lineStates_append (lineStates_table _)
    simp [lineStates, wordStates_tpIdl]
  case transition =>
    intro j hj
    exact halfBits_getElem? _ tpIdl (hlen ▸ hj)
  case no_run =>
    intro i level hi
    exact halfBits_no_run _ tpIdl level (by omega)
  case decoded => rw [hrecv, packBytes_flatMap]
  case ended => rw [hrecv]

theorem frameWords_injective : Function.Injective frameWords := by
  intro frame frame' h
  have hl := frameWords_legible frame
  have hl' := frameWords_legible frame'
  rw [h] at hl
  have hline := Option.some.inj (hl.symbols.symm.trans hl'.symbols)
  have hbytes := hl.decoded
  rw [hline, hl'.decoded] at hbytes
  exact (List.append_cancel_left hbytes).symm

theorem encodeFrame_legible (frame : List UInt8) (out : List (BitVec 32)) :
    (out.length < encodedWords frame.length → encodeFrame frame out = (none, out)) ∧
    (encodedWords frame.length ≤ out.length →
      ∃ words line, encodeFrame frame out =
          (some (encodedWords frame.length), words ++ out.drop (encodedWords frame.length)) ∧
        words.length = encodedWords frame.length ∧
        Legible words (preambleSfd ++ frame) line ∧
        ∀ frame' out', frame'.length = frame.length →
          encodedWords frame.length ≤ out'.length →
          (encodeFrame frame' out').2.take (encodedWords frame.length) = words →
          frame' = frame) := by
  refine ⟨encodeFrame_short frame out, fun h => ?_⟩
  refine ⟨frameWords frame, _, ?_, length_frameWords frame, frameWords_legible frame, ?_⟩
  · exact encodeFrame_words frame out h
  · intro frame' out' hlen h' heq
    rw [← hlen] at h' heq
    rw [encodeFrame_words frame' out' h', List.take_left' (length_frameWords frame')] at heq
    exact frameWords_injective heq

theorem encodeFrame_legible_three_bytes :
    ∃ words line, encodeFrame [0x01, 0x02, 0x03] (List.replicate 16 0) =
        (some 12, words ++ List.replicate 4 0) ∧
      Legible words (preambleSfd ++ [0x01, 0x02, 0x03]) line := by
  obtain ⟨words, line, h, -, hl, -⟩ :=
    (encodeFrame_legible [0x01, 0x02, 0x03] (List.replicate 16 0)).2 (by decide)
  exact ⟨words, line, h, hl⟩

end PicoGnss
