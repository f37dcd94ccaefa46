import PicoGnss.RpPps.Checksum

/-! The receiver's commands, and the search for the rate it talks at. -/

namespace PicoGnss
open Utf8 Numerals
set_option autoImplicit true

def gnssBaud : Nat := 9600
def gnssFastBaud : Nat := 115200

/-- One of the digits `0` to `9` and `A` to `F`. -/
def upperHexDigit (n : Nat) : UInt8 := .ofNat (if n < 10 then 48 + n else 55 + n)

/-- `{:02X}` of a byte. -/
def upperHex (b : UInt8) : List UInt8 :=
  [upperHexDigit (b.toNat / 16), upperHexDigit (b.toNat % 16)]

/-- `heapless::String::push_str`. -/
def BoundedVec.pushStr (v : BoundedVec α n) (xs : List α) : Option (BoundedVec α n) :=
  if h : (v.toList ++ xs).length ≤ n then some ⟨v.toList ++ xs, h⟩ else none

/-- The line written into a string of `capacity` bytes piece by piece, unless one does not fit. -/
def pmtkLine (capacity : Nat) (payload : List UInt8) : Option (List UInt8) :=
  let cs := nmeaChecksum payload
  let pieces := [[dollar], payload, [star], upperHex cs, [carriageReturn, lineFeed]]
  (pieces.foldlM BoundedVec.pushStr (.empty : BoundedVec UInt8 capacity)).map BoundedVec.toList

/-- A read of the port that ends before the deadline: bytes, or a framing or break error. -/
abbrev UartRead := Option (BoundedVec UInt8 64)

/-- The loop over `buf[..n]`, up to the first sentence that starts with `$G`. -/
def scanBytes (a : NmeaLineAssembler) : List UInt8 → Bool × NmeaLineAssembler
  | [] => (false, a)
  | b :: rest =>
    let pushed := a.push b
    match pushed.1 with
    | some sentence =>
      if [dollar, 0x47].isPrefixOf sentence then (true, pushed.2) else scanBytes pushed.2 rest
    | none => scanBytes pushed.2 rest

/-- The reads are those that end before the deadline passes. -/
def awaitNmeaFrom (a : NmeaLineAssembler) : List UartRead → Bool
  | [] => false
  | none :: reads => awaitNmeaFrom a reads
  | some buf :: reads =>
    let scanned := scanBytes a buf.toList
    scanned.1 || awaitNmeaFrom scanned.2 reads

def awaitNmea (reads : List UartRead) : Bool := awaitNmeaFrom .new reads

/-- The port before it is split: its rate, and what it has written at which rate. -/
structure Port where
  baud : Nat
  written : List (Nat × List UInt8)
deriving DecidableEq

/-- What reading for three seconds gives at each rate. -/
def Air := Nat → List UartRead

namespace Port

def setBaudrate (port : Port) (baud : Nat) : Port := { port with baud }

def sendPmtk (port : Port) (capacity : Nat) (payload : List UInt8) : Port :=
  match pmtkLine capacity payload with
  | some line => { port with written := port.written ++ [(port.baud, line)] }
  | none => port

/-- Try the rates in order, and leave the port on the first one that frames, or on the last. -/
def probeRates (port : Port) (air : Air) : List Nat → Option Nat × Port
  | [] => (none, port)
  | baud :: rest =>
    let port := port.setBaudrate baud
    if awaitNmea (air baud) then (some baud, port) else port.probeRates air rest

def probeBaud (port : Port) (air : Air) : Option Nat × Port :=
  port.probeRates air [gnssBaud, gnssFastBaud]

end Port

def pmtk251 : List UInt8 := utf8 "PMTK251,115200"

/-- The line capacity of the firmware's `send_pmtk`. -/
def pmtkCapacity : Nat := 96

namespace Port

/-- The air is that of the first search, and of the one after the command. -/
def establishLink (port : Port) (before after : Air) : Nat × Port :=
  match port.probeBaud before with
  | (none, port) => (gnssBaud, port.setBaudrate gnssBaud)
  | (some found, port) =>
    if found = gnssFastBaud then (found, port)
    else
      match (port.sendPmtk pmtkCapacity pmtk251).probeBaud after with
      | (some rate, port) => (rate, port)
      | (none, port) => (gnssBaud, port.setBaudrate gnssBaud)

def followBaud (port : Port) (air : Air) : Option Nat × Port :=
  match port.probeBaud air with
  | (some rate, port) => (some rate, port)
  | (none, port) => (none, port.setBaudrate gnssBaud)

end Port

/-- The commands that `config_task` sends once the link is up. -/
def pmtkInit : List (List UInt8) :=
  [utf8 "PMTK886,4", utf8 "PMTK313,1", utf8 "PMTK301,2", utf8 "PMTK286,1",
    utf8 "PMTK314,1,1,1,1,1,1,0,1,0,0,0,0,0,0,0,0,0,1,0", utf8 "PMTK605"]

def Port.configTask (port : Port) : Port :=
  pmtkInit.foldl (fun port cmd => port.sendPmtk pmtkCapacity cmd) port

theorem foldlM_pushStr (v : BoundedVec α n) (pieces : List (List α)) :
    (pieces.foldlM BoundedVec.pushStr v).map BoundedVec.toList =
      if (v.toList ++ pieces.flatten).length ≤ n then some (v.toList ++ pieces.flatten)
      else none := by
  induction pieces generalizing v with
  | nil =>
    rw [List.flatten_nil, List.append_nil, if_pos v.fits]
    rfl
  | cons xs pieces ih =>
    rw [List.foldlM_cons, List.flatten_cons, ← List.append_assoc]
    by_cases hfit : (v.toList ++ xs).length ≤ n
    · rw [BoundedVec.pushStr, dif_pos hfit]
      exact ih _
    · rw [BoundedVec.pushStr, dif_neg hfit, if_neg]
      · rfl
      · intro hall
        rw [List.length_append] at hall
        exact hfit (Nat.le_trans (Nat.le_add_right _ _) hall)

/-- The command as it is sent: between `$` and `*`, then its checksum. -/
def pmtkSentence (payload : List UInt8) : List UInt8 :=
  dollar :: (payload ++ star :: upperHex (nmeaChecksum payload))

theorem length_upperHex (b : UInt8) : (upperHex b).length = 2 := rfl

/-- A command is written whole, or not at all. -/
theorem pmtkLine_eq (capacity : Nat) (payload : List UInt8) :
    pmtkLine capacity payload = if payload.length + 6 ≤ capacity then
      some (pmtkSentence payload ++ [carriageReturn, lineFeed]) else none := by
  rw [pmtkLine, foldlM_pushStr]
  have hflat : (BoundedVec.empty : BoundedVec UInt8 capacity).toList ++
      [[dollar], payload, [star], upperHex (nmeaChecksum payload),
        [carriageReturn, lineFeed]].flatten =
      pmtkSentence payload ++ [carriageReturn, lineFeed] := by
    simp only [BoundedVec.empty, pmtkSentence, List.flatten_cons, List.flatten_nil,
      List.append_nil, List.nil_append, List.cons_append, List.append_assoc]
  have hlen : (pmtkSentence payload ++ [carriageReturn, lineFeed]).length =
      payload.length + 6 := by
    simp only [pmtkSentence, List.length_append, List.length_cons, List.length_nil, length_upperHex]
  rw [hflat, hlen]

theorem hexDigit_upperHexDigit (h : n < 16) : hexDigit (upperHexDigit n) = some n := by
  revert n
  decide

theorem upperHexDigit_plain (h : n < 16) : Plain (upperHexDigit n) ∧ upperHexDigit n ≠ star := by
  revert n
  decide

theorem u8FromHex_upperHex (b : UInt8) : u8FromHex (upperHex b) = some b.toNat := by
  have hb := b.toNat_lt
  apply u8FromHex_pair.2
  left
  refine ⟨_, _, hexDigit_upperHexDigit (by omega), hexDigit_upperHexDigit (by omega), ?_⟩
  exact Nat.div_add_mod' _ _

/-- What is sent passes the check that sentences are received with. -/
theorem pmtkSentence_valid (hstar : star ∉ payload) :
    nmeaChecksumValid (pmtkSentence payload) = true := by
  apply nmeaChecksumValid_iff.2
  refine ⟨payload, _, _, [], ⟨?_, hstar⟩, ?_, u8FromHex_upperHex _⟩
  · rw [pmtkSentence, stripDollar, if_pos rfl]
    rfl
  · intro b hb
    cases hb

/-- A command of at most 78 plain bytes without a star that the line buffer has room for is sent
whole, and a receiver that frames lines as this program does takes it as one sentence with a good
checksum, whatever it was in. -/
theorem pmtkLine_received (hplain : ∀ b ∈ payload, Plain b) (hstar : star ∉ payload)
    (hlen : payload.length ≤ 78) (hcap : payload.length + 6 ≤ capacity) (history : List UInt8) :
    ∃ line, pmtkLine capacity payload = some line ∧
      Mealy.outputs NmeaLineAssembler.push (Mealy.final NmeaLineAssembler.push .new history) line =
        List.replicate (payload.length + 4) none ++ [some (pmtkSentence payload), none] ∧
      nmeaChecksumValid (pmtkSentence payload) = true := by
  refine ⟨_, by rw [pmtkLine_eq, if_pos hcap], ?_, pmtkSentence_valid hstar⟩
  have hsum := (nmeaChecksum payload).toNat_lt
  have hbody : ∀ b ∈ payload ++ star :: upperHex (nmeaChecksum payload), Plain b := by
    intro b hb
    rcases List.mem_append.1 hb with hb | hb
    · exact hplain b hb
    · simp only [upperHex, List.mem_cons, List.not_mem_nil, or_false] at hb
      rcases hb with rfl | rfl | rfl
      · decide
      · exact (upperHexDigit_plain (by omega)).1
      · exact (upperHexDigit_plain (by omega)).1
  have hlength : (payload ++ star :: upperHex (nmeaChecksum payload)).length =
      payload.length + 3 := by
    rw [List.length_append, List.length_cons, length_upperHex]
  have hrest : ∀ b ∈ [lineFeed], Terminator b := by
    intro b hb
    exact .inr (List.mem_singleton.1 hb)
  have hout := outputs_sentence history hbody (by omega) (by omega)
    (show Terminator carriageReturn from .inl rfl) hrest
  rw [hlength] at hout
  exact hout

theorem pmtkLine_received_fast_rate :
    ∃ line, pmtkLine pmtkCapacity pmtk251 = some line ∧
      Mealy.outputs NmeaLineAssembler.push
          (Mealy.final NmeaLineAssembler.push .new (utf8 "$GNRMC,12")) line =
        List.replicate 18 none ++ [some (pmtkSentence pmtk251), none] := by
  have hall : pmtk251.all (fun b => decide (Plain b)) = true := by decide
  have hplain (b : UInt8) (hb : b ∈ pmtk251) : Plain b :=
    of_decide_eq_true (List.all_eq_true.1 hall b hb)
  obtain ⟨line, hline, hout, -⟩ := pmtkLine_received hplain (by decide) (by decide)
    (show pmtk251.length + 6 ≤ pmtkCapacity by decide) (utf8 "$GNRMC,12")
  exact ⟨line, hline, hout⟩

/-- The bytes that reads bring. -/
def heardBytes (reads : List UartRead) : List UInt8 :=
  reads.flatMap fun
    | some buf => buf.toList
    | none => []

/-- A stream with a sentence of 1 to 81 bytes after its `$`, the first of them `G`. -/
def Framed (stream : List UInt8) : Prop :=
  ∃ pre body t post, stream = pre ++ dollar :: body ++ t :: post ∧ (∀ b ∈ body, Plain b) ∧
    body.length ≤ 81 ∧ Terminator t ∧ body.head? = some 0x47

/-- Whether a byte completes a sentence that starts with `$G`. -/
def completesG (a : NmeaLineAssembler) (b : UInt8) : Bool :=
  (a.push b).1.any fun sentence => [dollar, 0x47].isPrefixOf sentence

theorem scanBytes_cons (a : NmeaLineAssembler) (b : UInt8) (xs : List UInt8) :
    scanBytes a (b :: xs) =
      if completesG a b then (true, (a.push b).2) else scanBytes (a.push b).2 xs := by
  cases h : (a.push b).1 <;> simp only [scanBytes, completesG, h] <;> rfl

theorem completesG_iff : completesG a b = true ↔
    ∃ line, (a.push b).1 = some line ∧ [dollar, 0x47].isPrefixOf line = true := by
  rw [completesG, Option.any_eq_true]

theorem scanBytes_append (a : NmeaLineAssembler) (xs ys : List UInt8) :
    scanBytes a (xs ++ ys) = if (scanBytes a xs).1 then scanBytes a xs
      else scanBytes (scanBytes a xs).2 ys := by
  induction xs generalizing a with
  | nil => rfl
  | cons b xs ih =>
    rw [List.cons_append, scanBytes_cons, scanBytes_cons]
    cases completesG a b with
    | true => rfl
    | false => exact ih _

theorem awaitNmeaFrom_eq (a : NmeaLineAssembler) (reads : List UartRead) :
    awaitNmeaFrom a reads = (scanBytes a (heardBytes reads)).1 := by
  induction reads generalizing a with
  | nil => rfl
  | cons read reads ih =>
    cases read with
    | none => exact ih a
    | some buf =>
      have hcons : heardBytes (some buf :: reads) = buf.toList ++ heardBytes reads := rfl
      rw [awaitNmeaFrom, hcons, scanBytes_append]
      cases h : (scanBytes a buf.toList).1 with
      | true => rw [if_pos rfl, h, Bool.true_or]
      | false =>
        rw [if_neg Bool.false_ne_true, Bool.false_or]
        exact ih _

theorem scanBytes_iff (h : Tracks a history) (xs : List UInt8) :
    (scanBytes a xs).1 = true ↔ ∃ pre t post line, xs = pre ++ t :: post ∧
      ((Mealy.final NmeaLineAssembler.push a pre).push t).1 = some line ∧
      [dollar, 0x47].isPrefixOf line = true := by
  induction xs generalizing a history with
  | nil =>
    constructor
    · intro h
      cases h
    · rintro ⟨pre, t, post, line, hnil, -⟩
      exact absurd hnil.symm (List.append_ne_nil_of_right_ne_nil _ (List.cons_ne_nil _ _))
  | cons b xs ih =>
    rw [scanBytes_cons]
    constructor
    · intro hscan
      cases hg : completesG a b with
      | true =>
        obtain ⟨line, hline, hg⟩ := completesG_iff.1 hg
        exact ⟨[], b, xs, line, rfl, hline, hg⟩
      | false =>
        rw [hg, if_neg Bool.false_ne_true] at hscan
        obtain ⟨pre, t, post, line, rfl, hline, hg⟩ := (ih (h.push b)).1 hscan
        exact ⟨b :: pre, t, post, line, rfl, hline, hg⟩
    · rintro ⟨pre, t, post, line, hxs, hline, hg⟩
      cases pre with
      | nil =>
        cases hxs
        have hcompletes : completesG a b = true := completesG_iff.2 ⟨line, hline, hg⟩
        rw [if_pos hcompletes]
      | cons x pre =>
        cases hxs
        split
        · rfl
        · exact (ih (h.push b)).2 ⟨pre, t, post, line, rfl, hline, hg⟩

/-- The link is taken to be up exactly when the reads bring a framed sentence that starts with `$G`;
how they cut it up, and what fails between them, makes no difference. -/
theorem awaitNmea_iff (reads : List UartRead) :
    awaitNmea reads = true ↔ Framed (heardBytes reads) := by
  have hstarts (body : List UInt8) :
      [dollar, 0x47].isPrefixOf (dollar :: body) = true ↔ body.head? = some 0x47 := by
    cases body with
    | nil => decide
    | cons b body =>
      simp only [List.isPrefixOf, Bool.and_true, List.head?_cons, Option.some.injEq,
        beq_self_eq_true, Bool.true_and, beq_iff_eq]
      exact eq_comm
  rw [awaitNmea, awaitNmeaFrom_eq, scanBytes_iff Tracks.new]
  constructor
  · rintro ⟨pre, t, post, line, hbytes, hline, hg⟩
    by_cases ht : Terminator t
    · obtain ⟨body, ⟨⟨before, rfl⟩, hb⟩, -, hhi, rfl⟩ :=
        (push_terminator ht (tracks_run pre) line).1 hline
      exact ⟨before, body, t, post, hbytes, hb, hhi, ht, (hstarts body).1 hg⟩
    · rw [push_silent ht] at hline
      cases hline
  · rintro ⟨before, body, t, post, hbytes, hb, hhi, ht, hhead⟩
    have hlo : 1 ≤ body.length := by
      cases body with
      | nil => cases hhead
      | cons b body => exact Nat.succ_le_succ (Nat.zero_le _)
    refine ⟨before ++ dollar :: body, t, post, dollar :: body, hbytes, ?_, (hstarts body).2 hhead⟩
    exact (push_terminator ht (tracks_run _) _).2 ⟨body, ⟨⟨before, rfl⟩, hb⟩, hlo, hhi, rfl⟩

/-- The air brings sentences at one rate only. -/
def Talks (air : Air) (rate : Nat) : Prop := ∀ baud, Framed (heardBytes (air baud)) ↔ baud = rate

theorem Talks.await (h : Talks air rate) (baud : Nat) :
    awaitNmea (air baud) = decide (baud = rate) := by
  rw [Bool.eq_iff_iff, awaitNmea_iff, decide_eq_true_iff]
  exact h baud

/-- The line that asks for the fast rate. -/
def raiseLine : List UInt8 := pmtkSentence pmtk251 ++ [carriageReturn, lineFeed]

/-- The rate that the search before the command and the one after it settle on. -/
def settledRate (before after : Air) : Nat :=
  if awaitNmea (before gnssBaud) then
    if awaitNmea (after gnssBaud) then gnssBaud
    else if awaitNmea (after gnssFastBaud) then gnssFastBaud
    else gnssBaud
  else if awaitNmea (before gnssFastBaud) then gnssFastBaud
  else gnssBaud

/-- What has been asked of the receiver, at which rate. -/
def raiseRequests (before : Air) : List (Nat × List UInt8) :=
  if awaitNmea (before gnssBaud) then [(gnssBaud, raiseLine)] else []

theorem settledRate_of_talks (h : Talks before rate) (h' : Talks after rate')
    (hr : rate = gnssBaud ∨ rate = gnssFastBaud) (hr' : rate' = gnssBaud ∨ rate' = gnssFastBaud) :
    settledRate before after = if rate = gnssBaud then rate' else rate := by
  have hne : gnssFastBaud ≠ gnssBaud := by decide
  simp only [settledRate, h.await, h'.await, decide_eq_true_iff]
  rcases hr with rfl | rfl
  · rw [if_pos rfl, if_pos rfl]
    rcases hr' with rfl | rfl
    · rw [if_pos rfl]
    · rw [if_neg hne.symm, if_pos rfl]
  · rw [if_neg hne.symm, if_pos rfl, if_neg hne]

namespace Port

theorem probeBaud_eq (port : Port) (air : Air) : port.probeBaud air =
    if awaitNmea (air gnssBaud) then (some gnssBaud, port.setBaudrate gnssBaud)
    else if awaitNmea (air gnssFastBaud) then (some gnssFastBaud, port.setBaudrate gnssFastBaud)
    else (none, port.setBaudrate gnssFastBaud) := by
  rfl

theorem sendPmtk_pmtk251 (port : Port) (h : 20 ≤ capacity) : port.sendPmtk capacity pmtk251 =
    { port with written := port.written ++ [(port.baud, raiseLine)] } := by
  rw [sendPmtk, pmtkLine_eq, if_pos (show pmtk251.length + 6 ≤ capacity from h)]
  rfl

/-- The port is left at the rate that is returned. -/
theorem establishLink_eq (port : Port) (before after : Air) :
    port.establishLink before after = (settledRate before after,
      ⟨settledRate before after, port.written ++ raiseRequests before⟩) := by
  have hne : gnssBaud ≠ gnssFastBaud := by decide
  rw [establishLink, probeBaud_eq, settledRate, raiseRequests]
  cases awaitNmea (before gnssBaud) with
  | true =>
    simp only [if_true, if_neg hne, sendPmtk_pmtk251 _ (show 20 ≤ pmtkCapacity by decide),
      probeBaud_eq]
    cases awaitNmea (after gnssBaud) with
    | true => rfl
    | false => cases awaitNmea (after gnssFastBaud) <;> rfl
  | false =>
    rw [if_neg Bool.false_ne_true, if_neg Bool.false_ne_true, if_neg Bool.false_ne_true,
      List.append_nil]
    cases awaitNmea (before gnssFastBaud) <;> rfl

theorem followBaud_eq (port : Port) (air : Air) :
    port.followBaud air = ((port.probeBaud air).1,
      ⟨(port.probeBaud air).1.getD gnssBaud, port.written⟩) := by
  rw [followBaud, probeBaud_eq]
  cases awaitNmea (air gnssBaud) with
  | true => rfl
  | false => cases awaitNmea (air gnssFastBaud) <;> rfl

theorem foldl_sendPmtk (port : Port) {cmds : List (List UInt8)}
    (h : ∀ cmd ∈ cmds, cmd.length + 6 ≤ capacity) :
    cmds.foldl (fun port cmd => port.sendPmtk capacity cmd) port = ⟨port.baud, port.written ++
      cmds.map fun cmd => (port.baud, pmtkSentence cmd ++ [carriageReturn, lineFeed])⟩ := by
  induction cmds generalizing port with
  | nil => rw [List.foldl_nil, List.map_nil, List.append_nil]
  | cons cmd cmds ih =>
    have hsend : port.sendPmtk capacity cmd = ⟨port.baud, port.written ++
        [(port.baud, pmtkSentence cmd ++ [carriageReturn, lineFeed])]⟩ := by
      rw [sendPmtk, pmtkLine_eq, if_pos (h cmd (List.mem_cons_self ..))]
    rw [List.foldl_cons, hsend, ih _ fun c hc => h c (List.mem_cons_of_mem cmd hc),
      List.append_assoc]
    rfl

/-- The configuration goes out whole, command by command. -/
theorem configTask_eq (port : Port) : port.configTask = ⟨port.baud, port.written ++
    pmtkInit.map fun cmd => (port.baud, pmtkSentence cmd ++ [carriageReturn, lineFeed])⟩ :=
  foldl_sendPmtk port (by decide)

/-- Whatever is heard, the port is left at the rate that is returned, and at the fast one only after
a sentence was framed at it; a receiver that talks at one of the two rates, and keeps to it or
takes the command, is followed to the rate it ends at. -/
theorem establishLink_follows (port : Port) (before after : Air) :
    (port.establishLink before after).2.baud = (port.establishLink before after).1 ∧
    ((port.establishLink before after).1 = gnssFastBaud →
      Framed (heardBytes (before gnssFastBaud)) ∨ Framed (heardBytes (after gnssFastBaud))) ∧
    (∀ rate rate', rate = gnssBaud ∨ rate = gnssFastBaud → rate' = gnssBaud ∨ rate' = gnssFastBaud →
      Talks before rate → Talks after rate' →
      (port.establishLink before after).1 = if rate = gnssBaud then rate' else rate) ∧
    ∀ baud line, (baud, line) ∈ (port.establishLink before after).2.written →
      (baud, line) ∈ port.written ∨ Framed (heardBytes (before gnssBaud)) ∧ baud = gnssBaud ∧
        nmeaChecksumValid line = true := by
  rw [establishLink_eq]
  refine ⟨rfl, ?_, ?_, ?_⟩
  · intro hfast
    have hne : gnssBaud ≠ gnssFastBaud := by decide
    rw [← awaitNmea_iff, ← awaitNmea_iff]
    simp only [settledRate] at hfast
    split at hfast
    · split at hfast
      · exact absurd hfast hne
      · split at hfast
        · exact .inr ‹_›
        · exact absurd hfast hne
    · split at hfast
      · exact .inl ‹_›
      · exact absurd hfast hne
  · intro rate rate' hr hr' h h'
    exact settledRate_of_talks h h' hr hr'
  · intro baud line hmem
    rcases List.mem_append.1 hmem with hmem | hmem
    · exact .inl hmem
    · rw [raiseRequests] at hmem
      split at hmem
      · rename_i hheard
        cases List.mem_singleton.1 hmem
        exact .inr ⟨(awaitNmea_iff _).1 hheard, rfl, by decide⟩
      · cases hmem

/-- `$GP` and a carriage return at one rate, and a framing error at any other. -/
def airAt (rate : Nat) : Air := fun baud =>
  if baud = rate then [some ⟨[dollar, 0x47, 0x50, carriageReturn], Nat.le_of_ble_eq_true rfl⟩]
  else [none]

theorem talks_airAt (rate : Nat) : Talks (airAt rate) rate := by
  intro baud
  rw [← awaitNmea_iff, airAt]
  by_cases hb : baud = rate
  · rw [if_pos hb]
    exact iff_of_true (by decide) hb
  · rw [if_neg hb]
    exact iff_of_false (by decide) hb

theorem establishLink_follows_raised :
    ((Port.mk gnssBaud []).establishLink (airAt gnssBaud) (airAt gnssFastBaud)).1 =
      gnssFastBaud := by
  obtain ⟨-, -, hfollows, -⟩ :=
    establishLink_follows ⟨gnssBaud, []⟩ (airAt gnssBaud) (airAt gnssFastBaud)
  rw [hfollows gnssBaud gnssFastBaud (.inl rfl) (.inr rfl) (talks_airAt _) (talks_airAt _),
    if_pos rfl]

end Port

end PicoGnss
