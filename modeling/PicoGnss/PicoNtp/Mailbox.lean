import Mathlib.Logic.Relation
import PicoGnss.Lib.Cells
import PicoGnss.PicoNtp.Service

/-! The mailbox that a debug probe and the firmware share, and the two programs at its ends. -/

namespace PicoGnss
set_option autoImplicit true

open FixedWidth Bytes

/-- The words of the two timestamps and of `silent` follow one another in `stamps`. -/
structure Mailbox where
  doorbell : UInt32
  done : UInt32
  stamps : Nat → UInt32
  request : Nat → UInt8
  reply : Nat → UInt8

def Mailbox.boot : Mailbox where
  doorbell := 0
  done := 0
  stamps := fun _ => 0
  request := fun _ => 0
  reply := fun _ => 0

/-- The place of `silent` among the words. -/
def silentWord : Nat := 4

def lowWord (x : Int) : UInt32 := .ofNat (x % 4294967296).toNat

def highWord (x : Int) : UInt32 := .ofNat (x / 4294967296 % 4294967296).toNat

/-- `read_word_64`, as a signed value. -/
def i64OfWords (low high : UInt32) : Int := asI64 (high.toNat * 4294967296 + low.toNat)

def SilentReason.toU32 : SilentReason → UInt32
  | noEpoch => 0
  | frequencyUnlocked => 1
  | holdoverExceeded => 2
  | tooDeep => 3
  | notARequest => 4
  | unsupportedVersion => 5
  | upstreamUnsynchronised => 6

structure SwdAnswer where
  reply : List UInt8
  recvUnixNs : Int
  xmitUnixNs : Int
deriving DecidableEq

/-- What one pass of the firmware works with: how many exchanges had been started when it read the
doorbell, the bytes it then read, and what the clock said as it asked. -/
structure SwdPass where
  number : Nat
  request : List UInt8
  state : ClockState
  recvUnixNs : Int
  provisional : Option Int
  xmit : Option Int

namespace SwdPass

/-- The packet, or the word for having none. -/
def decision (p : SwdPass) : Except UInt32 NtpPacket :=
  match NtpPacket.decode p.request with
  | none => .error 4294967295
  | some request =>
    match respond ntpServerConfig p.state request p.recvUnixNs
        (p.provisional.getD p.recvUnixNs) with
    | .serve packet => .ok packet
    | .silent reason => .error (reason.toU32 + 1)

def silent (p : SwdPass) : UInt32 :=
  match p.decision with
  | .ok _ => 0
  | .error code => code

def xmitUnixNs (p : SwdPass) : Int :=
  match p.decision with
  | .ok _ => p.xmit.getD p.recvUnixNs
  | .error _ => p.recvUnixNs

def reply (p : SwdPass) : Option (List UInt8) :=
  match p.decision with
  | .ok packet =>
    some (splice packet.encode 40 (be 8 (NtpTimestamp.fromUnixNs p.xmitUnixNs).toBits.toNat))
  | .error _ => none

def stamps (p : SwdPass) : List UInt32 :=
  [lowWord p.recvUnixNs, highWord p.recvUnixNs, lowWord p.xmitUnixNs, highWord p.xmitUnixNs,
    p.silent]

def answer (p : SwdPass) : Option SwdAnswer :=
  p.reply.map fun reply => ⟨reply, p.recvUnixNs, p.xmitUnixNs⟩

end SwdPass

/-- Where the host is in `exchange`, with what it holds so far. -/
inductive SwdHost where
  | idle
  | writing (request : List UInt8) (i : Nat)
  | waiting (request : List UInt8)
  | seen (request : List UInt8)
  | reading (request got : List UInt8)
  | stamping (request reply : List UInt8) (got : List UInt32)

/-- Where the firmware is in a pass of `swd_rx_task`. -/
inductive SwdFirmware where
  | polling
  | rung (doorbell : UInt32)
  | receiving (doorbell : UInt32) (state : ClockState) (recvUnixNs : Int) (got : List UInt8)
  | replying (doorbell : UInt32) (p : SwdPass) (i : Nat)
  | stamping (doorbell : UInt32) (p : SwdPass) (i : Nat)

/-- An exchange that returned without timing out. -/
structure SwdExchange where
  number : Nat
  request : List UInt8
  outcome : Option SwdAnswer

/-- Both programs, what they share, and what has happened so far: the exchanges started, how many
of them when the present pass read the doorbell, the passes completed and the results returned. -/
structure SwdState where
  mailbox : Mailbox
  seq : UInt32
  host : SwdHost
  firmware : SwdFirmware
  started : Nat
  passNumber : Nat
  passes : List SwdPass
  results : List SwdExchange

def SwdState.boot : SwdState where
  mailbox := .boot
  seq := 0
  host := .idle
  firmware := .polling
  started := 0
  passNumber := 0
  passes := []
  results := []

/-- The host, one access of the mailbox at a time. -/
inductive HostStep (s : SwdState) : SwdState → Prop where
  | attach : s.host = .idle → HostStep s { s with seq := s.mailbox.doorbell }
  | receive : s.host = .idle → request.length = packetLen →
      HostStep s { s with host := .writing request 0 }
  | write : s.host = .writing request i → request[i]? = some b →
      HostStep s { s with
        mailbox := { s.mailbox with request := Function.update s.mailbox.request i b }
        host := .writing request (i + 1) }
  | ring : s.host = .writing request packetLen →
      HostStep s { s with
        mailbox := { s.mailbox with doorbell := s.seq + 1 }
        seq := s.seq + 1
        host := .waiting request
        started := s.started + 1 }
  | timeOut : s.host = .waiting request → s.mailbox.done ≠ s.seq →
      HostStep s { s with host := .idle }
  | see : s.host = .waiting request → s.mailbox.done = s.seq →
      HostStep s { s with host := .seen request }
  | declined : s.host = .seen request → s.mailbox.stamps silentWord ≠ 0 →
      HostStep s { s with host := .idle, results := ⟨s.started, request, none⟩ :: s.results }
  | served : s.host = .seen request → s.mailbox.stamps silentWord = 0 →
      HostStep s { s with host := .reading request [] }
  | read : s.host = .reading request got → got.length < packetLen →
      HostStep s { s with host := .reading request (got ++ [s.mailbox.reply got.length]) }
  | readAll : s.host = .reading request got → got.length = packetLen →
      HostStep s { s with host := .stamping request got [] }
  | stamp : s.host = .stamping request reply got → got.length < silentWord →
      HostStep s { s with
        host := .stamping request reply (got ++ [s.mailbox.stamps got.length]) }
  | finish : s.host = .stamping request reply [r, r', x, x'] →
      HostStep s { s with
        host := .idle
        results := ⟨s.started, request, some ⟨reply, i64OfWords r r', i64OfWords x x'⟩⟩ ::
          s.results }

/-- The firmware likewise; what the clock says is any word. -/
inductive FirmwareStep (s : SwdState) : SwdState → Prop where
  | poll : s.firmware = .polling →
      FirmwareStep s { s with firmware := .rung s.mailbox.doorbell, passNumber := s.started }
  | idle : s.firmware = .rung d → d = s.mailbox.done →
      FirmwareStep s { s with firmware := .polling }
  | see (state : ClockState) : s.firmware = .rung d → d ≠ s.mailbox.done → InI64 recv →
      FirmwareStep s { s with firmware := .receiving d state recv [] }
  | receive : s.firmware = .receiving d state recv got → got.length < packetLen →
      FirmwareStep s { s with
        firmware := .receiving d state recv (got ++ [s.mailbox.request got.length]) }
  | decide : s.firmware = .receiving d state recv got → got.length = packetLen →
      (∀ t ∈ xmit, InI64 t) →
      FirmwareStep s { s with
        firmware := .replying d ⟨s.passNumber, got, state, recv, provisional, xmit⟩ 0 }
  | reply : s.firmware = .replying d p i → p.reply = some bytes → bytes[i]? = some b →
      FirmwareStep s { s with
        mailbox := { s.mailbox with reply := Function.update s.mailbox.reply i b }
        firmware := .replying d p (i + 1) }
  | replied : s.firmware = .replying d p i → (∀ bytes ∈ p.reply, i = bytes.length) →
      FirmwareStep s { s with firmware := .stamping d p 0 }
  | stamp : s.firmware = .stamping d p i → p.stamps[i]? = some w →
      FirmwareStep s { s with
        mailbox := { s.mailbox with stamps := Function.update s.mailbox.stamps i w }
        firmware := .stamping d p (i + 1) }
  | done : s.firmware = .stamping d p p.stamps.length →
      FirmwareStep s { s with
        mailbox := { s.mailbox with done := d }
        firmware := .polling
        passes := p :: s.passes }

/-- Either program takes a step, or the target is reset between two exchanges. -/
inductive SwdStep (s : SwdState) : SwdState → Prop where
  | host : HostStep s s' → SwdStep s s'
  | firmware : FirmwareStep s s' → SwdStep s s'
  | reset : s.host = .idle →
      SwdStep s { s with mailbox := .boot, firmware := .polling, passNumber := s.started }

/-- The states of the runs whose steps all meet a condition. -/
def SwdState.Reachable (ok : SwdState → SwdState → Prop) : SwdState → Prop :=
  Relation.ReflTransGen (fun s s' => SwdStep s s' ∧ ok s s') .boot

/-- Fewer exchanges have been started in the present pass than there are sequence numbers. -/
def FewPerPass (s : SwdState) : Prop := s.started - s.passNumber < 4294967296

/-- No exchange takes the sequence number that the last one answered has left in `done`. -/
def NotHeld (s s' : SwdState) : Prop := s.started < s'.started → s'.seq ≠ s.mailbox.done

/-- The exchange returned what this pass made of its whole request, or was declined by it. -/
structure SwdExchange.MadeBy (x : SwdExchange) (p : SwdPass) : Prop where
  number : p.number = x.number
  length : x.request.length = packetLen
  request : p.request = x.request
  outcome : x.outcome = p.answer

end PicoGnss
