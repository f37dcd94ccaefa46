import Mathlib.Data.Vector.Basic
import PicoGnss.Lib.Bytes
import PicoGnss.Lib.Crc
import PicoGnss.Lib.OnesComplement

namespace PicoGnss
set_option autoImplicit true

open Bytes OnesComplement

def ethernetHeaderLen : Nat := 14
def ipv4HeaderLen : Nat := 20
def udpHeaderLen : Nat := 8
def fcsLen : Nat := 4
def minEthernetPayload : Nat := 46

def ethertypeIpv4 : UInt16 := 0x0800
def ipProtoUdp : UInt8 := 17

structure MacAddr where
  octets : Vector UInt8 6
deriving DecidableEq

structure Ipv4Addr where
  octets : Vector UInt8 4
deriving DecidableEq

structure UdpFrameSpec where
  srcMac : MacAddr
  dstMac : MacAddr
  srcIp : Ipv4Addr
  dstIp : Ipv4Addr
  srcPort : UInt16
  dstPort : UInt16
  ipId : UInt16
  ttl : UInt8
  payload : List UInt8
deriving DecidableEq

def crc32Poly : BitVec 32 := 0xEDB88320

def crc32TableEntry (i : BitVec 32) : BitVec 32 :=
  (List.range 8).foldl (fun c _ => if c &&& 1 ≠ 0 then (c >>> 1) ^^^ crc32Poly else c >>> 1) i

def crc32Table : Vector (BitVec 32) 256 := .ofFn fun i => crc32TableEntry (.ofNat 32 i)

theorem low_byte_lt (x : BitVec 32) : (x &&& 0xFF).toNat < 256 := by
  rw [BitVec.toNat_and]
  exact Nat.lt_of_le_of_lt Nat.and_le_right (by decide)

def crc32Step (crc : BitVec 32) (byte : UInt8) : BitVec 32 :=
  crc32Table.get ⟨((crc ^^^ byte.toBitVec.setWidth 32) &&& 0xFF).toNat, low_byte_lt _⟩ ^^^ crc >>> 8

def crc32 (data : List UInt8) : BitVec 32 := ~~~ data.foldl crc32Step 0xFFFFFFFF

/-- A `u32` sum, `none` where it overflows. -/
def addU32 (a b : Nat) : Option Nat := if a + b < 0x100000000 then some (a + b) else none

def sumChunks (sum : Nat) : List UInt8 → Option Nat
  | a :: b :: rest => do sumChunks (← addU32 sum (a.toNat * 256 + b.toNat)) rest
  | [last] => addU32 sum (last.toNat * 256)
  | [] => some sum

def foldCarries (sum : Nat) : Option Nat :=
  if sum >>> 16 ≠ 0 then
    if (sum &&& 0xFFFF) + sum >>> 16 < 0x100000000 then foldCarries ((sum &&& 0xFFFF) + sum >>> 16)
    else none
  else some sum
termination_by sum
decreasing_by
  have hand : sum &&& 0xFFFF = sum % 2 ^ 16 := Nat.and_two_pow_sub_one_eq_mod sum 16
  rw [Nat.shiftRight_eq_div_pow] at *
  omega

def onesComplementChecksum (data : List UInt8) (initial : Nat) : Option UInt16 := do
  let sum ← sumChunks initial data
  let sum ← foldCarries sum
  pure (~~~ UInt16.ofNat sum)

def frameLen (payloadLen : Nat) : Nat :=
  let ipTotal := ipv4HeaderLen + udpHeaderLen + payloadLen
  let ethPayload := if ipTotal < minEthernetPayload then minEthernetPayload else ipTotal
  ethernetHeaderLen + ethPayload + fcsLen

def writeEthernet (spec : UdpFrameSpec) (out : List UInt8) : List UInt8 :=
  let out := splice out 0 spec.dstMac.octets.toList
  let out := splice out 6 spec.srcMac.octets.toList
  splice out 12 (be 2 ethertypeIpv4.toNat)

def writeIpv4 (spec : UdpFrameSpec) (ipTotal : Nat) (out : List UInt8) : Option (List UInt8) := do
  let ip := ethernetHeaderLen
  let out := splice out ip [0x45]
  let out := splice out (ip + 1) [0]
  let out := splice out (ip + 2) (be 2 (UInt16.ofNat ipTotal).toNat)
  let out := splice out (ip + 4) (be 2 spec.ipId.toNat)
  let out := splice out (ip + 6) (be 2 0)
  let out := splice out (ip + 8) [spec.ttl]
  let out := splice out (ip + 9) [ipProtoUdp]
  let out := splice out (ip + 10) (be 2 0)
  let out := splice out (ip + 12) spec.srcIp.octets.toList
  let out := splice out (ip + 16) spec.dstIp.octets.toList
  let ipCk ← onesComplementChecksum (slice out ip (ip + ipv4HeaderLen)) 0
  pure (splice out (ip + 10) (be 2 ipCk.toNat))

/-- The pre-summed source, destination, protocol and length of the UDP checksum. -/
def pseudoHeaderSum (spec : UdpFrameSpec) (udpLen : Nat) : Option Nat := do
  let pseudo ← sumChunks 0 spec.srcIp.octets.toList
  let pseudo ← sumChunks pseudo spec.dstIp.octets.toList
  addU32 pseudo (← addU32 ipProtoUdp.toNat (udpLen % 2 ^ 32))

def writeUdp (spec : UdpFrameSpec) (udpLen : Nat) (out : List UInt8) : Option (List UInt8) := do
  let udp := ethernetHeaderLen + ipv4HeaderLen
  let out := splice out udp (be 2 spec.srcPort.toNat)
  let out := splice out (udp + 2) (be 2 spec.dstPort.toNat)
  let out := splice out (udp + 4) (be 2 (UInt16.ofNat udpLen).toNat)
  let out := splice out (udp + 6) (be 2 0)
  let out := splice out (udp + udpHeaderLen) spec.payload
  let pseudo ← pseudoHeaderSum spec udpLen
  let udpCk ← onesComplementChecksum (slice out udp (udp + udpLen)) pseudo
  let udpCk := if udpCk = 0 then 0xFFFF else udpCk
  pure (splice out (udp + 6) (be 2 udpCk.toNat))

def writeFcs (total : Nat) (out : List UInt8) : List UInt8 :=
  let fcs := crc32 (out.take (total - fcsLen))
  splice out (total - fcsLen) (le 4 fcs.toNat)

/-- The returned length and the buffer afterwards; `none` is an arithmetic overflow. -/
def buildUdpFrame (spec : UdpFrameSpec) (out : List UInt8) :
    Option (Option Nat × List UInt8) :=
  let udpLen := udpHeaderLen + spec.payload.length
  let ipTotal := ipv4HeaderLen + udpLen
  let total := frameLen spec.payload.length
  if out.length < total ∨ ipTotal > 65535 then some (none, out)
  else do
    let frame := writeEthernet spec (List.replicate total 0)
    let frame ← writeIpv4 spec ipTotal frame
    let frame ← writeUdp spec udpLen frame
    pure (some total, writeFcs total frame ++ out.drop total)

theorem shift_eq (c : BitVec 32) :
    (if c &&& 1 ≠ 0 then (c >>> 1) ^^^ crc32Poly else c >>> 1) = Crc.shift crc32Poly c := by
  have h : c &&& 1 = (BitVec.ofBool (c.getLsbD 0)).setWidth 32 :=
    BitVec.and_one_eq_setWidth_ofBool_getLsbD
  rw [h, Crc.shift]
  cases c.getLsbD 0 <;> rfl

theorem crc32TableEntry_eq (i : BitVec 32) : crc32TableEntry i = Crc.shifts crc32Poly 8 i := by
  simp only [crc32TableEntry, shift_eq]
  rfl

theorem ofBits_bits (b : UInt8) : (Crc.ofBits (bits b) : BitVec 32) = b.toBitVec.setWidth 32 := by
  apply BitVec.eq_of_getLsbD_eq
  intro i hi
  rw [Crc.getLsbD_ofBits, BitVec.getLsbD_setWidth, getD_bits]

/-- One table step takes the eight bits of a byte into the register. -/
theorem crc32Step_eq (crc : BitVec 32) (byte : UInt8) :
    crc32Step crc byte = Crc.feed crc32Poly crc (bits byte) := by
  let x := crc ^^^ byte.toBitVec.setWidth 32
  have htable : crc32Table.get ⟨(x &&& 0xFF).toNat, low_byte_lt x⟩ =
      Crc.shifts crc32Poly 8 (x &&& 0xFF) := by
    have hget : crc32Table.get ⟨(x &&& 0xFF).toNat, low_byte_lt x⟩ =
        crc32TableEntry (.ofNat 32 (x &&& 0xFF).toNat) := Vector.getElem_ofFn _
    rw [hget, BitVec.ofNat_toNat, BitVec.setWidth_eq, crc32TableEntry_eq]
  have hhigh : x >>> 8 = crc >>> 8 := by
    apply BitVec.eq_of_getLsbD_eq
    intro i hi
    have hb : byte.toBitVec.getLsbD (8 + i) = false := BitVec.getLsbD_of_ge _ _ (by omega)
    rw [BitVec.getLsbD_ushiftRight, BitVec.getLsbD_xor, BitVec.getLsbD_setWidth, hb,
      BitVec.getLsbD_ushiftRight, Bool.and_false, Bool.xor_false]
  have hlow : ∀ i < 32, (x &&& 0xFF).getLsbD i = (decide (i < 8) && x.getLsbD i) := by
    intro i hi
    have hmask : (0xFF : BitVec 32).getLsbD i = decide (i < 8) := by
      revert i
      decide
    rw [BitVec.getLsbD_and, hmask, Bool.and_comm]
  calc crc32Step crc byte
      = Crc.shifts crc32Poly 8 (x &&& 0xFF) ^^^ x >>> 8 := by rw [hhigh, ← htable]; rfl
    _ = Crc.feed crc32Poly crc (bits byte) := by
      rw [← Crc.shifts_eq_low crc32Poly x _ hlow, Crc.feed_eq_shifts _ _ _ (by decide : 8 ≤ 32),
        ofBits_bits]
      rfl

/-- The table-driven check is the bitwise one. -/
theorem crc32_eq_feed (data : List UInt8) :
    crc32 data = ~~~ Crc.feed crc32Poly 0xFFFFFFFF (data.flatMap bits) := by
  have h : ∀ crc, data.foldl crc32Step crc = Crc.feed crc32Poly crc (data.flatMap bits) := by
    induction data with
    | nil => intro crc; rfl
    | cons b data ih =>
      intro crc
      rw [List.foldl_cons, ih, crc32Step_eq, List.flatMap_cons, Crc.feed_append]
  rw [crc32, h]

/-- The trailer of a check is the check, bit by bit. -/
theorem ofBits_le (x : BitVec 32) : (Crc.ofBits ((le 4 x.toNat).flatMap bits) : BitVec 32) = x := by
  apply BitVec.eq_of_getLsbD_eq
  intro i hi
  rw [Crc.getLsbD_ofBits, getD_bits_le, decide_eq_true hi]
  rfl

/-- The table-driven check is the bitwise one, and with its own check behind it whatever is checked
gives the same residue. -/
theorem crc32_bitwise_residue (data : List UInt8) :
    crc32 data = ~~~ Crc.feed crc32Poly 0xFFFFFFFF (data.flatMap bits) ∧
      crc32 (data ++ le 4 (crc32 data).toNat) = 0x2144DF1C := by
  have hlen : ((le 4 (crc32 data).toNat).flatMap bits).length = 32 := by
    rw [length_flatMap_bits, length_le]
  have hcheck : Crc.ofBits ((le 4 (crc32 data).toNat).flatMap bits) =
      ~~~ Crc.feed crc32Poly 0xFFFFFFFF (data.flatMap bits) := by
    rw [ofBits_le, crc32_eq_feed]
  refine ⟨crc32_eq_feed data, ?_⟩
  rw [crc32_eq_feed, List.flatMap_append, Crc.feed_append,
    Crc.feed_complement crc32Poly _ _ hlen hcheck]
  decide +kernel

theorem addU32_of_lt (h : a + b < 0x100000000) : addU32 a b = some (a + b) := if_pos h

theorem sumChunks_eq (data : List UInt8) (h : sum + (words data).sum < 0x100000000) :
    sumChunks sum data = some (sum + (words data).sum) := by
  induction data using words.induct generalizing sum with
  | case1 a b rest ih =>
    simp only [words, List.sum_cons] at h ⊢
    have hab : sum + (a.toNat * 256 + b.toNat) < 0x100000000 := by
      refine Nat.lt_of_le_of_lt ?_ h
      omega
    rw [sumChunks, addU32_of_lt hab, Option.bind_eq_bind, Option.bind_some, ih (by omega),
      Nat.add_assoc]
  | case2 a =>
    simp only [words, List.sum_cons, List.sum_nil, Nat.add_zero] at h ⊢
    exact addU32_of_lt h
  | case3 => rfl

theorem foldCarries_folds (sum : Nat) (h : sum < 0x100000000) :
    ∃ r, foldCarries sum = some r ∧ Folds 65535 r sum := by
  have hand : sum &&& 0xFFFF = sum % 65536 := Nat.and_two_pow_sub_one_eq_mod sum 16
  have hshift : sum >>> 16 = sum / 65536 := Nat.shiftRight_eq_div_pow sum 16
  induction sum using Nat.strongRecOn with
  | ind sum ih =>
    rw [foldCarries]
    by_cases hc : sum >>> 16 = 0
    · rw [if_neg (not_not.2 hc)]
      exact ⟨sum, rfl, Folds.self (by omega)⟩
    · rw [if_pos hc, if_pos (by omega), hand, hshift]
      obtain ⟨r, hr, hf⟩ := ih (sum % 65536 + sum / 65536) (by omega) (by omega)
        (Nat.and_two_pow_sub_one_eq_mod _ 16) (Nat.shiftRight_eq_div_pow _ 16)
      exact ⟨r, hr, hf.le, by have := hf.congr; omega, by have := hf.zero; omega⟩

/-- The checksum is the complement of the folded sum, and nothing overflows. -/
theorem onesComplementChecksum_folds (data : List UInt8) (initial : Nat)
    (h : initial + (words data).sum < 0x100000000) :
    ∃ r, Folds 65535 r (initial + (words data).sum) ∧
      onesComplementChecksum data initial = some (.ofNat (65535 - r)) := by
  obtain ⟨r, hr, hf⟩ := foldCarries_folds _ h
  have hcompl : ~~~ UInt16.ofNat r = .ofNat (65535 - r) := by
    have hle := hf.le
    apply UInt16.toNat_inj.1
    simp only [UInt16.toNat_not, UInt16.toNat_ofNat', UInt16.size]
    omega
  refine ⟨r, hf, ?_⟩
  rw [onesComplementChecksum, sumChunks_eq data h, Option.bind_eq_bind, Option.bind_some, hr,
    Option.bind_some, hcompl]
  rfl

end PicoGnss
