import Mathlib.Data.Vector.Basic
import PicoGnss.Lib.Bytes
import PicoGnss.TinyNtp.Timestamp

namespace PicoGnss
set_option autoImplicit true

open Bytes

def packetLen : Nat := 48

inductive LeapIndicator where
  | noWarning
  | lastMinute61
  | lastMinute59
  | unsynchronized
deriving DecidableEq

inductive Mode where
  | reserved
  | symmetricActive
  | symmetricPassive
  | client
  | server
  | broadcast
  | controlMessage
  | privateUse
deriving DecidableEq

def LeapIndicator.toU8 : LeapIndicator → UInt8
  | noWarning => 0
  | lastMinute61 => 1
  | lastMinute59 => 2
  | unsynchronized => 3

def LeapIndicator.fromBits (bits : UInt8) : LeapIndicator :=
  match (bits &&& 0b11).toNat with
  | 0 => noWarning
  | 1 => lastMinute61
  | 2 => lastMinute59
  | _ => unsynchronized

def Mode.toU8 : Mode → UInt8
  | reserved => 0
  | symmetricActive => 1
  | symmetricPassive => 2
  | client => 3
  | server => 4
  | broadcast => 5
  | controlMessage => 6
  | privateUse => 7

def Mode.fromBits (bits : UInt8) : Mode :=
  match (bits &&& 0b111).toNat with
  | 0 => reserved
  | 1 => symmetricActive
  | 2 => symmetricPassive
  | 3 => client
  | 4 => server
  | 5 => broadcast
  | 6 => controlMessage
  | _ => privateUse

structure NtpPacket where
  leap : LeapIndicator
  version : UInt8
  mode : Mode
  stratum : UInt8
  poll : Int8
  precision : Int8
  rootDelay : NtpShort
  rootDispersion : NtpShort
  referenceId : Vector UInt8 4
  referenceTimestamp : NtpTimestamp
  originTimestamp : NtpTimestamp
  receiveTimestamp : NtpTimestamp
  transmitTimestamp : NtpTimestamp
deriving DecidableEq

def leadByte (leap : LeapIndicator) (version : UInt8) (mode : Mode) : UInt8 :=
  leap.toU8 <<< 6 ||| (version &&& 0b111) <<< 3 ||| mode.toU8

def NtpPacket.encode (p : NtpPacket) : List UInt8 :=
  let b := List.replicate packetLen 0
  let b := splice b 0 [leadByte p.leap p.version p.mode]
  let b := splice b 1 [p.stratum]
  let b := splice b 2 [p.poll.toUInt8]
  let b := splice b 3 [p.precision.toUInt8]
  let b := splice b 4 (be 4 p.rootDelay.bits.toNat)
  let b := splice b 8 (be 4 p.rootDispersion.bits.toNat)
  let b := splice b 12 p.referenceId.toList
  let b := splice b 16 (be 8 p.referenceTimestamp.toBits.toNat)
  let b := splice b 24 (be 8 p.originTimestamp.toBits.toNat)
  let b := splice b 32 (be 8 p.receiveTimestamp.toBits.toNat)
  splice b 40 (be 8 p.transmitTimestamp.toBits.toNat)

def byteAt (buf : List UInt8) (i : Nat) : UInt8 := buf.getD i 0

def shortAt (buf : List UInt8) (i : Nat) : NtpShort := ⟨.ofNat (ofBe (slice buf i (i + 4)))⟩

def timestampAt (buf : List UInt8) (i : Nat) : NtpTimestamp :=
  .fromBits (.ofNat (ofBe (slice buf i (i + 8))))

def NtpPacket.decode (buf : List UInt8) : Option NtpPacket :=
  if buf.length < packetLen then none
  else some
    { leap := .fromBits (byteAt buf 0 >>> 6)
      version := (byteAt buf 0 >>> 3) &&& 0b111
      mode := .fromBits (byteAt buf 0)
      stratum := byteAt buf 1
      poll := (byteAt buf 2).toInt8
      precision := (byteAt buf 3).toInt8
      rootDelay := shortAt buf 4
      rootDispersion := shortAt buf 8
      referenceId := .ofFn fun i => byteAt (slice buf 12 16) i
      referenceTimestamp := timestampAt buf 16
      originTimestamp := timestampAt buf 24
      receiveTimestamp := timestampAt buf 32
      transmitTimestamp := timestampAt buf 40 }

theorem leadByte_fields (leap : LeapIndicator) (version : UInt8) (mode : Mode)
    (h : version.toNat < 8) :
    LeapIndicator.fromBits (leadByte leap version mode >>> 6) = leap ∧
      (leadByte leap version mode >>> 3) &&& 0b111 = version ∧
      Mode.fromBits (leadByte leap version mode) = mode := by
  obtain ⟨v, rfl⟩ : ∃ v : Fin 8, version = .ofNat v := ⟨⟨version.toNat, h⟩, by simp⟩
  clear h
  cases leap <;> cases mode <;> revert v <;> decide

/-- The header fields in wire order. -/
def NtpPacket.wire (p : NtpPacket) : List UInt8 :=
  [leadByte p.leap p.version p.mode, p.stratum, p.poll.toUInt8, p.precision.toUInt8] ++
    (be 4 p.rootDelay.bits.toNat ++ (be 4 p.rootDispersion.bits.toNat ++
      (p.referenceId.toList ++ (be 8 p.referenceTimestamp.toBits.toNat ++
        (be 8 p.originTimestamp.toBits.toNat ++ (be 8 p.receiveTimestamp.toBits.toNat ++
          (be 8 p.transmitTimestamp.toBits.toNat ++ [])))))))

theorem NtpPacket.encode_eq (p : NtpPacket) : p.encode = p.wire := by
  have hblank : List.replicate packetLen (0 : UInt8) =
      [] ++ List.replicate (1 + (1 + (1 + (1 + (4 + (4 + (4 + (8 + (8 + (8 + (8 + 0)))))))))))  0 :=
    rfl
  simp only [encode, hblank]
  repeat rw [splice_blank (by simp) (by simp)]
  simp [wire]

theorem NtpPacket.length_wire (p : NtpPacket) : p.wire.length = packetLen := by
  simp [wire, packetLen]

theorem u32_be (x : UInt32) : UInt32.ofNat (ofBe (be 4 x.toNat)) = x := by
  have hx : x.toNat < 256 ^ 4 := x.toNat_lt
  rw [ofBe_be, Nat.mod_eq_of_lt hx, UInt32.ofNat_toNat]

theorem timestamp_be (t : NtpTimestamp) :
    NtpTimestamp.fromBits (.ofNat (ofBe (be 8 t.toBits.toNat))) = t := by
  have ht : t.toBits.toNat < 256 ^ 8 := t.toBits.toNat_lt
  rw [ofBe_be, Nat.mod_eq_of_lt ht, UInt64.ofNat_toNat, NtpTimestamp.fromBits_toBits]

theorem ofFn_byteAt (v : Vector UInt8 n) : Vector.ofFn (fun i => byteAt v.toList i) = v := by
  apply Vector.ext
  intro i hi
  simp [byteAt]

theorem NtpPacket.decode_encode (p : NtpPacket) (h : p.version.toNat < 8) :
    decode p.encode = some p := by
  obtain ⟨hleap, hversion, hmode⟩ := leadByte_fields p.leap p.version p.mode h
  have hlead : byteAt p.wire 0 = leadByte p.leap p.version p.mode := rfl
  have hstratum : byteAt p.wire 1 = p.stratum := rfl
  have hpoll : (byteAt p.wire 2).toInt8 = p.poll := rfl
  have hprecision : (byteAt p.wire 3).toInt8 = p.precision := rfl
  rw [encode_eq, decode, if_neg (by rw [length_wire]; exact Nat.lt_irrefl _)]
  simp only [hlead, hstratum, hpoll, hprecision, hleap, hversion, hmode, shortAt, timestampAt]
  simp only [wire, slice_right, slice_left, length_be, List.length_cons, List.length_nil,
    Vector.length_toList, Nat.reduceAdd, Nat.reduceLeDiff, Nat.reduceSub, u32_be, timestamp_be,
    ofFn_byteAt]

theorem leadByte_fromBits (b : UInt8) :
    leadByte (.fromBits (b >>> 6)) ((b >>> 3) &&& 0b111) (.fromBits b) = b := by
  obtain ⟨v, rfl⟩ : ∃ v : Fin 256, b = .ofNat v := ⟨⟨b.toNat, b.toNat_lt⟩, by simp⟩
  revert v
  decide +kernel

theorem version_lt (b : UInt8) : ((b >>> 3) &&& 0b111).toNat < 8 := by
  rw [UInt8.toNat_and]
  exact Nat.lt_succ_of_le Nat.and_le_right

theorem slice_byteAt (h : i < buf.length) : slice buf i (i + 1) = [byteAt buf i] := by
  rw [slice, List.take_add_one, List.getElem?_eq_getElem h, List.drop_append,
    List.drop_of_length_le (by simp), List.nil_append, List.length_take, Nat.min_eq_left (by omega),
    Nat.sub_self, List.drop_zero, byteAt, ← List.getElem_eq_getD]
  rfl

theorem be_shortAt (h : i + 4 ≤ buf.length) :
    be 4 (shortAt buf i).bits.toNat = slice buf i (i + 4) := by
  have hlen : (slice buf i (i + 4)).length = 4 := by rw [length_slice h, Nat.add_sub_cancel_left]
  have hlt := ofBe_lt (slice buf i (i + 4))
  have hbe := be_ofBe (slice buf i (i + 4))
  rw [hlen] at hlt hbe
  rw [shortAt, UInt32.toNat_ofNat', Nat.mod_eq_of_lt (show _ < 2 ^ 32 from hlt), hbe]

theorem be_timestampAt (h : i + 8 ≤ buf.length) :
    be 8 (timestampAt buf i).toBits.toNat = slice buf i (i + 8) := by
  have hlen : (slice buf i (i + 8)).length = 8 := by rw [length_slice h, Nat.add_sub_cancel_left]
  have hlt := ofBe_lt (slice buf i (i + 8))
  have hbe := be_ofBe (slice buf i (i + 8))
  rw [hlen] at hlt hbe
  rw [timestampAt, NtpTimestamp.toBits_fromBits, UInt64.toNat_ofNat',
    Nat.mod_eq_of_lt (show _ < 2 ^ 64 from hlt), hbe]

theorem toList_ofFn_byteAt (h : l.length = n) :
    (Vector.ofFn fun i : Fin n => byteAt l i).toList = l := by
  apply List.ext_getElem
  · rw [Vector.length_toList, h]
  · intro i hi hi'
    simp [byteAt, hi']

/-- What decodes is, up to the header's length, the encoding of what it decodes to. -/
theorem NtpPacket.encode_decode (h : packetLen ≤ buf.length) :
    ∃ q, decode buf = some q ∧ q.version.toNat < 8 ∧ q.encode = buf.take packetLen := by
  have hlen : 48 ≤ buf.length := h
  refine ⟨_, if_neg (Nat.not_lt.2 h), version_lt _, ?_⟩
  have hid : (slice buf 12 16).length = 4 := length_slice (by omega) 12
  have hbytes : [byteAt buf 0, byteAt buf 1, byteAt buf 2, byteAt buf 3] = slice buf 0 4 := by
    have h0 : [byteAt buf 0] = slice buf 0 1 := (slice_byteAt (by omega)).symm
    have h1 : [byteAt buf 1] = slice buf 1 2 := (slice_byteAt (by omega)).symm
    have h2 : [byteAt buf 2] = slice buf 2 3 := (slice_byteAt (by omega)).symm
    have h3 : [byteAt buf 3] = slice buf 3 4 := (slice_byteAt (by omega)).symm
    calc [byteAt buf 0, byteAt buf 1, byteAt buf 2, byteAt buf 3]
        = [byteAt buf 0] ++ ([byteAt buf 1] ++ ([byteAt buf 2] ++ [byteAt buf 3])) := rfl
      _ = slice buf 0 4 := by
        rw [h0, h1, h2, h3]
        repeat rw [slice_append_slice (by decide) (by decide)]
  rw [encode_eq, wire]
  simp only [leadByte_fromBits, UInt8.toUInt8_toInt8, hbytes]
  rw [be_shortAt (by omega), be_shortAt (by omega), be_timestampAt (by omega),
    be_timestampAt (by omega), be_timestampAt (by omega), be_timestampAt (by omega),
    toList_ofFn_byteAt hid, List.append_nil]
  repeat rw [slice_append_slice (by decide) (by decide)]
  rw [slice, List.drop_zero]
  rfl

theorem NtpPacket.decode_eq_none_iff (buf : List UInt8) :
    decode buf = none ↔ buf.length < packetLen := by
  by_cases h : buf.length < packetLen
  · rw [decode, if_pos h]
    exact iff_of_true rfl h
  · rw [decode, if_neg h]
    exact iff_of_false nofun h

/-- The codec is a bijection between packets of a three-bit version and 48-octet strings. -/
theorem NtpPacket.codec_bijective :
    (∀ p : NtpPacket, p.version.toNat < 8 → decode p.encode = some p) ∧
    (∀ buf, packetLen ≤ buf.length →
      ∃ q, decode buf = some q ∧ q.version.toNat < 8 ∧ q.encode = buf.take packetLen ∧
        decode (buf.take packetLen) = some q) ∧
    ∀ buf, decode buf = none ↔ buf.length < packetLen := by
  refine ⟨decode_encode, fun buf h => ?_, decode_eq_none_iff⟩
  obtain ⟨q, hq, hversion, hencode⟩ := encode_decode h
  refine ⟨q, hq, hversion, hencode, ?_⟩
  rw [← hencode]
  exact decode_encode q hversion

end PicoGnss
