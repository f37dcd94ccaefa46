import PicoGnss.TenBaseT.FrameLayout

namespace PicoGnss
set_option autoImplicit true

open Bytes OnesComplement

def takeU8 : List UInt8 → Option (UInt8 × List UInt8)
  | a :: rest => some (a, rest)
  | [] => none

def takeU16 : List UInt8 → Option (UInt16 × List UInt8)
  | a :: b :: rest => some (.ofNat (ofBe [a, b]), rest)
  | _ => none

def takeVec (n : Nat) (l : List UInt8) : Option (Vector UInt8 n × List UInt8) :=
  if h : n ≤ l.length then
    some (⟨(l.take n).toArray, by rw [List.size_toArray, List.length_take_of_le h]⟩, l.drop n)
  else none

structure EthernetFrame where
  dstMac : MacAddr
  srcMac : MacAddr
  packet : List UInt8

structure Ipv4Packet where
  ipId : UInt16
  ttl : UInt8
  srcIp : Ipv4Addr
  dstIp : Ipv4Addr
  datagram : List UInt8

structure UdpDatagram where
  srcPort : UInt16
  dstPort : UInt16
  payload : List UInt8

def parseEthernet (frame : List UInt8) : Option EthernetFrame := do
  let (dstMac, r) ← takeVec 6 frame
  let (srcMac, r) ← takeVec 6 r
  let (etherType, packet) ← takeU16 r
  guard (etherType = 0x0800)
  pure { dstMac := ⟨dstMac⟩, srcMac := ⟨srcMac⟩, packet }

def parseIpv4 (packet : List UInt8) : Option Ipv4Packet := do
  let (versionIhl, r) ← takeU8 packet
  let headerLen := 4 * (versionIhl.toNat % 16)
  guard (versionIhl.toNat / 16 = 4 ∧ 20 ≤ headerLen)
  let (_, r) ← takeU8 r
  let (totalLen, r) ← takeU16 r
  guard (headerLen ≤ totalLen.toNat ∧ totalLen.toNat ≤ packet.length)
  let (ipId, r) ← takeU16 r
  let (fragment, r) ← takeU16 r
  guard (fragment = 0)
  let (ttl, r) ← takeU8 r
  let (protocol, r) ← takeU8 r
  guard (protocol = 17)
  let (_, r) ← takeU16 r
  let (srcIp, r) ← takeVec 4 r
  let (dstIp, _) ← takeVec 4 r
  pure { ipId, ttl, srcIp := ⟨srcIp⟩, dstIp := ⟨dstIp⟩,
         datagram := slice packet headerLen totalLen.toNat }

def parseUdp (datagram : List UInt8) : Option UdpDatagram := do
  let (srcPort, r) ← takeU16 datagram
  let (dstPort, r) ← takeU16 r
  let (udpLen, _) ← takeU16 r
  guard (8 ≤ udpLen.toNat ∧ udpLen.toNat ≤ datagram.length)
  pure { srcPort, dstPort, payload := slice datagram 8 udpLen.toNat }

/-- Read a frame by following its own length fields. -/
def parseUdpFrame (frame : List UInt8) : Option UdpFrameSpec := do
  let eth ← parseEthernet frame
  let ip ← parseIpv4 eth.packet
  let udp ← parseUdp ip.datagram
  pure { srcMac := eth.srcMac, dstMac := eth.dstMac, srcIp := ip.srcIp, dstIp := ip.dstIp,
         srcPort := udp.srcPort, dstPort := udp.dstPort, ipId := ip.ipId, ttl := ip.ttl,
         payload := udp.payload }

theorem takeVec_append (v : Vector UInt8 n) (rest : List UInt8) :
    takeVec n (v.toList ++ rest) = some (v, rest) := by
  have hlen : v.toList.length = n := v.length_toList
  have htake : (v.toList ++ rest).take n = v.toList := List.take_left' hlen
  have hdrop : (v.toList ++ rest).drop n = rest := List.drop_left' hlen
  rw [takeVec, dif_pos (by rw [List.length_append, hlen]; omega)]
  simp only [htake, hdrop]
  rfl

theorem takeU16_be (n : Nat) (rest : List UInt8) :
    takeU16 (be 2 n ++ rest) = some (.ofNat n, rest) := by
  have hn : UInt16.ofNat (ofBe (be 2 n)) = .ofNat n := by
    apply UInt16.toNat_inj.1
    rw [ofBe_be, UInt16.toNat_ofNat', UInt16.toNat_ofNat']
    exact Nat.mod_mod _ _
  have h : takeU16 (be 2 n ++ rest) = some (.ofNat (ofBe (be 2 n)), rest) := rfl
  rw [h, hn]

theorem takeU8_singleton (a : UInt8) (rest : List UInt8) :
    takeU8 ([a] ++ rest) = some (a, rest) := rfl

theorem guard_of {p : Prop} [Decidable p] (h : p) : (guard p : Option Unit) = some () := if_pos h

theorem parseEthernet_header (spec : UdpFrameSpec) (packet : List UInt8) :
    parseEthernet (ethernetHeader spec ++ packet) = some ⟨spec.dstMac, spec.srcMac, packet⟩ := by
  rw [ethernetHeader, List.append_assoc, List.append_assoc, parseEthernet, takeVec_append]
  simp only [Option.bind_eq_bind, Option.bind_some, takeVec_append, takeU16_be]
  rfl

theorem parseIpv4_header (spec : UdpFrameSpec) (ipCk : Nat) (datagram tail : List UInt8)
    (hn : 20 + datagram.length ≤ 65535) :
    parseIpv4 (ipv4Start spec (20 + datagram.length) ++ (be 2 ipCk ++ (ipv4Addrs spec ++
      (datagram ++ tail)))) = some ⟨spec.ipId, spec.ttl, spec.srcIp, spec.dstIp, datagram⟩ := by
  let packet := ipv4Start spec (20 + datagram.length) ++ (be 2 ipCk ++ (ipv4Addrs spec ++
      (datagram ++ tail)))
  have hread : packet = [0x45] ++ ([0] ++
      (be 2 (20 + datagram.length) ++ (be 2 spec.ipId.toNat ++ (be 2 0 ++ ([spec.ttl] ++
        ([ipProtoUdp] ++ (be 2 ipCk ++ (spec.srcIp.octets.toList ++ (spec.dstIp.octets.toList ++
          (datagram ++ tail)))))))))) := by
    simp only [packet, ipv4Start, ipv4Addrs, List.append_assoc]
  have hlen : packet.length = 20 + datagram.length + tail.length := by
    simp [packet]
    omega
  have hslice : slice packet 20 (20 + datagram.length) = datagram := by
    have h : slice ((ipv4Start spec (20 + datagram.length) ++ (be 2 ipCk ++ ipv4Addrs spec)) ++
        (datagram ++ tail)) 20 (20 + datagram.length) = datagram :=
      slice_mid (by simp) (by simp; omega)
    simpa only [packet, List.append_assoc] using h
  have hversion := (congrArg takeU8 hread).trans (takeU8_singleton _ _)
  have hihl : 4 * (UInt8.toNat 0x45 % 16) = 20 := rfl
  have hfits : 20 ≤ 20 + datagram.length ∧ 20 + datagram.length ≤ packet.length := by omega
  change parseIpv4 packet = _
  rw [parseIpv4, hversion]
  simp only [Option.bind_eq_bind, Option.bind_some, takeU8_singleton, takeU16_be, takeVec_append,
    toNat_ofNat_u16 hn]
  rw [hihl, guard_of (by decide), Option.bind_some, guard_of hfits, Option.bind_some,
    guard_of (by decide), Option.bind_some, guard_of (by decide), Option.bind_some, hslice,
    UInt16.ofNat_toNat]
  rfl

theorem parseUdp_datagram (spec : UdpFrameSpec) (udpCk : Nat)
    (hn : 8 + spec.payload.length ≤ 65535) :
    parseUdp (udpStart spec (8 + spec.payload.length) ++ (be 2 udpCk ++ spec.payload)) =
      some ⟨spec.srcPort, spec.dstPort, spec.payload⟩ := by
  let datagram := udpStart spec (8 + spec.payload.length) ++ (be 2 udpCk ++ spec.payload)
  have hread : datagram = be 2 spec.srcPort.toNat ++ (be 2 spec.dstPort.toNat ++
      (be 2 (8 + spec.payload.length) ++ (be 2 udpCk ++ spec.payload))) := by
    simp only [datagram, udpStart, List.append_assoc]
  have hlen : datagram.length = 8 + spec.payload.length := by
    simp [datagram]
    omega
  have hslice : slice datagram 8 (8 + spec.payload.length) = spec.payload := by
    have h : slice ((udpStart spec (8 + spec.payload.length) ++ be 2 udpCk) ++
        (spec.payload ++ [])) 8 (8 + spec.payload.length) = spec.payload :=
      slice_mid (by simp) (by simp; omega)
    simpa only [datagram, List.append_assoc, List.append_nil] using h
  have hsrc := (congrArg takeU16 hread).trans (takeU16_be _ _)
  have hlens : guard (8 ≤ (UInt16.ofNat (8 + spec.payload.length)).toNat ∧
      (UInt16.ofNat (8 + spec.payload.length)).toNat ≤ datagram.length) = some () := by
    apply guard_of
    rw [toNat_ofNat_u16 hn, hlen]
    exact ⟨Nat.le_add_right _ _, Nat.le_refl _⟩
  change parseUdp datagram = _
  rw [parseUdp, hsrc]
  simp only [Option.bind_eq_bind, Option.bind_some, takeU16_be, hlens]
  rw [toNat_ofNat_u16 hn, hslice, UInt16.ofNat_toNat, UInt16.ofNat_toNat]
  rfl

/-- A parser following the header lengths finds the specification again. -/
theorem parseUdpFrame_frameBody (spec : UdpFrameSpec) (ipCk udpCk : Nat) (rest : List UInt8)
    (hn : 28 + spec.payload.length ≤ 65535) :
    parseUdpFrame (frameBody spec ipCk udpCk ++ rest) = some spec := by
  let datagram := udpStart spec (8 + spec.payload.length) ++ (be 2 udpCk ++ spec.payload)
  have hlen : 20 + datagram.length = 28 + spec.payload.length := by
    simp [datagram]
    omega
  have hframe : frameBody spec ipCk udpCk ++ rest =
      ethernetHeader spec ++ (ipv4Start spec (20 + datagram.length) ++ (be 2 ipCk ++
        (ipv4Addrs spec ++ (datagram ++
          (List.replicate (paddingLen spec.payload.length) 0 ++ rest))))) := by
    simp only [hlen, frameBody, datagram, List.append_assoc]
  rw [hframe, parseUdpFrame, parseEthernet_header, Option.bind_eq_bind, Option.bind_some,
    Option.bind_eq_bind, parseIpv4_header _ _ _ _ (hlen ▸ hn), Option.bind_some,
    Option.bind_eq_bind, parseUdp_datagram _ _ (by omega)]
  rfl

/-- What an independent receiver checks of a frame before it takes `spec` from it. -/
structure Accepted (spec : UdpFrameSpec) (frame : List UInt8) : Prop where
  fcs : ~~~ Crc.feed crc32Poly 0xFFFFFFFF ((frame.take (frame.length - 4)).flatMap bits) =
    .ofNat 32 (ofLe (frame.drop (frame.length - 4)))
  ipv4_checksum : Verifies 65535 (words (slice frame 14 34))
  udp_checksum : Verifies 65535 (words (pseudoHeader spec (8 + spec.payload.length) ++
    slice frame 34 (42 + spec.payload.length)))
  udp_checksum_sent : ofBe (slice frame 40 42) ≠ 0
  parsed : parseUdpFrame frame = some spec
  padded : slice frame (42 + spec.payload.length) (frame.length - 4) =
    List.replicate (46 - (28 + spec.payload.length)) 0

theorem frameBody_accepted (spec : UdpFrameSpec) (hn : 28 + spec.payload.length ≤ 65535)
    (hudp : udpCk ≤ 65535) (hne : udpCk ≠ 0)
    (hipv : Verifies 65535 (words (ipv4Start spec (28 + spec.payload.length) ++
      (be 2 ipCk ++ ipv4Addrs spec))))
    (hudpv : Verifies 65535 (words (pseudoHeader spec (8 + spec.payload.length) ++
      (udpStart spec (8 + spec.payload.length) ++ (be 2 udpCk ++ spec.payload))))) :
    Accepted spec
      (frameBody spec ipCk udpCk ++ le 4 (crc32 (frameBody spec ipCk udpCk)).toNat) := by
  let body := frameBody spec ipCk udpCk
  let trailer := le 4 (crc32 body).toNat
  let header := ipv4Start spec (28 + spec.payload.length) ++ (be 2 ipCk ++ ipv4Addrs spec)
  let start := udpStart spec (8 + spec.payload.length)
  let padding := List.replicate (paddingLen spec.payload.length) (0 : UInt8)
  have hlen : (body ++ trailer).length - 4 = body.length := by
    rw [List.length_append, length_le, Nat.add_sub_cancel]
  have hframe : body ++ trailer = ethernetHeader spec ++ (header ++ (start ++ (be 2 udpCk ++
      (spec.payload ++ (padding ++ trailer))))) := by
    simp only [body, frameBody, header, start, padding, List.append_assoc]
  have hheader : slice (body ++ trailer) 14 34 = header := by
    rw [hframe]
    exact slice_mid (by simp) (by simp [header])
  have hdatagram : slice (body ++ trailer) 34 (42 + spec.payload.length) =
      start ++ (be 2 udpCk ++ spec.payload) := by
    have h : slice ((ethernetHeader spec ++ header) ++ ((start ++ (be 2 udpCk ++ spec.payload)) ++
        (padding ++ trailer))) 34 (42 + spec.payload.length) = _ :=
      slice_mid (by simp [header]) (by simp [header, start]; omega)
    simpa only [hframe, List.append_assoc] using h
  have hfield : slice (body ++ trailer) 40 42 = be 2 udpCk := by
    have h : slice ((ethernetHeader spec ++ (header ++ start)) ++ (be 2 udpCk ++ (spec.payload ++
        (padding ++ trailer)))) 40 42 = _ :=
      slice_mid (by simp [header, start]) (by simp [header, start])
    simpa only [hframe, List.append_assoc] using h
  have hpadding : slice (body ++ trailer) (42 + spec.payload.length) body.length = padding := by
    have hb : body.length = 42 + spec.payload.length + padding.length := by
      simp [body, frameBody, padding]
      omega
    have h : slice ((ethernetHeader spec ++ (header ++ (start ++ (be 2 udpCk ++ spec.payload)))) ++
        (padding ++ trailer)) (42 + spec.payload.length) body.length = _ :=
      slice_mid (by simp [header, start]; omega) (by simp [header, start, hb]; omega)
    simpa only [hframe, List.append_assoc] using h
  change Accepted spec (body ++ trailer)
  constructor
  case fcs =>
    rw [hlen, List.take_left, List.drop_left, ← crc32_eq_feed, ofLe_le,
      Nat.mod_eq_of_lt (b := 256 ^ 4) (crc32 body).isLt, BitVec.ofNat_toNat, BitVec.setWidth_eq]
  case ipv4_checksum => simpa only [hheader] using hipv
  case udp_checksum => simpa only [hdatagram] using hudpv
  case udp_checksum_sent =>
    rw [hfield, ofBe_be, Nat.mod_eq_of_lt (by omega)]
    exact hne
  case parsed => exact parseUdpFrame_frameBody spec ipCk udpCk _ hn
  case padded =>
    rw [hlen]
    exact hpadding

/-- Either the buffer is refused untouched, or it starts with a frame that a receiver accepts;
no sum overflows on the way. -/
theorem buildUdpFrame_accepted (spec : UdpFrameSpec) (out : List UInt8) :
    ∃ written out', buildUdpFrame spec out = some (written, out') ∧
      (written = none ↔ out.length < frameLen spec.payload.length ∨
        65535 < 20 + (8 + spec.payload.length)) ∧
      (written = none → out' = out) ∧
      ∀ n, written = some n → n = frameLen spec.payload.length ∧ out'.length = out.length ∧
        out'.drop n = out.drop n ∧ (out'.take n).length = n ∧ Accepted spec (out'.take n) := by
  by_cases h : out.length < frameLen spec.payload.length ∨ 65535 < 28 + spec.payload.length
  · refine ⟨none, out, buildUdpFrame_refuses h, ?_, fun _ => rfl, fun n hn => ?_⟩
    · exact ⟨fun _ => by omega, fun _ => rfl⟩
    · cases hn
  · have hn : 28 + spec.payload.length ≤ 65535 := by omega
    obtain ⟨ipCk, udpCk, -, hudp, hne, hipv, hudpv, hbuild⟩ :=
      buildUdpFrame_writes spec out (by omega) hn
    let frame := frameBody spec ipCk udpCk ++ le 4 (crc32 (frameBody spec ipCk udpCk)).toNat
    have hlen : frame.length = frameLen spec.payload.length := by
      rw [List.length_append, length_le, length_frameBody]
    refine ⟨_, _, hbuild, ⟨nofun, fun h0 => absurd h0 (by omega)⟩, nofun, ?_⟩
    rintro n ⟨⟩
    refine ⟨rfl, ?_, List.drop_left' hlen, ?_, ?_⟩
    · change (frame ++ _).length = _
      rw [List.length_append, List.length_drop, hlen]
      omega
    · change ((frame ++ _).take _).length = _
      rw [List.take_left' hlen, hlen]
    · change Accepted spec ((frame ++ _).take _)
      rw [List.take_left' hlen]
      exact frameBody_accepted spec hn hudp hne hipv hudpv

end PicoGnss
