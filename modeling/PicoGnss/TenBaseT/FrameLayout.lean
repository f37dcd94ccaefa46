import PicoGnss.TenBaseT.Frame

/-! What the sequence of buffer writes leaves: the frame part by part. -/

namespace PicoGnss
set_option autoImplicit true

open Bytes OnesComplement

@[simp] theorem MacAddr.length_octets (m : MacAddr) : m.octets.toList.length = 6 :=
  m.octets.length_toList

@[simp] theorem Ipv4Addr.length_octets (a : Ipv4Addr) : a.octets.toList.length = 4 :=
  a.octets.length_toList

def ethernetHeader (spec : UdpFrameSpec) : List UInt8 :=
  spec.dstMac.octets.toList ++ spec.srcMac.octets.toList ++ be 2 ethertypeIpv4.toNat

/-- The IPv4 header up to its checksum. -/
def ipv4Start (spec : UdpFrameSpec) (ipTotal : Nat) : List UInt8 :=
  [0x45] ++ [0] ++ be 2 ipTotal ++ be 2 spec.ipId.toNat ++ be 2 0 ++ [spec.ttl] ++ [ipProtoUdp]

def ipv4Addrs (spec : UdpFrameSpec) : List UInt8 :=
  spec.srcIp.octets.toList ++ spec.dstIp.octets.toList

/-- The UDP header up to its checksum. -/
def udpStart (spec : UdpFrameSpec) (udpLen : Nat) : List UInt8 :=
  be 2 spec.srcPort.toNat ++ be 2 spec.dstPort.toNat ++ be 2 udpLen

@[simp] theorem length_ethernetHeader (spec : UdpFrameSpec) :
    (ethernetHeader spec).length = 14 := by
  simp [ethernetHeader]

@[simp] theorem length_ipv4Start (spec : UdpFrameSpec) (n : Nat) :
    (ipv4Start spec n).length = 10 := by
  simp [ipv4Start]

@[simp] theorem length_ipv4Addrs (spec : UdpFrameSpec) : (ipv4Addrs spec).length = 8 := by
  simp [ipv4Addrs]

@[simp] theorem length_udpStart (spec : UdpFrameSpec) (n : Nat) :
    (udpStart spec n).length = 6 := by
  simp [udpStart]

theorem writeEthernet_blank (spec : UdpFrameSpec) (k : Nat) :
    writeEthernet spec (List.replicate (6 + (6 + (2 + k))) 0) =
      ethernetHeader spec ++ List.replicate k 0 := by
  have h : splice (List.replicate (6 + (6 + (2 + k))) 0) 0 spec.dstMac.octets.toList =
      spec.dstMac.octets.toList ++ List.replicate (6 + (2 + k)) 0 :=
    splice_blank (List.length_nil) spec.dstMac.length_octets
  simp only [writeEthernet]
  rw [h, splice_blank (by simp) (by simp), splice_blank (by simp) (by simp), ethernetHeader]

theorem words_be (hc : c ≤ 65535) (post : List UInt8) :
    words (be 2 c ++ post) = c :: words post := by
  have hv : (UInt8.ofNat (c / 256 ^ 1)).toNat * 256 + (UInt8.ofNat (c / 256 ^ 0)).toNat = c := by
    simp only [UInt8.toNat_ofNat']
    omega
  exact congrArg (· :: words post) hv

/-- Filling a blank word of the data adds it to the sum. -/
theorem words_sum_field (hpre : pre.length % 2 = 0) (hc : c ≤ 65535) (post : List UInt8) :
    (words (pre ++ (be 2 c ++ post))).sum = (words (pre ++ (be 2 0 ++ post))).sum + c := by
  rw [words_append hpre, words_append hpre, words_be hc, words_be (Nat.zero_le _), List.sum_append,
    List.sum_append, List.sum_cons, List.sum_cons]
  omega

theorem toNat_ofNat_u16 (h : n ≤ 65535) : (UInt16.ofNat n).toNat = n := by
  rw [UInt16.toNat_ofNat', Nat.mod_eq_of_lt (by omega)]

theorem writeIpv4_blank (spec : UdpFrameSpec) (hpre : pre.length = 14) (k : Nat)
    (hn : ipTotal ≤ 65535) :
    ∃ ck ≤ 65535, Verifies 65535 (words (ipv4Start spec ipTotal ++ (be 2 ck ++ ipv4Addrs spec))) ∧
      writeIpv4 spec ipTotal (pre ++ List.replicate (1 + (1 + (2 + (2 + (2 + (1 + (1 + (2 + (4 +
        (4 + k)))))))))) 0) =
      some (pre ++ (ipv4Start spec ipTotal ++ (be 2 ck ++ (ipv4Addrs spec ++
        List.replicate k 0)))) := by
  let header := ipv4Start spec ipTotal ++ (be 2 0 ++ ipv4Addrs spec)
  have hsum := words_sum_le header
  have hlen : header.length = 20 := by simp [header]
  obtain ⟨r, hf, hck⟩ := onesComplementChecksum_folds header 0 (by omega)
  have hr := hf.le
  have heven : (ipv4Start spec ipTotal).length % 2 = 0 := by simp
  have hslice : slice (pre ++ (header ++ List.replicate k 0)) 14 34 = header :=
    slice_mid hpre (by rw [List.length_append, hpre, hlen])
  have hfill : splice (pre ++ (header ++ List.replicate k 0)) 24 (be 2 (65535 - r)) =
      pre ++ (ipv4Start spec ipTotal ++ (be 2 (65535 - r) ++ (ipv4Addrs spec ++
        List.replicate k 0))) := by
    have h : splice ((pre ++ ipv4Start spec ipTotal) ++ (be 2 0 ++ (ipv4Addrs spec ++
        List.replicate k 0))) 24 (be 2 (65535 - r)) = (pre ++ ipv4Start spec ipTotal) ++
        (be 2 (65535 - r) ++ (ipv4Addrs spec ++ List.replicate k 0)) :=
      splice_mid (by simp [hpre]) (by simp)
    simpa only [header, List.append_assoc] using h
  have hblank : pre ++ [0x45] ++ [0] ++ be 2 ipTotal ++ be 2 spec.ipId.toNat ++ be 2 0 ++
      [spec.ttl] ++ [ipProtoUdp] ++ be 2 0 ++ spec.srcIp.octets.toList ++
      spec.dstIp.octets.toList ++ List.replicate k 0 = pre ++ (header ++ List.replicate k 0) := by
    simp only [header, ipv4Start, ipv4Addrs, List.append_assoc]
  refine ⟨65535 - r, by omega, ?_, ?_⟩
  · rw [Nat.zero_add] at hf
    apply verifies_of_dvd (words_le _)
    · rw [words_sum_field heven (by omega)]
      exact hf.add_complement_ne_zero (by decide)
    · rw [words_sum_field heven (by omega)]
      exact hf.dvd_add_complement
  · simp only [writeIpv4, toNat_ofNat_u16 hn]
    repeat rw [splice_blank (by simp [hpre, ethernetHeaderLen]) (by simp)]
    simp only [hblank, ethernetHeaderLen, ipv4HeaderLen, Nat.reduceAdd, hslice, hck, hfill,
      toNat_ofNat_u16 (Nat.sub_le 65535 r), Option.bind_eq_bind, Option.bind_some,
      Option.pure_def]

/-- The pseudo-header that the UDP checksum covers before the datagram. -/
def pseudoHeader (spec : UdpFrameSpec) (udpLen : Nat) : List UInt8 :=
  ipv4Addrs spec ++ ([0, ipProtoUdp] ++ be 2 udpLen)

@[simp] theorem length_pseudoHeader (spec : UdpFrameSpec) (n : Nat) :
    (pseudoHeader spec n).length = 12 := by
  simp [pseudoHeader]

theorem pseudoHeaderSum_eq (spec : UdpFrameSpec) (hn : udpLen ≤ 65535) :
    pseudoHeaderSum spec udpLen = some (words (pseudoHeader spec udpLen)).sum := by
  have hsrc := words_sum_le spec.srcIp.octets.toList
  have hdst := words_sum_le spec.dstIp.octets.toList
  rw [spec.srcIp.length_octets] at hsrc
  rw [spec.dstIp.length_octets] at hdst
  have hwords : (words (pseudoHeader spec udpLen)).sum = 0 +
      (words spec.srcIp.octets.toList).sum + (words spec.dstIp.octets.toList).sum +
      (ipProtoUdp.toNat + udpLen) := by
    have hbe : words (be 2 udpLen) = [udpLen] := by
      have h := words_be hn []
      rwa [List.append_nil] at h
    have hproto : words [0, ipProtoUdp] = [ipProtoUdp.toNat] := rfl
    rw [pseudoHeader, ipv4Addrs, words_append (by simp), words_append (by simp),
      words_append (by simp), hbe, hproto]
    simp only [List.sum_append, List.sum_cons, List.sum_nil]
    omega
  have hproto : ipProtoUdp.toNat = 17 := rfl
  rw [pseudoHeaderSum, sumChunks_eq _ (by omega), Option.bind_eq_bind, Option.bind_some,
    sumChunks_eq _ (by omega), Option.bind_some, Nat.mod_eq_of_lt (by omega),
    addU32_of_lt (by omega), Option.bind_some, addU32_of_lt (by omega), hwords]

theorem writeUdp_blank (spec : UdpFrameSpec) (hpre : pre.length = 34) (k : Nat)
    (hlen : udpLen = 8 + spec.payload.length) (hn : udpLen ≤ 65535) :
    ∃ ck ≤ 65535, ck ≠ 0 ∧
      Verifies 65535 (words (pseudoHeader spec udpLen ++
        (udpStart spec udpLen ++ (be 2 ck ++ spec.payload)))) ∧
      writeUdp spec udpLen
        (pre ++ List.replicate (2 + (2 + (2 + (2 + (spec.payload.length + k))))) 0) =
      some (pre ++ (udpStart spec udpLen ++ (be 2 ck ++ (spec.payload ++
        List.replicate k 0)))) := by
  let datagram := udpStart spec udpLen ++ (be 2 0 ++ spec.payload)
  have hdlen : datagram.length = udpLen := by
    simp [datagram, hlen]
    omega
  have hpsum := words_sum_le (pseudoHeader spec udpLen)
  have hdsum := words_sum_le datagram
  rw [length_pseudoHeader] at hpsum
  obtain ⟨r, hf, hck⟩ := onesComplementChecksum_folds datagram
    (words (pseudoHeader spec udpLen)).sum (by omega)
  have hr := hf.le
  have hsum : ∀ c ≤ 65535, (words (pseudoHeader spec udpLen ++
      (udpStart spec udpLen ++ (be 2 c ++ spec.payload)))).sum =
      (words (pseudoHeader spec udpLen)).sum + (words datagram).sum + c := by
    intro c hc
    rw [words_append (by simp), List.sum_append, words_sum_field (by simp) hc]
    exact (Nat.add_assoc _ _ _).symm
  let ck := if 65535 - r = 0 then 65535 else 65535 - r
  have hckle : ck ≤ 65535 := by
    simp only [ck]
    split <;> omega
  have hverifies : Verifies 65535 (words (pseudoHeader spec udpLen ++
      (udpStart spec udpLen ++ (be 2 ck ++ spec.payload)))) := by
    have hdvd := hf.dvd_add_complement
    have hne := hf.add_complement_ne_zero (by decide)
    apply verifies_of_dvd (words_le _)
    · rw [hsum ck hckle]
      simp only [ck]
      split <;> omega
    · rw [hsum ck hckle]
      simp only [ck]
      split <;> omega
  have hslice : slice (pre ++ (datagram ++ List.replicate k 0)) 34 (34 + udpLen) = datagram :=
    slice_mid hpre (by rw [List.length_append, hpre, hdlen])
  have hfill : splice (pre ++ (datagram ++ List.replicate k 0)) 40 (be 2 ck) =
      pre ++ (udpStart spec udpLen ++ (be 2 ck ++ (spec.payload ++ List.replicate k 0))) := by
    have h : splice ((pre ++ udpStart spec udpLen) ++ (be 2 0 ++ (spec.payload ++
        List.replicate k 0))) 40 (be 2 ck) = (pre ++ udpStart spec udpLen) ++
        (be 2 ck ++ (spec.payload ++ List.replicate k 0)) :=
      splice_mid (by simp [hpre]) (by simp)
    simpa only [datagram, List.append_assoc] using h
  have hblank : pre ++ be 2 spec.srcPort.toNat ++ be 2 spec.dstPort.toNat ++ be 2 udpLen ++
      be 2 0 ++ spec.payload ++ List.replicate k 0 =
      pre ++ (datagram ++ List.replicate k 0) := by
    simp only [datagram, udpStart, List.append_assoc]
  have hword : (if UInt16.ofNat (65535 - r) = 0 then 0xFFFF else UInt16.ofNat (65535 - r)).toNat =
      ck := by
    by_cases h0 : 65535 - r = 0
    · simp only [ck, h0]
      rfl
    · have hne : UInt16.ofNat (65535 - r) ≠ 0 := by
        intro h
        apply h0
        rw [← toNat_ofNat_u16 (Nat.sub_le 65535 r), h]
        rfl
      rw [if_neg hne, toNat_ofNat_u16 (Nat.sub_le _ _)]
      exact (if_neg h0).symm
  refine ⟨ck, hckle, ?_, hverifies, ?_⟩
  · simp only [ck]
    split <;> omega
  · simp only [writeUdp, toNat_ofNat_u16 hn]
    repeat rw [splice_blank (by simp [hpre, ethernetHeaderLen, ipv4HeaderLen, udpHeaderLen])
      (by simp)]
    simp only [hblank, ethernetHeaderLen, ipv4HeaderLen, Nat.reduceAdd, hslice, hck, hfill, hword,
      pseudoHeaderSum_eq spec hn, Option.bind_eq_bind, Option.bind_some, Option.pure_def]

/-- The zeros that bring a short packet to the minimum length. -/
def paddingLen (payloadLen : Nat) : Nat :=
  minEthernetPayload - (ipv4HeaderLen + udpHeaderLen + payloadLen)

/-- A frame up to its check sequence, with the two checksums given. -/
def frameBody (spec : UdpFrameSpec) (ipCk udpCk : Nat) : List UInt8 :=
  ethernetHeader spec ++ (ipv4Start spec (28 + spec.payload.length) ++ (be 2 ipCk ++
    (ipv4Addrs spec ++ (udpStart spec (8 + spec.payload.length) ++ (be 2 udpCk ++
      (spec.payload ++ List.replicate (paddingLen spec.payload.length) 0))))))

theorem frameLen_eq (n : Nat) : frameLen n = 14 + (20 + (8 + (n + (paddingLen n + 4)))) := by
  rw [frameLen, paddingLen]
  by_cases h : ipv4HeaderLen + udpHeaderLen + n < minEthernetPayload
  · rw [if_pos h]
    simp only [ethernetHeaderLen, ipv4HeaderLen, udpHeaderLen, fcsLen, minEthernetPayload] at h ⊢
    omega
  · rw [if_neg h]
    simp only [ethernetHeaderLen, ipv4HeaderLen, udpHeaderLen, fcsLen, minEthernetPayload] at h ⊢
    omega

theorem length_frameBody (spec : UdpFrameSpec) (ipCk udpCk : Nat) :
    (frameBody spec ipCk udpCk).length + 4 = frameLen spec.payload.length := by
  rw [frameLen_eq]
  simp [frameBody]
  omega

theorem writeFcs_blank (hbody : body.length + 4 = total) :
    writeFcs total (body ++ List.replicate 4 0) = body ++ le 4 (crc32 body).toNat := by
  have hpre : body.length = total - 4 := by omega
  have htake : (body ++ List.replicate 4 0).take (total - 4) = body := List.take_left' hpre
  have hw : splice (body ++ List.replicate (4 + 0) 0) (total - 4) (le 4 (crc32 body).toNat) =
      body ++ le 4 (crc32 body).toNat ++ List.replicate 0 0 :=
    splice_blank hpre (length_le 4 _)
  simp only [writeFcs, fcsLen, htake]
  rw [hw, List.replicate_zero, List.append_nil]

theorem buildUdpFrame_refuses (h : out.length < frameLen spec.payload.length ∨
    65535 < 28 + spec.payload.length) : buildUdpFrame spec out = some (none, out) := by
  have hlen : ipv4HeaderLen + (udpHeaderLen + spec.payload.length) = 28 + spec.payload.length := by
    simp only [ipv4HeaderLen, udpHeaderLen]
    omega
  rw [buildUdpFrame]
  dsimp only
  rw [hlen]
  exact if_pos h

theorem buildUdpFrame_writes (spec : UdpFrameSpec) (out : List UInt8)
    (hout : frameLen spec.payload.length ≤ out.length) (hn : 28 + spec.payload.length ≤ 65535) :
    ∃ ipCk udpCk, ipCk ≤ 65535 ∧ udpCk ≤ 65535 ∧ udpCk ≠ 0 ∧
      Verifies 65535 (words (ipv4Start spec (28 + spec.payload.length) ++
        (be 2 ipCk ++ ipv4Addrs spec))) ∧
      Verifies 65535 (words (pseudoHeader spec (8 + spec.payload.length) ++
        (udpStart spec (8 + spec.payload.length) ++ (be 2 udpCk ++ spec.payload)))) ∧
      buildUdpFrame spec out = some (some (frameLen spec.payload.length),
        frameBody spec ipCk udpCk ++ le 4 (crc32 (frameBody spec ipCk udpCk)).toNat ++
          out.drop (frameLen spec.payload.length)) := by
  let k := paddingLen spec.payload.length + 4
  have htotal : frameLen spec.payload.length =
      6 + (6 + (2 + (1 + (1 + (2 + (2 + (2 + (1 + (1 + (2 + (4 + (4 + (2 + (2 + (2 + (2 +
        (spec.payload.length + k))))))))))))))))) := by
    rw [frameLen_eq]
    omega
  obtain ⟨ipCk, hip, hipv, hipw⟩ := writeIpv4_blank spec (length_ethernetHeader spec)
    (2 + (2 + (2 + (2 + (spec.payload.length + k))))) hn
  have hpre : (ethernetHeader spec ++ (ipv4Start spec (28 + spec.payload.length) ++
      (be 2 ipCk ++ ipv4Addrs spec))).length = 34 := by simp
  obtain ⟨udpCk, hudp, hne, hudpv, hudpw⟩ := writeUdp_blank spec hpre k rfl (by omega)
  refine ⟨ipCk, udpCk, hip, hudp, hne, hipv, hudpv, ?_⟩
  have hlen : ipv4HeaderLen + (udpHeaderLen + spec.payload.length) = 28 + spec.payload.length := by
    simp only [ipv4HeaderLen, udpHeaderLen]
    omega
  have hlen' : udpHeaderLen + spec.payload.length = 8 + spec.payload.length := rfl
  have hfit : ¬(out.length < frameLen spec.payload.length ∨ 28 + spec.payload.length > 65535) := by
    omega
  have hbody : frameBody spec ipCk udpCk ++ List.replicate 4 0 =
      ethernetHeader spec ++ (ipv4Start spec (28 + spec.payload.length) ++ (be 2 ipCk ++
        ipv4Addrs spec)) ++ (udpStart spec (8 + spec.payload.length) ++ (be 2 udpCk ++
          (spec.payload ++ List.replicate k 0))) := by
    simp only [frameBody, k, List.replicate_add, List.append_assoc]
  simp only [List.append_assoc] at hudpw hipw hbody
  rw [buildUdpFrame]
  dsimp only
  rw [hlen, if_neg hfit, ← writeFcs_blank (length_frameBody spec ipCk udpCk), htotal,
    writeEthernet_blank, hipw, Option.bind_eq_bind, Option.bind_some,
    hlen', hudpw, Option.bind_some, hbody]
  rfl

end PicoGnss
