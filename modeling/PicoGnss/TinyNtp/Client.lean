import PicoGnss.TinyNtp.Server

namespace PicoGnss
set_option autoImplicit true

open FixedWidth

inductive Reject where
  | notAReply
  | notABroadcast
  | versionMismatch
  | bogus
  | unsynchronized
deriving DecidableEq

structure Measurement where
  offsetNs : Int
  delayNs : Int
  stratum : UInt8
  rootDispersionNs : UInt64
deriving DecidableEq

def request (transmitUnixNs : Int) (poll : Int8) : NtpPacket :=
  { leap := .noWarning
    version := ntpVersion
    mode := .client
    stratum := 0
    poll
    precision := 0
    rootDelay := .zero
    rootDispersion := .zero
    referenceId := .replicate 4 0
    referenceTimestamp := .zero
    originTimestamp := .zero
    receiveTimestamp := .zero
    transmitTimestamp := .fromUnixNs transmitUnixNs }

/-- Clamping a wide difference onto the signed 64-bit words. -/
def clampI64 (x : Int) : Int := clamp x (-9223372036854775808) 9223372036854775807

def measure (request reply : NtpPacket) (destinationUnixNs : Int) : Except Reject Measurement :=
  if reply.mode ≠ .server then .error .notAReply
  else if reply.version ≠ request.version then .error .versionMismatch
  else if reply.originTimestamp ≠ request.transmitTimestamp ∨ reply.transmitTimestamp = .zero then
    .error .bogus
  else if reply.leap = .unsynchronized ∨ reply.stratum = 0 ∨ reply.stratum ≥ 16 then
    .error .unsynchronized
  else
    let t1 := request.transmitTimestamp.toUnixNsNear destinationUnixNs
    let t2 := reply.receiveTimestamp.toUnixNsNear destinationUnixNs
    let t3 := reply.transmitTimestamp.toUnixNsNear destinationUnixNs
    let t4 := destinationUnixNs
    let offset := ((t2 - t1) + (t3 - t4)).tdiv 2
    let delay := (t4 - t1) - (t3 - t2)
    .ok { offsetNs := clampI64 offset
          delayNs := clampI64 delay
          stratum := reply.stratum
          rootDispersionNs := reply.rootDispersion.toNanos }

def acceptBroadcast (broadcast : NtpPacket) (destinationUnixNs delayNs : Int) :
    Except Reject Measurement :=
  if broadcast.mode ≠ .broadcast then .error .notABroadcast
  else if broadcast.transmitTimestamp = .zero then .error .bogus
  else if broadcast.leap = .unsynchronized ∨ broadcast.stratum = 0 ∨ broadcast.stratum ≥ 16 then
    .error .unsynchronized
  else
    let t3 := broadcast.transmitTimestamp.toUnixNsNear destinationUnixNs
    let offset := (t3 - destinationUnixNs) + delayNs.tdiv 2
    .ok { offsetNs := clampI64 offset
          delayNs
          stratum := broadcast.stratum
          rootDispersionNs := broadcast.rootDispersion.toNanos }

/-- Nanoseconds within half an era, less a second, of a reference. -/
def WithinHalfEra (t reference : Int) : Prop :=
  InI64 t ∧ (t - reference).natAbs ≤ 2147483647 * 1000000000

theorem WithinHalfEra.resolved (h : WithinHalfEra t r) :
    (NtpTimestamp.fromUnixNs t).toUnixNsNear r = t :=
  NtpTimestamp.toUnixNsNear_fromUnixNs h.1 h.2

/-- The fields that the checks of a client look at say that the server is synchronised. -/
theorem basePacket_synchronised (h : gate cfg state = .ok lastUpdate) :
    ¬((basePacket cfg state lastUpdate).leap = .unsynchronized ∨
      (basePacket cfg state lastUpdate).stratum = 0 ∨
      (basePacket cfg state lastUpdate).stratum ≥ 16) := by
  obtain ⟨hlo, hhi⟩ := gate_ok_stratum h
  have hleap : (basePacket cfg state lastUpdate).leap = state.leap.indicator := rfl
  have hstratum : (basePacket cfg state lastUpdate).stratum = cfg.source.stratum := rfl
  rw [hleap, hstratum]
  rintro (hl | h0 | h16)
  · cases hw : state.leap <;> rw [hw] at hl <;> cases hl
  · rw [h0] at hlo
    exact absurd hlo (by decide)
  · exact absurd (Nat.le_trans h16 hhi) (by decide)

theorem ntpVersion_spoken : 1 ≤ ntpVersion ∧ ntpVersion ≤ 4 := by decide

theorem ntpVersion_lt : ntpVersion.toNat < 8 := by decide

theorem decode_encode_request (t : Int) (poll : Int8) :
    NtpPacket.decode (request t poll).encode = some (request t poll) :=
  NtpPacket.decode_encode _ ntpVersion_lt

theorem clampI64_of_inI64 (h : InI64 x) : clampI64 x = x := clamp_of_mem h.1 h.2

theorem inI64_offset (h1 : WithinHalfEra t1 t4) (h2 : WithinHalfEra t2 t4)
    (h3 : WithinHalfEra t3 t4) : InI64 (((t2 - t1) + (t3 - t4)).tdiv 2) := by
  obtain ⟨-, h1⟩ := h1
  obtain ⟨-, h2⟩ := h2
  obtain ⟨-, h3⟩ := h3
  have habs := Int.natAbs_tdiv_le_natAbs ((t2 - t1) + (t3 - t4)) 2
  unfold InI64
  omega

theorem inI64_delay (h1 : WithinHalfEra t1 t4) (h2 : WithinHalfEra t2 t4)
    (h3 : WithinHalfEra t3 t4) : InI64 ((t4 - t1) - (t3 - t2)) := by
  obtain ⟨-, h1⟩ := h1
  obtain ⟨-, h2⟩ := h2
  obtain ⟨-, h3⟩ := h3
  unfold InI64
  omega

/-- What the wire carries of a served packet, and what the client measures from it. -/
theorem measure_respond (poll : Int8) (h1 : WithinHalfEra t1 t4) (h2 : WithinHalfEra t2 t4)
    (h3 : WithinHalfEra t3 t4) (hz : NtpTimestamp.fromUnixNs t3 ≠ .zero)
    (hserve : respond cfg state (request t1 poll) t2 t3 = .serve packet) :
    NtpPacket.decode packet.encode = some packet ∧
      measure (request t1 poll) packet t4 =
        .ok { offsetNs := ((t2 - t1) + (t3 - t4)).tdiv 2
              delayNs := (t4 - t1) - (t3 - t2)
              stratum := packet.stratum
              rootDispersionNs := packet.rootDispersion.toNanos } := by
  obtain ⟨hsilent, -⟩ := (respond_serves_iff cfg state _ t2 t3).1 ⟨packet, hserve⟩
  obtain ⟨lastUpdate, hgate⟩ := silentReason_eq_none_iff.1 hsilent
  rw [respond_of_request rfl ntpVersion_spoken hgate] at hserve
  cases hserve
  refine ⟨NtpPacket.decode_encode _ ntpVersion_lt, ?_⟩
  have hsync := basePacket_synchronised hgate
  have hbogus : ¬((request t1 poll).transmitTimestamp ≠ (request t1 poll).transmitTimestamp ∨
      NtpTimestamp.fromUnixNs t3 = .zero) := by
    rintro (h | h)
    · exact h rfl
    · exact hz h
  have hsent : (request t1 poll).transmitTimestamp = .fromUnixNs t1 := rfl
  rw [measure, if_neg (not_not.2 rfl), if_neg (not_not.2 rfl), if_neg hbogus, if_neg hsync]
  simp only [hsent, h1.resolved, h2.resolved, h3.resolved,
    clampI64_of_inI64 (inI64_offset h1 h2 h3), clampI64_of_inI64 (inI64_delay h1 h2 h3)]

theorem acceptBroadcast_broadcast (d : Int) (h3 : WithinHalfEra t3 t4)
    (hz : NtpTimestamp.fromUnixNs t3 ≠ .zero) (hserve : broadcast cfg state t3 = .serve packet) :
    NtpPacket.decode packet.encode = some packet ∧
      acceptBroadcast packet t4 d =
        .ok { offsetNs := clampI64 ((t3 - t4) + d.tdiv 2)
              delayNs := d
              stratum := packet.stratum
              rootDispersionNs := packet.rootDispersion.toNanos } := by
  obtain ⟨lastUpdate, hgate⟩ :=
    silentReason_eq_none_iff.1 ((broadcast_serves_iff cfg state t3).1 ⟨packet, hserve⟩)
  rw [broadcast, hgate] at hserve
  cases hserve
  refine ⟨NtpPacket.decode_encode _ ntpVersion_lt, ?_⟩
  rw [acceptBroadcast, if_neg (not_not.2 rfl), if_neg hz, if_neg (basePacket_synchronised hgate)]
  simp only [h3.resolved]

/-- A served exchange measures its four times exactly, a served broadcast its one, and nothing but
the gate and the request decides whether there is one. -/
theorem ntp_exchange_exact (cfg : ServerConfig) (state : ClockState) :
    (∀ poll t1 t2 t3 t4 received packet, WithinHalfEra t1 t4 → WithinHalfEra t2 t4 →
      WithinHalfEra t3 t4 → NtpTimestamp.fromUnixNs t3 ≠ .zero →
      NtpPacket.decode (request t1 poll).encode = some received →
      respond cfg state received t2 t3 = .serve packet →
      ∃ reply, NtpPacket.decode packet.encode = some reply ∧
        measure (request t1 poll) reply t4 =
          .ok { offsetNs := ((t2 - t1) + (t3 - t4)).tdiv 2
                delayNs := (t4 - t1) - (t3 - t2)
                stratum := packet.stratum
                rootDispersionNs := packet.rootDispersion.toNanos }) ∧
    (∀ t3 t4 d packet, WithinHalfEra t3 t4 → NtpTimestamp.fromUnixNs t3 ≠ .zero →
      broadcast cfg state t3 = .serve packet →
      ∃ reply, NtpPacket.decode packet.encode = some reply ∧
        acceptBroadcast reply t4 d =
          .ok { offsetNs := clampI64 ((t3 - t4) + d.tdiv 2)
                delayNs := d
                stratum := packet.stratum
                rootDispersionNs := packet.rootDispersion.toNanos }) ∧
    (∀ poll t, ∃ received, NtpPacket.decode (request t poll).encode = some received) ∧
    (∀ t3, (∃ packet, broadcast cfg state t3 = .serve packet) ↔ silentReason cfg state = none) ∧
    ∀ received t2 t3, (∃ packet, respond cfg state received t2 t3 = .serve packet) ↔
      silentReason cfg state = none ∧ received.mode = .client ∧
        1 ≤ received.version ∧ received.version ≤ 4 := by
  refine ⟨?_, ?_, fun poll t => ⟨_, decode_encode_request t poll⟩, broadcast_serves_iff cfg state,
    respond_serves_iff cfg state⟩
  · intro poll t1 t2 t3 t4 received packet h1 h2 h3 hz hreceived hserve
    rw [decode_encode_request] at hreceived
    cases hreceived
    exact ⟨packet, measure_respond poll h1 h2 h3 hz hserve⟩
  · intro t3 t4 d packet h3 hz hserve
    exact ⟨packet, acceptBroadcast_broadcast d h3 hz hserve⟩

/-- An exchange with the era boundary between departure and arrival. -/
theorem ntp_exchange_exact_across_eras :
    ∃ packet reply,
      respond ⟨-20, 4, .referenceClock (.replicate 4 0), 1000000, 1000, 1000000000⟩
        ⟨some 2085978490000000000, 0, true, .none⟩ (request 2085978495999997000 4)
        2085978495999999000 2085978495999999100 = .serve packet ∧
      NtpPacket.decode packet.encode = some reply ∧
      measure (request 2085978495999997000 4) reply 2085978496000000000 =
        .ok ⟨550, 2900, packet.stratum, packet.rootDispersion.toNanos⟩ := by
  obtain ⟨hexchange, -, -, -, hserves⟩ := ntp_exchange_exact
    ⟨-20, 4, .referenceClock (.replicate 4 0), 1000000, 1000, 1000000000⟩
    ⟨some 2085978490000000000, 0, true, .none⟩
  obtain ⟨packet, hserve⟩ := (hserves (request 2085978495999997000 4) 2085978495999999000
    2085978495999999100).2 ⟨rfl, rfl, ntpVersion_spoken⟩
  obtain ⟨reply, hreply, hmeasure⟩ := hexchange 4 2085978495999997000 2085978495999999000
    2085978495999999100 2085978496000000000 _ packet
    ⟨by decide, by decide⟩ ⟨by decide, by decide⟩ ⟨by decide, by decide⟩ (by decide)
    (decode_encode_request _ _) hserve
  exact ⟨packet, reply, hserve, hreply, hmeasure⟩

end PicoGnss
