import PicoGnss.TinyNtp.Client

namespace PicoGnss
set_option autoImplicit true

/-- A client took the packet, as a reply to a request of its own or as a broadcast. -/
def AcceptedPacket (p : NtpPacket) : Prop :=
  (∃ request destination measured, measure request p destination = .ok measured) ∨
  ∃ destination delay measured, acceptBroadcast p destination delay = .ok measured

/-- The source of a server that follows a packet over a hop of the given delay. -/
def Source.following (address : Vector UInt8 4) (p : NtpPacket) (delayNs : Int) : Source :=
  .upstream address p.stratum p.rootDelay p.rootDispersion delayNs

/-- A packet leaves the server, in either service mode. -/
def Serves (cfg : ServerConfig) (state : ClockState) (packet : NtpPacket) : Prop :=
  (∃ transmit, broadcast cfg state transmit = .serve packet) ∨
  ∃ request receive transmit, respond cfg state request receive transmit = .serve packet

/-- One secondary server: it follows an accepted packet, and another one comes off its wire. -/
def Hop (p q : NtpPacket) : Prop :=
  AcceptedPacket p ∧ ∃ cfg state address delayNs packet,
    cfg.source = .following address p delayNs ∧ Serves cfg state packet ∧
      NtpPacket.decode packet.encode = some q

/-- What a client is told about the path to the root, all of it at least as bad. -/
structure NoBetter (p q : NtpPacket) : Prop where
  stratum : p.stratum ≤ q.stratum
  rootDelay : p.rootDelay.bits ≤ q.rootDelay.bits
  rootDispersion : p.rootDispersion.bits ≤ q.rootDispersion.bits

theorem NoBetter.refl (p : NtpPacket) : NoBetter p p :=
  ⟨Nat.le_refl _, Nat.le_refl _, Nat.le_refl _⟩

theorem NoBetter.trans (h : NoBetter p q) (h' : NoBetter q r) : NoBetter p r :=
  ⟨Nat.le_trans h.stratum h'.stratum, Nat.le_trans h.rootDelay h'.rootDelay,
    Nat.le_trans h.rootDispersion h'.rootDispersion⟩

theorem NtpShort.rounded_bits (n : Nat) : n / 1000000000 * 65536 +
    (n % 1000000000 * 65536 + 1000000000 / 2) / 1000000000 =
      (n * 65536 + 500000000) / 1000000000 := by
  omega

theorem NtpShort.toNat_fromNanos (nanos : UInt64) : (fromNanos nanos).bits.toNat =
    min ((nanos.toNat * 65536 + 500000000) / 1000000000) 4294967295 := by
  simp only [fromNanos, rounded_bits]
  split
  · rename_i hsecs
    have hmax : 4294967295 ≤ (nanos.toNat * 65536 + 500000000) / 1000000000 := by omega
    rw [Nat.min_eq_right hmax]
    rfl
  · split
    · rename_i hmax
      rw [Nat.min_eq_right (Nat.le_of_lt hmax)]
      rfl
    · rename_i hmax
      have hle := Nat.le_of_not_lt hmax
      rw [Nat.min_eq_left hle, UInt32.toNat_ofNat']
      omega

theorem NtpShort.fromNanos_mono {a b : UInt64} (h : a ≤ b) :
    (fromNanos a).bits ≤ (fromNanos b).bits := by
  have hnanos := UInt64.le_iff_toNat_le.1 h
  apply UInt32.le_iff_toNat_le.2
  rw [toNat_fromNanos, toNat_fromNanos]
  omega

theorem NtpShort.toNat_toNanos (s : NtpShort) : s.toNanos.toNat =
    s.bits.toNat / 65536 * 1000000000 + (s.bits.toNat % 65536 * 1000000000 + 32768) / 65536 := by
  have hs := s.bits.toNat_lt
  rw [toNanos, UInt64.toNat_ofNat', Nat.mod_eq_of_lt (by omega)]

/-- Sixteen bits of fraction are coarser than a nanosecond. -/
theorem NtpShort.rounded_nanos (n : Nat) :
    ((n / 65536 * 1000000000 + (n % 65536 * 1000000000 + 32768) / 65536) * 65536 + 500000000) /
      1000000000 = n := by
  omega

theorem NtpShort.eq_of_bits {a b : NtpShort} (h : a.bits = b.bits) : a = b := by
  cases a
  cases b
  exact congrArg NtpShort.mk h

/-- A wire value is the nearest one to its own nanoseconds. -/
theorem NtpShort.fromNanos_toNanos (s : NtpShort) : fromNanos s.toNanos = s := by
  have hmax := Nat.le_of_lt_succ s.bits.toNat_lt
  apply NtpShort.eq_of_bits
  apply UInt32.toNat_inj.1
  rw [toNat_fromNanos, toNat_toNanos, rounded_nanos]
  exact Nat.min_eq_left hmax

theorem le_satAdd (a b : UInt64) : a ≤ satAdd a b := by
  have ha := a.toNat_lt
  apply UInt64.le_iff_toNat_le.2
  rw [satAdd, UInt64.toNat_ofNat']
  unfold u64Max
  omega

/-- The distances of a secondary are those of its upstream or more, whatever it measured. -/
theorem rootPath_following (cfg : ServerConfig) (own : UInt64)
    (hsource : cfg.source = .following address p delayNs) :
    p.rootDelay.bits ≤ (rootPath cfg own).2.1.bits ∧
      p.rootDispersion.bits ≤ (rootPath cfg own).2.2.bits := by
  rw [rootPath, hsource]
  constructor
  · have h := NtpShort.fromNanos_mono
      (le_satAdd p.rootDelay.toNanos (.ofNat (max delayNs 0).toNat))
    rwa [NtpShort.fromNanos_toNanos] at h
  · have hown := le_satAdd p.rootDispersion.toNanos own
    have hhop := le_satAdd (satAdd p.rootDispersion.toNanos own) (.ofNat (min delayNs 0).natAbs)
    have h := NtpShort.fromNanos_mono (UInt64.le_trans hown hhop)
    rwa [NtpShort.fromNanos_toNanos] at h

/-- Either mode of service sends the fields of the base packet that describe the server, in a
version the wire can carry. -/
theorem Serves.base (h : Serves cfg state packet) :
    ∃ lastUpdate, gate cfg state = .ok lastUpdate ∧ packet.stratum = cfg.source.stratum ∧
      packet.rootDelay = (basePacket cfg state lastUpdate).rootDelay ∧
      packet.rootDispersion = (basePacket cfg state lastUpdate).rootDispersion ∧
      packet.version.toNat < 8 := by
  obtain ⟨transmit, h⟩ | ⟨request, receive, transmit, h⟩ := h
  · obtain ⟨lastUpdate, hgate⟩ :=
      silentReason_eq_none_iff.1 ((broadcast_serves_iff cfg state transmit).1 ⟨packet, h⟩)
    rw [broadcast, hgate] at h
    cases h
    exact ⟨lastUpdate, hgate, rfl, rfl, rfl, ntpVersion_lt⟩
  · obtain ⟨hsilent, hmode, hversion⟩ :=
      (respond_serves_iff cfg state request receive transmit).1 ⟨packet, h⟩
    obtain ⟨lastUpdate, hgate⟩ := silentReason_eq_none_iff.1 hsilent
    rw [respond_of_request hmode hversion hgate] at h
    cases h
    have hfour : request.version.toNat ≤ 4 := hversion.2
    exact ⟨lastUpdate, hgate, rfl, rfl, rfl, Nat.lt_of_le_of_lt hfour (by decide)⟩

theorem AcceptedPacket.stratum (h : AcceptedPacket p) :
    1 ≤ p.stratum.toNat ∧ p.stratum.toNat ≤ 15 := by
  have hused : ¬(p.leap = .unsynchronized ∨ p.stratum = 0 ∨ p.stratum ≥ 16) := by
    intro hbad
    obtain ⟨request, destination, measured, h⟩ | ⟨destination, delay, measured, h⟩ := h
    · rw [measure, if_pos hbad] at h
      split at h
      · cases h
      · split at h
        · cases h
        · split at h <;> cases h
    · rw [acceptBroadcast, if_pos hbad] at h
      split at h
      · cases h
      · split at h <;> cases h
  constructor
  · apply Nat.one_le_iff_ne_zero.2
    intro h0
    exact hused (.inr (.inl (UInt8.toNat_inj.1 h0)))
  · apply Nat.le_of_lt_succ
    apply Nat.lt_of_not_le
    intro h16
    exact hused (.inr (.inr h16))

/-- One stratum down and no distance lost. -/
theorem Serves.loses (hp : AcceptedPacket p) (hsource : cfg.source = .following address p delayNs)
    (h : Serves cfg state q) :
    q.stratum.toNat = p.stratum.toNat + 1 ∧ q.stratum.toNat ≤ 15 ∧ NoBetter p q := by
  obtain ⟨lastUpdate, hgate, hstratum, hdelay, hdispersion, -⟩ := h.base
  obtain ⟨-, hhi⟩ := gate_ok_stratum hgate
  obtain ⟨hpath, hpath'⟩ :=
    rootPath_following cfg (rootDispersionNs cfg state.holdoverNs) hsource
  have hone : q.stratum.toNat = p.stratum.toNat + 1 := by
    obtain ⟨-, h15⟩ := hp.stratum
    rw [hstratum, hsource, Source.following, Source.stratum, UInt8.toNat_ofNat']
    omega
  rw [← hstratum] at hhi
  have hle : p.stratum ≤ q.stratum := by
    apply UInt8.le_iff_toNat_le.2
    omega
  exact ⟨hone, hhi, hle, hdelay ▸ hpath, hdispersion ▸ hpath'⟩

theorem Hop.loses (h : Hop p q) : q.stratum.toNat = p.stratum.toNat + 1 ∧ NoBetter p q := by
  obtain ⟨hp, cfg, state, address, delayNs, packet, hsource, hserves, hwire⟩ := h
  obtain ⟨-, -, -, -, -, hversion⟩ := hserves.base
  rw [NtpPacket.decode_encode _ hversion] at hwire
  cases hwire
  obtain ⟨hone, -, hworse⟩ := hserves.loses hp hsource
  exact ⟨hone, hworse⟩

/-- Along a chain of secondaries, any number of hops apart. -/
theorem chain_loses {packets : List NtpPacket} (hchain : packets.IsChain Hop) (i n : Nat)
    (hp : packets[i]? = some p) (hq : packets[i + n]? = some q) :
    q.stratum.toNat = p.stratum.toNat + n ∧ NoBetter p q := by
  induction n generalizing q with
  | zero =>
    rw [Nat.add_zero, hp] at hq
    cases hq
    exact ⟨rfl, .refl _⟩
  | succ n ih =>
    obtain ⟨hlt, hq⟩ := List.getElem?_eq_some_iff.1 hq
    have hlast : packets[i + n]? = some packets[i + n] := List.getElem?_eq_getElem (by omega)
    obtain ⟨hstratum, hworse⟩ := ih hlast
    have hhop := List.isChain_iff_getElem.1 hchain (i + n) (by omega)
    have hnext : packets[i + n + 1] = q := hq
    rw [hnext] at hhop
    obtain ⟨hone, hworse'⟩ := hhop.loses
    exact ⟨by omega, hworse.trans hworse'⟩

/-- Nothing follows a server of the last usable stratum. -/
theorem not_serves_of_fifteen
    (hsource : cfg.source = .upstream address 15 rootDelay rootDispersion delayNs) :
    ¬Serves cfg state q := by
  intro h
  obtain ⟨lastUpdate, hgate, -⟩ := h.base
  obtain ⟨-, hhi⟩ := gate_ok_stratum hgate
  rw [hsource] at hhi
  exact absurd hhi (by decide : ¬(16 ≤ 15))

/-- A server that never serves says so in both modes. -/
theorem silent_of_not_serves (h : ∀ q, ¬Serves cfg state q) :
    (∀ transmit, ∃ reason, broadcast cfg state transmit = .silent reason) ∧
      ∀ request receive transmit, ∃ reason,
        respond cfg state request receive transmit = .silent reason := by
  constructor
  · intro transmit
    cases hb : broadcast cfg state transmit with
    | serve packet => exact absurd (.inl ⟨transmit, hb⟩) (h packet)
    | silent reason => exact ⟨reason, rfl⟩
  · intro request receive transmit
    cases hr : respond cfg state request receive transmit with
    | serve packet => exact absurd (.inr ⟨request, receive, transmit, hr⟩) (h packet)
    | silent reason => exact ⟨reason, rfl⟩

/-- A secondary only adds to the distance from the root, over a hop and over a chain of hops, and
below the last stratum there is no service. -/
theorem secondary_only_loses_quality :
    (∀ p address delayNs cfg state q, AcceptedPacket p →
      cfg.source = .following address p delayNs → Serves cfg state q →
      q.stratum.toNat = p.stratum.toNat + 1 ∧ q.stratum.toNat ≤ 15 ∧ NoBetter p q) ∧
    (∀ packets : List NtpPacket, packets.IsChain Hop → ∀ i n p q, packets[i]? = some p →
      packets[i + n]? = some q → q.stratum.toNat = p.stratum.toNat + n ∧ NoBetter p q) ∧
    ∀ cfg address rootDelay rootDispersion delayNs,
      cfg.source = .upstream address 15 rootDelay rootDispersion delayNs → ∀ state,
        (∀ transmit, ∃ reason, broadcast cfg state transmit = .silent reason) ∧
        ∀ request receive transmit, ∃ reason,
          respond cfg state request receive transmit = .silent reason := by
  refine ⟨?_, ?_, ?_⟩
  · intro p address delayNs cfg state q hp hsource hserves
    exact hserves.loses hp hsource
  · intro packets hchain i n p q hp hq
    exact chain_loses hchain i n hp hq
  · intro cfg address rootDelay rootDispersion delayNs hsource state
    exact silent_of_not_serves fun q => not_serves_of_fifteen hsource

/-- A secondary behind a reference clock, over a hop measured too short, and one too many. -/
theorem secondary_only_loses_quality_one_hop :
    (∃ p q, Hop p q ∧ q.stratum.toNat = p.stratum.toNat + 1 ∧ q.stratum.toNat ≤ 15 ∧
      NoBetter p q) ∧
    ∃ reason, broadcast
      ⟨-20, 4, .upstream (.replicate 4 0) 15 .zero .zero 300, 1000000, 1000, 1000000000⟩
      ⟨some 0, 0, true, .none⟩ 5 = .silent reason := by
  obtain ⟨hhop, hchain, hfifteen⟩ := secondary_only_loses_quality
  obtain ⟨hsilent, -⟩ := hfifteen
    ⟨-20, 4, .upstream (.replicate 4 0) 15 .zero .zero 300, 1000000, 1000, 1000000000⟩
    _ _ _ _ rfl ⟨some 0, 0, true, .none⟩
  obtain ⟨p, hprimary⟩ := (broadcast_serves_iff
    ⟨-20, 4, .referenceClock (.replicate 4 0), 1000000, 1000, 1000000000⟩
    ⟨some 0, 0, true, .none⟩ 5).2 rfl
  have hp : AcceptedPacket p := .inr ⟨5, -300, _,
    (acceptBroadcast_broadcast (-300) ⟨by decide, by decide⟩ (by decide) hprimary).2⟩
  have hone : p.stratum = 1 := by
    cases hprimary
    rfl
  obtain ⟨q, hsecondary⟩ := (broadcast_serves_iff
    ⟨-20, 4, .following (.replicate 4 0) p (-300), 1000000, 1000, 1000000000⟩
    ⟨some 0, 0, true, .none⟩ 6).2 (by rw [Source.following, hone]; rfl)
  have hserves : Serves _ _ q := .inl ⟨6, hsecondary⟩
  obtain ⟨hstratum, hhi, hworse⟩ := hhop p (.replicate 4 0) (-300) _ _ q hp rfl hserves
  obtain ⟨-, -, -, -, -, hversion⟩ := hserves.base
  have hwire := NtpPacket.decode_encode q hversion
  have hpq : Hop p q := ⟨hp, _, _, _, _, q, rfl, hserves, hwire⟩
  obtain ⟨-, hworse'⟩ := hchain [p, q] (.cons_cons hpq (.singleton q)) 0 1 p q rfl rfl
  exact ⟨⟨p, q, hpq, hstratum, hhi, hworse'⟩, hsilent 5⟩

end PicoGnss
