import PicoGnss.TinyNtp.Chain

/-! The dispersion that a server advertises, and what a client makes of it, grow with the age of the
last update. -/

namespace PicoGnss
set_option autoImplicit true

theorem toNat_satAdd (a b : UInt64) :
    (satAdd a b).toNat = min (a.toNat + b.toNat) 18446744073709551615 := by
  rw [satAdd, UInt64.toNat_ofNat']
  unfold u64Max
  omega

theorem satAdd_mono {a b c d : UInt64} (hab : a ≤ b) (hcd : c ≤ d) :
    satAdd a c ≤ satAdd b d := by
  have hab := UInt64.le_iff_toNat_le.1 hab
  have hcd := UInt64.le_iff_toNat_le.1 hcd
  apply UInt64.le_iff_toNat_le.2
  rw [toNat_satAdd, toNat_satAdd]
  omega

/-- Neither the product nor its quotient saturates to anything but the last word. -/
theorem toNat_rootDispersionNs (cfg : ServerConfig) (holdoverNs : UInt64) :
    (rootDispersionNs cfg holdoverNs).toNat =
      min (2 ^ 64 - 1) (cfg.baseDispersionNs.toNat +
        holdoverNs.toNat * cfg.holdoverDriftPpb.toNat / 1000000000) := by
  have hproduct : holdoverNs.toNat * cfg.holdoverDriftPpb.toNat ≤
      18446744073709551615 * 18446744073709551615 :=
    Nat.mul_le_mul (Nat.le_of_lt_succ holdoverNs.toNat_lt)
      (Nat.le_of_lt_succ cfg.holdoverDriftPpb.toNat_lt)
  have hwide : min (holdoverNs.toNat * cfg.holdoverDriftPpb.toNat) (2 ^ 128 - 1) =
      holdoverNs.toNat * cfg.holdoverDriftPpb.toNat :=
    Nat.min_eq_left (Nat.le_trans hproduct (by decide))
  have hgrowth (n : Nat) : (if n > u64Max then UInt64.ofNat u64Max else .ofNat n).toNat =
      min n 18446744073709551615 := by
    unfold u64Max
    split <;> rw [UInt64.toNat_ofNat'] <;> omega
  simp only [rootDispersionNs, toNat_satAdd, hwide, hgrowth]
  omega

theorem rootDispersionNs_mono (cfg : ServerConfig) {held held' : UInt64} (h : held ≤ held') :
    rootDispersionNs cfg held ≤ rootDispersionNs cfg held' := by
  have hproduct :=
    Nat.mul_le_mul_right cfg.holdoverDriftPpb.toNat (UInt64.le_iff_toNat_le.1 h)
  have hgrowth : held.toNat * cfg.holdoverDriftPpb.toNat / 1000000000 ≤
      held'.toNat * cfg.holdoverDriftPpb.toNat / 1000000000 := Nat.div_le_div_right hproduct
  apply UInt64.le_iff_toNat_le.2
  rw [toNat_rootDispersionNs, toNat_rootDispersionNs]
  omega

theorem NtpShort.toNanos_mono {s t : NtpShort} (h : s.bits ≤ t.bits) : s.toNanos ≤ t.toNanos := by
  have hbits := UInt32.le_iff_toNat_le.1 h
  apply UInt64.le_iff_toNat_le.2
  rw [toNat_toNanos, toNat_toNanos]
  omega

/-- Half a unit of the wire and half a nanosecond. -/
theorem NtpShort.toNanos_fromNanos_near (nanos : UInt64) (h : nanos.toNat ≤ 65535 * 1000000000) :
    nanos.toNat ≤ (fromNanos nanos).toNanos.toNat + 7630 ∧
      (fromNanos nanos).toNanos.toNat ≤ nanos.toNat + 7630 := by
  rw [toNat_toNanos, toNat_fromNanos]
  omega

/-- Whatever the source, its own dispersion is not lost on the way to the wire. -/
theorem rootPath_mono (cfg : ServerConfig) {own own' : UInt64} (h : own ≤ own') :
    (rootPath cfg own).2.2.bits ≤ (rootPath cfg own').2.2.bits := by
  unfold rootPath
  cases cfg.source with
  | referenceClock id => exact NtpShort.fromNanos_mono h
  | upstream address stratum rootDelay rootDispersion delayNs =>
    apply NtpShort.fromNanos_mono
    exact satAdd_mono (satAdd_mono (UInt64.le_refl _) h) (UInt64.le_refl _)

theorem basePacket_rootDispersion_mono (cfg : ServerConfig) {state state' : ClockState}
    (h : state.holdoverNs ≤ state'.holdoverNs) (lastUpdate lastUpdate' : Int) :
    (basePacket cfg state lastUpdate).rootDispersion.bits ≤
      (basePacket cfg state' lastUpdate').rootDispersion.bits :=
  rootPath_mono cfg (rootDispersionNs_mono cfg h)

theorem Serves.rootDispersion_mono (hserves : Serves cfg state p) (hserves' : Serves cfg state' q)
    (h : state.holdoverNs ≤ state'.holdoverNs) :
    p.rootDispersion.bits ≤ q.rootDispersion.bits := by
  obtain ⟨lastUpdate, -, -, -, hp, -⟩ := hserves.base
  obtain ⟨lastUpdate', -, -, -, hq, -⟩ := hserves'.base
  rw [hp, hq]
  exact basePacket_rootDispersion_mono cfg h lastUpdate lastUpdate'

/-- A packet goes over the wire to a client that measures it. -/
def MeasuredFrom (packet : NtpPacket) (measured : Measurement) : Prop :=
  ∃ request reply destination, NtpPacket.decode packet.encode = some reply ∧
    measure request reply destination = .ok measured

theorem measure_rootDispersionNs {request : NtpPacket}
    (h : measure request reply destination = .ok measured) :
    measured.rootDispersionNs = reply.rootDispersion.toNanos := by
  unfold measure at h
  split at h
  · cases h
  · split at h
    · cases h
    · split at h
      · cases h
      · split at h
        · cases h
        · cases h
          rfl

theorem MeasuredFrom.rootDispersionNs (h : MeasuredFrom packet measured)
    (hserves : Serves cfg state packet) :
    measured.rootDispersionNs = packet.rootDispersion.toNanos := by
  obtain ⟨request, reply, destination, hwire, hmeasure⟩ := h
  obtain ⟨-, -, -, -, -, hversion⟩ := hserves.base
  rw [NtpPacket.decode_encode packet hversion, Option.some.injEq] at hwire
  rw [measure_rootDispersionNs hmeasure, hwire]

/-- The dispersion is the floor and the growth, saturated, the wire carries it to half a unit and in
its order, and so an older clock is never advertised, nor measured, as a better one. -/
theorem dispersion_never_improves :
    (∀ cfg holdoverNs, (rootDispersionNs cfg holdoverNs).toNat =
      min (2 ^ 64 - 1) (cfg.baseDispersionNs.toNat +
        holdoverNs.toNat * cfg.holdoverDriftPpb.toNat / 1000000000)) ∧
    (∀ s : NtpShort, .fromNanos s.toNanos = s) ∧
    (∀ a b : UInt64, a ≤ b → (NtpShort.fromNanos a).bits ≤ (NtpShort.fromNanos b).bits) ∧
    (∀ s t : NtpShort, s.bits ≤ t.bits → s.toNanos ≤ t.toNanos) ∧
    (∀ n : UInt64, n.toNat ≤ 65535 * 1000000000 →
      n.toNat ≤ (NtpShort.fromNanos n).toNanos.toNat + 7630 ∧
        (NtpShort.fromNanos n).toNanos.toNat ≤ n.toNat + 7630) ∧
    ∀ cfg state state', state.holdoverNs ≤ state'.holdoverNs →
      (∀ lastUpdate lastUpdate', (basePacket cfg state lastUpdate).rootDispersion.bits ≤
        (basePacket cfg state' lastUpdate').rootDispersion.bits) ∧
      ∀ p q, Serves cfg state p → Serves cfg state' q →
        p.rootDispersion.bits ≤ q.rootDispersion.bits ∧
        ∀ measured measured', MeasuredFrom p measured → MeasuredFrom q measured' →
          measured.rootDispersionNs ≤ measured'.rootDispersionNs := by
  refine ⟨toNat_rootDispersionNs, NtpShort.fromNanos_toNanos, ?_, ?_, ?_, ?_⟩
  · intro a b h
    exact NtpShort.fromNanos_mono h
  · intro s t h
    exact NtpShort.toNanos_mono h
  · intro n h
    exact NtpShort.toNanos_fromNanos_near n h
  · intro cfg state state' h
    refine ⟨basePacket_rootDispersion_mono cfg h, ?_⟩
    intro p q hp hq
    have hbits := hp.rootDispersion_mono hq h
    refine ⟨hbits, ?_⟩
    intro measured measured' hmeasured hmeasured'
    rw [hmeasured.rootDispersionNs hp, hmeasured'.rootDispersionNs hq]
    exact NtpShort.toNanos_mono hbits

/-- The same exchange with a reference clock just updated, and a second later. -/
theorem dispersion_never_improves_second :
    ∃ p q measured measured', MeasuredFrom p measured ∧ MeasuredFrom q measured' ∧
      p.rootDispersion.bits ≤ q.rootDispersion.bits ∧
      measured.rootDispersionNs ≤ measured'.rootDispersionNs ∧
      1000000 ≤ (NtpShort.fromNanos 1000000).toNanos.toNat + 7630 := by
  obtain ⟨-, -, -, -, hnear, hages⟩ := dispersion_never_improves
  obtain ⟨-, hserved⟩ := hages ⟨-20, 4, .referenceClock (.replicate 4 0), 1000000, 1000, 1000000000⟩
    ⟨some 0, 0, true, .none⟩ ⟨some 0, 1000000000, true, .none⟩ (by decide)
  obtain ⟨p, hp⟩ := (respond_serves_iff
    ⟨-20, 4, .referenceClock (.replicate 4 0), 1000000, 1000, 1000000000⟩
    ⟨some 0, 0, true, .none⟩ (request 5 4) 6 7).2 ⟨rfl, rfl, ntpVersion_spoken⟩
  obtain ⟨q, hq⟩ := (respond_serves_iff
    ⟨-20, 4, .referenceClock (.replicate 4 0), 1000000, 1000, 1000000000⟩
    ⟨some 0, 1000000000, true, .none⟩ (request 5 4) 6 7).2 ⟨rfl, rfl, ntpVersion_spoken⟩
  have hsent : WithinHalfEra 5 8 := ⟨by decide, by decide⟩
  have hreceived : WithinHalfEra 6 8 := ⟨by decide, by decide⟩
  have hanswered : WithinHalfEra 7 8 := ⟨by decide, by decide⟩
  obtain ⟨hwire, hmeasure⟩ := measure_respond 4 hsent hreceived hanswered (by decide) hp
  obtain ⟨hwire', hmeasure'⟩ := measure_respond 4 hsent hreceived hanswered (by decide) hq
  have hfrom : MeasuredFrom p _ := ⟨_, p, 8, hwire, hmeasure⟩
  have hfrom' : MeasuredFrom q _ := ⟨_, q, 8, hwire', hmeasure'⟩
  obtain ⟨hbits, hmeasured⟩ := hserved p q (.inr ⟨_, _, _, hp⟩) (.inr ⟨_, _, _, hq⟩)
  obtain ⟨hnear, -⟩ := hnear 1000000 (by decide)
  exact ⟨p, q, _, _, hfrom, hfrom', hbits, hmeasured _ _ hfrom hfrom', hnear⟩

end PicoGnss
