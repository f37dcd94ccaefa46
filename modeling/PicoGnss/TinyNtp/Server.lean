import PicoGnss.TinyNtp.Packet

namespace PicoGnss
set_option autoImplicit true

def maxStratum : UInt8 := 16
def ntpVersion : UInt8 := 4

inductive Source where
  | referenceClock (id : Vector UInt8 4)
  | upstream (address : Vector UInt8 4) (stratum : UInt8) (rootDelay rootDispersion : NtpShort)
      (delayNs : Int)
deriving DecidableEq

inductive LeapWarning where
  | none
  | insert
  | delete
deriving DecidableEq

structure ServerConfig where
  precision : Int8
  poll : Int8
  source : Source
  baseDispersionNs : UInt64
  holdoverDriftPpb : UInt64
  maxHoldoverNs : UInt64
deriving DecidableEq

structure ClockState where
  lastUpdateUnixNs : Option Int
  holdoverNs : UInt64
  frequencyLocked : Bool
  leap : LeapWarning
deriving DecidableEq

inductive SilentReason where
  | noEpoch
  | frequencyUnlocked
  | holdoverExceeded
  | tooDeep
  | notARequest
  | unsupportedVersion
  | upstreamUnsynchronised
deriving DecidableEq

inductive ServeDecision where
  | serve (packet : NtpPacket)
  | silent (reason : SilentReason)
deriving DecidableEq

def u64Max : Nat := 18446744073709551615

/-- `u64::saturating_add`. -/
def satAdd (a b : UInt64) : UInt64 := .ofNat (min (a.toNat + b.toNat) u64Max)

def rootDispersionNs (cfg : ServerConfig) (holdoverNs : UInt64) : UInt64 :=
  let growth := min (holdoverNs.toNat * cfg.holdoverDriftPpb.toNat) (2 ^ 128 - 1) / 1000000000
  let growth := if growth > u64Max then .ofNat u64Max else .ofNat growth
  satAdd cfg.baseDispersionNs growth

def Source.stratum : Source → UInt8
  | referenceClock _ => 1
  | upstream _ stratum _ _ _ => .ofNat (min (stratum.toNat + 1) 255)

def gate (cfg : ServerConfig) (state : ClockState) : Except SilentReason Int :=
  match state.lastUpdateUnixNs with
  | none => .error .noEpoch
  | some lastUpdate =>
    if !state.frequencyLocked then .error .frequencyUnlocked
    else if state.holdoverNs > cfg.maxHoldoverNs then .error .holdoverExceeded
    else match cfg.source with
      | .upstream _ 0 _ _ _ => .error .upstreamUnsynchronised
      | source => if source.stratum ≥ maxStratum then .error .tooDeep else .ok lastUpdate

def silentReason (cfg : ServerConfig) (state : ClockState) : Option SilentReason :=
  match gate cfg state with
  | .error reason => some reason
  | .ok _ => none

def rootPath (cfg : ServerConfig) (ownDispersion : UInt64) :
    Vector UInt8 4 × NtpShort × NtpShort :=
  match cfg.source with
  | .referenceClock id => (id, .zero, .fromNanos ownDispersion)
  | .upstream address _ rootDelay rootDispersion delayNs =>
    (address, .fromNanos (satAdd rootDelay.toNanos (.ofNat (max delayNs 0).toNat)),
      .fromNanos (satAdd (satAdd rootDispersion.toNanos ownDispersion)
        (.ofNat (min delayNs 0).natAbs)))

def LeapWarning.indicator : LeapWarning → LeapIndicator
  | none => .noWarning
  | insert => .lastMinute61
  | delete => .lastMinute59

def basePacket (cfg : ServerConfig) (state : ClockState) (lastUpdate : Int) : NtpPacket :=
  let ownDispersion := rootDispersionNs cfg state.holdoverNs
  let (referenceId, rootDelay, rootDispersion) := rootPath cfg ownDispersion
  { leap := state.leap.indicator
    version := ntpVersion
    mode := .broadcast
    stratum := cfg.source.stratum
    poll := cfg.poll
    precision := cfg.precision
    rootDelay
    rootDispersion
    referenceId
    referenceTimestamp := .fromUnixNs lastUpdate
    originTimestamp := .zero
    receiveTimestamp := .zero
    transmitTimestamp := .zero }

def broadcast (cfg : ServerConfig) (state : ClockState) (transmitUnixNs : Int) : ServeDecision :=
  match gate cfg state with
  | .error reason => .silent reason
  | .ok lastUpdate =>
    .serve { basePacket cfg state lastUpdate with
      mode := .broadcast
      transmitTimestamp := .fromUnixNs transmitUnixNs }

def respond (cfg : ServerConfig) (state : ClockState) (request : NtpPacket)
    (receiveUnixNs transmitUnixNs : Int) : ServeDecision :=
  if request.mode ≠ .client then .silent .notARequest
  else if request.version = 0 ∨ request.version > ntpVersion then .silent .unsupportedVersion
  else match gate cfg state with
    | .error reason => .silent reason
    | .ok lastUpdate =>
      .serve { basePacket cfg state lastUpdate with
        mode := .server
        version := request.version
        poll := request.poll
        originTimestamp := request.transmitTimestamp
        receiveTimestamp := .fromUnixNs receiveUnixNs
        transmitTimestamp := .fromUnixNs transmitUnixNs }

theorem Source.one_le_stratum (source : Source) : 1 ≤ source.stratum.toNat := by
  cases source with
  | referenceClock id => exact Nat.le_refl 1
  | upstream address stratum rootDelay rootDispersion delayNs =>
    have hs := stratum.toNat_lt
    rw [Source.stratum, UInt8.toNat_ofNat']
    omega

/-- A server that passes its gate claims a usable stratum. -/
theorem gate_ok_stratum (h : gate cfg state = .ok lastUpdate) :
    1 ≤ cfg.source.stratum.toNat ∧ cfg.source.stratum.toNat ≤ 15 := by
  refine ⟨cfg.source.one_le_stratum, ?_⟩
  have hlt : ¬cfg.source.stratum ≥ maxStratum := by
    intro hge
    simp only [gate] at h
    split at h
    · cases h
    · split at h
      · cases h
      · split at h
        · cases h
        · split at h
          · cases h
          · rw [if_pos hge] at h
            cases h
  exact Nat.le_of_lt_succ (Nat.lt_of_not_le hlt)

theorem silentReason_eq_none_iff :
    silentReason cfg state = none ↔ ∃ lastUpdate, gate cfg state = .ok lastUpdate := by
  cases h : gate cfg state with
  | error reason => simp [silentReason, h]
  | ok lastUpdate => simp [silentReason, h]

theorem broadcast_serves_iff (cfg : ServerConfig) (state : ClockState) (t : Int) :
    (∃ packet, broadcast cfg state t = .serve packet) ↔ silentReason cfg state = none := by
  rw [silentReason_eq_none_iff]
  cases h : gate cfg state with
  | error reason => simp [broadcast, h]
  | ok lastUpdate => simp [broadcast, h]

theorem respond_of_request (hmode : request.mode = .client)
    (hversion : 1 ≤ request.version ∧ request.version ≤ 4) (hgate : gate cfg state = .ok lastUpdate)
    (r t : Int) : respond cfg state request r t =
      .serve { basePacket cfg state lastUpdate with
        mode := .server
        version := request.version
        poll := request.poll
        originTimestamp := request.transmitTimestamp
        receiveTimestamp := .fromUnixNs r
        transmitTimestamp := .fromUnixNs t } := by
  have hv : ¬(request.version = 0 ∨ request.version > ntpVersion) := by
    rintro (h0 | h4)
    · rw [h0] at hversion
      exact absurd hversion.1 (by decide)
    · exact absurd hversion.2 (Nat.not_le_of_lt h4)
  rw [respond, if_neg (not_not.2 hmode), if_neg hv, hgate]

theorem respond_serves_iff (cfg : ServerConfig) (state : ClockState) (request : NtpPacket)
    (r t : Int) : (∃ packet, respond cfg state request r t = .serve packet) ↔
      silentReason cfg state = none ∧ request.mode = .client ∧
        1 ≤ request.version ∧ request.version ≤ 4 := by
  constructor
  · rintro ⟨packet, h⟩
    rw [respond] at h
    split at h
    · cases h
    · rename_i hmode
      split at h
      · cases h
      · rename_i hversion
        have hv0 : request.version.toNat ≠ 0 := by
          intro h0
          exact hversion (.inl (UInt8.toNat_inj.1 h0))
        split at h
        · cases h
        · rename_i lastUpdate hgate
          exact ⟨silentReason_eq_none_iff.2 ⟨lastUpdate, hgate⟩, not_not.1 hmode,
            Nat.one_le_iff_ne_zero.2 hv0, Nat.le_of_not_lt fun h4 => hversion (.inr h4)⟩
  · rintro ⟨hsilent, hmode, hversion⟩
    obtain ⟨lastUpdate, hgate⟩ := silentReason_eq_none_iff.1 hsilent
    exact ⟨_, respond_of_request hmode hversion hgate r t⟩

end PicoGnss
