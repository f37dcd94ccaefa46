import PicoGnss.Lib.FixedWidth

namespace PicoGnss
open FixedWidth
set_option autoImplicit true

structure DisciplinedClockConfig where
  emaShift : Nat
  emaShiftFast : Nat
  lockSamples : NonZeroU32
  saneDevNs : NonZeroU64
  convergeGateNs : NonZeroU64
  residualGateNs : NonZeroU64
  quarantineSamples : Nat
  slopeEmaShift : Nat
  slopeMaxMppb : Int
  predLeadSamples : Int
  residualSlopeWiden : Int
  slopeFreezeResidMppb : Int
  tempFfEnable : Bool
  tempFfShift : Nat
  tempFfSmShift : Nat
  tempFfGainQ8 : Int
  tempFfLagQ8 : Int
  tempFfDleadShift : Nat
  residObsShift : Nat
  tempKClampMppb : Int
  tempFfLeadClampRaw : Int
  steerFfBoundMppb : Int

def DisciplinedClockConfig.default : DisciplinedClockConfig where
  emaShift := 5
  emaShiftFast := 3
  lockSamples := ⟨8, by decide, by decide⟩
  saneDevNs := ⟨1000000, by decide, by decide⟩
  convergeGateNs := ⟨100000, by decide, by decide⟩
  residualGateNs := ⟨5000, by decide, by decide⟩
  quarantineSamples := 5
  slopeEmaShift := 9
  slopeMaxMppb := 5000
  predLeadSamples := 1
  residualSlopeWiden := 8
  slopeFreezeResidMppb := 2000000
  tempFfEnable := false
  tempFfShift := 7
  tempFfSmShift := 4
  tempFfGainQ8 := 64
  tempFfLagQ8 := 1536
  tempFfDleadShift := 2
  residObsShift := 2
  tempKClampMppb := 100000
  tempFfLeadClampRaw := 64
  steerFfBoundMppb := 100000

inductive FreqUpdate where
  | applied
  | gatedSane
  | gatedQuality
  | quarantined
deriving DecidableEq

/-- The clock model; the temperature states are in 1/256 sensor units. -/
structure DisciplinedClock where
  config : DisciplinedClockConfig
  freqMppb : Int := 0
  freqSlopeMppb : Int := 0
  samples : Nat := 0
  quarantine : Nat := 0
  epochCaptureNs : Option Nat := none
  epochQueryNs : Option Nat := none
  epochUnixNs : Option Int := none
  lastQueryNs : Option Nat := none
  tempNow : Int := 0
  tempHave : Bool := false
  tempSm : Int := 0
  tempMt : Int := 0
  tempMfMppb : Int := 0
  tempCov : Int := 0
  tempVar : Int := 0
  tempRef : Int := 0
  rResid : Int := 0
  tempDieLp : Int := 0
  tempDiePrev : Int := 0
  tempDlead : Int := 0
  tcrysHat : Int := 0

/-- The sub-second part of a residual that may be off by whole seconds. -/
def snapToSecondNs (raw : Int) : Int :=
  let secs := (wrap64 (raw + raw.sign * 500000000)).tdiv 1000000000
  wrap64 (raw - secs * 1000000000)

namespace DisciplinedClock

variable {c : DisciplinedClock}

def withConfig (config : DisciplinedClockConfig) : DisciplinedClock where
  config := config

def new : DisciplinedClock := withConfig .default

def isLocked (c : DisciplinedClock) : Bool := decide (c.config.lockSamples.get ≤ c.samples)

def tempKMppbPerUnit (c : DisciplinedClock) : Int :=
  if 0 < c.tempVar then (wrap64 (c.tempCov * 256)).tdiv c.tempVar else 0

def tempFfMppb (c : DisciplinedClock) (tcrysHatFp : Int) : Int :=
  if c.tempVar ≤ 0 then 0
  else
    let k := clamp c.tempKMppbPerUnit (-c.config.tempKClampMppb) c.config.tempKClampMppb
    let dt := tcrysHatFp - c.tempRef
    wrap64 ((k * dt).tdiv 256)

/-- The quality gate: relative to the level once locked, absolute while converging. -/
def qualityGated (c : DisciplinedClock) (dev : Int) : Bool :=
  if c.isLocked then
    let gate := asI64 c.config.residualGateNs.get * 1000 +
      c.freqSlopeMppb.natAbs * c.config.residualSlopeWiden
    decide (gate < (dev * 1000 - c.freqMppb).natAbs)
  else decide (asI64 c.config.convergeGateNs.get < dev.natAbs)

/-- The level and slope update of an accepted sample. -/
def trackFreq (c : DisciplinedClock) (measuredMppb : Int) : DisciplinedClock :=
  let levelShift := min (if c.isLocked then c.config.emaShift else c.config.emaShiftFast) 63
  let projected := c.freqMppb + c.freqSlopeMppb
  let resid := measuredMppb - projected
  let slope := if c.isLocked ∧ resid.natAbs < c.config.slopeFreezeResidMppb then
      clamp (c.freqSlopeMppb + resid >>> min c.config.slopeEmaShift 63)
        (-c.config.slopeMaxMppb) c.config.slopeMaxMppb
    else c.freqSlopeMppb
  { c with freqMppb := projected + resid >>> levelShift, freqSlopeMppb := slope }

/-- The temperature regression and the residual observer of an accepted sample. -/
def trackTemp (c : DisciplinedClock) (measuredMppb : Int) : DisciplinedClock :=
  if c.config.tempFfEnable && c.tempHave && c.isLocked then
    let s := min c.config.tempFfShift 30
    let mt := c.tempMt + (c.tempSm - c.tempMt) >>> s
    let mf := c.tempMfMppb + (measuredMppb - c.tempMfMppb) >>> s
    let dt := c.tempSm - mt
    let df := measuredMppb - mf
    let c := { c with
      tempMt := mt
      tempMfMppb := mf
      tempCov := c.tempCov + (dt * df - c.tempCov) >>> s
      tempVar := c.tempVar + (dt * dt - c.tempVar) >>> s }
    let innov := measuredMppb - c.tempFfMppb c.tcrysHat - c.rResid
    { c with rResid := c.rResid + innov >>> min c.config.residObsShift 63 }
  else c

def updateFreq (c : DisciplinedClock) (intervalNs : Int) : FreqUpdate × DisciplinedClock :=
  let dev := intervalNs - 1000000000
  if asI64 c.config.saneDevNs.get ≤ dev.natAbs then (.gatedSane, c)
  else if 0 < c.quarantine then (.quarantined, { c with quarantine := c.quarantine - 1 })
  else if c.samples = 0 then (.applied, { c with freqMppb := dev * 1000, samples := 1 })
  else if c.qualityGated dev then (.gatedQuality, c)
  else
    let tracked := (c.trackFreq (dev * 1000)).trackTemp (dev * 1000)
    -- the sample counter is a `u32` that wraps after 2^32 accepted samples
    (.applied, { tracked with samples := (tracked.samples + 1) % 4294967296 })

def updateTemp (c : DisciplinedClock) (temp : Int) : DisciplinedClock :=
  let tFp := wrap64 (temp * 256)
  if c.tempHave then
    let sm := min c.config.tempFfSmShift 30
    let dieLp := c.tempDieLp + (tFp - c.tempDieLp) >>> sm
    let rawD := dieLp - c.tempDiePrev
    let dlead := c.tempDlead + (rawD - c.tempDlead) >>> min c.config.tempFfDleadShift 63
    let lead := (c.config.tempFfLagQ8 * dlead) >>> (8 : Nat)
    let bound := wrap64 (c.config.tempFfLeadClampRaw * 256)
    { c with
      tempNow := temp
      tempSm := c.tempSm + (tFp - c.tempSm) >>> sm
      tempDieLp := dieLp
      tempDiePrev := dieLp
      tempDlead := dlead
      tcrysHat := clamp (dieLp + lead) (dieLp - bound) (dieLp + bound) }
  else
    { c with
      tempNow := temp
      tempSm := tFp
      tempMt := tFp
      tempMfMppb := c.freqMppb
      tempRef := tFp
      tempDieLp := tFp
      tempDiePrev := tFp
      tempDlead := 0
      tcrysHat := tFp
      tempHave := true }

def setTempFfEnable (c : DisciplinedClock) (en : Bool) : DisciplinedClock :=
  { c with config := { c.config with tempFfEnable := en } }

def setTempFfParams (c : DisciplinedClock) (smShift shift : Nat) (gainQ8 : Int) :
    DisciplinedClock :=
  { c with config :=
      { c.config with tempFfSmShift := smShift, tempFfShift := shift, tempFfGainQ8 := gainQ8 } }

def setTempFfLag (c : DisciplinedClock) (lagQ8 : Int) (dleadShift obsShift : Nat) :
    DisciplinedClock :=
  { c with config :=
      { c.config with
        tempFfLagQ8 := lagQ8, tempFfDleadShift := dleadShift, residObsShift := obsShift } }

def startQuarantine (c : DisciplinedClock) : DisciplinedClock :=
  if 0 < c.samples then { c with quarantine := c.config.quarantineSamples } else c

def inQuarantine (c : DisciplinedClock) : Bool := decide (0 < c.quarantine)

def updateEpoch (c : DisciplinedClock) (captureNs queryNs : Nat) (unixNs : Int) :
    DisciplinedClock :=
  { c with
    epochCaptureNs := some captureNs
    epochQueryNs := some queryNs
    epochUnixNs := some unixNs
    lastQueryNs := some queryNs }

def corrected (c : DisciplinedClock) (d : Int) : Int :=
  wrap64 (d - wrap64 ((d * c.freqMppb).tdiv 1000000000000))

def correctedSlope (c : DisciplinedClock) (d : Int) : Int :=
  let level := wrap64 ((d * c.freqMppb).tdiv 1000000000000)
  let slopeTerm := wrap64 ((c.freqSlopeMppb * d * d).tdiv 2000000000000000000000)
  wrap64 (wrap64 (d - level) - slopeTerm)

def freqPpb (c : DisciplinedClock) : Int :=
  let half := 500 * c.freqMppb.sign
  (c.freqMppb + half).tdiv 1000

def predictedFreqMppb (c : DisciplinedClock) : Int :=
  if c.config.tempFfEnable && c.tempHave && decide (0 < c.tempVar) then
    c.tempFfMppb c.tcrysHat + c.rResid
  else c.freqMppb + c.freqSlopeMppb * c.config.predLeadSamples

def steeringFreqMppb (c : DisciplinedClock) : Int :=
  let delta := c.predictedFreqMppb - c.freqMppb
  c.freqMppb + clamp delta (-c.config.steerFfBoundMppb) c.config.steerFfBoundMppb

def nowFromCaptureNs (c : DisciplinedClock) (captureNs : Nat) : Option Int := do
  let ep ← c.epochCaptureNs
  let eu ← c.epochUnixNs
  some (wrap64 (eu + c.corrected (wrap64 (asI64 captureNs - asI64 ep))))

def nowFromCaptureNsHoldover (c : DisciplinedClock) (captureNs : Nat) : Option Int := do
  let ep ← c.epochCaptureNs
  let eu ← c.epochUnixNs
  some (wrap64 (eu + c.correctedSlope (wrap64 (asI64 captureNs - asI64 ep))))

def nowFromQueryNs (c : DisciplinedClock) (queryNs : Nat) : Option Int := do
  let ei ← c.epochQueryNs
  let eu ← c.epochUnixNs
  some (wrap64 (eu + c.corrected (wrap64 (asI64 queryNs - asI64 ei))))

/-- The local ns that a true interval lasts, as the inverse read-outs compute it. -/
def trueToLocalNs (c : DisciplinedClock) (trueNs : Int) : Int :=
  wrap64 (trueNs + wrap64 ((trueNs * c.freqMppb).tdiv 1000000000000))

def queryNsForUnixNs (c : DisciplinedClock) (unixNs : Int) : Option Int := do
  let ei ← c.epochQueryNs
  let eu ← c.epochUnixNs
  some (wrap64 (asI64 ei + c.trueToLocalNs (wrap64 (unixNs - eu))))

def captureNsForUnixNs (c : DisciplinedClock) (unixNs : Int) : Option Int := do
  let ep ← c.epochCaptureNs
  let eu ← c.epochUnixNs
  some (wrap64 (asI64 ep + c.trueToLocalNs (wrap64 (unixNs - eu))))

def predictionResidualNs (c : DisciplinedClock) (captureNs : Nat) (unixNs : Int) : Option Int :=
  (c.nowFromCaptureNs captureNs).map fun predicted => snapToSecondNs (wrap64 (predicted - unixNs))

def predictionResidualHoldoverNs (c : DisciplinedClock) (captureNs : Nat) (unixNs : Int) :
    Option Int :=
  (c.nowFromCaptureNsHoldover captureNs).map fun predicted =>
    snapToSecondNs (wrap64 (predicted - unixNs))

def fireResidualNs (c : DisciplinedClock) (captureNs : Nat) (unixNs : Int) : Option Int :=
  (c.captureNsForUnixNs unixNs).map fun tick => snapToSecondNs (wrap64 (tick - asI64 captureNs))

def holdoverNs (c : DisciplinedClock) (queryNs : Nat) : Nat :=
  match c.lastQueryNs with
  | some t => queryNs - t
  | none => 0

/-- Two states that agree on the epoch. -/
structure SameEpoch (c c' : DisciplinedClock) : Prop where
  captureNs : c'.epochCaptureNs = c.epochCaptureNs
  queryNs : c'.epochQueryNs = c.epochQueryNs
  unixNs : c'.epochUnixNs = c.epochUnixNs
  lastQueryNs : c'.lastQueryNs = c.lastQueryNs

theorem SameEpoch.refl (c : DisciplinedClock) : SameEpoch c c := ⟨rfl, rfl, rfl, rfl⟩

theorem SameEpoch.trans (h : SameEpoch c c') (h' : SameEpoch c' c'') : SameEpoch c c'' :=
  ⟨h'.captureNs.trans h.captureNs, h'.queryNs.trans h.queryNs, h'.unixNs.trans h.unixNs,
    h'.lastQueryNs.trans h.lastQueryNs⟩

theorem trackTemp_sameEpoch (c : DisciplinedClock) (m : Int) : SameEpoch c (c.trackTemp m) := by
  unfold trackTemp
  split
  · exact ⟨rfl, rfl, rfl, rfl⟩
  · exact .refl c

theorem trackFreq_sameEpoch (c : DisciplinedClock) (m : Int) : SameEpoch c (c.trackFreq m) :=
  ⟨rfl, rfl, rfl, rfl⟩

/-- What a measured interval can do to the clock, with the gates it has passed. -/
inductive FreqStep (c : DisciplinedClock) (ns : Int) : FreqUpdate → DisciplinedClock → Prop where
  | gatedSane : asI64 c.config.saneDevNs.get ≤ (ns - 1000000000).natAbs →
      FreqStep c ns .gatedSane c
  | quarantined : ¬asI64 c.config.saneDevNs.get ≤ (ns - 1000000000).natAbs → 0 < c.quarantine →
      FreqStep c ns .quarantined { c with quarantine := c.quarantine - 1 }
  | first : ¬asI64 c.config.saneDevNs.get ≤ (ns - 1000000000).natAbs → ¬0 < c.quarantine →
      c.samples = 0 →
      FreqStep c ns .applied { c with freqMppb := (ns - 1000000000) * 1000, samples := 1 }
  | gatedQuality : ¬asI64 c.config.saneDevNs.get ≤ (ns - 1000000000).natAbs → ¬0 < c.quarantine →
      ¬c.samples = 0 → c.qualityGated (ns - 1000000000) = true →
      FreqStep c ns .gatedQuality c
  | tracked : ¬asI64 c.config.saneDevNs.get ≤ (ns - 1000000000).natAbs → ¬0 < c.quarantine →
      ¬c.samples = 0 → ¬c.qualityGated (ns - 1000000000) = true →
      c' = (c.trackFreq ((ns - 1000000000) * 1000)).trackTemp ((ns - 1000000000) * 1000) →
      FreqStep c ns .applied { c' with samples := (c'.samples + 1) % 4294967296 }

theorem FreqStep.eq (h : FreqStep c ns u c') : c.updateFreq ns = (u, c') := by
  cases h with
  | gatedSane hsane => simp only [updateFreq, if_pos hsane]
  | quarantined hsane hq => simp only [updateFreq, if_neg hsane, if_pos hq]
  | first hsane hq hs => simp only [updateFreq, if_neg hsane, if_neg hq, if_pos hs]
  | gatedQuality hsane hq hs hg =>
    simp only [updateFreq, if_neg hsane, if_neg hq, if_neg hs, if_pos hg]
  | tracked hsane hq hs hg htrack =>
    subst htrack
    simp only [updateFreq, if_neg hsane, if_neg hq, if_neg hs, if_neg hg]

theorem FreqStep.exists (c : DisciplinedClock) (ns : Int) : ∃ u c', FreqStep c ns u c' := by
  by_cases hsane : asI64 c.config.saneDevNs.get ≤ (ns - 1000000000).natAbs
  · exact ⟨_, _, .gatedSane hsane⟩
  by_cases hq : 0 < c.quarantine
  · exact ⟨_, _, .quarantined hsane hq⟩
  by_cases hs : c.samples = 0
  · exact ⟨_, _, .first hsane hq hs⟩
  by_cases hg : c.qualityGated (ns - 1000000000) = true
  · exact ⟨_, _, .gatedQuality hsane hq hs hg⟩
  · exact ⟨_, _, .tracked hsane hq hs hg rfl⟩

theorem trackTemp_frame (c : DisciplinedClock) (m : Int) : (c.trackTemp m).config = c.config ∧
    (c.trackTemp m).samples = c.samples ∧ (c.trackTemp m).quarantine = c.quarantine := by
  unfold trackTemp
  split <;> exact ⟨rfl, rfl, rfl⟩

/-- The configuration is fixed, and a sample counts once, as applied or as quarantined. -/
theorem FreqStep.counters (h : FreqStep c ns u c') (hs : c.samples < 4294967295) :
    c'.config = c.config ∧ c'.samples = c.samples + (if u = .applied then 1 else 0) ∧
      c.quarantine = c'.quarantine + (if u = .quarantined then 1 else 0) := by
  cases h with
  | gatedSane | gatedQuality => exact ⟨rfl, rfl, rfl⟩
  | quarantined _ hq => exact ⟨rfl, rfl, (Nat.sub_add_cancel hq).symm⟩
  | first _ _ hzero =>
    refine ⟨rfl, ?_, rfl⟩
    rw [hzero]
    rfl
  | @tracked d _ _ _ _ htrack =>
    obtain ⟨hc, hsamples, hq⟩ :=
      trackTemp_frame (c.trackFreq ((ns - 1000000000) * 1000)) ((ns - 1000000000) * 1000)
    rw [← htrack] at hc hsamples hq
    refine ⟨hc, ?_, hq.symm⟩
    change (d.samples + 1) % 4294967296 = c.samples + 1
    rw [hsamples]
    exact Nat.mod_eq_of_lt (Nat.succ_lt_succ hs)

/-- Only an applied sample moves the estimate. -/
theorem FreqStep.estimate (h : FreqStep c ns u c') (hu : u ≠ .applied) :
    c'.freqMppb = c.freqMppb ∧ c'.freqSlopeMppb = c.freqSlopeMppb ∧ c'.samples = c.samples := by
  cases h with
  | gatedSane | gatedQuality | quarantined => exact ⟨rfl, rfl, rfl⟩
  | first | tracked => exact absurd rfl hu

/-- A sample is applied within the emergency stop and outside a quarantine. -/
theorem FreqStep.trusted (h : FreqStep c ns .applied c') :
    (ns - 1000000000).natAbs < asI64 c.config.saneDevNs.get ∧ c.quarantine = 0 := by
  cases h with
  | first hsane hq => exact ⟨Int.not_le.1 hsane, Nat.eq_zero_of_not_pos hq⟩
  | tracked hsane hq => exact ⟨Int.not_le.1 hsane, Nat.eq_zero_of_not_pos hq⟩

theorem updateFreq_sameEpoch (c : DisciplinedClock) (intervalNs : Int) :
    SameEpoch c (c.updateFreq intervalNs).2 := by
  obtain ⟨u, c', h⟩ := FreqStep.exists c intervalNs
  rw [h.eq]
  cases h with
  | gatedSane | gatedQuality => exact .refl c
  | quarantined | first => exact ⟨rfl, rfl, rfl, rfl⟩
  | tracked _ _ _ _ htrack =>
    subst htrack
    have ht := (trackFreq_sameEpoch c ((intervalNs - 1000000000) * 1000)).trans
      (trackTemp_sameEpoch _ ((intervalNs - 1000000000) * 1000))
    exact ⟨ht.captureNs, ht.queryNs, ht.unixNs, ht.lastQueryNs⟩

theorem startQuarantine_frame (c : DisciplinedClock) :
    c.startQuarantine.config = c.config ∧ c.startQuarantine.freqMppb = c.freqMppb ∧
      c.startQuarantine.freqSlopeMppb = c.freqSlopeMppb ∧
      c.startQuarantine.samples = c.samples := by
  unfold startQuarantine
  split <;> exact ⟨rfl, rfl, rfl, rfl⟩

theorem startQuarantine_quarantine (h : 0 < c.samples) :
    c.startQuarantine.quarantine = c.config.quarantineSamples := by
  rw [startQuarantine, if_pos h]

theorem startQuarantine_sameEpoch (c : DisciplinedClock) : SameEpoch c c.startQuarantine := by
  unfold startQuarantine
  split
  · exact ⟨rfl, rfl, rfl, rfl⟩
  · exact .refl c

/-- At its own epoch the clock reads the pinned instant, whatever the frequency. -/
theorem nowFromQueryNs_at_epoch {c : DisciplinedClock} (hq : c.epochQueryNs = some q)
    (hu : c.epochUnixNs = some u) (h : InI64 u) : c.nowFromQueryNs q = some u := by
  have hzero : c.corrected 0 = 0 := by
    rw [corrected, Int.zero_mul, Int.zero_tdiv]
    rfl
  rw [nowFromQueryNs, hq, hu]
  change some (wrap64 (u + c.corrected (wrap64 (asI64 q - asI64 q)))) = some u
  rw [Int.sub_self, wrap64_zero, hzero, Int.add_zero, wrap64_of_inI64 h]

end DisciplinedClock

end PicoGnss
