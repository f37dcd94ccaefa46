import PicoGnss.Gnssdo.Checked

/-! The temperature feedforward with a trap wherever a value is lost, in a shift or a cast too. -/

namespace PicoGnss
open FixedWidth
set_option autoImplicit true

namespace DisciplinedClock

def tempKMppbPerUnitExact (c : DisciplinedClock) : Option Int :=
  if 0 < c.tempVar then do
    let shifted ← checked (c.tempCov * 256)
    checked (shifted.tdiv c.tempVar)
  else some 0

def tempFfMppbExact (c : DisciplinedClock) (tcrysHatFp : Int) : Option Int :=
  if c.tempVar ≤ 0 then some 0
  else do
    let lo ← checked (-c.config.tempKClampMppb)
    let slope ← c.tempKMppbPerUnitExact
    let k := clamp slope lo c.config.tempKClampMppb
    let dt ← checked (tcrysHatFp - c.tempRef)
    let kDt ← checked128 (k * dt)
    checked (kDt.tdiv 256)

def trackTempExact (c : DisciplinedClock) (measuredMppb : Int) : Option DisciplinedClock :=
  if c.config.tempFfEnable && c.tempHave && c.isLocked then do
    let s := min c.config.tempFfShift 30
    let stepMt ← checked (c.tempSm - c.tempMt)
    let mt ← checked (c.tempMt + stepMt >>> s)
    let stepMf ← checked (measuredMppb - c.tempMfMppb)
    let mf ← checked (c.tempMfMppb + stepMf >>> s)
    let dt ← checked (c.tempSm - mt)
    let df ← checked (measuredMppb - mf)
    let dtDf ← checked (dt * df)
    let stepCov ← checked (dtDf - c.tempCov)
    let cov ← checked (c.tempCov + stepCov >>> s)
    let dtDt ← checked (dt * dt)
    let stepVar ← checked (dtDt - c.tempVar)
    let var ← checked (c.tempVar + stepVar >>> s)
    let c := { c with tempMt := mt, tempMfMppb := mf, tempCov := cov, tempVar := var }
    let ff ← c.tempFfMppbExact c.tcrysHat
    let unexplained ← checked (measuredMppb - ff)
    let innov ← checked (unexplained - c.rResid)
    let resid ← checked (c.rResid + innov >>> (min c.config.residObsShift 63 : Nat))
    some { c with rResid := resid }
  else some c

def updateFreqExact (c : DisciplinedClock) (intervalNs : Int) :
    Option (FreqUpdate × DisciplinedClock) := do
  let dev ← checked (intervalNs - 1000000000)
  let absDev ← checked dev.natAbs
  if asI64 c.config.saneDevNs.get ≤ absDev then some (.gatedSane, c)
  else if 0 < c.quarantine then some (.quarantined, { c with quarantine := c.quarantine - 1 })
  else do
    let measuredMppb ← checked (dev * 1000)
    if c.samples = 0 then some (.applied, { c with freqMppb := measuredMppb, samples := 1 })
    else do
      let gated ← c.qualityGatedChecked dev measuredMppb
      if gated then some (.gatedQuality, c)
      else do
        let tracked ← c.trackFreqChecked measuredMppb
        let tracked ← tracked.trackTempExact measuredMppb
        some (.applied, { tracked with samples := (tracked.samples + 1) % 4294967296 })

def updateTempExact (c : DisciplinedClock) (temp : Int) : Option DisciplinedClock := do
  let tFp ← checked (temp * 256)
  if c.tempHave then do
    let sm := min c.config.tempFfSmShift 30
    let stepSm ← checked (tFp - c.tempSm)
    let tempSm ← checked (c.tempSm + stepSm >>> sm)
    let stepLp ← checked (tFp - c.tempDieLp)
    let dieLp ← checked (c.tempDieLp + stepLp >>> sm)
    let rawD ← checked (dieLp - c.tempDiePrev)
    let stepLead ← checked (rawD - c.tempDlead)
    let dlead ← checked (c.tempDlead + stepLead >>> min c.config.tempFfDleadShift 63)
    let scaled ← checked (c.config.tempFfLagQ8 * dlead)
    let bound ← checked (c.config.tempFfLeadClampRaw * 256)
    let ahead ← checked (dieLp + scaled >>> (8 : Nat))
    let lo ← checked (dieLp - bound)
    let hi ← checked (dieLp + bound)
    some { c with
      tempNow := temp
      tempSm := tempSm
      tempDieLp := dieLp
      tempDiePrev := dieLp
      tempDlead := dlead
      tcrysHat := clamp ahead lo hi }
  else
    some { c with
      tempNow := temp
      tempSm := tFp
      tempMt := tFp
      tempMfMppb := c.freqMppb
      tempRef := tFp
      tempDieLp := tFp
      tempDiePrev := tFp
      tempDlead := 0
      tcrysHat := tFp
      tempHave := true }

end DisciplinedClock

end PicoGnss
