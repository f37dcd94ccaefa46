import PicoGnss.Lib.Mealy
import PicoGnss.Gnssdo.PhaseLockLoop

namespace PicoGnss
open FixedWidth
set_option autoImplicit true

/-- No phase servo: the output rides the feedforward and the trim it was seeded with. -/
structure OpenLoopFf where
  residualTrimMppb : Int := 0

namespace OpenLoopFf

def new : OpenLoopFf := {}

def step (o : OpenLoopFf) (input : ControlInput) : ControlOutput × OpenLoopFf :=
  (⟨o.residualTrimMppb, 0, input.valid, false, false,
    { predNs := input.errNs, observerFreqMppb := o.residualTrimMppb }⟩, o)

def isLocked (_ : OpenLoopFf) : Bool := false

def startSegment (_ : OpenLoopFf) (init : ControlInit) : OpenLoopFf := ⟨init.residualTrimMppb⟩

end OpenLoopFf

structure AlphaBetaBoostConfig where
  steadyAlphaInv : Int
  steadyBetaInv : Int
  steadyPgainInv : Int
  fastAlphaInv : Int
  fastBetaInv : Int
  fastPgainInv : Int
  innovEnterNs : Int
  boostMaxEdges : Nat
  exitLockNs : Int
  exitHold : Nat
  lockNs : Int
  lockHold : Nat
  outlierNs : Int
  outlierMax : Nat
  trimMaxMppb : Int

def AlphaBetaBoostConfig.default : AlphaBetaBoostConfig where
  steadyAlphaInv := 4
  steadyBetaInv := 64
  steadyPgainInv := 8
  fastAlphaInv := 2
  fastBetaInv := 8
  fastPgainInv := 3
  innovEnterNs := 3000
  boostMaxEdges := 40
  exitLockNs := 1000
  exitHold := 5
  lockNs := 1000
  lockHold := 5
  outlierNs := 3000
  outlierMax := 12
  trimMaxMppb := 3000000

/-- A fixed-gain observer of phase and drift, with a transient boost. -/
structure AlphaBetaBoost where
  cfg : AlphaBetaBoostConfig
  phaseHat : Int := 0
  driftHatMppb : Int := 0
  lastTrimMppb : Int := 0
  lastPcorrNs : Int := 0
  boosting : Bool := false
  boostEdges : Nat := 0
  exitCnt : Nat := 0
  lockCnt : Nat := 0
  rejectCnt : Nat := 0

namespace AlphaBetaBoost

def withConfig (cfg : AlphaBetaBoostConfig) : AlphaBetaBoost where
  cfg := cfg

def new : AlphaBetaBoost := withConfig .default

def isLocked (b : AlphaBetaBoost) : Bool := decide (b.cfg.lockHold ≤ b.lockCnt)

def freqTrimMppb (b : AlphaBetaBoost) : Int :=
  clamp (wrap64 (-b.driftHatMppb)) (-b.cfg.trimMaxMppb) b.cfg.trimMaxMppb

/-- The boost expires on edges of every kind. -/
def tickBoostBackstop (b : AlphaBetaBoost) : AlphaBetaBoost :=
  if b.boosting then
    let edges := min (b.boostEdges + 1) 4294967295
    { b with boostEdges := edges, boosting := decide (edges < b.cfg.boostMaxEdges) }
  else b

/-- An output that holds the trim and corrects nothing. -/
def hold (b : AlphaBetaBoost) (predNs : Int) (locked rejected boosting : Bool) : ControlOutput :=
  ⟨b.freqTrimMppb, 0, false, locked, rejected,
    { predNs, observerFreqMppb := b.driftHatMppb, state := boosting.toNat }⟩

/-- The phase that the last actuation leads to. -/
def phasePred (b : AlphaBetaBoost) : Int :=
  wrap64 (wrap64 (b.phaseHat + (wrap64 (b.driftHatMppb + b.lastTrimMppb)).tdiv 1000) -
    b.lastPcorrNs)

def rejects (b : AlphaBetaBoost) (z : Int) : Bool :=
  b.isLocked && decide (b.cfg.outlierNs < abs64 z) && decide (b.rejectCnt < b.cfg.outlierMax)

/-- A disturbance that outlasted the rejects, unless the edge is back in the lock window. -/
def acceptedDisturbance (b : AlphaBetaBoost) (z : Int) : Bool :=
  decide (b.cfg.outlierMax ≤ b.rejectCnt) && decide (b.cfg.lockNs ≤ abs64 z)

/-- The boost state machine on an applied edge. -/
def boost (b : AlphaBetaBoost) (z innov : Int) (accepted : Bool) : AlphaBetaBoost :=
  if b.boosting then
    let edges := min (b.boostEdges + 1) 4294967295
    let exits := if abs64 z < b.cfg.exitLockNs then (b.exitCnt + 1) % 4294967296 else 0
    { b with
      boostEdges := edges
      exitCnt := exits
      boosting := decide (exits < b.cfg.exitHold) && decide (edges < b.cfg.boostMaxEdges) }
  else if b.cfg.innovEnterNs < abs64 innov ∨ accepted then
    { b with boosting := true, boostEdges := 0, exitCnt := 0 }
  else b

def alphaInv (b : AlphaBetaBoost) : Int :=
  max (if b.boosting then b.cfg.fastAlphaInv else b.cfg.steadyAlphaInv) 1

def betaInv (b : AlphaBetaBoost) : Int :=
  max (if b.boosting then b.cfg.fastBetaInv else b.cfg.steadyBetaInv) 1

def pgainInv (b : AlphaBetaBoost) : Int :=
  max (if b.boosting then b.cfg.fastPgainInv else b.cfg.steadyPgainInv) 1

/-- The observer and both actuators, at the gains of the boost state. -/
def observe (b : AlphaBetaBoost) (pred innov : Int) : AlphaBetaBoost :=
  let phase := wrap64 (pred + innov.tdiv b.alphaInv)
  let drift := clamp (wrap64 (b.driftHatMppb + (wrap64 (innov * 1000)).tdiv b.betaInv))
    (-b.cfg.trimMaxMppb) b.cfg.trimMaxMppb
  { b with
    phaseHat := phase
    driftHatMppb := drift
    lastTrimMppb := clamp (wrap64 (-drift)) (-b.cfg.trimMaxMppb) b.cfg.trimMaxMppb
    lastPcorrNs := clamp (phase.tdiv b.pgainInv) (-corrClampNs) corrClampNs }

def nextLockCnt (b : AlphaBetaBoost) (z : Int) : Nat :=
  if abs64 z < b.cfg.lockNs then min ((b.lockCnt + 1) % 4294967296) b.cfg.lockHold else 0

def step (b : AlphaBetaBoost) (input : ControlInput) : ControlOutput × AlphaBetaBoost :=
  let z := input.errNs
  if input.valid then
    let pred := b.phasePred
    let innov := wrap64 (z - pred)
    if b.rejects z then
      let ticked := { b with rejectCnt := b.rejectCnt + 1 }.tickBoostBackstop
      (b.hold pred b.isLocked true ticked.boosting, ticked)
    else
      let boosted := { b with rejectCnt := 0 }.boost z innov (b.acceptedDisturbance z)
      let observed := { boosted.observe pred innov with lockCnt := b.nextLockCnt z }
      (⟨observed.lastTrimMppb, observed.lastPcorrNs, true, b.isLocked, false,
        ⟨pred, observed.lastPcorrNs, 0, observed.driftHatMppb, observed.boosting.toNat⟩⟩, observed)
  else
    let ticked := b.tickBoostBackstop
    (b.hold b.phaseHat b.isLocked false ticked.boosting, ticked)

def startSegment (b : AlphaBetaBoost) (init : ControlInit) : AlphaBetaBoost where
  cfg := b.cfg
  driftHatMppb := wrap64 (-init.residualTrimMppb)
  lastTrimMppb := init.residualTrimMppb

/-- What one edge can do to the observer. -/
inductive BoostStep (b : AlphaBetaBoost) (z : Int) :
    Bool → ControlOutput → AlphaBetaBoost → Prop where
  | held : b' = b.tickBoostBackstop →
      BoostStep b z false (b.hold b.phaseHat b.isLocked false b'.boosting) b'
  | rejected : b.rejects z = true →
      b' = { b with rejectCnt := b.rejectCnt + 1 }.tickBoostBackstop →
      BoostStep b z true (b.hold b.phasePred b.isLocked true b'.boosting) b'
  | applied : b.rejects z = false → innov = wrap64 (z - b.phasePred) →
      boosted = { b with rejectCnt := 0 }.boost z innov (b.acceptedDisturbance z) →
      b' = boosted.observe b.phasePred innov →
      BoostStep b z true
        ⟨b'.lastTrimMppb, b'.lastPcorrNs, true, b.isLocked, false,
          ⟨b.phasePred, b'.lastPcorrNs, 0, b'.driftHatMppb, b'.boosting.toNat⟩⟩
        { b' with lockCnt := b.nextLockCnt z }

theorem BoostStep.exists (b : AlphaBetaBoost) (x : ControlInput) :
    ∃ o b', BoostStep b x.errNs x.valid o b' ∧ b.step x = (o, b') := by
  obtain ⟨z, valid⟩ := x
  cases valid with
  | false => exact ⟨_, _, .held rfl, rfl⟩
  | true =>
    cases hr : b.rejects z with
    | true =>
      refine ⟨_, _, .rejected hr rfl, ?_⟩
      simp only [step, hr, ↓reduceIte]
    | false =>
      refine ⟨_, _, .applied hr rfl rfl rfl, ?_⟩
      simp only [step, hr, Bool.false_eq_true, ↓reduceIte]

theorem tickBoostBackstop_cfg (b : AlphaBetaBoost) : b.tickBoostBackstop.cfg = b.cfg := by
  unfold tickBoostBackstop
  split <;> rfl

theorem boost_cfg (b : AlphaBetaBoost) (z innov : Int) (accepted : Bool) :
    (b.boost z innov accepted).cfg = b.cfg := by
  unfold boost
  split
  · rfl
  · split <;> rfl

theorem BoostStep.cfg (h : BoostStep b z valid o b') : b'.cfg = b.cfg := by
  cases h with
  | held htick =>
    rw [htick]
    exact b.tickBoostBackstop_cfg
  | rejected hr htick =>
    rw [htick]
    exact tickBoostBackstop_cfg _
  | applied hr hi hb hb' =>
    subst hb' hb
    exact boost_cfg _ z _ _

end AlphaBetaBoost

structure IntegralReworkConfig where
  kpInv : Int
  dDen : Int
  iDen : Int
  eINs : Int
  kbcInv : Int
  lockNs : Int
  lockHold : Nat
  outlierNs : Int
  outlierMax : Nat
  trimMaxMppb : Int

def IntegralReworkConfig.default : IntegralReworkConfig where
  kpInv := 8
  dDen := 4
  iDen := 128
  eINs := 800
  kbcInv := 5
  lockNs := 1000
  lockHold := 5
  outlierNs := 3000
  outlierMax := 12
  trimMaxMppb := 3000000

/-- The production loop with an integral that has no gate. -/
structure IntegralRework where
  cfg : IntegralReworkConfig
  trimMppb : Int := 0
  lockCnt : Nat := 0
  rejectCnt : Nat := 0
  lastPred : Int := 0
  lastPd : Int := 0

namespace IntegralRework

def withConfig (cfg : IntegralReworkConfig) : IntegralRework where
  cfg := cfg

def new : IntegralRework := withConfig .default

def isLocked (r : IntegralRework) : Bool := decide (r.cfg.lockHold ≤ r.lockCnt)

def predict (r : IntegralRework) (ctrl : Int) : Int := wrap64 (ctrl - r.lastPd)

def rejects (r : IntegralRework) (ctrl : Int) : Bool :=
  r.isLocked && decide (r.cfg.outlierNs < abs64 ctrl) && decide (r.rejectCnt < r.cfg.outlierMax)

/-- The trim after an applied edge: a saturated integral bleeds back. -/
def integrate (r : IntegralRework) (pred : Int) : Int :=
  let pin := clamp pred (-r.cfg.eINs) r.cfg.eINs
  let want := wrap64 (r.trimMppb - (wrap64 (pin * 1000)).tdiv (max r.cfg.iDen 1))
  let clamped := clamp want (-r.cfg.trimMaxMppb) r.cfg.trimMaxMppb
  wrap64 (clamped - (wrap64 (want - clamped)).tdiv (max r.cfg.kbcInv 1))

def pCorr (r : IntegralRework) (pred : Int) : Int :=
  clamp (pred.tdiv (max r.cfg.kpInv 1)) (-corrClampNs) corrClampNs

def dCorr (r : IntegralRework) (pred : Int) : Int :=
  if r.isLocked then
    clamp ((wrap64 (pred - r.lastPred)).tdiv (max r.cfg.dDen 1)) (-corrClampNs) corrClampNs
  else 0

def nextLockCnt (r : IntegralRework) (ctrl : Int) : Nat :=
  if abs64 ctrl < r.cfg.lockNs then min ((r.lockCnt + 1) % 4294967296) r.cfg.lockHold else 0

def step (r : IntegralRework) (input : ControlInput) : ControlOutput × IntegralRework :=
  let ctrl := input.errNs
  let pred := r.predict ctrl
  if input.valid then
    if r.rejects ctrl then
      (⟨r.trimMppb, 0, false, r.isLocked, true, ⟨pred, 0, 0, r.trimMppb, 0⟩⟩,
        { r with rejectCnt := r.rejectCnt + 1 })
    else
      let trim := r.integrate pred
      let p := r.pCorr pred
      let d := r.dCorr pred
      (⟨trim, p + d, true, r.isLocked, false, ⟨pred, p, d, trim, 0⟩⟩,
        { r with
          trimMppb := trim
          lockCnt := r.nextLockCnt ctrl
          rejectCnt := 0
          lastPred := pred
          lastPd := p + d })
  else (⟨r.trimMppb, 0, false, r.isLocked, false, ⟨pred, 0, 0, r.trimMppb, 0⟩⟩, r)

def startSegment (r : IntegralRework) (init : ControlInit) : IntegralRework where
  cfg := r.cfg
  trimMppb := init.residualTrimMppb

/-- What one edge can do to the loop. -/
inductive ReworkStep (r : IntegralRework) (ctrl : Int) :
    Bool → ControlOutput → IntegralRework → Prop where
  | held : ReworkStep r ctrl false
      ⟨r.trimMppb, 0, false, r.isLocked, false, ⟨r.predict ctrl, 0, 0, r.trimMppb, 0⟩⟩ r
  | rejected : r.rejects ctrl = true → ReworkStep r ctrl true
      ⟨r.trimMppb, 0, false, r.isLocked, true, ⟨r.predict ctrl, 0, 0, r.trimMppb, 0⟩⟩
      { r with rejectCnt := r.rejectCnt + 1 }
  | applied : r.rejects ctrl = false → p = r.pCorr (r.predict ctrl) →
      d = r.dCorr (r.predict ctrl) →
      ReworkStep r ctrl true
        ⟨r.integrate (r.predict ctrl), p + d, true, r.isLocked, false,
          ⟨r.predict ctrl, p, d, r.integrate (r.predict ctrl), 0⟩⟩
        { r with
          trimMppb := r.integrate (r.predict ctrl)
          lockCnt := r.nextLockCnt ctrl
          rejectCnt := 0
          lastPred := r.predict ctrl
          lastPd := p + d }

theorem ReworkStep.exists (r : IntegralRework) (x : ControlInput) :
    ∃ o r', ReworkStep r x.errNs x.valid o r' ∧ r.step x = (o, r') := by
  obtain ⟨ctrl, valid⟩ := x
  cases valid with
  | false => exact ⟨_, _, .held, rfl⟩
  | true =>
    cases hr : r.rejects ctrl with
    | true =>
      refine ⟨_, _, .rejected hr, ?_⟩
      simp only [step, hr, ↓reduceIte]
    | false =>
      refine ⟨_, _, .applied hr rfl rfl, ?_⟩
      simp only [step, hr, Bool.false_eq_true, ↓reduceIte]

theorem ReworkStep.cfg (h : ReworkStep r ctrl valid o r') : r'.cfg = r.cfg := by
  cases h with
  | held | rejected | applied => rfl

end IntegralRework

/-- The strategies that one boot can cycle through. -/
inductive Controller where
  | pll (l : PhaseLockLoop)
  | integRework (r : IntegralRework)
  | abBoost (b : AlphaBetaBoost)
  | openLoop (o : OpenLoopFf)

namespace Controller

def step (c : Controller) (input : ControlInput) : ControlOutput × Controller :=
  match c with
  | pll l => ((l.step input).1, pll (l.step input).2)
  | integRework r => ((r.step input).1, integRework (r.step input).2)
  | abBoost b => ((b.step input).1, abBoost (b.step input).2)
  | openLoop o => ((o.step input).1, openLoop (o.step input).2)

def isLocked : Controller → Bool
  | pll l => l.isLocked
  | integRework r => r.isLocked
  | abBoost b => b.isLocked
  | openLoop o => o.isLocked

def startSegment (c : Controller) (init : ControlInit) : Controller :=
  match c with
  | pll l => pll (l.startSegment init)
  | integRework r => integRework (r.startSegment init)
  | abBoost b => abBoost (b.startSegment init)
  | openLoop o => openLoop (o.startSegment init)

end Controller

end PicoGnss
