import PicoGnss.Gnssdo.Control

namespace PicoGnss
open FixedWidth
set_option autoImplicit true

inductive LoopMode where
  | p
  | pd
  | pi
  | pid
  | pidSmith
deriving DecidableEq

namespace LoopMode

def useI : LoopMode → Bool
  | pi => true
  | pid => true
  | pidSmith => true
  | _ => false

def useD : LoopMode → Bool
  | pd => true
  | pid => true
  | pidSmith => true
  | _ => false

def smith : LoopMode → Bool
  | pidSmith => true
  | _ => false

def kpInv (m : LoopMode) : Int := if m.smith then 8 else 16

end LoopMode

structure PhaseLockLoopConfig where
  mode : LoopMode
  deadbandNs : Int
  lockNs : Int
  lockHold : Nat
  iEnableNs : Int
  outlierNs : Int
  outlierMax : Nat
  iDen : Int
  trimMaxMppb : Int
  dDen : Int
  calmNs : Int
  iDenDisturbedShift : Nat
  kpInv : Int
  smithEdges : Nat

namespace PhaseLockLoopConfig

def default : PhaseLockLoopConfig where
  mode := .pidSmith
  deadbandNs := 0
  lockNs := 1000
  lockHold := 5
  iEnableNs := 5000
  outlierNs := 3000
  outlierMax := 12
  iDen := 128
  trimMaxMppb := 3000000
  dDen := 4
  calmNs := 1000
  iDenDisturbedShift := 0
  kpInv := 0
  smithEdges := 1

def naivePid : PhaseLockLoopConfig := { default with mode := .pid }

def naivePi : PhaseLockLoopConfig := { default with mode := .pi }

def pOnly : PhaseLockLoopConfig := { default with mode := .p }

/-- The firmware's base for its experiments. -/
def expCfg (iDen dDen kpInv : Int) (smithEdges : Nat) : PhaseLockLoopConfig :=
  { default with iDen, calmNs := 1000, iDenDisturbedShift := 0, dDen, kpInv, smithEdges }

/-- The firmware's own choice. -/
def production : PhaseLockLoopConfig := expCfg 512 16 0 1

end PhaseLockLoopConfig

structure PhaseLockLoopUpdate where
  applied : Bool
  locked : Bool
  rejectedOutlier : Bool
  freqTrimMppb : Int
  phaseCorrNs : Int
  pCorrNs : Int
  dCorrNs : Int
  predictedPhaseNs : Int
deriving DecidableEq

/-- The corrections of the last eight applied edges, the most recent first. -/
structure SmithHistory where
  corrs : List Int
  length : corrs.length = 8

namespace SmithHistory

def blank : SmithHistory := ⟨List.replicate 8 0, rfl⟩

def push (h : SmithHistory) (corr : Int) : SmithHistory :=
  ⟨corr :: h.corrs.take 7, by
    simp only [List.length_cons, List.length_take, h.length, Nat.min_eq_left, Nat.le_succ]⟩

/-- The sum of the first `n`, each of them a clamped correction. -/
def inFlight (h : SmithHistory) (n : Nat) : Int := (h.corrs.take (max 1 (min n 8))).sum

end SmithHistory

structure PhaseLockLoop where
  config : PhaseLockLoopConfig
  lockCnt : Nat := 0
  rejectCnt : Nat := 0
  trimMppb : Int := 0
  lastPred : Int := 0
  pdHist : SmithHistory := .blank

namespace PhaseLockLoop

def withConfig (config : PhaseLockLoopConfig) : PhaseLockLoop where
  config := config

def new : PhaseLockLoop := withConfig .default

def kpInv (l : PhaseLockLoop) : Int :=
  if 0 < l.config.kpInv then l.config.kpInv else l.config.mode.kpInv

def smithInFlight (l : PhaseLockLoop) : Int := l.pdHist.inFlight l.config.smithEdges

def isLocked (l : PhaseLockLoop) : Bool := decide (l.config.lockHold ≤ l.lockCnt)

/-- The phase less what is still in flight, where the mode predicts it. -/
def predict (l : PhaseLockLoop) (ctrl : Int) : Int :=
  if l.config.mode.smith then wrap64 (ctrl - l.smithInFlight) else ctrl

/-- A locked loop holds on to its output for some edges beyond the outlier threshold. -/
def rejects (l : PhaseLockLoop) (ctrl : Int) : Bool :=
  l.isLocked && decide (l.config.outlierNs < abs64 ctrl) &&
    decide (l.rejectCnt < l.config.outlierMax)

/-- The trim after an applied edge. -/
def integrate (l : PhaseLockLoop) (ctrl pred : Int) : Int :=
  if l.config.mode.useI then
    if abs64 ctrl < l.config.iEnableNs then
      let iDenEff := if abs64 pred < l.config.calmNs then l.config.iDen
        else wrap64 (l.config.iDen * 2 ^ min l.config.iDenDisturbedShift 20)
      clamp (wrap64 (l.trimMppb - (wrap64 (pred * 1000)).tdiv (max iDenEff 1)))
        (-l.config.trimMaxMppb) l.config.trimMaxMppb
    else l.trimMppb
  else 0

def pCorr (l : PhaseLockLoop) (pred : Int) : Int :=
  if l.config.deadbandNs < abs64 pred then
    clamp (pred.tdiv (max l.kpInv 1)) (-corrClampNs) corrClampNs
  else 0

/-- The derivative term, which acts in lock only. -/
def dCorr (l : PhaseLockLoop) (pred : Int) : Int :=
  if l.config.mode.useD && l.isLocked then
    clamp ((wrap64 (pred - l.lastPred)).tdiv (max l.config.dDen 1)) (-corrClampNs) corrClampNs
  else 0

def nextLockCnt (l : PhaseLockLoop) (ctrl : Int) : Nat :=
  if abs64 ctrl < l.config.lockNs then min ((l.lockCnt + 1) % 4294967296) l.config.lockHold else 0

def update (l : PhaseLockLoop) (phaseErrNs : Int) (valid : Bool) :
    PhaseLockLoopUpdate × PhaseLockLoop :=
  let pred := l.predict phaseErrNs
  if valid then
    if l.rejects phaseErrNs then
      (⟨false, l.isLocked, true, l.trimMppb, 0, 0, 0, pred⟩,
        { l with rejectCnt := l.rejectCnt + 1 })
    else
      let trim := l.integrate phaseErrNs pred
      let p := l.pCorr pred
      let d := l.dCorr pred
      (⟨true, l.isLocked, false, trim, p + d, p, d, pred⟩,
        { l with
          lockCnt := l.nextLockCnt phaseErrNs
          rejectCnt := 0
          trimMppb := trim
          lastPred := pred
          pdHist := l.pdHist.push (p + d) })
  else (⟨false, l.isLocked, false, l.trimMppb, 0, 0, 0, pred⟩, l)

def step (l : PhaseLockLoop) (input : ControlInput) : ControlOutput × PhaseLockLoop :=
  let u := l.update input.errNs input.valid
  (⟨u.1.freqTrimMppb, u.1.phaseCorrNs, u.1.applied, u.1.locked, u.1.rejectedOutlier,
    ⟨u.1.predictedPhaseNs, u.1.pCorrNs, u.1.dCorrNs, u.1.freqTrimMppb, 0⟩⟩, u.2)

def startSegment (l : PhaseLockLoop) (init : ControlInit) : PhaseLockLoop :=
  { l with
    lockCnt := 0
    rejectCnt := 0
    lastPred := 0
    pdHist := .blank
    trimMppb := init.residualTrimMppb }

/-- What one edge can do to the loop. -/
inductive LoopStep (l : PhaseLockLoop) (err : Int) :
    Bool → PhaseLockLoopUpdate → PhaseLockLoop → Prop where
  | held : LoopStep l err false
      ⟨false, l.isLocked, false, l.trimMppb, 0, 0, 0, l.predict err⟩ l
  | rejected : l.rejects err = true → LoopStep l err true
      ⟨false, l.isLocked, true, l.trimMppb, 0, 0, 0, l.predict err⟩
      { l with rejectCnt := l.rejectCnt + 1 }
  | applied : l.rejects err = false → p = l.pCorr (l.predict err) → d = l.dCorr (l.predict err) →
      LoopStep l err true
        ⟨true, l.isLocked, false, l.integrate err (l.predict err), p + d, p, d, l.predict err⟩
        { l with
          lockCnt := l.nextLockCnt err
          rejectCnt := 0
          trimMppb := l.integrate err (l.predict err)
          lastPred := l.predict err
          pdHist := l.pdHist.push (p + d) }

theorem LoopStep.exists (l : PhaseLockLoop) (err : Int) (valid : Bool) :
    ∃ u l', LoopStep l err valid u l' ∧ l.update err valid = (u, l') := by
  cases valid with
  | false => exact ⟨_, _, .held, rfl⟩
  | true =>
    cases hr : l.rejects err with
    | true =>
      refine ⟨_, _, .rejected hr, ?_⟩
      simp only [update, hr, ↓reduceIte]
    | false =>
      refine ⟨_, _, .applied hr rfl rfl, ?_⟩
      simp only [update, hr, Bool.false_eq_true, ↓reduceIte]

/-- The controller's view of an update. -/
def PhaseLockLoopUpdate.output (u : PhaseLockLoopUpdate) : ControlOutput :=
  ⟨u.freqTrimMppb, u.phaseCorrNs, u.applied, u.locked, u.rejectedOutlier,
    ⟨u.predictedPhaseNs, u.pCorrNs, u.dCorrNs, u.freqTrimMppb, 0⟩⟩

theorem step_eq {l : PhaseLockLoop} (h : l.update err valid = (u, l')) :
    l.step ⟨err, valid⟩ = (PhaseLockLoopUpdate.output u, l') := by
  simp only [step, h, PhaseLockLoopUpdate.output]

theorem LoopStep.config (h : LoopStep l err valid u l') : l'.config = l.config := by
  cases h with
  | held | rejected | applied => rfl

theorem integrate_le {l : PhaseLockLoop} (h : l.trimMppb.natAbs ≤ l.config.trimMaxMppb)
    (ctrl pred : Int) : (l.integrate ctrl pred).natAbs ≤ l.config.trimMaxMppb := by
  unfold integrate
  split
  · split
    · exact natAbs_clamp_le _ (by omega)
    · exact h
  · omega

/-- The trim never leaves its clamp. -/
theorem LoopStep.trim (h : LoopStep l err valid u l')
    (ht : l.trimMppb.natAbs ≤ l.config.trimMaxMppb) :
    u.freqTrimMppb.natAbs ≤ l.config.trimMaxMppb ∧
      l'.trimMppb.natAbs ≤ l.config.trimMaxMppb := by
  cases h with
  | held | rejected => exact ⟨ht, ht⟩
  | applied => exact ⟨integrate_le ht err _, integrate_le ht err _⟩

end PhaseLockLoop

end PicoGnss
