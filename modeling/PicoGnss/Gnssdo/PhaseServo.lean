import PicoGnss.Gnssdo.Controllers

/-! The proportional and derivative path that the phase loops share, on unbounded integers. -/

namespace PicoGnss
open FixedWidth
set_option autoImplicit true

/-- The gains of a servo, none of them stronger than an eighth and a quarter. -/
structure ServoGains where
  kpInv : Int
  dDen : Int
  useD : Bool
  smith : Bool
  kpInv_ge : 8 ≤ kpInv
  kpInv_le : kpInv ≤ 16
  dDen_ge : 4 ≤ dDen

namespace ServoGains

def default : ServoGains := ⟨8, 4, true, true, by decide, by decide, by decide⟩

def naivePid : ServoGains := ⟨16, 4, true, false, by decide, by decide, by decide⟩

def proportional : ServoGains := ⟨16, 4, false, false, by decide, by decide, by decide⟩

def production : ServoGains := ⟨8, 16, true, true, by decide, by decide, by decide⟩

end ServoGains

/-- The correction in flight, where it is predicted, and the last applied prediction. -/
structure PhaseServo where
  inFlight : Int
  lastPred : Int
  lockCnt : Nat
  rejectCnt : Nat

namespace PhaseServo

def pTerm (g : ServoGains) (pred : Int) : Int :=
  clamp (pred.tdiv g.kpInv) (-corrClampNs) corrClampNs

def dTerm (g : ServoGains) (s : PhaseServo) (pred : Int) : Int :=
  if g.useD = true ∧ 5 ≤ s.lockCnt then
    clamp ((pred - s.lastPred).tdiv g.dDen) (-corrClampNs) corrClampNs
  else 0

def nextLockCnt (s : PhaseServo) (err : Int) : Nat :=
  if err.natAbs < 1000 then min (s.lockCnt + 1) 5 else 0

/-- What one edge can do to the servo, and the correction that it makes. -/
inductive Step (g : ServoGains) (s : PhaseServo) (err : Int) : Bool → Int → PhaseServo → Prop where
  | held : Step g s err false 0 s
  | rejected : 5 ≤ s.lockCnt → 3000 < err.natAbs → s.rejectCnt < 12 →
      Step g s err true 0 { s with rejectCnt := s.rejectCnt + 1 }
  | applied : (5 ≤ s.lockCnt → 3000 < err.natAbs → 12 ≤ s.rejectCnt) →
      pred = err - s.inFlight → corr = pTerm g pred + s.dTerm g pred →
      Step g s err true corr ⟨if g.smith = true then corr else 0, pred, s.nextLockCnt err, 0⟩

theorem natAbs_clamp_corr (x : Int) :
    (clamp x (-corrClampNs) corrClampNs).natAbs = min x.natAbs 100000000 :=
  natAbs_clamp x (by decide)

theorem pTerm_clamped (g : ServoGains) (pred : Int) : (pTerm g pred).natAbs ≤ 100000000 := by
  rw [pTerm, natAbs_clamp_corr]
  exact Nat.min_le_right ..

theorem dTerm_clamped (g : ServoGains) (s : PhaseServo) (pred : Int) :
    (s.dTerm g pred).natAbs ≤ 100000000 := by
  unfold dTerm
  split
  · rw [natAbs_clamp_corr]
    exact Nat.min_le_right ..
  · exact Nat.zero_le _

theorem pTerm_le (g : ServoGains) (hp : pred.natAbs ≤ n) : (pTerm g pred).natAbs ≤ n / 8 := by
  rw [pTerm, natAbs_clamp_corr]
  exact Nat.le_trans (Nat.min_le_left ..) (natAbs_tdiv_le hp (by decide) g.kpInv_ge)

theorem dTerm_le {m : Nat} (s : PhaseServo) (hm : 0 < m) (hd : (m : Int) ≤ g.dDen)
    (hp : (pred - s.lastPred).natAbs ≤ n) : (s.dTerm g pred).natAbs ≤ n / m := by
  unfold dTerm
  split
  · rw [natAbs_clamp_corr]
    exact Nat.le_trans (Nat.min_le_left ..) (natAbs_tdiv_le hp hm hd)
  · exact Nat.zero_le _

theorem dTerm_unlocked (h : s.lockCnt < 5) : dTerm g s pred = 0 :=
  if_neg fun hd => Nat.not_le.2 h hd.2

theorem natAbs_ite_le {b : Bool} {x : Int} {n : Nat} (h : x.natAbs ≤ n) :
    (if b = true then x else 0).natAbs ≤ n := by
  cases b with
  | true => exact h
  | false => exact Nat.zero_le n

theorem Step.lockCnt_le (h : Step g s err valid corr s') (hs : s.lockCnt ≤ 5) : s'.lockCnt ≤ 5 := by
  cases h with
  | held | rejected => exact hs
  | applied =>
    simp only [nextLockCnt]
    split
    · exact Nat.min_le_right ..
    · exact Nat.zero_le 5

/-- A box around the feedback of the servo. -/
structure Within (inFlight lastPred : Nat) (s : PhaseServo) : Prop where
  inFlight : s.inFlight.natAbs ≤ inFlight
  lastPred : s.lastPred.natAbs ≤ lastPred

/-- The feedback stays in a box that is closed under one correction of an edge within `e`. -/
theorem Within.step {m : Nat} (hs : Within H R s) (h : Step g s err valid corr s')
    (he : valid = true → err.natAbs ≤ e) (hm : 0 < m) (hd : (m : Int) ≤ g.dDen)
    (hH : (e + H) / 8 + (e + H + R) / m ≤ H) (hR : e + H ≤ R) :
    corr.natAbs ≤ H ∧ Within H R s' := by
  cases h with
  | held => exact ⟨Nat.zero_le H, hs⟩
  | rejected hl ho hr => exact ⟨Nat.zero_le H, hs.inFlight, hs.lastPred⟩
  | @applied pred _ hr hpred hcorr =>
    have hflight := hs.inFlight
    have hlast := hs.lastPred
    have herr := he rfl
    have hnow : pred.natAbs ≤ e + H := by omega
    have hmove : (pred - s.lastPred).natAbs ≤ e + H + R := by omega
    have hp := pTerm_le g hnow
    have hdt := s.dTerm_le hm hd hmove
    have hc : corr.natAbs ≤ H := by omega
    exact ⟨hc, natAbs_ite_le hc, Nat.le_trans hnow hR⟩

/-- What can be in flight after `k` edges towards lock. -/
def flightBound (k : Nat) : Nat := 200000000 / 8 ^ k + 1000

theorem flightBound_le (k : Nat) : flightBound k ≤ 200001000 := by
  have hpow := Nat.div_le_self 200000000 (8 ^ k)
  unfold flightBound
  omega

theorem flightBound_succ (k : Nat) : (1000 + flightBound k) / 8 ≤ flightBound (k + 1) := by
  have hpow : 200000000 / 8 ^ (k + 1) = 200000000 / 8 ^ k / 8 := by
    rw [Nat.pow_succ, Nat.div_div_eq_div_mul]
  rw [flightBound, flightBound, hpow]
  omega

/-- What is in flight decays with every edge towards lock, where it is small. -/
structure Settling (s : PhaseServo) : Prop where
  lockCnt : s.lockCnt ≤ 5
  inFlight : s.lockCnt < 5 → s.inFlight.natAbs ≤ flightBound s.lockCnt
  locked : s.lockCnt = 5 → Within 25000 60000 s
  lastPred : s.lastPred.natAbs ≤ 701000000

theorem Settling.inFlight_le (h : Settling s) : s.inFlight.natAbs ≤ 200001000 := by
  rcases Nat.lt_or_eq_of_le h.lockCnt with hlt | heq
  · exact Nat.le_trans (h.inFlight hlt) (flightBound_le s.lockCnt)
  · exact Nat.le_trans (h.locked heq).inFlight (by decide)

/-- Out of the lock window the servo starts over, whatever the two terms made. -/
theorem settling_restart {h pred : Int} (hh : h.natAbs ≤ 200000000)
    (hp : pred.natAbs ≤ 701000000) : Settling ⟨h, pred, 0, r⟩ where
  lockCnt := Nat.zero_le 5
  inFlight _ := Nat.le_trans hh (by decide : 200000000 ≤ flightBound 0)
  locked hlock := Nat.noConfusion hlock
  lastPred := hp

/-- In the window, short of lock, an eighth of what was predicted remains in flight. -/
theorem settling_approach {h pred : Int} (hk : k < 5) (hh : h.natAbs ≤ (1000 + flightBound k) / 8)
    (hp : pred.natAbs ≤ 1000 + flightBound k) : Settling ⟨h, pred, k + 1, r⟩ := by
  have hflight := Nat.le_trans hh (flightBound_succ k)
  have hall := flightBound_le k
  refine ⟨hk, fun _ => hflight, ?_, Nat.le_trans hp (by omega)⟩
  intro hlock
  obtain rfl : k = 4 := Nat.succ.inj hlock
  exact ⟨Nat.le_trans hflight (by decide), Nat.le_trans hp (by decide)⟩

theorem Settling.step (hs : Settling s) (h : Step g s err valid corr s')
    (he : valid = true → err.natAbs ≤ 500000000) : Settling s' := by
  have hcopy := h
  cases h with
  | held => exact hs
  | rejected hl ho hr =>
    exact ⟨hs.lockCnt, hs.inFlight, fun h => ⟨(hs.locked h).inFlight, (hs.locked h).lastPred⟩,
      hs.lastPred⟩
  | @applied pred _ hr hpred hcorr =>
    have herr := he rfl
    have hflight := hs.inFlight_le
    have hlast : pred.natAbs ≤ 701000000 := by omega
    by_cases hwindow : err.natAbs < 1000
    · have hnext : s.nextLockCnt err = min (s.lockCnt + 1) 5 := if_pos hwindow
      rcases Nat.lt_or_eq_of_le hs.lockCnt with hlt | heq
      · have hdecay := hs.inFlight hlt
        have hnow : pred.natAbs ≤ 1000 + flightBound s.lockCnt := by omega
        rw [dTerm_unlocked hlt, Int.add_zero] at hcorr
        rw [hnext, Nat.min_eq_left hlt, hcorr]
        exact settling_approach hlt (natAbs_ite_le (pTerm_le g hnow)) hnow
      · obtain ⟨-, hwithin⟩ := (hs.locked heq).step hcopy (fun _ => Nat.le_of_lt hwindow)
          (by decide : 0 < 4) g.dDen_ge (by decide) (by decide)
        rw [hnext, heq] at hwithin ⊢
        exact ⟨Nat.le_refl 5, fun h => absurd h (Nat.lt_irrefl 5), fun _ => hwithin, hlast⟩
    · have hnext : s.nextLockCnt err = 0 := if_neg hwindow
      have hp := pTerm_clamped g pred
      have hd := s.dTerm_clamped g pred
      have hc : corr.natAbs ≤ 200000000 := by omega
      rw [hnext]
      exact settling_restart (natAbs_ite_le hc) hlast

/-- The edge that a locked servo takes after a full run of rejects, where its two terms together
are more than either may be. -/
def Overdriven (g : ServoGains) (s : PhaseServo) (err : Int) : Prop :=
  g.useD = true ∧ 5 ≤ s.lockCnt ∧ 12 ≤ s.rejectCnt ∧
    100000000 < ((err - s.inFlight).tdiv g.kpInv +
      (err - s.inFlight - s.lastPred).tdiv g.dDen).natAbs

/-- A large derivative comes with a proportional term of its sign. -/
theorem one_le_tdiv_of_derivative (g : ServoGains) (pred : Int) {last : Int}
    (hr : last.natAbs ≤ 60000) (hd : 100000000 < (pred - last).tdiv g.dDen) :
    1 ≤ pred.tdiv g.kpInv := by
  have hk := g.kpInv_ge
  have hk' := g.kpInv_le
  have hden : 0 < g.dDen := Int.lt_of_lt_of_le (by decide) g.dDen_ge
  have hpos := pos_of_tdiv_pos hden (Int.lt_trans (by decide) hd)
  have hle := natAbs_tdiv_le (Nat.le_refl (pred - last).natAbs) (by decide : 0 < 4) g.dDen_ge
  exact one_le_tdiv (by omega) (by omega)

theorem clamp_terms_iff {pred last : Int} (g : ServoGains) (hp : pred.natAbs ≤ 500025000)
    (hr : last.natAbs ≤ 60000) :
    (pTerm g pred + clamp ((pred - last).tdiv g.dDen) (-corrClampNs) corrClampNs).natAbs ≤
        100000000 ↔
      ¬100000000 < (pred.tdiv g.kpInv + (pred - last).tdiv g.dDen).natAbs := by
  have hsmall := natAbs_tdiv_le hp (by decide : 0 < 8) g.kpInv_ge
  have hkeep : pTerm g pred = pred.tdiv g.kpInv := by
    apply clamp_of_mem
    · unfold corrClampNs
      omega
    · unfold corrClampNs
      omega
  have hpos := one_le_tdiv_of_derivative g pred hr
  have hr' : (-last).natAbs ≤ 60000 := by
    rw [Int.natAbs_neg]
    exact hr
  have hneg := one_le_tdiv_of_derivative g (-pred) hr'
  have hmove : -pred - -last = -(pred - last) := by omega
  rw [hmove, Int.neg_tdiv, Int.neg_tdiv] at hneg
  rw [hkeep]
  unfold clamp corrClampNs
  omega

theorem Settling.limit_iff (hs : Settling s) (h : Step g s err valid corr s')
    (he : valid = true → err.natAbs ≤ 500000000) :
    corr.natAbs ≤ 100000000 ↔ ¬(valid = true ∧ Overdriven g s err) := by
  cases h with
  | held => exact iff_of_true (Nat.zero_le _) fun h => Bool.noConfusion h.1
  | rejected hl ho hr =>
    exact iff_of_true (Nat.zero_le _) fun h => Nat.not_le.2 hr h.2.2.2.1
  | applied hr hpred hcorr =>
    have herr := he rfl
    subst hpred hcorr
    by_cases hd : g.useD = true ∧ 5 ≤ s.lockCnt
    · have hwithin := hs.locked (Nat.le_antisymm hs.lockCnt hd.2)
      have hflight := hwithin.inFlight
      have hlast := hwithin.lastPred
      rw [dTerm, if_pos hd, clamp_terms_iff g (by omega) hlast]
      constructor
      · intro hsmall hover
        exact hsmall hover.2.2.2.2
      · intro hnot hlarge
        by_cases ho : 3000 < err.natAbs
        · exact hnot ⟨rfl, hd.1, hd.2, hr hd.2 ho, hlarge⟩
        · have hnow : (err - s.inFlight).natAbs ≤ 28000 := by omega
          have hmove : (err - s.inFlight - s.lastPred).natAbs ≤ 88000 := by omega
          have hp := natAbs_tdiv_le hnow (by decide : 0 < 8) g.kpInv_ge
          have hq := natAbs_tdiv_le hmove (by decide : 0 < 4) g.dDen_ge
          omega
    · rw [dTerm, if_neg hd, Int.add_zero]
      exact iff_of_true (pTerm_clamped g _) fun h => hd ⟨h.2.1, h.2.2.1⟩

/-- Feedback so small that no word of a loop wraps on an edge within a second. -/
structure Fits (s : PhaseServo) : Prop where
  lockCnt : s.lockCnt ≤ 5
  inFlight : s.inFlight.natAbs ≤ 1000000000
  lastPred : s.lastPred.natAbs ≤ 1000000000

theorem Settling.fits (h : Settling s) : Fits s where
  lockCnt := h.lockCnt
  inFlight := Nat.le_trans h.inFlight_le (by decide)
  lastPred := Nat.le_trans h.lastPred (by decide)

end PhaseServo

/-- The configurations of a loop whose thresholds are the default ones. -/
structure PhaseLockLoopConfig.Realizes (c : PhaseLockLoopConfig) (g : ServoGains) : Prop where
  deadbandNs : c.deadbandNs = 0
  lockNs : c.lockNs = 1000
  lockHold : c.lockHold = 5
  outlierNs : c.outlierNs = 3000
  outlierMax : c.outlierMax = 12
  smithEdges : c.smithEdges = 1
  kpInv : (if 0 < c.kpInv then c.kpInv else c.mode.kpInv) = g.kpInv
  dDen : c.dDen = g.dDen
  useD : c.mode.useD = g.useD
  smith : c.mode.smith = g.smith

namespace PhaseLockLoopConfig

theorem realizes_default : default.Realizes .default :=
  ⟨rfl, rfl, rfl, rfl, rfl, rfl, rfl, rfl, rfl, rfl⟩

theorem realizes_naivePid : naivePid.Realizes .naivePid :=
  ⟨rfl, rfl, rfl, rfl, rfl, rfl, rfl, rfl, rfl, rfl⟩

theorem realizes_naivePi : naivePi.Realizes .proportional :=
  ⟨rfl, rfl, rfl, rfl, rfl, rfl, rfl, rfl, rfl, rfl⟩

theorem realizes_pOnly : pOnly.Realizes .proportional :=
  ⟨rfl, rfl, rfl, rfl, rfl, rfl, rfl, rfl, rfl, rfl⟩

theorem realizes_production : production.Realizes .production :=
  ⟨rfl, rfl, rfl, rfl, rfl, rfl, rfl, rfl, rfl, rfl⟩

end PhaseLockLoopConfig

theorem SmithHistory.inFlight_push_one (h : SmithHistory) (corr : Int) :
    (h.push corr).inFlight 1 = corr := by
  change corr + 0 = corr
  exact Int.add_zero corr

namespace PhaseLockLoop

/-- The loop without its integral. -/
def servo (l : PhaseLockLoop) : PhaseServo where
  inFlight := if l.config.mode.smith = true then l.smithInFlight else 0
  lastPred := l.lastPred
  lockCnt := l.lockCnt
  rejectCnt := l.rejectCnt

variable {l : PhaseLockLoop} {g : ServoGains}

theorem predict_eq (hs : l.servo.Fits) (he : err.natAbs ≤ 1000000000) :
    l.predict err = err - l.servo.inFlight := by
  have hflight := hs.inFlight
  unfold servo at hflight ⊢
  unfold predict
  cases hsmith : l.config.mode.smith with
  | true =>
    simp only [hsmith, ↓reduceIte] at hflight ⊢
    exact wrap64_of_natAbs_lt (by omega)
  | false =>
    simp only [Bool.false_eq_true, ↓reduceIte]
    omega

variable (hc : l.config.Realizes g)
include hc

theorem servo_push (corr pred trim : Int) (n : Nat) :
    servo { l with
      lockCnt := n
      rejectCnt := 0
      trimMppb := trim
      lastPred := pred
      pdHist := l.pdHist.push corr } = ⟨if g.smith = true then corr else 0, pred, n, 0⟩ := by
  simp only [servo, smithInFlight, hc.smithEdges, hc.smith, SmithHistory.inFlight_push_one]

theorem isLocked_iff_servo : l.isLocked = true ↔ 5 ≤ l.servo.lockCnt := by
  rw [isLocked, decide_eq_true_iff, hc.lockHold]
  rfl

theorem rejects_iff (he : err.natAbs ≤ 1000000000) : l.rejects err = true ↔
    5 ≤ l.servo.lockCnt ∧ 3000 < err.natAbs ∧ l.servo.rejectCnt < 12 := by
  rw [rejects, Bool.and_eq_true, Bool.and_eq_true, decide_eq_true_iff, decide_eq_true_iff,
    isLocked_iff_servo hc, hc.outlierNs, hc.outlierMax, abs64_of_natAbs_lt (by omega), and_assoc]
  exact and_congr_right' (and_congr_left' Int.ofNat_lt)

theorem nextLockCnt_eq (hl : l.lockCnt ≤ 5) (he : err.natAbs ≤ 1000000000) :
    l.nextLockCnt err = l.servo.nextLockCnt err := by
  rw [nextLockCnt, PhaseServo.nextLockCnt, hc.lockNs, hc.lockHold,
    abs64_of_natAbs_lt (by omega), Nat.mod_eq_of_lt (by omega)]
  exact if_congr Int.ofNat_lt rfl rfl

theorem kpInv_eq : l.kpInv = g.kpInv := hc.kpInv

theorem pCorr_eq (hp : pred.natAbs ≤ 4000000000) : l.pCorr pred = PhaseServo.pTerm g pred := by
  have hk := g.kpInv_ge
  have hmax : max l.kpInv 1 = g.kpInv := by
    rw [kpInv_eq hc]
    omega
  rw [pCorr, hmax, hc.deadbandNs, abs64_of_natAbs_lt (by omega)]
  split
  · rfl
  · rename_i hzero
    obtain rfl : pred = 0 := by omega
    rw [PhaseServo.pTerm, Int.zero_tdiv]
    rfl

theorem dCorr_eq (hs : l.servo.Fits) (hp : pred.natAbs ≤ 2000000000) :
    l.dCorr pred = l.servo.dTerm g pred := by
  have hlast : l.lastPred.natAbs ≤ 1000000000 := hs.lastPred
  have hd := g.dDen_ge
  have hmax : max l.config.dDen 1 = g.dDen := by
    rw [hc.dDen]
    omega
  have hacts : (l.config.mode.useD && l.isLocked) = true ↔ g.useD = true ∧ 5 ≤ l.servo.lockCnt := by
    rw [Bool.and_eq_true, isLocked_iff_servo hc, hc.useD]
  rw [dCorr, PhaseServo.dTerm, hmax, wrap64_of_natAbs_lt (by omega)]
  exact if_congr hacts rfl rfl

/-- The loop is a servo with an integral beside it. -/
theorem LoopStep.servo (hs : l.servo.Fits) (h : LoopStep l err valid u l')
    (he : valid = true → err.natAbs ≤ 1000000000) :
    PhaseServo.Step g l.servo err valid u.phaseCorrNs l'.servo := by
  cases h with
  | held => exact .held
  | rejected hr =>
    obtain ⟨hl, ho, hn⟩ := (rejects_iff hc (he rfl)).1 hr
    exact .rejected hl ho hn
  | applied hr hp hd =>
    have hpred := predict_eq hs (he rfl)
    have hflight := hs.inFlight
    have herr := he rfl
    have hsmall : (l.predict err).natAbs ≤ 2000000000 := by omega
    rw [pCorr_eq hc (by omega)] at hp
    rw [dCorr_eq hc hs hsmall] at hd
    rw [servo_push hc, nextLockCnt_eq hc hs.lockCnt herr]
    refine .applied ?_ hpred (congrArg₂ (· + ·) hp hd)
    intro hl ho
    apply Nat.not_lt.1
    intro hn
    exact Bool.eq_false_iff.1 hr ((rejects_iff hc herr).2 ⟨hl, ho, hn⟩)

end PhaseLockLoop

end PicoGnss
