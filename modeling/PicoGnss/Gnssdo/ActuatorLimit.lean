import PicoGnss.Gnssdo.FairStart
import PicoGnss.Gnssdo.PhaseServo

/-! How far one edge can move the output. -/

namespace PicoGnss
open FixedWidth
set_option autoImplicit true

namespace PhaseLockLoopConfig

/-- The configurations that the crate and the firmware ship. -/
def shipped : List PhaseLockLoopConfig := [default, naivePid, naivePi, pOnly, production]

theorem realizes_of_shipped (h : c ∈ shipped) : ∃ g, c.Realizes g := by
  simp only [shipped, List.mem_cons, List.not_mem_nil, or_false] at h
  rcases h with rfl | rfl | rfl | rfl | rfl
  · exact ⟨_, realizes_default⟩
  · exact ⟨_, realizes_naivePid⟩
  · exact ⟨_, realizes_naivePi⟩
  · exact ⟨_, realizes_pOnly⟩
  · exact ⟨_, realizes_production⟩

end PhaseLockLoopConfig

/-- The tunings that are compared on one boot. -/
def Tuning.Shipped : Tuning → Prop
  | pll config => config ∈ PhaseLockLoopConfig.shipped
  | integRework cfg => cfg = .default
  | abBoost cfg => cfg = .default
  | openLoop => True

/-- The clamp on the trim; the open loop has the others' in place of its own. -/
def Tuning.trimMaxMppb : Tuning → Int
  | pll config => config.trimMaxMppb
  | integRework cfg => cfg.trimMaxMppb
  | abBoost cfg => cfg.trimMaxMppb
  | openLoop => PhaseLockLoopConfig.default.trimMaxMppb

namespace PhaseLockLoop

/-- The proportional and the derivative term of an edge that ends a full run of rejects are more
together than either may be. -/
def Overdriven (l : PhaseLockLoop) (err : Int) : Prop :=
  l.config.mode.useD = true ∧ l.isLocked = true ∧ l.config.outlierMax ≤ l.rejectCnt ∧
    corrClampNs < ((err - l.servo.inFlight).tdiv l.kpInv +
      (err - l.servo.inFlight - l.lastPred).tdiv l.config.dDen).natAbs

structure Settled (l : PhaseLockLoop) : Prop where
  config : l.config ∈ PhaseLockLoopConfig.shipped
  trim : l.trimMppb.natAbs ≤ l.config.trimMaxMppb
  servo : l.servo.Settling

theorem overdriven_iff {l : PhaseLockLoop} (hc : l.config.Realizes g) :
    l.Overdriven err ↔ PhaseServo.Overdriven g l.servo err := by
  rw [Overdriven, PhaseServo.Overdriven, isLocked_iff_servo hc, hc.useD, hc.outlierMax,
    kpInv_eq hc, hc.dDen]
  exact and_congr_right' (and_congr_right' (and_congr_right' Int.ofNat_lt))

theorem Settled.step (h : Settled l) (hx : x.errNs.natAbs ≤ 500000000) :
    Settled (l.step x).2 ∧ (((l.step x).1.trimMppb.natAbs ≤ l.config.trimMaxMppb ∧
      (l.step x).1.pcorrNs.natAbs ≤ corrClampNs) ↔ ¬(x.valid = true ∧ l.Overdriven x.errNs)) := by
  obtain ⟨err, valid⟩ := x
  obtain ⟨u, l', hstep, hupdate⟩ := LoopStep.exists l err valid
  obtain ⟨g, hc⟩ := PhaseLockLoopConfig.realizes_of_shipped h.config
  have hservo := hstep.servo hc h.servo.fits fun _ => Nat.le_trans hx (by decide)
  have hsettling := h.servo.step hservo fun _ => hx
  have hlimit := h.servo.limit_iff hservo fun _ => hx
  obtain ⟨htrim, htrim'⟩ := hstep.trim h.trim
  rw [step_eq hupdate, overdriven_iff hc, ← hlimit]
  constructor
  · rw [← hstep.config] at htrim'
    exact ⟨by rw [hstep.config]; exact h.config, htrim', hsettling⟩
  · exact (and_iff_right htrim).trans Int.ofNat_le

/-- The firmware's derivative is too weak to overdrive its loop. -/
theorem Settled.not_overdriven {l : PhaseLockLoop} (h : Settled l) (hc : l.config = .production)
    (hx : err.natAbs ≤ 500000000) : ¬l.Overdriven err := by
  rintro ⟨-, hlocked, -, hlarge⟩
  have hrealizes := PhaseLockLoopConfig.realizes_production
  rw [← hc] at hrealizes
  have hwithin := h.servo.locked
    (Nat.le_antisymm h.servo.lockCnt ((isLocked_iff_servo hrealizes).1 hlocked))
  have hflight := hwithin.inFlight
  have hlast : l.lastPred.natAbs ≤ 60000 := hwithin.lastPred
  have hnow : (err - l.servo.inFlight).natAbs ≤ 500025000 := by omega
  have hmove : (err - l.servo.inFlight - l.lastPred).natAbs ≤ 500085000 := by omega
  have hp := natAbs_tdiv_le hnow (by decide : 0 < 8) (Int.le_refl 8)
  have hd := natAbs_tdiv_le hmove (by decide : 0 < 16) (Int.le_refl 16)
  have hden : l.config.dDen = 16 := by
    rw [hc]
    rfl
  have hkp : l.kpInv = 8 := kpInv_eq hrealizes
  rw [hkp, hden] at hlarge
  unfold corrClampNs at hlarge
  omega

end PhaseLockLoop

namespace IntegralRework

def servo (r : IntegralRework) : PhaseServo := ⟨r.lastPd, r.lastPred, r.lockCnt, r.rejectCnt⟩

def Overdriven (r : IntegralRework) (err : Int) : Prop :=
  r.isLocked = true ∧ r.cfg.outlierMax ≤ r.rejectCnt ∧
    corrClampNs < ((err - r.lastPd).tdiv r.cfg.kpInv +
      (err - r.lastPd - r.lastPred).tdiv r.cfg.dDen).natAbs

variable {r : IntegralRework} {ctrl pred : Int}

theorem rejects_iff (hc : r.cfg = .default) (he : ctrl.natAbs ≤ 1000000000) :
    r.rejects ctrl = true ↔ 5 ≤ r.lockCnt ∧ 3000 < ctrl.natAbs ∧ r.rejectCnt < 12 := by
  rw [rejects, isLocked, Bool.and_eq_true, Bool.and_eq_true, decide_eq_true_iff, decide_eq_true_iff,
    decide_eq_true_iff, hc, abs64_of_natAbs_lt (by omega), and_assoc]
  exact and_congr_right' (and_congr_left' Int.ofNat_lt)

theorem nextLockCnt_eq (hc : r.cfg = .default) (hl : r.lockCnt ≤ 5)
    (he : ctrl.natAbs ≤ 1000000000) : r.nextLockCnt ctrl = r.servo.nextLockCnt ctrl := by
  rw [nextLockCnt, PhaseServo.nextLockCnt, hc, abs64_of_natAbs_lt (by omega),
    Nat.mod_eq_of_lt (by omega)]
  exact if_congr Int.ofNat_lt rfl rfl

theorem pCorr_eq (hc : r.cfg = .default) (pred : Int) :
    r.pCorr pred = PhaseServo.pTerm .default pred := by
  rw [pCorr, hc]
  rfl

theorem dCorr_eq (hc : r.cfg = .default) (hr : r.lastPred.natAbs ≤ 1000000000)
    (hp : pred.natAbs ≤ 2000000000) : r.dCorr pred = r.servo.dTerm .default pred := by
  have hacts : r.isLocked = true ↔ ServoGains.default.useD = true ∧ 5 ≤ r.servo.lockCnt := by
    rw [isLocked, decide_eq_true_iff, hc]
    exact (and_iff_right rfl).symm
  rw [dCorr, PhaseServo.dTerm, hc, wrap64_of_natAbs_lt (by omega)]
  exact if_congr hacts rfl rfl

/-- The rework is the same servo with another integral. -/
theorem ReworkStep.servo (hc : r.cfg = .default) (hs : r.servo.Fits)
    (h : ReworkStep r ctrl valid o r') (he : ctrl.natAbs ≤ 1000000000) :
    PhaseServo.Step .default r.servo ctrl valid o.pcorrNs r'.servo := by
  cases h with
  | held => exact .held
  | rejected hr =>
    obtain ⟨hl, ho, hn⟩ := (rejects_iff hc he).1 hr
    exact .rejected hl ho hn
  | @applied p d hr hp hd =>
    have hflight : r.lastPd.natAbs ≤ 1000000000 := hs.inFlight
    have hpred : r.predict ctrl = ctrl - r.lastPd := wrap64_of_natAbs_lt (by omega)
    rw [pCorr_eq hc] at hp
    rw [dCorr_eq hc hs.lastPred (by omega)] at hd
    have hservo : (⟨p + d, r.predict ctrl, r.servo.nextLockCnt ctrl, 0⟩ : PhaseServo) =
        IntegralRework.servo
          ⟨r.cfg, r.integrate (r.predict ctrl), r.nextLockCnt ctrl, 0, r.predict ctrl, p + d⟩ := by
      rw [← nextLockCnt_eq hc hs.lockCnt he]
      rfl
    rw [← hservo]
    refine .applied ?_ hpred (congrArg₂ (· + ·) hp hd)
    intro hl ho
    apply Nat.not_lt.1
    intro hn
    exact Bool.eq_false_iff.1 hr ((rejects_iff hc he).2 ⟨hl, ho, hn⟩)

/-- A saturated trim bleeds back into its range. -/
theorem integrate_le (hc : r.cfg = .default) (ht : r.trimMppb.natAbs ≤ 3000000) (pred : Int) :
    (r.integrate pred).natAbs ≤ 3000000 := by
  have hpin := natAbs_clamp_le pred (by decide : (0 : Int) ≤ 800)
  have hden : max (128 : Int) 1 = 128 := rfl
  have hkbc : max (5 : Int) 1 = 5 := rfl
  simp only [integrate, hc, IntegralReworkConfig.default, hden, hkbc]
  generalize clamp pred (-800) 800 = pin at hpin ⊢
  have hscaled : (pin * 1000).natAbs ≤ 800000 := by omega
  have hstep := natAbs_tdiv_le hscaled (by decide : 0 < 128) (Int.le_refl 128)
  rw [wrap64_of_natAbs_lt (Nat.lt_of_le_of_lt hscaled (by decide))]
  generalize (pin * 1000).tdiv 128 = q at hstep ⊢
  have hwant : (r.trimMppb - q).natAbs < 9223372036854775808 := by omega
  rw [wrap64_of_natAbs_lt hwant]
  obtain ⟨excess, hcut⟩ : ∃ excess,
      excess = r.trimMppb - q - clamp (r.trimMppb - q) (-3000000) 3000000 := ⟨_, rfl⟩
  have hle := natAbs_tdiv_le (Nat.le_refl excess.natAbs) (by decide : 0 < 5) (Int.le_refl 5)
  -- the bleed has the sign of what was cut off
  have hpos := pos_of_tdiv_pos (x := excess) (k := 5) (by decide)
  have hneg := pos_of_tdiv_pos (x := -excess) (k := 5) (by decide)
  rw [Int.neg_tdiv] at hneg
  rw [← hcut]
  unfold clamp at hcut ⊢
  have hexcess : excess.natAbs < 9223372036854775808 := by omega
  rw [wrap64_of_natAbs_lt hexcess, wrap64_of_natAbs_lt (by omega)]
  omega

theorem ReworkStep.trim (hc : r.cfg = .default) (h : ReworkStep r ctrl valid o r')
    (ht : r.trimMppb.natAbs ≤ 3000000) :
    o.trimMppb.natAbs ≤ 3000000 ∧ r'.trimMppb.natAbs ≤ 3000000 := by
  cases h with
  | held | rejected => exact ⟨ht, ht⟩
  | applied => exact ⟨integrate_le hc ht _, integrate_le hc ht _⟩

structure Settled (r : IntegralRework) : Prop where
  cfg : r.cfg = .default
  trim : r.trimMppb.natAbs ≤ 3000000
  servo : r.servo.Settling

theorem overdriven_iff (hc : r.cfg = .default) :
    r.Overdriven ctrl ↔ PhaseServo.Overdriven .default r.servo ctrl := by
  rw [Overdriven, PhaseServo.Overdriven, isLocked, decide_eq_true_iff, hc,
    and_iff_right (show ServoGains.default.useD = true from rfl)]
  exact and_congr_right' (and_congr_right' Int.ofNat_lt)

theorem Settled.step (h : Settled r) (hx : x.errNs.natAbs ≤ 500000000) :
    Settled (r.step x).2 ∧ (((r.step x).1.trimMppb.natAbs ≤ r.cfg.trimMaxMppb ∧
      (r.step x).1.pcorrNs.natAbs ≤ corrClampNs) ↔ ¬(x.valid = true ∧ r.Overdriven x.errNs)) := by
  obtain ⟨o, r', hstep, heq⟩ := ReworkStep.exists r x
  have hservo := hstep.servo h.cfg h.servo.fits (Nat.le_trans hx (by decide))
  have hsettling := h.servo.step hservo fun _ => hx
  have hlimit := h.servo.limit_iff hservo fun _ => hx
  obtain ⟨htrim, htrim'⟩ := hstep.trim h.cfg h.trim
  rw [heq, overdriven_iff h.cfg, ← hlimit]
  constructor
  · exact ⟨hstep.cfg.trans h.cfg, htrim', hsettling⟩
  · rw [h.cfg]
    exact (and_iff_right (Int.ofNat_le.2 htrim)).trans Int.ofNat_le

end IntegralRework

theorem AlphaBetaBoost.observe_within {b : AlphaBetaBoost} (h : 0 ≤ b.cfg.trimMaxMppb)
    (pred innov : Int) : (b.observe pred innov).lastTrimMppb.natAbs ≤ b.cfg.trimMaxMppb ∧
      (b.observe pred innov).lastPcorrNs.natAbs ≤ corrClampNs :=
  ⟨natAbs_clamp_le _ h, natAbs_clamp_le _ (by decide)⟩

theorem natAbs_zero_le_corrClamp : ((0 : Int).natAbs : Int) ≤ corrClampNs := by decide

/-- The observer clamps its one correction, and its trim whether or not an edge is applied. -/
theorem AlphaBetaBoost.step_within {b : AlphaBetaBoost} (hc : b.cfg = .default) (x : ControlInput) :
    (b.step x).2.cfg = .default ∧ (b.step x).1.trimMppb.natAbs ≤ b.cfg.trimMaxMppb ∧
      (b.step x).1.pcorrNs.natAbs ≤ corrClampNs := by
  obtain ⟨z, valid⟩ := x
  obtain ⟨o, b', hstep, heq⟩ := BoostStep.exists b ⟨z, valid⟩
  have hcfg := hstep.cfg
  rw [heq]
  have hmax : 0 ≤ b.cfg.trimMaxMppb := by
    rw [hc]
    decide
  refine ⟨hcfg.trans hc, ?_⟩
  cases hstep with
  | held | rejected => exact ⟨natAbs_clamp_le _ hmax, natAbs_zero_le_corrClamp⟩
  | applied hr hi hb hb' =>
    have hboosted : _ = b.cfg := (congrArg AlphaBetaBoost.cfg hb).trans (boost_cfg _ z _ _)
    rw [← hboosted] at hmax ⊢
    rw [hb']
    exact observe_within hmax b.phasePred _

/-- An output within both actuator limits. -/
def ControlOutput.Within (o : ControlOutput) (trimMax : Int) : Prop :=
  o.trimMppb.natAbs ≤ trimMax ∧ o.pcorrNs.natAbs ≤ corrClampNs

namespace Controller

/-- An edge on which a controller's two terms go beyond the limit that each of them keeps. -/
def Overdriven (c : Controller) (x : ControlInput) : Prop :=
  match c with
  | pll l => x.valid = true ∧ l.Overdriven x.errNs
  | integRework r => x.valid = true ∧ r.Overdriven x.errNs
  | abBoost _ => False
  | openLoop _ => False

/-- What a shipped controller keeps on a run from its seed. -/
def Settled : Controller → Prop
  | pll l => l.Settled
  | integRework r => r.Settled
  | abBoost b => b.cfg = .default
  | openLoop o => o.residualTrimMppb.natAbs ≤ PhaseLockLoopConfig.default.trimMaxMppb

theorem settled_startSegment {c : Controller} (hc : c.tuning.Shipped)
    (hseed : seed.natAbs ≤ c.tuning.trimMaxMppb) : Settled (c.startSegment ⟨seed⟩) := by
  cases c with
  | pll l =>
    refine ⟨hc, hseed, ?_⟩
    have hzero : (l.startSegment ⟨seed⟩).servo = ⟨0, 0, 0, 0⟩ := by
      simp [PhaseLockLoop.servo, PhaseLockLoop.startSegment, PhaseLockLoop.smithInFlight]
    rw [hzero]
    exact PhaseServo.settling_restart (Nat.zero_le _) (Nat.zero_le _)
  | integRework r =>
    have hcfg : r.cfg = .default := hc
    have hle : (seed.natAbs : Int) ≤ r.cfg.trimMaxMppb := hseed
    rw [hcfg] at hle
    exact ⟨hcfg, Int.ofNat_le.1 hle, PhaseServo.settling_restart (Nat.zero_le _) (Nat.zero_le _)⟩
  | abBoost b => exact hc
  | openLoop o => exact hseed

theorem Settled.step {c : Controller} (h : Settled c) (hx : x.errNs.natAbs ≤ 500000000) :
    Settled (c.step x).2 ∧ ((c.step x).1.Within c.tuning.trimMaxMppb ↔ ¬c.Overdriven x) := by
  cases c with
  | pll l => exact PhaseLockLoop.Settled.step h hx
  | integRework r => exact IntegralRework.Settled.step h hx
  | abBoost b =>
    obtain ⟨hcfg, hwithin⟩ := AlphaBetaBoost.step_within h x
    exact ⟨hcfg, iff_of_true hwithin id⟩
  | openLoop o => exact ⟨h, iff_of_true ⟨h, natAbs_zero_le_corrClamp⟩ id⟩

/-- A settled controller of a given tuning. -/
structure SettledAs (tuning : Tuning) (c : Controller) : Prop where
  settled : c.Settled
  tuning : c.tuning = tuning

theorem settledAs_startSegment {c : Controller} (hc : c.tuning.Shipped)
    (hseed : seed.natAbs ≤ c.tuning.trimMaxMppb) :
    SettledAs c.tuning (c.startSegment ⟨seed⟩) :=
  ⟨settled_startSegment hc hseed, c.tuning_startSegment ⟨seed⟩⟩

theorem SettledAs.step {tuning : Tuning} {c : Controller} (h : SettledAs tuning c)
    (hx : x.errNs.natAbs ≤ 500000000) : SettledAs tuning (c.step x).2 ∧
      ((c.step x).1.Within tuning.trimMaxMppb ↔ ¬c.Overdriven x) := by
  obtain ⟨hsettled, rfl⟩ := h
  obtain ⟨hnext, hiff⟩ := hsettled.step hx
  exact ⟨⟨hnext, c.tuning_step x⟩, hiff⟩

theorem SettledAs.not_overdriven {c : Controller} (h : SettledAs (.pll .production) c)
    (hx : x.errNs.natAbs ≤ 500000000) : ¬c.Overdriven x := by
  obtain ⟨hsettled, htuning⟩ := h
  cases c with
  | pll l =>
    intro hover
    exact PhaseLockLoop.Settled.not_overdriven hsettled (Tuning.pll.inj htuning) hx hover.2
  | integRework | abBoost | openLoop => cases htuning

end Controller

/-- On every run from a seed, the outputs of a shipped controller are within both limits exactly
where no edge overdrives it. -/
theorem actuator_limit_iff (c : Controller) (hc : c.tuning.Shipped) (seed : Int)
    (hseed : seed.natAbs ≤ c.tuning.trimMaxMppb) (xs : List ControlInput)
    (hxs : ∀ x ∈ xs, x.errNs.natAbs ≤ 500000000) :
    (∀ o ∈ Mealy.outputs Controller.step (c.startSegment ⟨seed⟩) xs,
        o.Within c.tuning.trimMaxMppb) ↔
      ∀ n x, xs[n]? = some x →
        ¬(Mealy.final Controller.step (c.startSegment ⟨seed⟩) (xs.take n)).Overdriven x := by
  have hstart := Controller.settledAs_startSegment hc hseed
  apply Mealy.forall_outputs_iff_of_invariant (P := Controller.SettledAs c.tuning) ?_ hstart hxs
  intro d x hd hx
  exact hd.step hx

/-- The firmware's own controller never moves its output by more than the limit. -/
theorem production_within_limit (seed : Int) (hseed : seed.natAbs ≤ 3000000)
    (xs : List ControlInput) (hxs : ∀ x ∈ xs, x.errNs.natAbs ≤ 500000000) :
    ∀ o ∈ Mealy.outputs Controller.step
      ((Controller.pll (.withConfig .production)).startSegment ⟨seed⟩) xs, o.Within 3000000 := by
  have hshipped : Tuning.Shipped (.pll .production) := by
    simp only [Tuning.Shipped, PhaseLockLoopConfig.shipped, List.mem_cons, true_or, or_true]
  have hstart : Controller.SettledAs (.pll .production)
      ((Controller.pll (.withConfig .production)).startSegment ⟨seed⟩) :=
    Controller.settledAs_startSegment (c := .pll (.withConfig .production)) hshipped
      (Int.ofNat_le.2 hseed)
  have hstep : ∀ (d : Controller) (x : ControlInput), d.SettledAs (.pll .production) →
      x.errNs.natAbs ≤ 500000000 →
      (d.step x).2.SettledAs (.pll .production) ∧ (d.step x).1.Within 3000000 := by
    intro d x hd hx
    obtain ⟨hnext, hiff⟩ := hd.step hx
    exact ⟨hnext, hiff.2 (hd.not_overdriven hx)⟩
  exact Mealy.forall_outputs_of_invariant (P := Controller.SettledAs (.pll .production))
    hstep hstart hxs

/-- Five edges in phase, and then the same large error until it is accepted. -/
def disturbedRun (err : Int) : List ControlInput :=
  List.replicate 5 ⟨0, true⟩ ++ List.replicate 13 ⟨err, true⟩

theorem mem_disturbedRun_le (he : err.natAbs ≤ 500000000) :
    ∀ x ∈ disturbedRun err, x.errNs.natAbs ≤ 500000000 := by
  intro x hx
  rcases List.mem_append.1 hx with hx | hx
  · rw [List.eq_of_mem_replicate hx]
    exact Nat.zero_le _
  · rw [List.eq_of_mem_replicate hx]
    exact he

/-- A disturbance of 270 ms overdrives the default loop. -/
theorem actuator_limit_default :
    ¬∀ o ∈ Mealy.outputs Controller.step ((Controller.pll .new).startSegment ⟨0⟩)
      (disturbedRun 270000000), o.Within 3000000 := by
  intro h
  have hshipped : (Controller.pll .new).tuning.Shipped := List.mem_cons_self ..
  have hnot := (actuator_limit_iff (.pll .new) hshipped 0 (by decide) (disturbedRun 270000000)
    (mem_disturbedRun_le (by decide))).1 h 17 ⟨270000000, true⟩ rfl
  exact hnot ⟨rfl, by decide +kernel, by decide +kernel, by decide +kernel, by decide +kernel⟩

/-- A disturbance of 500 ms moves the default loop by 162.5 ms in one step. -/
theorem default_exceeds_limit :
    ¬∀ (c : Controller) (seed : Int) (xs : List ControlInput), c.tuning.Shipped →
      seed.natAbs ≤ c.tuning.trimMaxMppb → (∀ x ∈ xs, x.errNs.natAbs ≤ 500000000) →
      ∀ o ∈ Mealy.outputs Controller.step (c.startSegment ⟨seed⟩) xs,
        o.Within c.tuning.trimMaxMppb := by
  intro h
  have hall := h (.pll .new) 0 (disturbedRun 500000000) (List.mem_cons_self ..) (by decide)
    (mem_disturbedRun_le (by decide))
  have hlast := (Mealy.forall_outputs_iff _ _ _).1 hall 17 ⟨500000000, true⟩ rfl
  exact absurd hlast.2 (by decide +kernel)

end PicoGnss
