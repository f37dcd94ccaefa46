import PicoGnss.Gnssdo.Controllers
import Mathlib.Algebra.BigOperators.Group.List.Basic

/-! A segment starts from its seed and from nothing that came before. -/

namespace PicoGnss
open FixedWidth
set_option autoImplicit true

/-- An edge that carries no phase error. -/
def ControlInput.Quiet (x : ControlInput) : Prop := x.valid = false ∨ x.errNs = 0

namespace SmithHistory

@[simp] theorem inFlight_blank (n : Nat) : blank.inFlight n = 0 := by
  apply List.sum_eq_zero
  intro corr hcorr
  exact List.eq_of_mem_replicate (List.mem_of_mem_take hcorr)

@[simp] theorem push_blank : blank.push 0 = blank := rfl

end SmithHistory

theorem clamp_corr_zero (n : Int) :
    clamp ((0 : Int).tdiv n) (-corrClampNs) corrClampNs = 0 := by
  rw [Int.zero_tdiv]
  rfl

theorem clamp_trim (h : t.natAbs ≤ (m : Int)) : clamp t (-m) m = t := by
  apply clamp_of_mem <;> omega

theorem inI64_trim (h : t.natAbs ≤ (m : Int)) (hm : InI64 m) : InI64 t ∧ InI64 (-t) := by
  unfold InI64 at hm ⊢
  omega

namespace PhaseLockLoop

/-- A loop with no history but its trim. -/
structure Blank (l : PhaseLockLoop) : Prop where
  pdHist : l.pdHist = .blank
  lastPred : l.lastPred = 0

/-- An edge in phase integrates nothing, and takes the trim away where nothing integrates. -/
theorem integrate_zero {l : PhaseLockLoop} (hin : l.config.mode.useI = true →
    l.trimMppb.natAbs ≤ l.config.trimMaxMppb ∧ InI64 l.config.trimMaxMppb) :
    l.integrate 0 0 = if l.config.mode.useI = true then l.trimMppb else 0 := by
  unfold PhaseLockLoop.integrate
  split
  · rename_i hi
    obtain ⟨htrim, hmax⟩ := hin hi
    split
    · simp only [Int.zero_mul, wrap64_zero, Int.zero_tdiv, Int.sub_zero,
        wrap64_of_inI64 (inI64_trim htrim hmax).1, clamp_trim htrim]
    · rfl
  · rfl

theorem Blank.quiet (h : Blank l) (hin : l.config.mode.useI = true →
      l.trimMppb.natAbs ≤ l.config.trimMaxMppb ∧ InI64 l.config.trimMaxMppb)
    (hout : 0 < l.config.outlierNs) (hq : ControlInput.Quiet x) :
    Blank (l.step x).2 ∧ (l.step x).2.config = l.config ∧ (l.step x).1.pcorrNs = 0 ∧
      (l.step x).1.dbg.state = 0 ∧ (l.step x).1.trimMppb = (l.step x).2.trimMppb ∧
      (l.step x).2.trimMppb =
        if l.config.mode.useI = true ∨ x.valid = false then l.trimMppb else 0 := by
  obtain ⟨err, valid⟩ := x
  obtain ⟨u, l', hstep, hupdate⟩ := LoopStep.exists l err valid
  rw [step_eq hupdate]
  cases hstep with
  | held => exact ⟨h, rfl, rfl, rfl, rfl, (if_pos (.inr rfl)).symm⟩
  | rejected hr =>
    obtain rfl : err = 0 := hq.resolve_left Bool.noConfusion
    rw [rejects, abs64_zero, decide_eq_false (Int.not_lt.2 (Int.le_of_lt hout)), Bool.and_false,
      Bool.false_and] at hr
    cases hr
  | applied hr hp hd =>
    obtain rfl : err = 0 := hq.resolve_left Bool.noConfusion
    have hflight : l.smithInFlight = 0 := by
      rw [smithInFlight, h.pdHist, SmithHistory.inFlight_blank]
    have hpredict : l.predict 0 = 0 := by
      rw [predict, hflight]
      split <;> rfl
    have hp0 : l.pCorr 0 = 0 := by
      rw [pCorr, clamp_corr_zero, ite_self]
    have hd0 : l.dCorr 0 = 0 := by
      rw [dCorr, h.lastPred, Int.sub_self, wrap64_zero, clamp_corr_zero, ite_self]
    rw [hpredict] at hp hd ⊢
    obtain rfl := hp.trans hp0
    obtain rfl := hd.trans hd0
    refine ⟨⟨?_, rfl⟩, rfl, rfl, rfl, rfl, ?_⟩
    · change l.pdHist.push (0 + 0) = .blank
      rw [h.pdHist, Int.add_zero, SmithHistory.push_blank]
    · change l.integrate 0 0 = _
      rw [integrate_zero hin]
      simp

end PhaseLockLoop

namespace IntegralRework

structure Blank (r : IntegralRework) : Prop where
  lastPred : r.lastPred = 0
  lastPd : r.lastPd = 0

theorem integrate_zero {r : IntegralRework} (he : 0 < r.cfg.eINs)
    (htrim : r.trimMppb.natAbs ≤ r.cfg.trimMaxMppb) (hmax : InI64 r.cfg.trimMaxMppb) :
    r.integrate 0 = r.trimMppb := by
  have hpin : clamp 0 (-r.cfg.eINs) r.cfg.eINs = 0 := by
    apply clamp_of_mem <;> omega
  have hin := (inI64_trim htrim hmax).1
  simp only [integrate, hpin, Int.zero_mul, wrap64_zero, Int.zero_tdiv, Int.sub_zero,
    wrap64_of_inI64 hin, clamp_trim htrim, Int.sub_self]

theorem Blank.quiet (h : Blank r) (he : 0 < r.cfg.eINs)
    (htrim : r.trimMppb.natAbs ≤ r.cfg.trimMaxMppb) (hmax : InI64 r.cfg.trimMaxMppb)
    (hq : ControlInput.Quiet x) :
    Blank (r.step x).2 ∧ (r.step x).2.cfg = r.cfg ∧ (r.step x).1.pcorrNs = 0 ∧
      (r.step x).1.dbg.state = 0 ∧ (r.step x).1.trimMppb = r.trimMppb ∧
      (r.step x).2.trimMppb = r.trimMppb := by
  obtain ⟨err, valid⟩ := x
  obtain ⟨o, r', hstep, heq⟩ := ReworkStep.exists r ⟨err, valid⟩
  rw [heq]
  cases hstep with
  | held => exact ⟨h, rfl, rfl, rfl, rfl, rfl⟩
  | rejected hr => exact ⟨⟨h.lastPred, h.lastPd⟩, rfl, rfl, rfl, rfl, rfl⟩
  | applied hr hp hd =>
    obtain rfl : err = 0 := hq.resolve_left Bool.noConfusion
    have hpredict : r.predict 0 = 0 := by
      rw [predict, h.lastPd]
      rfl
    have hp0 : r.pCorr 0 = 0 := by rw [pCorr, clamp_corr_zero]
    have hd0 : r.dCorr 0 = 0 := by
      rw [dCorr, h.lastPred, Int.sub_self, wrap64_zero, clamp_corr_zero, ite_self]
    have htrim' := integrate_zero he htrim hmax
    rw [hpredict] at hp hd
    obtain rfl := hp.trans hp0
    obtain rfl := hd.trans hd0
    rw [← hpredict] at htrim'
    exact ⟨⟨hpredict, rfl⟩, rfl, rfl, rfl, htrim', htrim'⟩

end IntegralRework

namespace AlphaBetaBoost

/-- An observer that expects nothing but the seeded trim. -/
structure Blank (b : AlphaBetaBoost) : Prop where
  phaseHat : b.phaseHat = 0
  driftHat : b.driftHatMppb = -b.lastTrimMppb
  lastPcorr : b.lastPcorrNs = 0
  steady : b.boosting = false

theorem Blank.freqTrimMppb (h : Blank b) (htrim : b.lastTrimMppb.natAbs ≤ b.cfg.trimMaxMppb)
    (hmax : InI64 b.cfg.trimMaxMppb) : b.freqTrimMppb = b.lastTrimMppb := by
  rw [AlphaBetaBoost.freqTrimMppb, h.driftHat, Int.neg_neg,
    wrap64_of_inI64 (inI64_trim htrim hmax).1, clamp_trim htrim]

theorem Blank.tickBoostBackstop (h : Blank b) : b.tickBoostBackstop = b := by
  rw [AlphaBetaBoost.tickBoostBackstop, h.steady]
  rfl

/-- Observing the expected phase changes nothing. -/
theorem Blank.observe (h : Blank b) (htrim : b.lastTrimMppb.natAbs ≤ b.cfg.trimMaxMppb)
    (hmax : InI64 b.cfg.trimMaxMppb) : b.observe 0 0 = b := by
  obtain ⟨cfg, phase, drift, trim, pcorr, boosting, edges, exits, lock, reject⟩ := b
  obtain ⟨hphase, hdrift, hpcorr, hsteady⟩ := h
  simp only at hphase hdrift hpcorr hsteady htrim hmax
  subst hphase hdrift hpcorr hsteady
  have hin := inI64_trim htrim hmax
  have hneg : (-trim).natAbs ≤ cfg.trimMaxMppb := by
    rw [Int.natAbs_neg]
    exact htrim
  simp only [AlphaBetaBoost.observe, Int.zero_tdiv, Int.add_zero, Int.zero_mul, wrap64_zero,
    wrap64_of_inI64 hin.2, clamp_trim hneg, Int.neg_neg, wrap64_of_inI64 hin.1,
    clamp_trim htrim]
  rfl

theorem Blank.phasePred (h : Blank b) : b.phasePred = 0 := by
  rw [AlphaBetaBoost.phasePred, h.phaseHat, h.driftHat, h.lastPcorr, Int.add_left_neg]
  rfl

/-- Neither the innovation nor a past run of rejects starts a boost. -/
theorem Blank.boost (h : Blank b) (hinnov : 0 < b.cfg.innovEnterNs) : b.boost 0 0 false = b := by
  have hnot : ¬(b.cfg.innovEnterNs < abs64 0 ∨ false = true) := by
    rw [abs64_zero]
    simp only [Bool.false_eq_true, or_false]
    omega
  rw [AlphaBetaBoost.boost, h.steady, if_neg hnot]
  rfl

theorem Blank.quiet (h : Blank b) (hinnov : 0 < b.cfg.innovEnterNs) (hlock : 0 < b.cfg.lockNs)
    (htrim : b.lastTrimMppb.natAbs ≤ b.cfg.trimMaxMppb) (hmax : InI64 b.cfg.trimMaxMppb)
    (hq : ControlInput.Quiet x) :
    Blank (b.step x).2 ∧ (b.step x).2.cfg = b.cfg ∧ (b.step x).1.pcorrNs = 0 ∧
      (b.step x).1.dbg.state = 0 ∧ (b.step x).1.trimMppb = b.lastTrimMppb ∧
      (b.step x).2.lastTrimMppb = b.lastTrimMppb := by
  obtain ⟨err, valid⟩ := x
  have hheld := h.freqTrimMppb htrim hmax
  obtain ⟨o, b', hstep, heq⟩ := BoostStep.exists b ⟨err, valid⟩
  rw [heq]
  cases hstep with
  | held htick =>
    rw [h.tickBoostBackstop] at htick
    subst htick
    exact ⟨h, rfl, rfl, congrArg Bool.toNat h.steady, hheld, rfl⟩
  | rejected hr htick =>
    have hcounted : Blank { b with rejectCnt := b.rejectCnt + 1 } :=
      ⟨h.phaseHat, h.driftHat, h.lastPcorr, h.steady⟩
    rw [hcounted.tickBoostBackstop] at htick
    subst htick
    exact ⟨hcounted, rfl, rfl, congrArg Bool.toNat h.steady, hheld, rfl⟩
  | applied hr hi hb hb' =>
    obtain rfl : err = 0 := hq.resolve_left Bool.noConfusion
    have hcleared : Blank { b with rejectCnt := 0 } :=
      ⟨h.phaseHat, h.driftHat, h.lastPcorr, h.steady⟩
    have haccepted : b.acceptedDisturbance 0 = false := by
      rw [acceptedDisturbance, abs64_zero, decide_eq_false (Int.not_le.2 hlock), Bool.and_false]
    rw [h.phasePred, Int.sub_zero, wrap64_zero] at hi
    subst hi
    rw [haccepted, hcleared.boost hinnov] at hb
    subst hb
    rw [h.phasePred, hcleared.observe htrim hmax] at hb'
    subst hb'
    exact ⟨⟨h.phaseHat, h.driftHat, h.lastPcorr, h.steady⟩, rfl, h.lastPcorr,
      congrArg Bool.toNat h.steady, rfl, rfl⟩

end AlphaBetaBoost

/-- What a segment start keeps: the strategy and its configuration. -/
inductive Tuning where
  | pll (config : PhaseLockLoopConfig)
  | integRework (cfg : IntegralReworkConfig)
  | abBoost (cfg : AlphaBetaBoostConfig)
  | openLoop

/-- Whether the trim survives an applied edge. -/
def Tuning.integrates : Tuning → Bool
  | pll config => config.mode.useI
  | _ => true

/-- A seed in the range of a trim whose clamp is a word, and the thresholds in use positive. -/
def Tuning.Admits (seed : Int) : Tuning → Prop
  | pll config => seed.natAbs ≤ config.trimMaxMppb ∧ InI64 config.trimMaxMppb ∧
      0 < config.outlierNs
  | integRework cfg => seed.natAbs ≤ cfg.trimMaxMppb ∧ InI64 cfg.trimMaxMppb ∧ 0 < cfg.eINs
  | abBoost cfg => seed.natAbs ≤ cfg.trimMaxMppb ∧ InI64 cfg.trimMaxMppb ∧
      0 < cfg.innovEnterNs ∧ 0 < cfg.lockNs
  | openLoop => True

/-- The controller of that tuning at the start of a segment. -/
def Tuning.start (init : ControlInit) : Tuning → Controller
  | pll config => .pll ((PhaseLockLoop.withConfig config).startSegment init)
  | integRework cfg => .integRework ((IntegralRework.withConfig cfg).startSegment init)
  | abBoost cfg => .abBoost ((AlphaBetaBoost.withConfig cfg).startSegment init)
  | openLoop => .openLoop (OpenLoopFf.new.startSegment init)

/-- The trim of a segment after the edges `xs`, all of them quiet. -/
def Tuning.fairTrim (tuning : Tuning) (seed : Int) (xs : List ControlInput) : Int :=
  if tuning.integrates || xs.all fun x => !x.valid then seed else 0

/-- One call on a controller. -/
inductive ControllerCall where
  | edge (input : ControlInput)
  | segment (init : ControlInit)

namespace Controller

def tuning : Controller → Tuning
  | pll l => .pll l.config
  | integRework r => .integRework r.cfg
  | abBoost b => .abBoost b.cfg
  | openLoop _ => .openLoop

def call (c : Controller) : ControllerCall → Option ControlOutput × Controller
  | .edge input => (some (c.step input).1, (c.step input).2)
  | .segment init => (none, c.startSegment init)

/-- A controller with no history but its trim. -/
def Started (trim : Int) : Controller → Prop
  | pll l => l.Blank ∧ l.trimMppb = trim
  | integRework r => r.Blank ∧ r.trimMppb = trim
  | abBoost b => b.Blank ∧ b.lastTrimMppb = trim
  | openLoop o => o.residualTrimMppb = trim

theorem started_startSegment (c : Controller) (h : c.tuning.Admits seed) :
    Started seed (c.startSegment ⟨seed⟩) := by
  cases c with
  | pll l => exact ⟨⟨rfl, rfl⟩, rfl⟩
  | integRework r => exact ⟨⟨rfl, rfl⟩, rfl⟩
  | abBoost b => exact ⟨⟨rfl, wrap64_of_inI64 (inI64_trim h.1 h.2.1).2, rfl, rfl⟩, rfl⟩
  | openLoop o => rfl

theorem tuning_startSegment (c : Controller) (init : ControlInit) :
    (c.startSegment init).tuning = c.tuning := by
  cases c with
  | pll | integRework | abBoost | openLoop => rfl

theorem startSegment_eq (c : Controller) (init : ControlInit) :
    c.startSegment init = c.tuning.start init := by
  cases c with
  | pll | integRework | abBoost | openLoop => rfl

theorem tuning_step (c : Controller) (x : ControlInput) : (c.step x).2.tuning = c.tuning := by
  cases c with
  | pll l =>
    obtain ⟨u, l', hstep, hupdate⟩ := PhaseLockLoop.LoopStep.exists l x.errNs x.valid
    change Tuning.pll (l.step ⟨x.errNs, x.valid⟩).2.config = .pll l.config
    rw [PhaseLockLoop.step_eq hupdate, hstep.config]
  | integRework r =>
    obtain ⟨o, r', hstep, heq⟩ := IntegralRework.ReworkStep.exists r x
    change Tuning.integRework (r.step x).2.cfg = .integRework r.cfg
    rw [heq, hstep.cfg]
  | abBoost b =>
    obtain ⟨o, b', hstep, heq⟩ := AlphaBetaBoost.BoostStep.exists b x
    change Tuning.abBoost (b.step x).2.cfg = .abBoost b.cfg
    rw [heq, hstep.cfg]
  | openLoop o => rfl

theorem tuning_call (c : Controller) (x : ControllerCall) : (c.call x).2.tuning = c.tuning := by
  cases x with
  | edge input => exact c.tuning_step input
  | segment init => exact c.tuning_startSegment init

theorem tuning_final (c : Controller) (xs : List ControllerCall) :
    (Mealy.final call c xs).tuning = c.tuning := by
  have hcall : ∀ (d : Controller) (x : ControllerCall),
      d.tuning = c.tuning → (d.call x).2.tuning = c.tuning := by
    intro d x h
    exact (d.tuning_call x).trans h
  exact Mealy.final_preserves (P := fun d : Controller => d.tuning = c.tuning) hcall rfl xs

/-- A quiet edge keeps the trim, except where nothing integrates. -/
theorem Started.quiet {c : Controller} (h : Started trim c) (ha : c.tuning.Admits trim)
    (hq : ControlInput.Quiet x) : Started (c.tuning.fairTrim trim [x]) (c.step x).2 ∧
      (c.step x).1.pcorrNs = 0 ∧ (c.step x).1.dbg.state = 0 ∧
      (c.step x).1.trimMppb = c.tuning.fairTrim trim [x] := by
  cases c with
  | pll l =>
    obtain ⟨hblank, rfl⟩ := h
    obtain ⟨hblank', -, hp, hs, ht, htrim⟩ := hblank.quiet (fun _ => ⟨ha.1, ha.2.1⟩) ha.2.2 hq
    have hfair : (l.step x).2.trimMppb = (tuning (pll l)).fairTrim l.trimMppb [x] := by
      rw [htrim, Tuning.fairTrim]
      simp [tuning, Tuning.integrates]
    exact ⟨⟨hblank', hfair⟩, hp, hs, ht.trans hfair⟩
  | integRework r =>
    obtain ⟨hblank, rfl⟩ := h
    obtain ⟨hblank', -, hp, hs, ht, htrim⟩ := hblank.quiet ha.2.2 ha.1 ha.2.1 hq
    exact ⟨⟨hblank', htrim⟩, hp, hs, ht⟩
  | abBoost b =>
    obtain ⟨hblank, rfl⟩ := h
    obtain ⟨hblank', -, hp, hs, ht, htrim⟩ := hblank.quiet ha.2.2.1 ha.2.2.2 ha.1 ha.2.1 hq
    exact ⟨⟨hblank', htrim⟩, hp, hs, ht⟩
  | openLoop o =>
    obtain rfl := h
    exact ⟨rfl, rfl, rfl, rfl⟩

end Controller

/-- The zero that takes the place of a trim is as good a seed. -/
theorem Tuning.Admits.fairTrim {tuning : Tuning} (h : tuning.Admits seed) (xs : List ControlInput) :
    tuning.Admits (tuning.fairTrim seed xs) := by
  unfold Tuning.fairTrim
  split
  · exact h
  · cases tuning with
    | pll config => exact ⟨(Int.natCast_nonneg _).trans h.1, h.2⟩
    | integRework cfg => exact ⟨(Int.natCast_nonneg _).trans h.1, h.2⟩
    | abBoost cfg => exact ⟨(Int.natCast_nonneg _).trans h.1, h.2⟩
    | openLoop => trivial

theorem Tuning.fairTrim_cons (tuning : Tuning) (seed : Int) (x : ControlInput)
    (xs : List ControlInput) :
    tuning.fairTrim (tuning.fairTrim seed [x]) xs = tuning.fairTrim seed (x :: xs) := by
  obtain ⟨err, valid⟩ := x
  simp only [Tuning.fairTrim, List.all_cons, List.all_nil, Bool.and_true]
  cases tuning.integrates with
  | true => rfl
  | false =>
    cases valid with
    | true => exact ite_self 0
    | false => rfl

/-- Quiet edges move neither the output phase nor the boost, and the trim as said. -/
theorem Controller.Started.outputs {c : Controller} (h : Started trim c)
    (ha : c.tuning.Admits trim) {xs : List ControlInput} (hq : ∀ x ∈ xs, ControlInput.Quiet x)
    (ho : (Mealy.outputs Controller.step c xs)[n]? = some o) :
    o.pcorrNs = 0 ∧ o.dbg.state = 0 ∧ o.trimMppb = c.tuning.fairTrim trim (xs.take (n + 1)) := by
  induction xs generalizing c trim n with
  | nil => cases ho
  | cons x xs ih =>
    obtain ⟨hstarted, hp, hs, ht⟩ := h.quiet ha (hq x (List.mem_cons_self ..))
    cases n with
    | zero =>
      cases ho
      exact ⟨hp, hs, ht⟩
    | succ n =>
      have hadmits := ha.fairTrim [x]
      rw [← c.tuning_step x] at hadmits
      have hrest := ih hstarted (by rwa [c.tuning_step x] at hadmits ⊢)
        (fun y hy => hq y (List.mem_cons_of_mem x hy)) ho
      rw [c.tuning_step x, Tuning.fairTrim_cons] at hrest
      exact hrest

/-- A segment starts with its seed as the trim and no correction, whatever came before, and
depends on nothing else; where nothing integrates, the first applied edge takes the trim away. -/
theorem fair_segment_start (c : Controller) (seed : Int) (h : c.tuning.Admits seed) :
    (∀ (xs : List ControlInput) (n : Nat) (o : ControlOutput), (∀ x ∈ xs, ControlInput.Quiet x) →
      (Mealy.outputs Controller.step (c.startSegment ⟨seed⟩) xs)[n]? = some o →
      o.pcorrNs = 0 ∧ o.dbg.state = 0 ∧
        o.trimMppb = c.tuning.fairTrim seed (xs.take (n + 1))) ∧
    ∀ (c' : Controller) (past past' : List ControllerCall) (xs : List ControlInput),
      c'.tuning = c.tuning →
      Mealy.outputs Controller.step
          ((Mealy.final Controller.call c past).startSegment ⟨seed⟩) xs =
        Mealy.outputs Controller.step
          ((Mealy.final Controller.call c' past').startSegment ⟨seed⟩) xs := by
  constructor
  · intro xs n o hq ho
    have hout := (c.started_startSegment h).outputs (by rwa [c.tuning_startSegment]) hq ho
    rw [c.tuning_startSegment] at hout
    exact hout
  · intro c' past past' xs hc
    have htuning : (Mealy.final Controller.call c past).tuning =
        (Mealy.final Controller.call c' past').tuning := by
      rw [c.tuning_final, c'.tuning_final, hc]
    rw [Controller.startSegment_eq, Controller.startSegment_eq, htuning]

/-- The production loop, with a held edge before the first edge in phase. -/
theorem fair_segment_start_default :
    ((Mealy.outputs Controller.step ((Controller.pll .new).startSegment ⟨12345⟩)
      [⟨700, false⟩, ⟨0, true⟩])[1]?.map ControlOutput.trimMppb) = some 12345 := by
  have hquiet : ∀ x ∈ [ControlInput.mk 700 false, ⟨0, true⟩], ControlInput.Quiet x := by
    intro x hx
    rcases List.mem_cons.1 hx with rfl | hx
    · exact .inl rfl
    · obtain rfl := List.mem_singleton.1 hx
      exact .inr rfl
  have hadmits : (Controller.pll .new).tuning.Admits 12345 := ⟨by decide, by decide, by decide⟩
  exact congrArg some ((fair_segment_start (.pll .new) 12345 hadmits).1 _ 1 _ hquiet rfl).2.2

/-- A loop without an integral drops its seed at the first applied edge. -/
theorem p_only_drops_seed :
    ¬∀ (c : Controller) (seed : Int), c.tuning.Admits seed →
      ∀ (xs : List ControlInput) (n : Nat) (o : ControlOutput), (∀ x ∈ xs, ControlInput.Quiet x) →
        (Mealy.outputs Controller.step (c.startSegment ⟨seed⟩) xs)[n]? = some o →
        o.trimMppb = seed := by
  intro h
  have htrim := h (.pll (.withConfig .pOnly)) 12345 ⟨by decide, by decide, by decide⟩
    [⟨0, true⟩] 0 _ (by
      intro x hx
      obtain rfl := List.mem_singleton.1 hx
      exact .inr rfl) rfl
  exact absurd htrim (by decide)

end PicoGnss
