import Mathlib.Data.List.Induction
import PicoGnss.Lib.Mealy
import PicoGnss.Gnssdo.PhaseLockLoop

/-! What the lock counter and the Smith history say of the edges before. -/

namespace PicoGnss
open FixedWidth Mealy
set_option autoImplicit true

/-- What an applied edge leaves to the edges after it. -/
structure AppliedEdge where
  errNs : Int
  phaseCorrNs : Int

/-- How many of the most recent edges were in the lock window, without a break. -/
def lockStreak (lockNs : Int) (edges : List AppliedEdge) : Nat :=
  (edges.takeWhile fun e => decide (e.errNs.natAbs < lockNs)).length

theorem lockStreak_cons (lockNs err corr : Int) (edges : List AppliedEdge) :
    lockStreak lockNs (⟨err, corr⟩ :: edges) =
      if err.natAbs < lockNs then lockStreak lockNs edges + 1 else 0 := by
  rw [lockStreak, List.takeWhile_cons]
  by_cases hin : (err.natAbs : Int) < lockNs
  · rw [if_pos (decide_eq_true hin), if_pos hin]
    rfl
  · rw [if_neg (by rwa [decide_eq_true_eq]), if_neg hin]
    rfl

/-- The sum of the most recent corrections that the predictor looks at. -/
def recentCorrs (smithEdges : Nat) (edges : List AppliedEdge) : Int :=
  ((edges.take (max 1 (min smithEdges 8))).map AppliedEdge.phaseCorrNs).sum

namespace PhaseLockLoop

variable {config : PhaseLockLoopConfig}

/-- `update` as a step on one input. -/
def updateEdge (l : PhaseLockLoop) (x : ControlInput) : PhaseLockLoopUpdate × PhaseLockLoop :=
  l.update x.errNs x.valid

/-- The edge that an update applied, if it did. -/
def appliedEdge (x : ControlInput) (u : PhaseLockLoopUpdate) : List AppliedEdge :=
  if u.applied then [⟨x.errNs, u.phaseCorrNs⟩] else []

/-- The applied edges of a run, the most recent first. -/
def appliedEdges (l : PhaseLockLoop) (xs : List ControlInput) : List AppliedEdge :=
  (List.zipWith appliedEdge xs (outputs updateEdge l xs)).reverse.flatten

theorem appliedEdges_concat (l : PhaseLockLoop) (xs : List ControlInput) (x : ControlInput) :
    l.appliedEdges (xs ++ [x]) =
      appliedEdge x ((final updateEdge l xs).updateEdge x).1 ++ l.appliedEdges xs := by
  have hlength := length_outputs updateEdge l xs
  rw [appliedEdges, outputs_append, List.zipWith_append hlength.symm, List.reverse_append,
    List.flatten_append]
  simp only [outputs_cons, outputs_nil, List.zipWith_cons_cons, List.zipWith_nil_left,
    List.reverse_singleton, List.flatten_singleton, appliedEdges]

/-- What a loop remembers of the applied edges. -/
structure Remembers (config : PhaseLockLoopConfig) (l : PhaseLockLoop)
    (edges : List AppliedEdge) : Prop where
  keeps : l.config = config
  lockCnt : (∀ e ∈ edges, e.errNs.natAbs < 9223372036854775808) →
    config.lockHold < 4294967295 ∨ lockStreak config.lockNs edges < 4294967296 →
    l.lockCnt = min config.lockHold (lockStreak config.lockNs edges)
  pdHist : l.pdHist.corrs =
    (edges.map AppliedEdge.phaseCorrNs ++ List.replicate 8 0).take 8

theorem remembers_startSegment (l : PhaseLockLoop) (init : ControlInit) :
    Remembers l.config (l.startSegment init) [] := by
  constructor
  · rfl
  · intro _ _
    exact (Nat.min_zero _).symm
  · rfl

theorem nextLockCnt_streak {edges : List AppliedEdge} (h : Remembers config l edges)
    (hword : config.lockHold < 4294967296)
    (herr : ∀ e ∈ (⟨err, corr⟩ :: edges : List AppliedEdge), e.errNs.natAbs < 9223372036854775808)
    (hfits : config.lockHold < 4294967295 ∨
      lockStreak config.lockNs (⟨err, corr⟩ :: edges) < 4294967296) :
    l.nextLockCnt err = min config.lockHold (lockStreak config.lockNs (⟨err, corr⟩ :: edges)) := by
  obtain ⟨hlatest, hearlier⟩ := List.forall_mem_cons.1 herr
  rw [lockStreak_cons] at hfits ⊢
  rw [nextLockCnt, h.keeps, abs64_of_natAbs_lt hlatest]
  by_cases hin : (err.natAbs : Int) < config.lockNs
  · rw [if_pos hin] at hfits ⊢
    rw [if_pos hin, h.lockCnt hearlier (hfits.imp_right Nat.lt_of_succ_lt)]
    omega
  · rw [if_neg hin, if_neg hin, Nat.min_zero]

theorem corrs_push {h : SmithHistory} {corrs : List Int}
    (heq : h.corrs = (corrs ++ List.replicate 8 0).take 8) (corr : Int) :
    (h.push corr).corrs = (corr :: corrs ++ List.replicate 8 0).take 8 := by
  have hcorrs : (h.push corr).corrs = corr :: h.corrs.take 7 := rfl
  rw [hcorrs, heq, List.take_take, List.cons_append, List.take_succ_cons]
  rfl

/-- The blank places of the history add nothing. -/
theorem inFlight_recent {h : SmithHistory} {edges : List AppliedEdge}
    (heq : h.corrs = (edges.map AppliedEdge.phaseCorrNs ++ List.replicate 8 0).take 8)
    (smithEdges : Nat) : h.inFlight smithEdges = recentCorrs smithEdges edges := by
  have hle : max 1 (min smithEdges 8) ≤ 8 := by omega
  rw [SmithHistory.inFlight, heq, List.take_take, Nat.min_eq_left hle, List.take_append,
    List.sum_append, List.take_replicate, List.sum_replicate_int, Int.mul_zero,
    Int.add_zero, recentCorrs, List.map_take]

theorem Remembers.updateEdge (h : Remembers config l edges) (hword : config.lockHold < 4294967296)
    (x : ControlInput) :
    Remembers config (l.updateEdge x).2 (appliedEdge x (l.updateEdge x).1 ++ edges) := by
  obtain ⟨err, valid⟩ := x
  obtain ⟨u, l', hstep, heq⟩ := LoopStep.exists l err valid
  rw [PhaseLockLoop.updateEdge, heq]
  cases hstep with
  | held => exact h
  | rejected hr => exact ⟨h.keeps, h.lockCnt, h.pdHist⟩
  | applied hr hp hd =>
    constructor
    · exact h.keeps
    · exact nextLockCnt_streak h hword
    · exact corrs_push h.pdHist _

theorem remembers_run (l : PhaseLockLoop) (init : ControlInit)
    (hword : l.config.lockHold < 4294967296) (xs : List ControlInput) :
    Remembers l.config (final PhaseLockLoop.updateEdge (l.startSegment init) xs)
      ((l.startSegment init).appliedEdges xs) := by
  induction xs using List.reverseRecOn with
  | nil => exact remembers_startSegment l init
  | append_singleton xs x ih =>
    rw [final_concat, appliedEdges_concat]
    exact ih.updateEdge hword x

end PhaseLockLoop

/-- At every edge of a run, the counter is the streak in the lock window, up to the hold, and the
prediction takes off the recent corrections. -/
theorem lock_and_history (l : PhaseLockLoop) (init : ControlInit)
    (hmode : l.config.mode = .pidSmith) (hword : l.config.lockHold < 4294967296)
    (xs : List ControlInput) :
    let edges := (l.startSegment init).appliedEdges xs
    let l' := final PhaseLockLoop.updateEdge (l.startSegment init) xs
    ((∀ e ∈ edges, e.errNs.natAbs < 9223372036854775808) →
      l.config.lockHold < 4294967295 ∨ lockStreak l.config.lockNs edges < 4294967296 →
      l'.lockCnt = min l.config.lockHold (lockStreak l.config.lockNs edges)) ∧
    ∀ x : ControlInput, InI64 (x.errNs - recentCorrs l.config.smithEdges edges) →
      (l'.updateEdge x).1.predictedPhaseNs =
        x.errNs - recentCorrs l.config.smithEdges edges := by
  intro edges l'
  have h : PhaseLockLoop.Remembers l.config l' edges :=
    PhaseLockLoop.remembers_run l init hword xs
  refine ⟨h.lockCnt, ?_⟩
  rintro ⟨err, valid⟩ hx
  have hpred : (l'.updateEdge ⟨err, valid⟩).1.predictedPhaseNs = l'.predict err := by
    obtain ⟨u, l'', hstep, heq⟩ := PhaseLockLoop.LoopStep.exists l' err valid
    rw [PhaseLockLoop.updateEdge, heq]
    cases hstep with
    | held | rejected | applied => rfl
  have hsmith : l'.config.mode.smith = true := by
    rw [h.keeps, hmode]
    rfl
  rw [hpred, PhaseLockLoop.predict, if_pos hsmith, PhaseLockLoop.smithInFlight,
    PhaseLockLoop.inFlight_recent h.pdHist, h.keeps]
  exact wrap64_of_inI64 hx

/-- Two near edges count for two. -/
theorem lock_and_history_two :
    (final PhaseLockLoop.updateEdge (PhaseLockLoop.new.startSegment {})
      [⟨500, true⟩, ⟨7, false⟩, ⟨400, true⟩]).lockCnt = 2 :=
  ((lock_and_history .new {} rfl (by decide) [⟨500, true⟩, ⟨7, false⟩, ⟨400, true⟩]).1
    (by decide) (.inl (by decide))).trans (by decide)

/-- The least word has no magnitude, and counts as an edge in the lock window. -/
theorem least_word_counts_as_near :
    ¬(final PhaseLockLoop.updateEdge (PhaseLockLoop.new.startSegment {})
        [⟨-9223372036854775808, true⟩]).lockCnt =
      min PhaseLockLoopConfig.default.lockHold
        (lockStreak PhaseLockLoopConfig.default.lockNs
          ((PhaseLockLoop.new.startSegment {}).appliedEdges [⟨-9223372036854775808, true⟩])) := by
  decide

end PicoGnss
