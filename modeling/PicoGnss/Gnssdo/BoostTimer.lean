import PicoGnss.Gnssdo.Controllers

/-! The boost of the observer ends, whatever the edges are. -/

namespace PicoGnss
open FixedWidth Mealy
set_option autoImplicit true

namespace AlphaBetaBoost

variable {cfg : AlphaBetaBoostConfig}

/-- The states that edges and segment starts lead to. -/
inductive Reachable (cfg : AlphaBetaBoostConfig) : AlphaBetaBoost → Prop where
  | withConfig : Reachable cfg (.withConfig cfg)
  | step (x : ControlInput) : Reachable cfg b → Reachable cfg (b.step x).2
  | startSegment (init : ControlInit) : Reachable cfg b → Reachable cfg (b.startSegment init)

/-- A boost that goes on has edges left. -/
structure Timed (cfg : AlphaBetaBoostConfig) (b : AlphaBetaBoost) : Prop where
  keeps : b.cfg = cfg
  left : b.boosting = true → b.boostEdges < cfg.boostMaxEdges

/-- What an edge that finds or leaves the observer boosting does to the timer. -/
structure Ticks (b b' : AlphaBetaBoost) : Prop where
  keeps : b'.cfg = b.cfg
  advanced : b.boosting = true → b'.boosting = true →
    b'.boostEdges = min (b.boostEdges + 1) 4294967295 ∧ b'.boostEdges < b.cfg.boostMaxEdges
  entered : b.boosting = false → b'.boosting = true → b'.boostEdges = 0

theorem tickBoostBackstop_ticks (b : AlphaBetaBoost) : Ticks b b.tickBoostBackstop := by
  unfold tickBoostBackstop
  split
  · constructor
    · rfl
    · intro _ hon
      exact ⟨rfl, of_decide_eq_true hon⟩
    · intro hoff
      simp_all only [Bool.false_eq_true]
  · constructor
    · rfl
    · intro hon
      contradiction
    · intro hoff hon
      exact absurd hon (by rw [hoff]; exact Bool.false_ne_true)

theorem boost_ticks (b : AlphaBetaBoost) (z innov : Int) (accepted : Bool) :
    Ticks b (b.boost z innov accepted) := by
  unfold boost
  split
  · constructor
    · rfl
    · intro _ hon
      exact ⟨rfl, of_decide_eq_true (Bool.and_eq_true_iff.1 hon).2⟩
    · intro hoff
      simp_all only [Bool.false_eq_true]
  · split
    · constructor
      · rfl
      · intro hon
        contradiction
      · intro _ _
        rfl
    · constructor
      · rfl
      · intro hon
        contradiction
      · intro hoff hon
        exact absurd hon (by rw [hoff]; exact Bool.false_ne_true)

/-- Each of the three ways through an edge ticks, and shows what it leaves. -/
theorem BoostStep.ticks (h : BoostStep b z valid o b') :
    Ticks b b' ∧ o.dbg.state = b'.boosting.toNat := by
  cases h with
  | held htick =>
    rw [htick]
    exact ⟨tickBoostBackstop_ticks b, rfl⟩
  | rejected hr htick =>
    rw [htick]
    have hticks := tickBoostBackstop_ticks { b with rejectCnt := b.rejectCnt + 1 }
    exact ⟨⟨hticks.keeps, hticks.advanced, hticks.entered⟩, rfl⟩
  | @applied innov _ _ hr hi hb hb' =>
    subst hb' hb
    have hticks := boost_ticks { b with rejectCnt := 0 } z innov (b.acceptedDisturbance z)
    exact ⟨⟨hticks.keeps, hticks.advanced, hticks.entered⟩, rfl⟩

theorem step_ticks (b : AlphaBetaBoost) (x : ControlInput) :
    Ticks b (b.step x).2 ∧ (b.step x).1.dbg.state = (b.step x).2.boosting.toNat := by
  obtain ⟨o, b', hstep, heq⟩ := BoostStep.exists b x
  rw [heq]
  exact hstep.ticks

theorem Timed.step (h : Timed cfg b) (hmax : 1 ≤ cfg.boostMaxEdges) (x : ControlInput) :
    Timed cfg (b.step x).2 := by
  obtain ⟨hticks, -⟩ := step_ticks b x
  refine ⟨hticks.keeps.trans h.keeps, ?_⟩
  intro hon
  cases hb : b.boosting with
  | true =>
    rw [← h.keeps]
    exact (hticks.advanced hb hon).2
  | false =>
    rw [hticks.entered hb hon]
    exact hmax

theorem Reachable.timed (h : Reachable cfg b) (hmax : 1 ≤ cfg.boostMaxEdges) : Timed cfg b := by
  induction h with
  | withConfig =>
    constructor
    · rfl
    · intro hon
      cases hon
  | step x h ih => exact ih.step hmax x
  | startSegment init h ih =>
    constructor
    · exact ih.keeps
    · intro hon
      cases hon

/-- The edges that are left are all that a run of boosted outputs can have. -/
theorem Timed.length_le (h : Timed cfg b) (hmax : 1 ≤ cfg.boostMaxEdges)
    (hword : cfg.boostMaxEdges < 4294967296) (xs : List ControlInput)
    (hboost : ∀ o ∈ outputs AlphaBetaBoost.step b xs, o.dbg.state = 1) :
    xs.length + (if b.boosting then b.boostEdges + 1 else 0) ≤ cfg.boostMaxEdges := by
  induction xs generalizing b with
  | nil =>
    rw [List.length_nil, Nat.zero_add]
    split
    · rename_i hon
      exact h.left hon
    · exact Nat.zero_le _
  | cons x xs ih =>
    obtain ⟨hticks, hstate⟩ := step_ticks b x
    have hnext := h.step hmax x
    have hfirst := hboost _ (List.mem_cons_self ..)
    have hrest := ih hnext fun o ho => hboost o (List.mem_cons_of_mem _ ho)
    have hon : (b.step x).2.boosting = true := by
      rw [hstate] at hfirst
      exact Bool.toNat_eq_one.1 hfirst
    rw [if_pos hon] at hrest
    rw [List.length_cons]
    cases hb : b.boosting with
    | true =>
      have hedges := h.left hb
      have hcount := (hticks.advanced hb hon).1
      rw [if_pos rfl]
      omega
    | false =>
      have hzero := hticks.entered hb hon
      rw [if_neg Bool.false_ne_true]
      omega

end AlphaBetaBoost

/-- Whatever the edges, no more outputs in a row are boosted than the backstop allows. -/
theorem boost_cannot_latch {cfg : AlphaBetaBoostConfig} (hmax : 1 ≤ cfg.boostMaxEdges)
    (hword : cfg.boostMaxEdges < 4294967296) (h : AlphaBetaBoost.Reachable cfg b)
    (before boosted : List ControlInput)
    (hboost : ∀ o ∈ outputs AlphaBetaBoost.step (final AlphaBetaBoost.step b before) boosted,
      o.dbg.state = 1) : boosted.length ≤ cfg.boostMaxEdges := by
  have htimed : AlphaBetaBoost.Timed cfg (final AlphaBetaBoost.step b before) :=
    final_preserves (fun b x hb => hb.step hmax x) (h.timed hmax) before
  exact Nat.le_trans (Nat.le_add_right _ _) (htimed.length_le hmax hword boosted hboost)

/-- One far edge starts a boost, and two lost ones follow. -/
theorem boost_cannot_latch_default : ([⟨5000, true⟩, ⟨0, false⟩, ⟨0, false⟩] :
    List ControlInput).length ≤ AlphaBetaBoostConfig.default.boostMaxEdges :=
  have hfresh : AlphaBetaBoost.Reachable .default (.withConfig .default) := .withConfig
  boost_cannot_latch (by decide) (by decide) hfresh [] _ (by decide)

end PicoGnss
