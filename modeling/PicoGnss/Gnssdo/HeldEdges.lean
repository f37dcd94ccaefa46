import PicoGnss.Gnssdo.Controllers
import PicoGnss.Lib.Noninterference

/-! Edges that a loop holds on, invalid or rejected: how many, and what they leave behind. -/

namespace PicoGnss
open FixedWidth Mealy Noninterference
set_option autoImplicit true

/-- An edge of a run, and whether it is kept when others are deleted. -/
structure MarkedEdge where
  input : ControlInput
  keep : Bool

/-- The outputs of the kept edges, in a run with all of them. -/
def keptOutputs (step : σ → ControlInput → ControlOutput × σ) (s : σ) (xs : List MarkedEdge) :
    List ControlOutput :=
  visibleOutputs (fun s (x : MarkedEdge) => step s x.input) MarkedEdge.keep s xs

def keptInputs (xs : List MarkedEdge) : List ControlInput :=
  (xs.filter MarkedEdge.keep).map MarkedEdge.input

/-- What holding an edge means for a loop and its outlier threshold and bound, in a run from `s`. -/
structure HoldsEdges (step : σ → ControlInput → ControlOutput × σ) (outlierNs : Int)
    (outlierMax : Nat) (s : σ) : Prop where
  /-- Between two applied edges, the valid ones are all rejected, and no more than the bound. -/
  bounded : ∀ before x between, (step (final step s before) x).1.applied = true →
    (∀ o ∈ outputs step (final step s (before ++ [x])) between, o.applied = false) →
    (outputs step (final step s (before ++ [x])) between).countP (·.rejected) =
        between.countP (·.valid) ∧
      between.countP (·.valid) ≤ outlierMax
  /-- An invalid edge neither resets nor extends what has been counted. -/
  invalid : ∀ before err, final step s (before ++ [⟨err, false⟩]) = final step s before
  /-- Deleting edges that were not applied changes no other, as long as the outliers that were
  applied found the loop unlocked. -/
  traceless : ∀ xs : List MarkedEdge,
    (∀ (i : Nat) (x : MarkedEdge) (o : ControlOutput), xs[i]? = some x →
      (outputs step s (xs.map MarkedEdge.input))[i]? = some o →
      (x.keep = false → o.applied = false) ∧
      (o.applied = true → outlierNs < x.input.errNs.natAbs → o.locked = false)) →
    keptOutputs step s xs = outputs step s (keptInputs xs)

/-- What one edge does to a loop that rejects outliers: it is applied and resets the count, or it is
rejected and counted, or it is invalid and nothing happens. -/
structure OutlierGate (step : σ → ControlInput → ControlOutput × σ) (rejectCnt : σ → Nat)
    (Reaches : σ → Prop) (outlierNs : Int) (outlierMax : Nat) (SameBut : σ → σ → Prop) : Prop where
  reaches : ∀ s x, Reaches s → Reaches (step s x).2
  applied : ∀ s x, Reaches s → (step s x).1.applied = true →
    (step s x).1.rejected = false ∧ rejectCnt (step s x).2 = 0
  rejected : ∀ s x, Reaches s → x.valid = true → (step s x).1.applied = false →
    (step s x).1.rejected = true ∧ rejectCnt (step s x).2 = rejectCnt s + 1 ∧
      rejectCnt s < outlierMax
  invalid : ∀ s err, Reaches s →
    (step s ⟨err, false⟩).1.rejected = false ∧ (step s ⟨err, false⟩).2 = s
  refl : ∀ s, SameBut s s
  kept : ∀ s s' x, Reaches s → SameBut s s' →
    ((step s x).1.applied = true → outlierNs < x.errNs.natAbs → (step s x).1.locked = false) →
    (step s x).1 = (step s' x).1 ∧ SameBut (step s x).2 (step s' x).2
  deleted : ∀ s s' x, Reaches s → SameBut s s' → (step s x).1.applied = false →
    SameBut (step s x).2 s'

namespace OutlierGate

variable {step : σ → ControlInput → ControlOutput × σ} {rejectCnt : σ → Nat}
  {Reaches : σ → Prop} {SameBut : σ → σ → Prop}

theorem count_between (h : OutlierGate step rejectCnt Reaches outlierNs outlierMax SameBut)
    {s : σ} (hs : Reaches s) (hcnt : rejectCnt s ≤ outlierMax) (between : List ControlInput)
    (hheld : ∀ o ∈ outputs step s between, o.applied = false) :
    (outputs step s between).countP (·.rejected) = between.countP (·.valid) ∧
      rejectCnt s + between.countP (·.valid) ≤ outlierMax := by
  induction between generalizing s with
  | nil => exact ⟨rfl, hcnt⟩
  | cons x between ih =>
    have hx := hheld _ (List.mem_cons_self ..)
    have hrest (o) (ho : o ∈ outputs step (step s x).2 between) : o.applied = false :=
      hheld o (List.mem_cons_of_mem _ ho)
    rw [outputs_cons, List.countP_cons, List.countP_cons]
    cases hv : x.valid with
    | true =>
      obtain ⟨hrejected, hnext, hlt⟩ := h.rejected s x hs hv hx
      obtain ⟨hcount, hbound⟩ := ih (h.reaches s x hs) (by omega) hrest
      rw [hcount, hrejected]
      simp only [↓reduceIte, true_and]
      omega
    | false =>
      obtain ⟨err, valid⟩ := x
      cases hv
      obtain ⟨hrejected, hnext⟩ := h.invalid s err hs
      rw [hnext] at hrest ⊢
      obtain ⟨hcount, hbound⟩ := ih hs hcnt hrest
      rw [hcount, hrejected]
      exact ⟨rfl, hbound⟩

theorem holdsEdges (h : OutlierGate step rejectCnt Reaches outlierNs outlierMax SameBut) {s : σ}
    (hs : Reaches s) : HoldsEdges step outlierNs outlierMax s where
  bounded := by
    intro before x between happlied hheld
    have hbefore : Reaches (final step s before) := final_preserves h.reaches hs before
    have hzero := (h.applied _ x hbefore happlied).2
    rw [final_concat] at hheld ⊢
    obtain ⟨hcount, hbound⟩ :=
      h.count_between (h.reaches _ x hbefore) (by rw [hzero]; exact Nat.zero_le _) between hheld
    exact ⟨hcount, Nat.le_trans (Nat.le_add_left _ _) hbound⟩
  invalid := by
    intro before err
    rw [final_concat]
    exact (h.invalid _ err (final_preserves h.reaches hs before)).2
  traceless := by
    intro xs hxs
    apply visibleOutputs_of_simulation (R := fun s s' => Reaches s ∧ SameBut s s')
      (A := fun s x => (x.keep = false → (step s x.input).1.applied = false) ∧
        ((step s x.input).1.applied = true → outlierNs < x.input.errNs.natAbs →
          (step s x.input).1.locked = false))
    · rintro s s' x ⟨hreach, hsame⟩ ⟨-, hlocked⟩ -
      obtain ⟨hout, hnext⟩ := h.kept s s' x.input hreach hsame hlocked
      exact ⟨hout, h.reaches s x.input hreach, hnext⟩
    · rintro s s' x ⟨hreach, hsame⟩ ⟨hheld, -⟩ hdeleted
      exact ⟨h.reaches s x.input hreach, h.deleted s s' x.input hreach hsame (hheld hdeleted)⟩
    · exact ⟨hs, h.refl s⟩
    · intro i x hx
      have hout := getElem?_outputs step s (xs.map MarkedEdge.input) i
      rw [List.getElem?_map, hx, Option.map_some, Option.map_some] at hout
      have hfinal (s : σ) (ys : List MarkedEdge) :
          final (fun s (x : MarkedEdge) => step s x.input) s ys =
            final step s (ys.map MarkedEdge.input) := by
        induction ys generalizing s with
        | nil => rfl
        | cons y ys ih => exact ih _
      rw [hfinal, List.map_take]
      exact hxs i x _ hx hout

end OutlierGate

/-- Only an outlier finds a locked loop rejecting, whatever it has counted. -/
theorem rejects_of_rejects {locked : Bool} {err outlierNs : Int} {m n outlierMax : Nat}
    (h : (locked && decide (outlierNs < abs64 err) && decide (n < outlierMax)) = true)
    (hm : m ≤ n) :
    (locked && decide (outlierNs < abs64 err) && decide (m < outlierMax)) = true := by
  simp only [Bool.and_eq_true, decide_eq_true_eq] at h ⊢
  exact ⟨h.1, Nat.lt_of_le_of_lt hm h.2⟩

theorem not_rejects_of_unlocked {locked : Bool} {err outlierNs : Int}
    (h : outlierNs < err.natAbs → locked = false) (m outlierMax : Nat) :
    (locked && decide (outlierNs < abs64 err) && decide (m < outlierMax)) = false := by
  by_cases hout : outlierNs < abs64 err
  · rw [h (Int.lt_of_lt_of_le hout (abs64_le err)), Bool.false_and, Bool.false_and]
  · rw [decide_eq_false hout, Bool.and_false, Bool.false_and]

namespace PhaseLockLoop

theorem outlierGate (config : PhaseLockLoopConfig) :
    OutlierGate PhaseLockLoop.step PhaseLockLoop.rejectCnt (·.config = config) config.outlierNs
      config.outlierMax fun l l' => ∃ n ≤ l.rejectCnt, l' = { l with rejectCnt := n } where
  reaches := by
    rintro l ⟨err, valid⟩ rfl
    obtain ⟨u, l', hstep, heq⟩ := LoopStep.exists l err valid
    rw [step_eq heq]
    exact hstep.config
  applied := by
    rintro l ⟨err, valid⟩ - happlied
    obtain ⟨u, l', hstep, heq⟩ := LoopStep.exists l err valid
    rw [step_eq heq] at happlied ⊢
    cases hstep with
    | held => cases happlied
    | rejected => cases happlied
    | applied => exact ⟨rfl, rfl⟩
  rejected := by
    rintro l ⟨err, valid⟩ rfl hvalid happlied
    obtain ⟨u, l', hstep, heq⟩ := LoopStep.exists l err valid
    rw [step_eq heq] at happlied ⊢
    cases hstep with
    | held => cases hvalid
    | rejected hr =>
      simp only [rejects, Bool.and_eq_true, decide_eq_true_eq] at hr
      exact ⟨rfl, rfl, hr.2⟩
    | applied => cases happlied
  invalid := fun _ _ _ => ⟨rfl, rfl⟩
  refl := fun l => ⟨l.rejectCnt, Nat.le_refl _, rfl⟩
  kept := by
    rintro l _ ⟨err, valid⟩ rfl ⟨n, hn, rfl⟩ hlocked
    cases valid with
    | false => exact ⟨rfl, n, hn, rfl⟩
    | true =>
      cases hr : l.rejects err with
      | true =>
        have hr' : PhaseLockLoop.rejects { l with rejectCnt := n } err = true :=
          rejects_of_rejects hr hn
        simp only [step, update, hr, hr', ↓reduceIte]
        exact ⟨rfl, n + 1, Nat.succ_le_succ hn, rfl⟩
      | false =>
        simp only [step, update, hr, Bool.false_eq_true, ↓reduceIte, forall_const] at hlocked
        have hr' : PhaseLockLoop.rejects { l with rejectCnt := n } err = false :=
          not_rejects_of_unlocked hlocked n _
        simp only [step, update, hr, hr', Bool.false_eq_true, ↓reduceIte]
        exact ⟨rfl, 0, Nat.le_refl 0, rfl⟩
  deleted := by
    rintro l _ ⟨err, valid⟩ - ⟨n, hn, rfl⟩ happlied
    obtain ⟨u, l', hstep, heq⟩ := LoopStep.exists l err valid
    rw [step_eq heq] at happlied ⊢
    cases hstep with
    | held => exact ⟨n, hn, rfl⟩
    | rejected => exact ⟨n, Nat.le_succ_of_le hn, rfl⟩
    | applied => cases happlied

end PhaseLockLoop

namespace IntegralRework

theorem outlierGate (cfg : IntegralReworkConfig) :
    OutlierGate IntegralRework.step IntegralRework.rejectCnt (·.cfg = cfg) cfg.outlierNs
      cfg.outlierMax fun r r' => ∃ n ≤ r.rejectCnt, r' = { r with rejectCnt := n } where
  reaches := by
    rintro r x rfl
    obtain ⟨o, r', hstep, heq⟩ := ReworkStep.exists r x
    rw [heq]
    exact hstep.cfg
  applied := by
    rintro r ⟨err, valid⟩ - happlied
    obtain ⟨o, r', hstep, heq⟩ := ReworkStep.exists r ⟨err, valid⟩
    rw [heq] at happlied ⊢
    cases hstep with
    | held => cases happlied
    | rejected => cases happlied
    | applied => exact ⟨rfl, rfl⟩
  rejected := by
    rintro r ⟨err, valid⟩ rfl hvalid happlied
    obtain ⟨o, r', hstep, heq⟩ := ReworkStep.exists r ⟨err, valid⟩
    rw [heq] at happlied ⊢
    cases hstep with
    | held => cases hvalid
    | rejected hr =>
      simp only [rejects, Bool.and_eq_true, decide_eq_true_eq] at hr
      exact ⟨rfl, rfl, hr.2⟩
    | applied => cases happlied
  invalid := fun _ _ _ => ⟨rfl, rfl⟩
  refl := fun r => ⟨r.rejectCnt, Nat.le_refl _, rfl⟩
  kept := by
    rintro r _ ⟨err, valid⟩ rfl ⟨n, hn, rfl⟩ hlocked
    cases valid with
    | false => exact ⟨rfl, n, hn, rfl⟩
    | true =>
      cases hr : r.rejects err with
      | true =>
        have hr' : IntegralRework.rejects { r with rejectCnt := n } err = true :=
          rejects_of_rejects hr hn
        simp only [step, hr, hr', ↓reduceIte]
        exact ⟨rfl, n + 1, Nat.succ_le_succ hn, rfl⟩
      | false =>
        simp only [step, hr, Bool.false_eq_true, ↓reduceIte, forall_const] at hlocked
        have hr' : IntegralRework.rejects { r with rejectCnt := n } err = false :=
          not_rejects_of_unlocked hlocked n _
        simp only [step, hr, hr', Bool.false_eq_true, ↓reduceIte]
        exact ⟨rfl, 0, Nat.le_refl 0, rfl⟩
  deleted := by
    rintro r _ ⟨err, valid⟩ - ⟨n, hn, rfl⟩ happlied
    obtain ⟨o, r', hstep, heq⟩ := ReworkStep.exists r ⟨err, valid⟩
    rw [heq] at happlied ⊢
    cases hstep with
    | held => exact ⟨n, hn, rfl⟩
    | rejected => exact ⟨n, Nat.le_succ_of_le hn, rfl⟩
    | applied => cases happlied

end IntegralRework

/-- In any run of either loop, held edges are few between two applied ones, and deleting them
changes no output of the others. -/
theorem held_edges_leave_no_trace (l : PhaseLockLoop) (r : IntegralRework) :
    HoldsEdges PhaseLockLoop.step l.config.outlierNs l.config.outlierMax l ∧
      HoldsEdges IntegralRework.step r.cfg.outlierNs r.cfg.outlierMax r :=
  ⟨(PhaseLockLoop.outlierGate l.config).holdsEdges rfl,
    (IntegralRework.outlierGate r.cfg).holdsEdges rfl⟩

end PicoGnss
