import PicoGnss.Gnssdo.Tracker
import PicoGnss.Lib.Mealy
import PicoGnss.Lib.Rounding

/-! The tracker's count of the pulses that a jittery train has dropped. -/

namespace PicoGnss
set_option autoImplicit true

def PpsEvent.missed : PpsEvent → Nat
  | .irregular _ missed => missed
  | _ => 0

/-- The sum and the product in `record` fit their words. -/
def PpsTrackerConfig.NoOverflow (config : PpsTrackerConfig) (intervalUs : Nat) : Prop :=
  intervalUs + config.nominalUs.get / 2 < 18446744073709551616 ∧
    config.toleranceUs * ((intervalUs + config.nominalUs.get / 2) / config.nominalUs.get) <
      18446744073709551616

/-- Edge `i` of `n` comes `e i` after pulse `k i` of the second train. -/
structure JitteryTrain (config : PpsTrackerConfig) (J n : Nat) (k e : Nat → Int)
    (t : Nat → Nat) : Prop where
  edges : n < 4294967296
  margin : 4 * J < config.nominalUs.get
  tolerance : 2 * J ≤ config.toleranceUs
  jitter : ∀ i < n, (e i).natAbs ≤ J
  edge : ∀ i < n, (t i : Int) = k i * config.nominalUs.get + e i
  fits : ∀ i < n, t i < 18446744073709551616
  later : ∀ i, i + 1 < n → k i < k (i + 1)
  gap : ∀ i, i + 1 < n → k (i + 1) - k i ≤ 4294967296
  noOverflow : ∀ i, i + 1 < n → config.NoOverflow (t (i + 1) - t i)

/-- An interval is told by the multiple that it is off by at most twice the jitter. -/
theorem PpsTracker.classify_multiple (tracker : PpsTracker) (hback : prev ≤ nowUs) (hd : 1 ≤ d)
    (hlow : d * tracker.config.nominalUs.get ≤ nowUs - prev + 2 * J)
    (hhigh : nowUs - prev ≤ d * tracker.config.nominalUs.get + 2 * J)
    (hmargin : 4 * J < tracker.config.nominalUs.get)
    (htolerance : 2 * J ≤ tracker.config.toleranceUs)
    (hfits : tracker.config.NoOverflow (nowUs - prev)) (hgap : d ≤ 4294967296) :
    tracker.classify prev nowUs =
      if d = 1 then .locked (nowUs - prev) else .irregular (nowUs - prev) (d - 1) := by
  have hn := Rounding.nearest_multiple hlow hhigh (by omega)
  obtain ⟨hsum, hproduct⟩ := hfits
  rw [hn] at hproduct
  have hwide : 2 * J ≤ tracker.config.toleranceUs * d :=
    Nat.le_trans htolerance (Nat.le_mul_of_pos_right _ hd)
  simp only [classify]
  rw [if_neg (Nat.not_lt.2 hback), Nat.mod_eq_of_lt hsum, hn, if_pos hd, Nat.mod_eq_of_lt hproduct,
    if_pos, Nat.mod_eq_of_lt]
  · omega
  · split <;> omega

namespace JitteryTrain

/-- The interval between two edges is a multiple of the nominal one but for their jitter. -/
theorem interval (h : JitteryTrain config J n k e t) (hi : i + 1 < n) :
    ∃ d : Nat, 1 ≤ d ∧ d ≤ 4294967296 ∧ (d : Int) = k (i + 1) - k i ∧ t i ≤ t (i + 1) ∧
      d * config.nominalUs.get ≤ t (i + 1) - t i + 2 * J ∧
      t (i + 1) - t i ≤ d * config.nominalUs.get + 2 * J := by
  have hlater := h.later i hi
  have hgap := h.gap i hi
  obtain ⟨d, hd⟩ := Int.eq_ofNat_of_zero_le (a := k (i + 1) - k i) (by omega)
  have hproduct : ((d * config.nominalUs.get : Nat) : Int) =
      t (i + 1) - t i - (e (i + 1) - e i) := by
    rw [Int.natCast_mul, ← hd, Int.sub_mul, h.edge (i + 1) hi, h.edge i (Nat.lt_of_succ_lt hi)]
    ring
  have hfrom := h.jitter i (Nat.lt_of_succ_lt hi)
  have hto := h.jitter (i + 1) hi
  have hmargin := h.margin
  have hone : config.nominalUs.get ≤ d * config.nominalUs.get :=
    Nat.le_mul_of_pos_left _ (by omega)
  exact ⟨d, by omega, by omega, hd.symm, by omega, by omega, by omega⟩

theorem classify (h : JitteryTrain config J n k e t) (hi : i + 1 < n) (tracker : PpsTracker)
    (hconfig : tracker.config = config) : tracker.classify (t i) (t (i + 1)) =
      if k (i + 1) = k i + 1 then .locked (t (i + 1) - t i)
      else .irregular (t (i + 1) - t i) (k (i + 1) - k i - 1).toNat := by
  obtain ⟨d, hd, hgap, hk, hback, hlow, hhigh⟩ := h.interval hi
  subst hconfig
  rw [tracker.classify_multiple hback hd hlow hhigh h.margin h.tolerance (h.noOverflow i hi) hgap]
  have hone : d = 1 ↔ k (i + 1) = k i + 1 := by omega
  have hmissed : (k (i + 1) - k i - 1).toNat = d - 1 := by omega
  simp only [hone, hmissed]

theorem edge_at (t : Nat → Nat) (hi : i < n) : ((List.range n).map t)[i]? = some (t i) := by
  rw [List.getElem?_map, List.getElem?_range hi, Option.map_some]

/-- The tracker once it has recorded `i + 1` edges. -/
theorem final_take (h : JitteryTrain config J n k e t) (hi : i < n) :
    Mealy.final PpsTracker.record (.withConfig config) (((List.range n).map t).take (i + 1)) =
      ⟨config, some (t i), i + 1⟩ := by
  have hedges := h.edges
  induction i with
  | zero =>
    rw [Mealy.final_take_succ _ _ (edge_at t hi)]
    rfl
  | succ i ih =>
    rw [Mealy.final_take_succ _ _ (edge_at t hi), ih (Nat.lt_of_succ_lt hi)]
    simp only [PpsTracker.record, PpsTracker.mk.injEq, true_and]
    exact Nat.mod_eq_of_lt (by omega)

/-- The events of the first `i + 1` edges, one at a time. -/
theorem outputs_take (h : JitteryTrain config J n k e t) (hi : i + 1 < n) :
    Mealy.outputs PpsTracker.record (.withConfig config) (((List.range n).map t).take (i + 2)) =
      Mealy.outputs PpsTracker.record (.withConfig config) (((List.range n).map t).take (i + 1)) ++
        [if k (i + 1) = k i + 1 then .locked (t (i + 1) - t i)
          else .irregular (t (i + 1) - t i) (k (i + 1) - k i - 1).toNat] := by
  rw [List.take_add_one, edge_at t hi, Option.toList_some, Mealy.outputs_append,
    h.final_take (Nat.lt_of_succ_lt hi), Mealy.outputs_cons, Mealy.outputs_nil]
  exact congrArg (fun event => _ ++ [event]) (h.classify hi ⟨config, some (t i), i + 1⟩ rfl)

theorem missed_take (h : JitteryTrain config J n k e t) (hi : i < n) :
    ((i + 1 : Nat) : Int) + ((Mealy.outputs PpsTracker.record (.withConfig config)
      (((List.range n).map t).take (i + 1))).map PpsEvent.missed).sum = k i - k 0 + 1 := by
  induction i with
  | zero =>
    rw [List.take_add_one, edge_at t hi]
    simp [PpsTracker.record, PpsTracker.withConfig, PpsEvent.missed]
  | succ i ih =>
    have hbefore := ih (Nat.lt_of_succ_lt hi)
    have hlater := h.later i hi
    rw [h.outputs_take hi, List.map_append, List.sum_append, List.map_singleton,
      List.sum_singleton]
    split
    · simp only [PpsEvent.missed]
      omega
    · simp only [PpsEvent.missed]
      omega

end JitteryTrain

/-- Each edge but the first tells the pulses dropped before it, and none is lost count of. -/
theorem missed_pulses_exact (h : JitteryTrain config J n k e t) :
    (∀ i, i + 1 < n →
      (Mealy.outputs PpsTracker.record (.withConfig config) ((List.range n).map t))[i + 1]? =
        some (if k (i + 1) = k i + 1 then .locked (t (i + 1) - t i)
          else .irregular (t (i + 1) - t i) (k (i + 1) - k i - 1).toNat)) ∧
    ∀ i < n, ((Mealy.final PpsTracker.record (.withConfig config)
        (((List.range n).map t).take (i + 1))).count : Int) +
      ((Mealy.outputs PpsTracker.record (.withConfig config)
        (((List.range n).map t).take (i + 1))).map PpsEvent.missed).sum = k i - k 0 + 1 := by
  constructor
  · intro i hi
    rw [Mealy.getElem?_outputs, JitteryTrain.edge_at t hi, Option.map_some,
      h.final_take (Nat.lt_of_succ_lt hi)]
    exact congrArg some (h.classify hi ⟨config, some (t i), i + 1⟩ rfl)
  · intro i hi
    rw [h.final_take hi]
    exact h.missed_take hi

/-- Pulses 5, 6 and 9, the first and the last late and the other early. -/
theorem missed_pulses_exact_two :
    JitteryTrain .default 20000 3 (fun i => [5, 6, 9].getD i 0)
      (fun i => [20000, -20000, 15000].getD i 0)
      (fun i => [5020000, 5980000, 9015000].getD i 0) ∧
    (Mealy.outputs PpsTracker.record (.withConfig .default) [5020000, 5980000, 9015000])[2]? =
      some (.irregular 3035000 2) := by
  have htrain : JitteryTrain .default 20000 3 (fun i => [5, 6, 9].getD i 0)
      (fun i => [20000, -20000, 15000].getD i 0)
      (fun i => [5020000, 5980000, 9015000].getD i 0) := by
    have hcase : ∀ i, i + 1 < 3 → i = 0 ∨ i = 1 := by omega
    refine ⟨by decide, by decide, by decide, by decide, by decide, by decide, ?_, ?_, ?_⟩
    · intro i hi
      rcases hcase i hi with rfl | rfl <;> decide
    · intro i hi
      rcases hcase i hi with rfl | rfl <;> decide
    · intro i hi
      unfold PpsTrackerConfig.NoOverflow
      rcases hcase i hi with rfl | rfl <;> decide
  exact ⟨htrain, (missed_pulses_exact htrain).1 1 (by decide)⟩

end PicoGnss
