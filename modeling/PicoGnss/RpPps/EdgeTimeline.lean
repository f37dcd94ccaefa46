import Mathlib.Algebra.Order.Field.Rat
import Mathlib.Tactic.FieldSimp
import Mathlib.Tactic.Linarith
import PicoGnss.Lib.Mealy
import PicoGnss.RpPps.Timeline

/-! The capture timeline against the ticks of the counter, over any number of its turns. -/

namespace PicoGnss
set_option autoImplicit true

/-- What a counter that stood at `c` has come down to after `t` ticks. -/
def counterAt (c : UInt32) (t : Nat) : UInt32 := c - .ofNat t

/-- The ticks at which edges come, each less than one turn of the counter after the last. -/
structure TickTrain (n : Nat) (ticks : Nat → Nat) : Prop where
  later : ∀ i < n, ticks i < ticks (i + 1)
  turn : ∀ i < n, ticks (i + 1) < ticks i + 4294967296

/-- The raw values of the first `n + 1` edges. -/
def rawEdges (c : UInt32) (ticks : Nat → Nat) (n : Nat) : List UInt32 :=
  (List.range (n + 1)).map fun i => counterAt c (ticks i)

/-- The nanoseconds between edges `i` and `i + 1`, rounded down. -/
def gapNs (clkHz : Nat) (ticks : Nat → Nat) (i : Nat) : Nat :=
  2000000000 * (ticks (i + 1) - ticks i) / clkHz

def elapsedNs (clkHz : Nat) (ticks : Nat → Nat) : Nat → Nat
  | 0 => 0
  | i + 1 => elapsedNs clkHz ticks i + gapNs clkHz ticks i

theorem elapsedNs_mono (clkHz : Nat) (ticks : Nat → Nat) (h : i ≤ j) :
    elapsedNs clkHz ticks i ≤ elapsedNs clkHz ticks j := by
  induction h with
  | refl => exact Nat.le_refl _
  | step h ih => exact Nat.le_trans ih (Nat.le_add_right _ _)

theorem intervalTicks_counterAt (c : UInt32) (h : t ≤ t') (hturn : t' < t + 4294967296) :
    (intervalTicks (counterAt c t) (counterAt c t')).toNat = t' - t := by
  obtain ⟨d, rfl⟩ := Nat.exists_eq_add_of_le h
  have hsub : counterAt c t - counterAt c (t + d) = .ofNat d := by
    rw [counterAt, counterAt, UInt32.ofNat_add]
    generalize UInt32.ofNat t = x
    generalize UInt32.ofNat d = y
    grind
  rw [intervalTicks, hsub, UInt32.toNat_ofNat', Nat.mod_eq_of_lt (by omega)]
  omega

namespace TickTrain

variable {ticks : Nat → Nat}

theorem intervalNs (h : TickTrain n ticks) (clkHz : Nat) (c : UInt32) (hi : i < n) :
    PicoGnss.intervalNs (counterAt c (ticks i)) (counterAt c (ticks (i + 1))) clkHz =
      gapNs clkHz ticks i := by
  have hlater := h.later i hi
  have hturn := h.turn i hi
  have hwide : 2000000000 * (ticks (i + 1) - ticks i) / clkHz < 18446744073709551616 :=
    Nat.lt_of_le_of_lt (Nat.div_le_self _ _) (by omega)
  rw [PicoGnss.intervalNs, intervalTicks_counterAt c hlater.le hturn, captureCyclesPerTick, gapNs,
    Nat.mul_assoc, Nat.mul_comm, Nat.mod_eq_of_lt hwide]

theorem edge_at (c : UInt32) (ticks : Nat → Nat) (hi : i ≤ n) :
    (rawEdges c ticks n)[i]? = some (counterAt c (ticks i)) := by
  rw [rawEdges, List.getElem?_map, List.getElem?_range (Nat.lt_succ_of_le hi), Option.map_some]

/-- The state after edge `i`. -/
theorem final_take (h : TickTrain n ticks)
    (hfits : elapsedNs clkHz ticks n < 18446744073709551616) (c : UInt32) (hi : i ≤ n) :
    Mealy.final PpsEdgeTimeline.observe (.new clkHz) ((rawEdges c ticks n).take (i + 1)) =
      ⟨clkHz, some (counterAt c (ticks i)), elapsedNs clkHz ticks i⟩ := by
  induction i with
  | zero =>
    rw [Mealy.final_take_succ _ _ (edge_at c ticks hi)]
    rfl
  | succ i ih =>
    have hmono := Nat.lt_of_le_of_lt (elapsedNs_mono clkHz ticks hi) hfits
    rw [Mealy.final_take_succ _ _ (edge_at c ticks hi), ih (Nat.le_of_succ_le hi)]
    simp only [PpsEdgeTimeline.observe, h.intervalNs clkHz c hi]
    rw [elapsedNs] at hmono ⊢
    rw [Nat.mod_eq_of_lt hmono]

/-- What is reported of edge `i`. -/
theorem timed (h : TickTrain n ticks) (hfits : elapsedNs clkHz ticks n < 18446744073709551616)
    (c : UInt32) (hi : i ≤ n) :
    (Mealy.outputs PpsEdgeTimeline.observe (.new clkHz) (rawEdges c ticks n))[i]? =
      some ⟨counterAt c (ticks i), if i = 0 then 0 else gapNs clkHz ticks (i - 1),
        elapsedNs clkHz ticks i⟩ := by
  rw [Mealy.getElem?_outputs, edge_at c ticks hi, Option.map_some]
  cases i with
  | zero => rfl
  | succ i =>
    have hmono := Nat.lt_of_le_of_lt (elapsedNs_mono clkHz ticks hi) hfits
    rw [h.final_take hfits c (Nat.le_of_succ_le hi)]
    simp only [PpsEdgeTimeline.observe, h.intervalNs clkHz c hi]
    rw [elapsedNs] at hmono ⊢
    rw [Nat.mod_eq_of_lt hmono, if_neg (Nat.succ_ne_zero i), Nat.add_sub_cancel]

/-- The intervals add up to the timeline. -/
theorem sum_intervals (h : TickTrain n ticks)
    (hfits : elapsedNs clkHz ticks n < 18446744073709551616) (c : UInt32) (hi : i ≤ n) :
    (((Mealy.outputs PpsEdgeTimeline.observe (.new clkHz) (rawEdges c ticks n)).take
      (i + 1)).map TimedEdge.intervalNs).sum = elapsedNs clkHz ticks i := by
  induction i with
  | zero =>
    rw [List.take_add_one, h.timed hfits c hi]
    rfl
  | succ i ih =>
    rw [List.take_add_one, h.timed hfits c hi, Option.toList_some, List.map_append,
      List.sum_append, ih (Nat.le_of_succ_le hi)]
    rfl

/-- Each interval is rounded down by less than a nanosecond. -/
theorem elapsed_bounds (h : TickTrain n ticks) (hclk : 0 < clkHz) (hi : i ≤ n) :
    ticks 0 ≤ ticks i ∧ elapsedNs clkHz ticks i * clkHz ≤ 2000000000 * (ticks i - ticks 0) ∧
      2000000000 * (ticks i - ticks 0) ≤ (elapsedNs clkHz ticks i + i) * clkHz := by
  induction i with
  | zero =>
    rw [Nat.sub_self]
    exact ⟨Nat.le_refl _, Nat.le_of_eq (Nat.zero_mul _), Nat.zero_le _⟩
  | succ i ih =>
    obtain ⟨hstart, hlow, hhigh⟩ := ih (Nat.le_of_succ_le hi)
    have hlater := h.later i hi
    have hsplit := Nat.div_add_mod (2000000000 * (ticks (i + 1) - ticks i)) clkHz
    have hrem := Nat.mod_lt (2000000000 * (ticks (i + 1) - ticks i)) hclk
    have hgap : gapNs clkHz ticks i * clkHz =
        clkHz * (2000000000 * (ticks (i + 1) - ticks i) / clkHz) := Nat.mul_comm _ _
    rw [elapsedNs]
    refine ⟨Nat.le_trans hstart hlater.le, ?_, ?_⟩
    · rw [Nat.add_mul]
      omega
    · rw [Nat.add_mul] at hhigh
      rw [Nat.add_mul, Nat.add_mul, Nat.succ_mul i clkHz]
      omega

theorem elapsed_exact (h : TickTrain n ticks) (hdvd : clkHz ∣ 2000000000) (hi : i ≤ n) :
    elapsedNs clkHz ticks i * clkHz = 2000000000 * (ticks i - ticks 0) := by
  induction i with
  | zero =>
    rw [Nat.sub_self, elapsedNs, Nat.zero_mul]
  | succ i ih =>
    have hlater := h.later i hi
    have hstart := (h.elapsed_bounds (Nat.pos_of_dvd_of_pos hdvd (by decide))
      (Nat.le_of_succ_le hi)).1
    have hgap := Nat.div_mul_cancel (Dvd.dvd.mul_right hdvd (ticks (i + 1) - ticks i))
    rw [elapsedNs, Nat.add_mul, ih (Nat.le_of_succ_le hi), gapNs, hgap]
    omega

end TickTrain

/-- Over any number of turns, the timeline is the sum of the intervals and falls behind the counter
by the nanoseconds that the intervals are rounded down by. -/
theorem timeline_follows_counter (h : TickTrain n ticks) (hclk : 0 < clkHz)
    (hfits : elapsedNs clkHz ticks n < 18446744073709551616) (c : UInt32) (i : Nat) (hi : i ≤ n) :
    let edges := Mealy.outputs PpsEdgeTimeline.observe (.new clkHz) (rawEdges c ticks n)
    let exact : ℚ := 2 * 10 ^ 9 * ((ticks i : ℚ) - ticks 0) / clkHz
    ∃ e, edges[i]? = some e ∧
      (∀ j, i = j + 1 → e.intervalNs = 2 * 10 ^ 9 * (ticks i - ticks j) / clkHz) ∧
      e.edgeNs = ((edges.take (i + 1)).map TimedEdge.intervalNs).sum ∧
      (e.edgeNs : ℚ) ≤ exact ∧ exact ≤ e.edgeNs + i ∧
      (clkHz ∣ 2 * 10 ^ 9 → (e.edgeNs : ℚ) = exact) := by
  intro edges exact
  have hpos : (0 : ℚ) < clkHz := Nat.cast_pos.2 hclk
  obtain ⟨hstart, hlow, hhigh⟩ := h.elapsed_bounds hclk hi
  have hexact : exact * clkHz = 2000000000 * ((ticks i - ticks 0 : Nat) : ℚ) := by
    rw [div_mul_cancel₀ _ hpos.ne', Nat.cast_sub hstart]
    norm_num
  refine ⟨_, h.timed hfits c hi, ?_, (h.sum_intervals hfits c hi).symm, ?_, ?_, ?_⟩
  · rintro j rfl
    rfl
  · apply le_of_mul_le_mul_right _ hpos
    rw [hexact]
    exact_mod_cast hlow
  · apply le_of_mul_le_mul_right _ hpos
    rw [hexact]
    exact_mod_cast hhigh
  · intro hdvd
    apply mul_right_cancel₀ hpos.ne'
    rw [hexact]
    exact_mod_cast h.elapsed_exact hdvd hi

/-- Three edges a second apart at 125 MHz, over a turn of the counter. -/
theorem timeline_follows_counter_turn :
    TickTrain 2 (fun i => 62500000 * i) ∧
    ∃ e, (Mealy.outputs PpsEdgeTimeline.observe (.new 125000000)
      (rawEdges 1000 (fun i => 62500000 * i) 2))[2]? = some e ∧ (e.edgeNs : ℚ) = 2 * 10 ^ 9 := by
  have htrain : TickTrain 2 (fun i => 62500000 * i) := by
    constructor <;> intro i _ <;> omega
  obtain ⟨e, he, -, -, -, -, hexact⟩ :=
    timeline_follows_counter htrain (by decide : 0 < 125000000) (by decide) 1000 2 (by decide)
  refine ⟨htrain, e, he, ?_⟩
  rw [hexact (by decide)]
  norm_num

end PicoGnss
