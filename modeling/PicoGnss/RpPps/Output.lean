import PicoGnss.Lib.FixedWidth
import PicoGnss.Lib.Mealy
import PicoGnss.Lib.Pio

/-! The steerable 1PPS output: the program, and the period words that it counts. -/

namespace PicoGnss
set_option autoImplicit true

open FixedWidth Pio

def outputOverheadCycles : Nat := 7

def ppsOutputProgram : Program where
  code := [
    .pull true,
    .mov .isr .osr,
    .setPindirs true,
    .pull false,
    .mov .y .osr,
    .mov .x .isr,
    .setPins true,
    .jmp (.dec .x) 7,
    .setPins false,
    .jmp (.dec .y) 9]
  wrapTarget := 3
  wrap := 9

/-- The carried fraction of a cycle, scaled by 1e12. -/
structure OutputPeriodDither where
  fracAcc : Int
deriving DecidableEq

namespace OutputPeriodDither

def new : OutputPeriodDither where
  fracAcc := 0

def nextPeriod (d : OutputPeriodDither) (clkHz : UInt32) (freqMppb phaseCorrNs : Int)
    (highCycles : UInt32) : UInt32 × OutputPeriodDither :=
  let clk : Int := clkHz.toNat
  let acc := wrap64 (d.fracAcc + wrap64 (clk * freqMppb))
  let freqCycles := acc / 1000000000000
  let period := clk - outputOverheadCycles - highCycles.toNat + freqCycles -
    (wrap64 (phaseCorrNs * clk)).tdiv 1000000000
  (.ofInt period, ⟨acc % 1000000000000⟩)

end OutputPeriodDither

/-- The state machine when it is enabled, with every word that will be pushed. -/
def outputStart (s : State) (highCycles : UInt32) (words : List UInt32) : State :=
  { s with pc := 0, pins := false, tx := highCycles :: words }

/-- The top of the loop that emits one period. -/
structure AtTop (highCycles : UInt32) (words : List UInt32) (s : State) : Prop where
  pc : s.pc = 3
  isr : s.isr = highCycles
  tx : s.tx = words
  pins : s.pins = false

def periodCycles (highCycles word : UInt32) : Nat :=
  outputOverheadCycles + highCycles.toNat + word.toNat

/-- The cycles from the first rising edge to the one that follows some periods. -/
def edgeOffset (highCycles : UInt32) (words : List UInt32) : Nat :=
  (words.map (periodCycles highCycles)).sum

variable {pin : Nat → Bool} {s : State}

theorem atTop_start (pin : Nat → Bool) (s : State) (highCycles : UInt32) (words : List UInt32) :
    AtTop highCycles words (run ppsOutputProgram pin (outputStart s highCycles words) 3) :=
  ⟨rfl, rfl, rfl, rfl⟩

theorem AtTop.run_four (pin : Nat → Bool) (h : AtTop highCycles (word :: rest) s) :
    run ppsOutputProgram pin s 4 = { s with
      pc := 7, x := highCycles, y := word, osr := word, tx := rest, pins := true } := by
  obtain ⟨pc, x, y, isr, osr, pins, pindirs, tx, rx⟩ := s
  obtain ⟨hpc, hisr, htx, hpins⟩ := h
  cases hpc
  cases hisr
  cases htx
  rfl

theorem AtTop.pins_start (pin : Nat → Bool) (h : AtTop highCycles (word :: rest) s) (hk : k < 4) :
    (run ppsOutputProgram pin s k).pins = false := by
  obtain ⟨pc, x, y, isr, osr, pins, pindirs, tx, rx⟩ := s
  obtain ⟨hpc, hisr, htx, hpins⟩ := h
  cases hpc
  cases htx
  cases hpins
  rcases k with _ | _ | _ | _ | k
  · rfl
  · rfl
  · rfl
  · rfl
  · omega

/-- The pins stay high for the stashed width, and then fall. -/
theorem AtTop.run_high (pin : Nat → Bool) (h : AtTop highCycles (word :: rest) s) :
    (∀ k, k ≤ highCycles.toNat + 1 → (run ppsOutputProgram pin s (4 + k)).pins = true) ∧
      run ppsOutputProgram pin s (4 + (highCycles.toNat + 1) + 1) = { s with
        pc := 9, x := 4294967295, y := word, osr := word, tx := rest, pins := false } := by
  have hcode : ppsOutputProgram.code[7]? = some (.jmp (.dec .x) 7) := rfl
  constructor
  · intro k hk
    rw [run_add, h.run_four]
    exact countdown_pins _ hcode rfl hk
  · rw [run, run_add, h.run_four, run_countdown_done _ hcode]
    · rfl
    · rfl
    · rfl

/-- One period takes the loop back to its top, with the pins high in the middle of it. -/
theorem AtTop.run_period (pin : Nat → Bool) (h : AtTop highCycles (word :: rest) s) :
    AtTop highCycles rest (run ppsOutputProgram pin s (periodCycles highCycles word)) ∧
      ∀ k, k ≤ periodCycles highCycles word →
        ((run ppsOutputProgram pin s k).pins = true ↔ 4 ≤ k ∧ k ≤ highCycles.toNat + 5) := by
  have hcode : ppsOutputProgram.code[9]? = some (.jmp (.dec .y) 9) := rfl
  have hperiod : periodCycles highCycles word =
      4 + (highCycles.toNat + 1) + 1 + (word.toNat + 1) := by
    rw [periodCycles, outputOverheadCycles]
    omega
  obtain ⟨hhigh, hfall⟩ := h.run_high pin
  rw [hperiod]
  constructor
  · rw [run_add, hfall, run_countdown_done _ hcode]
    · exact ⟨rfl, h.isr, rfl, rfl⟩
    · rfl
    · rfl
  · intro k hk
    rcases Nat.lt_or_ge k 4 with hlt | hge
    · rw [h.pins_start pin hlt]
      simp only [Bool.false_eq_true, false_iff]
      omega
    rcases Nat.lt_or_ge (highCycles.toNat + 5) k with hlow | hle
    · obtain ⟨j, rfl⟩ := Nat.exists_eq_add_of_le
        (show 4 + (highCycles.toNat + 1) + 1 ≤ k by omega)
      have hj : j ≤ word.toNat + 1 := by omega
      rw [run_add, hfall, countdown_pins _ hcode rfl hj]
      simp only [Bool.false_eq_true, false_iff]
      omega
    · obtain ⟨j, rfl⟩ := Nat.exists_eq_add_of_le hge
      rw [hhigh j (by omega)]
      simp only [true_iff]
      omega

theorem AtTop.rises_iff (pin : Nat → Bool) (h : AtTop highCycles (word :: rest) s)
    (hk : k < periodCycles highCycles word) :
    Rises ppsOutputProgram pin s k ↔ k = 3 := by
  obtain ⟨-, hpins⟩ := h.run_period pin
  rw [Rises, ← Bool.not_eq_true, hpins k (Nat.le_of_lt hk), hpins (k + 1) hk]
  omega

theorem AtTop.count_period (pin : Nat → Bool) (h : AtTop highCycles (word :: rest) s) :
    Nat.count (Rises ppsOutputProgram pin s) (periodCycles highCycles word) = 1 := by
  apply count_rises_eq_one fun k hk => h.rises_iff pin hk
  rw [periodCycles, outputOverheadCycles]
  omega

theorem AtTop.isEdge (pin : Nat → Bool) (h : AtTop highCycles (word :: rest) s) :
    IsEdge ppsOutputProgram pin s 0 3 := by
  have hlt : 3 < periodCycles highCycles word := by
    rw [periodCycles, outputOverheadCycles]
    omega
  refine ⟨(h.rises_iff pin hlt).2 rfl, Nat.count_of_forall_not fun k hk => ?_⟩
  rw [h.rises_iff pin (Nat.lt_trans hk hlt)]
  exact Nat.ne_of_lt hk

theorem edgeOffset_take_succ (highCycles : UInt32) {words : List UInt32}
    (h : words[n]? = some word) : edgeOffset highCycles (words.take (n + 1)) =
      edgeOffset highCycles (words.take n) + periodCycles highCycles word := by
  rw [edgeOffset, edgeOffset, List.take_add_one, h, Option.toList_some, List.map_append,
    List.sum_append, List.map_singleton, List.sum_singleton]

/-- After the first periods the loop is at its top, with one edge for each of them. -/
theorem AtTop.run_periods (pin : Nat → Bool) (h : AtTop highCycles words s)
    (hn : n ≤ words.length) :
    AtTop highCycles (words.drop n)
        (run ppsOutputProgram pin s (edgeOffset highCycles (words.take n))) ∧
      Nat.count (Rises ppsOutputProgram pin s) (edgeOffset highCycles (words.take n)) = n := by
  induction n with
  | zero => exact ⟨h, rfl⟩
  | succ n ih =>
    obtain ⟨htop, hcount⟩ := ih (Nat.le_of_succ_le hn)
    rw [List.drop_eq_getElem_cons hn] at htop
    rw [edgeOffset_take_succ highCycles (List.getElem?_eq_getElem hn), run_add, count_rises_add,
      hcount]
    exact ⟨(htop.run_period _).1, by rw [htop.count_period]⟩

/-- Edge `n` comes after the first `n` periods. -/
theorem isEdge_output (pin : Nat → Bool) (s : State) (highCycles : UInt32) {words : List UInt32}
    (hn : n < words.length) :
    IsEdge ppsOutputProgram pin (outputStart s highCycles words) n
      (3 + (edgeOffset highCycles (words.take n) + 3)) := by
  have hstart := atTop_start pin s highCycles words
  obtain ⟨htop, hcount⟩ := hstart.run_periods (fun t => pin (3 + t)) (Nat.le_of_lt hn)
  rw [List.drop_eq_getElem_cons hn] at htop
  have hedge := ((htop.isEdge _).shift).shift
  have hzero : Nat.count (Rises ppsOutputProgram pin (outputStart s highCycles words)) 3 = 0 := rfl
  rw [hcount, hzero, Nat.zero_add] at hedge
  exact hedge

/-- The generator fed with one total frequency offset and one phase correction an edge. -/
def OutputPeriodDither.call (clkHz highCycles : UInt32) (d : OutputPeriodDither)
    (x : Int × Int) : UInt32 × OutputPeriodDither :=
  d.nextPeriod clkHz x.1 x.2 highCycles

def periodWords (clkHz highCycles : UInt32) (xs : List (Int × Int)) : List UInt32 :=
  Mealy.outputs (OutputPeriodDither.call clkHz highCycles) .new xs

def ditherAfter (clkHz highCycles : UInt32) (xs : List (Int × Int)) : OutputPeriodDither :=
  Mealy.final (OutputPeriodDither.call clkHz highCycles) .new xs

/-- The total of `clk * freq`, at 1e12 to the cycle. -/
def freqTotal (clkHz : UInt32) (xs : List (Int × Int)) : Int :=
  clkHz.toNat * (xs.map Prod.fst).sum

/-- The cycles that edges should take: whole seconds, the total frequency offset rounded down once,
and each phase correction rounded towards zero. -/
def schedule (clkHz : UInt32) (xs : List (Int × Int)) : Int :=
  xs.length * clkHz.toNat + freqTotal clkHz xs / 1000000000000 -
    (xs.map fun x => (x.2 * (clkHz.toNat : Int)).tdiv 1000000000).sum

/-- Adding to the carried fraction stays in range. -/
def FreqFits (clkHz : UInt32) (xs : List (Int × Int)) : Prop :=
  ∀ n x, xs[n]? = some x →
    InI64 (freqTotal clkHz (xs.take n) % 1000000000000 + clkHz.toNat * x.1)

/-- Every period that is due fits its word. -/
def WordsFit (clkHz highCycles : UInt32) (xs : List (Int × Int)) : Prop :=
  ∀ n, n < xs.length →
    0 ≤ schedule clkHz (xs.take (n + 1)) - schedule clkHz (xs.take n) - outputOverheadCycles -
      highCycles.toNat ∧
    schedule clkHz (xs.take (n + 1)) - schedule clkHz (xs.take n) - outputOverheadCycles -
      highCycles.toNat < 4294967296

theorem freqTotal_take_succ (clkHz : UInt32) {xs : List (Int × Int)} (h : xs[n]? = some x) :
    freqTotal clkHz (xs.take (n + 1)) = freqTotal clkHz (xs.take n) + clkHz.toNat * x.1 := by
  rw [freqTotal, freqTotal, List.take_add_one, h, Option.toList_some, List.map_append,
    List.sum_append, List.map_singleton, List.sum_singleton, Int.mul_add]

theorem schedule_take_succ (clkHz : UInt32) {xs : List (Int × Int)} (h : xs[n]? = some x) :
    schedule clkHz (xs.take (n + 1)) = schedule clkHz (xs.take n) + clkHz.toNat +
      ((freqTotal clkHz (xs.take n) + clkHz.toNat * x.1) / 1000000000000 -
        freqTotal clkHz (xs.take n) / 1000000000000) -
      (x.2 * (clkHz.toNat : Int)).tdiv 1000000000 := by
  have hn : n < xs.length := (List.getElem?_eq_some_iff.1 h).1
  have hlen : (xs.take (n + 1)).length = (xs.take n).length + 1 := by
    rw [List.length_take, List.length_take]
    omega
  rw [schedule, schedule, freqTotal_take_succ clkHz h, hlen, List.take_add_one, h,
    Option.toList_some, List.map_append, List.sum_append, List.map_singleton, List.sum_singleton,
    Int.natCast_add, Int.natCast_one, Int.add_mul, Int.one_mul]
  omega

/-- A quotient in the reach of a period word comes from a product that does not overflow. -/
theorem inI64_of_tdiv (h : (x.tdiv 1000000000).natAbs ≤ 9000000000) : InI64 x := by
  rw [Int.natAbs_tdiv] at h
  change x.natAbs / 1000000000 ≤ 9000000000 at h
  unfold InI64
  omega

/-- The word is the period due, and the fraction left over is carried. -/
theorem nextPeriod_eq (clkHz highCycles : UInt32) {total : Int} {x : Int × Int}
    (hfreq : InI64 (total % 1000000000000 + clkHz.toNat * x.1))
    (hphase : InI64 (x.2 * clkHz.toNat)) :
    OutputPeriodDither.call clkHz highCycles ⟨total % 1000000000000⟩ x =
      (.ofInt (clkHz.toNat - outputOverheadCycles - highCycles.toNat +
        ((total + clkHz.toNat * x.1) / 1000000000000 - total / 1000000000000) -
        (x.2 * (clkHz.toNat : Int)).tdiv 1000000000),
       ⟨(total + clkHz.toNat * x.1) % 1000000000000⟩) := by
  have hacc : wrap64 (total % 1000000000000 + wrap64 (clkHz.toNat * x.1)) =
      total % 1000000000000 + clkHz.toNat * x.1 := by
    rw [wrap64_add_wrap64, wrap64_of_inI64 hfreq]
  have hdiv : (total % 1000000000000 + clkHz.toNat * x.1) / 1000000000000 =
      (total + clkHz.toNat * x.1) / 1000000000000 - total / 1000000000000 := by omega
  have hmod : (total % 1000000000000 + clkHz.toNat * x.1) % 1000000000000 =
      (total + clkHz.toNat * x.1) % 1000000000000 := by omega
  simp only [OutputPeriodDither.call, OutputPeriodDither.nextPeriod, hacc, hdiv, hmod,
    wrap64_of_inI64 hphase]

variable {clkHz highCycles : UInt32} {xs : List (Int × Int)}

/-- A period that fits its word leaves no room for the phase product to overflow. -/
theorem phase_fits {n : Nat} {x : Int × Int} (hx : xs[n]? = some x) (hfreq : FreqFits clkHz xs)
    (hword : WordsFit clkHz highCycles xs) : InI64 (x.2 * clkHz.toNat) := by
  have hn : n < xs.length := (List.getElem?_eq_some_iff.1 hx).1
  have hclk := clkHz.toNat_lt
  have hhigh := highCycles.toNat_lt
  have hfit := hfreq n x hx
  have hrange := hword n hn
  rw [schedule_take_succ clkHz hx, outputOverheadCycles] at hrange
  apply inI64_of_tdiv
  unfold InI64 at hfit
  generalize (x.2 * (clkHz.toNat : Int)).tdiv 1000000000 = phase at *
  generalize (clkHz.toNat : Int) * x.1 = freq at *
  generalize freqTotal clkHz (xs.take n) = total at *
  omega

theorem ditherAfter_eq (hfreq : FreqFits clkHz xs) (hword : WordsFit clkHz highCycles xs)
    (hn : n ≤ xs.length) : ditherAfter clkHz highCycles (xs.take n) =
      ⟨freqTotal clkHz (xs.take n) % 1000000000000⟩ := by
  induction n with
  | zero => rfl
  | succ n ih =>
    have hx : xs[n]? = some xs[n] := List.getElem?_eq_getElem hn
    rw [ditherAfter, Mealy.final_take_succ _ _ hx, ← ditherAfter, ih (Nat.le_of_succ_le hn),
      nextPeriod_eq clkHz highCycles (hfreq n _ hx) (phase_fits hx hfreq hword),
      freqTotal_take_succ clkHz hx]

/-- Word `n` and the overhead make up what the schedule leaves for period `n`. -/
theorem periodWords_getElem? (hfreq : FreqFits clkHz xs) (hword : WordsFit clkHz highCycles xs)
    (hn : n < xs.length) : ∃ word, (periodWords clkHz highCycles xs)[n]? = some word ∧
      (periodCycles highCycles word : Int) =
        schedule clkHz (xs.take (n + 1)) - schedule clkHz (xs.take n) := by
  have hx : xs[n]? = some xs[n] := List.getElem?_eq_getElem hn
  have hrange := hword n hn
  have hsched := schedule_take_succ clkHz hx
  refine ⟨.ofInt (schedule clkHz (xs.take (n + 1)) - schedule clkHz (xs.take n) -
    outputOverheadCycles - highCycles.toNat), ?_, ?_⟩
  · rw [periodWords, Mealy.getElem?_outputs, hx, Option.map_some, ← ditherAfter,
      ditherAfter_eq hfreq hword (Nat.le_of_lt hn),
      nextPeriod_eq clkHz highCycles (hfreq n _ hx) (phase_fits hx hfreq hword)]
    apply congrArg (fun period => some (UInt32.ofInt period))
    omega
  · rw [periodCycles, UInt32.ofInt, UInt32.toNat_ofNat']
    omega

theorem edgeOffset_periodWords (hfreq : FreqFits clkHz xs)
    (hword : WordsFit clkHz highCycles xs) (hn : n ≤ xs.length) :
    (edgeOffset highCycles ((periodWords clkHz highCycles xs).take n) : Int) =
      schedule clkHz (xs.take n) := by
  induction n with
  | zero => simp [edgeOffset, schedule, freqTotal]
  | succ n ih =>
    obtain ⟨word, hget, hperiod⟩ := periodWords_getElem? hfreq hword hn
    rw [edgeOffset_take_succ highCycles hget, Int.natCast_add, ih (Nat.le_of_succ_le hn), hperiod]
    omega

theorem fracAcc_mem (clkHz highCycles : UInt32) (xs : List (Int × Int)) :
    0 ≤ (ditherAfter clkHz highCycles xs).fracAcc ∧
      (ditherAfter clkHz highCycles xs).fracAcc < 1000000000000 := by
  have hstep : ∀ (d : OutputPeriodDither) (x : Int × Int),
      (0 ≤ d.fracAcc ∧ d.fracAcc < 1000000000000) →
      0 ≤ (d.call clkHz highCycles x).2.fracAcc ∧
        (d.call clkHz highCycles x).2.fracAcc < 1000000000000 := by
    intro d x _
    exact ⟨Int.emod_nonneg _ (by decide), Int.emod_lt_of_pos _ (by decide)⟩
  exact Mealy.final_preserves hstep ⟨Int.le_refl 0, by decide⟩ xs

/-- The rising edges keep the schedule to the cycle, whatever the pulse width. -/
theorem output_edges_on_schedule (pin : Nat → Bool) (s : State) (clkHz highCycles : UInt32)
    (xs : List (Int × Int)) (hfreq : FreqFits clkHz xs) (hword : WordsFit clkHz highCycles xs) :
    let start := outputStart s highCycles (periodWords clkHz highCycles xs)
    (∀ n, n < xs.length → ∃ t, IsEdge ppsOutputProgram pin start n t) ∧
    (∀ n t t', n + 1 < xs.length → IsEdge ppsOutputProgram pin start n t →
      IsEdge ppsOutputProgram pin start (n + 1) t' →
        ∃ word, (periodWords clkHz highCycles xs)[n]? = some word ∧
          t' = t + (outputOverheadCycles + highCycles.toNat + word.toNat)) ∧
    (∀ n t₀ t, n < xs.length → IsEdge ppsOutputProgram pin start 0 t₀ →
      IsEdge ppsOutputProgram pin start n t →
        (t : Int) = t₀ + schedule clkHz (xs.take n)) ∧
    ∀ n, 0 ≤ (ditherAfter clkHz highCycles (xs.take n)).fracAcc ∧
      (ditherAfter clkHz highCycles (xs.take n)).fracAcc < 1000000000000 := by
  have hlen : (periodWords clkHz highCycles xs).length = xs.length := Mealy.length_outputs ..
  have hedge : ∀ n, n < xs.length → IsEdge ppsOutputProgram pin
      (outputStart s highCycles (periodWords clkHz highCycles xs)) n
      (3 + (edgeOffset highCycles ((periodWords clkHz highCycles xs).take n) + 3)) :=
    fun n hn => isEdge_output pin s highCycles (hlen ▸ hn)
  refine ⟨fun n hn => ⟨_, hedge n hn⟩, ?_, ?_, fun n => fracAcc_mem clkHz highCycles _⟩
  · intro n t t' hn ht ht'
    obtain ⟨word, hget, -⟩ := periodWords_getElem? hfreq hword (Nat.lt_of_succ_lt hn)
    refine ⟨word, hget, ?_⟩
    rw [ht.unique (hedge n (Nat.lt_of_succ_lt hn)), ht'.unique (hedge (n + 1) hn),
      edgeOffset_take_succ highCycles hget, periodCycles]
    omega
  · intro n t₀ t hn ht₀ ht
    have hoffset := edgeOffset_periodWords hfreq hword (Nat.le_of_lt hn)
    rw [ht.unique (hedge n hn), ht₀.unique (hedge 0 (Nat.zero_lt_of_lt hn)), ← hoffset]
    push_cast
    rw [List.take_zero]
    change _ = (3 + ((0 : Nat) + 3) : Int) + _
    omega

/-- Half a cycle fast each second, with one nudge of 100 ns and back. -/
def nudgedSteps : List (Int × Int) := [(4000, 0), (4000, 100), (4000, -100)]

theorem nudged_edges_on_schedule : ∃ t₀ t,
    IsEdge ppsOutputProgram (fun _ => false)
      (outputStart .reset 12500000 (periodWords 125000000 12500000 nudgedSteps)) 0 t₀ ∧
    IsEdge ppsOutputProgram (fun _ => false)
      (outputStart .reset 12500000 (periodWords 125000000 12500000 nudgedSteps)) 2 t ∧
    (t : Int) = t₀ + 249999989 := by
  have hfreq : FreqFits 125000000 nudgedSteps := by
    intro n x hx
    rcases n with _ | _ | _ | n
    · cases hx
      decide
    · cases hx
      decide
    · cases hx
      decide
    · cases hx
  have hword : WordsFit 125000000 12500000 nudgedSteps := by
    unfold WordsFit
    decide +kernel
  obtain ⟨hedges, -, hschedule, -⟩ :=
    output_edges_on_schedule (fun _ => false) .reset 125000000 12500000 nudgedSteps hfreq hword
  obtain ⟨t₀, ht₀⟩ := hedges 0 (by decide)
  obtain ⟨t, ht⟩ := hedges 2 (by decide)
  have hvalue : schedule 125000000 (nudgedSteps.take 2) = 249999989 := by decide +kernel
  rw [← hvalue]
  exact ⟨t₀, t, ht₀, ht, hschedule 2 t₀ t (by decide) ht₀ ht⟩

/-- Half a cycle carried, and then a product just below the limit. -/
def overflowingSteps : List (Int × Int) := [(4000, 0), (73786976294, 0), (0, 0)]

theorem overflowing_edge_off_schedule :
    (∀ x ∈ overflowingSteps, InI64 (125000000 * x.1)) ∧
    WordsFit 125000000 0 overflowingSteps ∧
    ∃ t₀ t,
      IsEdge ppsOutputProgram (fun _ => false)
        (outputStart .reset 0 (periodWords 125000000 0 overflowingSteps)) 0 t₀ ∧
      IsEdge ppsOutputProgram (fun _ => false)
        (outputStart .reset 0 (periodWords 125000000 0 overflowingSteps)) 2 t ∧
      (t : Int) = t₀ + 240776628 ∧
      schedule 125000000 (overflowingSteps.take 2) = 259223372 := by
  refine ⟨by decide, by unfold WordsFit; decide +kernel, 6, 240776634, ?_, ?_, by decide, by decide⟩
  · have hedge := isEdge_output (fun _ => false) .reset 0
      (show 0 < (periodWords 125000000 0 overflowingSteps).length by decide +kernel)
    exact hedge
  · have hedge := isEdge_output (fun _ => false) .reset 0
      (show 2 < (periodWords 125000000 0 overflowingSteps).length by decide +kernel)
    have hoffset : edgeOffset 0 ((periodWords 125000000 0 overflowingSteps).take 2) =
        240776628 := by decide +kernel
    rw [hoffset] at hedge
    exact hedge

end PicoGnss
