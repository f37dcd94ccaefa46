import PicoGnss.Gnssdo.PhaseServo
import PicoGnss.Gnssdo.Range
import PicoGnss.RpPps.Output

/-! The period words that the firmware's loop and its crystal estimate make together. -/

namespace PicoGnss
open FixedWidth Pio
set_option autoImplicit true

/-- Whatever the temperature says, it steers the output by the bound at most. -/
theorem DisciplinedClock.Reachable.steering (h : Reachable c) :
    c.steeringFreqMppb.natAbs ≤ 1000254000 := by
  obtain ⟨d, hblind, hbounds⟩ := h.disciplined
  have hlevel : c.blind.freqMppb = d.blind.freqMppb := by rw [hblind]
  have hbound : c.blind.config.steerFfBoundMppb = d.blind.config.steerFfBoundMppb := by rw [hblind]
  change c.freqMppb = d.freqMppb at hlevel
  change c.config.steerFfBoundMppb = d.config.steerFfBoundMppb at hbound
  have hdefault : d.config.steerFfBoundMppb = 100000 := by
    rw [hbounds.config]
    rfl
  have hd := hbounds.level
  have hclamp := natAbs_clamp_le (c.predictedFreqMppb - c.freqMppb)
    (by decide : (0 : Int) ≤ 100000)
  rw [steeringFreqMppb, hbound, hdefault]
  omega

/-- The next period with every operation of a word trapping, and the cast with it. -/
def OutputPeriodDither.nextPeriodChecked (d : OutputPeriodDither) (clkHz : UInt32)
    (freqMppb phaseCorrNs : Int) (highCycles : UInt32) :
    Option (UInt32 × OutputPeriodDither) := do
  let clk : Int := clkHz.toNat
  let product ← checked (clk * freqMppb)
  let acc ← checked (d.fracAcc + product)
  let low ← checked (clk - outputOverheadCycles - highCycles.toNat)
  let steered ← checked (low + acc / 1000000000000)
  let phase ← checked (phaseCorrNs * clk)
  let period ← checked (steered - phase.tdiv 1000000000)
  if 0 ≤ period ∧ period < 4294967296 then some (.ofInt period, ⟨acc % 1000000000000⟩) else none

/-- A request that leaves most of the low time alone. -/
structure Modest (d : OutputPeriodDither) (x : Int × Int) : Prop where
  fracAcc : 0 ≤ d.fracAcc ∧ d.fracAcc < 1000000000000
  freq : x.1.natAbs ≤ 1003254000
  phase : x.2.natAbs ≤ 3333334

/-- Nothing traps on such a request, and the period stays near its nominal length. -/
theorem Modest.nextPeriod (h : Modest d x) :
    d.nextPeriodChecked 125000000 x.1 x.2 112500000 =
        some (d.nextPeriod 125000000 x.1 x.2 112500000) ∧
      (((d.nextPeriod 125000000 x.1 x.2 112500000).1.toNat : Int) - 12499993).natAbs ≤ 600000 := by
  obtain ⟨freq, phase⟩ := x
  obtain ⟨⟨hlo, hhi⟩, hfreq, hphase⟩ := h
  simp only at hfreq hphase
  have hclk : ((125000000 : UInt32).toNat : Int) = 125000000 := rfl
  have hhigh : ((112500000 : UInt32).toNat : Int) = 112500000 := rfl
  have hproduct : InI64 (125000000 * freq) := by
    unfold InI64
    omega
  have hacc : InI64 (d.fracAcc + 125000000 * freq) := by
    unfold InI64
    omega
  have hphi : InI64 (phase * 125000000) := by
    unfold InI64
    omega
  have hscaled : (phase * 125000000).natAbs ≤ 416666750000000 := by omega
  have hcycles := natAbs_tdiv_le hscaled (by decide : 0 < 1000000000) (Int.le_refl 1000000000)
  have hword : d.nextPeriod 125000000 freq phase 112500000 =
      (.ofInt (12499993 + (d.fracAcc + 125000000 * freq) / 1000000000000 -
        (phase * 125000000).tdiv 1000000000),
        ⟨(d.fracAcc + 125000000 * freq) % 1000000000000⟩) := by
    simp only [OutputPeriodDither.nextPeriod, hclk, hhigh, wrap64_of_inI64 hproduct,
      wrap64_of_inI64 hacc, wrap64_of_inI64 hphi]
    rfl
  have hlow : (125000000 : Int) - outputOverheadCycles - 112500000 = 12499993 := rfl
  generalize hq : (phase * 125000000).tdiv 1000000000 = q at hcycles hword
  constructor
  · simp only [hword, OutputPeriodDither.nextPeriodChecked, hclk, hhigh, hlow]
    rw [checked_bind hproduct, checked_bind hacc, checked_bind (by decide),
      checked_bind_of_natAbs_lt (by omega), checked_bind hphi, hq,
      checked_bind_of_natAbs_lt (by omega), if_pos (by omega)]
  · rw [hword, UInt32.ofInt, UInt32.toNat_ofNat']
    omega

/-- An output edge: the phase that the loopback measured, and the clock as it was read. -/
structure OutputEdge where
  input : ControlInput
  clock : DisciplinedClock
  reachable : clock.Reachable
  /-- The pairing gate lets no larger error pass as valid. -/
  paired : input.valid = true → input.errNs.natAbs ≤ 10000000

/-- The firmware's generator between two output edges. -/
structure OutputLoop where
  controller : PhaseLockLoop
  dither : OutputPeriodDither

namespace OutputLoop

def new : OutputLoop where
  controller := .withConfig .production
  dither := .new

/-- The total offset and the phase correction that an edge asks for. -/
def request (s : OutputLoop) (x : OutputEdge) : Int × Int :=
  let u := (s.controller.step x.input).1
  (wrap64 (x.clock.steeringFreqMppb + u.trimMppb), u.pcorrNs)

def edge (s : OutputLoop) (x : OutputEdge) : UInt32 × OutputLoop :=
  let w := s.dither.call 125000000 112500000 (s.request x)
  (w.1, ⟨(s.controller.step x.input).2, w.2⟩)

/-- The fixpoint of the feedback of the firmware's gains. -/
structure Bounded (s : OutputLoop) : Prop where
  config : s.controller.config = .production
  trim : s.controller.trimMppb.natAbs ≤ 3000000
  lockCnt : s.controller.lockCnt ≤ 5
  servo : s.controller.servo.Within 3333334 13333334
  fracAcc : 0 ≤ s.dither.fracAcc ∧ s.dither.fracAcc < 1000000000000

theorem bounded_new : Bounded new where
  config := rfl
  trim := by decide
  lockCnt := Nat.zero_le 5
  servo := ⟨by decide, by decide⟩
  fracAcc := ⟨Int.le_refl 0, by decide⟩

/-- What the controller asks for on an edge is within what its feedback can sustain. -/
theorem Bounded.step (h : Bounded s) (x : OutputEdge) : Bounded (s.edge x).2 ∧
    (s.controller.step x.input).1.trimMppb.natAbs ≤ 3000000 ∧
    (s.controller.step x.input).1.pcorrNs.natAbs ≤ 3333334 := by
  obtain ⟨⟨err, valid⟩, clock, hreachable, hpaired⟩ := x
  obtain ⟨u, l', hstep, hupdate⟩ := PhaseLockLoop.LoopStep.exists s.controller err valid
  have hc := PhaseLockLoopConfig.realizes_production
  rw [← h.config] at hc
  have hfits : s.controller.servo.Fits := ⟨h.lockCnt, Nat.le_trans h.servo.inFlight (by decide),
    Nat.le_trans h.servo.lastPred (by decide)⟩
  have hservo := hstep.servo hc hfits fun hv => Nat.le_trans (hpaired hv) (by decide)
  obtain ⟨hcorr, hwithin⟩ := h.servo.step hservo hpaired (by decide : 0 < 16) (Int.le_refl 16)
    (by decide) (by decide)
  have hmax : s.controller.config.trimMaxMppb = 3000000 := by
    rw [h.config]
    rfl
  obtain ⟨htrim, htrim'⟩ := hstep.trim (by rw [hmax]; exact Int.ofNat_le.2 h.trim)
  rw [hmax] at htrim htrim'
  have hlock := hservo.lockCnt_le h.lockCnt
  have hcontroller := PhaseLockLoop.step_eq hupdate
  simp only [edge, hcontroller]
  refine ⟨⟨hstep.config.trans h.config, Int.ofNat_le.1 htrim', hlock, hwithin, ?_⟩,
    Int.ofNat_le.1 htrim, hcorr⟩
  exact ⟨Int.emod_nonneg _ (by decide), Int.emod_lt_of_pos _ (by decide)⟩

theorem Bounded.modest (h : Bounded s) (x : OutputEdge) :
    InI64 (x.clock.steeringFreqMppb + (s.controller.step x.input).1.trimMppb) ∧
      Modest s.dither (s.request x) := by
  obtain ⟨-, htrim, hcorr⟩ := h.step x
  have hsteering := x.reachable.steering
  have hin : InI64 (x.clock.steeringFreqMppb + (s.controller.step x.input).1.trimMppb) := by
    unfold InI64
    omega
  refine ⟨hin, h.fracAcc, ?_, hcorr⟩
  rw [request, wrap64_of_inI64 hin]
  simp only
  omega

theorem bounded_final (xs : List OutputEdge) : Bounded (Mealy.final edge new xs) :=
  Mealy.final_preserves (P := Bounded) (fun _ x h => (h.step x).1) bounded_new xs

end OutputLoop

/-- No period word of the firmware wraps: nothing on the way to it overflows, and it stays within
600000 cycles of its nominal value. -/
theorem period_word_never_wraps (xs : List OutputEdge) (n : Nat) (x : OutputEdge)
    (hx : xs[n]? = some x) :
    let s := Mealy.final OutputLoop.edge .new (xs.take n)
    InI64 (x.clock.steeringFreqMppb + (s.controller.step x.input).1.trimMppb) ∧
      s.dither.nextPeriodChecked 125000000 (s.request x).1 (s.request x).2 112500000 =
        some (s.dither.nextPeriod 125000000 (s.request x).1 (s.request x).2 112500000) ∧
      ∃ word, (Mealy.outputs OutputLoop.edge .new xs)[n]? = some word ∧
        ((word.toNat : Int) - 12499993).natAbs ≤ 600000 := by
  intro s
  obtain ⟨hin, hmodest⟩ := (OutputLoop.bounded_final (xs.take n)).modest x
  obtain ⟨hchecked, hword⟩ := hmodest.nextPeriod
  refine ⟨hin, hchecked, _, ?_, hword⟩
  rw [Mealy.getElem?_outputs, hx]
  rfl

/-- A fresh clock, and a loop that is told of an error at the gate. -/
def gatedEdge : OutputEdge where
  input := ⟨-10000000, true⟩
  clock := .new
  reachable := ⟨[], rfl⟩
  paired _ := by decide

theorem gated_edge_never_wraps :
    ∃ word, (Mealy.outputs OutputLoop.edge .new [gatedEdge])[0]? = some word ∧
      ((word.toNat : Int) - 12499993).natAbs ≤ 600000 :=
  (period_word_never_wraps [gatedEdge] 0 gatedEdge rfl).2.2

/-- A period word that keeps the output within 4.8 ms of a second. -/
def NearSecond (word : UInt32) : Prop := ((word.toNat : Int) - 12499993).natAbs ≤ 600000

/-- Edges that follow one another in step. -/
theorem edges_of_nearSecond {words : List UInt32} (hwords : ∀ word ∈ words, NearSecond word)
    (pin : Nat → Bool) (s : State) (hn : n + 1 < words.length) :
    ∃ t t', IsEdge ppsOutputProgram pin (outputStart s 112500000 words) n t ∧
      IsEdge ppsOutputProgram pin (outputStart s 112500000 words) (n + 1) t' ∧
      ((t' : Int) - t - 125000000).natAbs ≤ 600000 := by
  have hget : words[n]? = some words[n] := List.getElem?_eq_getElem (Nat.lt_of_succ_lt hn)
  have hword := hwords _ (List.getElem_mem (Nat.lt_of_succ_lt hn))
  have hhigh : (112500000 : UInt32).toNat = 112500000 := rfl
  refine ⟨_, _, isEdge_output pin s _ (Nat.lt_of_succ_lt hn), isEdge_output pin s _ hn, ?_⟩
  rw [edgeOffset_take_succ _ hget, periodCycles, hhigh, outputOverheadCycles]
  unfold NearSecond at hword
  push_cast
  omega

theorem outputs_nearSecond (xs : List OutputEdge) :
    ∀ word ∈ Mealy.outputs OutputLoop.edge .new xs, NearSecond word := by
  intro word hword
  obtain ⟨n, hn⟩ := List.mem_iff_getElem?.1 hword
  rw [Mealy.getElem?_outputs, Option.map_eq_some_iff] at hn
  obtain ⟨x, -, rfl⟩ := hn
  exact ((OutputLoop.bounded_final (xs.take n)).modest x).2.nextPeriod.2

/-- So the state machine never stalls: its edges stay within 5 ms of a second apart. -/
theorem output_edges_in_step (pin : Nat → Bool) (s : State) (xs : List OutputEdge)
    (hn : n + 1 < xs.length) :
    let start := outputStart s 112500000 (Mealy.outputs OutputLoop.edge .new xs)
    ∃ t t', IsEdge ppsOutputProgram pin start n t ∧ IsEdge ppsOutputProgram pin start (n + 1) t' ∧
      ((t' : Int) - t - 125000000).natAbs ≤ 600000 := by
  have hlen : (Mealy.outputs OutputLoop.edge .new xs).length = xs.length := Mealy.length_outputs ..
  exact edges_of_nearSecond (outputs_nearSecond xs) pin s (hlen.symm ▸ hn)

end PicoGnss
