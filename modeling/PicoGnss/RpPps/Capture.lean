import Mathlib.Tactic.IntervalCases
import PicoGnss.Lib.Pio
import PicoGnss.RpPps.Timeline

/-! The capture program, and what its down-counter leaves out. -/

namespace PicoGnss
set_option autoImplicit true

open Pio

def ppsCaptureProgram : Program where
  code := [
    .jmp .pin 3,
    .jmp (.dec .x) 0,
    .jmp .always 0,
    .inWord .x,
    .push,
    .jmp (.dec .x) 6,
    .jmp .pin 5]
  wrapTarget := 0
  wrap := 6

/-- A periodic input with one pulse a period. -/
structure PulseTrain where
  period : Nat
  high : Nat
  offset : Nat
  high_ge : 16 ≤ high
  low_ge : high + 16 ≤ period

def PulseTrain.level (w : PulseTrain) (t : Nat) : Bool :=
  decide ((t + w.offset) % w.period < w.high)

/-- The state machine when it is enabled, with any counter value. -/
def captureStart (s : State) (x : UInt32) : State := { s with pc := 0, x := x, rx := [] }

def captureAt (w : PulseTrain) (s : State) (x : UInt32) (t : Nat) : State :=
  run ppsCaptureProgram w.level (captureStart s x) t

/-- The sum of the intervals between consecutive captures, the newest first. -/
def tickSum : List UInt32 → Nat
  | curr :: prev :: rest => (intervalTicks prev curr).toNat + tickSum (prev :: rest)
  | _ => 0

/-- The error of the measured time does not grow with the number of captures. -/
def Unbiased (w : PulseTrain) (s : State) (x : UInt32) : Prop :=
  ∃ bound : Nat, ∀ t,
    (((captureAt w s x t).rx.length - 1 : Nat) * w.period -
      2 * tickSum (captureAt w s x t).rx : Int).natAbs ≤
    bound + wraps ppsCaptureProgram w.level (captureStart s x) t

/-- What one cycle of the program does. -/
inductive CaptureStep : Bool → State → State → Prop where
  | rising : s.pc = 0 → CaptureStep true s { s with pc := 3 }
  | low : s.pc = 0 → CaptureStep false s { s with pc := 1 }
  | lowTick : s.pc = 1 → s.x ≠ 0 → CaptureStep level s { s with x := s.x - 1, pc := 0 }
  | lowWrap : s.pc = 1 → s.x = 0 → CaptureStep level s { s with x := s.x - 1, pc := 2 }
  | lowGuard : s.pc = 2 → CaptureStep level s { s with pc := 0 }
  | latch : s.pc = 3 → CaptureStep level s { s with isr := s.x, pc := 4 }
  | emit : s.pc = 4 → CaptureStep level s { s with rx := s.isr :: s.rx, isr := 0, pc := 5 }
  | highTick : s.pc = 5 → CaptureStep level s { s with x := s.x - 1, pc := 6 }
  | high : s.pc = 6 → CaptureStep true s { s with pc := 5 }
  | falling : s.pc = 6 → CaptureStep false s { s with pc := 0 }

variable {s s' : State}

theorem captureStep (level : Bool) (h : s.pc ≤ 6) :
    CaptureStep level s (step ppsCaptureProgram level s) := by
  obtain ⟨pc, x, y, isr, osr, pins, pindirs, tx, rx⟩ := s
  rcases pc with _ | _ | _ | _ | _ | _ | _ | pc
  · cases level with
    | true => exact .rising rfl
    | false => exact .low rfl
  · by_cases hx : x = 0
    · cases hx
      exact .lowWrap rfl rfl
    · have hstep : step ppsCaptureProgram level ⟨1, x, y, isr, osr, pins, pindirs, tx, rx⟩ =
          ⟨0, x - 1, y, isr, osr, pins, pindirs, tx, rx⟩ := by
        simp [step, ppsCaptureProgram, exec, Cond.holds, Cond.decrement, State.get, State.set, hx]
      rw [hstep]
      exact .lowTick rfl hx
  · exact .lowGuard rfl
  · exact .latch rfl
  · exact .emit rfl
  · have hstep : step ppsCaptureProgram level ⟨5, x, y, isr, osr, pins, pindirs, tx, rx⟩ =
        ⟨6, x - 1, y, isr, osr, pins, pindirs, tx, rx⟩ := by
      simp [step, ppsCaptureProgram, exec, Cond.holds, Cond.decrement, State.get, State.set,
        Program.after]
    rw [hstep]
    exact .highTick rfl
  · cases level with
    | true => exact .high rfl
    | false => exact .falling rfl
  · exact absurd h (by simp)

/-- Every wrap of the counter is one of its decrements, and the captured intervals account for the
decrements up to the last capture, less any full turns of the counter. -/
structure Balance (decs wraps : Nat) (s : State) : Prop where
  wraps_le : wraps ≤ decs
  intervals : ∃ since turns, turns ≤ since ∧
    tickSum s.rx + wraps + since ≤ decs + s.rx.length + turns ∧
    ∀ last, s.rx.head? = some last →
      last.toNat + 4294967296 * turns = s.x.toNat + since

theorem Balance.same (h : Balance d w s) (hx : s'.x = s.x) (hrx : s'.rx = s.rx) :
    Balance d w s' := by
  obtain ⟨hle, hintervals⟩ := h
  refine ⟨hle, ?_⟩
  rw [hx, hrx]
  exact hintervals

/-- One decrement, with or without a wrap. -/
theorem Balance.tick (h : Balance d w s) (hx : s'.x = s.x - 1) (hrx : s'.rx = s.rx) :
    Balance (d + 1) (w + if s.x = 0 then 1 else 0) s' := by
  obtain ⟨hle, since, turns, hturns, hsum, hlast⟩ := h
  have hsub := toNat_sub_one s.x
  rw [← hx] at hsub
  by_cases h0 : s.x = 0
  · rw [if_pos h0] at hsub ⊢
    refine ⟨by omega, since + 1, turns + 1, by omega, by rw [hrx]; omega, ?_⟩
    intro last hl
    have hl := hlast last (hrx ▸ hl)
    omega
  · rw [if_neg h0] at hsub ⊢
    refine ⟨by omega, since + 1, turns, by omega, by rw [hrx]; omega, ?_⟩
    intro last hl
    have hl := hlast last (hrx ▸ hl)
    omega

/-- A capture settles the interval that it ends. -/
theorem Balance.emit (h : Balance d w s) (hx : s'.x = s.x) (hrx : s'.rx = s.x :: s.rx) :
    Balance d w s' := by
  obtain ⟨hle, since, turns, hturns, hsum, hlast⟩ := h
  refine ⟨hle, 0, 0, Nat.le_refl 0, ?_, ?_⟩
  · rw [hrx]
    cases hr : s.rx with
    | nil =>
      simp only [tickSum, List.length_cons, List.length_nil]
      omega
    | cons last rest =>
      rw [hr] at hsum hlast
      have hl := hlast last rfl
      have hlt := last.toNat_lt
      have hlt' := s.x.toNat_lt
      have hticks : (intervalTicks last s.x).toNat =
          (4294967296 - s.x.toNat + last.toNat) % 4294967296 := UInt32.toNat_sub ..
      simp only [tickSum, List.length_cons] at hsum ⊢
      omega
  · intro last hl
    rw [hrx] at hl
    cases hl
    rw [hx]

/-- The cycles at an address that its decrement is still to count, or has counted in advance. -/
def uncounted : Nat → Int
  | 1 => 1
  | 2 => -1
  | 3 => 1
  | 4 => 2
  | 6 => -1
  | _ => 0

/-- Every cycle is one of two for a decrement, one of three for a capture, or the guard of a
wrap. -/
structure Account (t decs wraps : Nat) (s : State) : Prop where
  pc : s.pc ≤ 6
  latched : s.pc = 4 → s.isr = s.x
  cycles : ∃ guards, guards ≤ wraps ∧
    (t : Int) = 2 * decs + 3 * s.rx.length + guards + uncounted s.pc
  balance : Balance decs wraps s

theorem decrements_capture (h : s.pc ≤ 6) :
    s.decrements ppsCaptureProgram = true ↔ s.pc = 1 ∨ s.pc = 5 := by
  obtain ⟨pc, x, y, isr, osr, pins, pindirs, tx, rx⟩ := s
  simp only at h
  interval_cases pc <;> simp [State.decrements, ppsCaptureProgram]

theorem wraps_capture (h : s.pc ≤ 6) :
    s.wraps ppsCaptureProgram = true ↔ (s.pc = 1 ∨ s.pc = 5) ∧ s.x = 0 := by
  obtain ⟨pc, x, y, isr, osr, pins, pindirs, tx, rx⟩ := s
  simp only at h
  interval_cases pc <;> simp [State.wraps, ppsCaptureProgram, State.get]

/-- A cycle that decrements nothing. -/
theorem Account.spend (h : Account t d w s) (hpc : s.pc ≠ 1 ∧ s.pc ≠ 5) (hpc' : s'.pc ≤ 6)
    (hlatched : s'.pc = 4 → s'.isr = s'.x) (hbalance : Balance d w s')
    (hcycles : 3 * (s'.rx.length : Int) + uncounted s'.pc =
      3 * s.rx.length + uncounted s.pc + 1) :
    Account (t + 1) (d + if s.decrements ppsCaptureProgram then 1 else 0)
      (w + if s.wraps ppsCaptureProgram then 1 else 0) s' := by
  have hd : ¬s.decrements ppsCaptureProgram = true := by
    rw [decrements_capture h.pc]
    omega
  have hw : ¬s.wraps ppsCaptureProgram = true := by
    rw [wraps_capture h.pc]
    exact fun hw => hd ((decrements_capture h.pc).2 hw.1)
  obtain ⟨guards, hguards, hc⟩ := h.cycles
  rw [if_neg hd, if_neg hw, Nat.add_zero, Nat.add_zero]
  exact ⟨hpc', hlatched, ⟨guards, hguards, by push_cast; omega⟩, hbalance⟩

theorem Account.still (h : Account t d w s) (hpc : s.pc ≠ 1 ∧ s.pc ≠ 5) (hx : s'.x = s.x)
    (hrx : s'.rx = s.rx) (hpc' : s'.pc ≤ 6) (hlatched : s'.pc = 4 → s'.isr = s'.x)
    (hcycles : uncounted s'.pc = uncounted s.pc + 1) :
    Account (t + 1) (d + if s.decrements ppsCaptureProgram then 1 else 0)
      (w + if s.wraps ppsCaptureProgram then 1 else 0) s' :=
  h.spend hpc hpc' hlatched (h.balance.same hx hrx) (by rw [hrx]; omega)

/-- A cycle that decrements the counter; in the low loop a wrap costs a guard. -/
theorem Account.tick (h : Account t d w s) (hpc : s.pc = 1 ∨ s.pc = 5) (hx : s'.x = s.x - 1)
    (hrx : s'.rx = s.rx) (hpc' : s'.pc ≤ 6) (h4 : s'.pc ≠ 4)
    (hcycles : ∃ guard : Nat, guard ≤ (if s.x = 0 then 1 else 0) ∧
      uncounted s'.pc + 2 + guard = uncounted s.pc + 1) :
    Account (t + 1) (d + if s.decrements ppsCaptureProgram then 1 else 0)
      (w + if s.wraps ppsCaptureProgram then 1 else 0) s' := by
  have hd : s.decrements ppsCaptureProgram = true := (decrements_capture h.pc).2 hpc
  have hw : s.wraps ppsCaptureProgram = true ↔ s.x = 0 := by
    rw [wraps_capture h.pc]
    exact and_iff_right hpc
  obtain ⟨guards, hguards, hc⟩ := h.cycles
  obtain ⟨guard, hguard, hg⟩ := hcycles
  have hbalance := h.balance.tick hx hrx
  simp only [hd, hw, ↓reduceIte]
  refine ⟨hpc', fun h' => absurd h' h4, ⟨guards + guard, by omega, ?_⟩, hbalance⟩
  rw [hrx]
  push_cast
  omega

theorem Account.step (h : Account t d w s) (hs : CaptureStep level s s') :
    Account (t + 1) (d + if s.decrements ppsCaptureProgram then 1 else 0)
      (w + if s.wraps ppsCaptureProgram then 1 else 0) s' := by
  cases hs with
  | rising h0 => exact h.still (by omega) rfl rfl (by simp) (by simp) (by rw [h0]; rfl)
  | low h0 => exact h.still (by omega) rfl rfl (by simp) (by simp) (by rw [h0]; rfl)
  | lowTick h1 hx =>
    exact h.tick (.inl h1) rfl rfl (by simp) (by simp) ⟨0, by omega, by rw [h1]; rfl⟩
  | lowWrap h1 hx =>
    exact h.tick (.inl h1) rfl rfl (by simp) (by simp) ⟨1, by rw [if_pos hx], by rw [h1]; rfl⟩
  | lowGuard h2 => exact h.still (by omega) rfl rfl (by simp) (by simp) (by rw [h2]; rfl)
  | latch h3 => exact h.still (by omega) rfl rfl (by simp) (by simp) (by rw [h3]; rfl)
  | emit h4 =>
    have hrx : s.isr :: s.rx = s.x :: s.rx := by rw [h.latched h4]
    refine h.spend (by omega) (by simp) (by simp) ?_ ?_
    · exact h.balance.emit rfl hrx
    · rw [h4, List.length_cons]
      simp only [uncounted]
      omega
  | highTick h5 =>
    exact h.tick (.inr h5) rfl rfl (by simp) (by simp) ⟨0, by omega, by rw [h5]; rfl⟩
  | high h6 => exact h.still (by omega) rfl rfl (by simp) (by simp) (by rw [h6]; rfl)
  | falling h6 => exact h.still (by omega) rfl rfl (by simp) (by simp) (by rw [h6]; rfl)

/-- Where the program can be at cycle `r` of period `q`, with `n` captures: it sees a pulse by the
pulse's fourth cycle, and waits for the next one by the fifth cycle after it. -/
def InPhase (w : PulseTrain) (n q r : Nat) : Nat → Prop
  | 0 => q ≤ n + w.offset / w.period ∨ q ≤ n + w.offset / w.period + 1 ∧ r ≤ 2
  | 1 => q ≤ n + w.offset / w.period ∨ q ≤ n + w.offset / w.period + 1 ∧ r ≤ 0
  | 2 => q ≤ n + w.offset / w.period ∨ q ≤ n + w.offset / w.period + 1 ∧ r ≤ 1
  | 3 => q ≤ n + w.offset / w.period + 1 ∧ r ≤ w.high
  | 4 => q ≤ n + w.offset / w.period + 1 ∧ r ≤ w.high + 1
  | 5 => q ≤ n + w.offset / w.period ∧ r ≤ w.high + 2
  | 6 => q ≤ n + w.offset / w.period ∧ r ≤ w.high + 3
  | _ => False

/-- The captures keep up with the pulses. -/
def KeepsUp (w : PulseTrain) (t : Nat) (s : State) : Prop :=
  ∃ q r, t + w.offset = w.period * q + r ∧ r < w.period ∧ InPhase w s.rx.length q r s.pc

/-- The position in the waveform one cycle on. -/
theorem PulseTrain.next (w : PulseTrain) (ht : t + w.offset = w.period * q + r)
    (hr : r < w.period) : ∃ q' r', t + 1 + w.offset = w.period * q' + r' ∧ r' < w.period ∧
      ((q' = q ∧ r' = r + 1) ∨ (q' = q + 1 ∧ r' = 0 ∧ r + 1 = w.period)) := by
  rcases Nat.lt_or_ge (r + 1) w.period with hlt | hge
  · exact ⟨q, r + 1, by omega, hlt, .inl ⟨rfl, rfl⟩⟩
  · exact ⟨q + 1, 0, by rw [Nat.mul_add]; omega, by omega, .inr ⟨rfl, rfl, by omega⟩⟩

theorem KeepsUp.step (h : KeepsUp w t s) (hs : CaptureStep (w.level t) s s') :
    KeepsUp w (t + 1) s' := by
  obtain ⟨q, r, ht, hr, hphase⟩ := h
  have hhigh := w.high_ge
  have hlow := w.low_ge
  have hlevel : w.level t = decide (r < w.high) := by
    rw [PulseTrain.level, ht, Nat.mul_add_mod, Nat.mod_eq_of_lt hr]
  obtain ⟨q', r', ht', hr', hnext⟩ := w.next ht hr
  refine ⟨q', r', ht', hr', ?_⟩
  rw [hlevel] at hs
  clear ht ht' hlevel
  generalize hl : decide (r < w.high) = level at hs
  cases hs with
  | rising hpc =>
    have hl := of_decide_eq_true hl
    rw [hpc] at hphase
    simp only [InPhase] at hphase ⊢
    omega
  | low hpc =>
    have hl := of_decide_eq_false hl
    rw [hpc] at hphase
    simp only [InPhase] at hphase ⊢
    omega
  | high hpc =>
    have hl := of_decide_eq_true hl
    rw [hpc] at hphase
    simp only [InPhase] at hphase ⊢
    omega
  | falling hpc =>
    have hl := of_decide_eq_false hl
    rw [hpc] at hphase
    simp only [InPhase] at hphase ⊢
    omega
  | lowTick hpc | lowWrap hpc | lowGuard hpc | latch hpc | emit hpc | highTick hpc =>
    rw [hpc] at hphase
    simp only [InPhase, List.length_cons] at hphase ⊢
    omega

/-- The account of a whole run. -/
theorem account_captureAt (w : PulseTrain) (s : State) (x : UInt32) (t : Nat) :
    Account t (decrements ppsCaptureProgram w.level (captureStart s x) t)
      (wraps ppsCaptureProgram w.level (captureStart s x) t) (captureAt w s x t) := by
  induction t with
  | zero =>
    refine ⟨Nat.zero_le 6, nofun, ⟨0, Nat.le_refl 0, rfl⟩, Nat.le_refl 0, 0, 0, Nat.le_refl 0,
      Nat.le_refl 0, nofun⟩
  | succ t ih =>
    have hstep := ih.step (captureStep (w.level t) ih.pc)
    rw [decrements, wraps, Nat.count_succ, Nat.count_succ]
    exact hstep

theorem keepsUp_captureAt (w : PulseTrain) (s : State) (x : UInt32) (t : Nat) :
    KeepsUp w t (captureAt w s x t) := by
  induction t with
  | zero =>
    have hperiod : 0 < w.period := Nat.lt_of_lt_of_le (by decide : 0 < 16)
      (Nat.le_trans (Nat.le_add_left 16 w.high) w.low_ge)
    refine ⟨w.offset / w.period, w.offset % w.period, ?_, Nat.mod_lt _ hperiod, .inl ?_⟩
    · rw [Nat.zero_add, Nat.div_add_mod]
    · exact Nat.le_add_left _ _
  | succ t ih => exact ih.step (captureStep (w.level t) (account_captureAt w s x t).pc)

/-- Every pulse but two is captured. -/
theorem captures_ge (w : PulseTrain) (s : State) (x : UInt32) (t : Nat) :
    (t + w.offset) / w.period ≤ (captureAt w s x t).rx.length + w.offset / w.period + 1 := by
  obtain ⟨q, r, ht, hr, hphase⟩ := keepsUp_captureAt w s x t
  have hq : (t + w.offset) / w.period = q := by
    rw [ht, Nat.mul_add_div (Nat.zero_lt_of_lt hr), Nat.div_eq_of_lt hr, Nat.add_zero]
  have hpc := (account_captureAt w s x t).pc
  rw [hq]
  generalize (captureAt w s x t).pc = pc at *
  interval_cases pc <;> simp only [InPhase] at hphase <;> omega

/-- The three cycles of each capture are in no interval. -/
theorem tickSum_le (w : PulseTrain) (s : State) (x : UInt32) (t : Nat) :
    2 * tickSum (captureAt w s x t).rx + wraps ppsCaptureProgram w.level (captureStart s x) t +
      (captureAt w s x t).rx.length ≤ t + 1 := by
  obtain ⟨hpc, -, ⟨guards, hguards, hcycles⟩, hle, since, turns, hturns, hsum, -⟩ :=
    account_captureAt w s x t
  have hun : -1 ≤ uncounted (captureAt w s x t).pc := by
    unfold uncounted
    split <;> decide
  omega

/-- The error outgrows any bound. -/
theorem exists_error_gt (w : PulseTrain) (s : State) (x : UInt32) (bound : Nat) :
    ∃ t, bound + wraps ppsCaptureProgram w.level (captureStart s x) t <
      (((captureAt w s x t).rx.length - 1 : Nat) * w.period -
        2 * tickSum (captureAt w s x t).rx : Int).natAbs := by
  have hperiod : 0 < w.period := by
    have hhigh := w.high_ge
    have hlow := w.low_ge
    omega
  let periods := bound + 2 * w.period + 3
  refine ⟨w.period * periods, ?_⟩
  have hcaptures := captures_ge w s x (w.period * periods)
  have hticks := tickSum_le w s x (w.period * periods)
  rw [Nat.mul_add_div hperiod] at hcaptures
  generalize (captureAt w s x (w.period * periods)).rx = rx at *
  generalize wraps ppsCaptureProgram w.level (captureStart s x) (w.period * periods) = turns at *
  have hmeasured : w.period * (periods - 2) ≤ w.period * (rx.length - 1) :=
    Nat.mul_le_mul_left _ (by omega)
  have hexpected : w.period * periods = w.period * (periods - 2) + 2 * w.period := by
    rw [← Nat.mul_comm w.period 2, ← Nat.mul_add]
    congr 1
  have hcomm : ((rx.length - 1 : Nat) * w.period : Int) = (w.period * (rx.length - 1) : Nat) := by
    rw [Nat.mul_comm]
    push_cast
    rfl
  rw [hcomm]
  generalize w.period * (rx.length - 1) = measured at *
  generalize w.period * (periods - 2) = shortened at *
  omega

/-- Whatever the waveform and the starting counter value, the counter is biased. -/
theorem capture_not_unbiased (w : PulseTrain) (s : State) (x : UInt32) : ¬Unbiased w s x := by
  rintro ⟨bound, h⟩
  obtain ⟨t, ht⟩ := exists_error_gt w s x bound
  exact absurd (h t) (Nat.not_le.2 ht)

/-- A pulse of 100 ms each second at 125 MHz. -/
def secondPulse : PulseTrain where
  period := 125000000
  high := 12500000
  offset := 0
  high_ge := by decide
  low_ge := by decide

theorem secondPulse_not_unbiased : ¬Unbiased secondPulse .reset 4294967295 := by
  rintro ⟨bound, h⟩
  obtain ⟨t, ht⟩ := exists_error_gt secondPulse .reset 4294967295 bound
  exact absurd (h t) (Nat.not_le.2 ht)

end PicoGnss
