import Mathlib.Tactic.IntervalCases
import PicoGnss.RpPps.Capture

/-! The capture program whose counter wraps cost the same in both wait loops. -/

namespace PicoGnss
set_option autoImplicit true

open Pio

def ppsCaptureProgramWrapBalanced : Program where
  code := [
    .jmp .pin 3,
    .jmp (.dec .x) 0,
    .jmp .always 0,
    .inWord .x,
    .push,
    .jmp (.dec .x) 7,
    .jmp .always 7,
    .jmp .pin 5]
  wrapTarget := 0
  wrap := 7

/-- An input whose level, once it has changed, lasts sixteen cycles. -/
structure Waveform where
  level : Nat → Bool
  lasting : ∀ t k, level t ≠ level (t + 1) → k < 16 → level (t + 1 + k) = level (t + 1)

namespace Waveform

/-- The level changes to `v` in cycle `t`. -/
def Turns (w : Waveform) (v : Bool) (t : Nat) : Prop :=
  ∃ u, t = u + 1 ∧ w.level u ≠ v ∧ w.level t = v

/-- A low-to-high transition, or an input that is high from the start. -/
def Rises (w : Waveform) (t : Nat) : Prop := w.level t = true ∧ (t = 0 ∨ w.level (t - 1) = false)

instance (w : Waveform) : DecidablePred w.Rises := fun t => by
  unfold Rises
  infer_instance

/-- Low-to-high transitions seen before cycle `t`. -/
def transitions (w : Waveform) (t : Nat) : Nat :=
  Nat.count (fun u => w.level u = false ∧ w.level (u + 1) = true) (t - 1)

/-- The same, with an input that is high from the start as one more. -/
def rises (w : Waveform) (t : Nat) : Nat := Nat.count w.Rises t

/-- The level in the cycle before `t`. -/
def Was (w : Waveform) (v : Bool) (t : Nat) : Prop := ∃ u, t = u + 1 ∧ w.level u = v

/-- The level changed to `v` at most `k` cycles before `t`. -/
def Turned (w : Waveform) (v : Bool) (k t : Nat) : Prop := ∃ u, u < t ∧ t ≤ u + k ∧ w.Turns v u

variable {w : Waveform}

theorem Turned.level (h : w.Turned v k t) (hk : k < 16) : w.level t = v := by
  obtain ⟨u, hut, htu, u', rfl, hne, hv⟩ := h
  have hlast := w.lasting u' (t - (u' + 1)) (by rw [hv]; exact hne) (by omega)
  rw [Nat.add_sub_cancel' (Nat.le_of_lt hut), hv] at hlast
  exact hlast

theorem Turned.next (h : w.Turned v k t) : w.Turned v (k + 1) (t + 1) := by
  obtain ⟨u, hut, htu, hturn⟩ := h
  exact ⟨u, Nat.lt_succ_of_lt hut, Nat.succ_le_succ htu, hturn⟩

theorem Turned.was (h : w.Turned v k t) (hk : k < 16) : w.Was v t := by
  obtain ⟨u, hut, htu, hturn⟩ := h
  obtain ⟨d, rfl⟩ := Nat.exists_eq_add_of_lt hut
  rcases Nat.eq_zero_or_pos d with rfl | hd
  · obtain ⟨-, -, -, hv⟩ := hturn
    exact ⟨u, rfl, hv⟩
  · have hprev : w.Turned v k (u + d) := ⟨u, Nat.lt_add_of_pos_right hd, by omega, hturn⟩
    exact ⟨u + d, rfl, hprev.level hk⟩

theorem Was.next (h : w.level t = v) : w.Was v (t + 1) := ⟨t, rfl, h⟩

/-- A level that differs from the one before has just turned. -/
theorem Was.turned (h : w.Was (!v) t) (hv : w.level t = v) : w.Turned v 1 (t + 1) := by
  obtain ⟨u, rfl, hu⟩ := h
  refine ⟨u + 1, Nat.lt_succ_self _, Nat.le_refl _, u, rfl, ?_, hv⟩
  rw [hu]
  exact Bool.not_ne_self v

theorem rises_succ_of_not (h : ¬w.Rises t) : w.rises (t + 1) = w.rises t := by
  rw [rises, Nat.count_succ, if_neg h]
  rfl

theorem rises_succ_of_rises (h : w.Rises t) : w.rises (t + 1) = w.rises t + 1 := by
  rw [rises, Nat.count_succ, if_pos h]
  rfl

theorem rises_zero_iff : w.Rises 0 ↔ w.level 0 = true := and_iff_left (.inl rfl)

theorem rises_succ_iff : w.Rises (t + 1) ↔ w.level t = false ∧ w.level (t + 1) = true := by
  rw [Rises, Nat.add_sub_cancel, and_comm]
  exact and_congr_left' (or_iff_right (Nat.succ_ne_zero t))

/-- Other than at the start, a rise is a transition. -/
theorem rises_eq_transitions (w : Waveform) (t : Nat) :
    w.rises (t + 1) = w.transitions (t + 1) + if w.level 0 = true then 1 else 0 := by
  induction t with
  | zero =>
    rw [rises, Nat.count_succ, Nat.count_zero]
    simp only [rises_zero_iff]
    rfl
  | succ t ih =>
    have hsplit : w.transitions (t + 2) =
        w.transitions (t + 1) + if w.Rises (t + 1) then 1 else 0 := by
      simp only [rises_succ_iff]
      exact Nat.count_succ _ t
    rw [rises, Nat.count_succ, ← rises, ih, hsplit, Nat.add_right_comm]

theorem not_rises_of_low (h : w.level t = false) : ¬w.Rises t := by
  intro hr
  rw [hr.1] at h
  cases h

theorem Was.not_rises (h : w.Was true t) : ¬w.Rises t := by
  obtain ⟨u, rfl, hu⟩ := h
  rintro ⟨-, h0 | hlow⟩
  · cases h0
  · rw [Nat.add_sub_cancel, hu] at hlow
    cases hlow

end Waveform

def balancedAt (w : Waveform) (s : State) (x : UInt32) (t : Nat) : State :=
  run ppsCaptureProgramWrapBalanced w.level (captureStart s x) t

/-- Values pushed in the first `t` cycles. -/
def balancedPushes (w : Waveform) (s : State) (x : UInt32) (t : Nat) : Nat :=
  (balancedAt w s x t).rx.length

def balancedDecrements (w : Waveform) (s : State) (x : UInt32) (t : Nat) : Nat :=
  decrements ppsCaptureProgramWrapBalanced w.level (captureStart s x) t

/-- What one cycle of the program does. -/
inductive BalancedStep : Bool → State → State → Prop where
  | rising : s.pc = 0 → BalancedStep true s { s with pc := 3 }
  | low : s.pc = 0 → BalancedStep false s { s with pc := 1 }
  | lowTick : s.pc = 1 → s.x ≠ 0 → BalancedStep level s { s with x := s.x - 1, pc := 0 }
  | lowWrap : s.pc = 1 → s.x = 0 → BalancedStep level s { s with x := s.x - 1, pc := 2 }
  | lowGuard : s.pc = 2 → BalancedStep level s { s with pc := 0 }
  | latch : s.pc = 3 → BalancedStep level s { s with isr := s.x, pc := 4 }
  | emit : s.pc = 4 → BalancedStep level s { s with rx := s.isr :: s.rx, isr := 0, pc := 5 }
  | highTick : s.pc = 5 → s.x ≠ 0 → BalancedStep level s { s with x := s.x - 1, pc := 7 }
  | highWrap : s.pc = 5 → s.x = 0 → BalancedStep level s { s with x := s.x - 1, pc := 6 }
  | highGuard : s.pc = 6 → BalancedStep level s { s with pc := 7 }
  | high : s.pc = 7 → BalancedStep true s { s with pc := 5 }
  | falling : s.pc = 7 → BalancedStep false s { s with pc := 0 }

variable {s s' : State}

theorem balancedStep (level : Bool) (h : s.pc ≤ 7) :
    BalancedStep level s (step ppsCaptureProgramWrapBalanced level s) := by
  obtain ⟨pc, x, y, isr, osr, pins, pindirs, tx, rx⟩ := s
  rcases pc with _ | _ | _ | _ | _ | _ | _ | _ | pc
  · cases level with
    | true => exact .rising rfl
    | false => exact .low rfl
  · by_cases hx : x = 0
    · cases hx
      exact .lowWrap rfl rfl
    · have hstep : step ppsCaptureProgramWrapBalanced level
          ⟨1, x, y, isr, osr, pins, pindirs, tx, rx⟩ =
          ⟨0, x - 1, y, isr, osr, pins, pindirs, tx, rx⟩ := by
        simp [step, ppsCaptureProgramWrapBalanced, exec, Cond.holds, Cond.decrement, State.get,
          State.set, hx]
      rw [hstep]
      exact .lowTick rfl hx
  · exact .lowGuard rfl
  · exact .latch rfl
  · exact .emit rfl
  · by_cases hx : x = 0
    · cases hx
      exact .highWrap rfl rfl
    · have hstep : step ppsCaptureProgramWrapBalanced level
          ⟨5, x, y, isr, osr, pins, pindirs, tx, rx⟩ =
          ⟨7, x - 1, y, isr, osr, pins, pindirs, tx, rx⟩ := by
        simp [step, ppsCaptureProgramWrapBalanced, exec, Cond.holds, Cond.decrement, State.get,
          State.set, hx]
      rw [hstep]
      exact .highTick rfl hx
  · exact .highGuard rfl
  · cases level with
    | true => exact .high rfl
    | false => exact .falling rfl
  · exact absurd h (by simp)

theorem decrements_balanced (h : s.pc ≤ 7) :
    s.decrements ppsCaptureProgramWrapBalanced = true ↔ s.pc = 1 ∨ s.pc = 5 := by
  obtain ⟨pc, x, y, isr, osr, pins, pindirs, tx, rx⟩ := s
  simp only at h
  interval_cases pc <;> simp [State.decrements, ppsCaptureProgramWrapBalanced]

/-- The cycles at an address that its decrement or its wrap is still to count, or has counted in
advance. -/
def balancedUncounted : Nat → Int
  | 1 => 1
  | 2 => -1
  | 3 => 1
  | 4 => 2
  | 6 => -2
  | 7 => -1
  | _ => 0

/-- Every cycle is one of two for a decrement, one of three for a capture, or the guard of a wrap,
and the wraps are those of the counter. -/
structure BalancedAccount (x : UInt32) (t decs : Nat) (s : State) : Prop where
  pc : s.pc ≤ 7
  cycles : ∃ wraps : Nat, s.x.toNat + decs = x.toNat + 4294967296 * wraps ∧
    (t : Int) = 2 * decs + 3 * s.rx.length + wraps + balancedUncounted s.pc

/-- A cycle that decrements nothing. -/
theorem BalancedAccount.spend (h : BalancedAccount x t d s) (hpc : s.pc ≠ 1 ∧ s.pc ≠ 5)
    (hpc' : s'.pc ≤ 7) (hx : s'.x = s.x)
    (hcycles : 3 * (s'.rx.length : Int) + balancedUncounted s'.pc =
      3 * s.rx.length + balancedUncounted s.pc + 1) :
    BalancedAccount x (t + 1)
      (d + if s.decrements ppsCaptureProgramWrapBalanced then 1 else 0) s' := by
  have hd : ¬s.decrements ppsCaptureProgramWrapBalanced = true := by
    rw [decrements_balanced h.pc]
    exact fun h' => h'.elim hpc.1 hpc.2
  obtain ⟨wraps, hcounter, hc⟩ := h.cycles
  rw [if_neg hd, Nat.add_zero]
  refine ⟨hpc', wraps, ?_, by push_cast; omega⟩
  rw [hx]
  exact hcounter

theorem BalancedAccount.still (h : BalancedAccount x t d s) (hpc : s.pc ≠ 1 ∧ s.pc ≠ 5)
    (hpc' : s'.pc ≤ 7) (hx : s'.x = s.x) (hrx : s'.rx = s.rx)
    (hcycles : balancedUncounted s'.pc = balancedUncounted s.pc + 1) :
    BalancedAccount x (t + 1)
      (d + if s.decrements ppsCaptureProgramWrapBalanced then 1 else 0) s' :=
  h.spend hpc hpc' hx (by rw [hrx]; omega)

/-- A cycle that decrements the counter; in either loop a wrap costs a guard. -/
theorem BalancedAccount.tick (h : BalancedAccount x t d s) (hpc : s.pc = 1 ∨ s.pc = 5)
    (hpc' : s'.pc ≤ 7) (hx : s'.x = s.x - 1) (hrx : s'.rx = s.rx)
    (hcycles : balancedUncounted s'.pc + 2 + (if s.x = 0 then 1 else 0) =
      balancedUncounted s.pc + 1) :
    BalancedAccount x (t + 1)
      (d + if s.decrements ppsCaptureProgramWrapBalanced then 1 else 0) s' := by
  have hd : s.decrements ppsCaptureProgramWrapBalanced = true := (decrements_balanced h.pc).2 hpc
  have hsub := toNat_sub_one s.x
  rw [← hx] at hsub
  obtain ⟨wraps, hcounter, hc⟩ := h.cycles
  rw [if_pos hd]
  by_cases h0 : s.x = 0
  · rw [if_pos h0] at hsub hcycles
    refine ⟨hpc', wraps + 1, by omega, ?_⟩
    rw [hrx]
    push_cast
    omega
  · rw [if_neg h0] at hsub hcycles
    refine ⟨hpc', wraps, by omega, ?_⟩
    rw [hrx]
    push_cast
    omega

theorem BalancedAccount.step (h : BalancedAccount x t d s) (hs : BalancedStep level s s') :
    BalancedAccount x (t + 1)
      (d + if s.decrements ppsCaptureProgramWrapBalanced then 1 else 0) s' := by
  cases hs with
  | rising h0 => exact h.still (by omega) (by simp) rfl rfl (by rw [h0]; rfl)
  | low h0 => exact h.still (by omega) (by simp) rfl rfl (by rw [h0]; rfl)
  | lowTick h1 hx =>
    exact h.tick (.inl h1) (by simp) rfl rfl (by rw [h1, if_neg hx]; rfl)
  | lowWrap h1 hx =>
    exact h.tick (.inl h1) (by simp) rfl rfl (by rw [h1, if_pos hx]; rfl)
  | lowGuard h2 => exact h.still (by omega) (by simp) rfl rfl (by rw [h2]; rfl)
  | latch h3 => exact h.still (by omega) (by simp) rfl rfl (by rw [h3]; rfl)
  | emit h4 =>
    refine h.spend (by omega) (by simp) rfl ?_
    rw [h4, List.length_cons]
    simp only [balancedUncounted]
    omega
  | highTick h5 hx =>
    exact h.tick (.inr h5) (by simp) rfl rfl (by rw [h5, if_neg hx]; rfl)
  | highWrap h5 hx =>
    exact h.tick (.inr h5) (by simp) rfl rfl (by rw [h5, if_pos hx]; rfl)
  | highGuard h6 => exact h.still (by omega) (by simp) rfl rfl (by rw [h6]; rfl)
  | high h7 => exact h.still (by omega) (by simp) rfl rfl (by rw [h7]; rfl)
  | falling h7 => exact h.still (by omega) (by simp) rfl rfl (by rw [h7]; rfl)

theorem account_balancedAt (w : Waveform) (s : State) (x : UInt32) (t : Nat) :
    BalancedAccount x t (balancedDecrements w s x t) (balancedAt w s x t) := by
  induction t with
  | zero => exact ⟨Nat.zero_le 7, 0, rfl, rfl⟩
  | succ t ih =>
    have hstep := ih.step (balancedStep (w.level t) ih.pc)
    rw [balancedDecrements, decrements, Nat.count_succ]
    exact hstep

/-- Two accounts of the same cycles and captures differ in an unfinished decrement or two. -/
theorem BalancedAccount.drift (h : BalancedAccount x t d s) (h' : BalancedAccount x' t d' s')
    (hrx : s.rx.length = s'.rx.length) : d ≤ d' + 2 := by
  obtain ⟨wraps, hcounter, hcycles⟩ := h.cycles
  obtain ⟨wraps', hcounter', hcycles'⟩ := h'.cycles
  have hbounds (pc : Nat) : -2 ≤ balancedUncounted pc ∧ balancedUncounted pc ≤ 2 := by
    unfold balancedUncounted
    split <;> decide
  have hun := hbounds s.pc
  have hun' := hbounds s'.pc
  have hx := s.x.toNat_lt
  have hx' := s'.x.toNat_lt
  have hx₀ := x.toNat_lt
  have hx₀' := x'.toNat_lt
  omega

/-- Cycle `t` with a rise seen at most `k` cycles ago that is still to be pushed. -/
def Pending (w : Waveform) (k t n : Nat) : Prop :=
  ∃ u, u < t ∧ t ≤ u + k ∧ w.Rises u ∧ n = w.rises u ∧ w.rises t = n + 1

/-- What the program has seen of its input at an address, after `n` captures. -/
def Watching (w : Waveform) (t n : Nat) : Nat → Prop
  | 0 => ((t = 0 ∨ w.Was false t) ∧ n = w.rises t) ∨ (w.Turned true 2 t ∧ Pending w 2 t n)
  | 1 => w.Was false t ∧ n = w.rises t
  | 2 => (w.Was false t ∧ n = w.rises t) ∨ (w.Turned true 1 t ∧ Pending w 1 t n)
  | 3 => w.Was true t ∧ Pending w 3 t n
  | 4 => (w.Was true t ∨ w.Turned false 1 t) ∧ Pending w 4 t n
  | 5 => (w.Was true t ∨ w.Turned false 2 t) ∧ n = w.rises t
  | 6 => (w.Was true t ∨ w.Turned false 3 t) ∧ n = w.rises t
  | 7 => (w.Was true t ∨ w.Turned false 4 t) ∧ n = w.rises t
  | _ => False

variable {w : Waveform}

theorem Pending.next (h : Pending w k t n) (hquiet : ¬w.Rises t) : Pending w (k + 1) (t + 1) n := by
  obtain ⟨u, hut, htu, hrise, hn, hr⟩ := h
  exact ⟨u, Nat.lt_succ_of_lt hut, Nat.succ_le_succ htu, hrise, hn,
    (Waveform.rises_succ_of_not hquiet).trans hr⟩

theorem Pending.start (hn : n = w.rises t) (hrise : w.Rises t) : Pending w 1 (t + 1) n := by
  refine ⟨t, Nat.lt_succ_self t, Nat.le_refl _, hrise, hn, ?_⟩
  rw [Waveform.rises_succ_of_rises hrise, hn]

theorem Pending.mono (h : Pending w k t n) (hk : k ≤ k') : Pending w k' t n := by
  obtain ⟨u, hut, htu, hrest⟩ := h
  exact ⟨u, hut, htu.trans (Nat.add_le_add_left hk u), hrest⟩

/-- While the pin has been high, or low for a few cycles only, nothing rises. -/
theorem not_rises_of_was (h : w.Was true t ∨ w.Turned false k t) (hk : k < 16) : ¬w.Rises t := by
  rcases h with h | h
  · exact h.not_rises
  · exact Waveform.not_rises_of_low (h.level hk)

theorem was_or_turned_next (h : w.Was true t ∨ w.Turned false k t) :
    w.Was true (t + 1) ∨ w.Turned false (k + 1) (t + 1) := by
  cases hv : w.level t with
  | true => exact .inl (Waveform.Was.next hv)
  | false =>
    right
    rcases h with h | h
    · obtain ⟨u, hut, htu, hturn⟩ := Waveform.Was.turned (v := false) h hv
      exact ⟨u, hut, htu.trans (Nat.add_le_add_left (Nat.le_add_left 1 k) u), hturn⟩
    · exact h.next

/-- A cycle in which the program waits for a rise and does not look at the pin. -/
theorem Watching.unobserved (h : w.Was false t) (hn : n = w.rises t) :
    (w.Was false (t + 1) ∧ n = w.rises (t + 1)) ∨
      (w.Turned true 1 (t + 1) ∧ Pending w 1 (t + 1) n) := by
  cases hv : w.level t with
  | false =>
    left
    exact ⟨.next hv, hn.trans (Waveform.rises_succ_of_not (Waveform.not_rises_of_low hv)).symm⟩
  | true =>
    right
    obtain ⟨u, rfl, hu⟩ := h
    exact ⟨Waveform.Was.turned (v := true) ⟨u, rfl, hu⟩ hv, .start hn ⟨hv, .inr hu⟩⟩

theorem Watching.step (h : Watching w t s.rx.length s.pc) (hs : BalancedStep (w.level t) s s') :
    Watching w (t + 1) s'.rx.length s'.pc := by
  generalize hv : w.level t = level at hs
  cases hs with
  | rising hpc =>
    rw [hpc] at h
    obtain ⟨hlow, hn⟩ | ⟨hturned, hpending⟩ := h
    · refine ⟨.next hv, (Pending.start hn ⟨hv, ?_⟩).mono (by decide)⟩
      refine hlow.imp_right fun hlow => ?_
      obtain ⟨u, rfl, hu⟩ := hlow
      exact hu
    · exact ⟨.next hv, hpending.next (hturned.was (by decide)).not_rises⟩
  | low hpc =>
    rw [hpc] at h
    obtain ⟨hlow, hn⟩ | ⟨hturned, hpending⟩ := h
    · exact ⟨.next hv, hn.trans (Waveform.rises_succ_of_not (Waveform.not_rises_of_low hv)).symm⟩
    · rw [hturned.level (by decide)] at hv
      cases hv
  | lowTick hpc =>
    rw [hpc] at h
    obtain ⟨hlow, hn⟩ | ⟨hturned, hpending⟩ := Watching.unobserved h.1 h.2
    · exact .inl ⟨.inr hlow, hn⟩
    · obtain ⟨u, hut, htu, hturn⟩ := hturned
      exact .inr ⟨⟨u, hut, Nat.le_succ_of_le htu, hturn⟩, hpending.mono (by decide)⟩
  | lowWrap hpc =>
    rw [hpc] at h
    exact Watching.unobserved h.1 h.2
  | lowGuard hpc =>
    rw [hpc] at h
    obtain ⟨hlow, hn⟩ | ⟨hturned, hpending⟩ := h
    · obtain ⟨hlow, hn⟩ | ⟨hturned, hpending⟩ := Watching.unobserved hlow hn
      · exact .inl ⟨.inr hlow, hn⟩
      · obtain ⟨u, hut, htu, hturn⟩ := hturned
        exact .inr ⟨⟨u, hut, Nat.le_succ_of_le htu, hturn⟩, hpending.mono (by decide)⟩
    · exact .inr ⟨hturned.next, hpending.next (hturned.was (by decide)).not_rises⟩
  | latch hpc =>
    rw [hpc] at h
    have hwas : w.Was true t ∨ w.Turned false 0 t := .inl h.1
    exact ⟨was_or_turned_next hwas, h.2.next (not_rises_of_was hwas (by decide))⟩
  | emit hpc =>
    rw [hpc] at h
    obtain ⟨hwas, u, -, -, -, -, hn⟩ := h
    refine ⟨was_or_turned_next hwas, ?_⟩
    rw [List.length_cons, ← hn]
    exact (Waveform.rises_succ_of_not (not_rises_of_was hwas (by decide))).symm
  | highWrap hpc =>
    rw [hpc] at h
    have hquiet := Waveform.rises_succ_of_not (not_rises_of_was h.1 (by decide))
    exact ⟨was_or_turned_next h.1, h.2.trans hquiet.symm⟩
  | highTick hpc =>
    rw [hpc] at h
    have hquiet := Waveform.rises_succ_of_not (not_rises_of_was h.1 (by decide))
    refine ⟨(was_or_turned_next h.1).imp_right fun hturned => ?_, h.2.trans hquiet.symm⟩
    obtain ⟨u, hut, htu, hturn⟩ := hturned
    exact ⟨u, hut, Nat.le_succ_of_le htu, hturn⟩
  | highGuard hpc =>
    rw [hpc] at h
    have hquiet := Waveform.rises_succ_of_not (not_rises_of_was h.1 (by decide))
    exact ⟨was_or_turned_next h.1, h.2.trans hquiet.symm⟩
  | high hpc =>
    rw [hpc] at h
    have hquiet := Waveform.rises_succ_of_not (not_rises_of_was h.1 (by decide))
    exact ⟨.inl (.next hv), h.2.trans hquiet.symm⟩
  | falling hpc =>
    rw [hpc] at h
    have hquiet := Waveform.rises_succ_of_not (not_rises_of_was h.1 (by decide))
    exact .inl ⟨.inr (.next hv), h.2.trans hquiet.symm⟩

theorem watching_balancedAt (w : Waveform) (s : State) (x : UInt32) (t : Nat) :
    Watching w t (balancedPushes w s x t) (balancedAt w s x t).pc := by
  induction t with
  | zero => exact .inl ⟨.inl rfl, rfl⟩
  | succ t ih => exact ih.step (balancedStep (w.level t) (account_balancedAt w s x t).pc)

/-- Either every rise has been pushed, or all but one of the last four cycles. -/
theorem Watching.pushed (h : Watching w t n pc) : n = w.rises t ∨ Pending w 4 t n := by
  rcases pc with _ | _ | _ | _ | _ | _ | _ | _ | pc
  · exact h.imp And.right fun h => h.2.mono (by decide)
  · exact .inl h.2
  · exact h.imp And.right fun h => h.2.mono (by decide)
  · exact .inr (h.2.mono (by decide))
  · exact .inr h.2
  · exact .inl h.2
  · exact .inl h.2
  · exact .inl h.2
  · exact h.elim

theorem Waveform.rises_mono (w : Waveform) (h : t ≤ t') : w.rises t ≤ w.rises t' :=
  Nat.count_monotone w.Rises h

/-- Counters that watched different inputs for as many cycles and captures stay within two of each
other, and each capture is a rise of its input, pushed in four cycles: one for each transition,
and one for an input that is high from the start. -/
theorem wrap_balanced_captures :
    (∀ (w w' : Waveform) (s s' : State) (x x' : UInt32) (t : Nat),
      balancedPushes w s x t = balancedPushes w' s' x' t →
      (balancedDecrements w s x t : Int) - balancedDecrements w' s' x' t ≤ 2 ∧
        (balancedDecrements w' s' x' t : Int) - balancedDecrements w s x t ≤ 2) ∧
    (∀ (w : Waveform) (s : State) (x : UInt32) (t : Nat),
      balancedPushes w s x t ≤ w.rises t ∧ w.rises t ≤ balancedPushes w s x (t + 4)) ∧
    ∀ (w : Waveform) (t : Nat),
      w.rises (t + 1) = w.transitions (t + 1) + if w.level 0 = true then 1 else 0 := by
  refine ⟨fun w w' s s' x x' t hpushes => ?_, fun w s x t => ⟨?_, ?_⟩,
    Waveform.rises_eq_transitions⟩
  · have h := account_balancedAt w s x t
    have h' := account_balancedAt w' s' x' t
    have hle := h.drift h' hpushes
    have hge := h'.drift h hpushes.symm
    omega
  · rcases (watching_balancedAt w s x t).pushed with hn | ⟨u, -, -, -, -, hn⟩
    · exact Nat.le_of_eq hn
    · rw [hn]
      exact Nat.le_succ _
  · rcases (watching_balancedAt w s x (t + 4)).pushed with hn | ⟨u, -, htu, -, hn, -⟩
    · rw [hn]
      exact w.rises_mono (Nat.le_add_right t 4)
    · rw [hn]
      exact w.rises_mono (Nat.le_of_add_le_add_right htu)

/-- A pin that stays high. -/
def stuckHigh : Waveform where
  level := fun _ => true
  lasting := fun _ _ _ _ => rfl

/-- One push for each transition, up to a delay. -/
def PushesTransitions (w : Waveform) (s : State) (x : UInt32) : Prop :=
  ∃ delay, ∀ t, balancedPushes w s x t ≤ w.transitions t ∧
    w.transitions t ≤ balancedPushes w s x (t + delay)

/-- A pin that is high when the machine starts is captured without a transition. -/
theorem stuckHigh_captured :
    ¬∀ (w : Waveform) (s : State) (x : UInt32), PushesTransitions w s x := by
  intro h
  obtain ⟨delay, hpushes⟩ := h stuckHigh .reset 0
  exact absurd (hpushes 5).1 (by decide)

end PicoGnss
