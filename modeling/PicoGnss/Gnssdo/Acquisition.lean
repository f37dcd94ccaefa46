import PicoGnss.Gnssdo.PhaseServo
import PicoGnss.Gnssdo.PullIn

/-! The default loop takes hold of any phase. -/

namespace PicoGnss
open FixedWidth PlanarForm
set_option autoImplicit true

/-- The loop and the output that it steers, with the trim as ns per edge. -/
structure ClosedLoop where
  loop : PhaseLockLoop
  phaseNs : Int

namespace ClosedLoop

def start (phaseNs : Int) : ClosedLoop := ⟨.new, phaseNs⟩

/-- One valid edge: its error is the phase, which the two actuators then move. -/
def edge (c : ClosedLoop) : ClosedLoop :=
  let u := c.loop.update c.phaseNs true
  ⟨u.2, c.phaseNs + u.1.freqTrimMppb.tdiv 1000 - u.1.phaseCorrNs⟩

theorem edge_iterate (c : ClosedLoop) (n : Nat) : (edge^[n] c).edge = edge^[n + 1] c :=
  (Function.iterate_succ_apply' edge n c).symm

/-- The loop does what a swing on unbounded integers does. -/
structure Follows (c : ClosedLoop) (x : Swing) : Prop where
  config : c.loop.config = .default
  lockCnt : c.loop.lockCnt ≤ 5
  phase : c.phaseNs = x.phaseNs
  corr : c.loop.servo.inFlight = x.corrNs
  trim : c.loop.trimMppb = x.trimMppb
  pred : c.loop.lastPred = x.pred

/-- Room for one more edge within the words and the clamps of the loop. -/
structure Roomy (x : Swing) (locked : Bool) : Prop where
  phase : x.phaseNs.natAbs ≤ 500000000
  corr : x.corrNs.natAbs ≤ 100000000
  pred : x.pred.natAbs ≤ 1000000000
  trim : (x.nextTrim x.inBand).natAbs ≤ 3000000
  locked : locked = true → x.phaseNs.natAbs ≤ 3000 ∧ (x.ahead - x.pred).natAbs ≤ 400000000

theorem follows_start (p : Int) : Follows (start p) ⟨p, 0, 0, 0⟩ :=
  ⟨rfl, Nat.zero_le 5, rfl, rfl, rfl, rfl⟩

variable {c : ClosedLoop} {x : Swing}

theorem Follows.fits (h : Follows c x) (hx : Roomy x locked) : c.loop.servo.Fits where
  lockCnt := h.lockCnt
  inFlight := by
    rw [h.corr]
    exact Nat.le_trans hx.corr (by decide)
  lastPred := by
    change c.loop.lastPred.natAbs ≤ _
    rw [h.pred]
    exact hx.pred

/-- Calm or disturbed, the default integral has one time constant. -/
theorem integrate_default {l : PhaseLockLoop} (hc : l.config = .default) {ctrl pred : Int}
    (hctrl : ctrl.natAbs ≤ 1000000000) (hpred : pred.natAbs ≤ 1000000000)
    (htrim : l.trimMppb.natAbs ≤ 1000000000000) : l.integrate ctrl pred =
      if ctrl.natAbs < 5000 then
        clamp (l.trimMppb - (pred * 1000).tdiv 128) (-3000000) 3000000
      else l.trimMppb := by
  have hquot := natAbs_tdiv_le (Nat.le_refl (pred * 1000).natAbs) (by decide : 0 < 128)
    (by decide : ((128 : Nat) : Int) ≤ 128)
  have hden : (if abs64 pred < 1000 then (128 : Int) else wrap64 (128 * 2 ^ min 0 20)) = 128 := by
    split
    · rfl
    · decide
  unfold PhaseLockLoop.integrate
  rw [hc]
  change (if true = true then if abs64 ctrl < 5000 then
    clamp (wrap64 (l.trimMppb - (wrap64 (pred * 1000)).tdiv
      (max (if abs64 pred < 1000 then (128 : Int) else wrap64 (128 * 2 ^ min 0 20)) 1)))
      (-3000000) 3000000 else l.trimMppb else 0) = _
  have hmul : wrap64 (pred * 1000) = pred * 1000 := wrap64_of_natAbs_lt (by omega)
  have hmax : max (128 : Int) 1 = 128 := by decide
  rw [hden, if_pos rfl, abs64_of_natAbs_lt (by omega), hmul, hmax, wrap64_of_natAbs_lt (by omega)]
  exact if_congr Int.ofNat_lt rfl rfl

theorem Follows.integrate (h : Follows c x) (hx : Roomy x locked) :
    c.loop.integrate c.phaseNs x.ahead = x.nextTrim x.inBand := by
  have hphase := hx.phase
  have hcorr := hx.corr
  have htrim := hx.trim
  have hahead : x.ahead.natAbs ≤ 600000000 := by
    unfold Swing.ahead
    omega
  have hquot := x.natAbs_pull_le
  rw [x.nextTrim_inBand] at htrim ⊢
  rw [h.phase, ← h.trim] at *
  split at htrim
  · rename_i hin
    rw [integrate_default h.config (by omega) (by omega) (by omega), if_pos hin, if_pos hin]
    exact clamp_of_mem (by omega) (by omega)
  · rename_i hout
    rw [integrate_default h.config (by omega) (by omega) (by omega), if_neg hout, if_neg hout]

theorem edge_kept (hkeep : c.loop.rejects c.phaseNs = false)
    (hpred : c.loop.predict c.phaseNs = pred) (htrim : c.loop.integrate c.phaseNs pred = trim)
    (hcorr : c.loop.pCorr pred + c.loop.dCorr pred = corr) :
    c.edge = ⟨{ c.loop with
      lockCnt := c.loop.nextLockCnt c.phaseNs
      rejectCnt := 0
      trimMppb := trim
      lastPred := pred
      pdHist := c.loop.pdHist.push corr }, c.phaseNs + trim.tdiv 1000 - corr⟩ := by
  subst hpred htrim hcorr
  simp only [edge, PhaseLockLoop.update, hkeep, ↓reduceIte, Bool.false_eq_true]

theorem Follows.keeps (h : Follows c x) (hx : Roomy x c.loop.isLocked)
    (hrealizes : c.loop.config.Realizes .default) (hphase : c.phaseNs.natAbs ≤ 1000000000) :
    c.loop.rejects c.phaseNs = false := by
  rw [Bool.eq_false_iff]
  intro hrejects
  obtain ⟨hl, hout, -⟩ := (PhaseLockLoop.rejects_iff hrealizes hphase).1 hrejects
  have hnear := (hx.locked ((PhaseLockLoop.isLocked_iff_servo hrealizes).2 hl)).1
  rw [h.phase] at hout
  omega

theorem Follows.corrects (h : Follows c x) (hx : Roomy x c.loop.isLocked)
    (hrealizes : c.loop.config.Realizes .default) :
    c.loop.pCorr x.ahead + c.loop.dCorr x.ahead = x.nextCorr c.loop.isLocked := by
  have hphase := hx.phase
  have hcorr := hx.corr
  have hahead : x.ahead.natAbs ≤ 600000000 := by
    unfold Swing.ahead
    omega
  have hquot := natAbs_tdiv_le hahead (by decide : 0 < 8) (by decide : ((8 : Nat) : Int) ≤ 8)
  have hp : c.loop.pCorr x.ahead = x.ahead.tdiv 8 := by
    rw [PhaseLockLoop.pCorr_eq hrealizes (by omega)]
    change clamp (x.ahead.tdiv 8) (-100000000) 100000000 = _
    exact clamp_of_mem (by omega) (by omega)
  have hd : c.loop.dCorr x.ahead = if c.loop.isLocked then (x.ahead - x.pred).tdiv 4 else 0 := by
    rw [PhaseLockLoop.dCorr_eq hrealizes (h.fits hx) (by omega), PhaseServo.dTerm]
    change (if true = true ∧ 5 ≤ c.loop.servo.lockCnt then
      clamp ((x.ahead - c.loop.lastPred).tdiv 4) (-100000000) 100000000 else 0) = _
    have hiff := PhaseLockLoop.isLocked_iff_servo hrealizes
    rw [h.pred]
    by_cases hlocked : c.loop.isLocked = true
    · have hmove := (hx.locked hlocked).2
      have hquot := natAbs_tdiv_le hmove (by decide : 0 < 4) (by decide : ((4 : Nat) : Int) ≤ 4)
      rw [if_pos ⟨rfl, hiff.1 hlocked⟩, if_pos hlocked]
      exact clamp_of_mem (by omega) (by omega)
    · rw [if_neg fun hd => hlocked (hiff.2 hd.2), if_neg hlocked]
  rw [hp, hd]
  rfl

/-- An edge of the loop is one of the swing. -/
theorem Follows.edge (h : Follows c x) (hx : Roomy x c.loop.isLocked) :
    Follows c.edge (x.next x.inBand c.loop.isLocked) ∧
      c.edge.loop.lockCnt = if x.phaseNs.natAbs < 1000 then min (c.loop.lockCnt + 1) 5 else 0 := by
  have hrealizes := PhaseLockLoopConfig.realizes_default
  rw [← h.config] at hrealizes
  have hphase : c.phaseNs.natAbs ≤ 1000000000 := by
    rw [h.phase]
    exact Nat.le_trans hx.phase (by decide)
  have hpred : c.loop.predict c.phaseNs = x.ahead := by
    rw [PhaseLockLoop.predict_eq (h.fits hx) hphase, h.corr, h.phase, Swing.ahead]
  have hcount : c.loop.nextLockCnt c.phaseNs =
      if x.phaseNs.natAbs < 1000 then min (c.loop.lockCnt + 1) 5 else 0 := by
    rw [PhaseLockLoop.nextLockCnt_eq hrealizes h.lockCnt hphase, PhaseServo.nextLockCnt, h.phase]
    rfl
  rw [edge_kept (h.keeps hx hrealizes hphase) hpred (h.integrate hx) (h.corrects hx hrealizes)]
  refine ⟨⟨h.config, ?_, ?_, ?_, rfl, rfl⟩, hcount⟩
  · change c.loop.nextLockCnt c.phaseNs ≤ 5
    rw [hcount]
    split
    · exact Nat.min_le_right ..
    · exact Nat.zero_le 5
  · rw [h.phase]
    rfl
  · rw [PhaseLockLoop.servo_push hrealizes]
    rfl

theorem Roomy.neg (h : Roomy x b) : Roomy (-x) b where
  phase := Nat.le_trans (Int.natAbs_neg _).le h.phase
  corr := Nat.le_trans (Int.natAbs_neg _).le h.corr
  pred := Nat.le_trans (Int.natAbs_neg _).le h.pred
  trim := by
    rw [Swing.neg_inBand, Swing.neg_nextTrim, Int.natAbs_neg]
    exact h.trim
  locked := by
    intro hlocked
    obtain ⟨hphase, hmove⟩ := h.locked hlocked
    have hneg : (-x).ahead - (-x).pred = -(x.ahead - x.pred) := by
      rw [Swing.neg_ahead]
      change -x.ahead - -x.pred = _
      omega
    rw [hneg, Int.natAbs_neg]
    exact ⟨Nat.le_trans (Int.natAbs_neg _).le hphase, hmove⟩

theorem roomy_of_descends (h : x.Descends) (hp : x.phaseNs ≤ 500000000) : Roomy x false := by
  obtain ⟨hphase, hcorr, hcorrle, hpred, htrim⟩ := h
  have hquot := x.natAbs_pull_le
  refine ⟨by omega, by omega, by omega, ?_, fun h => absurd h Bool.false_ne_true⟩
  rw [x.nextTrim_inBand]
  unfold Swing.ahead at *
  split <;> omega

theorem roomy_of_moderate (h : x.Moderate) (locked : Bool) : Roomy x locked := by
  obtain ⟨hphase, hcorr, htrim, hpred⟩ := h
  have hahead : x.ahead.natAbs ≤ 5000 := by
    unfold Swing.ahead
    omega
  have hquot := x.natAbs_pull_le
  refine ⟨by omega, by omega, by omega, ?_, fun _ => ⟨hphase, by omega⟩⟩
  unfold Swing.nextTrim
  split <;> omega

/-- The loop swings as `x` does, up or down. -/
def FollowsEitherWay (c : ClosedLoop) (x : Swing) : Prop := Follows c x ∨ Follows c (-x)

theorem FollowsEitherWay.edge (h : FollowsEitherWay c x) (hx : Roomy x c.loop.isLocked) :
    FollowsEitherWay c.edge (x.next x.inBand c.loop.isLocked) ∧
      c.edge.loop.lockCnt = if x.phaseNs.natAbs < 1000 then min (c.loop.lockCnt + 1) 5 else 0 := by
  rcases h with h | h
  · obtain ⟨hnext, hcount⟩ := h.edge hx
    exact ⟨.inl hnext, hcount⟩
  · obtain ⟨hnext, hcount⟩ := h.edge hx.neg
    rw [Swing.neg_inBand, Swing.next_neg] at hnext
    change c.edge.loop.lockCnt = if (-x.phaseNs).natAbs < 1000 then _ else _ at hcount
    rw [Int.natAbs_neg] at hcount
    exact ⟨.inr hnext, hcount⟩

theorem not_isLocked (h : Follows c x) (hcnt : c.loop.lockCnt = 0) : c.loop.isLocked = false := by
  rw [PhaseLockLoop.isLocked, h.config, hcnt]
  rfl

/-- Until its swing is small, an unlocked loop takes a tenth off the phase with every edge. -/
theorem descent (hp : p.natAbs ≤ 500000000) (n : Nat) :
    (∃ m ≤ n, ∃ x, FollowsEitherWay (ClosedLoop.edge^[m] (start p)) x ∧ x.size ≤ 1600000000) ∨
      ∃ x, FollowsEitherWay (ClosedLoop.edge^[n] (start p)) x ∧ x.Descends ∧ 1000 ≤ x.phaseNs ∧
        (ClosedLoop.edge^[n] (start p)).loop.lockCnt = 0 ∧
        10 ^ n * x.phaseNs ≤ 9 ^ n * 500000000 := by
  induction n with
  | zero =>
    have hdescends {q : Int} (hq : 1000 ≤ q) : Swing.Descends ⟨q, 0, 0, 0⟩ := by
      refine ⟨?_, Int.le_refl 0, ?_, ⟨Int.le_refl 0, ?_⟩, .inl rfl⟩ <;> dsimp only <;> omega
    by_cases hsmall : p.natAbs < 1000
    · exact .inl ⟨0, Nat.le_refl 0, _, .inl (follows_start p), Swing.size_start hsmall⟩
    · right
      rcases Int.le_total 0 p with hpos | hneg
      · exact ⟨_, .inl (follows_start p), hdescends (by omega), (by omega : 1000 ≤ p), rfl,
          (by omega : 1 * p ≤ 1 * 500000000)⟩
      · refine ⟨⟨-p, 0, 0, 0⟩, .inr ?_, hdescends (by omega), (by omega : 1000 ≤ -p), rfl,
          (by omega : 1 * -p ≤ 1 * 500000000)⟩
        have hneg : (-⟨-p, 0, 0, 0⟩ : Swing) = ⟨p, 0, 0, 0⟩ := by
          change Swing.mk (- -p) 0 0 0 = _
          rw [Int.neg_neg]
        rw [hneg]
        exact follows_start p
  | succ n ih =>
    rcases ih with ⟨m, hm, hsmall⟩ | ⟨x, hfollows, hdescends, hfar, hcnt, hleft⟩
    · exact .inl ⟨m, Nat.le_succ_of_le hm, hsmall⟩
    · have hpow : (9 : Int) ^ n ≤ 10 ^ n := pow_le_pow_left₀ (by decide) (by decide) n
      have hnear : x.phaseNs ≤ 500000000 := le_of_mul_le_mul_left
        (hleft.trans (mul_le_mul_of_nonneg_right hpow (by decide))) (pow_pos (by decide) n)
      have hunlocked : (ClosedLoop.edge^[n] (start p)).loop.isLocked = false :=
        hfollows.elim (not_isLocked · hcnt) (not_isLocked · hcnt)
      have hroomy : Roomy x (ClosedLoop.edge^[n] (start p)).loop.isLocked := by
        rw [hunlocked]
        exact roomy_of_descends hdescends hnear
      obtain ⟨hnext, hcnt'⟩ := hfollows.edge hroomy
      obtain ⟨hdescends', htenth⟩ := hdescends.next hfar
      rw [hunlocked, edge_iterate] at hnext
      rw [if_neg (by omega), edge_iterate] at hcnt'
      rcases lt_or_ge (x.next x.inBand false).phaseNs 1000 with hin | hout
      · exact .inl ⟨n + 1, Nat.le_refl _, _, hnext, hdescends'.size_le hin⟩
      · exact .inr ⟨_, hnext, hdescends', hout, hcnt',
          decay_succ (by decide) (by decide) htenth hleft⟩

theorem moderate_of_decay {y : Swing}
    (h : 50 ^ j * (y.size - 70000000) ≤ 49 ^ j * (2 ^ 4 * 95625000)) : y.Moderate := by
  have hpow : (49 : ℚ) ^ j ≤ 50 ^ j := pow_le_pow_left₀ (by norm_num) (by norm_num) j
  have hle := h.trans (mul_le_mul_of_nonneg_right hpow (by norm_num))
  have hsize := le_of_mul_le_mul_left hle (pow_pos (by norm_num) j)
  apply Swing.moderate
  linarith

/-- A small swing keeps on getting smaller, and has no outliers. -/
theorem Follows.settles (h : Follows c x) (hsize : x.size ≤ 1600000000) (j : Nat) :
    ∃ y, Follows (ClosedLoop.edge^[j] c) y ∧
      50 ^ j * (y.size - 70000000) ≤ 49 ^ j * (2 ^ 4 * 95625000) := by
  induction j with
  | zero =>
    refine ⟨x, h, ?_⟩
    norm_num
    linarith
  | succ j ih =>
    obtain ⟨y, hfollows, hdecay⟩ := ih
    have hmoderate := moderate_of_decay hdecay
    have hin : y.inBand = true := decide_eq_true (Nat.lt_of_le_of_lt hmoderate.phase (by decide))
    obtain ⟨hnext, -⟩ := hfollows.edge (roomy_of_moderate hmoderate _)
    rw [hin, edge_iterate] at hnext
    exact ⟨_, hnext, decay_succ (by norm_num) (by norm_num) (y.size_next _) hdecay⟩

/-- Then every edge is in the lock window and counts. -/
theorem Follows.locks (h : Follows c x) (hsize : x.size ≤ 1600000000) (i : Nat) :
    min i 5 ≤ (ClosedLoop.edge^[140 + i] c).loop.lockCnt := by
  induction i with
  | zero => exact Nat.zero_le _
  | succ i ih =>
    obtain ⟨y, hfollows, hdecay⟩ := h.settles hsize (140 + i)
    have hleft := decay_halves (by norm_num) (by norm_num) (by norm_num)
      (by norm_num : 2 * (49 : ℚ) ^ 35 ≤ 50 ^ 35) (by norm_num) (k := 4) (by omega) hdecay
    have hsquare := y.sq_phase_le
    have hphase : y.phaseNs.natAbs ≤ 999 := by
      apply Swing.natAbs_le_of_sq
      norm_num
      linarith
    obtain ⟨-, hcnt⟩ := hfollows.edge (roomy_of_moderate (moderate_of_decay hdecay) _)
    rw [if_pos (Nat.lt_succ_of_le hphase), edge_iterate] at hcnt
    rw [← Nat.add_assoc, hcnt]
    omega

end ClosedLoop

/-- Wherever the phase starts, the loop has taken hold of it after three hundred edges. -/
theorem acquires_from_anywhere (hp : p.natAbs ≤ 500000000) :
    (ClosedLoop.edge^[300] (.start p)).loop.isLocked = true := by
  have hsmall : ∃ m ≤ 125, ∃ x, ClosedLoop.Follows (ClosedLoop.edge^[m] (.start p)) x ∧
      x.size ≤ 1600000000 := by
    rcases ClosedLoop.descent hp 125 with ⟨m, hm, x, hx | hx, hsize⟩ | ⟨x, -, -, hfar, -, hleft⟩
    · exact ⟨m, hm, x, hx, hsize⟩
    · exact ⟨m, hm, -x, hx, x.size_neg.trans_le hsize⟩
    · omega
  obtain ⟨m, hm, x, hfollows, hsize⟩ := hsmall
  obtain ⟨i, hi⟩ := Nat.exists_eq_add_of_le (by omega : 145 ≤ 300 - m)
  have hsplit : 300 = 140 + (5 + i) + m := by omega
  have hcnt := hfollows.locks hsize (5 + i)
  rw [hsplit, Function.iterate_add_apply]
  obtain ⟨y, hy, -⟩ := hfollows.settles hsize (140 + (5 + i))
  rw [PhaseLockLoop.isLocked, hy.config]
  exact decide_eq_true (Nat.le_trans (by omega : 5 ≤ min (5 + i) 5) hcnt)

theorem acquires_from_anywhere_far :
    (ClosedLoop.edge^[300] (.start 499999999)).loop.isLocked = true :=
  acquires_from_anywhere (by decide)

end PicoGnss
