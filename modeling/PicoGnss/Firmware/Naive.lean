import PicoGnss.Firmware.Tasks
import PicoGnss.RpPps.Loopback

/-! The first stages of the firmware, without the PIO: a timer toggles the output, and an interrupt
times the reference. -/

namespace PicoGnss
open FixedWidth Folding
set_option autoImplicit true

/-- What is left of a tick, at 1e12 to the tick. -/
structure NaivePeriodDither where
  fracAcc : Int

namespace NaivePeriodDither

def new : NaivePeriodDither where
  fracAcc := 0

def nextTicks (d : NaivePeriodDither) (tickHz : UInt32) (freqMppb : Int) :
    UInt32 × NaivePeriodDither :=
  let t : Int := tickHz.toNat
  let acc := wrap64 (d.fracAcc + wrap64 (t * freqMppb))
  let freqTicks := acc / 1000000000000
  (.ofInt (wrap64 (t + freqTicks)), ⟨acc % 1000000000000⟩)

end NaivePeriodDither

/-- The ticks of the executor's clock. -/
def tickHz : UInt32 := 1000000

/-- Whether a stage steers the frequency of its output. -/
def applyFreq (stage : Nat) : Bool := decide (1 ≤ stage)

/-- What the two tasks keep and share: the clock, the last reference edge, the output's deadline and
the phase of its last edge within the second. -/
structure NaivePps where
  clock : PpsGpsdo
  lastEdgeNs : Option Nat
  dither : NaivePeriodDither
  nextRise : Nat
  outSubsecNs : UInt32
  outGen : UInt32

inductive NaiveEvent where
  | gps (edgeNs : Nat)
  | sentence (s : List UInt8)
  /-- The timer has come to the deadline, and the output is set at `edgeNs`. -/
  | rise (edgeNs : Nat)

inductive NaiveEffect where
  | phase (edgeNs : Nat) (softErr : Int)
  | rose (deadline : Nat) (edgeNs : Nat) (freqMppb : Int)

namespace NaivePps

/-- The tasks as they are spawned, with the temperature left out of the clock. -/
def start (now : Nat) : NaivePps where
  clock := ((PpsGpsdo.new.setTempFfEnable false).setTempFfParams 4 7 64).setTempFfLag 1536 2 2
  lastEdgeNs := none
  dither := .new
  nextRise := now
  outSubsecNs := 0
  outGen := 0

def intervalNs (n : NaivePps) (edgeNs : Nat) : Nat :=
  match n.lastEdgeNs with
  | some prev => edgeNs - prev
  | none => 0

def softErr (n : NaivePps) (edgeNs : Nat) : Int :=
  if 0 < n.outGen then foldPhaseNs n.outSubsecNs.toNat (edgeNs % 1000000000 : Nat) else 0

def freqMppb (stage : Nat) (n : NaivePps) : Int :=
  if applyFreq stage then n.clock.steeringFreqMppb else 0

def step (stage : Nat) (n : NaivePps) : NaiveEvent → Option (List NaiveEffect × NaivePps)
  | .gps edgeNs =>
    -- an edge with no interval before it is not told of
    some (if n.intervalNs edgeNs = 0 then [] else [.phase edgeNs (n.softErr edgeNs)],
      { n with
        lastEdgeNs := some edgeNs
        clock := (n.clock.onPpsEdge ⟨0, n.intervalNs edgeNs, edgeNs⟩ edgeNs).2 })
  | .sentence s => some ([], { n with clock := (n.clock.feedNmea s).2 })
  | .rise edgeNs =>
    let period := n.dither.nextTicks tickHz (n.freqMppb stage)
    some ([.rose n.nextRise edgeNs (n.freqMppb stage)],
      { n with
        dither := period.2
        nextRise := n.nextRise + period.1.toNat
        outSubsecNs := .ofNat (edgeNs % 1000000000)
        outGen := n.outGen + 1 })

def run (stage : Nat) (n : NaivePps) (events : List NaiveEvent) :
    Option (List NaiveEffect × NaivePps) := Reactor.run (step stage) n events

/-- The frequencies that were put on, in order. -/
def freqs (fx : List NaiveEffect) : List Int := fx.filterMap fun
  | .rose _ _ freq => some freq
  | .phase .. => none

/-- The last edge of the output. -/
def lastRise (fx : List NaiveEffect) : Option Nat := (fx.filterMap fun
  | .rose _ edgeNs _ => some edgeNs
  | .phase .. => none).getLast?

end NaivePps

/-- The tick that a total of frequencies is due at. -/
def naiveDeadline (now : Nat) (freqs : List Int) : Int :=
  now + freqs.length * 1000000 + freqs.sum / 1000000

/-- The ticks that are due, and the fraction left over is carried. -/
theorem NaivePeriodDither.nextTicks_eq (h : freq.natAbs ≤ 1000254000) (total : Int) :
    NaivePeriodDither.nextTicks ⟨total * 1000000 % 1000000000000⟩ tickHz freq =
      (.ofInt (1000000 + ((total + freq) / 1000000 - total / 1000000)),
        ⟨(total + freq) * 1000000 % 1000000000000⟩) ∧
    (((UInt32.ofInt (1000000 + ((total + freq) / 1000000 - total / 1000000))).toNat : Int) =
      1000000 + ((total + freq) / 1000000 - total / 1000000)) := by
  have htick : ((tickHz.toNat : Nat) : Int) = 1000000 := rfl
  have hproduct : wrap64 (1000000 * freq) = 1000000 * freq := wrap64_of_natAbs_lt (by omega)
  have hacc : wrap64 (total * 1000000 % 1000000000000 + 1000000 * freq) =
      total * 1000000 % 1000000000000 + 1000000 * freq := wrap64_of_natAbs_lt (by omega)
  have hperiod : wrap64 (1000000 + (total * 1000000 % 1000000000000 + 1000000 * freq) /
      1000000000000) = 1000000 + ((total + freq) / 1000000 - total / 1000000) := by
    rw [wrap64_of_natAbs_lt (by omega)]
    omega
  constructor
  · simp only [nextTicks, htick, hproduct, hacc, hperiod, Prod.mk.injEq, true_and,
      NaivePeriodDither.mk.injEq]
    omega
  · rw [UInt32.ofInt, UInt32.toNat_ofNat']
    omega

namespace NaivePps

variable {n n' : NaivePps} {fx fx' : List NaiveEffect}

/-- What one step can be. -/
inductive Step (stage : Nat) (n : NaivePps) : NaiveEvent → List NaiveEffect → NaivePps → Prop where
  | gps {told : List NaiveEffect} (edgeNs : Nat)
      (htold : ∀ o ∈ told, o = .phase edgeNs (n.softErr edgeNs)) (hone : told.length ≤ 1) :
      Step stage n (.gps edgeNs) told
        { n with
          lastEdgeNs := some edgeNs
          clock := (n.clock.onPpsEdge ⟨0, n.intervalNs edgeNs, edgeNs⟩ edgeNs).2 }
  | sentence (s : List UInt8) : Step stage n (.sentence s) []
      { n with clock := (n.clock.feedNmea s).2 }
  | rise (edgeNs : Nat) : Step stage n (.rise edgeNs)
      [.rose n.nextRise edgeNs (n.freqMppb stage)]
      { n with
        dither := (n.dither.nextTicks tickHz (n.freqMppb stage)).2
        nextRise := n.nextRise + (n.dither.nextTicks tickHz (n.freqMppb stage)).1.toNat
        outSubsecNs := .ofNat (edgeNs % 1000000000)
        outGen := n.outGen + 1 }

theorem step_cases (h : n.step stage e = some (fx, n')) : Step stage n e fx n' := by
  cases e with
  | gps edgeNs =>
    simp only [step, Option.some.injEq, Prod.mk.injEq] at h
    obtain ⟨rfl, rfl⟩ := h
    split
    · exact .gps edgeNs (fun o ho => absurd ho List.not_mem_nil) (Nat.zero_le 1)
    · exact .gps edgeNs (fun o ho => List.mem_singleton.1 ho) (Nat.le_refl 1)
  | sentence s =>
    simp only [step, Option.some.injEq, Prod.mk.injEq] at h
    obtain ⟨rfl, rfl⟩ := h
    exact .sentence s
  | rise edgeNs =>
    simp only [step, Option.some.injEq, Prod.mk.injEq] at h
    obtain ⟨rfl, rfl⟩ := h
    exact .rise edgeNs

theorem freqMppb_bound (h : n.clock.clock.clock.Reachable) (stage : Nat) :
    (n.freqMppb stage).natAbs ≤ 1000254000 := by
  unfold freqMppb
  split
  · exact h.steering
  · exact Nat.zero_le _

/-- What the output task has kept of the edges so far. -/
structure Keeps (now : Nat) (fx : List NaiveEffect) (n : NaivePps) : Prop where
  clock : n.clock.clock.clock.Reachable
  dither : n.dither = ⟨(freqs fx).sum * 1000000 % 1000000000000⟩
  nextRise : (n.nextRise : Int) = naiveDeadline now (freqs fx)
  outGen : n.outGen = .ofNat (freqs fx).length
  risen : ∀ rise, lastRise fx = some rise →
    0 < (freqs fx).length ∧ n.outSubsecNs.toNat = rise % 1000000000

/-- What an effect says, of the effects before it. An edge is due at the whole ticks of all the
frequencies so far, and a phase is what the two edges are apart, whole seconds taken off. -/
def Sound (stage now : Nat) (pre : List NaiveEffect) : NaiveEffect → Prop
  | .rose deadline _ freq => (deadline : Int) = naiveDeadline now (freqs pre) ∧
      freq.natAbs ≤ 1000254000 ∧ (applyFreq stage = false → freq = 0)
  | .phase edgeNs softErr => (freqs pre).length < 4294967296 →
      ∀ rise, lastRise pre = some rise → Folds 1000000000 ((rise : Int) - edgeNs) softErr

theorem freqs_append : freqs (fx ++ fx') = freqs fx ++ freqs fx' := List.filterMap_append ..

/-- Effects that are phases alone leave the output's record as it is. -/
theorem lastRise_phases (fx : List NaiveEffect)
    (h : ∀ o ∈ fx', ∃ edgeNs err, o = .phase edgeNs err) :
    freqs (fx ++ fx') = freqs fx ∧ lastRise (fx ++ fx') = lastRise fx := by
  have hfreqs : freqs fx' = [] := by
    refine List.filterMap_eq_nil_iff.2 fun o ho => ?_
    obtain ⟨edgeNs, err, rfl⟩ := h o ho
    rfl
  have hrises : fx'.filterMap (fun
      | .rose _ edgeNs _ => some edgeNs
      | .phase .. => none) = [] := by
    refine List.filterMap_eq_nil_iff.2 fun o ho => ?_
    obtain ⟨edgeNs, err, rfl⟩ := h o ho
    rfl
  refine ⟨by rw [freqs_append, hfreqs, List.append_nil], ?_⟩
  rw [lastRise, List.filterMap_append, hrises, List.append_nil]
  rfl

theorem Keeps.quiet (h : Keeps now fx n) (hclock : g.clock.clock.Reachable)
    (hphases : ∀ o ∈ fx', ∃ edgeNs err, o = .phase edgeNs err) :
    Keeps now (fx ++ fx') { n with lastEdgeNs := last, clock := g } := by
  obtain ⟨hfreqs, hlast⟩ := lastRise_phases fx hphases
  exact {
    clock := hclock
    dither := by rw [hfreqs]; exact h.dither
    nextRise := by rw [hfreqs]; exact h.nextRise
    outGen := by rw [hfreqs]; exact h.outGen
    risen := by rw [hfreqs, hlast]; exact h.risen }

theorem Keeps.step (h : Keeps now fx n) (hs : Step stage n e fx' n') :
    Keeps now (fx ++ fx') n' := by
  cases hs with
  | gps edgeNs htold hone =>
    exact h.quiet (PpsGpsdo.reachable_onPpsEdge h.clock _ _) fun o ho => ⟨_, _, htold o ho⟩
  | sentence s =>
    exact h.quiet (PpsGpsdo.reachable_feedNmea h.clock s) fun o ho => absurd ho List.not_mem_nil
  | rise edgeNs =>
    obtain ⟨hticks, hperiod⟩ := NaivePeriodDither.nextTicks_eq (freqMppb_bound h.clock stage)
      (freqs fx).sum
    have hfreqs : freqs (fx ++ [.rose n.nextRise edgeNs (n.freqMppb stage)]) =
        freqs fx ++ [n.freqMppb stage] := freqs_append
    constructor
    · exact h.clock
    · rw [hfreqs, List.sum_append, List.sum_singleton, h.dither, hticks]
    · have hnext := h.nextRise
      rw [hfreqs, h.dither, hticks]
      simp only [naiveDeadline, List.sum_append, List.sum_singleton, List.length_append,
        List.length_singleton] at hnext ⊢
      omega
    · rw [hfreqs, List.length_append, List.length_singleton, UInt32.ofNat_add, ← h.outGen]
      rfl
    · intro rise hrise
      rw [lastRise, List.filterMap_append] at hrise
      obtain rfl : edgeNs = rise := by
        simpa only [List.filterMap_cons_some, List.filterMap_nil, List.getLast?_concat,
          Option.some.injEq] using hrise
      rw [hfreqs, List.length_append]
      refine ⟨Nat.succ_pos _, ?_⟩
      rw [UInt32.toNat_ofNat']
      omega

/-- The phase that is told of an edge, once there is an edge of the output. -/
theorem Keeps.softErr (h : Keeps now fx n) (hfew : (freqs fx).length < 4294967296)
    (hrise : lastRise fx = some rise) (edgeNs : Nat) :
    Folds 1000000000 ((rise : Int) - edgeNs) (n.softErr edgeNs) := by
  obtain ⟨hpos, hsubsec⟩ := h.risen rise hrise
  have hgen : 0 < n.outGen := by
    rw [h.outGen, UInt32.lt_iff_toNat_lt, UInt32.toNat_ofNat']
    exact lt_of_lt_of_eq hpos (Nat.mod_eq_of_lt hfew).symm
  rw [NaivePps.softErr, if_pos hgen, hsubsec]
  have hfold : Folds 1000000000 ((rise % 1000000000 : Nat) - (edgeNs % 1000000000 : Nat))
      (foldPhaseNs (rise % 1000000000 : Nat) (edgeNs % 1000000000 : Nat)) :=
    foldPhaseNs_folds ⟨by omega, by omega⟩
  refine ⟨hfold.low, hfold.high, ?_⟩
  have hdvd := hfold.dvd
  omega

theorem Keeps.sound (h : Keeps now fx n) (hs : Step stage n e fx' n')
    (hsplit : fx' = pre ++ o :: post) : Sound stage now (fx ++ pre) o := by
  cases hs with
  | gps edgeNs htold hone =>
    obtain rfl := htold o (hsplit ▸ List.mem_append_right pre List.mem_cons_self)
    obtain rfl : pre = [] := by
      rw [hsplit, List.length_append, List.length_cons] at hone
      exact List.length_eq_zero_iff.1 (by omega)
    rw [List.append_nil]
    exact fun hfew rise hrise => h.softErr hfew hrise edgeNs
  | sentence s => cases pre <;> cases hsplit
  | rise edgeNs =>
    obtain ⟨rfl, ho⟩ | ⟨-, hnil⟩ := List.singleton_eq_append_iff.1 hsplit
    · obtain ⟨rfl, -⟩ := List.cons.inj ho
      rw [List.append_nil]
      refine ⟨h.nextRise, freqMppb_bound h.clock stage, fun hstage => ?_⟩
      rw [freqMppb, hstage]
      rfl
    · cases hnil

theorem keeps_start (now : Nat) : Keeps now [] (start now) where
  clock := ⟨[.setTempFfEnable false, .setTempFfParams 4 7 64, .setTempFfLag 1536 2 2], rfl⟩
  dither := rfl
  nextRise := by simp [naiveDeadline, freqs, start]
  outGen := rfl
  risen := fun _ hrise => nomatch hrise

/-- In every run, however late the timer and the interrupts are, the output's deadlines drift from
the frequencies put on by less than a tick, and the phases told are of the output's last edge. -/
theorem on_schedule (h : run stage (start now) events = some (fx, n)) (pre post : List NaiveEffect)
    (o : NaiveEffect) (hsplit : fx = pre ++ o :: post) : Sound stage now pre o := by
  refine (Reactor.run_effects (P := Keeps now) (Q := Sound stage now) ?_ (keeps_start now) h).2
    pre o post hsplit
  intro fx n e fx' n' hp he
  have hs := step_cases he
  exact ⟨hp.step hs, fun pre o post hsplit => hp.sound hs hsplit⟩

/-- Two edges of the output, 3 and 4 µs late, about two of the reference. -/
theorem on_schedule_quarter_second :
    ∃ n, run 1 (start 5000000) [.rise 5000003000, .gps 5250000000, .rise 6000004000,
        .gps 6250000000] = some ([.rose 5000000 5000003000 0, .rose 6000000 6000004000 0,
          .phase 6250000000 (-249996000)], n) ∧
      Sound 1 5000000 [.rose 5000000 5000003000 0, .rose 6000000 6000004000 0]
        (.phase 6250000000 (-249996000)) := by
  obtain ⟨n, hrun⟩ : ∃ n, run 1 (start 5000000) [.rise 5000003000, .gps 5250000000,
      .rise 6000004000, .gps 6250000000] = some ([.rose 5000000 5000003000 0,
        .rose 6000000 6000004000 0, .phase 6250000000 (-249996000)], n) := ⟨_, rfl⟩
  exact ⟨n, hrun,
    on_schedule hrun [.rose 5000000 5000003000 0, .rose 6000000 6000004000 0] [] _ rfl⟩

end NaivePps

end PicoGnss
