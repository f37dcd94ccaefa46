import PicoGnss.Lib.FixedWidth
import PicoGnss.Lib.Mealy

/-! Which second each iteration of the broadcast loop waits for. -/

namespace PicoGnss
set_option autoImplicit true

open FixedWidth

def nlpIntervalUs : Nat := 16000

/-- What one iteration works out from its reading of the disciplined clock, and whether it goes on
to build a packet for the second or sends a link pulse and asks again. -/
structure NtpIteration where
  targetUnixNs : Int
  aims : Bool
deriving DecidableEq

/-- The next whole second that has not been served. -/
def nextTargetNs (lastTargetNs now : Int) : Int :=
  let target := wrap64 ((now / 1000000000 + 1) * 1000000000)
  if target ≤ lastTargetNs then wrap64 (lastTargetNs + 1000000000) else target

/-- One iteration of the loop; an untrusted source or a missing epoch ends it at once. -/
def ntpIteration (lastTargetNs : Int) : Option Int → Option NtpIteration × Int
  | none => (none, lastTargetNs)
  | some now =>
    let target := nextTargetNs lastTargetNs now
    if wrap64 (target - now) > nlpIntervalUs * 1000 then (some ⟨target, false⟩, lastTargetNs)
    else (some ⟨target, true⟩, target)

def i64Min : Int := -9223372036854775808

/-- The last second aimed at before iteration `i`. -/
def lastTargetAt (readings : List (Option Int)) (i : Nat) : Int :=
  Mealy.final ntpIteration i64Min (readings.take i)

def iterationAt (readings : List (Option Int)) (i : Nat) : Option NtpIteration :=
  ((Mealy.outputs ntpIteration i64Min readings)[i]?).join

/-- A whole second after the reading, and no more than two seconds after it. -/
def InWindow (target now : Int) : Prop :=
  target % 1000000000 = 0 ∧ now < target ∧ target ≤ now + 2000000000

instance : Decidable (InWindow target now) := by
  unfold InWindow
  infer_instance

/-- The last second aimed at is no more than a second ahead of the reading, and neither is in the
last second of the signed nanoseconds. -/
def InStep (lastTargetNs now : Int) : Prop :=
  lastTargetNs ≤ now + 1000000000 ∧ lastTargetNs < 9223372036000000000 ∧ now < 9223372036000000000

instance : Decidable (InStep last now) := by
  unfold InStep
  infer_instance

/-- The first whole second that does not fit, wrapped. -/
def wrappedTargetNs : Int := -9223372036709551616

/-- What the loop can have aimed at: a whole second, or the wrap of one. -/
def Aimed (lastTargetNs : Int) : Prop :=
  InI64 lastTargetNs ∧ (lastTargetNs % 1000000000 = 0 ∨ lastTargetNs ≤ wrappedTargetNs)

/-- What the loop can take for its target. -/
inductive NextTarget (last now : Int) : Int → Prop where
  | next : now < 9223372036000000000 → last < (now / 1000000000 + 1) * 1000000000 →
      NextTarget last now ((now / 1000000000 + 1) * 1000000000)
  | served : now < 9223372036000000000 → (now / 1000000000 + 1) * 1000000000 ≤ last →
      last < 9223372036000000000 → NextTarget last now (last + 1000000000)
  | full : now < 9223372036000000000 → last = 9223372036000000000 →
      NextTarget last now wrappedTargetNs
  | late : 9223372036000000000 ≤ now → NextTarget last now wrappedTargetNs
  | lateServed : 9223372036000000000 ≤ now → wrappedTargetNs ≤ last →
      last < 9223372036000000000 → NextTarget last now (last + 1000000000)

theorem Aimed.next (h : Aimed last) : last < 9223372036000000000 ∧ InI64 (last + 1000000000) ∨
    last = 9223372036000000000 ∧ wrap64 (last + 1000000000) = wrappedTargetNs := by
  unfold Aimed InI64 wrappedTargetNs at h
  by_cases hl : last < 9223372036000000000
  · left
    unfold InI64
    omega
  · right
    have hmax : last = 9223372036000000000 := by omega
    rw [hmax]
    exact ⟨rfl, rfl⟩

theorem NextTarget.of_nextTargetNs (hlast : Aimed last) (hnow : InI64 now) :
    NextTarget last now (nextTargetNs last now) := by
  unfold InI64 at hnow
  by_cases hn : now < 9223372036000000000
  · have hnext : InI64 ((now / 1000000000 + 1) * 1000000000) := by
      unfold InI64
      omega
    rw [nextTargetNs, wrap64_of_inI64 hnext]
    by_cases hle : (now / 1000000000 + 1) * 1000000000 ≤ last
    · simp only [if_pos hle]
      obtain ⟨hl, hin⟩ | ⟨hmax, hwrap⟩ := hlast.next
      · rw [wrap64_of_inI64 hin]
        exact .served hn hle hl
      · rw [hwrap]
        exact .full hn hmax
    · simp only [if_neg hle]
      exact .next hn (Int.not_le.1 hle)
  · have hlate := Int.not_lt.1 hn
    have hsecond : now / 1000000000 = 9223372036 := by omega
    have hwrapped : wrap64 ((now / 1000000000 + 1) * 1000000000) = wrappedTargetNs := by
      rw [hsecond]
      rfl
    rw [nextTargetNs, hwrapped]
    by_cases hle : wrappedTargetNs ≤ last
    · simp only [if_pos hle]
      obtain ⟨hl, hin⟩ | ⟨-, hwrap⟩ := hlast.next
      · rw [wrap64_of_inI64 hin]
        exact .lateServed hlate hle hl
      · rw [hwrap]
        exact .late hlate
    · simp only [if_neg hle]
      exact .late hlate

theorem NextTarget.window (h : NextTarget last now target) (hlast : Aimed last)
    (hnow : InI64 now) : InWindow target now ↔ InStep last now := by
  unfold Aimed InI64 at hlast
  unfold InI64 at hnow
  have hwrapped : wrappedTargetNs = -9223372036709551616 := rfl
  unfold InWindow InStep
  cases h with
  | next | served | full | late | lateServed => omega

theorem NextTarget.aimed (h : NextTarget last now target) (hlast : Aimed last) (hnow : InI64 now)
    (hwait : wrap64 (target - now) ≤ 16000000) : Aimed target := by
  unfold Aimed InI64 at hlast ⊢
  unfold InI64 at hnow
  have hwrapped : wrappedTargetNs = -9223372036709551616 := rfl
  cases h with
  | next | served | full | late => omega
  | lateServed hlate hle hl =>
    unfold wrap64 at hwait
    omega

/-- A clock in step aims at later and later seconds. -/
theorem NextTarget.lt (h : NextTarget last now target) (hstep : InStep last now) :
    last < target := by
  unfold InStep at hstep
  cases h with
  | next | served | full | late | lateServed => omega

/-- What an iteration does with its target. -/
theorem ntpIteration_cases (last now : Int) :
    (wrap64 (nextTargetNs last now - now) ≤ 16000000 ∧
      ntpIteration last (some now) = (some ⟨nextTargetNs last now, true⟩, nextTargetNs last now)) ∨
    ntpIteration last (some now) = (some ⟨nextTargetNs last now, false⟩, last) := by
  have hinterval : ((nlpIntervalUs : Int) * 1000) = 16000000 := rfl
  by_cases hwait : wrap64 (nextTargetNs last now - now) > nlpIntervalUs * 1000
  · right
    simp only [ntpIteration, if_pos hwait]
  · left
    rw [hinterval] at hwait
    refine ⟨Int.not_lt.1 hwait, ?_⟩
    rw [← hinterval] at hwait
    simp only [ntpIteration, if_neg hwait]

/-- The readings are words. -/
def Readings (readings : List (Option Int)) : Prop :=
  ∀ now, some now ∈ readings → InI64 now

theorem aimed_lastTargetAt (h : Readings readings) (i : Nat) : Aimed (lastTargetAt readings i) := by
  have hstep : ∀ (last : Int) (x : Option Int), Aimed last → (∀ now, x = some now → InI64 now) →
      Aimed (ntpIteration last x).2 := by
    intro last x hlast hx
    cases x with
    | none => exact hlast
    | some now =>
      have hnow := hx now rfl
      obtain ⟨hwait, heq⟩ | heq := ntpIteration_cases last now
      · rw [heq]
        exact (NextTarget.of_nextTargetNs hlast hnow).aimed hlast hnow hwait
      · rw [heq]
        exact hlast
  apply Mealy.invariant_take (P := Aimed) hstep
  · exact ⟨by decide, .inr (by decide)⟩
  · intro x hx now hnow
    exact h now (hnow ▸ hx)

theorem iterationAt_eq (h : readings[i]? = some (some now)) :
    iterationAt readings i = (ntpIteration (lastTargetAt readings i) (some now)).1 ∧
      lastTargetAt readings (i + 1) = (ntpIteration (lastTargetAt readings i) (some now)).2 := by
  constructor
  · rw [iterationAt, Mealy.getElem?_outputs, h]
    rfl
  · exact Mealy.final_take_succ ntpIteration _ h

theorem iterationAt_target (h : readings[i]? = some (some now)) :
    ∃ aims, iterationAt readings i =
        some ⟨nextTargetNs (lastTargetAt readings i) now, aims⟩ ∧
      lastTargetAt readings (i + 1) = if aims = true then
        nextTargetNs (lastTargetAt readings i) now else lastTargetAt readings i := by
  obtain ⟨hiter, hlast⟩ := iterationAt_eq h
  rw [hiter, hlast]
  obtain ⟨-, heq⟩ | heq := ntpIteration_cases (lastTargetAt readings i) now
  · rw [heq]
    exact ⟨true, rfl, rfl⟩
  · rw [heq]
    exact ⟨false, rfl, rfl⟩

/-- Iteration `i` reads the clock and finds the last second aimed at in step with it. -/
def InStepAt (readings : List (Option Int)) (i : Nat) : Prop :=
  ∀ now, readings[i]? = some (some now) → InStep (lastTargetAt readings i) now

theorem lastTargetAt_mono (h : Readings readings) (hstep : ∀ i, InStepAt readings i)
    (hij : i ≤ j) : lastTargetAt readings i ≤ lastTargetAt readings j := by
  induction j, hij using Nat.le_induction with
  | base => exact Int.le_refl _
  | succ j hij ih =>
    cases hx : readings[j]? with
    | none =>
      have hsame : lastTargetAt readings (j + 1) = lastTargetAt readings j := by
        rw [lastTargetAt, List.take_add_one, hx, Option.toList_none, List.append_nil]
        rfl
      rw [hsame]
      exact ih
    | some x =>
      cases x with
      | none =>
        have hsame : lastTargetAt readings (j + 1) = lastTargetAt readings j :=
          Mealy.final_take_succ ntpIteration _ hx
        rw [hsame]
        exact ih
      | some now =>
        have hlt := (NextTarget.of_nextTargetNs (aimed_lastTargetAt h j)
          (h now (List.mem_of_getElem? hx))).lt (hstep j now hx)
        obtain ⟨aims, -, hlast⟩ := iterationAt_target hx
        rw [hlast]
        split
        · omega
        · exact ih

/-- Every target lies in its window, and over a stretch of readings that do not decrease no second
is aimed at twice. -/
structure SchedulesSeconds (readings : List (Option Int)) : Prop where
  window : ∀ i now it, readings[i]? = some (some now) → iterationAt readings i = some it →
    InWindow it.targetUnixNs now
  once : ∀ i j it it', i < j →
    (∀ a b x y, i ≤ a → a ≤ b → b ≤ j → readings[a]? = some (some x) →
      readings[b]? = some (some y) → x ≤ y) →
    iterationAt readings i = some it → iterationAt readings j = some it' →
    it.aims = true → it'.aims = true → it.targetUnixNs ≠ it'.targetUnixNs

theorem reading_of_iterationAt (h : iterationAt readings i = some it) :
    ∃ now, readings[i]? = some (some now) := by
  rw [iterationAt, Mealy.getElem?_outputs] at h
  cases hx : readings[i]? with
  | none =>
    rw [hx] at h
    cases h
  | some x =>
    cases x with
    | none =>
      rw [hx] at h
      cases h
    | some now => exact ⟨now, rfl⟩

theorem window_iff (h : Readings readings) (hx : readings[i]? = some (some now)) :
    (∀ it, iterationAt readings i = some it → InWindow it.targetUnixNs now) ↔
      InStep (lastTargetAt readings i) now := by
  have hlast := aimed_lastTargetAt h i
  have hnow := h now (List.mem_of_getElem? hx)
  have hwindow := (NextTarget.of_nextTargetNs hlast hnow).window hlast hnow
  obtain ⟨aims, hit, -⟩ := iterationAt_target hx
  rw [← hwindow, hit]
  constructor
  · intro hall
    exact hall _ rfl
  · intro hw it heq
    cases heq
    exact hw

theorem aimed_once (h : Readings readings) (hstep : ∀ i, InStepAt readings i) (hij : i < j)
    (hi : iterationAt readings i = some it) (hj : iterationAt readings j = some it')
    (hai : it.aims = true) : it.targetUnixNs < it'.targetUnixNs := by
  obtain ⟨now, hx⟩ := reading_of_iterationAt hi
  obtain ⟨now', hy⟩ := reading_of_iterationAt hj
  obtain ⟨aims, hit, hlast⟩ := iterationAt_target hx
  obtain ⟨aims', hit', -⟩ := iterationAt_target hy
  cases hi.symm.trans hit
  cases hj.symm.trans hit'
  rw [if_pos hai] at hlast
  have hmono := lastTargetAt_mono h hstep (Nat.succ_le_of_lt hij)
  rw [hlast] at hmono
  have hlt := (NextTarget.of_nextTargetNs (aimed_lastTargetAt h j)
    (h now' (List.mem_of_getElem? hy))).lt (hstep j now' hy)
  exact Int.lt_of_le_of_lt hmono hlt

/-- Each target is in its window exactly when the last second aimed at was in step with the
reading, and the loop schedules a whole run right exactly when it stays in step. -/
theorem schedules_seconds_iff (readings : List (Option Int)) (h : Readings readings) :
    (∀ i now, readings[i]? = some (some now) →
      ((∀ it, iterationAt readings i = some it → InWindow it.targetUnixNs now) ↔
        InStep (lastTargetAt readings i) now)) ∧
    (SchedulesSeconds readings ↔ ∀ i, InStepAt readings i) := by
  refine ⟨fun i now hx => window_iff h hx, ?_⟩
  constructor
  · intro hall i now hx
    exact (window_iff h hx).1 fun it hit => hall.window i now it hx hit
  · intro hstep
    refine ⟨?_, ?_⟩
    · intro i now it hx hit
      exact (window_iff h hx).2 (hstep i now hx) it hit
    · intro i j it it' hij _ hi hj hai _
      exact Int.ne_of_lt (aimed_once h hstep hij hi hj hai)

/-- A second served on a wrong date, and a reading three years earlier once it is corrected. -/
def correctedReadings : List (Option Int) := [some 1893455999990000000, some 1787020967250000000]

theorem waits_for_wrong_second :
    ¬∀ readings, Readings readings → SchedulesSeconds readings := by
  intro h
  have hreadings : Readings correctedReadings := by
    intro now hnow
    simp only [correctedReadings, List.mem_cons, Option.some.injEq, List.not_mem_nil,
      or_false] at hnow
    obtain rfl | rfl := hnow <;> decide
  have hwindow := (h correctedReadings hreadings).window 1 1787020967250000000
    ⟨1893456001000000000, false⟩ rfl (by decide +kernel)
  exact absurd hwindow (by decide)

/-- A second aimed at early and read again before it has come, with the epoch lost in between. -/
theorem schedules_seconds_twice_before :
    SchedulesSeconds [some 1787020966990000000, none, some 1787020966999900000] := by
  have hreadings : Readings [some 1787020966990000000, none, some 1787020966999900000] := by
    intro now hnow
    simp only [List.mem_cons, Option.some.injEq, List.not_mem_nil, or_false, reduceCtorEq,
      false_or] at hnow
    obtain rfl | rfl := hnow <;> decide
  apply (schedules_seconds_iff _ hreadings).2.2
  intro i now hx
  match i with
  | 0 =>
    cases hx
    decide +kernel
  | 1 => cases hx
  | 2 =>
    cases hx
    decide +kernel
  | i + 3 => cases hx

end PicoGnss
