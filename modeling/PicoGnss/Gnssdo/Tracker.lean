import PicoGnss.Lib.FixedWidth

namespace PicoGnss
open FixedWidth
set_option autoImplicit true

structure PpsTrackerConfig where
  nominalUs : NonZeroU64
  toleranceUs : Nat

theorem nominalUs_pos : 0 < 1000000 := by decide

theorem nominalUs_lt : 1000000 < 18446744073709551616 := by decide

def PpsTrackerConfig.default : PpsTrackerConfig where
  nominalUs := ⟨1000000, nominalUs_pos, nominalUs_lt⟩
  toleranceUs := 50000

/-- The classification of one edge. -/
inductive PpsEvent where
  | first
  | locked (intervalUs : Nat)
  | irregular (intervalUs missed : Nat)
  | nonMonotonic (backwardsUs : Nat)
deriving DecidableEq

def PpsEvent.isLocked : PpsEvent → Bool
  | .locked _ => true
  | _ => false

structure PpsTracker where
  config : PpsTrackerConfig
  lastUs : Option Nat
  count : Nat

def PpsTracker.withConfig (config : PpsTrackerConfig) : PpsTracker where
  config := config
  lastUs := none
  count := 0

/-- The classification of an edge at `nowUs` when the previous one was at `prev`. -/
def PpsTracker.classify (t : PpsTracker) (prev nowUs : Nat) : PpsEvent :=
  let nominal := t.config.nominalUs.get
  if nowUs < prev then .nonMonotonic (prev - nowUs)
  else
    let interval := nowUs - prev
    let n := (interval + nominal / 2) % 18446744073709551616 / nominal
    if 1 ≤ n then
      let expected := n * nominal
      let error := if expected ≤ interval then interval - expected else expected - interval
      if error ≤ t.config.toleranceUs * n % 18446744073709551616 then
        if n = 1 then .locked interval else .irregular interval ((n - 1) % 4294967296)
      else .irregular interval 0
    else .irregular interval 0

def PpsTracker.record (t : PpsTracker) (nowUs : Nat) : PpsEvent × PpsTracker :=
  let event := match t.lastUs with
    | none => .first
    | some prev => t.classify prev nowUs
  (event, { t with lastUs := some nowUs, count := (t.count + 1) % 4294967296 })

@[simp] theorem PpsTracker.record_config (t : PpsTracker) (nowUs : Nat) :
    (t.record nowUs).2.config = t.config := rfl

@[simp] theorem PpsTracker.record_lastUs (t : PpsTracker) (nowUs : Nat) :
    (t.record nowUs).2.lastUs = some nowUs := rfl

theorem PpsEvent.isLocked_ite (p : Prop) [Decidable p] :
    (if p then PpsEvent.locked i else .irregular i m).isLocked = true ↔ p := by
  by_cases h : p <;> simp [h, isLocked]

theorem PpsEvent.not_isLocked_ite (p q : Prop) [Decidable p] [Decidable q] :
    ¬(if p then if q then PpsEvent.irregular i m else .irregular i 0
      else .irregular i 0).isLocked = true := by
  by_cases hp : p <;> by_cases hq : q <;> simp [hp, hq, isLocked]

/-- The default tolerance is 50 ms either side of one second. -/
theorem PpsTracker.classify_isLocked_iff (t : PpsTracker) (ht : t.config = .default)
    (hnow : nowUs - prev < 18446744073709051616) : (t.classify prev nowUs).isLocked ↔
      prev + 950000 ≤ nowUs ∧ nowUs ≤ prev + 1050000 := by
  have hnominal : t.config.nominalUs.get = 1000000 := by
    rw [ht]
    rfl
  have htolerance : t.config.toleranceUs = 50000 := by
    rw [ht]
    rfl
  simp only [classify, hnominal, htolerance]
  by_cases hback : nowUs < prev
  · rw [if_pos hback]
    simp only [PpsEvent.isLocked, Bool.false_eq_true, false_iff]
    omega
  rw [if_neg hback, Nat.mod_eq_of_lt (by omega)]
  by_cases hn : (nowUs - prev + 1000000 / 2) / 1000000 = 1
  · rw [hn, if_pos (Nat.le_refl 1), if_pos rfl, PpsEvent.isLocked_ite]
    split <;> omega
  · rw [if_neg hn, iff_false_intro (PpsEvent.not_isLocked_ite _ _), false_iff]
    omega

end PicoGnss
