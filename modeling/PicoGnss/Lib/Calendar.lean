import Mathlib.Data.Int.ConditionallyCompleteOrder
import Mathlib.Data.Prod.Lex
import Mathlib.Logic.Function.Iterate
import Mathlib.Order.ConditionallyCompleteLattice.Basic
import Mathlib.Order.Monotone.Basic

/-! The proleptic Gregorian calendar, and the count of its days and seconds. -/

namespace Calendar
set_option autoImplicit true

def Leap (y : Int) : Prop := (y % 4 = 0 ∧ y % 100 ≠ 0) ∨ y % 400 = 0

instance : DecidablePred Leap := fun y => by unfold Leap; infer_instance

def monthLength (y : Int) (m : Nat) : Nat :=
  match m with
  | 1 | 3 | 5 | 7 | 8 | 10 | 12 => 31
  | 4 | 6 | 9 | 11 => 30
  | 2 => if Leap y then 29 else 28
  | _ => 0

/-- A day of the calendar. -/
@[ext] structure Date where
  year : Int
  month : Nat
  day : Nat
  month_mem : 1 ≤ month ∧ month ≤ 12
  day_mem : 1 ≤ day ∧ day ≤ monthLength year month
deriving DecidableEq

theorem monthLength_pos (y : Int) (hm : 1 ≤ m ∧ m ≤ 12) : 1 ≤ monthLength y m := by
  obtain ⟨hlow, hhigh⟩ := hm
  unfold monthLength
  split
  case h_12 => split <;> decide
  case h_13 =>
    simp only [imp_false] at *
    omega
  all_goals decide

theorem january_mem : 1 ≤ 1 ∧ 1 ≤ 12 := by decide

namespace Date

def next (d : Date) : Date :=
  if h : d.day < monthLength d.year d.month then
    ⟨d.year, d.month, d.day + 1, d.month_mem, Nat.le_add_left 1 _, h⟩
  else if hm : d.month < 12 then
    ⟨d.year, d.month + 1, 1, ⟨Nat.le_add_left 1 _, hm⟩, Nat.le_refl 1,
      monthLength_pos _ ⟨Nat.le_add_left 1 _, hm⟩⟩
  else ⟨d.year + 1, 1, 1, january_mem, Nat.le_refl 1, (by decide : 1 ≤ 31)⟩

def prev (d : Date) : Date :=
  if h : 1 < d.day then
    ⟨d.year, d.month, d.day - 1, d.month_mem, Nat.le_sub_one_of_lt h,
      Nat.le_trans (Nat.sub_le ..) d.day_mem.2⟩
  else if hm : 1 < d.month then
    have hmonth : 1 ≤ d.month - 1 ∧ d.month - 1 ≤ 12 := by
      have hle := d.month_mem.2
      omega
    ⟨d.year, d.month - 1, monthLength d.year (d.month - 1), hmonth, monthLength_pos _ hmonth,
      Nat.le_refl _⟩
  else ⟨d.year - 1, 12, 31, by decide, by decide, Nat.le_refl 31⟩

/-- The place of a date in the lexicographic order. -/
def key (d : Date) : ℤ ×ₗ ℕ ×ₗ ℕ := toLex (d.year, toLex (d.month, d.day))

theorem key_injective : Function.Injective key := by
  intro d e h
  have hpair := toLex.injective h
  have hrest := toLex.injective (Prod.mk.inj hpair).2
  exact Date.ext (Prod.mk.inj hpair).1 (Prod.mk.inj hrest).1 (Prod.mk.inj hrest).2

instance : LinearOrder Date := LinearOrder.lift' key key_injective

theorem lt_iff {d e : Date} : d < e ↔ d.year < e.year ∨ d.year = e.year ∧
    (d.month < e.month ∨ d.month = e.month ∧ d.day < e.day) := by
  change key d < key e ↔ _
  rw [Prod.Lex.lt_iff]
  apply or_congr Iff.rfl
  apply and_congr Iff.rfl
  exact Prod.Lex.lt_iff

end Date

/-- The days of the year before a month. -/
def daysBeforeMonth (y : Int) : Nat → Nat
  | 0 => 0
  | m + 1 => daysBeforeMonth y m + monthLength y m

/-- The days from the first day of year 1 to the first day of a year. -/
def daysBeforeYear (y : Int) : Int :=
  365 * (y - 1) + (y - 1) / 4 - (y - 1) / 100 + (y - 1) / 400

theorem daysBeforeMonth_mono (y : Int) : Monotone (daysBeforeMonth y) :=
  monotone_nat_of_le_succ fun _ => Nat.le_add_right _ _

theorem daysBeforeMonth_year (y : Int) :
    daysBeforeMonth y 13 = if Leap y then 366 else 365 := by
  simp only [daysBeforeMonth, monthLength]
  split <;> rfl

theorem daysBeforeMonth_le (y : Int) (hm : m ≤ 13) : daysBeforeMonth y m ≤ 366 := by
  have hle := daysBeforeMonth_mono y hm
  rw [daysBeforeMonth_year] at hle
  split at hle <;> omega

theorem daysBeforeYear_succ (y : Int) :
    daysBeforeYear (y + 1) = daysBeforeYear y + daysBeforeMonth y 13 := by
  rw [daysBeforeMonth_year]
  unfold daysBeforeYear
  by_cases hleap : Leap y
  · rw [if_pos hleap]
    unfold Leap at hleap
    omega
  · rw [if_neg hleap]
    unfold Leap at hleap
    omega

theorem daysBeforeYear_mono : Monotone daysBeforeYear := by
  apply monotone_int_of_le_succ
  intro y
  rw [daysBeforeYear_succ]
  omega

namespace Date

/-- The days from the first day of year 1. -/
def dayNumber (d : Date) : Int :=
  daysBeforeYear d.year + daysBeforeMonth d.year d.month + d.day - 1

theorem dayNumber_next (d : Date) : d.next.dayNumber = d.dayNumber + 1 := by
  have hday := d.day_mem
  have hmonth := d.month_mem
  unfold next
  split
  · simp only [dayNumber]
    omega
  · rename_i hlast
    split
    · simp only [dayNumber, daysBeforeMonth]
      omega
    · have hdec : d.month = 12 := by omega
      have hyear : daysBeforeMonth d.year 13 =
          daysBeforeMonth d.year d.month + monthLength d.year d.month := by
        rw [hdec]
        rfl
      have hfirst : daysBeforeMonth (d.year + 1) 1 = 0 := rfl
      simp only [dayNumber, daysBeforeYear_succ, hyear, hfirst]
      omega

theorem dayNumber_prev (d : Date) : d.prev.dayNumber = d.dayNumber - 1 := by
  have hday := d.day_mem
  have hmonth := d.month_mem
  unfold prev
  split
  · simp only [dayNumber]
    omega
  · split
    · obtain ⟨m, hm⟩ : ∃ m, d.month = m + 1 := ⟨d.month - 1, by omega⟩
      simp only [dayNumber, hm, Nat.add_sub_cancel, daysBeforeMonth]
      omega
    · have hjan : d.month = 1 := by omega
      have hyear := daysBeforeYear_succ (d.year - 1)
      have hlast : daysBeforeMonth (d.year - 1) 13 = daysBeforeMonth (d.year - 1) 12 + 31 := rfl
      have hfirst : daysBeforeMonth d.year 1 = 0 := rfl
      rw [Int.sub_add_cancel, hlast] at hyear
      simp only [dayNumber, hjan, hyear, hfirst]
      omega

/-- What is left of the year fits before the next one. -/
theorem lt_dayNumber_year (d : Date) : d.dayNumber < daysBeforeYear (d.year + 1) := by
  have hmonth : d.month + 1 ≤ 13 := Nat.succ_le_succ d.month_mem.2
  have hle := daysBeforeMonth_mono d.year hmonth
  have hday := d.day_mem.2
  rw [daysBeforeMonth] at hle
  rw [dayNumber, daysBeforeYear_succ]
  omega

theorem dayNumber_strictMono : StrictMono dayNumber := by
  intro d e h
  have hday := d.day_mem.2
  have hday' := e.day_mem.1
  rcases lt_iff.1 h with hyear | ⟨hyear, hmonth | ⟨hmonth, hlt⟩⟩
  · have hle := daysBeforeYear_mono (Int.add_one_le_of_lt hyear)
    have hlast := d.lt_dayNumber_year
    rw [dayNumber] at hlast ⊢
    rw [dayNumber]
    omega
  · have hle := daysBeforeMonth_mono e.year (Nat.succ_le_of_lt hmonth)
    rw [daysBeforeMonth, ← hyear] at hle
    rw [dayNumber, dayNumber, ← hyear]
    omega
  · rw [dayNumber, dayNumber, hyear, hmonth]
    omega

/-- The date some days after another, or before it. -/
def after (d : Date) : Int → Date
  | .ofNat n => next^[n] d
  | .negSucc n => prev^[n + 1] d

theorem dayNumber_after (d : Date) (n : Int) : (d.after n).dayNumber = d.dayNumber + n := by
  cases n with
  | ofNat n =>
    rw [after]
    induction n with
    | zero => exact (Int.add_zero _).symm
    | succ n ih =>
      rw [Function.iterate_succ_apply', dayNumber_next, ih, Int.add_assoc]
      rfl
  | negSucc n =>
    rw [after]
    induction n with
    | zero => exact dayNumber_prev d
    | succ n ih =>
      rw [Function.iterate_succ_apply', dayNumber_prev, ih]
      omega

/-- Every date is the one its count leads to. -/
theorem after_sub (d e : Date) : d.after (e.dayNumber - d.dayNumber) = e := by
  apply dayNumber_strictMono.injective
  rw [dayNumber_after]
  omega

end Date

/-- A second of the calendar. -/
@[ext] structure DateTime where
  date : Date
  hour : Nat
  minute : Nat
  second : Nat
  hour_lt : hour < 24
  minute_lt : minute < 60
  second_lt : second < 60
deriving DecidableEq

namespace DateTime

def nextSecond (t : DateTime) : DateTime :=
  if h : t.second + 1 < 60 then { t with second := t.second + 1, second_lt := h }
  else if h : t.minute + 1 < 60 then
    { t with minute := t.minute + 1, second := 0, minute_lt := h, second_lt := by decide }
  else if h : t.hour + 1 < 24 then
    ⟨t.date, t.hour + 1, 0, 0, h, by decide, by decide⟩
  else ⟨t.date.next, 0, 0, 0, by decide, by decide, by decide⟩

/-- The place of a second in the lexicographic order. -/
def key (t : DateTime) : Date ×ₗ ℕ ×ₗ ℕ ×ₗ ℕ :=
  toLex (t.date, toLex (t.hour, toLex (t.minute, t.second)))

theorem key_injective : Function.Injective key := by
  intro t u h
  have hpair := Prod.mk.inj (toLex.injective h)
  have hrest := Prod.mk.inj (toLex.injective hpair.2)
  have hlast := Prod.mk.inj (toLex.injective hrest.2)
  exact DateTime.ext hpair.1 hrest.1 hlast.1 hlast.2

instance : LinearOrder DateTime := LinearOrder.lift' key key_injective

theorem lt_iff {t u : DateTime} : t < u ↔ t.date < u.date ∨ t.date = u.date ∧
    (t.hour < u.hour ∨ t.hour = u.hour ∧
      (t.minute < u.minute ∨ t.minute = u.minute ∧ t.second < u.second)) := by
  change key t < key u ↔ _
  rw [Prod.Lex.lt_iff]
  apply or_congr Iff.rfl
  apply and_congr Iff.rfl
  change toLex (t.hour, toLex (t.minute, t.second)) < toLex (u.hour, toLex (u.minute, u.second)) ↔ _
  rw [Prod.Lex.lt_iff]
  apply or_congr Iff.rfl
  apply and_congr Iff.rfl
  exact Prod.Lex.lt_iff

/-- The seconds from the start of year 1. -/
def secondNumber (t : DateTime) : Int :=
  t.date.dayNumber * 86400 + t.hour * 3600 + t.minute * 60 + t.second

theorem secondNumber_nextSecond (t : DateTime) :
    t.nextSecond.secondNumber = t.secondNumber + 1 := by
  have hhour := t.hour_lt
  have hminute := t.minute_lt
  have hsecond := t.second_lt
  unfold nextSecond
  split
  · simp only [secondNumber]
    omega
  · split
    · simp only [secondNumber]
      omega
    · split
      · simp only [secondNumber]
        omega
      · simp only [secondNumber, Date.dayNumber_next]
        omega

theorem secondNumber_strictMono : StrictMono secondNumber := by
  intro t u h
  have hhour := t.hour_lt
  have hminute := t.minute_lt
  have hsecond := t.second_lt
  unfold secondNumber
  rcases lt_iff.1 h with hdate | ⟨hdate, htime⟩
  · have hday := Date.dayNumber_strictMono hdate
    omega
  · rw [hdate]
    omega

end DateTime

end Calendar
