import Mathlib.Tactic.IntervalCases
import PicoGnss.Lib.Calendar
import PicoGnss.RpPps.TimeSync

/-! The closed form of the conversion counts the days of the calendar. -/

namespace PicoGnss
open Calendar
set_option autoImplicit true

theorem monthLength_eq_daysInMonth (y : Nat) (m : Nat) :
    monthLength y m = daysInMonth m y := by
  have hleap : Leap y ↔ (y % 4 = 0 ∧ y % 100 ≠ 0) ∨ y % 400 = 0 := by
    unfold Leap
    omega
  match m with
  | 2 => exact if_congr hleap rfl rfl
  | 0 | 1 | 3 | 4 | 5 | 6 | 7 | 8 | 9 | 10 | 11 | 12 | _ + 13 => rfl

/-- The first day of 1970. -/
def unixEpoch : Date := ⟨1970, 1, 1, january_mem, by decide⟩

/-- In years that start in March, negative ones too, the eras are those of a floor division. -/
theorem era_days (y : Int) :
    let era := (if 0 ≤ y then y else y - 399).tdiv 400
    let yoe := y - era * 400
    era * 146097 + (yoe * 365 + yoe.tdiv 4 - yoe.tdiv 100) =
      365 * y + y / 4 - y / 100 + y / 400 := by
  have hera : (if 0 ≤ y then y else y - 399).tdiv 400 = y / 400 := by
    split
    · rename_i hpos
      exact Int.tdiv_eq_ediv_of_nonneg hpos
    · rename_i hneg
      have hmirror : (-(y - 399)).tdiv 400 = -(y - 399) / 400 :=
        Int.tdiv_eq_ediv_of_nonneg (by omega)
      rw [Int.neg_tdiv] at hmirror
      omega
  have hyoe : 0 ≤ y - y / 400 * 400 := by omega
  simp only [hera, Int.tdiv_eq_ediv_of_nonneg hyoe]
  omega

/-- The 153 days of five months, from March on. -/
theorem march_days (y : Int) {m : Nat} (hm : 3 ≤ m ∧ m ≤ 12) :
    (153 * ((m : Int) - 3) + 2).tdiv 5 + (daysBeforeMonth y 13 : Int) =
      daysBeforeMonth y m + 306 := by
  obtain ⟨hlow, hhigh⟩ := hm
  rw [Int.tdiv_eq_ediv_of_nonneg (by omega)]
  interval_cases m <;> simp only [daysBeforeMonth, monthLength] <;> omega

/-- The conversion counts on from the first of the month, whether or not the month has the day. -/
theorem daysFromCivil_eq (y : Int) {m : Nat} (hm : 1 ≤ m ∧ m ≤ 12) (d : Int) :
    daysFromCivil y m d =
      daysBeforeYear y + daysBeforeMonth y m + d - 1 - unixEpoch.dayNumber := by
  have hepoch : unixEpoch.dayNumber = 719162 := by decide
  rw [hepoch]
  by_cases hwinter : m ≤ 2
  · have hera := era_days (y - 1)
    have hdays : daysBeforeYear y =
        365 * (y - 1) + (y - 1) / 4 - (y - 1) / 100 + (y - 1) / 400 := rfl
    have hmonths : (153 * ((m : Int) + 9) + 2).tdiv 5 = daysBeforeMonth y m + 306 := by
      obtain rfl | rfl : m = 1 ∨ m = 2 := by omega
      · rfl
      · rfl
    have hle : (m : Int) ≤ 2 := by omega
    simp only [daysFromCivil, if_pos hle, if_neg (Int.not_lt.2 hle)]
    omega
  · have hera := era_days y
    have hdays := daysBeforeYear_succ y
    have hnext : daysBeforeYear (y + 1) = 365 * y + y / 4 - y / 100 + y / 400 := by
      rw [daysBeforeYear, Int.add_sub_cancel]
    have hspring : 3 ≤ m ∧ m ≤ 12 := by omega
    have hmonths := march_days y hspring
    have hlt : 2 < (m : Int) := by omega
    simp only [daysFromCivil, if_neg (Int.not_le.2 hlt), if_pos hlt]
    omega

theorem daysFromCivil_date (d : Date) :
    daysFromCivil d.year d.month d.day = d.dayNumber - unixEpoch.dayNumber :=
  daysFromCivil_eq d.year d.month_mem d.day

/-- A parsed second, if its month has the day or not, is within a year and a month of the first day
of its year. -/
theorem RmcTimeDate.Valid.toUnix_between {t : RmcTimeDate} (h : t.Valid) :
    (daysBeforeYear t.year - 719162) * 86400 ≤ t.toUnix ∧
      t.toUnix ≤ (daysBeforeYear t.year - 719162 + 397) * 86400 := by
  obtain ⟨hhour, hminute, hsecond, hday, hmonth, -⟩ := h
  have hmonths := daysBeforeMonth_le t.year (Nat.le_succ_of_le hmonth.2)
  have hepoch : unixEpoch.dayNumber = 719162 := by decide
  rw [toUnix, civilToUnix, daysFromCivil_eq t.year hmonth t.day, hepoch]
  omega

theorem RmcTimeDate.Valid.toUnix_le {t : RmcTimeDate} (h : t.Valid) :
    t.toUnix ≤ 10000000000000 := by
  have hlast := h.toUnix_between.2
  have hyear := h.year_mem
  rw [daysBeforeYear] at hlast
  omega

theorem RmcTimeDate.Valid.toUnix_mem {t : RmcTimeDate} (h : t.Valid) (hy : t.year ≤ 2261) :
    0 ≤ t.toUnix ∧ t.toUnix ≤ 9221000000 := by
  have hbetween := h.toUnix_between
  have hyear := h.year_mem
  rw [daysBeforeYear] at hbetween
  omega

/-- The conversion of a second of the calendar. -/
def unixOf (t : DateTime) : Int :=
  civilToUnix t.date.year t.date.month t.date.day t.hour t.minute t.second

theorem unixOf_eq (t : DateTime) :
    unixOf t = t.secondNumber - unixEpoch.dayNumber * 86400 := by
  rw [unixOf, civilToUnix, daysFromCivil_date, DateTime.secondNumber]
  omega

/-- The conversion of dates counts the days from 1970, and that of datetimes the seconds, in their
order and one by one. -/
theorem conversion_counts :
    daysFromCivil 1970 1 1 = 0 ∧
      (∀ d : Date, daysFromCivil d.next.year d.next.month d.next.day =
        daysFromCivil d.year d.month d.day + 1) ∧
      StrictMono unixOf ∧
      (∀ t : DateTime, unixOf t.nextSecond = unixOf t + 1) ∧
      Function.Injective unixOf := by
  have hmono : StrictMono unixOf := by
    intro t u h
    rw [unixOf_eq, unixOf_eq]
    exact Int.sub_lt_sub_right (DateTime.secondNumber_strictMono h) _
  refine ⟨by decide, ?_, hmono, ?_, hmono.injective⟩
  · intro d
    rw [daysFromCivil_date, daysFromCivil_date, Date.dayNumber_next]
    omega
  · intro t
    rw [unixOf_eq, unixOf_eq, DateTime.secondNumber_nextSecond]
    omega

end PicoGnss
