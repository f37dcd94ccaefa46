import PicoGnss.RpPps.CivilTime
import PicoGnss.RpPps.Sentences

/-! Which accepted sentences name a day of the calendar, and which of them have an exact epoch. -/

namespace PicoGnss
open Calendar FixedWidth
set_option autoImplicit true

/-- The date of the calendar that a parsed date is, if it is one. -/
def RmcTimeDate.date (t : RmcTimeDate) (hmonth : 1 ≤ t.month ∧ t.month ≤ 12)
    (hday : 1 ≤ t.day ∧ t.day ≤ daysInMonth t.month t.year) : Date :=
  ⟨t.year, t.month, t.day, hmonth, hday.1, by rw [monthLength_eq_daysInMonth]; exact hday.2⟩

/-- A date is one of the calendar, and the one that its count of days leads back to. -/
def RealDate (t : RmcTimeDate) : Prop :=
  ∃ date : Date, (date.year = t.year ∧ date.month = t.month ∧ date.day = t.day) ∧
    unixEpoch.after (daysFromCivil t.year t.month t.day) = date

theorem realDate_iff (hmonth : 1 ≤ t.month ∧ t.month ≤ 12) (hpos : 1 ≤ t.day) :
    RealDate t ↔ t.day ≤ daysInMonth t.month t.year := by
  constructor
  · rintro ⟨date, ⟨hy, hm, hd⟩, -⟩
    have hday := date.day_mem.2
    rw [hy, hm, hd, monthLength_eq_daysInMonth] at hday
    exact hday
  · intro hday
    have hcount := daysFromCivil_date (t.date hmonth ⟨hpos, hday⟩)
    refine ⟨t.date hmonth ⟨hpos, hday⟩, ⟨rfl, rfl, rfl⟩, ?_⟩
    rw [← Date.after_sub unixEpoch (t.date hmonth ⟨hpos, hday⟩), ← hcount]
    rfl

/-- The time and date of a sentence, of one kind or the other. -/
def TakenAs (s : List UInt8) (t : RmcTimeDate) : Prop :=
  parseRmcTimeDate s = some t ∨ parseZdaTimeDate s = some t

/-- Only dates of the calendar are accepted. -/
def OnlyRealDates (s : List UInt8) : Prop := ∀ t, TakenAs s t → RealDate t

/-- An RMC sentence with a day that its month does not have. -/
def DayPastMonth (s : List UInt8) : Prop :=
  ∃ t, RmcReads s t ∧ daysInMonth t.month t.year < t.day

/-- RMC sentences are taken with days past the end of their month, and ZDA sentences are not. -/
theorem onlyRealDates_iff (s : List UInt8) : OnlyRealDates s ↔ ¬ DayPastMonth s := by
  simp only [OnlyRealDates, TakenAs, parseRmcTimeDate_eq_some_iff, parseZdaTimeDate_eq_some_iff]
  constructor
  · rintro hreal ⟨t, hread, hpast⟩
    have hday := (realDate_iff hread.month_mem hread.day_mem.1).1 (hreal t (.inl hread))
    exact Nat.not_le.2 hpast hday
  · rintro hpast t (hread | hread)
    · apply (realDate_iff hread.month_mem hread.day_mem.1).2
      by_contra hday
      exact hpast ⟨t, hread, Nat.not_le.1 hday⟩
    · exact (realDate_iff hread.month_mem hread.day_mem.1).2 hread.day_mem.2

/-- An RMC sentence of the thirty-first of February. -/
theorem february_thirty_first : ¬ ∀ s, OnlyRealDates s := by
  intro h
  have haccepted : TakenAs [36, 71, 80, 82, 77, 67, 44, 48, 48, 48, 48, 48, 48, 44, 44, 44, 44,
      44, 44, 44, 44, 51, 49, 48, 50, 50, 54] ⟨0, 0, 0, 31, 2, 2026⟩ := .inl (by decide)
  have hday := (realDate_iff (by decide) (by decide)).1 (h _ _ haccepted)
  exact absurd hday (by decide)

namespace PpsTimeSync

/-- What the date of a sentence and then its time make of the edge that waits for them. -/
theorem onTime_setDate (sync : PpsTimeSync) (h : sync.pending = some (captureNs, queryNs))
    (t : RmcTimeDate) :
    ((sync.setDate t.year t.month t.day).onTime t.hour t.minute t.second).1 =
      some ⟨captureNs, queryNs,
        wrap64 ((t.toUnix + sync.association.edgeOffsetSeconds) * 1000000000)⟩ := by
  simp only [onTime, setDate, h]
  rfl

end PpsTimeSync

/-- The epoch of a sentence is the instant that its edge marks, with nothing wrapped. -/
def ExactEpoch (association : PpsNmeaAssociation) (t : RmcTimeDate) : Prop :=
  ∀ sync : PpsTimeSync, sync.association = association →
    ∀ captureNs queryNs, sync.pending = some (captureNs, queryNs) →
      ((sync.setDate t.year t.month t.day).onTime t.hour t.minute t.second).1 =
        some ⟨captureNs, queryNs, (t.toUnix + association.edgeOffsetSeconds) * 1000000000⟩

theorem exactEpoch_iff : ExactEpoch association t ↔
    InI64 ((t.toUnix + association.edgeOffsetSeconds) * 1000000000) := by
  constructor
  · intro h
    have hexact := h ⟨association, none, some (0, 0)⟩ rfl 0 0 rfl
    rw [PpsTimeSync.onTime_setDate _ rfl, Option.some.injEq, SyncEpoch.mk.injEq] at hexact
    rw [← hexact.2.2]
    exact wrap64_inI64 _
  · rintro hfits sync rfl captureNs queryNs hpending
    rw [PpsTimeSync.onTime_setDate _ hpending, wrap64_of_inI64 hfits]

/-- The day in which the nanoseconds of an `i64` run out. -/
def lastDay : Date := ⟨2262, 4, 11, by decide, by decide⟩

/-- A second after 23:47:16 on that day. -/
def PastRange (association : PpsNmeaAssociation) (t : RmcTimeDate) : Prop :=
  (2262 < t.year ∨ t.year = 2262 ∧ (4 < t.month ∨ t.month = 4 ∧ 11 < t.day)) ∨
    (t.year = 2262 ∧ t.month = 4 ∧ t.day = 11) ∧
      85636 < t.hour * 3600 + t.minute * 60 + t.second + association.edgeOffsetSeconds

theorem edgeOffsetSeconds_mem (association : PpsNmeaAssociation) :
    -1 ≤ association.edgeOffsetSeconds ∧ association.edgeOffsetSeconds ≤ 1 := by
  cases association <;> decide

theorem RmcReads.inI64 (h : RmcReads s t) (association : PpsNmeaAssociation) :
    InI64 ((t.toUnix + association.edgeOffsetSeconds) * 1000000000) := by
  have hyear : t.year ≤ 2261 := Nat.le_trans (Nat.le_of_lt h.year_mem.2) (by decide)
  obtain ⟨hlow, hhigh⟩ := h.valid.toUnix_mem hyear
  have hoff := edgeOffsetSeconds_mem association
  unfold InI64
  omega

/-- The days and the time of day decide, whichever way the offset goes. -/
theorem ZdaReads.inI64_iff (h : ZdaReads s t) (association : PpsNmeaAssociation) :
    InI64 ((t.toUnix + association.edgeOffsetSeconds) * 1000000000) ↔
      ¬ PastRange association t := by
  obtain ⟨hhour, hminute, hsecond, -, -, hearly, -⟩ := h.valid
  have hoff := edgeOffsetSeconds_mem association
  have hunix : t.toUnix = ((t.date h.month_mem h.day_mem).dayNumber - unixEpoch.dayNumber) * 86400 +
      t.hour * 3600 + t.minute * 60 + t.second := by
    rw [← daysFromCivil_date]
    rfl
  have hepoch : unixEpoch ≤ t.date h.month_mem h.day_mem := by
    apply le_of_lt
    refine Date.lt_iff.2 (.inl ?_)
    change (1970 : Int) < t.year
    omega
  have hstart := Date.dayNumber_strictMono.monotone hepoch
  have hspan : lastDay.dayNumber = unixEpoch.dayNumber + 106751 := by decide
  unfold InI64 PastRange
  rcases lt_trichotomy (t.date h.month_mem h.day_mem) lastDay with hlt | heq | hgt
  · have hdays := Date.dayNumber_strictMono hlt
    have hkey := Date.lt_iff.1 hlt
    simp only [RmcTimeDate.date, lastDay] at hkey
    omega
  · have hdays := congrArg Date.dayNumber heq
    have hkey := Date.ext_iff.1 heq
    simp only [RmcTimeDate.date, lastDay] at hkey
    omega
  · have hdays := Date.dayNumber_strictMono hgt
    have hkey := Date.lt_iff.1 hgt
    simp only [RmcTimeDate.date, lastDay] at hkey
    omega

/-- Every sentence that is taken has an exact epoch. -/
def OnlyExactEpochs (association : PpsNmeaAssociation) (s : List UInt8) : Prop :=
  ∀ t, TakenAs s t → ExactEpoch association t

/-- A ZDA sentence of a second that is out of range. -/
def ZdaPastRange (association : PpsNmeaAssociation) (s : List UInt8) : Prop :=
  ∃ t, ZdaReads s t ∧ PastRange association t

/-- Epochs are exact, but for ZDA sentences after the last second that has its nanoseconds. -/
theorem onlyExactEpochs_iff (association : PpsNmeaAssociation) (s : List UInt8) :
    OnlyExactEpochs association s ↔ ¬ ZdaPastRange association s := by
  simp only [OnlyExactEpochs, TakenAs, parseRmcTimeDate_eq_some_iff,
    parseZdaTimeDate_eq_some_iff, exactEpoch_iff]
  constructor
  · rintro hexact ⟨t, hread, hpast⟩
    exact (hread.inI64_iff association).1 (hexact t (.inr hread)) hpast
  · rintro hpast t (hread | hread)
    · exact hread.inI64 association
    · apply (hread.inI64_iff association).2
      intro hlate
      exact hpast ⟨t, hread, hlate⟩

/-- A ZDA sentence of the year 9999. -/
theorem epoch_wraps : ¬ ∀ association s, OnlyExactEpochs association s := by
  intro h
  have haccepted : TakenAs [36, 71, 80, 90, 68, 65, 44, 48, 48, 48, 48, 48, 48, 44, 48, 49, 44,
      48, 49, 44, 57, 57, 57, 57] ⟨0, 0, 0, 1, 1, 9999⟩ := .inr (by decide)
  exact absurd (exactEpoch_iff.1 (h .sameSecond _ _ haccepted)) (by decide)

end PicoGnss
