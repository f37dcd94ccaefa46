import PicoGnss.Lib.Numerals
import PicoGnss.Lib.Utf8
import PicoGnss.RpPps.TimeSync

/-! The language of the time and date fields: which texts are read, and as what. -/

namespace PicoGnss
open Bytes Numerals Utf8
set_option autoImplicit true

def plusSign : UInt8 := 43

def decimalDigit (b : UInt8) : Option Nat :=
  if 48 ≤ b.toNat ∧ b.toNat ≤ 57 then some (b.toNat - 48) else none

/-- ASCII digits, and what they spell. -/
def Digits (s : List UInt8) (n : Nat) : Prop := Spells decimalDigit 10 s n

/-- What `str::parse` reads as an unsigned number: digits, with a plus sign or without. -/
def Unsigned (s : List UInt8) (n : Nat) : Prop := SpellsSigned decimalDigit 10 plusSign s n

theorem decimalDigit_eq_some_iff :
    decimalDigit b = some d ↔ 48 ≤ b.toNat ∧ b.toNat ≤ 57 ∧ b.toNat - 48 = d := by
  rw [decimalDigit, Option.ite_none_right_eq_some, Option.some.injEq, and_assoc]

theorem parseDigits_eq (limit acc : Nat) (s : List UInt8) :
    parseDigits limit acc s = readUpTo decimalDigit 10 limit acc s := by
  induction s generalizing acc with
  | nil => rfl
  | cons b rest ih =>
    simp only [parseDigits, readUpTo, decimalDigit, Option.bind_eq_bind, Bool.and_eq_true,
      decide_eq_true_eq]
    by_cases hb : 48 ≤ b.toNat ∧ b.toNat ≤ 57
    · simp only [if_pos hb, Option.bind_some, ih]
    · simp only [if_neg hb, Option.bind_none]

theorem parseUnsigned_eq_some_iff : parseUnsigned limit s = some n ↔ Unsigned s n ∧ n ≤ limit := by
  have hsign : decimalDigit plusSign = none := rfl
  have hplus (b : UInt8) : b.toNat = 43 ↔ b = plusSign := by
    rw [← UInt8.toNat_inj]
    rfl
  have heq : parseUnsigned limit s = parse decimalDigit 10 plusSign limit s := by
    rcases s with _ | ⟨b, _ | ⟨b', rest⟩⟩
    · rfl
    · simp only [parseUnsigned, parse, parseDigits_eq, hplus]
    · simp only [parseUnsigned, parse, parseDigits_eq, hplus]
  rw [heq, parse_eq_some_iff (by decide) hsign]
  rfl

theorem Digits.mem (h : Digits s n) : ∀ b ∈ s, 48 ≤ b.toNat ∧ b.toNat ≤ 57 := by
  intro b hb
  obtain ⟨d, hd⟩ := Option.isSome_iff_exists.1 (Spells.mem h b hb)
  obtain ⟨hlow, hhigh, -⟩ := decimalDigit_eq_some_iff.1 hd
  exact ⟨hlow, hhigh⟩

theorem Digits.lt_pow (h : Digits s n) : n < 10 ^ s.length := by
  apply Spells.lt_pow _ h
  intro b d hd
  obtain ⟨-, hhigh, rfl⟩ := decimalDigit_eq_some_iff.1 hd
  omega

/-- Without the sign, what is read is digits. -/
theorem Unsigned.digits (h : Unsigned s n) (hplus : plusSign ∉ s) : Digits s n := by
  rcases h with h | ⟨r, rfl, -⟩
  · exact h
  · exact absurd (List.mem_cons_self ..) hplus

theorem Digits.unsigned (h : Digits s n) : Unsigned s n ∧ plusSign ∉ s := by
  refine ⟨.inl h, ?_⟩
  intro hmem
  exact absurd (h.mem plusSign hmem) (by decide)

/-- What is read is one character a byte. -/
theorem Unsigned.mem (h : Unsigned s n) : ∀ b ∈ s, b.toNat < 58 ∧ b ≠ 46 := by
  have hdigits {r : List UInt8} (hr : Digits r n) : ∀ b ∈ r, b.toNat < 58 ∧ b ≠ 46 := by
    intro b hb
    obtain ⟨hlow, hhigh⟩ := hr.mem b hb
    refine ⟨Nat.lt_succ_of_le hhigh, ?_⟩
    rintro rfl
    exact absurd hlow (by decide)
  rcases h with h | ⟨r, rfl, h⟩
  · exact hdigits h
  · intro b hb
    rcases List.mem_cons.1 hb with rfl | hb
    · decide
    · exact hdigits h b hb

theorem Unsigned.ne_nil (h : Unsigned s n) : s ≠ [] := by
  rcases h with h | ⟨r, rfl, -⟩
  · exact Spells.ne_nil h
  · exact List.cons_ne_nil _ _

theorem Unsigned.lt_pow (h : Unsigned s n) : n < 10 ^ s.length := by
  rcases h with h | ⟨r, rfl, h⟩
  · exact Digits.lt_pow h
  · rw [List.length_cons, Nat.pow_succ]
    have hlt := Digits.lt_pow h
    omega

/-- Nothing, or a character, comes next. -/
def AtBoundary (rest : List UInt8) : Prop := ∀ b ∈ rest.head?, Starts b

theorem Unsigned.atBoundary (h : Unsigned s n) (rest : List UInt8) : AtBoundary (s ++ rest) := by
  obtain ⟨b, s, rfl⟩ := List.exists_cons_of_ne_nil h.ne_nil
  intro b' hb'
  cases hb'
  exact .inl (Nat.lt_trans (h.mem b (List.mem_cons_self ..)).1 (by decide))

theorem isCharBoundary_iff (h : i ≤ s.length) :
    isCharBoundary s i = true ↔ i = 0 ∨ AtBoundary (s.drop i) := by
  rw [isCharBoundary, AtBoundary, List.head?_drop]
  cases hb : s[i]? with
  | none =>
    have hlen := List.getElem?_eq_none_iff.1 hb
    refine iff_of_true (decide_eq_true ?_) (.inr nofun)
    omega
  | some b =>
    simp only [Bool.or_eq_true, decide_eq_true_eq, Option.mem_def, Option.some.injEq, forall_eq',
      Starts, or_assoc]

theorem strGet_eq_some_iff : strGet s i j = some y ↔
    i ≤ j ∧ j ≤ s.length ∧ (i = 0 ∨ AtBoundary (s.drop i)) ∧ (j = 0 ∨ AtBoundary (s.drop j)) ∧
      slice s i j = y := by
  rw [strGet, Option.ite_none_right_eq_some, Option.some.injEq]
  simp only [Bool.and_eq_true, decide_eq_true_eq]
  constructor
  · rintro ⟨⟨⟨⟨hij, hj⟩, hbi⟩, hbj⟩, hslice⟩
    exact ⟨hij, hj, (isCharBoundary_iff (Nat.le_trans hij hj)).1 hbi, (isCharBoundary_iff hj).1 hbj,
      hslice⟩
  · rintro ⟨hij, hj, hbi, hbj, hslice⟩
    exact ⟨⟨⟨⟨hij, hj⟩, (isCharBoundary_iff (Nat.le_trans hij hj)).2 hbi⟩,
      (isCharBoundary_iff hj).2 hbj⟩, hslice⟩

/-- A field that starts with three pairs of characters that spell three numbers. -/
def ThreePairs (spells : List UInt8 → Nat → Prop) (field : List UInt8) (a b c : Nat) : Prop :=
  ∃ x y z rest, field = x ++ (y ++ (z ++ rest)) ∧ x.length = 2 ∧ y.length = 2 ∧ z.length = 2 ∧
    spells x a ∧ spells y b ∧ spells z c ∧ AtBoundary rest

theorem threePairs_iff_strGet : ThreePairs Unsigned s a b c ↔
    6 ≤ s.length ∧ ∃ x y z, strGet s 0 2 = some x ∧ strGet s 2 4 = some y ∧ strGet s 4 6 = some z ∧
      Unsigned x a ∧ Unsigned y b ∧ Unsigned z c := by
  constructor
  · rintro ⟨x, y, z, rest, rfl, hx, hy, hz, ha, hb, hc, hrest⟩
    have hlen : 6 ≤ (x ++ (y ++ (z ++ rest))).length := by
      simp only [List.length_append]
      omega
    have htwo : (x ++ (y ++ (z ++ rest))).drop 2 = y ++ (z ++ rest) := List.drop_left' hx
    have hfour : (x ++ (y ++ (z ++ rest))).drop 4 = z ++ rest := by
      rw [← List.append_assoc]
      exact List.drop_left' (by rw [List.length_append]; omega)
    have hsix : (x ++ (y ++ (z ++ rest))).drop 6 = rest := by
      rw [← List.append_assoc, ← List.append_assoc]
      exact List.drop_left' (by rw [List.length_append, List.length_append]; omega)
    have hb2 : AtBoundary ((x ++ (y ++ (z ++ rest))).drop 2) := by
      rw [htwo]
      exact hb.atBoundary _
    have hb4 : AtBoundary ((x ++ (y ++ (z ++ rest))).drop 4) := by
      rw [hfour]
      exact hc.atBoundary _
    have hb6 : AtBoundary ((x ++ (y ++ (z ++ rest))).drop 6) := by
      rw [hsix]
      exact hrest
    refine ⟨hlen, x, y, z, strGet_eq_some_iff.2 ⟨by decide, by omega, .inl rfl, .inr hb2, ?_⟩,
      strGet_eq_some_iff.2 ⟨by decide, by omega, .inr hb2, .inr hb4, ?_⟩,
      strGet_eq_some_iff.2 ⟨by decide, by omega, .inr hb4, .inr hb6, ?_⟩, ha, hb, hc⟩
    · exact slice_left hx _
    · exact slice_mid hx (by rw [List.length_append]; omega)
    · rw [← List.append_assoc x]
      exact slice_mid (by rw [List.length_append]; omega) (by simp only [List.length_append]; omega)
  · rintro ⟨hlen, x, y, z, hx, hy, hz, ha, hb, hc⟩
    obtain ⟨-, -, -, -, rfl⟩ := strGet_eq_some_iff.1 hx
    obtain ⟨-, -, -, -, rfl⟩ := strGet_eq_some_iff.1 hy
    obtain ⟨-, -, -, hb6, rfl⟩ := strGet_eq_some_iff.1 hz
    have hsix : slice s 0 6 = s.take 6 := List.drop_zero
    have hx2 : (slice s 0 2).length = 2 := length_slice (Nat.le_trans (by decide) hlen) 0
    have hy2 : (slice s 2 4).length = 2 := length_slice (Nat.le_trans (by decide) hlen) 2
    have hz2 : (slice s 4 6).length = 2 := length_slice hlen 4
    refine ⟨_, _, _, s.drop 6, ?_, hx2, hy2, hz2, ha, hb, hc, hb6.resolve_left (by decide)⟩
    rw [← List.append_assoc, ← List.append_assoc, slice_append_slice (by decide) (by decide),
      slice_append_slice (by decide) (by decide), hsix, List.take_append_drop]

theorem splitAtByte_headD (sep : UInt8) (s d : List UInt8) :
    (splitAtByte sep s).headD d = s.takeWhile (· ≠ sep) := by
  induction s with
  | nil => rfl
  | cons b rest ih =>
    have hsplit : ∃ part parts, splitAtByte sep rest = part :: parts := by
      cases rest with
      | nil => exact ⟨_, _, rfl⟩
      | cons b' rest =>
        simp only [splitAtByte]
        split
        · exact ⟨_, _, rfl⟩
        · split <;> exact ⟨_, _, rfl⟩
    obtain ⟨part, parts, hparts⟩ := hsplit
    rw [hparts] at ih
    simp only [splitAtByte, hparts]
    by_cases hb : b = sep
    · rw [if_pos hb, List.takeWhile_cons_of_neg (by simpa using hb)]
      rfl
    · rw [if_neg hb, List.takeWhile_cons_of_pos (by simpa using hb), ← ih]
      rfl

/-- The pairs end before the first dot, if they are there at all. -/
theorem threePairs_takeWhile : ThreePairs Unsigned (field.takeWhile (· ≠ 46)) a b c ↔
    ThreePairs Unsigned field a b c := by
  constructor
  · rintro ⟨x, y, z, rest, heq, hx, hy, hz, ha, hb, hc, hrest⟩
    refine ⟨x, y, z, rest ++ field.dropWhile (· ≠ 46), ?_, hx, hy, hz, ha, hb, hc, ?_⟩
    · calc field = field.takeWhile (· ≠ 46) ++ field.dropWhile (· ≠ 46) :=
          List.takeWhile_append_dropWhile.symm
        _ = _ := by simp only [heq, List.append_assoc]
    · cases rest with
      | nil =>
        intro b hmem
        have hdot := List.head?_dropWhile_not (fun b => decide (b ≠ 46)) field
        rw [List.nil_append] at hmem
        rw [Option.mem_def.1 hmem] at hdot
        have hb : b = 46 := not_not.1 (of_decide_eq_false hdot)
        rw [hb]
        exact .inl (by decide)
      | cons b rest => exact hrest
  · rintro ⟨x, y, z, rest, rfl, hx, hy, hz, ha, hb, hc, hrest⟩
    have hpass {w : List UInt8} {n : Nat} (hw : Unsigned w n) :
        ∀ b ∈ w, decide (b ≠ 46) = true := fun b hmem => decide_eq_true (hw.mem b hmem).2
    refine ⟨x, y, z, rest.takeWhile (· ≠ 46), ?_, hx, hy, hz, ha, hb, hc, ?_⟩
    · rw [List.takeWhile_append_of_pos (hpass ha), List.takeWhile_append_of_pos (hpass hb),
        List.takeWhile_append_of_pos (hpass hc)]
    · intro b hmem
      cases rest with
      | nil => cases hmem
      | cons b' rest =>
        rw [List.takeWhile_cons] at hmem
        split at hmem
        · exact hrest b hmem
        · cases hmem

/-- A field that starts with a time of day, spelled one way or the other. -/
def TimeField (spells : List UInt8 → Nat → Prop) (field : List UInt8) (h mi s : Nat) : Prop :=
  ThreePairs spells field h mi s ∧ h ≤ 23 ∧ mi ≤ 59 ∧ s ≤ 60

/-- A field that starts with a day, a month and a year of this century. -/
def DateField (spells : List UInt8 → Nat → Prop) (field : List UInt8) (d mo y : Nat) : Prop :=
  ∃ yy, ThreePairs spells field d mo yy ∧ y = 2000 + yy ∧ (1 ≤ d ∧ d ≤ 31) ∧ 1 ≤ mo ∧ mo ≤ 12

theorem parseU8_eq_some_iff : parseU8 s = some n ↔ Unsigned s n ∧ n ≤ 255 :=
  parseUnsigned_eq_some_iff

theorem parseU16_eq_some_iff : parseU16 s = some n ↔ Unsigned s n ∧ n ≤ 65535 :=
  parseUnsigned_eq_some_iff

theorem parseHhmmss_eq_some_iff :
    parseHhmmss field = some (h, mi, s) ↔ TimeField Unsigned field h mi s := by
  rw [TimeField, ← threePairs_takeWhile, threePairs_iff_strGet, parseHhmmss]
  simp only [splitAtByte_headD, Option.bind_eq_bind, Option.bind_eq_some_iff, guard_eq_some,
    parseU8_eq_some_iff, Option.some.injEq]
  constructor
  · rintro ⟨_, hlen, x, hx, h', ⟨hh, -⟩, y, hy, mi', ⟨hmi, -⟩, z, hz, s', ⟨hs, -⟩, _, hvalid, heq⟩
    cases heq
    exact ⟨⟨hlen, x, y, z, hx, hy, hz, hh, hmi, hs⟩, hvalid⟩
  · rintro ⟨⟨hlen, x, y, z, hx, hy, hz, hh, hmi, hs⟩, hvalid⟩
    exact ⟨(), hlen, x, hx, h, ⟨hh, by omega⟩, y, hy, mi, ⟨hmi, by omega⟩, z, hz, s, ⟨hs, by omega⟩,
      (), hvalid, rfl⟩

theorem parseDdmmyy_eq_some_iff :
    parseDdmmyy field = some (d, mo, y) ↔ DateField Unsigned field d mo y := by
  simp only [DateField, threePairs_iff_strGet, parseDdmmyy, Option.bind_eq_bind,
    Option.bind_eq_some_iff, guard_eq_some, parseU8_eq_some_iff, parseU16_eq_some_iff,
    Option.some.injEq]
  constructor
  · rintro ⟨_, hlen, x, hx, d', ⟨hd, -⟩, x', hx', mo', ⟨hmo, -⟩, x'', hx'', yy, ⟨hyy, -⟩, _, hvalid,
      heq⟩
    cases heq
    exact ⟨yy, ⟨hlen, x, x', x'', hx, hx', hx'', hd, hmo, hyy⟩, rfl, hvalid⟩
  · rintro ⟨yy, ⟨hlen, x, x', x'', hx, hx', hx'', hd, hmo, hyy⟩, rfl, hvalid⟩
    obtain ⟨-, hsix, -, -, rfl⟩ := strGet_eq_some_iff.1 hx''
    have hyear := hyy.lt_pow
    rw [length_slice hsix] at hyear
    exact ⟨(), hlen, x, hx, d, ⟨hd, by omega⟩, x', hx', mo, ⟨hmo, by omega⟩, _, hx'', yy,
      ⟨hyy, by omega⟩, (), hvalid, rfl⟩

/-- What an RMC sentence says. -/
structure RmcReads (s : List UInt8) (t : RmcTimeDate) : Prop where
  tag : strGet s 3 6 = some rmcTag
  time : ∃ field, (splitAtByte 44 s)[1]? = some field ∧
    TimeField Unsigned field t.hour t.minute t.second
  date : ∃ field, (splitAtByte 44 s)[9]? = some field ∧
    DateField Unsigned field t.day t.month t.year

/-- What a ZDA sentence says, whose date is one of the calendar. -/
structure ZdaReads (s : List UInt8) (t : RmcTimeDate) : Prop where
  tag : strGet s 3 6 = some zdaTag
  time : ∃ field, (splitAtByte 44 s)[1]? = some field ∧
    TimeField Unsigned field t.hour t.minute t.second
  day : ∃ field, (splitAtByte 44 s)[2]? = some field ∧ Unsigned field t.day
  month : ∃ field, (splitAtByte 44 s)[3]? = some field ∧ Unsigned field t.month
  year : ∃ field, (splitAtByte 44 s)[4]? = some field ∧ field.length = 4 ∧ Unsigned field t.year
  year_ge : 1980 ≤ t.year
  month_mem : 1 ≤ t.month ∧ t.month ≤ 12
  day_mem : 1 ≤ t.day ∧ t.day ≤ daysInMonth t.month t.year

theorem RmcReads.month_mem (h : RmcReads s t) : 1 ≤ t.month ∧ t.month ≤ 12 := by
  obtain ⟨field, -, yy, -, -, -, hmonth⟩ := h.date
  exact hmonth

theorem RmcReads.day_mem (h : RmcReads s t) : 1 ≤ t.day ∧ t.day ≤ 31 := by
  obtain ⟨field, -, yy, -, -, hday, -⟩ := h.date
  exact hday

/-- Two characters are a year of this century. -/
theorem RmcReads.year_mem (h : RmcReads s t) : 2000 ≤ t.year ∧ t.year < 2100 := by
  obtain ⟨field, -, yy, ⟨_, _, z, _, _, -, -, hz, -, -, hyear, -⟩, hy, -⟩ := h.date
  have hlt := hyear.lt_pow
  rw [hz] at hlt
  omega

/-- Four characters are a year before 10000. -/
theorem ZdaReads.year_lt (h : ZdaReads s t) : t.year < 10000 := by
  obtain ⟨field, -, hlen, hyear⟩ := h.year
  have hlt := hyear.lt_pow
  rw [hlen] at hlt
  exact hlt

theorem RmcReads.valid (h : RmcReads s t) : t.Valid := by
  obtain ⟨field, -, -, hhour, hminute, hsecond⟩ := h.time
  have hyear := h.year_mem
  exact ⟨hhour, hminute, hsecond, h.day_mem, h.month_mem, by omega⟩

theorem ZdaReads.valid (h : ZdaReads s t) : t.Valid := by
  obtain ⟨field, -, -, hhour, hminute, hsecond⟩ := h.time
  have hlast := Nat.le_trans h.day_mem.2 (daysInMonth_le t.month t.year)
  have hyear := h.year_lt
  exact ⟨hhour, hminute, hsecond, ⟨h.day_mem.1, hlast⟩, h.month_mem, h.year_ge, by omega⟩

theorem parseRmcTimeDate_eq_some_iff : parseRmcTimeDate s = some t ↔ RmcReads s t := by
  simp only [parseRmcTimeDate, Option.bind_eq_bind, Option.bind_eq_some_iff, guard_eq_some,
    Option.some.injEq]
  constructor
  · rintro ⟨_, htag, f, hf, ⟨h, mi, sec⟩, htime, f', hf', ⟨d, mo, y⟩, hdate, rfl⟩
    exact ⟨htag, ⟨f, hf, parseHhmmss_eq_some_iff.1 htime⟩,
      ⟨f', hf', parseDdmmyy_eq_some_iff.1 hdate⟩⟩
  · rintro ⟨htag, ⟨f, hf, htime⟩, ⟨f', hf', hdate⟩⟩
    exact ⟨(), htag, f, hf, _, parseHhmmss_eq_some_iff.2 htime, f', hf', _,
      parseDdmmyy_eq_some_iff.2 hdate, rfl⟩

theorem parseZdaTimeDate_eq_some_iff : parseZdaTimeDate s = some t ↔ ZdaReads s t := by
  simp only [parseZdaTimeDate, Option.bind_eq_bind, Option.bind_eq_some_iff, guard_eq_some,
    parseU8_eq_some_iff, parseU16_eq_some_iff, Option.some.injEq]
  constructor
  · rintro ⟨_, htag, f, hf, ⟨h, mi, sec⟩, htime, fd, hfd, d, ⟨hd, -⟩, fm, hfm, mo, ⟨hmo, -⟩, fy,
      hfy, _, hlen, y, ⟨hy, -⟩, _, hge, _, ⟨hmonth, hday⟩, rfl⟩
    exact ⟨htag, ⟨f, hf, parseHhmmss_eq_some_iff.1 htime⟩, ⟨fd, hfd, hd⟩, ⟨fm, hfm, hmo⟩,
      ⟨fy, hfy, hlen, hy⟩, hge, hmonth, hday⟩
  · rintro ⟨htag, ⟨f, hf, htime⟩, ⟨fd, hfd, hd⟩, ⟨fm, hfm, hmo⟩, ⟨fy, hfy, hlen, hy⟩, hge, hmonth,
      hday⟩
    have hyear := hy.lt_pow
    rw [hlen] at hyear
    have hmax := daysInMonth_le t.month t.year
    exact ⟨(), htag, f, hf, _, parseHhmmss_eq_some_iff.2 htime, fd, hfd, _, ⟨hd, by omega⟩, fm,
      hfm, _, ⟨hmo, by omega⟩, fy, hfy, (), hlen, _, ⟨hy, by omega⟩, (), hge, (), ⟨hmonth, hday⟩,
      rfl⟩

theorem parseRmcTimeDate_valid (h : parseRmcTimeDate s = some t) :
    t.Valid ∧ strGet s 3 6 = some rmcTag := by
  have hread := parseRmcTimeDate_eq_some_iff.1 h
  exact ⟨hread.valid, hread.tag⟩

theorem parseZdaTimeDate_valid (h : parseZdaTimeDate s = some t) :
    t.Valid ∧ strGet s 3 6 = some zdaTag := by
  have hread := parseZdaTimeDate_eq_some_iff.1 h
  exact ⟨hread.valid, hread.tag⟩

/-- Three pairs are digits if none of them has a sign. -/
theorem threePairs_digits_iff : ThreePairs Digits field a b c ↔
    ThreePairs Unsigned field a b c ∧ plusSign ∉ field.take 6 := by
  have hsix {x y z rest : List UInt8} (hx : x.length = 2) (hy : y.length = 2) (hz : z.length = 2) :
      (x ++ (y ++ (z ++ rest))).take 6 = x ++ (y ++ z) := by
    rw [← List.append_assoc, ← List.append_assoc, List.append_assoc x y z]
    exact List.take_left' (by simp only [List.length_append]; omega)
  constructor
  · rintro ⟨x, y, z, rest, rfl, hx, hy, hz, ha, hb, hc, hrest⟩
    obtain ⟨ha, hplus⟩ := ha.unsigned
    obtain ⟨hb, hplus'⟩ := hb.unsigned
    obtain ⟨hc, hplus''⟩ := hc.unsigned
    refine ⟨⟨x, y, z, rest, rfl, hx, hy, hz, ha, hb, hc, hrest⟩, ?_⟩
    rw [hsix hx hy hz, List.mem_append, List.mem_append]
    exact not_or.2 ⟨hplus, not_or.2 ⟨hplus', hplus''⟩⟩
  · rintro ⟨⟨x, y, z, rest, rfl, hx, hy, hz, ha, hb, hc, hrest⟩, hplus⟩
    rw [hsix hx hy hz, List.mem_append, List.mem_append, not_or, not_or] at hplus
    exact ⟨x, y, z, rest, rfl, hx, hy, hz, ha.digits hplus.1, hb.digits hplus.2.1,
      hc.digits hplus.2.2, hrest⟩

/-- A year of four characters with a sign is too early. -/
theorem ZdaReads.year_digits (h : ZdaReads s t) :
    ∃ field, (splitAtByte 44 s)[4]? = some field ∧ Digits field t.year := by
  obtain ⟨field, hfield, hlen, hyear | ⟨r, rfl, hyear⟩⟩ := h.year
  · exact ⟨field, hfield, hyear⟩
  · have hlt := Digits.lt_pow hyear
    rw [Nat.succ.inj hlen] at hlt
    exact absurd h.year_ge (Nat.not_le.2 (Nat.lt_trans hlt (by decide)))

/-- The time is taken only from a field that starts with six digits. -/
def TimeFromDigits (field : List UInt8) : Prop :=
  ∀ h mi s, parseHhmmss field = some (h, mi, s) → TimeField Digits field h mi s

/-- The date is taken only from a field that starts with six digits. -/
def DateFromDigits (field : List UInt8) : Prop :=
  ∀ d mo y, parseDdmmyy field = some (d, mo, y) → DateField Digits field d mo y

/-- The date of a ZDA sentence is taken only from three fields of digits. -/
def ZdaFromDigits (s : List UInt8) : Prop :=
  ∀ t, parseZdaTimeDate s = some t → ∃ day month year,
    (splitAtByte 44 s)[2]? = some day ∧ (splitAtByte 44 s)[3]? = some month ∧
      (splitAtByte 44 s)[4]? = some year ∧
      Digits day t.day ∧ Digits month t.month ∧ Digits year t.year

/-- A time of day with a sign. -/
def PlusTime (field : List UInt8) : Prop :=
  (∃ h mi s, TimeField Unsigned field h mi s) ∧ plusSign ∈ field.take 6

/-- A date with a sign. -/
def PlusDate (field : List UInt8) : Prop :=
  (∃ d mo y, DateField Unsigned field d mo y) ∧ plusSign ∈ field.take 6

/-- A ZDA sentence whose day or month has a sign. -/
def PlusZda (s : List UInt8) : Prop :=
  (∃ t, ZdaReads s t) ∧
    ∃ field, ((splitAtByte 44 s)[2]? = some field ∨ (splitAtByte 44 s)[3]? = some field) ∧
      plusSign ∈ field

theorem timeFromDigits_iff : TimeFromDigits field ↔ ¬ PlusTime field := by
  simp only [TimeFromDigits, parseHhmmss_eq_some_iff]
  constructor
  · rintro hdigits ⟨⟨h, mi, s, hread⟩, hplus⟩
    exact (threePairs_digits_iff.1 (hdigits h mi s hread).1).2 hplus
  · intro hplus h mi s hread
    refine ⟨threePairs_digits_iff.2 ⟨hread.1, ?_⟩, hread.2⟩
    intro hmem
    exact hplus ⟨⟨h, mi, s, hread⟩, hmem⟩

theorem dateFromDigits_iff : DateFromDigits field ↔ ¬ PlusDate field := by
  simp only [DateFromDigits, parseDdmmyy_eq_some_iff]
  constructor
  · rintro hdigits ⟨⟨d, mo, y, hread⟩, hplus⟩
    obtain ⟨yy, hpairs, -⟩ := hdigits d mo y hread
    exact (threePairs_digits_iff.1 hpairs).2 hplus
  · rintro hplus d mo y ⟨yy, hpairs, hvalid⟩
    refine ⟨yy, threePairs_digits_iff.2 ⟨hpairs, ?_⟩, hvalid⟩
    intro hmem
    exact hplus ⟨⟨d, mo, y, yy, hpairs, hvalid⟩, hmem⟩

theorem zdaFromDigits_iff : ZdaFromDigits s ↔ ¬ PlusZda s := by
  simp only [ZdaFromDigits, parseZdaTimeDate_eq_some_iff]
  constructor
  · rintro hdigits ⟨⟨t, hread⟩, field, hfield, hplus⟩
    obtain ⟨day, month, year, hday, hmonth, -, hd, hm, -⟩ := hdigits t hread
    rcases hfield with hfield | hfield
    · cases hday.symm.trans hfield
      exact hd.unsigned.2 hplus
    · cases hmonth.symm.trans hfield
      exact hm.unsigned.2 hplus
  · intro hplus t hread
    obtain ⟨day, hday, hd⟩ := hread.day
    obtain ⟨month, hmonth, hm⟩ := hread.month
    obtain ⟨year, hyear, hy⟩ := hread.year_digits
    refine ⟨day, month, year, hday, hmonth, hyear, hd.digits ?_, hm.digits ?_, hy⟩
    · intro hmem
      exact hplus ⟨⟨t, hread⟩, day, .inl hday, hmem⟩
    · intro hmem
      exact hplus ⟨⟨t, hread⟩, month, .inr hmonth, hmem⟩

/-- Times and dates are read from digits alone exactly where no sign is among them. -/
theorem fields_from_digits_iff (text : List UInt8) :
    (TimeFromDigits text ↔ ¬ PlusTime text) ∧ (DateFromDigits text ↔ ¬ PlusDate text) ∧
      (ZdaFromDigits text ↔ ¬ PlusZda text) :=
  ⟨timeFromDigits_iff, dateFromDigits_iff, zdaFromDigits_iff⟩

/-- `+1+2+3` is a time of day. -/
theorem plus_signs_read :
    ¬ ∀ text, TimeFromDigits text ∧ DateFromDigits text ∧ ZdaFromDigits text := by
  intro h
  have htime := (h [43, 49, 43, 50, 43, 51]).1 1 2 3 (by decide)
  exact (threePairs_digits_iff.1 htime.1).2 (by decide)

end PicoGnss
