import PicoGnss.Lib.Bytes
import PicoGnss.Lib.FixedWidth

namespace PicoGnss
set_option autoImplicit true

open FixedWidth Bytes

def daysFromCivil (y m d : Int) : Int :=
  let y := if m ≤ 2 then y - 1 else y
  let era := (if 0 ≤ y then y else y - 399).tdiv 400
  let yoe := y - era * 400
  let doy := (153 * (if 2 < m then m - 3 else m + 9) + 2).tdiv 5 + d - 1
  let doe := yoe * 365 + yoe.tdiv 4 - yoe.tdiv 100 + doy
  era * 146097 + doe - 719468

def civilToUnix (y mo d h mi s : Int) : Int :=
  daysFromCivil y mo d * 86400 + h * 3600 + mi * 60 + s

def isCharBoundary (s : List UInt8) (i : Nat) : Bool :=
  match s[i]? with
  | some b => i = 0 || b.toNat < 128 || 192 ≤ b.toNat
  | none => i = s.length

/-- `str::get` of a byte range. -/
def strGet (s : List UInt8) (i j : Nat) : Option (List UInt8) :=
  if i ≤ j && j ≤ s.length && isCharBoundary s i && isCharBoundary s j then some (slice s i j)
  else none

def parseDigits (max acc : Nat) : List UInt8 → Option Nat
  | [] => some acc
  | b :: rest =>
    if 48 ≤ b.toNat && b.toNat ≤ 57 then
      let acc := acc * 10 + (b.toNat - 48)
      if acc ≤ max then parseDigits max acc rest else none
    else none

/-- `str::parse` of an unsigned number up to `max`; a leading plus sign is accepted. -/
def parseUnsigned (max : Nat) : List UInt8 → Option Nat
  | [] => none
  | [b] => if b.toNat = 43 then none else parseDigits max 0 [b]
  | b :: rest => if b.toNat = 43 then parseDigits max 0 rest else parseDigits max 0 (b :: rest)

def parseU8 : List UInt8 → Option Nat := parseUnsigned 255
def parseU16 : List UInt8 → Option Nat := parseUnsigned 65535

/-- `str::split` at a one-byte separator. -/
def splitAtByte (sep : UInt8) : List UInt8 → List (List UInt8)
  | [] => [[]]
  | b :: rest =>
    let parts := splitAtByte sep rest
    if b = sep then [] :: parts
    else match parts with
      | part :: parts => (b :: part) :: parts
      | [] => [[b]]

def parseHhmmss (field : List UInt8) : Option (Nat × Nat × Nat) := do
  let intPart := (splitAtByte 46 field).headD field
  guard (6 ≤ intPart.length)
  let h ← parseU8 (← strGet intPart 0 2)
  let mi ← parseU8 (← strGet intPart 2 4)
  let s ← parseU8 (← strGet intPart 4 6)
  guard (h ≤ 23 ∧ mi ≤ 59 ∧ s ≤ 60)
  some (h, mi, s)

def parseDdmmyy (field : List UInt8) : Option (Nat × Nat × Nat) := do
  guard (6 ≤ field.length)
  let d ← parseU8 (← strGet field 0 2)
  let mo ← parseU8 (← strGet field 2 4)
  let yy ← parseU16 (← strGet field 4 6)
  guard ((1 ≤ d ∧ d ≤ 31) ∧ 1 ≤ mo ∧ mo ≤ 12)
  some (d, mo, 2000 + yy)

/-- The time and date of one sentence. -/
structure RmcTimeDate where
  hour : Nat
  minute : Nat
  second : Nat
  day : Nat
  month : Nat
  year : Nat
deriving DecidableEq

/-- The bytes of `RMC`. -/
def rmcTag : List UInt8 := [82, 77, 67]

/-- The bytes of `ZDA`. -/
def zdaTag : List UInt8 := [90, 68, 65]

def parseRmcTimeDate (sentence : List UInt8) : Option RmcTimeDate := do
  guard (strGet sentence 3 6 = some rmcTag)
  let (h, mi, s) ← parseHhmmss (← (splitAtByte 44 sentence)[1]?)
  let (d, mo, y) ← parseDdmmyy (← (splitAtByte 44 sentence)[9]?)
  some ⟨h, mi, s, d, mo, y⟩

def daysInMonth (month year : Nat) : Nat :=
  match month with
  | 1 | 3 | 5 | 7 | 8 | 10 | 12 => 31
  | 4 | 6 | 9 | 11 => 30
  | 2 => if (year % 4 = 0 ∧ year % 100 ≠ 0) ∨ year % 400 = 0 then 29 else 28
  | _ => 0

def parseZdaTimeDate (sentence : List UInt8) : Option RmcTimeDate := do
  guard (strGet sentence 3 6 = some zdaTag)
  let f := splitAtByte 44 sentence
  let (h, mi, s) ← parseHhmmss (← f[1]?)
  let day ← parseU8 (← f[2]?)
  let month ← parseU8 (← f[3]?)
  let yearField ← f[4]?
  guard (yearField.length = 4)
  let year ← parseU16 yearField
  guard (1980 ≤ year)
  guard ((1 ≤ month ∧ month ≤ 12) ∧ 1 ≤ day ∧ day ≤ daysInMonth month year)
  some ⟨h, mi, s, day, month, year⟩

structure SyncEpoch where
  captureNs : Nat
  queryNs : Nat
  unixNs : Int
deriving DecidableEq

inductive PpsNmeaAssociation where
  | sameSecond
  | nmeaIsPreviousSecond
  | nmeaIsNextSecond
deriving DecidableEq

def PpsNmeaAssociation.edgeOffsetSeconds : PpsNmeaAssociation → Int
  | sameSecond => 0
  | nmeaIsPreviousSecond => 1
  | nmeaIsNextSecond => -1

structure PpsTimeSync where
  association : PpsNmeaAssociation
  lastDate : Option (Nat × Nat × Nat)
  pending : Option (Nat × Nat)
deriving DecidableEq

namespace PpsTimeSync

def withAssociation (association : PpsNmeaAssociation) : PpsTimeSync where
  association := association
  lastDate := none
  pending := none

def onPpsEdge (sync : PpsTimeSync) (captureNs queryNs : Nat) : PpsTimeSync :=
  { sync with pending := some (captureNs, queryNs) }

def setDate (sync : PpsTimeSync) (year month day : Nat) : PpsTimeSync :=
  { sync with lastDate := some (year, month, day) }

def onTime (sync : PpsTimeSync) (h mi s : Nat) : Option SyncEpoch × PpsTimeSync :=
  match sync.lastDate with
  | none => (none, sync)
  | some (y, mo, d) =>
    match sync.pending with
    | none => (none, sync)
    | some (captureNs, queryNs) =>
      let unixS := civilToUnix y mo d h mi s + sync.association.edgeOffsetSeconds
      (some ⟨captureNs, queryNs, wrap64 (unixS * 1000000000)⟩, { sync with pending := none })

end PpsTimeSync

/-- The ranges that a parsed time and date stay in. -/
structure RmcTimeDate.Valid (t : RmcTimeDate) : Prop where
  hour_le : t.hour ≤ 23
  minute_le : t.minute ≤ 59
  second_le : t.second ≤ 60
  day_mem : 1 ≤ t.day ∧ t.day ≤ 31
  month_mem : 1 ≤ t.month ∧ t.month ≤ 12
  year_mem : 1980 ≤ t.year ∧ t.year ≤ 67535

def RmcTimeDate.toUnix (t : RmcTimeDate) : Int :=
  civilToUnix t.year t.month t.day t.hour t.minute t.second

theorem guard_eq_some {p : Prop} [Decidable p] : (guard p : Option Unit) = some u ↔ p := by
  by_cases h : p <;> simp [guard, h]

theorem daysInMonth_le (month year : Nat) : daysInMonth month year ≤ 31 := by
  have hfeb : (if (year % 4 = 0 ∧ year % 100 ≠ 0) ∨ year % 400 = 0 then 29 else 28) ≤ 31 := by
    split <;> decide
  unfold daysInMonth
  split
  case h_12 => exact hfeb
  all_goals decide

end PicoGnss
