import PicoGnss.RpPps.Assembler
import PicoGnss.RpPps.Sentences

/-! The checksum of a framed sentence, and the language that its validation accepts. -/

namespace PicoGnss
open Numerals Utf8
set_option autoImplicit true

def star : UInt8 := 42

def nmeaChecksum (payload : List UInt8) : UInt8 := payload.foldl (fun cs b => cs ^^^ b) 0

/-- `str::strip_prefix`, or else the whole. -/
def stripDollar : List UInt8 → List UInt8
  | [] => []
  | b :: rest => if b = dollar then rest else b :: rest

/-- `str::split_once` at a one-byte separator. -/
def splitOnce (sep : UInt8) : List UInt8 → Option (List UInt8 × List UInt8)
  | [] => none
  | b :: rest =>
    if b = sep then some ([], rest)
    else (splitOnce sep rest).map fun (before, after) => (b :: before, after)

/-- `char::to_digit` with radix 16. -/
def hexDigit (b : UInt8) : Option Nat :=
  if 48 ≤ b.toNat ∧ b.toNat ≤ 57 then some (b.toNat - 48)
  else if 65 ≤ b.toNat ∧ b.toNat ≤ 70 then some (b.toNat - 55)
  else if 97 ≤ b.toNat ∧ b.toNat ≤ 102 then some (b.toNat - 87)
  else none

/-- `u8::from_str_radix` with radix 16. -/
def u8FromHex (hex : List UInt8) : Option Nat := parse hexDigit 16 plusSign 255 hex

def nmeaChecksumValid (sentence : List UInt8) : Bool :=
  let body := stripDollar sentence
  match splitOnce star body with
  | none => false
  | some (payload, sum) =>
    match strGet sum 0 2 with
    | none => false
    | some hex =>
      match u8FromHex hex with
      | none => false
      | some expected => (nmeaChecksum payload).toNat = expected

theorem splitOnce_eq_some_iff :
    splitOnce sep s = some (before, after) ↔ sep ∉ before ∧ s = before ++ sep :: after := by
  induction s generalizing before with
  | nil =>
    refine iff_of_false nofun ?_
    rintro ⟨-, heq⟩
    exact absurd heq.symm (List.append_ne_nil_of_right_ne_nil _ (List.cons_ne_nil _ _))
  | cons b s ih =>
    rw [splitOnce]
    by_cases hb : b = sep
    · rw [if_pos hb, hb]
      constructor
      · intro h
        cases h
        exact ⟨List.not_mem_nil, rfl⟩
      · rintro ⟨hmem, heq⟩
        cases before with
        | nil =>
          cases heq
          rfl
        | cons b' before =>
          cases heq
          exact absurd (List.mem_cons_self ..) hmem
    · rw [if_neg hb, Option.map_eq_some_iff]
      constructor
      · rintro ⟨⟨before', after'⟩, hsplit, heq⟩
        cases heq
        obtain ⟨hmem, rfl⟩ := ih.1 hsplit
        refine ⟨?_, rfl⟩
        exact List.not_mem_cons_of_ne_of_not_mem (Ne.symm hb) hmem
      · rintro ⟨hmem, heq⟩
        cases before with
        | nil =>
          cases heq
          exact absurd rfl hb
        | cons b' before =>
          cases heq
          exact ⟨(before, after), ih.2 ⟨fun h => hmem (List.mem_cons_of_mem _ h), rfl⟩, rfl⟩

theorem hexDigit_lt (h : hexDigit b = some d) : b.toNat < 128 ∧ d < 16 := by
  unfold hexDigit at h
  split at h
  · cases h
    omega
  · split at h
    · cases h
      omega
    · split at h
      · cases h
        omega
      · cases h

/-- Two characters are two digits, or a sign and a digit. -/
theorem u8FromHex_pair : u8FromHex [h₁, h₂] = some n ↔
    (∃ a b, hexDigit h₁ = some a ∧ hexDigit h₂ = some b ∧ a * 16 + b = n) ∨
      h₁ = plusSign ∧ hexDigit h₂ = some n := by
  have hsigned : SpellsSigned hexDigit 16 plusSign [h₁, h₂] n ↔
      (∃ a b, hexDigit h₁ = some a ∧ hexDigit h₂ = some b ∧ a * 16 + b = n) ∨
        h₁ = plusSign ∧ hexDigit h₂ = some n := by
    rw [SpellsSigned, spells_pair_iff]
    apply or_congr Iff.rfl
    constructor
    · rintro ⟨r, heq, h⟩
      cases heq
      exact ⟨rfl, spells_singleton_iff.1 h⟩
    · rintro ⟨rfl, h⟩
      exact ⟨[h₂], rfl, spells_singleton_iff.2 h⟩
  rw [u8FromHex, parse_eq_some_iff (by decide) rfl, hsigned]
  apply and_iff_left_of_imp
  rintro (⟨a, b, ha, hb, rfl⟩ | ⟨-, h⟩)
  · have ha := (hexDigit_lt ha).2
    have hb := (hexDigit_lt hb).2
    omega
  · have hn := (hexDigit_lt h).2
    omega

/-- What is before the first star, and the two bytes after it. -/
def SplitsAtStar (s payload : List UInt8) (h₁ h₂ : UInt8) (rest : List UInt8) : Prop :=
  stripDollar s = payload ++ star :: h₁ :: h₂ :: rest ∧ star ∉ payload

/-- Two hexadecimal digits after the first star are the checksum of what is before it. -/
def Checksummed (s : List UInt8) : Prop :=
  ∃ payload h₁ h₂ rest a b, SplitsAtStar s payload h₁ h₂ rest ∧
    hexDigit h₁ = some a ∧ hexDigit h₂ = some b ∧ a * 16 + b = (nmeaChecksum payload).toNat

/-- A plus sign and one digit, which is the checksum, after the first star. -/
def PlusChecksum (s : List UInt8) : Prop :=
  ∃ payload h rest, SplitsAtStar s payload plusSign h rest ∧
    hexDigit h = some (nmeaChecksum payload).toNat

theorem SplitsAtStar.unique (h : SplitsAtStar s p a b r) (h' : SplitsAtStar s p' a' b' r') :
    p = p' ∧ a = a' ∧ b = b' := by
  have hsplit := splitOnce_eq_some_iff.2 ⟨h.2, h.1⟩
  rw [splitOnce_eq_some_iff.2 ⟨h'.2, h'.1⟩] at hsplit
  cases hsplit
  exact ⟨rfl, rfl, rfl⟩

theorem strGet_pair_iff : strGet sum 0 2 = some hex ↔
    ∃ h₁ h₂ rest, sum = h₁ :: h₂ :: rest ∧ AtBoundary rest ∧ hex = [h₁, h₂] := by
  rw [strGet_eq_some_iff]
  constructor
  · rintro ⟨-, hlen, -, hbound, rfl⟩
    match sum with
    | h₁ :: h₂ :: rest => exact ⟨h₁, h₂, rest, rfl, hbound.resolve_left (by decide), rfl⟩
  · rintro ⟨h₁, h₂, rest, rfl, hbound, rfl⟩
    exact ⟨by decide, Nat.le_add_left 2 rest.length, .inl rfl, .inr hbound, rfl⟩

theorem nmeaChecksumValid_eq_true_iff : nmeaChecksumValid s = true ↔
    ∃ payload sum hex, splitOnce star (stripDollar s) = some (payload, sum) ∧
      strGet sum 0 2 = some hex ∧ u8FromHex hex = some (nmeaChecksum payload).toNat := by
  constructor
  · intro h
    simp only [nmeaChecksumValid] at h
    split at h
    · cases h
    · rename_i payload sum hsplit
      split at h
      · cases h
      · rename_i hex hhex
        split at h
        · cases h
        · rename_i expected hvalue
          rw [← of_decide_eq_true h] at hvalue
          exact ⟨payload, sum, hex, hsplit, hhex, hvalue⟩
  · rintro ⟨payload, sum, hex, hsplit, hhex, hvalue⟩
    simp only [nmeaChecksumValid, hsplit, hhex, hvalue, decide_true]

/-- Validation, as long as no character is cut in two. -/
theorem nmeaChecksumValid_iff : nmeaChecksumValid s = true ↔
    ∃ payload h₁ h₂ rest, SplitsAtStar s payload h₁ h₂ rest ∧ AtBoundary rest ∧
      u8FromHex [h₁, h₂] = some (nmeaChecksum payload).toNat := by
  rw [nmeaChecksumValid_eq_true_iff]
  constructor
  · rintro ⟨payload, sum, hex, hsplit, hhex, hvalue⟩
    obtain ⟨h₁, h₂, rest, rfl, hbound, rfl⟩ := strGet_pair_iff.1 hhex
    obtain ⟨hmem, heq⟩ := splitOnce_eq_some_iff.1 hsplit
    exact ⟨payload, h₁, h₂, rest, ⟨heq, hmem⟩, hbound, hvalue⟩
  · rintro ⟨payload, h₁, h₂, rest, ⟨heq, hmem⟩, hbound, hvalue⟩
    exact ⟨payload, _, _, splitOnce_eq_some_iff.2 ⟨hmem, heq⟩,
      strGet_pair_iff.2 ⟨h₁, h₂, rest, rfl, hbound, rfl⟩, hvalue⟩

/-- A star and a hexadecimal digit are characters of one byte, so that another one follows. -/
theorem SplitsAtStar.atBoundary {text : String} (h : SplitsAtStar (utf8 text) payload h₁ h₂ rest)
    (hlow : h₂.toNat < 128) : AtBoundary rest := by
  have hpart {s : List UInt8} : ∃ before, s = before ++ stripDollar s := by
    cases s with
    | nil => exact ⟨[], rfl⟩
    | cons b s =>
      rw [stripDollar]
      split
      · exact ⟨[b], rfl⟩
      · exact ⟨[], rfl⟩
  intro b hb
  obtain ⟨before, hbefore⟩ := hpart (s := utf8 text)
  obtain ⟨rest, rfl⟩ := List.head?_eq_some_iff.1 hb
  have hat : utf8 text = (before ++ (payload ++ [star, h₁])) ++ h₂ :: b :: rest := by
    rw [hbefore, h.1]
    simp only [List.append_assoc, List.cons_append, List.nil_append]
  exact starts_of_low hat hlow

theorem checksum_accepts (text : String) :
    nmeaChecksumValid (utf8 text) = true ↔ Checksummed (utf8 text) ∨ PlusChecksum (utf8 text) := by
  rw [nmeaChecksumValid_iff]
  constructor
  · rintro ⟨payload, h₁, h₂, rest, hsplit, -, hvalue⟩
    rcases u8FromHex_pair.1 hvalue with ⟨a, b, ha, hb, heq⟩ | ⟨rfl, hb⟩
    · exact .inl ⟨payload, h₁, h₂, rest, a, b, hsplit, ha, hb, heq⟩
    · exact .inr ⟨payload, h₂, rest, hsplit, hb⟩
  · rintro (⟨payload, h₁, h₂, rest, a, b, hsplit, ha, hb, heq⟩ | ⟨payload, h, rest, hsplit, hb⟩)
    · exact ⟨payload, h₁, h₂, rest, hsplit, hsplit.atBoundary (hexDigit_lt hb).1,
        u8FromHex_pair.2 (.inl ⟨a, b, ha, hb, heq⟩)⟩
    · exact ⟨payload, plusSign, h, rest, hsplit, hsplit.atBoundary (hexDigit_lt hb).1,
        u8FromHex_pair.2 (.inr ⟨rfl, hb⟩)⟩

theorem PlusChecksum.not_checksummed (h : PlusChecksum s) : ¬ Checksummed s := by
  obtain ⟨payload, d, rest, hsplit, -⟩ := h
  rintro ⟨payload', h₁, h₂, rest', a, b, hsplit', ha, -⟩
  obtain ⟨-, hplus, -⟩ := hsplit'.unique hsplit
  rw [hplus] at ha
  cases ha

/-- Validation accepts exactly the grammar where no sign stands for a digit. -/
theorem checksum_grammar_iff (text : String) :
    (nmeaChecksumValid (utf8 text) = true ↔ Checksummed (utf8 text)) ↔
      ¬ PlusChecksum (utf8 text) := by
  rw [checksum_accepts]
  constructor
  · intro h hplus
    exact hplus.not_checksummed (h.1 (.inr hplus))
  · intro hplus
    exact or_iff_left hplus

/-- `*+0` has the checksum of nothing. -/
theorem plus_checksum_accepted :
    ¬ ∀ text, nmeaChecksumValid (utf8 text) = true ↔ Checksummed (utf8 text) := by
  intro h
  have hplus : PlusChecksum (utf8 "*+0") :=
    ⟨[], 48, [], ⟨by decide, by decide⟩, by decide⟩
  exact hplus.not_checksummed ((h "*+0").1 (by decide))

end PicoGnss
