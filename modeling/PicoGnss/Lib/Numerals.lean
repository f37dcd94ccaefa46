import Mathlib.Algebra.GroupWithZero.Nat
import Mathlib.Data.List.Induction

/-! Positional numerals, most significant digit first, and how they are read. -/

namespace Numerals
set_option autoImplicit true

variable {α : Type u} {digit : α → Option Nat} {base : Nat}

/-- A numeral is a digit, or a numeral and a digit after it. -/
inductive Spells (digit : α → Option Nat) (base : Nat) : List α → Nat → Prop where
  | digit : digit a = some d → Spells digit base [a] d
  | snoc : Spells digit base s n → digit a = some d → Spells digit base (s ++ [a]) (n * base + d)

/-- What a string of digits makes of the number before it. -/
def readFrom (digit : α → Option Nat) (base acc : Nat) : List α → Option Nat
  | [] => some acc
  | a :: s => do readFrom digit base (acc * base + (← digit a)) s

/-- The same, given up as soon as the number is too large. -/
def readUpTo (digit : α → Option Nat) (base limit acc : Nat) : List α → Option Nat
  | [] => some acc
  | a :: s => do
    let acc := acc * base + (← digit a)
    if acc ≤ limit then readUpTo digit base limit acc s else none

/-- A number with or without a sign before it, which is no numeral by itself. -/
def parse [DecidableEq α] (digit : α → Option Nat) (base : Nat) (sign : α) (limit : Nat) :
    List α → Option Nat
  | [] => none
  | [a] => if a = sign then none else readUpTo digit base limit 0 [a]
  | a :: s =>
    if a = sign then readUpTo digit base limit 0 s else readUpTo digit base limit 0 (a :: s)

theorem readFrom_append (acc : Nat) (s t : List α) : readFrom digit base acc (s ++ t) =
    (readFrom digit base acc s).bind (readFrom digit base · t) := by
  induction s generalizing acc with
  | nil => rfl
  | cons a s ih =>
    simp only [List.cons_append, readFrom, ih, Option.bind_eq_bind, Option.bind_assoc]

theorem readFrom_le (hbase : 0 < base) (h : readFrom digit base acc s = some n) : acc ≤ n := by
  induction s generalizing acc with
  | nil =>
    cases h
    exact Nat.le_refl _
  | cons a s ih =>
    obtain ⟨d, -, h⟩ := Option.bind_eq_some_iff.1 h
    exact Nat.le_trans (Nat.le_trans (Nat.le_mul_of_pos_right acc hbase) (Nat.le_add_right _ d))
      (ih h)

/-- Digits only add: a number that is too large on the way is too large in the end. -/
theorem readUpTo_eq_some_iff (hbase : 0 < base) (hacc : acc ≤ limit) :
    readUpTo digit base limit acc s = some n ↔ readFrom digit base acc s = some n ∧ n ≤ limit := by
  induction s generalizing acc with
  | nil =>
    constructor
    · intro h
      cases h
      exact ⟨rfl, hacc⟩
    · exact And.left
  | cons a s ih =>
    simp only [readUpTo, readFrom, Option.bind_eq_bind, Option.bind_eq_some_iff]
    constructor
    · rintro ⟨d, hd, h⟩
      split at h
      · rename_i hle
        obtain ⟨h, hn⟩ := (ih hle).1 h
        exact ⟨⟨d, hd, h⟩, hn⟩
      · cases h
    · rintro ⟨⟨d, hd, h⟩, hn⟩
      have hle := Nat.le_trans (readFrom_le hbase h) hn
      refine ⟨d, hd, ?_⟩
      rw [if_pos hle]
      exact (ih hle).2 ⟨h, hn⟩

theorem Spells.readFrom (h : Spells digit base s n) : readFrom digit base 0 s = some n := by
  induction h with
  | digit hd =>
    simp only [Numerals.readFrom, hd, Nat.zero_mul, Nat.zero_add]
    rfl
  | snoc h hd ih =>
    rw [readFrom_append, ih]
    simp only [Option.bind_some, Numerals.readFrom, hd]
    rfl

theorem Spells.ne_nil (h : Spells digit base s n) : s ≠ [] := by
  cases h with
  | digit => exact List.cons_ne_nil _ _
  | snoc => exact List.append_ne_nil_of_right_ne_nil _ (List.cons_ne_nil _ _)

theorem spells_of_readFrom (hs : s ≠ []) (h : readFrom digit base 0 s = some n) :
    Spells digit base s n := by
  induction s using List.reverseRecOn generalizing n with
  | nil => exact absurd rfl hs
  | append_singleton s a ih =>
    rw [readFrom_append] at h
    obtain ⟨m, hm, h⟩ := Option.bind_eq_some_iff.1 h
    obtain ⟨d, hd, h⟩ := Option.bind_eq_some_iff.1 h
    cases h
    cases s with
    | nil =>
      cases hm
      rw [Nat.zero_mul, Nat.zero_add]
      exact .digit hd
    | cons b s => exact .snoc (ih (List.cons_ne_nil b s) hm) hd

theorem spells_iff_readFrom (hs : s ≠ []) :
    Spells digit base s n ↔ readFrom digit base 0 s = some n :=
  ⟨Spells.readFrom, spells_of_readFrom hs⟩

theorem spells_singleton_iff : Spells digit base [a] n ↔ digit a = some n := by
  rw [spells_iff_readFrom (List.cons_ne_nil _ _)]
  simp only [readFrom, Nat.zero_mul, Nat.zero_add, Option.bind_eq_bind, Option.bind_eq_some_iff,
    Option.some.injEq, exists_eq_right]

theorem spells_pair_iff : Spells digit base [a, b] n ↔
    ∃ c d, digit a = some c ∧ digit b = some d ∧ c * base + d = n := by
  rw [spells_iff_readFrom (List.cons_ne_nil _ _)]
  simp only [readFrom, Nat.zero_mul, Nat.zero_add, Option.bind_eq_bind, Option.bind_eq_some_iff,
    Option.some.injEq, exists_and_left]

/-- Reading is exact: the numerals up to the limit, and what they spell. -/
theorem readUpTo_eq_some_iff_spells (hbase : 0 < base) (hs : s ≠ []) :
    readUpTo digit base limit 0 s = some n ↔ Spells digit base s n ∧ n ≤ limit := by
  rw [readUpTo_eq_some_iff hbase (Nat.zero_le limit), spells_iff_readFrom hs]

/-- A numeral with or without a sign before it. -/
def SpellsSigned (digit : α → Option Nat) (base : Nat) (sign : α) (s : List α) (n : Nat) : Prop :=
  Spells digit base s n ∨ ∃ r, s = sign :: r ∧ Spells digit base r n

theorem Spells.mem (h : Spells digit base s n) : ∀ a ∈ s, (digit a).isSome := by
  induction h with
  | digit hd =>
    intro a ha
    rw [List.mem_singleton.1 ha, hd]
    rfl
  | snoc h hd ih =>
    intro a ha
    rcases List.mem_append.1 ha with ha | ha
    · exact ih a ha
    · rw [List.mem_singleton.1 ha, hd]
      rfl

theorem parse_eq_some_iff [DecidableEq α] {sign : α} (hbase : 0 < base)
    (hsign : digit sign = none) :
    parse digit base sign limit s = some n ↔ SpellsSigned digit base sign s n ∧ n ≤ limit := by
  have hplain (hs : s ≠ []) (hfirst : ∀ r, s ≠ sign :: r) :
      readUpTo digit base limit 0 s = some n ↔ SpellsSigned digit base sign s n ∧ n ≤ limit := by
    rw [readUpTo_eq_some_iff_spells hbase hs]
    apply and_congr_left
    intro _
    constructor
    · exact .inl
    · rintro (h | ⟨r, hr, -⟩)
      · exact h
      · exact absurd hr (hfirst r)
  have hnone {r : List α} (h : Spells digit base (sign :: r) n) : False := by
    have hdigit := h.mem sign (List.mem_cons_self ..)
    rw [hsign] at hdigit
    cases hdigit
  have hsigned {r : List α} (hs : s = sign :: r) :
      SpellsSigned digit base sign s n ↔ Spells digit base r n := by
    subst hs
    constructor
    · rintro (h | ⟨r', hr, h⟩)
      · exact (hnone h).elim
      · cases hr
        exact h
    · intro h
      exact .inr ⟨r, rfl, h⟩
  match s with
  | [] =>
    refine iff_of_false nofun ?_
    rintro ⟨h | ⟨r, hr, -⟩, -⟩
    · exact h.ne_nil rfl
    · cases hr
  | [a] =>
    by_cases ha : a = sign
    · rw [parse, if_pos ha, hsigned (by rw [ha])]
      exact iff_of_false nofun fun h => h.1.ne_nil rfl
    · rw [parse, if_neg ha]
      apply hplain (List.cons_ne_nil _ _)
      intro r hr
      cases hr
      exact ha rfl
  | a :: b :: s =>
    by_cases ha : a = sign
    · rw [parse, if_pos ha, hsigned (by rw [ha]),
        readUpTo_eq_some_iff_spells hbase (List.cons_ne_nil b s)]
      exact nofun
    · rw [parse, if_neg ha]
      · apply hplain (List.cons_ne_nil _ _)
        intro r hr
        cases hr
        exact ha rfl
      · exact nofun

/-- A numeral of `k` digits is below the power of the base. -/
theorem Spells.lt_pow (hdigit : ∀ a d, digit a = some d → d < base)
    (h : Spells digit base s n) : n < base ^ s.length := by
  induction h with
  | digit hd =>
    rw [List.length_singleton, Nat.pow_one]
    exact hdigit _ _ hd
  | @snoc s n a d h hd ih =>
    have hd := hdigit _ _ hd
    rw [List.length_append, List.length_singleton, Nat.pow_succ]
    calc n * base + d < n * base + base := Nat.add_lt_add_left hd _
      _ = (n + 1) * base := (Nat.succ_mul n base).symm
      _ ≤ base ^ s.length * base := Nat.mul_le_mul_right base ih

end Numerals
