import Mathlib.Algebra.GroupWithZero.Nat
import Mathlib.Data.List.Basic

/-! Ones'-complement sums: addition with end-around carry below the all-ones word. -/

namespace OnesComplement
set_option autoImplicit true

variable (m : Nat)

def add (a b : Nat) : Nat := if a + b ≤ m then a + b else a + b - m

def endAroundSum (ws : List Nat) : Nat := ws.foldl (add m) 0

/-- The word that a natural number folds to: all carries added back in. -/
structure Folds (r n : Nat) : Prop where
  le : r ≤ m
  congr : r % m = n % m
  zero : r = 0 ↔ n = 0

/-- The big-endian words of an octet string; an odd last octet is a high half. -/
def words : List UInt8 → List Nat
  | a :: b :: rest => (a.toNat * 256 + b.toNat) :: words rest
  | [a] => [a.toNat * 256]
  | [] => []

/-- What a receiver checks of words that include their own checksum. -/
def Verifies (ws : List Nat) : Prop := endAroundSum m ws = m

variable {m}

theorem Folds.self (h : n ≤ m) : Folds m n n := ⟨h, rfl, Iff.rfl⟩

theorem Folds.carry (hr : Folds m r n) (hw : w ≤ m) : Folds m (add m r w) (n + w) := by
  have hle := hr.le
  have hz := hr.zero
  by_cases h : r + w ≤ m
  · rw [add, if_pos h]
    exact ⟨h, by rw [Nat.add_mod, hr.congr, ← Nat.add_mod], by omega⟩
  · rw [add, if_neg h]
    refine ⟨by omega, ?_, by omega⟩
    rw [← Nat.mod_eq_sub_mod (by omega), Nat.add_mod, hr.congr, ← Nat.add_mod]

theorem foldl_folds (ws : List Nat) (hr : Folds m r n) (h : ∀ w ∈ ws, w ≤ m) :
    Folds m (ws.foldl (add m) r) (n + ws.sum) := by
  induction ws generalizing r n with
  | nil => exact hr
  | cons w ws ih =>
    rw [List.sum_cons, ← Nat.add_assoc]
    exact ih (hr.carry (h w List.mem_cons_self)) fun v hv => h v (List.mem_cons_of_mem _ hv)

theorem endAroundSum_folds (ws : List Nat) (h : ∀ w ∈ ws, w ≤ m) :
    Folds m (endAroundSum m ws) ws.sum := by
  have hf := foldl_folds ws (Folds.self (Nat.zero_le m)) h
  rwa [Nat.zero_add] at hf

/-- A sum is all ones exactly when it is a positive multiple of the modulus. -/
theorem Folds.eq_ones (h : Folds m r n) (hn : n ≠ 0) (hd : m ∣ n) : r = m := by
  have hr : r % m = 0 := h.congr.trans (Nat.mod_eq_zero_of_dvd hd)
  have hpos : r ≠ 0 := fun h0 => hn (h.zero.1 h0)
  rcases Nat.lt_or_eq_of_le h.le with hlt | heq
  · rw [Nat.mod_eq_of_lt hlt] at hr
    exact absurd hr hpos
  · exact heq

theorem verifies_of_dvd (hw : ∀ w ∈ ws, w ≤ m) (hs : ws.sum ≠ 0) (hd : m ∣ ws.sum) :
    Verifies m ws :=
  (endAroundSum_folds ws hw).eq_ones hs hd

/-- Adding the complement of a sum makes all ones. -/
theorem Folds.dvd_add_complement (h : Folds m r n) : m ∣ n + (m - r) := by
  apply Nat.dvd_of_mod_eq_zero
  rw [Nat.add_mod, ← h.congr, ← Nat.add_mod, Nat.add_sub_cancel' h.le, Nat.mod_self]

theorem Folds.add_complement_ne_zero (h : Folds m r n) (hm : 0 < m) : n + (m - r) ≠ 0 := by
  have hz := h.zero
  omega

theorem words_le (data : List UInt8) : ∀ w ∈ words data, w ≤ 65535 := by
  induction data using words.induct with
  | case1 a b rest ih =>
    intro w hw
    have ha := a.toNat_lt
    have hb := b.toNat_lt
    rcases List.mem_cons.1 hw with rfl | hw
    · omega
    · exact ih w hw
  | case2 a =>
    intro w hw
    have ha := a.toNat_lt
    rw [words, List.mem_singleton] at hw
    omega
  | case3 =>
    intro w hw
    cases hw

theorem words_sum_le (data : List UInt8) : (words data).sum ≤ 65535 * ((data.length + 1) / 2) := by
  induction data using words.induct with
  | case1 a b rest ih =>
    have ha := a.toNat_lt
    have hb := b.toNat_lt
    rw [words, List.sum_cons, List.length_cons, List.length_cons]
    omega
  | case2 a =>
    have ha := a.toNat_lt
    simp only [words, List.sum_cons, List.sum_nil, List.length_singleton]
    omega
  | case3 => exact Nat.zero_le _

/-- Words do not straddle two parts when the first has even length. -/
theorem words_append (h : pre.length % 2 = 0) : words (pre ++ post) = words pre ++ words post := by
  induction pre using words.induct with
  | case1 a b rest ih =>
    have hr : rest.length % 2 = 0 := by
      simp only [List.length_cons] at h
      omega
    exact congrArg _ (ih hr)
  | case2 a => cases h
  | case3 => rfl

end OnesComplement
