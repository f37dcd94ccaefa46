import Mathlib.Data.Int.Order.Basic
import Mathlib.Tactic.Ring

/-! Two's-complement machine integers: integers reduced after each operation that can overflow. -/

namespace FixedWidth
set_option autoImplicit true

/-- The values of a signed 64-bit word. -/
def InI64 (x : Int) : Prop := -9223372036854775808 ≤ x ∧ x ≤ 9223372036854775807

instance : DecidablePred InI64 := fun x => by unfold InI64; infer_instance

/-- Two's-complement reduction onto the signed 64-bit words. -/
def wrap64 (x : Int) : Int :=
  (x + 9223372036854775808) % 18446744073709551616 - 9223372036854775808

theorem wrap64_inI64 (x : Int) : InI64 (wrap64 x) := by
  unfold InI64 wrap64
  omega

theorem wrap64_of_inI64 (h : InI64 x) : wrap64 x = x := by
  unfold InI64 at h
  unfold wrap64
  omega

theorem inI64_of_natAbs_lt (h : x.natAbs < 9223372036854775808) : InI64 x := by
  unfold InI64
  omega

theorem wrap64_of_natAbs_lt (h : x.natAbs < 9223372036854775808) : wrap64 x = x :=
  wrap64_of_inI64 (inI64_of_natAbs_lt h)

@[simp] theorem wrap64_zero : wrap64 0 = 0 := rfl

theorem dvd_sub_wrap64 (x : Int) : (18446744073709551616 : Int) ∣ x - wrap64 x := by
  unfold wrap64
  omega

theorem wrap64_add_wrap64 (x y : Int) : wrap64 (x + wrap64 y) = wrap64 (x + y) := by
  unfold wrap64
  omega

/-- The magnitude of a signed word; the least word has none and stays. -/
def abs64 (x : Int) : Int := wrap64 x.natAbs

theorem abs64_of_natAbs_lt (h : x.natAbs < 9223372036854775808) : abs64 x = x.natAbs :=
  wrap64_of_natAbs_lt h

theorem abs64_le (x : Int) : abs64 x ≤ x.natAbs := by
  unfold abs64 wrap64
  omega

@[simp] theorem abs64_zero : abs64 0 = 0 := rfl

/-- The result of an operation that traps outside the signed 64-bit words. -/
def checked (x : Int) : Option Int := if InI64 x then some x else none

theorem checked_of_inI64 (h : InI64 x) : checked x = some x := if_pos h

theorem checked_of_natAbs_lt (h : x.natAbs < 9223372036854775808) : checked x = some x :=
  checked_of_inI64 (inI64_of_natAbs_lt h)

theorem checked_eq_some_iff : checked x = some y ↔ InI64 x ∧ x = y := by
  rw [checked, Option.ite_none_right_eq_some, Option.some.injEq]

theorem checked_bind (h : InI64 x) (f : Int → Option α) : (checked x >>= f) = f x := by
  rw [checked_of_inI64 h]
  rfl

theorem checked_bind_of_natAbs_lt (h : x.natAbs < 9223372036854775808) (f : Int → Option α) :
    (checked x >>= f) = f x :=
  checked_bind (inI64_of_natAbs_lt h) f

theorem of_checked_bind {f : Int → Option α} (h : (checked x >>= f) = some r) : f x = some r := by
  obtain ⟨y, hy, h⟩ := Option.bind_eq_some_iff.1 h
  obtain ⟨-, rfl⟩ := checked_eq_some_iff.1 hy
  exact h

/-- Where a checked operation succeeds, the wrapping one is exact. -/
theorem wrap64_of_checked_bind {f : Int → Option α} (h : (checked x >>= f) = some r) :
    wrap64 x = x ∧ f x = some r := by
  obtain ⟨y, hy, h⟩ := Option.bind_eq_some_iff.1 h
  obtain ⟨hx, rfl⟩ := checked_eq_some_iff.1 hy
  exact ⟨wrap64_of_inI64 hx, h⟩

/-- The values of a signed 128-bit word. -/
def InI128 (x : Int) : Prop :=
  -170141183460469231731687303715884105728 ≤ x ∧ x ≤ 170141183460469231731687303715884105727

instance : DecidablePred InI128 := fun x => by unfold InI128; infer_instance

/-- The result of an operation that traps outside the signed 128-bit words. -/
def checked128 (x : Int) : Option Int := if InI128 x then some x else none

theorem checked128_bind (h : InI128 x) (f : Int → Option α) : (checked128 x >>= f) = f x := by
  rw [checked128, if_pos h]
  rfl

theorem of_checked128_bind {f : Int → Option α} (h : (checked128 x >>= f) = some r) :
    f x = some r := by
  by_cases hx : InI128 x
  · rw [checked128_bind hx] at h
    exact h
  · rw [checked128, if_neg hx] at h
    cases h

/-- The reinterpretation of an unsigned 64-bit word as a signed one. -/
def asI64 (n : Nat) : Int := wrap64 n

theorem asI64_of_lt (h : n < 9223372036854775808) : asI64 n = n := by
  apply wrap64_of_inI64
  unfold InI64
  omega

theorem asI64_inI64 (n : Nat) : InI64 (asI64 n) := wrap64_inI64 n

theorem asI64_le (n : Nat) : asI64 n ≤ n := by
  unfold asI64 wrap64
  omega

/-- Two's-complement reduction onto the signed 32-bit words. -/
def wrap32 (x : Int) : Int := (x + 2147483648) % 4294967296 - 2147483648

theorem wrap32_of_mem (hl : -2147483648 ≤ x) (hh : x < 2147483648) : wrap32 x = x := by
  unfold wrap32
  omega

theorem wrap32_bounds (x : Int) : -2147483648 ≤ wrap32 x ∧ wrap32 x < 2147483648 := by
  unfold wrap32
  omega

/-- The reinterpretation of an unsigned 32-bit word as a signed one. -/
def asI32 (x : UInt32) : Int := wrap32 x.toNat

theorem asI32_ofInt (x : Int) : asI32 (.ofInt x) = wrap32 x := by
  rw [asI32, UInt32.ofInt, UInt32.toNat_ofNat']
  unfold wrap32
  omega

theorem asI32_sub_ofInt (x : UInt32) (y : Int) : asI32 (x - .ofInt y) = wrap32 (asI32 x - y) := by
  have hx : x = .ofInt x.toNat := by
    rw [UInt32.ofInt, ← UInt32.toNat_inj, UInt32.toNat_ofNat']
    have hlt := x.toNat_lt
    omega
  have hsub : x - .ofInt y = .ofInt (x.toNat - y) := by
    rw [Int.sub_eq_add_neg, UInt32.ofInt_add, UInt32.ofInt_neg, ← UInt32.sub_eq_add_neg, ← hx]
  rw [hsub, asI32_ofInt, asI32]
  unfold wrap32
  omega

/-- Clamping to an interval, as `Ord::clamp` does. -/
def clamp (x lo hi : Int) : Int := max lo (min x hi)

theorem clamp_mem (h : lo ≤ hi) (x : Int) : lo ≤ clamp x lo hi ∧ clamp x lo hi ≤ hi := by
  unfold clamp
  omega

theorem clamp_of_mem (hl : lo ≤ x) (hh : x ≤ hi) : clamp x lo hi = x := by
  unfold clamp
  omega

theorem natAbs_clamp (x : Int) (h : 0 ≤ m) : (clamp x (-m) m).natAbs = min x.natAbs m.natAbs := by
  unfold clamp
  omega

theorem natAbs_clamp_le (x : Int) (h : 0 ≤ m) : (clamp x (-m) m).natAbs ≤ m := by
  rw [natAbs_clamp x h]
  omega

theorem natAbs_mul_le {x y : Int} {a b : Nat} (hx : x.natAbs ≤ a) (hy : y.natAbs ≤ b) :
    (x * y).natAbs ≤ a * b := by
  rw [Int.natAbs_mul]
  exact Nat.mul_le_mul hx hy

/-- Truncating division by more divides the magnitude by more. -/
theorem natAbs_tdiv_le {x k : Int} {m n : Nat} (hx : x.natAbs ≤ n) (hm : 0 < m)
    (hk : (m : Int) ≤ k) : (x.tdiv k).natAbs ≤ n / m := by
  rw [Int.natAbs_tdiv]
  exact Nat.div_le_div hx (by omega) (Nat.ne_of_gt hm)

theorem one_le_tdiv {x k : Int} (hk : 0 < k) (h : k ≤ x) : 1 ≤ x.tdiv k := by
  apply Int.le_tdiv_of_mul_le hk
  rw [Int.one_mul]
  exact h

theorem pos_of_tdiv_pos {x k : Int} (hk : 0 < k) (h : 0 < x.tdiv k) : 0 < x := by
  apply Int.not_le.1
  intro hx
  have hle := Int.tdiv_le_tdiv hk hx
  rw [Int.zero_tdiv] at hle
  exact Int.not_lt.2 hle h

/-- A non-zero unsigned 32-bit word. -/
structure NonZeroU32 where
  get : Nat
  pos : 0 < get
  lt : get < 4294967296
deriving DecidableEq

/-- A non-zero unsigned 64-bit word. -/
structure NonZeroU64 where
  get : Nat
  pos : 0 < get
  lt : get < 18446744073709551616
deriving DecidableEq

end FixedWidth
