import Mathlib.Data.Nat.ModEq
import Mathlib.Data.List.Basic
import Mathlib.Data.List.GetD

namespace Bytes
set_option autoImplicit true

/-- The bits of an octet, least significant first. -/
def bits (b : UInt8) : List Bool := (List.range 8).map b.toBitVec.getLsbD

/-- The low `n` octets of a number, most significant first. -/
def be : Nat → Nat → List UInt8
  | 0, _ => []
  | n + 1, x => .ofNat (x / 256 ^ n) :: be n x

/-- The number an octet string spells, most significant first. -/
def ofBe : List UInt8 → Nat
  | [] => 0
  | b :: l => b.toNat * 256 ^ l.length + ofBe l

def le (n x : Nat) : List UInt8 := (be n x).reverse

def ofLe (l : List UInt8) : Nat := ofBe l.reverse

@[simp] theorem length_be (n x : Nat) : (be n x).length = n := by
  induction n with
  | zero => rfl
  | succ n ih => rw [be, List.length_cons, ih]

@[simp] theorem length_le (n x : Nat) : (le n x).length = n := by
  rw [le, List.length_reverse, length_be]

theorem ofBe_be (n x : Nat) : ofBe (be n x) = x % 256 ^ n := by
  induction n with
  | zero => rw [be, ofBe, Nat.pow_zero, Nat.mod_one]
  | succ n ih =>
    rw [be, ofBe, length_be, ih, UInt8.toNat_ofNat', @Nat.pow_succ 256 n, Nat.mod_mul, Nat.add_comm,
      Nat.mul_comm (256 ^ n)]

theorem ofBe_lt (l : List UInt8) : ofBe l < 256 ^ l.length := by
  induction l with
  | nil => exact Nat.one_pos
  | cons b l ih =>
    have hb : b.toNat + 1 ≤ 256 := b.toNat_lt
    have hmul := Nat.mul_le_mul_right (256 ^ l.length) hb
    rw [Nat.add_mul, Nat.one_mul] at hmul
    rw [ofBe, List.length_cons, @Nat.pow_succ 256, Nat.mul_comm (256 ^ l.length)]
    omega

/-- The octets of a number do not depend on its multiple of the base. -/
theorem be_add_mul (n x k : Nat) : be n (x + k * 256 ^ n) = be n x := by
  induction n generalizing k with
  | zero => rfl
  | succ n ih =>
    have hk : x + k * 256 ^ (n + 1) = x + k * 256 * 256 ^ n := by
      rw [@Nat.pow_succ 256, Nat.mul_comm (256 ^ n), Nat.mul_assoc]
    have hhead : UInt8.ofNat (x / 256 ^ n + k * 256) = UInt8.ofNat (x / 256 ^ n) := by
      apply UInt8.toNat_inj.1
      rw [UInt8.toNat_ofNat', UInt8.toNat_ofNat', Nat.add_mul_mod_self_right]
    rw [hk, be, be, ih, Nat.add_mul_div_right _ _ (Nat.pow_pos (by decide)), hhead]

/-- An octet string is the big-endian numeral of what it spells. -/
theorem be_ofBe (l : List UInt8) : be l.length (ofBe l) = l := by
  induction l with
  | nil => rfl
  | cons b l ih =>
    have hdiv : (b.toNat * 256 ^ l.length + ofBe l) / 256 ^ l.length = b.toNat := by
      rw [Nat.add_comm, Nat.add_mul_div_right _ _ (Nat.pow_pos (by decide)),
        Nat.div_eq_of_lt (ofBe_lt l), Nat.zero_add]
    rw [List.length_cons, be, ofBe, hdiv, Nat.add_comm, be_add_mul, ih, UInt8.ofNat_toNat]

theorem ofLe_le (n x : Nat) : ofLe (le n x) = x % 256 ^ n := by
  rw [ofLe, le, List.reverse_reverse, ofBe_be]

theorem length_flatMap_bits (bytes : List UInt8) :
    (bytes.flatMap bits).length = 8 * bytes.length := by
  induction bytes with
  | nil => rfl
  | cons b bytes ih =>
    rw [List.flatMap_cons, List.length_append, ih, List.length_cons, bits, List.length_map,
      List.length_range]
    omega

theorem getD_bits (b : UInt8) (i : Nat) : (bits b).getD i false = b.toBitVec.getLsbD i := by
  rw [bits]
  by_cases h : i < 8
  · simp [h]
  · simp [h, BitVec.getLsbD_of_ge _ _ (Nat.le_of_not_lt h)]

/-- The octets of a number, least significant first, are its bits in that order. -/
theorem getD_bits_le (n x i : Nat) :
    ((le n x).flatMap bits).getD i false = (decide (i < 8 * n) && x.testBit i) := by
  induction n with
  | zero => rfl
  | succ n ih =>
    have hsnoc : le (n + 1) x = le n x ++ [.ofNat (x / 256 ^ n)] := List.reverse_cons
    have hlen : ((le n x).flatMap bits).length = 8 * n := by
      rw [length_flatMap_bits, length_le]
    rw [hsnoc, List.flatMap_append]
    by_cases hi : i < 8 * n
    · rw [List.getD_append _ _ _ _ (by omega), ih, decide_eq_true hi, decide_eq_true (by omega)]
    · have hbyte : (UInt8.ofNat (x / 256 ^ n)).toBitVec.getLsbD (i - 8 * n) =
          (decide (i - 8 * n < 8) && x.testBit i) := by
        have hpow : 256 ^ n = 2 ^ (8 * n) := by rw [Nat.pow_mul]
        rw [UInt8.toBitVec_ofNat', BitVec.getLsbD_ofNat, hpow, Nat.testBit_div_two_pow,
          Nat.sub_add_cancel (Nat.le_of_not_lt hi)]
      rw [List.getD_append_right _ _ _ _ (by omega), hlen, List.flatMap_singleton, getD_bits, hbyte]
      congr 1
      rw [decide_eq_decide]
      omega

/-- Replace the octets at an offset. -/
def splice (out : List UInt8) (i : Nat) (bytes : List UInt8) : List UInt8 :=
  out.take i ++ bytes ++ out.drop (i + bytes.length)

def slice (out : List UInt8) (i j : Nat) : List UInt8 := (out.take j).drop i

/-- Overwriting bytes inside a string keeps its length. -/
theorem length_splice {out bytes : List UInt8} (h : i + bytes.length ≤ out.length) :
    (splice out i bytes).length = out.length := by
  rw [splice, List.length_append, List.length_append, List.length_take, List.length_drop]
  omega

/-- Writing over the middle of three parts. -/
theorem splice_mid (hi : pre.length = i) (hm : mid.length = bytes.length) :
    splice (pre ++ (mid ++ post)) i bytes = pre ++ (bytes ++ post) := by
  have hd : (pre ++ (mid ++ post)).drop (i + bytes.length) = post := by
    rw [← hi, ← hm, ← List.length_append, ← List.append_assoc, List.drop_left]
  rw [splice, hd, ← hi, List.take_left, List.append_assoc]

/-- Writing at the end of what is written shortens the blank remainder. -/
theorem splice_blank (hi : pre.length = i) (hn : bytes.length = n) :
    splice (pre ++ List.replicate (n + k) 0) i bytes = (pre ++ bytes) ++ List.replicate k 0 := by
  rw [List.replicate_add, splice_mid hi (List.length_replicate.trans hn.symm), List.append_assoc]

theorem slice_mid (hi : pre.length = i) (hj : (pre ++ mid).length = j) :
    slice (pre ++ (mid ++ post)) i j = mid := by
  rw [slice, ← List.append_assoc, ← hj, List.take_left, ← hi, List.drop_left]

theorem slice_left (h : a.length = n) (l : List UInt8) : slice (a ++ l) 0 n = a := by
  rw [slice, List.drop_zero, List.take_left' h]

theorem slice_right (h : a.length ≤ i) (l : List UInt8) (j : Nat) :
    slice (a ++ l) i j = slice l (i - a.length) (j - a.length) := by
  have hnil : (a.take j).drop i = [] := by
    apply List.drop_eq_nil_of_le
    rw [List.length_take]
    omega
  rw [slice, slice, List.take_append, List.drop_append, hnil, List.nil_append, List.length_take]
  rcases Nat.le_total a.length j with hj | hj
  · rw [Nat.min_eq_right hj]
  · rw [Nat.sub_eq_zero_of_le hj, List.take_zero, List.drop_nil, List.drop_nil]

theorem length_slice (h : j ≤ l.length) (i : Nat) : (slice l i j).length = j - i := by
  rw [slice, List.length_drop, List.length_take, Nat.min_eq_left h]

/-- Adjacent slices make up the slice of both. -/
theorem slice_append_slice (hij : i ≤ j) (hjk : j ≤ k) (l : List UInt8) :
    slice l i j ++ slice l j k = slice l i k := by
  have htake : l.take j = (l.take k).take j := by rw [List.take_take, Nat.min_eq_left hjk]
  have hdrop : (l.take k).drop j = ((l.take k).drop i).drop (j - i) := by
    rw [List.drop_drop, Nat.add_sub_cancel' hij]
  rw [slice, slice, slice, htake, hdrop, List.drop_take, List.take_append_drop]

end Bytes
