import Mathlib.Data.List.Basic

/-! Reflected cyclic redundancy checks: the bitwise register and its table-driven form. -/

namespace Crc
set_option autoImplicit true

variable {w : Nat} (poly : BitVec w)

/-- Fold the polynomial in when a one falls out of the register. -/
def shift (c : BitVec w) : BitVec w :=
  if c.getLsbD 0 then (c >>> 1) ^^^ poly else c >>> 1

def shifts : Nat → BitVec w → BitVec w
  | 0, c => c
  | n + 1, c => shifts n (shift poly c)

/-- Take one message bit into the register. -/
def feedBit (c : BitVec w) (b : Bool) : BitVec w :=
  if c.getLsbD 0 ^^ b then (c >>> 1) ^^^ poly else c >>> 1

def feed (c : BitVec w) (bits : List Bool) : BitVec w := bits.foldl (feedBit poly) c

/-- The register holding a bit string, first bit in the least significant place. -/
def ofBits : List Bool → BitVec w
  | [] => 0#w
  | b :: bits => (ofBits bits <<< 1) ^^^ (BitVec.ofBool b).setWidth w

theorem feed_append (c : BitVec w) (bits bits' : List Bool) :
    feed poly c (bits ++ bits') = feed poly (feed poly c bits) bits' := List.foldl_append

theorem getLsbD_ofBits (bits : List Bool) (i : Nat) :
    (ofBits bits : BitVec w).getLsbD i = (decide (i < w) && bits.getD i false) := by
  induction bits generalizing i with
  | nil => simp [ofBits]
  | cons b bits ih =>
    cases i with
    | zero => simp [ofBits]
    | succ i =>
      rw [ofBits, BitVec.getLsbD_xor, BitVec.getLsbD_shiftLeft, Nat.add_sub_cancel, ih]
      by_cases h : i + 1 < w
      · simp [h, Nat.lt_of_succ_lt h]
      · simp [h]

theorem shift_xor (a b : BitVec w) : shift poly (a ^^^ b) = shift poly a ^^^ shift poly b := by
  have cancel : a >>> 1 ^^^ poly ^^^ (b >>> 1 ^^^ poly) = a >>> 1 ^^^ b >>> 1 := by
    rw [BitVec.xor_assoc, BitVec.xor_comm (b >>> 1), ← BitVec.xor_assoc poly, BitVec.xor_self,
      BitVec.zero_xor]
  simp only [shift, BitVec.getLsbD_xor, BitVec.ushiftRight_xor_distrib]
  cases a.getLsbD 0 <;> cases b.getLsbD 0
  case true.true => exact cancel.symm
  case false.false => rfl
  all_goals
    simp only [Bool.false_bne, Bool.bne_false, ite_true, ite_false, Bool.false_eq_true]
    ac_rfl

theorem shifts_xor (n : Nat) (a b : BitVec w) :
    shifts poly n (a ^^^ b) = shifts poly n a ^^^ shifts poly n b := by
  induction n generalizing a b with
  | zero => rfl
  | succ n ih => rw [shifts, shift_xor, ih, shifts, shifts]

/-- A register whose low bits are clear only moves down. -/
theorem shifts_clear (h : ∀ i < n, c.getLsbD i = false) : shifts poly n c = c >>> n := by
  induction n generalizing c with
  | zero => rw [shifts, BitVec.ushiftRight_zero]
  | succ n ih =>
    have hs : shift poly c = c >>> 1 := by
      rw [shift, h 0 (Nat.succ_pos n)]
      rfl
    rw [shifts, hs, ih, BitVec.shiftRight_add c 1 n |>.symm, Nat.add_comm]
    intro i hi
    rw [BitVec.getLsbD_ushiftRight]
    exact h _ (by omega)

theorem getLsbD_bit (b : Bool) (i : Nat) :
    ((BitVec.ofBool b).setWidth w).getLsbD i = (decide (i < w) && (decide (i = 0) && b)) := by
  rw [BitVec.getLsbD_setWidth, BitVec.getLsbD_ofBool]

/-- Taking a bit is folding it into the register before the shift. -/
theorem feedBit_eq (c : BitVec w) (b : Bool) :
    feedBit poly c b = shift poly (c ^^^ (BitVec.ofBool b).setWidth w) := by
  have hs : (c ^^^ (BitVec.ofBool b).setWidth w) >>> 1 = c >>> 1 := by
    apply BitVec.eq_of_getLsbD_eq
    intro i hi
    rw [BitVec.getLsbD_ushiftRight, BitVec.getLsbD_xor, getLsbD_bit, BitVec.getLsbD_ushiftRight]
    simp
  cases w with
  | zero => exact Subsingleton.elim _ _
  | succ w =>
    rw [shift, hs, BitVec.getLsbD_xor, getLsbD_bit]
    simp [feedBit]

/-- A string no longer than the register is taken as one number. -/
theorem feed_eq_shifts (c : BitVec w) (bits : List Bool) (h : bits.length ≤ w) :
    feed poly c bits = shifts poly bits.length (c ^^^ ofBits bits) := by
  induction bits generalizing c with
  | nil => rw [ofBits, BitVec.xor_zero]; rfl
  | cons b bits ih =>
    have hlen : bits.length < w := h
    have hlow : (ofBits bits <<< 1 : BitVec w).getLsbD 0 = false := by
      simp
    have hback : (ofBits bits <<< 1 : BitVec w) >>> 1 = ofBits bits := by
      apply BitVec.eq_of_getLsbD_eq
      intro i hi
      rw [BitVec.getLsbD_ushiftRight, BitVec.getLsbD_shiftLeft, Nat.add_sub_cancel_left,
        getLsbD_ofBits]
      by_cases hw : 1 + i < w
      · simp [hw]
      · have hnil : bits.length ≤ i := by omega
        simp [hnil]
    have hshift : shift poly (ofBits bits <<< 1) = ofBits bits := by
      rw [shift, hlow, hback]
      rfl
    calc feed poly c (b :: bits)
        = feed poly (shift poly (c ^^^ (BitVec.ofBool b).setWidth w)) bits := by
          rw [← feedBit_eq]
          rfl
      _ = shifts poly bits.length (shift poly (c ^^^ (BitVec.ofBool b).setWidth w) ^^^
            shift poly (ofBits bits <<< 1)) := by
          rw [ih _ (Nat.le_of_lt hlen), hshift]
      _ = shifts poly (b :: bits).length (c ^^^ ofBits (b :: bits)) := by
          rw [← shift_xor, List.length_cons, shifts, ofBits, BitVec.xor_assoc,
            BitVec.xor_comm (ofBits bits <<< 1)]

/-- The complement of the register takes any register to one and the same. -/
theorem feed_complement (c : BitVec w) (bits : List Bool) (hlen : bits.length = w)
    (hbits : ofBits bits = ~~~c) : feed poly c bits = shifts poly w (BitVec.allOnes w) := by
  have hones : c ^^^ ~~~c = BitVec.allOnes w := by
    apply BitVec.eq_of_getLsbD_eq
    intro i hi
    rw [BitVec.getLsbD_xor, BitVec.getLsbD_not, BitVec.getLsbD_allOnes, decide_eq_true hi]
    cases c.getLsbD i <;> rfl
  rw [feed_eq_shifts poly c bits (Nat.le_of_eq hlen), hbits, hones, hlen]

/-- The table rule: `k` shifts are looked up for the low `k` bits and move the rest down. -/
theorem shifts_eq_low (c low : BitVec w)
    (h : ∀ i < w, low.getLsbD i = (decide (i < k) && c.getLsbD i)) :
    shifts poly k c = shifts poly k low ^^^ c >>> k := by
  have hsplit : c = low ^^^ (low ^^^ c) := by
    rw [← BitVec.xor_assoc, BitVec.xor_self, BitVec.zero_xor]
  have hclear : ∀ i < k, (low ^^^ c).getLsbD i = false := by
    intro i hi
    rw [BitVec.getLsbD_xor]
    by_cases hw : i < w
    · simp [h i hw, hi]
    · simp [BitVec.getLsbD_of_ge _ _ (Nat.le_of_not_lt hw)]
  have hhigh : (low ^^^ c) >>> k = c >>> k := by
    apply BitVec.eq_of_getLsbD_eq
    intro i hi
    rw [BitVec.getLsbD_ushiftRight, BitVec.getLsbD_xor, BitVec.getLsbD_ushiftRight]
    by_cases hw : k + i < w
    · rw [h _ hw, decide_eq_false (by omega), Bool.false_and, Bool.false_xor]
    · simp [BitVec.getLsbD_of_ge _ _ (Nat.le_of_not_lt hw)]
  calc shifts poly k c = shifts poly k (low ^^^ (low ^^^ c)) := by rw [← hsplit]
    _ = shifts poly k low ^^^ c >>> k := by rw [shifts_xor, shifts_clear poly hclear, hhigh]

end Crc
