import Mathlib.Data.List.Chain

/-! Where characters start in the bytes of a text. -/

namespace Utf8
set_option autoImplicit true

/-- The bytes of a text. -/
def utf8 (s : String) : List UInt8 := s.toList.flatMap String.utf8EncodeChar

/-- A byte that a character starts with. -/
def Starts (b : UInt8) : Prop := b.toNat < 128 ∨ 192 ≤ b.toNat

instance : DecidablePred Starts := fun b => by unfold Starts; infer_instance

/-- A character is one byte below 128, or some from 128 on, and only the first starts it. -/
theorem utf8EncodeChar_spec (c : Char) :
    ∃ b rest, String.utf8EncodeChar c = b :: rest ∧ Starts b ∧
      (rest = [] ∨ ∀ x ∈ b :: rest, 128 ≤ x.toNat) := by
  simp only [String.utf8EncodeChar]
  split
  · refine ⟨_, [], rfl, .inl ?_, .inl rfl⟩
    rw [UInt8.toNat_ofNat']
    omega
  · split
    · refine ⟨_, _, rfl, .inr ?_, .inr ?_⟩
      · rw [UInt8.toNat_ofNat']
        omega
      · simp only [List.forall_mem_cons, UInt8.toNat_ofNat']
        exact ⟨by omega, by omega, nofun⟩
    · split
      · refine ⟨_, _, rfl, .inr ?_, .inr ?_⟩
        · rw [UInt8.toNat_ofNat']
          omega
        · simp only [List.forall_mem_cons, UInt8.toNat_ofNat']
          exact ⟨by omega, by omega, by omega, nofun⟩
      · refine ⟨_, _, rfl, .inr ?_, .inr ?_⟩
        · rw [UInt8.toNat_ofNat']
          omega
        · simp only [List.forall_mem_cons, UInt8.toNat_ofNat']
          exact ⟨by omega, by omega, by omega, by omega, nofun⟩

/-- What may follow a byte in a text: after one below 128, another character. -/
def Follows (a b : UInt8) : Prop := a.toNat < 128 → Starts b

theorem isChain_of_high {bytes : List UInt8} (h : ∀ x ∈ bytes, 128 ≤ x.toNat) :
    bytes.IsChain Follows := by
  induction bytes with
  | nil => exact .nil
  | cons a bytes ih =>
    apply List.isChain_cons.2
    refine ⟨?_, ih fun x hx => h x (List.mem_cons_of_mem a hx)⟩
    intro b hb hlow
    exact absurd hlow (Nat.not_lt.2 (h a (List.mem_cons_self ..)))

theorem utf8_isChain (s : String) :
    (utf8 s).IsChain Follows ∧ ∀ b ∈ (utf8 s).head?, Starts b := by
  unfold utf8
  induction s.toList with
  | nil => exact ⟨.nil, nofun⟩
  | cons c cs ih =>
    obtain ⟨b, rest, hc, hstart, hrest⟩ := utf8EncodeChar_spec c
    have hchain : (b :: rest).IsChain Follows := by
      rcases hrest with rfl | hhigh
      · exact .singleton b
      · exact isChain_of_high hhigh
    rw [List.flatMap_cons, hc]
    constructor
    · apply hchain.append ih.1
      intro x hx y hy hlow
      exact ih.2 y hy
    · intro x hx
      cases hx
      exact hstart

/-- A byte below 128 is a whole character, so that another one starts after it. -/
theorem starts_of_low (h : utf8 s = before ++ a :: b :: rest) (ha : a.toNat < 128) :
    Starts b := by
  have hchain := (utf8_isChain s).1
  rw [h] at hchain
  exact (List.isChain_cons_cons.1 hchain.right_of_append).1 ha

end Utf8
