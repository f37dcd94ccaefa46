import Mathlib.Data.List.Induction
import Mathlib.Data.Nat.ModEq

/-! The last values of a sequence, kept in a ring, and a switch with two thresholds. -/

namespace RingBuffer
set_option autoImplicit true

variable {α : Type u} {w : Nat}

/-- Write the `n`-th value over the oldest one. -/
def put (ring : Vector α w) (n : Nat) (a : α) : Vector α w := ring.setIfInBounds (n % w) a

/-- The last `w` values. -/
def window (w : Nat) (xs : List α) : List α := xs.drop (xs.length - w)

/-- A ring that the values have been written into, oldest first. -/
def Holds (ring : Vector α w) (xs : List α) : Prop :=
  ∀ j, j < xs.length → xs.length ≤ j + w → ring[j % w]? = xs[j]?

theorem holds_nil (ring : Vector α w) : Holds ring [] := fun _ h => absurd h (Nat.not_lt_zero _)

theorem Holds.put {ring : Vector α w} (h : Holds ring xs) (hw : 0 < w) (a : α) :
    Holds (put ring xs.length a) (xs ++ [a]) := by
  intro j hj hnew
  rw [List.length_append, List.length_singleton] at hj hnew
  rw [RingBuffer.put, Vector.getElem?_setIfInBounds]
  rcases Nat.lt_or_ge j xs.length with hlt | hge
  · have hne : xs.length % w ≠ j % w := by
      intro heq
      have hdvd : w ∣ xs.length - j := (Nat.modEq_iff_dvd' (Nat.le_of_lt hlt)).1 heq.symm
      have hle := Nat.le_of_dvd (by omega) hdvd
      omega
    rw [if_neg hne, List.getElem?_append_left hlt]
    exact h j hlt (by omega)
  · obtain rfl : j = xs.length := by omega
    rw [if_pos rfl, if_pos (Nat.mod_lt _ hw), List.getElem?_concat_length]

/-- Once it has come round, the ring holds the window and nothing else. -/
theorem Holds.mem_iff {ring : Vector α w} (h : Holds ring xs) (hw : 0 < w) (hfull : w ≤ xs.length) :
    a ∈ ring.toList ↔ a ∈ window w xs := by
  rw [window, List.mem_iff_getElem?, List.mem_iff_getElem?]
  constructor
  · rintro ⟨i, hi⟩
    obtain ⟨hlt, -⟩ := List.getElem?_eq_some_iff.1 hi
    rw [Vector.length_toList] at hlt
    -- the latest position that is written to the cell
    let j := xs.length - 1 - (xs.length - 1 - i) % w
    have hmod := Nat.mod_lt (xs.length - 1 - i) hw
    have hle := Nat.mod_le (xs.length - 1 - i) w
    have hcell : j % w = i := by
      have hdiv := Nat.div_add_mod (xs.length - 1 - i) w
      have hj : j = i + w * ((xs.length - 1 - i) / w) := by omega
      rw [hj, Nat.add_mul_mod_self_left, Nat.mod_eq_of_lt hlt]
    refine ⟨j - (xs.length - w), ?_⟩
    rw [List.getElem?_drop, show xs.length - w + (j - (xs.length - w)) = j by omega,
      ← h j (by omega) (by omega), hcell, ← hi, Vector.getElem?_toList]
  · rintro ⟨i, hi⟩
    rw [List.getElem?_drop] at hi
    obtain ⟨hlt, -⟩ := List.getElem?_eq_some_iff.1 hi
    refine ⟨(xs.length - w + i) % w, ?_⟩
    rw [Vector.getElem?_toList, h _ hlt (by omega), hi]

end RingBuffer

namespace Window
set_option autoImplicit true

/-- The least and the greatest of some values, from a start that lies outside them. -/
def extremes (init : Int × Int) (xs : List Int) : Int × Int :=
  xs.foldl (fun r x => (min r.1 x, max r.2 x)) init

theorem extremes_concat (init : Int × Int) (xs : List Int) (x : Int) :
    extremes init (xs ++ [x]) = (min (extremes init xs).1 x, max (extremes init xs).2 x) := by
  rw [extremes, List.foldl_append]
  rfl

theorem extremes_bounds (init : Int × Int) {xs : List Int} (h : x ∈ xs) :
    (extremes init xs).1 ≤ x ∧ x ≤ (extremes init xs).2 := by
  induction xs using List.reverseRecOn with
  | nil => cases h
  | append_singleton xs y ih =>
    rw [extremes_concat]
    rcases List.mem_append.1 h with h | h
    · obtain ⟨hlo, hhi⟩ := ih h
      omega
    · rw [List.mem_singleton.1 h]
      omega

theorem extremes_mem {init : Int × Int} {xs : List Int} (hne : xs ≠ [])
    (h : ∀ x ∈ xs, init.2 ≤ x ∧ x ≤ init.1) :
    (extremes init xs).1 ∈ xs ∧ (extremes init xs).2 ∈ xs := by
  induction xs using List.reverseRecOn with
  | nil => exact absurd rfl hne
  | append_singleton xs y ih =>
    rw [extremes_concat]
    rcases List.eq_nil_or_concat xs with rfl | ⟨xs', z, hxs⟩
    · obtain ⟨hlo, hhi⟩ := h y (List.mem_singleton_self y)
      have hmin : min init.1 y = y := by omega
      have hmax : max init.2 y = y := by omega
      simp only [extremes, List.foldl_nil, hmin, hmax, List.nil_append, List.mem_singleton,
        and_self]
    · have hne' : xs ≠ [] := by
        rw [hxs, List.concat_eq_append]
        exact List.append_ne_nil_of_right_ne_nil _ (List.cons_ne_nil _ _)
      obtain ⟨hlo, hhi⟩ := ih hne' fun x hx => h x (List.mem_append_left _ hx)
      constructor
      · rcases Int.le_total (extremes init xs).1 y with hle | hle
        · rw [Int.min_eq_left hle]
          exact List.mem_append_left _ hlo
        · rw [Int.min_eq_right hle]
          exact List.mem_append_right _ (List.mem_singleton_self y)
      · rcases Int.le_total (extremes init xs).2 y with hle | hle
        · rw [Int.max_eq_right hle]
          exact List.mem_append_right _ (List.mem_singleton_self y)
        · rw [Int.max_eq_left hle]
          exact List.mem_append_left _ hhi

end Window

namespace Schmitt
set_option autoImplicit true

/-- On above `hi`, off at or below `lo`, and between them as it was. -/
def step (lo hi : Int) (on : Bool) (x : Int) : Bool :=
  if on then decide (lo < x) else decide (hi < x)

/-- The switch is on when a value has crossed the upper threshold, and none since then has come back
to the lower one. -/
theorem foldl_step {lo hi : Int} (h : lo ≤ hi) (xs : List Int) :
    xs.foldl (step lo hi) false = true ↔
    ∃ (i : Nat) (x : Int), xs[i]? = some x ∧ hi < x ∧
      ∀ (j : Nat) (y : Int), i < j → xs[j]? = some y → lo < y := by
  induction xs using List.reverseRecOn with
  | nil =>
    constructor
    · intro hno
      cases hno
    · rintro ⟨i, x, hx, -⟩
      cases hx
  | append_singleton xs y ih =>
    rw [List.foldl_append, List.foldl_cons, List.foldl_nil]
    constructor
    · intro hon
      have hlast : lo < y := by
        unfold step at hon
        split at hon
        · exact of_decide_eq_true hon
        · exact Int.lt_of_le_of_lt h (of_decide_eq_true hon)
      cases hbefore : xs.foldl (step lo hi) false with
      | true =>
        obtain ⟨i, x, hx, hhi, hsince⟩ := ih.1 hbefore
        obtain ⟨hi, -⟩ := List.getElem?_eq_some_iff.1 hx
        refine ⟨i, x, by rw [List.getElem?_append_left hi]; exact hx, hhi, ?_⟩
        intro j z hj hz
        rcases Nat.lt_or_ge j xs.length with hlt | hge
        · rw [List.getElem?_append_left hlt] at hz
          exact hsince j z hj hz
        · rw [List.getElem?_append_right hge, List.getElem?_singleton] at hz
          split at hz
          · cases hz
            exact hlast
          · cases hz
      | false =>
        rw [hbefore, step, if_neg Bool.false_ne_true] at hon
        refine ⟨xs.length, y, List.getElem?_concat_length, of_decide_eq_true hon, ?_⟩
        intro j z hj hz
        obtain ⟨hlt, -⟩ := List.getElem?_eq_some_iff.1 hz
        rw [List.length_append, List.length_singleton] at hlt
        omega
    · rintro ⟨i, x, hx, hhi, hsince⟩
      obtain ⟨hlt, -⟩ := List.getElem?_eq_some_iff.1 hx
      rw [List.length_append, List.length_singleton] at hlt
      rcases Nat.lt_or_ge i xs.length with hin | hout
      · rw [List.getElem?_append_left hin] at hx
        have hon : xs.foldl (step lo hi) false = true := by
          refine ih.2 ⟨i, x, hx, hhi, fun j z hj hz => hsince j z hj ?_⟩
          rw [List.getElem?_append_left (List.getElem?_eq_some_iff.1 hz).1]
          exact hz
        rw [hon, step, if_pos rfl]
        exact decide_eq_true (hsince xs.length y hin List.getElem?_concat_length)
      · obtain rfl : i = xs.length := by omega
        rw [List.getElem?_concat_length] at hx
        cases hx
        unfold step
        split
        · exact decide_eq_true (Int.lt_of_le_of_lt h hhi)
        · exact decide_eq_true hhi

end Schmitt
