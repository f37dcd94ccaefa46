import PicoGnss.Gnssdo.ReadOut
import PicoGnss.Lib.Rounding

/-! Firing at a UTC time: the inverse read-outs come back but for the second order. -/

namespace PicoGnss
open FixedWidth Rounding
set_option autoImplicit true

variable {c : DisciplinedClock}

/-- The correction undoes its inverse up to the square of the frequency and one rounding. -/
theorem DisciplinedClock.trueElapsed_localElapsed (c : DisciplinedClock) (d : Int) :
    (c.trueElapsed (c.localElapsed d) - d).natAbs ≤
      d.natAbs * c.freqMppb.natAbs ^ 2 / 10 ^ 24 + 1 := by
  unfold trueElapsed localElapsed
  generalize c.freqMppb = f
  obtain ⟨t, ht⟩ : ∃ t, (d * f).tdiv 1000000000000 = t := ⟨_, rfl⟩
  rw [ht, Int.add_mul]
  have hforth := tdiv_sub_lt (by decide : (0 : Int) < 1000000000000) (d * f) (d * f + t * f)
  have hback := tdiv_sub_lt (by decide : (0 : Int) < 1000000000000) (d * f + t * f) (d * f)
  rw [ht] at hforth hback
  have hmoved : (t * f).natAbs = t.natAbs * f.natAbs := Int.natAbs_mul t f
  have herror : 1000000000000 * (d + t - (d * f + t * f).tdiv 1000000000000 - d).natAbs <
      t.natAbs * f.natAbs + 1000000000000 := by omega
  generalize (d + t - (d * f + t * f).tdiv 1000000000000 - d).natAbs = err at herror ⊢
  have htaken : 1000000000000 * t.natAbs ≤ d.natAbs * f.natAbs := by
    rw [← Int.natAbs_mul, ← ht, Int.natAbs_tdiv]
    exact Nat.mul_div_le _ _
  cases err with
  | zero => exact Nat.zero_le _
  | succ n =>
    apply Nat.succ_le_succ
    rw [Nat.le_div_iff_mul_le (by decide)]
    calc n * 10 ^ 24 = 1000000000000 * (1000000000000 * n) := by ring
      _ ≤ 1000000000000 * (t.natAbs * f.natAbs) := Nat.mul_le_mul_left _ (by omega)
      _ = 1000000000000 * t.natAbs * f.natAbs := by ring
      _ ≤ d.natAbs * f.natAbs * f.natAbs := Nat.mul_le_mul_right _ htaken
      _ = d.natAbs * f.natAbs ^ 2 := by ring

theorem RoundTrips.error (c : DisciplinedClock) (eu u : Int) :
    (eu + c.trueElapsed (c.localElapsed (u - eu)) - u).natAbs ≤
      (u - eu).natAbs * c.freqMppb.natAbs ^ 2 / 10 ^ 24 + 3 := by
  have herror := c.trueElapsed_localElapsed (u - eu)
  have hmoved : eu + c.trueElapsed (c.localElapsed (u - eu)) - u =
      c.trueElapsed (c.localElapsed (u - eu)) - (u - eu) := by ring
  rw [hmoved]
  exact Nat.le_trans herror (Nat.add_le_add_left (by decide) _)

end PicoGnss
