import PicoGnss.Lib.FixedWidth
import PicoGnss.Lib.Window

/-! How well the receiver hears, judged by the jitter of the locked intervals. -/

namespace PicoGnss
open FixedWidth
set_option autoImplicit true

def rxJitHiNs : Int := 120
def rxJitLoNs : Int := 70
def rxJitWin : Nat := 8

/-- The intervals that `pps_task` keeps, and what it publishes of them. -/
structure RxJitter where
  ivBuf : Vector Int rxJitWin
  ivCnt : UInt32
  jitter : UInt32
  bad : Bool

namespace RxJitter

def new : RxJitter where
  ivBuf := .replicate rxJitWin 0
  ivCnt := 0
  jitter := 0
  bad := false

/-- How far the values are apart, from the far ends of the signed words. -/
def spread (xs : List Int) : Int :=
  let range := Window.extremes (9223372036854775807, -9223372036854775808) xs
  range.2 - range.1

/-- A locked edge's interval. -/
def record (r : RxJitter) (intervalNs : Int) : RxJitter :=
  let ivBuf := RingBuffer.put r.ivBuf r.ivCnt.toNat intervalNs
  let ivCnt := r.ivCnt + 1
  if rxJitWin ≤ ivCnt.toNat then
    let jit := wrap64 (spread ivBuf.toList)
    { ivBuf, ivCnt
      jitter := .ofInt (clamp jit 0 4294967295)
      bad := if r.bad then decide (rxJitLoNs < jit) else decide (rxJitHiNs < jit) }
  else { r with ivBuf, ivCnt }

def run (ivs : List Int) : RxJitter := ivs.foldl record new

/-- The window after `n` of the intervals. -/
def windowAt (ivs : List Int) (n : Nat) : List Int := RingBuffer.window rxJitWin (ivs.take n)

/-- The spreads of the full windows, in order. -/
def spreads (ivs : List Int) : List Int :=
  (List.range' rxJitWin (ivs.length + 1 - rxJitWin)).map fun n => spread (windowAt ivs n)

end RxJitter

/-- An interval that the capture can time. -/
def Timed (iv : Int) : Prop := 0 ≤ iv ∧ iv ≤ 4294967295

namespace RxJitter

theorem timed_extremes (h : ∀ x ∈ xs, Timed x) (hne : xs ≠ []) :
    (Window.extremes (9223372036854775807, -9223372036854775808) xs).1 ∈ xs ∧
      (Window.extremes (9223372036854775807, -9223372036854775808) xs).2 ∈ xs := by
  refine Window.extremes_mem hne fun x hx => ?_
  obtain ⟨hlo, hhi⟩ := h x hx
  simp only
  omega

theorem spread_mem (h : ∀ x ∈ xs, Timed x) (hne : xs ≠ []) :
    0 ≤ spread xs ∧ spread xs ≤ 4294967295 := by
  obtain ⟨hlo, hhi⟩ := timed_extremes h hne
  have hle := (Window.extremes_bounds (9223372036854775807, -9223372036854775808) hhi).1
  have hlo := h _ hlo
  have hhi := h _ hhi
  unfold Timed at hlo hhi
  rw [spread]
  omega

/-- The spread as the pairs of values see it. -/
theorem lt_spread_iff (h : ∀ x ∈ xs, Timed x) (hne : xs ≠ []) :
    s < spread xs ↔ ∃ p ∈ xs, ∃ q ∈ xs, s < p - q := by
  obtain ⟨hlo, hhi⟩ := timed_extremes h hne
  constructor
  · exact fun hs => ⟨_, hhi, _, hlo, hs⟩
  · rintro ⟨p, hp, q, hq, hs⟩
    have hp := (Window.extremes_bounds (9223372036854775807, -9223372036854775808) hp).2
    have hq := (Window.extremes_bounds (9223372036854775807, -9223372036854775808) hq).1
    rw [spread]
    omega

/-- The spread looks at which values there are, not at their order. -/
theorem spread_congr (hx : ∀ x ∈ xs, Timed x) (hne : xs ≠ []) (h : ∀ x, x ∈ xs ↔ x ∈ ys) :
    spread xs = spread ys := by
  have hy : ∀ y ∈ ys, Timed y := fun y hy => hx y ((h y).2 hy)
  have hne' : ys ≠ [] := by
    obtain ⟨x, hx⟩ := List.exists_mem_of_ne_nil xs hne
    exact List.ne_nil_of_mem ((h x).1 hx)
  have hiff (s : Int) : s < spread xs ↔ s < spread ys := by
    rw [lt_spread_iff hx hne, lt_spread_iff hy hne']
    simp only [h]
  have hxy := hiff (spread xs)
  have hyx := hiff (spread ys)
  omega

theorem windowAt_length (ivs : List Int) :
    windowAt ivs ivs.length = RingBuffer.window rxJitWin ivs := by
  rw [windowAt, List.take_length]

theorem mem_windowAt (h : x ∈ windowAt ivs n) : x ∈ ivs :=
  List.mem_of_mem_take (List.mem_of_mem_drop h)

theorem windowAt_ne_nil (h8 : rxJitWin ≤ n) (hn : n ≤ ivs.length) : windowAt ivs n ≠ [] := by
  apply List.ne_nil_of_length_pos
  rw [rxJitWin] at h8
  rw [windowAt, RingBuffer.window, List.length_drop, List.length_take, rxJitWin]
  omega

theorem windowAt_append (hn : n ≤ ivs.length) (ivs' : List Int) :
    windowAt (ivs ++ ivs') n = windowAt ivs n := by
  rw [windowAt, windowAt, List.take_append_of_le_length hn]

theorem spreads_concat (ivs : List Int) (iv : Int) : spreads (ivs ++ [iv]) =
    spreads ivs ++ if rxJitWin ≤ ivs.length + 1 then
      [spread (RingBuffer.window rxJitWin (ivs ++ [iv]))] else [] := by
  have hold : ∀ n ∈ List.range' rxJitWin (ivs.length + 1 - rxJitWin),
      spread (windowAt (ivs ++ [iv]) n) = spread (windowAt ivs n) := by
    intro n hn
    have hn := List.mem_range'_1.1 hn
    rw [windowAt_append (by omega)]
  have hlast : windowAt (ivs ++ [iv]) (ivs.length + 1) =
      RingBuffer.window rxJitWin (ivs ++ [iv]) := by
    rw [← windowAt_length, List.length_append, List.length_singleton]
  rw [spreads, spreads, List.length_append, List.length_singleton]
  by_cases h : rxJitWin ≤ ivs.length + 1
  · rw [if_pos h, show ivs.length + 1 + 1 - rxJitWin = ivs.length + 1 - rxJitWin + 1 by omega,
      List.range'_concat, List.map_append, List.map_congr_left hold, List.map_singleton,
      show rxJitWin + 1 * (ivs.length + 1 - rxJitWin) = ivs.length + 1 by omega, hlast]
  · rw [if_neg h, List.append_nil, show ivs.length + 1 + 1 - rxJitWin = 0 by omega,
      show ivs.length + 1 - rxJitWin = 0 by omega]
    rfl

/-- What the task keeps, against the intervals so far. -/
structure Keeps (r : RxJitter) (ivs : List Int) : Prop where
  ring : RingBuffer.Holds r.ivBuf ivs
  cnt : r.ivCnt.toNat = ivs.length
  bad : r.bad = (spreads ivs).foldl (Schmitt.step rxJitLoNs rxJitHiNs) false
  jitter : (r.jitter.toNat : Int) = ((spreads ivs).getLast?).getD 0

theorem Keeps.record (h : Keeps r ivs) (hivs : ∀ x ∈ ivs ++ [iv], Timed x)
    (hlen : ivs.length + 1 < 4294967296) : Keeps (r.record iv) (ivs ++ [iv]) := by
  have hcnt : (r.ivCnt + 1).toNat = ivs.length + 1 := by
    rw [UInt32.toNat_add, h.cnt]
    exact Nat.mod_eq_of_lt hlen
  have hring : RingBuffer.Holds (RingBuffer.put r.ivBuf r.ivCnt.toNat iv) (ivs ++ [iv]) := by
    rw [h.cnt]
    exact h.ring.put (by decide) iv
  have hlength : (ivs ++ [iv]).length = ivs.length + 1 := by
    rw [List.length_append, List.length_singleton]
  by_cases hfull : rxJitWin ≤ ivs.length + 1
  · have hwindow : ∀ x ∈ RingBuffer.window rxJitWin (ivs ++ [iv]), Timed x :=
      fun x hx => hivs x (List.mem_of_mem_drop hx)
    have hne : RingBuffer.window rxJitWin (ivs ++ [iv]) ≠ [] := by
      rw [← windowAt_length]
      exact windowAt_ne_nil (by rw [hlength]; exact hfull) (Nat.le_refl _)
    have hsame : spread (RingBuffer.put r.ivBuf r.ivCnt.toNat iv).toList =
        spread (RingBuffer.window rxJitWin (ivs ++ [iv])) :=
      (spread_congr hwindow hne fun x =>
        (hring.mem_iff (by decide) (by rw [hlength]; exact hfull)).symm).symm
    have hmem := spread_mem hwindow hne
    rw [← hsame] at hmem
    have hrecord : r.record iv = ⟨RingBuffer.put r.ivBuf r.ivCnt.toNat iv, r.ivCnt + 1,
        .ofInt (clamp (spread (RingBuffer.window rxJitWin (ivs ++ [iv]))) 0 4294967295),
        Schmitt.step rxJitLoNs rxJitHiNs r.bad
          (spread (RingBuffer.window rxJitWin (ivs ++ [iv])))⟩ := by
      rw [RxJitter.record]
      simp only [hcnt, if_pos hfull, hsame, wrap64_of_natAbs_lt
        (show (spread (RingBuffer.window rxJitWin (ivs ++ [iv]))).natAbs < 9223372036854775808 by
          omega)]
      rfl
    rw [hrecord]
    refine ⟨hring, by rw [hcnt, hlength], ?_, ?_⟩
    · rw [spreads_concat, if_pos hfull, List.foldl_append, ← h.bad]
      rfl
    · rw [spreads_concat, if_pos hfull, List.getLast?_concat, Option.getD_some, UInt32.ofInt,
        UInt32.toNat_ofNat', clamp]
      omega
  · have hrecord : r.record iv =
        ⟨RingBuffer.put r.ivBuf r.ivCnt.toNat iv, r.ivCnt + 1, r.jitter, r.bad⟩ := by
      rw [RxJitter.record]
      simp only [hcnt, if_neg hfull]
    rw [hrecord]
    refine ⟨hring, by rw [hcnt, hlength], ?_, ?_⟩
    · rw [spreads_concat, if_neg hfull, List.append_nil]
      exact h.bad
    · rw [spreads_concat, if_neg hfull, List.append_nil]
      exact h.jitter

theorem keeps_run (hivs : ∀ x ∈ ivs, Timed x) (hlen : ivs.length < 4294967296) :
    Keeps (run ivs) ivs := by
  induction ivs using List.reverseRecOn with
  | nil => exact ⟨RingBuffer.holds_nil _, rfl, rfl, rfl⟩
  | append_singleton ivs iv ih =>
    rw [List.length_append, List.length_singleton] at hlen
    rw [run, List.foldl_append]
    exact (ih (fun x hx => hivs x (List.mem_append_left _ hx)) (by omega)).record hivs hlen

theorem getElem?_spreads (ivs : List Int) (i : Nat) : (spreads ivs)[i]? =
    if rxJitWin + i ≤ ivs.length then some (spread (windowAt ivs (rxJitWin + i))) else none := by
  rw [spreads, List.getElem?_map]
  by_cases h : rxJitWin + i ≤ ivs.length
  · rw [if_pos h, List.getElem?_range' (by omega), Nat.one_mul, Option.map_some]
  · rw [if_neg h, List.getElem?_eq_none (by rw [List.length_range']; omega), Option.map_none]

/-- Two of the values are more than `s` apart. -/
def Strays (s : Int) (xs : List Int) : Prop := ∃ p ∈ xs, ∃ q ∈ xs, s < p - q

/-- The reception is bad when two of eight locked intervals in a row were more than 120 ns apart,
and two of the last eight have been more than 70 ns apart ever since. -/
theorem run_bad_iff (hivs : ∀ x ∈ ivs, Timed x) (hlen : ivs.length < 4294967296) :
    (run ivs).bad = true ↔ ∃ n, rxJitWin ≤ n ∧ n ≤ ivs.length ∧ Strays rxJitHiNs (windowAt ivs n) ∧
      ∀ m, n < m → m ≤ ivs.length → Strays rxJitLoNs (windowAt ivs m) := by
  have hstrays (s : Int) {n : Nat} (h8 : rxJitWin ≤ n) (hn : n ≤ ivs.length) :
      s < spread (windowAt ivs n) ↔ Strays s (windowAt ivs n) :=
    lt_spread_iff (fun x hx => hivs x (mem_windowAt hx)) (windowAt_ne_nil h8 hn)
  rw [(keeps_run hivs hlen).bad, Schmitt.foldl_step (by decide : rxJitLoNs ≤ rxJitHiNs)]
  constructor
  · rintro ⟨i, x, hx, hhi, hsince⟩
    rw [getElem?_spreads] at hx
    split at hx
    · rename_i hi
      cases hx
      refine ⟨rxJitWin + i, Nat.le_add_right _ _, hi,
        (hstrays _ (Nat.le_add_right _ _) hi).1 hhi, ?_⟩
      intro m hnm hm
      have hm8 : rxJitWin ≤ m := by omega
      refine (hstrays _ hm8 hm).1 (hsince (m - rxJitWin) _ (by omega) ?_)
      rw [getElem?_spreads, if_pos (by omega), show rxJitWin + (m - rxJitWin) = m by omega]
    · cases hx
  · rintro ⟨n, h8, hn, hhi, hsince⟩
    refine ⟨n - rxJitWin, spread (windowAt ivs n), ?_, (hstrays _ h8 hn).2 hhi, ?_⟩
    · rw [getElem?_spreads, if_pos (by omega), show rxJitWin + (n - rxJitWin) = n by omega]
    · intro j y hj hy
      rw [getElem?_spreads] at hy
      split at hy
      · rename_i hm
        cases hy
        exact (hstrays _ (Nat.le_add_right _ _) hm).2 (hsince _ (by omega) hm)
      · cases hy

/-- The published jitter is the spread of the last eight locked intervals, and zero before. -/
theorem run_jitter (hivs : ∀ x ∈ ivs, Timed x) (hlen : ivs.length < 4294967296) :
    ((run ivs).jitter.toNat : Int) =
      if rxJitWin ≤ ivs.length then spread (windowAt ivs ivs.length) else 0 := by
  rw [(keeps_run hivs hlen).jitter, List.getLast?_eq_getElem?, getElem?_spreads]
  have hlength : (spreads ivs).length = ivs.length + 1 - rxJitWin := by
    rw [spreads, List.length_map, List.length_range']
  rw [hlength]
  by_cases h : rxJitWin ≤ ivs.length
  · rw [if_pos h, if_pos (by omega), show rxJitWin + (ivs.length + 1 - rxJitWin - 1) = ivs.length by
      omega]
    rfl
  · rw [rxJitWin] at *
    rw [if_neg h, if_neg (by omega)]
    rfl

end RxJitter

end PicoGnss
