import PicoGnss.Gnssdo.ReadOut
import PicoGnss.PicoNtp.Service

/-! The reference timestamp of the server between two corrections of its clock. -/

namespace PicoGnss
set_option autoImplicit true

open FixedWidth

theorem tdiv_eq_zero_iff {x k : Int} (hk : k ≠ 0) : x.tdiv k = 0 ↔ x.natAbs < k.natAbs := by
  rw [← Int.natAbs_eq_zero, Int.natAbs_tdiv]
  exact Nat.div_eq_zero_iff_lt (Int.natAbs_pos.2 hk)

theorem DisciplinedClock.Reachable.takenOff (h : Reachable c) (hd : InI64 d) :
    (c.takenOff d).natAbs < 9223372036854775808 := by
  obtain ⟨hlevel, -⟩ := h.estimate
  have hd' : d.natAbs ≤ 9223372036854775808 := by
    obtain ⟨hlo, hhi⟩ := hd
    omega
  have hprod : (d * c.freqMppb).natAbs ≤ 9223372036854775808 * 1000154000 := by
    rw [Int.natAbs_mul]
    exact Nat.mul_le_mul hd' hlevel
  have hle := natAbs_tdiv_le hprod (by decide : 0 < 1000000000000) (Int.le_refl _)
  exact Nat.lt_of_le_of_lt hle (by decide)

theorem wrap64_elapsed_cancels (u d t : Int) :
    wrap64 (wrap64 (u + (d - t)) - d) = wrap64 (u - t) := by
  unfold wrap64
  omega

theorem wrap64_sub_eq_iff (hu : InI64 u) (ht : t.natAbs < 9223372036854775808) :
    wrap64 (u - t) = u ↔ t = 0 := by
  unfold InI64 at hu
  unfold wrap64
  omega

namespace GpsdoRun

variable {run : GpsdoRun}

theorem reachable (run : GpsdoRun) (n : Nat) : (run.stateAt n).clock.clock.Reachable := by
  have hstep : ∀ (g : PpsGpsdo) (x : GpsdoCall), g.clock.clock.Reachable →
      (g.call x).2.clock.clock.Reachable := by
    intro g x hg
    cases x with
    | edge e q =>
      obtain ⟨step, c, hstep⟩ :=
        Gnssdo.PpsStep.exists g.clock (e.edgeNs / 1000) (asI64 e.intervalNs)
      rw [PpsGpsdo.call_edge, PpsGpsdo.onPpsEdge_clock, hstep.eq]
      cases hstep with
      | held => exact hg
      | @updated u c' _ _ hfreq =>
        have hd : (g.clock.disciplined (g.clock.tracker.record (e.edgeNs / 1000)).1).Reachable := by
          unfold Gnssdo.disciplined
          split
          · exact hg.handle .startQuarantine
          · exact hg
        have hu := hd.handle (.updateFreq (asI64 e.intervalNs))
        rw [Mealy.next_eq (DisciplinedClock.handle_updateFreq _ _), hfreq.eq] at hu
        exact hu
    | nmea s =>
      rw [PpsGpsdo.call_nmea]
      obtain ⟨-, hsame⟩ | ⟨t, c, q, r, -, hpins⟩ := g.feedNmea_cases s
      · rw [hsame.clock]
        exact hg
      · rw [hpins.clock]
        exact hg.handle (.updateEpoch c q r.unixNs)
  exact Mealy.final_preserves (P := fun g : PpsGpsdo => g.clock.clock.Reachable) hstep
    ⟨[], rfl⟩ _

theorem LastReport.unixNs (h : run.LastReport n k r) : InI64 r.unixNs := by
  obtain ⟨s, t, j, e, q, -, -, -, -, hunix, -⟩ := h.reports.edge
  rw [hunix]
  exact wrap64_inI64 _

/-- The reference timestamp carries what the frequency takes off the elapsed time. -/
theorem LastReport.lastUpdate (h : run.LastReport n k r) (hn : n ≤ run.calls.length)
    (hj : run.MostRecentEdge k j e edgeQueryNs) (q : UInt64) (hq : edgeQueryNs ≤ q.toNat) :
    ((run.stateAt n).clockState q).2.lastUpdateUnixNs = some (wrap64 (r.unixNs -
      (run.stateAt n).clock.clock.takenOff (asI64 (q.toNat - edgeQueryNs)))) := by
  obtain ⟨hquery, -, hunix⟩ := h.epoch hn hj
  have helapsed : wrap64 (asI64 q.toNat - asI64 edgeQueryNs) = asI64 (q.toNat - edgeQueryNs) := by
    have hsub := wrap64_asI64_sub edgeQueryNs (q.toNat - edgeQueryNs)
    rwa [Nat.add_sub_cancel' hq] at hsub
  have hnow := DisciplinedClock.nowFromQueryNs_eq hquery hunix q.toNat
  rw [helapsed, DisciplinedClock.trueElapsed_eq] at hnow
  have hholdover := h.holdoverNs hn hj q
  simp only [PpsGpsdo.clockState] at hholdover ⊢
  rw [PpsGpsdo.nowFromQueryNs, Gnssdo.nowFromQueryNs, hnow, hholdover, Option.map_some,
    wrap64_elapsed_cancels]

/-- In every state with an epoch, the reference timestamp is the last report's second exactly as
long as the frequency has not yet taken a nanosecond off the elapsed time. -/
theorem reference_time_stays_iff (run : GpsdoRun) (hn : n ≤ run.calls.length)
    (hepoch : (run.stateAt n).clock.clock.epochQueryNs = some edgeQueryNs) (q : UInt64)
    (hq : edgeQueryNs ≤ q.toNat) :
    ∃ k r, run.LastReport n k r ∧
      ((run.stateAt n).clockState q).2.lastUpdateUnixNs = some (wrap64 (r.unixNs -
        (run.stateAt n).clock.clock.takenOff (asI64 (q.toNat - edgeQueryNs)))) ∧
      (((run.stateAt n).clockState q).2.lastUpdateUnixNs = some r.unixNs ↔
        (asI64 (q.toNat - edgeQueryNs) * (run.stateAt n).clock.clock.freqMppb).natAbs <
          1000000000000) := by
  obtain hnone | ⟨k, r, hlast⟩ := run.lastReport_cases n
  · rw [epoch_of_unreported hn hnone] at hepoch
    cases hepoch
  obtain ⟨s, t, j, e, q', -, -, hj, -⟩ := hlast.reports.edge
  obtain ⟨hquery, -, -⟩ := hlast.epoch hn hj
  cases hepoch.symm.trans hquery
  have hupdate := hlast.lastUpdate hn hj q hq
  have hmoved := (run.reachable n).takenOff (asI64_inI64 (q.toNat - edgeQueryNs))
  have hunix := hlast.unixNs
  refine ⟨k, r, hlast, hupdate, ?_⟩
  rw [hupdate, Option.some.injEq, wrap64_sub_eq_iff hunix hmoved, DisciplinedClock.takenOff]
  exact tdiv_eq_zero_iff (by decide)

/-- One exact second on a crystal 10 ppm fast, and its sentence. -/
def tenPpmRun : GpsdoRun where
  source := .zda
  association := .sameSecond
  calls := [.edge ⟨0, 0, 1000000000⟩ 1000000000, .edge ⟨0, 1000010000, 2000010000⟩ 2000010000,
    .nmea zdaSentence]

theorem tenPpmRun_report :
    tenPpmRun.Reports 2 ⟨2000010000, 1787020967000000000, 0, 0, 0, 10000⟩ := by
  unfold GpsdoRun.Reports
  decide +kernel

/-- A tenth of a millisecond in, the reference timestamp has moved a nanosecond. -/
theorem reference_time_moves :
    ¬∀ (run : GpsdoRun) (n k : Nat) (r : SyncReport) (edgeQueryNs : Nat) (q : UInt64),
      n ≤ run.calls.length → run.LastReport n k r →
      (run.stateAt n).clock.clock.epochQueryNs = some edgeQueryNs → edgeQueryNs ≤ q.toNat →
      ((run.stateAt n).clockState q).2.lastUpdateUnixNs = some r.unixNs := by
  intro h
  have hlast : tenPpmRun.LastReport 3 2 ⟨2000010000, 1787020967000000000, 0, 0, 0, 10000⟩ :=
    ⟨by decide, tenPpmRun_report, fun k' h1 h2 => by omega⟩
  have hepoch : (tenPpmRun.stateAt 3).clock.clock.epochQueryNs = some 2000010000 := by
    decide +kernel
  have hmoved : ((tenPpmRun.stateAt 3).clockState 2000110000).2.lastUpdateUnixNs =
      some 1787020966999999999 := by
    decide +kernel
  have hstays := h tenPpmRun 3 2 _ 2000010000 2000110000 (by decide) hlast hepoch (by decide)
  rw [hmoved] at hstays
  exact absurd hstays (by decide)

/-- A nanosecond less and it has not. -/
theorem reference_time_stays_tenth :
    ((tenPpmRun.stateAt 3).clockState 2000109999).2.lastUpdateUnixNs =
      some 1787020967000000000 := by
  have hepoch : (tenPpmRun.stateAt 3).clock.clock.epochQueryNs = some 2000010000 := by
    decide +kernel
  have hsmall : (asI64 (UInt64.toNat 2000109999 - 2000010000) *
      (tenPpmRun.stateAt 3).clock.clock.freqMppb).natAbs < 1000000000000 := by
    decide +kernel
  obtain ⟨k, r, hlast, -, hstays⟩ :=
    reference_time_stays_iff tenPpmRun (n := 3) (by decide) hepoch 2000109999 (by decide)
  rw [hstays.2 hsmall]
  have hk := hlast.reports
  obtain ⟨s, -, -, -, -, hs, -⟩ := hk.edge
  have hlt := hlast.lt
  obtain rfl | rfl | rfl : k = 0 ∨ k = 1 ∨ k = 2 := by omega
  · cases hs
  · cases hs
  · have hr := tenPpmRun_report
    rw [GpsdoRun.Reports] at hk hr
    rw [hk] at hr
    cases hr
    rfl

end GpsdoRun

end PicoGnss
