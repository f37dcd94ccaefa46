import PicoGnss.RpPps.Pairing

namespace PicoGnss
set_option autoImplicit true

/-- A spurious edge: off the nominal interval with no pulse missing, or back in time. -/
def PpsEvent.isGlitch : PpsEvent → Bool
  | .irregular _ missed => missed == 0
  | .nonMonotonic _ => true
  | _ => false

namespace GpsdoRun

/-- Call `j` is an edge that the tracker classified as spurious. -/
def GlitchAt (run : GpsdoRun) (j : Nat) : Prop :=
  ∃ step, run.answerAt j = some (.step step) ∧ step.event.isGlitch = true

/-- The sentence of call `n` is one that the configured source accepts. -/
def AcceptedAt (run : GpsdoRun) (n : Nat) : Prop :=
  ∃ s t, run.calls[n]? = some (.nmea s) ∧ run.source.parse s = some t

variable {run : GpsdoRun}

theorem AcceptedAt.lt_length (h : run.AcceptedAt n) : n < run.calls.length := by
  obtain ⟨s, t, hs, -⟩ := h
  exact (List.getElem?_eq_some_iff.1 hs).1

theorem Reports.acceptedAt (h : run.Reports n r) : run.AcceptedAt n := by
  obtain ⟨s, t, j, e, q, hs, hparsed, -⟩ := h.edge
  exact ⟨s, t, hs, hparsed⟩

theorem MostRecentEdge.anti (h : run.MostRecentEdge n j e q) (hj : j < m) (hm : m ≤ n) :
    run.MostRecentEdge m j e q :=
  ⟨hj, h.edge, fun k h1 h2 => h.between k h1 (Nat.lt_of_lt_of_le h2 hm)⟩

/-- An edge stays pending, whatever its class, until a sentence is accepted or an edge arrives. -/
theorem MostRecentEdge.pending (h : run.MostRecentEdge n j e q)
    (hquiet : ∀ k, j < k → k < n → ¬run.AcceptedAt k) (hn : n ≤ run.calls.length) :
    (run.stateAt n).sync.pending = some (e.edgeNs, q) := by
  obtain ⟨d, rfl⟩ := Nat.exists_eq_add_of_lt h.lt
  induction d with
  | zero =>
    rw [Nat.add_zero, stateAt_succ h.edge, PpsGpsdo.call_edge, PpsGpsdo.onPpsEdge_sync]
    rfl
  | succ d ih =>
    have hlt : j < j + d + 1 := Nat.lt_succ_of_le (Nat.le_add_right j d)
    have hprev := ih (h.anti hlt (Nat.le_succ _))
      (fun k h1 h2 => hquiet k h1 (Nat.lt_succ_of_lt h2)) (Nat.le_of_succ_le hn)
    obtain ⟨s, hs⟩ := h.between (j + d + 1) hlt (Nat.lt_succ_self _)
    obtain hnone | ⟨r, hr⟩ := answerAt_nmea hs
    · exact (unreported_sentence hs hnone).pending.trans hprev
    · exact absurd hr.acceptedAt (hquiet _ hlt (Nat.lt_succ_self _))

/-- The first sentence accepted while an edge is pending reports it. -/
theorem MostRecentEdge.reports (h : run.MostRecentEdge n j e q) (hn : run.AcceptedAt n)
    (hquiet : ∀ k, j < k → k < n → ¬run.AcceptedAt k) : ∃ r, run.Reports n r := by
  have hpending := h.pending hquiet (Nat.le_of_lt hn.lt_length)
  obtain ⟨s, t, hs, hparsed⟩ := hn
  have hsource : (run.stateAt n).source.parse s = some t := by
    rw [(run.stateAt_config n).1, hparsed]
  obtain ⟨r, hr, -⟩ := (PpsGpsdo.feedNmea_parsed hsource).2 _ _ hpending
  refine ⟨r, ?_⟩
  rw [Reports, answerAt_eq hs, PpsGpsdo.call_nmea, hr]

/-- An edge of any class is reported exactly if a sentence is accepted before the next edge. -/
theorem reported_iff (run : GpsdoRun) (j : Nat) (e : TimedEdge) (q : Nat) :
    (∃ n r, run.Reports n r ∧ run.MostRecentEdge n j e q) ↔
      ∃ n, run.AcceptedAt n ∧ run.MostRecentEdge n j e q := by
  constructor
  · intro ⟨n, r, hr, h⟩
    exact ⟨n, hr.acceptedAt, h⟩
  · intro ⟨n, hn, h⟩
    induction n using Nat.strong_induction_on with
    | h n ih =>
      by_cases hearlier : ∃ k, j < k ∧ k < n ∧ run.AcceptedAt k
      · obtain ⟨k, hj, hk, haccepted⟩ := hearlier
        exact ih k hk haccepted (h.anti hj (Nat.le_of_lt hk))
      · obtain ⟨r, hr⟩ := h.reports hn fun k hj hk haccepted => hearlier ⟨k, hj, hk, haccepted⟩
        exact ⟨n, r, hr, h⟩

theorem GlitchAt.edge (h : run.GlitchAt j) : ∃ e q, run.calls[j]? = some (.edge e q) := by
  obtain ⟨step, hanswer, -⟩ := h
  cases hx : run.calls[j]? with
  | none =>
    rw [answerAt, Mealy.getElem?_outputs, hx] at hanswer
    cases hanswer
  | some x =>
    cases x with
    | edge e q => exact ⟨e, q, rfl⟩
    | nmea s =>
      rw [answerAt_eq hx, PpsGpsdo.call_nmea] at hanswer
      cases hanswer

/-- Where no edge arrives in between, the edge stays the most recent one. -/
theorem mostRecentEdge_of_between (hj : run.calls[j]? = some (.edge e q)) (hlt : j < n)
    (hn : n ≤ run.calls.length)
    (hnone : ¬∃ k e q, j < k ∧ k < n ∧ run.calls[k]? = some (.edge e q)) :
    run.MostRecentEdge n j e q := by
  refine ⟨hlt, hj, fun k h1 h2 => ?_⟩
  have hx : run.calls[k]? = some run.calls[k] := List.getElem?_eq_getElem (Nat.lt_of_lt_of_le h2 hn)
  cases hcall : run.calls[k] with
  | edge e q => exact absurd ⟨k, e, q, h1, h2, hcall ▸ hx⟩ hnone
  | nmea s => exact ⟨s, hcall ▸ hx⟩

end GpsdoRun

open GpsdoRun in
/-- Each report pins the most recent edge, spurious or not; none pins a spurious one exactly if
another edge always comes before the next accepted sentence. -/
theorem glitch_reports_iff (run : GpsdoRun) :
    (∀ n r, run.Reports n r → ∃ j e q, run.MostRecentEdge n j e q ∧ r.captureNs = e.edgeNs) ∧
    ((∀ n r j e q, run.Reports n r → run.MostRecentEdge n j e q → ¬run.GlitchAt j) ↔
      ∀ j n, run.GlitchAt j → j < n → run.AcceptedAt n →
        ∃ k e q, j < k ∧ k < n ∧ run.calls[k]? = some (.edge e q)) := by
  refine ⟨fun n r hr => ?_, fun h j n hglitch hlt haccepted => ?_,
    fun h n r j e q hr hj hglitch => ?_⟩
  · obtain ⟨s, t, j, e, q, -, -, hj, hcapture, -⟩ := hr.edge
    exact ⟨j, e, q, hj, hcapture⟩
  · by_contra hnone
    obtain ⟨e, q, hedge⟩ := hglitch.edge
    have hj := mostRecentEdge_of_between hedge hlt (Nat.le_of_lt haccepted.lt_length) hnone
    obtain ⟨m, r, hr, hm⟩ := (run.reported_iff j e q).2 ⟨n, haccepted, hj⟩
    exact h m r j e q hr hm hglitch
  · obtain ⟨k, e', q', h1, h2, hk⟩ := h j n hglitch hj.lt hr.acceptedAt
    obtain ⟨s, hs⟩ := hj.between k h1 h2
    rw [hk] at hs
    cases hs

/-- Two true edges, a spurious one 0.2 s after the second, and the sentence of that second. -/
def glitchedSecond : GpsdoRun :=
  ⟨.zda, .sameSecond, [.edge ⟨0, 1000000000, 1000000000⟩ 0,
    .edge ⟨0, 1000000000, 2000000000⟩ 1000000000,
    .edge ⟨0, 200000000, 2200000000⟩ 1200000000, .nmea zdaSentence]⟩

/-- The spurious edge displaces the true one and sets the epoch. -/
theorem glitch_sets_epoch :
    ¬∀ (run : GpsdoRun) (n : Nat) (r : SyncReport) (j : Nat) (e : TimedEdge) (q : Nat),
      run.Reports n r → run.MostRecentEdge n j e q → ¬run.GlitchAt j := by
  intro h
  refine h glitchedSecond 3 ⟨2200000000, 1787020967000000000, 0, 0, 0, 0⟩ 2
    ⟨0, 200000000, 2200000000⟩ 1200000000 ?_ ⟨by decide, rfl, fun k h1 h2 => by omega⟩ ?_
  · unfold GpsdoRun.Reports
    decide +kernel
  · exact ⟨⟨.irregular 200000 0, none, false⟩, by decide +kernel, rfl⟩

end PicoGnss
