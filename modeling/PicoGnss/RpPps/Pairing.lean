import PicoGnss.Lib.Mealy
import PicoGnss.RpPps.PpsGpsdo

namespace PicoGnss
set_option autoImplicit true

open FixedWidth

/-- A sequence of calls on a fresh bundle. -/
structure GpsdoRun where
  source : NmeaTimeSource
  association : PpsNmeaAssociation
  calls : List GpsdoCall

namespace GpsdoRun

/-- The state before call `n`. -/
def stateAt (run : GpsdoRun) (n : Nat) : PpsGpsdo :=
  Mealy.final PpsGpsdo.call (.withConfig run.source run.association) (run.calls.take n)

def answerAt (run : GpsdoRun) (n : Nat) : Option GpsdoAnswer :=
  (Mealy.outputs PpsGpsdo.call (.withConfig run.source run.association) run.calls)[n]?

def Reports (run : GpsdoRun) (n : Nat) (r : SyncReport) : Prop :=
  run.answerAt n = some (.report (some r))

/-- Call `j` feeds an edge and every call between it and call `n` a sentence. -/
structure MostRecentEdge (run : GpsdoRun) (n j : Nat) (e : TimedEdge) (q : Nat) : Prop where
  lt : j < n
  edge : run.calls[j]? = some (.edge e q)
  between : ∀ k, j < k → k < n → ∃ s, run.calls[k]? = some (.nmea s)

variable {run : GpsdoRun}

theorem stateAt_succ (h : run.calls[n]? = some x) :
    run.stateAt (n + 1) = ((run.stateAt n).call x).2 :=
  Mealy.final_take_succ PpsGpsdo.call _ h

theorem answerAt_eq (h : run.calls[n]? = some x) :
    run.answerAt n = some ((run.stateAt n).call x).1 := by
  rw [answerAt, Mealy.getElem?_outputs, h]
  rfl

theorem stateAt_config (run : GpsdoRun) (n : Nat) :
    (run.stateAt n).source = run.source ∧
      (run.stateAt n).sync.association = run.association := by
  have hstep : ∀ (g : PpsGpsdo) (x : GpsdoCall),
      (g.source = run.source ∧ g.sync.association = run.association) → True →
      ((g.call x).2.source = run.source ∧ (g.call x).2.sync.association = run.association) := by
    intro g x hg _
    obtain ⟨hs, ha⟩ := g.call_config x
    exact ⟨hs.trans hg.1, ha.trans hg.2⟩
  exact Mealy.final_invariant hstep ⟨rfl, rfl⟩ fun _ _ => trivial

/-- A call that answers with no report keeps everything but the retained date. -/
theorem unreported_sentence (h : run.calls[n]? = some (.nmea s))
    (hnone : run.answerAt n = some (.report none)) :
    PpsGpsdo.SameButDate (run.stateAt n) (run.stateAt (n + 1)) := by
  rw [answerAt_eq h, PpsGpsdo.call_nmea] at hnone
  rw [stateAt_succ h, PpsGpsdo.call_nmea]
  apply PpsGpsdo.feedNmea_none
  cases hr : ((run.stateAt n).feedNmea s).1 with
  | none => rfl
  | some r =>
    rw [hr] at hnone
    cases hnone

/-- A report comes from a sentence that pins the pending edge. -/
theorem Reports.pins (h : run.Reports n r) : ∃ s t c q, run.calls[n]? = some (.nmea s) ∧
    PpsGpsdo.Pins (run.stateAt n) s t c q r (run.stateAt (n + 1)) := by
  cases hx : run.calls[n]? with
  | none =>
    rw [Reports, answerAt, Mealy.getElem?_outputs, hx] at h
    cases h
  | some x =>
    rw [Reports, answerAt_eq hx] at h
    cases x with
    | edge e q =>
      rw [PpsGpsdo.call_edge] at h
      cases h
    | nmea s =>
      rw [PpsGpsdo.call_nmea] at h
      have hr : ((run.stateAt n).feedNmea s).1 = some r := by
        injection h with h
        injection h
      obtain ⟨t, c, q, hpins⟩ := PpsGpsdo.feedNmea_some hr
      rw [stateAt_succ hx, PpsGpsdo.call_nmea]
      exact ⟨s, t, c, q, rfl, hpins⟩

theorem answerAt_nmea (h : run.calls[n]? = some (.nmea s)) :
    run.answerAt n = some (.report none) ∨ ∃ r, run.Reports n r := by
  have ha := answerAt_eq h
  rw [PpsGpsdo.call_nmea] at ha
  cases hr : ((run.stateAt n).feedNmea s).1 with
  | none =>
    rw [hr] at ha
    exact .inl ha
  | some r =>
    rw [hr] at ha
    exact .inr ⟨r, ha⟩

/-- The pending edge is the most recent one, and no sentence since has used it. -/
theorem pending_edge (hn : n ≤ run.calls.length)
    (h : (run.stateAt n).sync.pending = some (c, q)) :
    ∃ j e, run.MostRecentEdge n j e q ∧ c = e.edgeNs ∧
      ∀ k, j < k → k < n → run.answerAt k = some (.report none) := by
  induction n with
  | zero => cases h
  | succ n ih =>
    have hx : run.calls[n]? = some run.calls[n] := List.getElem?_eq_getElem hn
    cases hc : run.calls[n] with
    | edge e q' =>
      rw [hc] at hx
      rw [stateAt_succ hx, PpsGpsdo.call_edge, PpsGpsdo.onPpsEdge_sync] at h
      cases h
      exact ⟨n, e, ⟨Nat.lt_succ_self n, hx, fun k h1 h2 => by omega⟩, rfl,
        fun k h1 h2 => by omega⟩
    | nmea s =>
      rw [hc] at hx
      obtain hnone | ⟨r, hr⟩ := answerAt_nmea hx
      · rw [(unreported_sentence hx hnone).pending] at h
        obtain ⟨j, e, hj, hce, hquiet⟩ := ih (Nat.le_of_succ_le hn) h
        refine ⟨j, e, ⟨Nat.lt_succ_of_lt hj.lt, hj.edge, ?_⟩, hce, ?_⟩
        · intro k h1 h2
          rcases Nat.lt_succ_iff_lt_or_eq.1 h2 with h2 | rfl
          · exact hj.between k h1 h2
          · exact ⟨s, hx⟩
        · intro k h1 h2
          rcases Nat.lt_succ_iff_lt_or_eq.1 h2 with h2 | rfl
          · exact hquiet k h1 h2
          · exact hnone
      · obtain ⟨_, _, _, _, _, hpins⟩ := hr.pins
        rw [hpins.pending] at h
        cases h

theorem MostRecentEdge.unique (h : run.MostRecentEdge n j e q)
    (h' : run.MostRecentEdge n j' e' q') : j = j' := by
  rcases Nat.lt_trichotomy j j' with hlt | heq | hgt
  · obtain ⟨s, hs⟩ := h.between j' hlt h'.lt
    rw [h'.edge] at hs
    cases hs
  · exact heq
  · obtain ⟨s, hs⟩ := h'.between j hgt h.lt
    rw [h.edge] at hs
    cases hs

theorem Reports.lt_length (h : run.Reports n r) : n < run.calls.length := by
  obtain ⟨s, t, c, q, hs, -⟩ := h.pins
  exact (List.getElem?_eq_some_iff.1 hs).1

/-- Every step but a report keeps the epoch. -/
theorem sameEpoch_succ (hn : n < run.calls.length) (hquiet : ∀ r, ¬run.Reports n r) :
    DisciplinedClock.SameEpoch (run.stateAt n).clock.clock (run.stateAt (n + 1)).clock.clock := by
  have hx : run.calls[n]? = some run.calls[n] := List.getElem?_eq_getElem hn
  cases hc : run.calls[n] with
  | edge e q =>
    rw [hc] at hx
    rw [stateAt_succ hx, PpsGpsdo.call_edge]
    exact PpsGpsdo.onPpsEdge_sameEpoch _ e q
  | nmea s =>
    rw [hc] at hx
    obtain hnone | ⟨r, hr⟩ := answerAt_nmea hx
    · rw [(unreported_sentence hx hnone).clock]
      exact .refl _
    · exact absurd hr (hquiet r)

theorem sameEpoch_of_quiet (hnm : n ≤ m) (hm : m ≤ run.calls.length)
    (hquiet : ∀ k, n ≤ k → k < m → ∀ r, ¬run.Reports k r) :
    DisciplinedClock.SameEpoch (run.stateAt n).clock.clock (run.stateAt m).clock.clock := by
  induction m, hnm using Nat.le_induction with
  | base => exact .refl _
  | succ m hnm ih =>
    apply (ih (Nat.le_of_succ_le hm) fun k h1 h2 => hquiet k h1 (Nat.lt_succ_of_lt h2)).trans
    exact sameEpoch_succ hm (hquiet m hnm (Nat.lt_succ_self m))

theorem Reports.edge (h : run.Reports n r) : ∃ s t j e q, run.calls[n]? = some (.nmea s) ∧
    run.source.parse s = some t ∧ run.MostRecentEdge n j e q ∧ r.captureNs = e.edgeNs ∧
    r.unixNs = run.association.edgeUnixNs t ∧
    (run.stateAt (n + 1)).clock.clock.epochQueryNs = some q ∧
    (run.stateAt (n + 1)).clock.clock.epochUnixNs = some r.unixNs ∧
    ∀ k, j < k → k < n → run.answerAt k = some (.report none) := by
  obtain ⟨s, t, c, q, hs, hpins⟩ := h.pins
  obtain ⟨hsource, hassoc⟩ := run.stateAt_config n
  obtain ⟨j, e, hj, hce, hquiet⟩ := pending_edge (Nat.le_of_lt h.lt_length) hpins.edge
  have hparsed := hpins.parsed
  have hunix := hpins.unixNs
  rw [hsource] at hparsed
  rw [hassoc] at hunix
  refine ⟨s, t, j, e, q, hs, hparsed, hj, hpins.captureNs.trans hce, hunix, ?_, ?_, hquiet⟩
  · rw [hpins.clock]
    rfl
  · rw [hpins.clock]
    rfl

end GpsdoRun

open GpsdoRun in
/-- Over any interleaving, each report pins the most recent edge to its sentence's second, no edge
is used twice, and a sentence that reports nothing changes neither edge nor clock. -/
theorem reports_pair_edges (run : GpsdoRun)
    (hyear : ∀ s t, .nmea s ∈ run.calls → run.source.parse s = some t → t.year ≤ 2261) :
    (∀ n r, run.Reports n r → ∃ s t j e q, run.calls[n]? = some (.nmea s) ∧
      strGet s 3 6 = some run.source.tag ∧ run.source.parse s = some t ∧
      run.MostRecentEdge n j e q ∧ r.captureNs = e.edgeNs ∧
      r.unixNs = t.toUnix * 1000000000 + run.association.edgeOffsetSeconds * 1000000000 ∧
      ∀ m, n < m → m ≤ run.calls.length → (∀ k, n < k → k < m → ∀ r', ¬run.Reports k r') →
        (run.stateAt m).nowFromQueryNs q = some r.unixNs) ∧
    (∀ n n' r r' j j' e e' q q', n < n' → run.Reports n r → run.Reports n' r' →
      run.MostRecentEdge n j e q → run.MostRecentEdge n' j' e' q' → j < j') ∧
    ∀ n s, run.calls[n]? = some (.nmea s) → run.answerAt n = some (.report none) →
      (run.stateAt (n + 1)).sync.pending = (run.stateAt n).sync.pending ∧
      (run.stateAt (n + 1)).clock = (run.stateAt n).clock := by
  refine ⟨?_, ?_, ?_⟩
  · intro n r hr
    obtain ⟨s, t, j, e, q, hs, hparsed, hj, hcapture, hunix, hquery, hepoch, -⟩ := hr.edge
    obtain ⟨hvalid, htag⟩ := NmeaTimeSource.parse_valid hparsed
    obtain ⟨hexact, hin⟩ := run.association.edgeUnixNs_eq hvalid
      (hyear s t (List.mem_of_getElem? hs) hparsed)
    refine ⟨s, t, j, e, q, hs, htag, hparsed, hj, hcapture, hunix.trans hexact, ?_⟩
    intro m hnm hm hquiet
    have hsame := sameEpoch_of_quiet hnm hm hquiet
    apply DisciplinedClock.nowFromQueryNs_at_epoch (hsame.queryNs.trans hquery)
      (hsame.unixNs.trans hepoch)
    rw [hunix]
    exact hin
  · intro n n' r r' j j' e e' q q' hlt hr hr' hj hj'
    obtain ⟨s, -, -, -, -, hs, -⟩ := hr.edge
    obtain ⟨-, -, j'', e'', q'', -, -, hj'', -, -, -, -, hquiet⟩ := hr'.edge
    have hn : n < j' := by
      rcases Nat.lt_trichotomy n j' with hlt' | rfl | hgt
      · exact hlt'
      · rw [hj'.edge] at hs
        cases hs
      · have hnone := hquiet n (hj''.unique hj' ▸ hgt) hlt
        rw [hr] at hnone
        cases hnone
    exact Nat.lt_trans hj.lt hn
  · intro n s hs hnone
    have hsame := unreported_sentence hs hnone
    exact ⟨hsame.pending, hsame.clock⟩

/-- `$GPZDA,024247.000,18,08,2026,,*56` -/
def zdaSentence : List UInt8 :=
  [36, 71, 80, 90, 68, 65, 44, 48, 50, 52, 50, 52, 55, 46, 48, 48, 48, 44, 49, 56, 44, 48, 56, 44,
   50, 48, 50, 54, 44, 44, 42, 53, 54]

theorem parse_zdaSentence :
    NmeaTimeSource.zda.parse zdaSentence = some ⟨2, 42, 47, 18, 8, 2026⟩ := by
  decide +kernel

/-- One edge, a sentence that names its second, and the same sentence again. -/
def repeatedSentence : GpsdoRun :=
  ⟨.zda, .sameSecond, [.edge ⟨0, 0, 5⟩ 7, .nmea zdaSentence, .nmea zdaSentence]⟩

theorem reports_pair_edges_once :
    repeatedSentence.Reports 1 ⟨5, 1787020967000000000, 0, 0, 0, 0⟩ ∧
      (repeatedSentence.stateAt 3).nowFromQueryNs 7 = some 1787020967000000000 := by
  obtain ⟨hreports, -, -⟩ := reports_pair_edges repeatedSentence (by
    intro s t hs hp
    have hs' : s = zdaSentence := by
      simpa [repeatedSentence] using hs
    rw [hs'] at hp
    cases hp.symm.trans parse_zdaSentence
    decide)
  have hr : repeatedSentence.Reports 1 ⟨5, 1787020967000000000, 0, 0, 0, 0⟩ := by
    unfold GpsdoRun.Reports
    decide +kernel
  have hquiet : repeatedSentence.answerAt 2 = some (.report none) := by decide +kernel
  obtain ⟨-, -, j, e, q, -, -, -, hj, -, -, hnow⟩ := hreports 1 _ hr
  have hedge := hj.edge
  rw [Nat.lt_one_iff.1 hj.lt] at hedge
  cases hedge
  refine ⟨hr, hnow 3 (by decide) (by decide) ?_⟩
  intro k h1 h3 r' hr'
  obtain rfl : k = 2 := by omega
  rw [GpsdoRun.Reports, hquiet] at hr'
  cases hr'

end PicoGnss
