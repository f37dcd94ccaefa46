import Mathlib.Data.Int.GCD
import Mathlib.Tactic.Linarith
import PicoGnss.RpPps.Pairing

/-! A receiver that emits an edge and a sentence each second, either of which can be lost. -/

namespace PicoGnss
set_option autoImplicit true

open FixedWidth

/-- What arrives of one second: the edge at its start and the sentence that follows. -/
structure Second where
  edge : Option (TimedEdge × Nat)
  sentence : Option (List UInt8)

namespace PpsGpsdo

def takeEdge (g : PpsGpsdo) : Option (TimedEdge × Nat) → PpsGpsdo
  | some (edge, queryNs) => (g.onPpsEdge edge queryNs).2
  | none => g

def takeSentence (g : PpsGpsdo) : Option (List UInt8) → Option SyncReport × PpsGpsdo
  | some sentence => g.feedNmea sentence
  | none => (none, g)

/-- Feed what arrived of one second, in the order it was emitted. -/
def feedSecond (g : PpsGpsdo) (s : Second) : Option SyncReport × PpsGpsdo :=
  (g.takeEdge s.edge).takeSentence s.sentence

theorem takeEdge_some (g : PpsGpsdo) (e : TimedEdge) (q : Nat) :
    (g.takeEdge (some (e, q))).sync = g.sync.onPpsEdge e.edgeNs q := g.onPpsEdge_sync e q

theorem takeEdge_config (g : PpsGpsdo) (edge : Option (TimedEdge × Nat)) :
    (g.takeEdge edge).source = g.source ∧
      (g.takeEdge edge).sync.association = g.sync.association := by
  cases edge with
  | none => exact ⟨rfl, rfl⟩
  | some edge =>
    obtain ⟨e, q⟩ := edge
    refine ⟨g.onPpsEdge_source e q, ?_⟩
    rw [takeEdge_some]
    rfl

end PpsGpsdo

/-- A receiver's emission from UTC second `start` on, as it arrives. -/
structure Reception where
  source : NmeaTimeSource
  start : Int
  seconds : List Second

namespace Reception

def edgeAt (rx : Reception) (k : Nat) : Option (TimedEdge × Nat) := rx.seconds[k]?.bind (·.edge)

def sentenceAt (rx : Reception) (k : Nat) : Option (List UInt8) :=
  rx.seconds[k]?.bind (·.sentence)

/-- Every sentence that arrives is one that the parser reads as its own second. -/
def WellFormed (rx : Reception) : Prop :=
  ∀ k s, rx.sentenceAt k = some s →
    ∃ t, rx.source.parse s = some t ∧ t.toUnix = rx.start + k

def stateAt (rx : Reception) (k : Nat) : PpsGpsdo :=
  Mealy.final PpsGpsdo.feedSecond (.withConfig rx.source .sameSecond) (rx.seconds.take k)

def Reports (rx : Reception) (k : Nat) (r : SyncReport) : Prop :=
  (Mealy.outputs PpsGpsdo.feedSecond (.withConfig rx.source .sameSecond) rx.seconds)[k]? =
    some (some r)

/-- The report of second `k` names the second of the latest edge, whose capture it carries. -/
def RightlyLabelled (rx : Reception) (k : Nat) (r : SyncReport) : Prop :=
  ∃ j e q, j ≤ k ∧ rx.edgeAt j = some (e, q) ∧ (∀ i, j < i → i ≤ k → rx.edgeAt i = none) ∧
    r.captureNs = e.edgeNs ∧ r.unixNs = 1000000000 * (rx.start + j)

/-- The sentences of an edge and the edges up to a later sentence are all lost. -/
structure DoubleLoss (rx : Reception) (j k : Nat) : Prop where
  lt : j < k
  edge : ∃ e, rx.edgeAt j = some e
  sentence : ∃ s, rx.sentenceAt k = some s
  no_edge : ∀ i, j < i → i ≤ k → rx.edgeAt i = none
  no_sentence : ∀ i, j ≤ i → i < k → rx.sentenceAt i = none

/-- Edge `j` is the one that a sentence of second `n` would use. -/
structure Offered (rx : Reception) (n j : Nat) (e : TimedEdge) (q : Nat) : Prop where
  le : j ≤ n
  edge : rx.edgeAt j = some (e, q)
  no_edge : ∀ i, j < i → i ≤ n → rx.edgeAt i = none
  no_sentence : ∀ i, j ≤ i → i < n → rx.sentenceAt i = none

/-- Edge `j` waits for its sentence at the start of second `n`. -/
structure Held (rx : Reception) (n j : Nat) (e : TimedEdge) (q : Nat) : Prop where
  lt : j < n
  edge : rx.edgeAt j = some (e, q)
  no_edge : ∀ i, j < i → i < n → rx.edgeAt i = none
  no_sentence : ∀ i, j ≤ i → i < n → rx.sentenceAt i = none

variable {rx : Reception}

theorem stateAt_succ (h : rx.seconds[k]? = some s) :
    rx.stateAt (k + 1) = ((rx.stateAt k).feedSecond s).2 :=
  Mealy.final_take_succ PpsGpsdo.feedSecond _ h

theorem reports_iff (h : rx.seconds[k]? = some s) :
    rx.Reports k r ↔ ((rx.stateAt k).feedSecond s).1 = some r := by
  rw [Reports, Mealy.getElem?_outputs, h]
  exact Option.some_inj

theorem edgeAt_eq (h : rx.seconds[k]? = some s) : rx.edgeAt k = s.edge := by
  rw [edgeAt, h]
  rfl

theorem sentenceAt_eq (h : rx.seconds[k]? = some s) : rx.sentenceAt k = s.sentence := by
  rw [sentenceAt, h]
  rfl

theorem stateAt_config (rx : Reception) (k : Nat) : (rx.stateAt k).source = rx.source ∧
    (rx.stateAt k).sync.association = .sameSecond := by
  have hstep : ∀ (g : PpsGpsdo) (s : Second),
      (g.source = rx.source ∧ g.sync.association = .sameSecond) → True →
      ((g.feedSecond s).2.source = rx.source ∧
        (g.feedSecond s).2.sync.association = .sameSecond) := by
    intro g s hg _
    obtain ⟨hs, ha⟩ := g.takeEdge_config s.edge
    rw [PpsGpsdo.feedSecond]
    cases s.sentence with
    | none => exact ⟨hs.trans hg.1, ha.trans hg.2⟩
    | some line =>
      obtain ⟨hs', ha'⟩ := (g.takeEdge s.edge).call_config (.nmea line)
      rw [PpsGpsdo.call_nmea] at hs' ha'
      exact ⟨hs'.trans (hs.trans hg.1), ha'.trans (ha.trans hg.2)⟩
  exact Mealy.final_invariant hstep ⟨rfl, rfl⟩ fun _ _ => trivial

theorem Held.offered (h : rx.Held n j e q) (hedge : rx.edgeAt n = none) :
    rx.Offered n j e q := by
  refine ⟨Nat.le_of_lt h.lt, h.edge, ?_, h.no_sentence⟩
  intro i hji hin
  rcases Nat.lt_or_eq_of_le hin with hin | rfl
  · exact h.no_edge i hji hin
  · exact hedge

theorem Offered.held (h : rx.Offered n j e q) (hedge : rx.edgeAt n = none) : rx.Held n j e q := by
  have hlt : j < n := by
    rcases Nat.lt_or_eq_of_le h.le with hlt | rfl
    · exact hlt
    · rw [h.edge] at hedge
      cases hedge
  exact ⟨hlt, h.edge, fun i hji hin => h.no_edge i hji (Nat.le_of_lt hin), h.no_sentence⟩

theorem Offered.held_succ (h : rx.Offered n j e q) (hs : rx.sentenceAt n = none) :
    rx.Held (n + 1) j e q := by
  refine ⟨Nat.lt_succ_of_le h.le, h.edge, fun i hji hin => h.no_edge i hji (by omega), ?_⟩
  intro i hji hin
  rcases Nat.lt_succ_iff_lt_or_eq.1 hin with hin | rfl
  · exact h.no_sentence i hji hin
  · exact hs

theorem Held.offered_of_succ (h : rx.Held (n + 1) j e q) :
    rx.Offered n j e q ∧ rx.sentenceAt n = none := by
  have hle := Nat.le_of_lt_succ h.lt
  exact ⟨⟨hle, h.edge, fun i hji hin => h.no_edge i hji (by omega),
    fun i hji hin => h.no_sentence i hji (by omega)⟩, h.no_sentence n hle (Nat.lt_succ_self n)⟩

/-- Once the edge of a second has been taken, the pending edge is the offered one. -/
theorem takeEdge_pending_iff (hs : rx.seconds[n]? = some s)
    (hheld : ∀ c q, (rx.stateAt n).sync.pending = some (c, q) ↔
      ∃ j e, rx.Held n j e q ∧ c = e.edgeNs) (c q : Nat) :
    ((rx.stateAt n).takeEdge s.edge).sync.pending = some (c, q) ↔
      ∃ j e, rx.Offered n j e q ∧ c = e.edgeNs := by
  have hedge := edgeAt_eq hs
  cases he : s.edge with
  | none =>
    rw [he] at hedge
    apply (hheld c q).trans
    constructor
    · rintro ⟨j, e, h, hc⟩
      exact ⟨j, e, h.offered hedge, hc⟩
    · rintro ⟨j, e, h, hc⟩
      exact ⟨j, e, h.held hedge, hc⟩
  | some edge =>
    obtain ⟨e0, q0⟩ := edge
    rw [he] at hedge
    rw [PpsGpsdo.takeEdge_some]
    constructor
    · intro h
      cases h
      exact ⟨n, e0, ⟨Nat.le_refl n, hedge, fun i h1 h2 => by omega, fun i h1 h2 => by omega⟩, rfl⟩
    · rintro ⟨j, e, h, rfl⟩
      rcases Nat.lt_or_eq_of_le h.le with hlt | rfl
      · rw [h.no_edge n hlt (Nat.le_refl n)] at hedge
        cases hedge
      · cases hedge.symm.trans h.edge
        rfl

/-- The edge that the state before second `n` holds is the one whose losses keep it pending. -/
theorem pending_iff (hwf : rx.WellFormed) (hn : n ≤ rx.seconds.length) (c q : Nat) :
    (rx.stateAt n).sync.pending = some (c, q) ↔ ∃ j e, rx.Held n j e q ∧ c = e.edgeNs := by
  induction n generalizing c q with
  | zero =>
    constructor
    · intro h
      cases h
    · rintro ⟨j, e, hheld, -⟩
      exact absurd hheld.lt (Nat.not_lt_zero j)
  | succ n ih =>
    have hs : rx.seconds[n]? = some rx.seconds[n] := List.getElem?_eq_getElem hn
    have htake := takeEdge_pending_iff hs (ih (Nat.le_of_succ_le hn)) c q
    have hsent := sentenceAt_eq hs
    rw [stateAt_succ hs, PpsGpsdo.feedSecond]
    cases hl : rx.seconds[n].sentence with
    | none =>
      rw [hl] at hsent
      apply htake.trans
      constructor
      · rintro ⟨j, e, h, hc⟩
        exact ⟨j, e, h.held_succ hsent, hc⟩
      · rintro ⟨j, e, h, hc⟩
        exact ⟨j, e, h.offered_of_succ.1, hc⟩
    | some line =>
      rw [hl] at hsent
      obtain ⟨t, hparse, -⟩ := hwf n line hsent
      have hsource : ((rx.stateAt n).takeEdge rx.seconds[n].edge).source = rx.source :=
        ((rx.stateAt n).takeEdge_config _).1.trans (rx.stateAt_config n).1
      have hnone := (PpsGpsdo.feedNmea_parsed (hsource ▸ hparse)).1
      rw [PpsGpsdo.takeSentence, hnone]
      constructor
      · intro h
        cases h
      · rintro ⟨j, e, h, hc⟩
        rw [h.offered_of_succ.2] at hsent
        cases hsent

theorem edgeUnixNs_sameSecond (t : RmcTimeDate) :
    PpsNmeaAssociation.sameSecond.edgeUnixNs t = wrap64 (1000000000 * t.toUnix) := by
  rw [PpsNmeaAssociation.edgeUnixNs, PpsNmeaAssociation.edgeOffsetSeconds, Int.add_zero,
    Int.mul_comm]

theorem sentenceAt_some (h : rx.sentenceAt k = some line) :
    ∃ s, rx.seconds[k]? = some s ∧ s.sentence = some line :=
  Option.bind_eq_some_iff.1 h

/-- A sentence reports the edge it is offered. -/
theorem Offered.reports (hwf : rx.WellFormed) (h : rx.Offered k j e q)
    (hsent : rx.sentenceAt k = some line) : ∃ r, rx.Reports k r ∧ r.captureNs = e.edgeNs ∧
      r.unixNs = wrap64 (1000000000 * (rx.start + k)) := by
  obtain ⟨s, hs, hline⟩ := sentenceAt_some hsent
  obtain ⟨t, hparse, hunix⟩ := hwf k line hsent
  have hk : k ≤ rx.seconds.length := Nat.le_of_lt (List.getElem?_eq_some_iff.1 hs).1
  have hpending := (takeEdge_pending_iff hs (pending_iff hwf hk) e.edgeNs q).2 ⟨j, e, h, rfl⟩
  obtain ⟨hsource, hassoc⟩ := (rx.stateAt k).takeEdge_config s.edge
  have hparse' : ((rx.stateAt k).takeEdge s.edge).source.parse line = some t := by
    rw [hsource, (rx.stateAt_config k).1, hparse]
  obtain ⟨r, hr, hcapture, hlabel⟩ := (PpsGpsdo.feedNmea_parsed hparse').2 _ _ hpending
  refine ⟨r, ?_, hcapture, ?_⟩
  · rw [reports_iff hs, PpsGpsdo.feedSecond, hline]
    exact hr
  · rw [hlabel, hassoc, (rx.stateAt_config k).2, edgeUnixNs_sameSecond, hunix]

theorem Reports.offered (hwf : rx.WellFormed) (h : rx.Reports k r) : ∃ j e q line,
    rx.Offered k j e q ∧ rx.sentenceAt k = some line ∧ r.captureNs = e.edgeNs ∧
      r.unixNs = wrap64 (1000000000 * (rx.start + k)) := by
  cases hs : rx.seconds[k]? with
  | none =>
    rw [Reports, Mealy.getElem?_outputs, hs] at h
    cases h
  | some s =>
    have hk : k ≤ rx.seconds.length := Nat.le_of_lt (List.getElem?_eq_some_iff.1 hs).1
    rw [reports_iff hs, PpsGpsdo.feedSecond] at h
    have hsent := sentenceAt_eq hs
    cases hline : s.sentence with
    | none =>
      rw [hline] at h
      cases h
    | some line =>
      rw [hline] at hsent
      rw [hline, PpsGpsdo.takeSentence] at h
      obtain ⟨t, c, q, hpins⟩ := PpsGpsdo.feedNmea_some h
      obtain ⟨j, e, hoff, hce⟩ :=
        (takeEdge_pending_iff hs (pending_iff hwf hk) c q).1 hpins.edge
      obtain ⟨r', hr', hcapture, hunix⟩ := hoff.reports hwf hsent
      rw [reports_iff hs, PpsGpsdo.feedSecond, hline, PpsGpsdo.takeSentence, h] at hr'
      cases hr'
      exact ⟨j, e, q, line, hoff, hsent, hcapture, hunix⟩

theorem Offered.doubleLoss (h : rx.Offered k j e q) (hlt : j < k)
    (hsent : rx.sentenceAt k = some line) : rx.DoubleLoss j k :=
  ⟨hlt, ⟨_, h.edge⟩, ⟨_, hsent⟩, h.no_edge, h.no_sentence⟩

/-- The latest edge up to a second is unique. -/
theorem Offered.rightlyLabelled_iff (h : rx.Offered k j e q) (hcapture : r.captureNs = e.edgeNs) :
    rx.RightlyLabelled k r ↔ r.unixNs = 1000000000 * (rx.start + j) := by
  constructor
  · rintro ⟨j', e', q', hle, hedge, hno, -, hunix⟩
    rcases Nat.lt_trichotomy j j' with hlt | rfl | hgt
    · rw [h.no_edge j' hlt hle] at hedge
      cases hedge
    · exact hunix
    · have hlast := hno j hgt h.le
      rw [h.edge] at hlast
      cases hlast
  · exact fun hunix => ⟨j, e, q, h.le, h.edge, h.no_edge, hcapture, hunix⟩

theorem dvd_of_dvd_nanoseconds {d : Int} (h : (18446744073709551616 : Int) ∣ 1000000000 * d) :
    (36028797018963968 : Int) ∣ d := by
  obtain ⟨m, hm⟩ := h
  have hodd : 1953125 * d = 36028797018963968 * m := by linarith
  exact Int.dvd_of_dvd_mul_right_of_gcd_one ⟨m, hodd⟩ (by decide +kernel)

/-- Wrapping cannot turn one second of the calendar into another. -/
theorem wrap64_second_ne {x y : Int} (hlt : y < x) (hx : x ≤ 10000000000000) :
    wrap64 (1000000000 * x) ≠ 1000000000 * y := by
  intro h
  have hin := wrap64_inI64 (1000000000 * x)
  have hdvd := dvd_sub_wrap64 (1000000000 * x)
  rw [h, ← Int.mul_sub] at hdvd
  rw [h, InI64] at hin
  have hle := Int.le_of_dvd (Int.sub_pos.2 hlt) (dvd_of_dvd_nanoseconds hdvd)
  clear hdvd h
  omega

theorem WellFormed.second_le (hwf : rx.WellFormed) (h : rx.sentenceAt k = some line) :
    rx.start + k ≤ 10000000000000 := by
  obtain ⟨t, hparse, hunix⟩ := hwf k line h
  rw [← hunix]
  exact (NmeaTimeSource.parse_valid hparse).1.toUnix_le

/-- The first sentence after a double loss labels the older edge with its own second. -/
theorem DoubleLoss.mislabels (hwf : rx.WellFormed) (h : rx.DoubleLoss j k) :
    ∃ r, rx.Reports k r ∧ ¬rx.RightlyLabelled k r := by
  obtain ⟨⟨e, q⟩, hedge⟩ := h.edge
  obtain ⟨line, hsent⟩ := h.sentence
  have hoff : rx.Offered k j e q := ⟨Nat.le_of_lt h.lt, hedge, h.no_edge, h.no_sentence⟩
  obtain ⟨r, hr, hcapture, hunix⟩ := hoff.reports hwf hsent
  have hlt : rx.start + (j : Int) < rx.start + k := by
    have := h.lt
    omega
  refine ⟨r, hr, fun hright => ?_⟩
  rw [hoff.rightlyLabelled_iff hcapture, hunix] at hright
  exact wrap64_second_ne hlt (hwf.second_le hsent) hright

end Reception

open Reception in
/-- Every report names the second of its edge exactly when no sentence is lost together with the
next edge and no labelled second is past the signed 64-bit nanoseconds. -/
theorem rightlyLabelled_iff_no_doubleLoss (rx : Reception) (hwf : rx.WellFormed) :
    (∀ k r, rx.Reports k r → rx.RightlyLabelled k r) ↔
      (∀ j k, ¬rx.DoubleLoss j k) ∧ ∀ k e s, rx.edgeAt k = some e → rx.sentenceAt k = some s →
        InI64 (1000000000 * (rx.start + k)) := by
  constructor
  · intro hright
    refine ⟨fun j k hloss => ?_, fun k edge line hedge hsent => ?_⟩
    · obtain ⟨r, hr, hwrong⟩ := hloss.mislabels hwf
      exact hwrong (hright k r hr)
    · obtain ⟨e, q⟩ := edge
      have hoff : rx.Offered k k e q :=
        ⟨Nat.le_refl k, hedge, fun i h1 h2 => by omega, fun i h1 h2 => by omega⟩
      obtain ⟨r, hr, hcapture, hunix⟩ := hoff.reports hwf hsent
      have hlabel := (hoff.rightlyLabelled_iff hcapture).1 (hright k r hr)
      rw [← hlabel, hunix]
      exact wrap64_inI64 _
  · rintro ⟨hloss, hrange⟩ k r hr
    obtain ⟨j, e, q, line, hoff, hsent, hcapture, hunix⟩ := hr.offered hwf
    obtain rfl : j = k := by
      rcases Nat.lt_or_eq_of_le hoff.le with hlt | heq
      · exact absurd (hoff.doubleLoss hlt hsent) (hloss j k)
      · exact heq
    rw [hoff.rightlyLabelled_iff hcapture, hunix]
    exact wrap64_of_inI64 (hrange j _ _ hoff.edge hsent)

/-- When only the second of two sentences arrives, it is one that names its second. -/
theorem wellFormed_zdaSentence {edge edge' : Option (TimedEdge × Nat)} :
    (⟨.zda, 1787020966, [⟨edge, none⟩, ⟨edge', some zdaSentence⟩]⟩ : Reception).WellFormed := by
  intro k line hk
  rcases k with _ | _ | k
  · cases hk
  · cases hk
    exact ⟨_, parse_zdaSentence, rfl⟩
  · cases hk

/-- The first sentence is lost and both edges arrive. -/
def lostSentenceReception : Reception :=
  ⟨.zda, 1787020966, [⟨some (⟨0, 0, 5⟩, 7), none⟩,
    ⟨some (⟨4232467296, 1000000000, 1000000005⟩, 1007), some zdaSentence⟩]⟩

theorem lostSentence_rightlyLabelled :
    lostSentenceReception.Reports 1 ⟨1000000005, 1787020967000000000, 0, 0, 0, 0⟩ ∧
      ∀ k r, lostSentenceReception.Reports k r → lostSentenceReception.RightlyLabelled k r := by
  have hright := rightlyLabelled_iff_no_doubleLoss lostSentenceReception wellFormed_zdaSentence
  refine ⟨?_, hright.2 ⟨?_, ?_⟩⟩
  · unfold Reception.Reports
    decide +kernel
  · intro j k h
    obtain ⟨s, hs⟩ := h.sentence
    obtain rfl : k = 1 := by
      rcases k with _ | _ | k
      · cases hs
      · rfl
      · cases hs
    cases h.no_edge 1 h.lt (Nat.le_refl 1)
  · intro k e s hedge hs
    rcases k with _ | _ | k
    · decide
    · decide
    · cases hs

/-- The first sentence and the second edge are lost. -/
def doubleLossReception : Reception :=
  ⟨.zda, 1787020966, [⟨some (⟨0, 0, 5⟩, 7), none⟩, ⟨none, some zdaSentence⟩]⟩

theorem doubleLoss_mislabelled :
    doubleLossReception.WellFormed ∧
      doubleLossReception.Reports 1 ⟨5, 1787020967000000000, 0, 0, 0, 0⟩ ∧
      ¬doubleLossReception.RightlyLabelled 1 ⟨5, 1787020967000000000, 0, 0, 0, 0⟩ := by
  refine ⟨wellFormed_zdaSentence, ?_, ?_⟩
  · unfold Reception.Reports
    decide +kernel
  · rintro ⟨j, e, q, hle, hedge, -, -, hunix⟩
    rcases j with _ | _ | j
    · cases hunix
    · cases hedge
    · omega

end PicoGnss
