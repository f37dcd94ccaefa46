import PicoGnss.Firmware.Steering
import PicoGnss.Firmware.Tasks

/-! Runs of the firmware: what the steering rests on, and what has come of it. -/

namespace PicoGnss
open FixedWidth Pio
set_option autoImplicit true

namespace GenCapture

variable {g g' : GenCapture} {r : GenReads}

/-- The loop between two edges, as the generator whose feedback has its fixpoint. -/
structure Regulated (g : GenCapture) (s : OutputLoop) : Prop where
  bounded : s.Bounded
  controller : g.controller = .pll s.controller
  dither : g.dither = s.dither

/-- One iteration is one edge of the generator. -/
theorem Regulated.edge (h : Regulated g s) {clock : DisciplinedClock} (hclock : clock.Reachable)
    (hr : r.steerMppb = clock.steeringFreqMppb) :
    (∃ s', Regulated (g.edge r).2 s') ∧ NearSecond (g.nextPeriod r).1 := by
  have ha := afterEdge g r
  let x : OutputEdge := ⟨⟨g.hwphaseNs r, g.valid r⟩, clock, hclock, fun hv => by
    simp only [valid, Bool.and_eq_true] at hv
    obtain ⟨hlag, hphase⟩ := hwphaseNs_of_paired hv.2
    simp only [hphase]
    omega⟩
  have hcontrol : g.control r =
      ((s.controller.step x.input).1, .pll (s.controller.step x.input).2) := by
    rw [control, h.controller]
    rfl
  have hperiod : g.nextPeriod r = s.dither.call 125000000 112500000 (s.request x) := by
    rw [nextPeriod, hcontrol, h.dither, hr]
    rfl
  obtain ⟨hbounded, -⟩ := h.bounded.step x
  obtain ⟨-, hmodest⟩ := h.bounded.modest x
  refine ⟨⟨(s.edge x).2, hbounded, ?_, ?_⟩, ?_⟩
  · rw [ha.controller, hcontrol]
    rfl
  · rw [ha.dither, hperiod]
    rfl
  · rw [hperiod]
    exact hmodest.nextPeriod.2

/-- Beside the iterations, only a measurement queues words, and only ones that were queued
before. -/
theorem Step.frame (hs : Step g e fx g') (he : ∀ r, e ≠ .edge r) :
    g'.controller = g.controller ∧ g'.dither = g.dither ∧ g'.lastPeriod = g.lastPeriod ∧
      (g'.recal ≠ none → g.recal ≠ none) ∧
      (∀ word, .period word ∈ fx → g.recal ≠ none ∧ word = g.lastPeriod) ∧
      ∀ raw, .updateTemp raw ∉ fx := by
  cases hs with
  | edge => exact absurd rfl (he _)
  | pull | publish => exact ⟨rfl, rfl, rfl, id, fun _ h => by simp at h, fun _ h => by simp at h⟩
  | found hrecal =>
    refine ⟨rfl, rfl, rfl, fun _ h => ?_, fun word hw => ⟨fun h => ?_, ?_⟩, fun _ h => by simp at h⟩
    · rw [hrecal] at h
      cases h
    · rw [hrecal] at h
      cases h
    · simpa using hw
  | waits hrecal =>
    refine ⟨rfl, rfl, rfl, id, fun word hw => ⟨fun h => ?_, ?_⟩, fun _ h => by simp at h⟩
    · rw [hrecal] at h
      cases h
    · simpa using hw
  | late hrecal =>
    refine ⟨rfl, rfl, rfl, fun h => absurd rfl h, fun word hw => ⟨fun h => ?_, ?_⟩, fun _ h => ?_⟩
    · rw [hrecal] at h
      cases h
    · simpa [endRecal] using hw
    · simp [endRecal] at h
  | settled hrecal =>
    refine ⟨rfl, rfl, rfl, fun _ h => ?_, fun _ h => by simp at h, fun _ h => by simp at h⟩
    rw [hrecal] at h
    cases h
  | ended hrecal =>
    exact ⟨rfl, rfl, rfl, fun h => absurd rfl h, fun _ h => by simp [endRecal] at h,
      fun _ h => by simp [endRecal] at h⟩

theorem Step.not_published (hs : Step g e fx g') (hp : ∀ raw, e ≠ .publish raw) (raw : UInt32) :
    .published raw ∉ fx := by
  cases hs with
  | publish => exact absurd rfl (hp _)
  | edge =>
    intro hmem
    rcases mem_edge_effects hmem with h | h | h | h | ⟨h, -⟩ <;> cases h
  | pull | found | waits | settled => simp
  | late | ended => simp [endRecal]

end GenCapture

namespace Firmware

variable {w w' : Firmware} {fx : List FirmwareEffect}

/-- What the steering rests on, and what has come of it. -/
structure Steers (fx : List FirmwareEffect) (w : Firmware) : Prop where
  clock : w.ingest.clock.clock.clock.Reachable
  loop : ∃ s, w.gen.Regulated s
  temp : w.tempRaw.toNat ≤ 1048320
  last : w.gen.recal ≠ none → NearSecond w.gen.lastPeriod
  words : ∀ word, .gen (.period word) ∈ fx → NearSecond word
  temps : ∀ raw, .gen (.updateTemp raw) ∈ fx → raw ≤ 1048320

theorem reachable_feed (effects : List GenEffect) {clock : PpsGpsdo}
    (hc : clock.clock.clock.Reachable) :
    (effects.foldl feed clock).clock.clock.Reachable := by
  induction effects generalizing clock with
  | nil => exact hc
  | cons effect effects ih =>
    rw [List.foldl_cons]
    apply ih
    cases effect with
    | updateTemp raw => exact hc.handle (.updateTemp raw)
    | taken | published | looked | period | steered | recalStarted | recalEnded => exact hc

/-- A step that does nothing to the loop, and leaves its clock reachable. -/
theorem Steers.quiet (h : Steers fx w) (hclock : w'.ingest.clock.clock.clock.Reachable)
    (hgen : ∃ published, w'.gen = { w.gen with published }) (htemp : w'.tempRaw.toNat ≤ 1048320)
    (hnew : ∀ o, .gen o ∈ fx' → ∃ raw, o = .published raw) : Steers (fx ++ fx') w' := by
  obtain ⟨published, hgen⟩ := hgen
  obtain ⟨s, hs⟩ := h.loop
  refine ⟨hclock, ⟨s, ?_⟩, htemp, ?_, ?_, ?_⟩
  · rw [hgen]
    exact ⟨hs.bounded, hs.controller, hs.dither⟩
  · rw [hgen]
    exact h.last
  · intro word hmem
    rcases List.mem_append.1 hmem with hmem | hmem
    · exact h.words word hmem
    · obtain ⟨raw, hno⟩ := hnew _ hmem
      cases hno
  · intro raw hmem
    rcases List.mem_append.1 hmem with hmem | hmem
    · exact h.temps raw hmem
    · obtain ⟨raw', hno⟩ := hnew _ hmem
      cases hno

theorem Steers.step (h : Steers fx w) (hs : Step w e fx' w') : Steers (fx ++ fx') w' := by
  cases hs with
  | edge raw q =>
    have hclock := PpsGpsdo.reachable_onPpsEdge h.clock (w.ingest.timeline.observe raw).1 q
    cases hlocked : (w.stepped raw q).1.event.isLocked with
    | true =>
      rw [takeEdge_locked hlocked]
      refine h.quiet hclock ⟨_, rfl⟩ h.temp fun o ho => ?_
      simp at ho
      exact ⟨_, ho⟩
    | false =>
      rw [takeEdge_not_locked hlocked]
      exact h.quiet hclock ⟨_, rfl⟩ h.temp fun o ho => by cases ho
  | reads hread he =>
    obtain ⟨-, hclock⟩ := Ingest.step_clock hread he
    refine h.quiet ?_ ⟨_, rfl⟩ h.temp fun o ho => by cases ho
    rcases hclock with hsame | ⟨s, hfed⟩
    · rw [hsame]
      exact h.clock
    · rw [hfed]
      exact PpsGpsdo.reachable_feedNmea h.clock s
  | temp block => exact h.quiet h.clock ⟨_, rfl⟩ block.toNat_scaled.2 fun o ho => by cases ho
  | gen hgen hp hr =>
    rename_i e effects g
    obtain ⟨s, hloop⟩ := h.loop
    have hclock := reachable_feed effects h.clock
    have hmem {o : GenEffect} (ho : .gen o ∈ fx ++ effects.map .gen) :
        .gen o ∈ fx ∨ o ∈ effects := by
      rcases List.mem_append.1 ho with ho | ho
      · exact .inl ho
      · obtain ⟨o', ho', heq⟩ := List.mem_map.1 ho
        cases heq
        exact .inr ho'
    by_cases hedge : ∃ r, e = .edge r
    · obtain ⟨r, rfl⟩ := hedge
      obtain ⟨hsteer, htemp⟩ := hr r rfl
      obtain ⟨hnext, hword⟩ := hloop.edge h.clock hsteer
      have hstep := GenCapture.step_cases hgen
      cases hstep with
      | edge hrecal =>
        have ha := GenCapture.afterEdge w.gen r
        refine ⟨hclock, hnext, h.temp, fun _ => ?_, ?_, ?_⟩
        · rw [ha.lastPeriod]
          exact hword
        · intro word ho
          rcases hmem ho with ho | ho
          · exact h.words word ho
          · rcases GenCapture.mem_edge_effects ho with ho | ho | ho | ho | ⟨ho, -⟩
            · cases ho
            · cases ho
            · cases ho
            · cases ho
              exact hword
            · cases ho
        · intro raw ho
          rcases hmem ho with ho | ho
          · exact h.temps raw ho
          · rcases GenCapture.mem_edge_effects ho with ho | ho | ho | ho | ⟨ho, -⟩
            · cases ho
            · cases ho
            · cases ho
              rw [htemp]
              exact h.temp
            · cases ho
            · cases ho
    · obtain ⟨hcontroller, hdither, hlast, hrecal, hwords, htemps⟩ :=
        (GenCapture.step_cases hgen).frame fun r hr => hedge ⟨r, hr⟩
      refine ⟨hclock, ⟨s, hloop.bounded, hcontroller.trans hloop.controller,
        hdither.trans hloop.dither⟩, h.temp, ?_, ?_, ?_⟩
      · intro hrc
        rw [hlast]
        exact h.last (hrecal hrc)
      · intro word ho
        rcases hmem ho with ho | ho
        · exact h.words word ho
        · obtain ⟨hrc, rfl⟩ := hwords word ho
          exact h.last hrc
      · intro raw ho
        rcases hmem ho with ho | ho
        · exact h.temps raw ho
        · exact absurd ho (htemps raw)

theorem steers_start (k : UInt32) : Steers [] (start k) where
  clock := ⟨[.setTempFfEnable true, .setTempFfParams 4 7 64, .setTempFfLag 1536 2 2], rfl⟩
  loop := ⟨.new, OutputLoop.bounded_new, rfl, rfl⟩
  temp := Nat.zero_le _
  last h := absurd rfl h
  words _ h := by cases h
  temps _ h := by cases h

theorem steers_run (h : (start k).run events = some (fx, w)) : Steers fx w :=
  Reactor.run_invariant (fun _ _ _ _ _ hp hs => hp.step (step_cases hs)) (steers_start k) h

/-- Whatever the receiver, the crystal and the temperature do, in every run of the firmware that
queues a word between any two that the output program takes, the program never stalls and its edges
stay within 4.8 ms of a second apart; and no reading leaves the range that the clock's model of the
temperature is made for. -/
theorem output_in_step (h : (start k).run events = some (fx, w))
    (hfed : Fifo.Fed true (GenCapture.fifoOps (genEffects fx))) (pin : Nat → Bool) (s : State) :
    ∃ words : List UInt32, Fifo.taken txFifoDepth GenCapture.initialWords
        (GenCapture.fifoOps (genEffects fx)) = words.map some ∧
      (∀ word ∈ words, NearSecond word) ∧ (∀ raw, .gen (.updateTemp raw) ∈ fx → raw ≤ 1048320) ∧
      ∀ n, n + 1 < words.length →
        ∃ t t', IsEdge ppsOutputProgram pin (outputStart s GenCapture.highCycles words) n t ∧
          IsEdge ppsOutputProgram pin (outputStart s GenCapture.highCycles words) (n + 1) t' ∧
          ((t' : Int) - t - 125000000).natAbs ≤ 600000 := by
  have hsteers := steers_run h
  have hlevel : Fifo.level true GenCapture.initialWords ≤ txFifoDepth := by decide
  obtain ⟨words, htaken⟩ := Fifo.exists_map_some (Fifo.taken_isSome hfed hlevel (Nat.le_refl 1))
  have hwords : ∀ word ∈ words, NearSecond word := by
    intro word hword
    have hmem : some word ∈ Fifo.taken txFifoDepth GenCapture.initialWords
        (GenCapture.fifoOps (genEffects fx)) := by
      rw [htaken]
      exact List.mem_map_of_mem hword
    rcases Fifo.mem_taken hmem with hfirst | hput
    · rw [List.mem_singleton.1 hfirst]
      exact Nat.zero_le 600000
    · obtain ⟨o, ho, heq⟩ := List.mem_filterMap.1 hput
      cases o with
      | period word' =>
        cases heq
        exact hsteers.words _ (mem_genEffects ho)
      | taken | published | looked | steered | updateTemp | recalStarted | recalEnded => cases heq
  exact ⟨words, htaken, hwords, hsteers.temps, fun n hn => edges_of_nearSecond hwords pin s hn⟩

/-- Seconds of a steady receiver, with the output five ticks of the counters behind it. -/
def steadySeconds (n : Nat) : List FirmwareEvent := (List.range n).flatMap fun i =>
  [.ingest (.edge (GenCapture.refEdge i) (1000000000 * i)), .pull,
    .edge (GenCapture.refEdge i - 5) []]

theorem output_in_step_two_seconds :
    ∃ fx w, (start 5).run (steadySeconds 3) = some (fx, w) ∧
      ∃ words : List UInt32, Fifo.taken txFifoDepth GenCapture.initialWords
          (GenCapture.fifoOps (genEffects fx)) = words.map some ∧
        ∀ word ∈ words, NearSecond word := by
  have hrun : ((start 5).run (steadySeconds 3)).any (fun s =>
      decide (Fifo.Fed true (GenCapture.fifoOps (genEffects s.1)))) = true := by
    decide +kernel
  obtain ⟨⟨fx, w⟩, hw, hfed⟩ := (Option.any_eq_true _ _).1 hrun
  obtain ⟨words, htaken, hwords, -⟩ := output_in_step hw (of_decide_eq_true hfed)
    (fun _ => false) .reset
  exact ⟨fx, w, hw, words, htaken, hwords⟩

/-- An interval that the tracker takes for a second, give or take the microseconds it is cut to. -/
def SecondLong (ns : Nat) : Prop := 949999001 ≤ ns ∧ ns ≤ 1050000999

/-- What `pps_task` has made of the locked edges. -/
structure Judges (fx : List FirmwareEffect) (w : Firmware) : Prop where
  reception : w.reception = RxJitter.run (intervals fx)
  locked : ∀ edge, .locked edge ∈ fx → SecondLong edge.intervalNs
  config : w.ingest.clock.clock.tracker.config = .default
  lastUs : w.ingest.clock.clock.tracker.lastUs =
    w.ingest.timeline.last.map fun _ => w.ingest.timeline.edgeNs / 1000
  edgeNs : w.ingest.timeline.edgeNs < 18446744073709551616
  since : (lockedSince fx).map (·.raw) = GenCapture.sinceLook (genEffects fx)

/-- The time that the tracker measures is the interval, unless the nanoseconds come round. -/
theorem secondLong_of_classify {t : PpsTracker} (ht : t.config = .default) {edgeNs iv : Nat}
    (hedge : edgeNs < 18446744073709551616) (hiv : iv < 18446744073709551616)
    (h : (t.classify (edgeNs / 1000)
      ((edgeNs + iv) % 18446744073709551616 / 1000)).isLocked = true) :
    SecondLong iv := by
  have hnow : (edgeNs + iv) % 18446744073709551616 < 18446744073709551616 :=
    Nat.mod_lt _ (by decide)
  rw [PpsTracker.classify_isLocked_iff t ht (by omega)] at h
  unfold SecondLong
  omega

theorem secondLong_of_locked (hconfig : w.ingest.clock.clock.tracker.config = .default)
    (hlast : w.ingest.clock.clock.tracker.lastUs =
      w.ingest.timeline.last.map fun _ => w.ingest.timeline.edgeNs / 1000)
    (hedge : w.ingest.timeline.edgeNs < 18446744073709551616)
    (h : (w.stepped raw q).1.event.isLocked = true) :
    SecondLong (w.ingest.timeline.observe raw).1.intervalNs := by
  have hevent : (w.ingest.clock.clock.tracker.record
      ((w.ingest.timeline.observe raw).1.edgeNs / 1000)).1.isLocked = true := by
    rw [stepped, PpsGpsdo.event_onPpsEdge] at h
    exact h
  cases hprev : w.ingest.timeline.last with
  | none =>
    rw [hprev, Option.map_none] at hlast
    rw [PpsTracker.record, hlast] at hevent
    cases hevent
  | some prev =>
    rw [hprev, Option.map_some] at hlast
    rw [PpsTracker.record, hlast] at hevent
    simp only [PpsEdgeTimeline.observe, hprev] at hevent ⊢
    exact secondLong_of_classify hconfig hedge (Nat.mod_lt _ (by decide)) hevent

theorem observe_edgeNs_lt (t : PpsEdgeTimeline) (raw : UInt32) :
    (t.observe raw).2.edgeNs < 18446744073709551616 := Nat.mod_lt _ (by decide)

theorem since_map (effects : List GenEffect) (hp : ∀ raw, .published raw ∉ effects)
    (edges : List TimedEdge) :
    ((effects.map .gen).foldl FirmwareEffect.since edges).map (·.raw) =
      effects.foldl GenEffect.since (edges.map (·.raw)) := by
  induction effects generalizing edges with
  | nil => rfl
  | cons effect effects ih =>
    have hrest := ih fun raw hmem => hp raw (List.mem_cons_of_mem _ hmem)
    rw [List.map_cons, List.foldl_cons, List.foldl_cons, hrest]
    cases effect with
    | published raw => exact absurd (List.mem_cons_self ..) (hp raw)
    | looked | taken | period | steered | updateTemp | recalStarted | recalEnded => rfl

theorem intervals_map (effects : List GenEffect) : intervals (effects.map .gen) = [] := by
  induction effects with
  | nil => rfl
  | cons effect effects ih => exact ih

theorem tracker_feed (effects : List GenEffect) (clock : PpsGpsdo) :
    (effects.foldl feed clock).clock.tracker = clock.clock.tracker := by
  induction effects generalizing clock with
  | nil => rfl
  | cons effect effects ih =>
    rw [List.foldl_cons, ih]
    cases effect <;> rfl

theorem lockedSince_append (fx fx' : List FirmwareEffect) :
    lockedSince (fx ++ fx') = fx'.foldl FirmwareEffect.since (lockedSince fx) := List.foldl_append

theorem intervals_append (fx fx' : List FirmwareEffect) :
    intervals (fx ++ fx') = intervals fx ++ intervals fx' := List.filterMap_append

theorem genEffects_append (fx fx' : List FirmwareEffect) :
    genEffects (fx ++ fx') = genEffects fx ++ genEffects fx' := List.filterMap_append

/-- A step without an edge, after which the tracker and the reception are as they were. -/
theorem Judges.quiet (h : Judges fx w) (hreception : w'.reception = w.reception)
    (htimeline : w'.ingest.timeline = w.ingest.timeline)
    (htracker : w'.ingest.clock.clock.tracker = w.ingest.clock.clock.tracker)
    (effects : List GenEffect) (hp : ∀ raw, .published raw ∉ effects) :
    Judges (fx ++ effects.map .gen) w' := by
  constructor
  · rw [intervals_append, intervals_map, List.append_nil, hreception]
    exact h.reception
  · intro edge hmem
    rcases List.mem_append.1 hmem with hmem | hmem
    · exact h.locked edge hmem
    · obtain ⟨effect, -, hno⟩ := List.mem_map.1 hmem
      cases hno
  · rw [htracker]
    exact h.config
  · rw [htracker, htimeline]
    exact h.lastUs
  · rw [htimeline]
    exact h.edgeNs
  · rw [lockedSince_append, since_map effects hp, h.since, genEffects_append, genEffects_map,
      GenCapture.sinceLook, GenCapture.sinceLook, List.foldl_append]

theorem Judges.step (h : Judges fx w) (hs : Step w e fx' w') : Judges (fx ++ fx') w' := by
  cases hs with
  | edge raw q =>
    have htracker : (w.ingest.takeEdge raw q).clock.clock.tracker =
        (w.ingest.clock.clock.tracker.record
          ((w.ingest.timeline.observe raw).1.edgeNs / 1000)).2 :=
      PpsGpsdo.tracker_onPpsEdge w.ingest.clock (w.ingest.timeline.observe raw).1 q
    have hlast : (w.ingest.takeEdge raw q).clock.clock.tracker.lastUs =
        (w.ingest.takeEdge raw q).timeline.last.map fun _ =>
          (w.ingest.takeEdge raw q).timeline.edgeNs / 1000 := by
      rw [htracker, PpsTracker.record_lastUs]
      rfl
    have hconfig : (w.ingest.takeEdge raw q).clock.clock.tracker.config = .default := by
      rw [htracker, PpsTracker.record_config]
      exact h.config
    have hedge : (w.ingest.takeEdge raw q).timeline.edgeNs < 18446744073709551616 :=
      observe_edgeNs_lt w.ingest.timeline raw
    cases hlocked : (w.stepped raw q).1.event.isLocked with
    | true =>
      have hlong := secondLong_of_locked h.config h.lastUs h.edgeNs hlocked
      rw [takeEdge_locked hlocked]
      clear htracker
      generalize w.ingest.takeEdge raw q = ingest at *
      refine ⟨?_, ?_, hconfig, hlast, hedge, ?_⟩
      · rw [intervals_append, RxJitter.run, List.foldl_append, ← RxJitter.run, ← h.reception]
        rfl
      · intro edge hmem
        rcases List.mem_append.1 hmem with hmem | hmem
        · exact h.locked edge hmem
        · simp only [List.mem_cons, FirmwareEffect.locked.injEq, reduceCtorEq, List.not_mem_nil,
            or_false] at hmem
          rw [hmem]
          exact hlong
      · have hgen : genEffects (fx ++ [.locked (w.ingest.timeline.observe raw).1,
            .gen (.published raw)]) = genEffects fx ++ [.published raw] := List.filterMap_append
        rw [lockedSince_append, hgen, GenCapture.sinceLook, List.foldl_append,
          ← GenCapture.sinceLook, ← h.since]
        exact List.map_append
    | false =>
      rw [takeEdge_not_locked hlocked, List.append_nil]
      clear htracker
      generalize w.ingest.takeEdge raw q = ingest at *
      exact ⟨h.reception, h.locked, hconfig, hlast, hedge, h.since⟩
  | reads hread he =>
    obtain ⟨htimeline, hclock⟩ := Ingest.step_clock hread he
    refine h.quiet ?_ ?_ ?_ [] fun _ hno => by cases hno
    · rfl
    · exact htimeline
    · rcases hclock with hsame | ⟨s, hfed⟩
      · rw [hsame]
      · rw [hfed]
        exact PpsGpsdo.tracker_feedNmea _ s
  | temp block =>
    refine h.quiet ?_ ?_ ?_ [] fun _ hno => by cases hno
    · rfl
    · rfl
    · rfl
  | gen hgen hp hr =>
    refine h.quiet ?_ ?_ ?_ _ ((GenCapture.step_cases hgen).not_published hp)
    · rfl
    · rfl
    · exact tracker_feed _ _

theorem judges_start (k : UInt32) : Judges [] (start k) where
  reception := rfl
  locked _ h := by cases h
  config := rfl
  lastUs := rfl
  edgeNs := (by decide : 0 < 18446744073709551616)
  since := rfl

theorem judges_run (h : (start k).run events = some (fx, w)) : Judges fx w :=
  Reactor.run_invariant (fun _ _ _ _ _ hp hs => hp.step (step_cases hs)) (judges_start k) h

/-- In every run of fewer than 2³² locked edges, each of them a second after the one before it, the
published jitter is the spread of the last eight intervals, and the reception counts as bad from
eight that are more than 120 ns apart until eight are within 70 ns. -/
theorem reception_judged (h : (start k).run events = some (fx, w))
    (hlen : (intervals fx).length < 4294967296) :
    (∀ iv ∈ intervals fx, 949999001 ≤ iv ∧ iv ≤ 1050000999) ∧
    (w.reception.jitter.toNat : Int) = (if rxJitWin ≤ (intervals fx).length then
      RxJitter.spread (RxJitter.windowAt (intervals fx) (intervals fx).length) else 0) ∧
    (w.reception.bad = true ↔ ∃ n, rxJitWin ≤ n ∧ n ≤ (intervals fx).length ∧
      RxJitter.Strays rxJitHiNs (RxJitter.windowAt (intervals fx) n) ∧
      ∀ m, n < m → m ≤ (intervals fx).length →
        RxJitter.Strays rxJitLoNs (RxJitter.windowAt (intervals fx) m)) := by
  have hjudges := judges_run h
  have hlong : ∀ iv ∈ intervals fx, 949999001 ≤ iv ∧ iv ≤ 1050000999 := by
    intro iv hiv
    obtain ⟨effect, hmem, heq⟩ := List.mem_filterMap.1 hiv
    cases effect with
    | locked edge =>
      obtain ⟨hlo, hhi⟩ := hjudges.locked edge hmem
      have hiv : asI64 edge.intervalNs = iv := Option.some.inj heq
      rw [← hiv, asI64_of_lt (by omega)]
      omega
    | gen effect => cases heq
  have htimed : ∀ iv ∈ intervals fx, Timed iv := by
    intro iv hiv
    obtain ⟨hlo, hhi⟩ := hlong iv hiv
    unfold Timed
    omega
  rw [hjudges.reception]
  exact ⟨hlong, RxJitter.run_jitter htimed hlen, RxJitter.run_bad_iff htimed hlen⟩

/-- A receiver that is eight ticks early once. -/
def strayEdges : List FirmwareEvent := (List.range 10).map fun i =>
  .ingest (.edge (GenCapture.refEdge i - if i = 5 then 8 else 0) (1000000000 * i))

theorem reception_judged_stray :
    ∃ fx w, (start 5).run strayEdges = some (fx, w) ∧ ∃ n, rxJitWin ≤ n ∧
      n ≤ (intervals fx).length ∧
      RxJitter.Strays rxJitHiNs (RxJitter.windowAt (intervals fx) n) := by
  have hrun : ((start 5).run strayEdges).any (fun s =>
      decide ((intervals s.1).length = 9) && s.2.reception.bad) = true := by
    decide +kernel
  obtain ⟨⟨fx, w⟩, hw, hends⟩ := (Option.any_eq_true _ _).1 hrun
  obtain ⟨hlen, hbad⟩ := Bool.and_eq_true_iff.1 hends
  have hnine : (intervals fx).length = 9 := of_decide_eq_true hlen
  obtain ⟨-, -, hiff⟩ := reception_judged hw (by rw [hnine]; decide)
  obtain ⟨n, h8, hn, hstrays, -⟩ := hiff.1 hbad
  exact ⟨fx, w, hw, n, h8, hn, hstrays⟩

end Firmware

end PicoGnss
