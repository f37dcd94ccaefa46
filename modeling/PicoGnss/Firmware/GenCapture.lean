import PicoGnss.Firmware.KCalibration
import PicoGnss.Gnssdo.Controllers
import PicoGnss.Lib.Reactor
import PicoGnss.RpPps.Output

/-! The loop that steers the output pulse, with what runs beside it: the task that publishes the
reference edges, the output program that takes the period words, and the measurement of `k`, during
which the loop stands still. -/

namespace PicoGnss
open FixedWidth
set_option autoImplicit true

def clkSysHz : UInt32 := 125000000

def outputHighCycles (clkHz : UInt32) (widthNs : Nat) : UInt32 :=
  .ofNat (widthNs * clkHz.toNat / 1000000000)

def outputPeriodCycles (clkHz highCycles : UInt32) : UInt32 :=
  clkHz - .ofNat outputOverheadCycles - highCycles

def ppsPulseNs : Nat := 900000000

/-- The locked edges between two measurements. -/
def recalEdges : Nat := 150

def txFifoDepth : Nat := 4

/-- The newest capture, and how many older ones it is preferred to. -/
def latestCapture (first : UInt32) (more : List UInt32) : UInt32 × UInt32 :=
  more.foldl (fun acc v => (v, acc.2 + 1)) (first, 0)

/-- The reference edge that `pps_task` has published, and its generation. -/
structure Published where
  c0 : UInt32
  gen : UInt32

/-- Where a measurement is: the number of the sample, the generation before it, the samples so far,
and the capture whose reference edge is still to be published. -/
structure RecalState where
  i : Nat
  genBefore : UInt32
  samples : List (UInt32 × UInt32)
  c2 : Option UInt32

structure GenCapture where
  published : Published
  lastX : Option UInt32
  lastGen : UInt32
  k : UInt32
  kTarget : UInt32
  edgesSinceRecal : Nat
  controller : Controller
  dither : OutputPeriodDither
  lastPeriod : UInt32
  recal : Option RecalState

/-- What an iteration of the loop reads: the captures of the output, the frequency that the clock
steers with, and the temperature. -/
structure GenReads where
  x0 : UInt32
  backlog : List UInt32
  steerMppb : Int
  tempRaw : Nat

/-- The output edge that the iteration is about. -/
def GenReads.x (r : GenReads) : UInt32 := (latestCapture r.x0 r.backlog).1

inductive GenEvent where
  /-- The output program takes the next period word. -/
  | pull
  | publish (raw : UInt32)
  | edge (reads : GenReads)
  /-- The measurement looks for a capture, and gives up when it is late without one. -/
  | poll (c2 : Option UInt32) (late : Bool)
  /-- The measurement goes on, after a publication or without one. -/
  | settle

inductive GenEffect where
  | taken
  | published (raw : UInt32)
  | looked
  | period (word : UInt32)
  | steered (valid : Bool) (u : ControlOutput)
  | updateTemp (raw : Nat)
  | recalStarted
  | recalEnded (k kTarget : UInt32)
deriving DecidableEq

/-- The controller of the first slot. -/
def makeController : Controller := .pll (.withConfig .production)

namespace GenCapture

def highCycles : UInt32 := outputHighCycles clkSysHz ppsPulseNs

/-- The task as it is spawned, with the offset that was calibrated at boot. -/
def start (k : UInt32) : GenCapture where
  published := ⟨0, 0⟩
  lastX := none
  lastGen := 0
  k := k
  kTarget := k
  edgesSinceRecal := 0
  controller := makeController
  dither := .new
  lastPeriod := 0
  recal := none

section
variable (g : GenCapture) (r : GenReads)

/-- One reference edge has come since the last look, and no more. -/
def fresh : Bool := decide (g.published.gen - g.lastGen = 1)

def interval : Option Int := g.lastX.map fun lx => asI64 (intervalNs lx r.x clkSysHz.toNat)

def sane : Bool :=
  (g.interval r).any fun iv => decide (abs64 (wrap64 (iv - 1000000000)) < 300000000)

def slewedK : UInt32 := slewK g.k g.kTarget

def hwphaseNs : Int := loopbackPhaseNs g.published.c0 r.x g.slewedK clkSysHz.toNat

def rawLag : Int := loopbackRawLagTicks g.published.c0 r.x g.slewedK

/-- The two edges are no more than about 10 ms apart. -/
def paired : Bool := decide ((g.rawLag r).natAbs ≤ clkSysHz.toNat / 200)

def valid : Bool := g.fresh && g.sane r && decide (g.published.c0 ≠ 0) && g.paired r

def control : ControlOutput × Controller := g.controller.step ⟨g.hwphaseNs r, g.valid r⟩

def nextPeriod : UInt32 × OutputPeriodDither :=
  g.dither.nextPeriod clkSysHz (wrap64 (r.steerMppb + (g.control r).1.trimMppb))
    (g.control r).1.pcorrNs highCycles

/-- A measurement is due after this edge. -/
def recalDue : Bool :=
  (g.control r).1.locked && decide (recalEdges ≤ g.edgesSinceRecal + 1)

/-- One iteration of the loop. -/
def edge : List GenEffect × GenCapture :=
  let u := (g.control r).1
  let period := g.nextPeriod r
  let effects := [.looked, .steered (g.valid r) u] ++
    (if u.locked then [.updateTemp r.tempRaw] else []) ++ [.period period.1]
  let g' := { g with
    lastX := some r.x
    lastGen := g.published.gen
    k := g.slewedK
    controller := (g.control r).2
    dither := period.2
    lastPeriod := period.1 }
  if g.recalDue r then
    (effects ++ [.recalStarted],
      { g' with edgesSinceRecal := 0, recal := some ⟨0, g.published.gen, [], none⟩ })
  else (effects, { g' with edgesSinceRecal := if u.locked then g.edgesSinceRecal + 1 else 0 })

end

/-- The end of a measurement: what it found, and the first interval and generation after it. -/
def endRecal (g : GenCapture) (samples : List (UInt32 × UInt32)) : List GenEffect × GenCapture :=
  let kTarget := evaluateRecal g.kTarget samples
  ([.recalEnded g.kTarget kTarget, .looked],
    { g with kTarget, lastX := none, lastGen := g.published.gen, recal := none })

/-- The samples with one more, if it is a pair of the same edge as far as can be told. -/
def addRecalSample (g : GenCapture) (rc : RecalState) (c2 : UInt32) : List (UInt32 × UInt32) :=
  if g.published.gen = rc.genBefore then rc.samples
  else if g.published.c0 = 0 ∨ rc.i = 0 then rc.samples
  else if sampleGated g.kTarget (g.published.c0, c2) then rc.samples
  else rc.samples ++ [(g.published.c0, c2)]

/-- A step of the task or beside it, where it can happen. -/
def step (g : GenCapture) : GenEvent → Option (List GenEffect × GenCapture)
  | .pull => some ([.taken], g)
  | .publish raw => some ([.published raw], { g with published := ⟨raw, g.published.gen + 1⟩ })
  | .edge r =>
    match g.recal with
    | none => some (g.edge r)
    | some _ => none
  | .poll c2 late =>
    match g.recal with
    | some ⟨i, genBefore, samples, none⟩ =>
      match c2 with
      | some c2 =>
        some ([.period g.lastPeriod], { g with recal := some ⟨i, genBefore, samples, c2⟩ })
      | none =>
        if late then
          some ((.period g.lastPeriod) :: (g.endRecal samples).1, (g.endRecal samples).2)
        else some ([.period g.lastPeriod], g)
    | _ => none
  | .settle =>
    match g.recal with
    | some ⟨i, genBefore, samples, some c2⟩ =>
      let samples := g.addRecalSample ⟨i, genBefore, samples, some c2⟩ c2
      if i + 1 < recalSamples then
        some ([], { g with recal := some ⟨i + 1, g.published.gen, samples, none⟩ })
      else some (g.endRecal samples)
    | _ => none

/-- A run, with all its effects in order. -/
def run (g : GenCapture) (events : List GenEvent) : Option (List GenEffect × GenCapture) :=
  Reactor.run step g events

/-- What one step can be. -/
inductive Step (g : GenCapture) : GenEvent → List GenEffect → GenCapture → Prop where
  | pull : Step g .pull [.taken] g
  | publish : Step g (.publish raw) [.published raw]
      { g with published := ⟨raw, g.published.gen + 1⟩ }
  | edge : g.recal = none → Step g (.edge r) (g.edge r).1 (g.edge r).2
  | found : g.recal = some ⟨i, genBefore, samples, none⟩ →
      Step g (.poll (some c2) late) [.period g.lastPeriod]
        { g with recal := some ⟨i, genBefore, samples, some c2⟩ }
  | late : g.recal = some ⟨i, genBefore, samples, none⟩ →
      Step g (.poll none true) (.period g.lastPeriod :: (g.endRecal samples).1)
        (g.endRecal samples).2
  | waits : g.recal = some ⟨i, genBefore, samples, none⟩ →
      Step g (.poll none false) [.period g.lastPeriod] g
  | settled : g.recal = some ⟨i, genBefore, samples, some c2⟩ → i + 1 < recalSamples →
      Step g .settle []
        { g with recal := some ⟨i + 1, g.published.gen,
          g.addRecalSample ⟨i, genBefore, samples, some c2⟩ c2, none⟩ }
  | ended : g.recal = some ⟨i, genBefore, samples, some c2⟩ →
      Step g .settle (g.endRecal (g.addRecalSample ⟨i, genBefore, samples, some c2⟩ c2)).1
        (g.endRecal (g.addRecalSample ⟨i, genBefore, samples, some c2⟩ c2)).2

variable {g g' : GenCapture} {e : GenEvent} {fx : List GenEffect}

theorem step_cases (h : g.step e = some (fx, g')) : Step g e fx g' := by
  cases e with
  | pull =>
    cases h
    exact .pull
  | publish raw =>
    cases h
    exact .publish
  | edge r =>
    cases hr : g.recal with
    | none =>
      simp only [step, hr, Option.some.injEq] at h
      rw [show fx = (g.edge r).1 by rw [h], show g' = (g.edge r).2 by rw [h]]
      exact .edge hr
    | some rc => simp only [step, hr, reduceCtorEq] at h
  | poll c2 late =>
    match hr : g.recal, c2, late with
    | none, _, _ => simp only [step, hr, reduceCtorEq] at h
    | some ⟨i, genBefore, samples, some c2'⟩, _, _ => simp only [step, hr, reduceCtorEq] at h
    | some ⟨i, genBefore, samples, none⟩, some c2, late =>
      simp only [step, hr] at h
      cases h
      exact .found hr
    | some ⟨i, genBefore, samples, none⟩, none, true =>
      simp only [step, hr, if_true] at h
      cases h
      exact .late hr
    | some ⟨i, genBefore, samples, none⟩, none, false =>
      simp only [step, hr, Bool.false_eq_true, if_false] at h
      cases h
      exact .waits hr
  | settle =>
    match hr : g.recal with
    | none => simp only [step, hr, reduceCtorEq] at h
    | some ⟨i, genBefore, samples, none⟩ => simp only [step, hr, reduceCtorEq] at h
    | some ⟨i, genBefore, samples, some c2⟩ =>
      simp only [step, hr] at h
      split at h
      · cases h
        exact .settled hr ‹_›
      · cases h
        exact .ended hr

/-- A relation of the events and the effects so far to the state, kept by every step, holds after
every run. -/
theorem run_history {P : List GenEvent → List GenEffect → GenCapture → Prop}
    (hstep : ∀ events fx g e fx' g', P events fx g → Step g e fx' g' →
      P (events ++ [e]) (fx ++ fx') g')
    (hs : P [] [] g) (h : g.run events = some (fx, g')) : P events fx g' :=
  Reactor.run_history (fun events _ _ e _ _ hp h => hstep events _ _ e _ _ hp (step_cases h)) hs h

/-- The same for the effects alone. -/
theorem run_invariant {P : List GenEffect → GenCapture → Prop}
    (hstep : ∀ fx g e fx' g', P fx g → Step g e fx' g' → P (fx ++ fx') g')
    (hs : P [] g) (h : g.run events = some (fx, g')) : P fx g' :=
  run_history (P := fun _ => P) (fun _ => hstep) hs h

/-- How the offset in use, the one measured and a measurement stand to one another. -/
structure Slews (g : GenCapture) : Prop where
  near : kDistance g.k g.kTarget ≤ recalSampleTickGate - 2 * g.edgesSinceRecal
  recal : ∀ rc, g.recal = some rc → g.k = g.kTarget ∧ g.edgesSinceRecal = 0 ∧
    rc.i < recalSamples ∧ rc.samples.length ≤ rc.i ∧
    ∀ p ∈ rc.samples, sampleGated g.kTarget p = false

/-- What an iteration leaves behind. -/
structure AfterEdge (g : GenCapture) (r : GenReads) (g' : GenCapture) : Prop where
  published : g'.published = g.published
  lastX : g'.lastX = some r.x
  lastGen : g'.lastGen = g.published.gen
  k : g'.k = g.slewedK
  kTarget : g'.kTarget = g.kTarget
  controller : g'.controller = (g.control r).2
  dither : g'.dither = (g.nextPeriod r).2
  lastPeriod : g'.lastPeriod = (g.nextPeriod r).1
  edges : g'.edgesSinceRecal = if g.recalDue r then 0
    else if (g.control r).1.locked then g.edgesSinceRecal + 1 else 0
  recal : g'.recal = if g.recalDue r then some ⟨0, g.published.gen, [], none⟩ else g.recal

theorem afterEdge (g : GenCapture) (r : GenReads) : AfterEdge g r (g.edge r).2 := by
  cases h : g.recalDue r <;> constructor <;> simp only [edge, h] <;> rfl

theorem edge_effects (g : GenCapture) (r : GenReads) :
    (g.edge r).1 = [.looked, .steered (g.valid r) (g.control r).1] ++
      (if (g.control r).1.locked then [.updateTemp r.tempRaw] else []) ++
      [.period (g.nextPeriod r).1] ++ if g.recalDue r then [.recalStarted] else [] := by
  cases h : g.recalDue r with
  | true =>
    simp only [edge, h]
    rfl
  | false =>
    simp only [edge, h]
    exact (List.append_nil _).symm

/-- A measurement is due only when the offset has reached the one measured before. -/
theorem Slews.reached (h : Slews g) (hdue : g.recalDue r = true) : g.k = g.kTarget := by
  have hedges := (Bool.and_eq_true_iff.1 hdue).2
  have hcount : 150 ≤ g.edgesSinceRecal + 1 := of_decide_eq_true hedges
  have hnear := h.near
  rw [recalSampleTickGate] at hnear
  apply eq_of_kDistance_zero
  omega

theorem slewK_self (k : UInt32) : slewK k k = k := if_neg (not_not.2 rfl)

theorem Slews.edge (h : Slews g) (hrecal : g.recal = none) (r : GenReads) :
    Slews (g.edge r).2 := by
  have ha := afterEdge g r
  have hslew := kDistance_slewK g.k g.kTarget
  have hnear := h.near
  rw [recalSampleTickGate] at hnear
  cases hdue : g.recalDue r with
  | true =>
    have hreached := h.reached hdue
    have hk : (g.edge r).2.k = (g.edge r).2.kTarget := by
      rw [ha.k, ha.kTarget, slewedK, hreached, slewK_self]
    have hedges : (g.edge r).2.edgesSinceRecal = 0 := by rw [ha.edges, if_pos hdue]
    constructor
    · rw [hk, kDistance_self]
      exact Nat.zero_le _
    · intro rc hrc
      rw [ha.recal, if_pos hdue] at hrc
      cases hrc
      exact ⟨hk, hedges, Nat.succ_pos 5, Nat.le_refl 0, List.forall_mem_nil _⟩
  | false =>
    have hedges := ha.edges
    rw [hdue, if_neg Bool.false_ne_true] at hedges
    constructor
    · rw [ha.k, ha.kTarget, slewedK, hslew, hedges, recalSampleTickGate]
      split <;> omega
    · intro rc hrc
      rw [ha.recal, hdue, if_neg Bool.false_ne_true, hrecal] at hrc
      cases hrc

theorem slews_endRecal (hk : g.k = g.kTarget) (hedges : g.edgesSinceRecal = 0)
    (hlen : samples.length ≤ recalSamples)
    (hgate : ∀ p ∈ samples, sampleGated g.kTarget p = false) :
    Slews (g.endRecal samples).2 := by
  have hfits : samples.length ≤ 4294967296 := Nat.le_trans hlen (by decide)
  constructor
  · change kDistance g.k (evaluateRecal g.kTarget samples) ≤ _ - 2 * g.edgesSinceRecal
    rw [hk, hedges]
    rcases evaluateRecal_cases hfits hgate with heq | hadopted
    · rw [heq, kDistance_self]
      exact Nat.zero_le _
    · exact hadopted.near
  · intro rc hrc
    cases hrc

theorem addRecalSample_gated (g : GenCapture) (rc : RecalState) (c2 : UInt32)
    (h : ∀ p ∈ rc.samples, sampleGated g.kTarget p = false) :
    (g.addRecalSample rc c2).length ≤ rc.samples.length + 1 ∧
      ∀ p ∈ g.addRecalSample rc c2, sampleGated g.kTarget p = false := by
  unfold addRecalSample
  split
  · exact ⟨Nat.le_succ _, h⟩
  · split
    · exact ⟨Nat.le_succ _, h⟩
    · split
      · exact ⟨Nat.le_succ _, h⟩
      · rename_i hgate
        refine ⟨by rw [List.length_append, List.length_singleton], fun p hp => ?_⟩
        rcases List.mem_append.1 hp with hp | hp
        · exact h p hp
        · rw [List.mem_singleton.1 hp]
          exact Bool.eq_false_of_not_eq_true hgate

theorem mem_edge_effects (hmem : o ∈ (g.edge r).1) :
    o = .looked ∨ o = .steered (g.valid r) (g.control r).1 ∨ o = .updateTemp r.tempRaw ∨
      o = .period (g.nextPeriod r).1 ∨ (o = .recalStarted ∧ g.recalDue r = true) := by
  rw [edge_effects] at hmem
  simp only [List.mem_append, List.mem_cons, List.not_mem_nil, or_false] at hmem
  rcases hmem with (((h | h) | h) | h) | h
  · exact .inl h
  · exact .inr (.inl h)
  · split at h
    · exact .inr (.inr (.inl (List.mem_singleton.1 h)))
    · cases h
  · exact .inr (.inr (.inr (.inl h)))
  · split at h
    · exact .inr (.inr (.inr (.inr ⟨List.mem_singleton.1 h, ‹_›⟩)))
    · cases h

theorem mem_endRecal {k k' : UInt32} (hmem : .recalEnded k k' ∈ (g.endRecal samples).1) :
    k = g.kTarget ∧ k' = evaluateRecal g.kTarget samples := by
  simp only [endRecal, List.mem_cons, reduceCtorEq, List.not_mem_nil, or_false,
    GenEffect.recalEnded.injEq] at hmem
  exact hmem

/-- The samples that a measurement ends with when it gives up. -/
theorem Slews.samples (h : Slews g) (hrecal : g.recal = some rc) :
    rc.samples.length ≤ recalSamples ∧ ∀ p ∈ rc.samples, sampleGated g.kTarget p = false := by
  obtain ⟨-, -, hi, hlen, hgate⟩ := h.recal rc hrecal
  exact ⟨Nat.le_trans hlen hi.le, hgate⟩

/-- And those that it ends with after the last of them. -/
theorem Slews.samples_add (h : Slews g) (hrecal : g.recal = some rc) (c2 : UInt32) :
    (g.addRecalSample rc c2).length ≤ recalSamples ∧
      ∀ p ∈ g.addRecalSample rc c2, sampleGated g.kTarget p = false := by
  obtain ⟨-, -, hi, hlen, hgate⟩ := h.recal rc hrecal
  obtain ⟨hlen', hgate'⟩ := addRecalSample_gated g rc c2 hgate
  exact ⟨Nat.le_trans hlen' (Nat.le_trans (Nat.succ_le_succ hlen) hi), hgate'⟩

/-- One step of the task or beside it keeps the offsets together. -/
theorem Slews.step (h : Slews g) (hs : Step g e fx g') : Slews g' := by
  cases hs with
  | pull | waits => exact h
  | publish => exact ⟨h.near, h.recal⟩
  | edge hrecal => exact h.edge hrecal _
  | found hrecal =>
    obtain ⟨hk, hedges, hi, hlen, hgate⟩ := h.recal _ hrecal
    refine ⟨h.near, fun rc hrc => ?_⟩
    cases hrc
    exact ⟨hk, hedges, hi, hlen, hgate⟩
  | late hrecal =>
    obtain ⟨hk, hedges, -⟩ := h.recal _ hrecal
    obtain ⟨hlen, hgate⟩ := h.samples hrecal
    exact slews_endRecal hk hedges hlen hgate
  | settled hrecal hnext =>
    obtain ⟨hk, hedges, hi, hlen, hgate⟩ := h.recal _ hrecal
    obtain ⟨hlen', hgate'⟩ := addRecalSample_gated g ⟨_, _, _, _⟩ _ hgate
    refine ⟨h.near, fun rc hrc => ?_⟩
    cases hrc
    exact ⟨hk, hedges, hnext, Nat.le_trans hlen' (Nat.succ_le_succ hlen), hgate'⟩
  | ended hrecal =>
    obtain ⟨hk, hedges, -⟩ := h.recal _ hrecal
    obtain ⟨hlen, hgate⟩ := h.samples_add hrecal _
    exact slews_endRecal hk hedges hlen hgate

/-- What moves the offset in use is an iteration, and a measurement starts where it has arrived. -/
theorem Slews.moved (h : Slews g) (hs : Step g e fx g') :
    (.recalStarted ∈ fx → g.k = g.kTarget) ∧
      (g'.k = g.k ∨ ∃ r, e = .edge r ∧ g'.k = slewK g.k g.kTarget ∧
        kDistance g'.k g.kTarget = kDistance g.k g.kTarget - 2) := by
  cases hs with
  | edge hrecal =>
    refine ⟨fun hmem => ?_, .inr ⟨_, rfl, (afterEdge g _).k, ?_⟩⟩
    · rcases mem_edge_effects hmem with ho | ho | ho | ho | ⟨-, hdue⟩
      · cases ho
      · cases ho
      · cases ho
      · cases ho
      · exact h.reached hdue
    · rw [(afterEdge g _).k]
      exact kDistance_slewK g.k g.kTarget
  | pull | publish | found | waits | settled => exact ⟨fun hmem => by simp at hmem, .inl rfl⟩
  | late | ended => exact ⟨fun hmem => by simp [endRecal] at hmem, .inl rfl⟩

theorem slews_start (k : UInt32) : Slews (start k) := by
  constructor
  · change kDistance k k ≤ _
    rw [kDistance_self]
    exact Nat.zero_le _
  · intro rc hrc
    cases hrc

/-- What a measurement has seen: the reference edge published and the capture found since its last
sample, and the pairs of the two that the samples before made. -/
structure Sightings where
  published : Option UInt32
  captured : Option UInt32
  pairs : List (UInt32 × UInt32)

/-- The sightings after one more event. An edge of the loop is what a measurement starts from. -/
def Sightings.next (s : Sightings) : GenEvent → Sightings
  | .pull => s
  | .publish raw => { s with published := some raw }
  | .edge _ => ⟨none, none, []⟩
  | .poll c2 _ => { s with captured := c2.or s.captured }
  | .settle => ⟨none, none,
      s.pairs ++ (s.published.bind fun c0 => s.captured.map fun c2 => (c0, c2)).toList⟩

def sightings (events : List GenEvent) : Sightings :=
  events.foldl Sightings.next ⟨none, none, []⟩

theorem sightings_concat (events : List GenEvent) (e : GenEvent) :
    sightings (events ++ [e]) = (sightings events).next e := List.foldl_concat ..

/-- A measurement under way, against what it has seen. -/
structure Sampled (s : Sightings) (p : Published) (rc : RecalState) : Prop where
  c2 : rc.c2 = s.captured
  published : p.gen = rc.genBefore ∨ s.published = some p.c0
  samples : rc.samples.Sublist s.pairs

/-- A sample is a pair that was seen. -/
theorem Sampled.add {s : Sightings} {samples : List (UInt32 × UInt32)} {c2 : UInt32}
    (h : Sampled s g.published ⟨i, genBefore, samples, some c2⟩) :
    (g.addRecalSample ⟨i, genBefore, samples, some c2⟩ c2).Sublist (s.next .settle).pairs := by
  have hkeep : samples.Sublist (s.next .settle).pairs :=
    h.samples.trans (List.sublist_append_left _ _)
  unfold addRecalSample
  split
  · exact hkeep
  · rename_i hgen
    split
    · exact hkeep
    · split
      · exact hkeep
      · rw [Sightings.next, h.published.resolve_left hgen, ← h.c2]
        exact h.samples.append (List.Sublist.refl _)

theorem Sampled.step {s : Sightings} (h : ∀ rc, g.recal = some rc → Sampled s g.published rc)
    (hs : Step g e fx g') : ∀ rc, g'.recal = some rc → Sampled (s.next e) g'.published rc := by
  intro rc hrc
  cases hs with
  | pull => exact h rc hrc
  | publish => exact ⟨(h rc hrc).c2, .inr rfl, (h rc hrc).samples⟩
  | edge hrecal =>
    rw [(afterEdge g _).recal, hrecal] at hrc
    split at hrc
    · cases hrc
      rw [(afterEdge g _).published]
      exact ⟨rfl, .inl rfl, List.nil_sublist _⟩
    · cases hrc
  | found hrecal =>
    cases hrc
    exact ⟨rfl, (h _ hrecal).published, (h _ hrecal).samples⟩
  | waits hrecal => exact h rc hrc
  | settled hrecal hnext =>
    cases hrc
    exact ⟨rfl, .inl rfl, (h _ hrecal).add⟩
  | late | ended => cases hrc

/-- What a measurement ends with is the old offset, or one adopted from pairs that it has seen. -/
def Measured (events : List GenEvent) (k k' : UInt32) : Prop :=
  k' = k ∨ ∃ samples, samples.Sublist (sightings events).pairs ∧ Adopted k k' samples ∧
    ∀ p ∈ samples, sampleGated k p = false

theorem measured_evaluateRecal {k : UInt32} (hseen : samples.Sublist (sightings events).pairs)
    (hlen : samples.length ≤ recalSamples) (hgate : ∀ p ∈ samples, sampleGated k p = false) :
    Measured events k (evaluateRecal k samples) := by
  have hfits : samples.length ≤ 4294967296 := Nat.le_trans hlen (by decide)
  rcases evaluateRecal_cases hfits hgate with heq | hadopted
  · exact .inl heq
  · exact .inr ⟨samples, hseen, hadopted, hgate⟩

/-- The measured offset moves in the end of a measurement, to what it has measured. -/
theorem measured_step (hslews : Slews g)
    (hsampled : ∀ rc, g.recal = some rc → Sampled (sightings events) g.published rc)
    (hs : Step g e fx g') :
    (g'.kTarget = g.kTarget ∨ .recalEnded g.kTarget g'.kTarget ∈ fx) ∧
      ∀ k k', .recalEnded k k' ∈ fx →
        k = g.kTarget ∧ k' = g'.kTarget ∧ Measured (events ++ [e]) k k' := by
  cases hs with
  | pull | publish | found | waits | settled => exact ⟨.inl rfl, fun k k' hmem => by simp at hmem⟩
  | edge hrecal =>
    refine ⟨.inl (afterEdge g _).kTarget, fun k k' hmem => ?_⟩
    rcases mem_edge_effects hmem with ho | ho | ho | ho | ⟨ho, -⟩ <;> cases ho
  | late hrecal =>
    obtain ⟨hlen, hgate⟩ := hslews.samples hrecal
    refine ⟨.inr (List.mem_cons_of_mem _ (List.mem_cons_self ..)), fun k k' hmem => ?_⟩
    rcases List.mem_cons.1 hmem with ho | hmem
    · cases ho
    obtain ⟨rfl, rfl⟩ := mem_endRecal hmem
    refine ⟨rfl, rfl, measured_evaluateRecal ?_ hlen hgate⟩
    rw [sightings_concat]
    exact (hsampled _ hrecal).samples
  | ended hrecal =>
    obtain ⟨hlen, hgate⟩ := hslews.samples_add hrecal _
    refine ⟨.inr (List.mem_cons_self ..), fun k k' hmem => ?_⟩
    obtain ⟨rfl, rfl⟩ := mem_endRecal hmem
    refine ⟨rfl, rfl, measured_evaluateRecal ?_ hlen hgate⟩
    rw [sightings_concat]
    exact (hsampled _ hrecal).add

/-- However the tasks interleave, the offset in use is no further than the gate from the one last
measured and closes in on it by two ticks an edge, is there whenever a measurement starts or runs,
and is changed by no other step. The one last measured is changed by the end of a measurement only,
and then to one within the gate of it that leaves each of at least three pairs seen by that
measurement within two ticks. -/
theorem offset_follows (h : (start k₀).run events = some (fx, g)) :
    kDistance g.k g.kTarget ≤ recalSampleTickGate - 2 * g.edgesSinceRecal ∧
    (∀ rc, g.recal = some rc → g.k = g.kTarget) ∧
    ∀ e fx' g', g.step e = some (fx', g') → (.recalStarted ∈ fx' → g.k = g.kTarget) ∧
      (g'.kTarget = g.kTarget ∨ .recalEnded g.kTarget g'.kTarget ∈ fx') ∧
      (∀ k k', .recalEnded k k' ∈ fx' →
        k = g.kTarget ∧ k' = g'.kTarget ∧ Measured (events ++ [e]) k k') ∧
      (g'.k = g.k ∨ ∃ r, e = .edge r ∧ g'.k = slewK g.k g.kTarget ∧
        kDistance g'.k g.kTarget = kDistance g.k g.kTarget - 2) := by
  obtain ⟨hslews, hsampled⟩ := run_history (g := start k₀)
    (P := fun events _ g =>
      Slews g ∧ ∀ rc, g.recal = some rc → Sampled (sightings events) g.published rc)
    (fun events fx g e fx' g' hp hs => by
      rw [sightings_concat]
      exact ⟨hp.1.step hs, Sampled.step hp.2 hs⟩)
    ⟨slews_start k₀, fun rc hrc => by cases hrc⟩ h
  refine ⟨hslews.near, fun rc hrc => (hslews.recal rc hrc).1, ?_⟩
  intro e fx' g' hstep
  have hs := step_cases hstep
  obtain ⟨hstarted, hslewed⟩ := hslews.moved hs
  obtain ⟨htarget, hmeasured⟩ := measured_step hslews hsampled hs
  exact ⟨hstarted, htarget, hmeasured, hslewed⟩

/-- The reference edges of a steady receiver, as the counter meets them. -/
def refEdge (i : Nat) : UInt32 := .ofInt (1000 - 62500000 * i)

/-- Seconds in which the output falls on the reference, five ticks of the counters apart. -/
def steadyEdges (n : Nat) : List GenEvent := (List.range n).flatMap fun i =>
  [.publish (refEdge i), .pull, .edge ⟨refEdge i - 5, [], 0, 880⟩]

/-- A measurement that finds nine ticks, with four looks for each sample. -/
def steadySamples (n : Nat) : List GenEvent := (List.range recalSamples).flatMap fun i =>
  .pull :: List.replicate 3 (.poll none false) ++
    [.poll (some (refEdge (n + i) - 9)) false, .publish (refEdge (n + i)), .settle]

def firstMeasurement : List GenEvent := steadyEdges 156 ++ steadySamples 156

theorem offset_follows_first_measurement :
    (∃ fx g fx' g', (start 5).run firstMeasurement.dropLast = some (fx, g) ∧
      g.step .settle = some (fx', g') ∧ .recalEnded 5 9 ∈ fx' ∧
        Measured (firstMeasurement.dropLast ++ [.settle]) 5 9) ∧
    ∃ fx g fx' g', (start 5).run firstMeasurement = some (fx, g) ∧
      g.step (.edge ⟨refEdge 162 - 9, [], 0, 880⟩) = some (fx', g') ∧
        kDistance g'.k g.kTarget = kDistance g.k g.kTarget - 2 := by
  constructor
  · have hrun : ((start 5).run firstMeasurement.dropLast).any (fun s =>
        (s.2.step .settle).any fun s' => decide (.recalEnded 5 9 ∈ s'.1)) = true := by
      decide +kernel
    obtain ⟨⟨fx, g⟩, hg, hends⟩ := (Option.any_eq_true _ _).1 hrun
    obtain ⟨⟨fx', g'⟩, hstep, hmem⟩ := (Option.any_eq_true _ _).1 hends
    have hmem := of_decide_eq_true hmem
    obtain ⟨-, -, hsteps⟩ := offset_follows hg
    obtain ⟨-, -, hmeasured, -⟩ := hsteps _ _ _ hstep
    exact ⟨fx, g, fx', g', hg, hstep, hmem, (hmeasured 5 9 hmem).2.2⟩
  · have hrun : ((start 5).run firstMeasurement).any (fun s =>
        (s.2.step (.edge ⟨refEdge 162 - 9, [], 0, 880⟩)).any fun s' =>
          decide (s'.2.k ≠ s.2.k)) = true := by
      decide +kernel
    obtain ⟨⟨fx, g⟩, hg, hnext⟩ := (Option.any_eq_true _ _).1 hrun
    obtain ⟨⟨fx', g'⟩, hstep, hmoved⟩ := (Option.any_eq_true _ _).1 hnext
    obtain ⟨-, -, hsteps⟩ := offset_follows hg
    obtain ⟨-, -, -, hslew⟩ := hsteps _ _ _ hstep
    obtain ⟨-, -, -, hcloser⟩ := hslew.resolve_left (of_decide_eq_true hmoved)
    exact ⟨fx, g, fx', g', hg, hstep, hcloser⟩

end GenCapture

end PicoGnss
