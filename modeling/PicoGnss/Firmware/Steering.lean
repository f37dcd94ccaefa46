import PicoGnss.Firmware.GenCapture
import PicoGnss.Lib.Fifo

/-! What the loop steers by, and when the output takes the words it queues. -/

namespace PicoGnss
open FixedWidth Folding
set_option autoImplicit true

namespace GenEffect

/-- The reference edges published since the last look, after one more effect. -/
def since (ps : List UInt32) : GenEffect → List UInt32
  | looked => []
  | published raw => ps ++ [raw]
  | _ => ps

/-- Whether an edge has been steered since the last measurement, after one more effect. -/
def steeredSince (steered : Bool) : GenEffect → Bool
  | .steered .. => true
  | recalEnded .. => false
  | _ => steered

end GenEffect

namespace GenCapture

variable {g g' : GenCapture} {e : GenEvent} {r : GenReads}

def sinceLook (fx : List GenEffect) : List UInt32 := fx.foldl GenEffect.since []

def steeredSince (fx : List GenEffect) : Bool := fx.foldl GenEffect.steeredSince false

theorem foldl_edge_effects (g : GenCapture) (r : GenReads) (ps : List UInt32) (b : Bool) :
    (g.edge r).1.foldl GenEffect.since ps = [] ∧
      (g.edge r).1.foldl GenEffect.steeredSince b = true := by
  rw [edge_effects]
  cases (g.control r).1.locked <;> cases g.recalDue r <;> exact ⟨rfl, rfl⟩

/-- The shared words and the last capture, against what has happened. -/
structure Witnesses (fx : List GenEffect) (g : GenCapture) : Prop where
  gen : g.published.gen = g.lastGen + .ofNat (sinceLook fx).length
  c0 : sinceLook fx ≠ [] → (sinceLook fx).getLast? = some g.published.c0
  lastX : g.lastX.isSome = steeredSince fx

/-- A look leaves nothing to be looked at. -/
theorem Witnesses.looked {fx : List GenEffect} (hnil : sinceLook fx = [])
    (hgen : g.lastGen = g.published.gen) (hx : g.lastX.isSome = steeredSince fx) :
    Witnesses fx g := by
  constructor
  · rw [hnil, hgen]
    exact (UInt32.add_zero _).symm
  · exact fun hne => absurd hnil hne
  · exact hx

theorem Witnesses.quiet {fx fx' : List GenEffect} (h : Witnesses fx g)
    (hp : g'.published = g.published) (hgen : g'.lastGen = g.lastGen) (hx : g'.lastX = g.lastX)
    (hsince : ∀ ps, fx'.foldl GenEffect.since ps = ps)
    (hsteered : ∀ b, fx'.foldl GenEffect.steeredSince b = b) : Witnesses (fx ++ fx') g' := by
  constructor
  · rw [hp, hgen, sinceLook, List.foldl_append, hsince]
    exact h.gen
  · rw [hp, sinceLook, List.foldl_append, hsince]
    exact h.c0
  · rw [hx, steeredSince, List.foldl_append, hsteered]
    exact h.lastX

theorem witnesses_endRecal (fx : List GenEffect) (g : GenCapture)
    (samples : List (UInt32 × UInt32)) :
    Witnesses (fx ++ (g.endRecal samples).1) (g.endRecal samples).2 := by
  apply Witnesses.looked
  · rw [sinceLook, List.foldl_append]
    rfl
  · rfl
  · rw [steeredSince, List.foldl_append]
    rfl

theorem Witnesses.step {fx fx' : List GenEffect} (h : Witnesses fx g) (hs : Step g e fx' g') :
    Witnesses (fx ++ fx') g' := by
  cases hs with
  | pull => exact h.quiet rfl rfl rfl (fun _ => rfl) fun _ => rfl
  | publish =>
    rename_i raw
    have hsince : sinceLook (fx ++ [.published raw]) = sinceLook fx ++ [raw] :=
      List.foldl_append ..
    constructor
    · rw [hsince, List.length_append, List.length_singleton, UInt32.ofNat_add, ← UInt32.add_assoc,
        ← h.gen]
      rfl
    · intro _
      rw [hsince, List.getLast?_concat]
    · rw [h.lastX, steeredSince, steeredSince, List.foldl_append]
      rfl
  | edge hrecal =>
    rename_i r
    have ha := afterEdge g r
    apply Witnesses.looked
    · rw [sinceLook, List.foldl_append, (foldl_edge_effects g r _ false).1]
    · rw [ha.lastGen, ha.published]
    · rw [ha.lastX, steeredSince, List.foldl_append, (foldl_edge_effects g r [] _).2]
      rfl
  | found => exact h.quiet rfl rfl rfl (fun _ => rfl) fun _ => rfl
  | late =>
    rw [← List.singleton_append, ← List.append_assoc]
    exact witnesses_endRecal _ g _
  | waits => exact h.quiet rfl rfl rfl (fun _ => rfl) fun _ => rfl
  | settled => exact h.quiet rfl rfl rfl (fun _ => rfl) fun _ => rfl
  | ended => exact witnesses_endRecal _ g _

/-- An interval that passes for a second is within 300 ms of it. -/
theorem interval_of_sane (h : g.sane r = true) :
    ∃ lx iv, g.lastX = some lx ∧ iv = asI64 (intervalNs lx r.x clkSysHz.toNat) ∧
      700000000 < iv ∧ iv < 1300000000 := by
  obtain ⟨iv, hiv, hnear⟩ := (Option.any_eq_true _ _).1 h
  obtain ⟨lx, hlx, rfl⟩ := Option.map_eq_some_iff.1 hiv
  have hnear := of_decide_eq_true hnear
  have hsmall : intervalNs lx r.x clkSysHz.toNat ≤ 68719476736 := by
    have hticks := (intervalTicks lx r.x).toNat_lt
    have hclk : clkSysHz.toNat = 125000000 := rfl
    rw [intervalNs, hclk, captureCyclesPerTick]
    omega
  refine ⟨lx, _, hlx, rfl, ?_⟩
  rw [asI64_of_lt (by omega)] at hnear ⊢
  rw [wrap64_of_natAbs_lt (by omega), abs64_of_natAbs_lt (by omega)] at hnear
  omega

/-- The phase of a pair is what the two edges are apart, folded by nothing. -/
theorem hwphaseNs_of_paired (h : g.paired r = true) :
    (g.rawLag r).natAbs ≤ 625000 ∧ g.hwphaseNs r = 16 * g.rawLag r := by
  have hlag : (g.rawLag r).natAbs ≤ 625000 := of_decide_eq_true h
  have hclk : clkSysHz.toNat = 125000000 := rfl
  refine ⟨hlag, ?_⟩
  rw [hwphaseNs, hclk, loopbackPhaseNs_eq, loopbackPhaseTicks_eq]
  rw [rawLag] at hlag ⊢
  generalize loopbackRawLagTicks g.published.c0 r.x g.slewedK = lag at *
  have hmod : lag.tmod 62500000 = lag := by
    obtain ⟨hdvd, hpos, hneg⟩ := tmod_spec (by decide : (0 : Int) < 62500000) lag
    omega
  simp only [hmod]
  rw [if_neg (by omega), if_neg (by omega)]

/-- What a valid edge can rely on. -/
structure Paired (fx : List GenEffect) (g : GenCapture) (r : GenReads) : Prop where
  once : (sinceLook fx).length % 4294967296 = 1
  last : (sinceLook fx).getLast? = some g.published.c0
  steered : steeredSince fx = true
  interval : ∃ lx iv, g.lastX = some lx ∧ iv = asI64 (intervalNs lx r.x clkSysHz.toNat) ∧
    700000000 < iv ∧ iv < 1300000000
  rawLag : (g.rawLag r).natAbs ≤ 625000
  phase : g.hwphaseNs r = 16 * g.rawLag r

theorem Witnesses.paired {fx : List GenEffect} (hw : Witnesses fx g) (hv : g.valid r = true) :
    Paired fx g r := by
  simp only [valid, Bool.and_eq_true] at hv
  obtain ⟨⟨⟨hfresh, hsane⟩, -⟩, hpaired⟩ := hv
  have hone : UInt32.ofNat (sinceLook fx).length = 1 := by
    have hdiff : g.published.gen - g.lastGen = 1 := of_decide_eq_true hfresh
    rw [hw.gen] at hdiff
    grind
  have hlen : (sinceLook fx).length % 4294967296 = 1 := by
    rw [← UInt32.toNat_ofNat', hone]
    rfl
  have hne : sinceLook fx ≠ [] := by
    intro hnil
    rw [hnil] at hlen
    cases hlen
  obtain ⟨lx, iv, hlx, hrest⟩ := interval_of_sane hsane
  obtain ⟨hlag, hphase⟩ := hwphaseNs_of_paired hpaired
  refine ⟨hlen, hw.c0 hne, ?_, ⟨lx, iv, hlx, hrest⟩, hlag, hphase⟩
  rw [← hw.lastX, hlx]
  rfl

/-- What the effects do to the queue of period words. -/
def fifoOps (fx : List GenEffect) : List (Fifo.Op UInt32) :=
  fx.filterMap fun
    | .taken => some .take
    | .period word => some (.put word)
    | _ => none

/-- The queue as the output program finds it when it has taken the width of the pulse. -/
def initialWords : List UInt32 := [outputPeriodCycles clkSysHz highCycles]

theorem fifoOps_append (fx fx' : List GenEffect) :
    fifoOps (fx ++ fx') = fifoOps fx ++ fifoOps fx' := List.filterMap_append

theorem fifoOps_edge (g : GenCapture) (r : GenReads) :
    fifoOps (g.edge r).1 = [.put (g.nextPeriod r).1] := by
  rw [edge_effects]
  cases (g.control r).1.locked <;> cases g.recalDue r <;> rfl

/-- Whether an event takes a word from the queue, or queues one. -/
def takes : GenEvent → Option Bool
  | .pull => some true
  | .edge _ | .poll .. => some false
  | .publish _ | .settle => none

/-- Pulls and words come in `n` turns, whatever else happens between them. -/
def TakeTurns (n : Nat) (events : List GenEvent) : Prop :=
  events.filterMap takes = (List.replicate n [true, false]).flatten

theorem takes_step (hs : Step g e fx g') :
    (fifoOps fx).map Fifo.Op.isTake = (takes e).toList := by
  cases hs with
  | edge => rw [fifoOps_edge]; rfl
  | pull | publish | found | late | waits | settled | ended => rfl

/-- Which events take and which queue a word does not depend on the state. -/
theorem takes_run (h : g.run events = some (fx, g')) :
    (fifoOps fx).map Fifo.Op.isTake = events.filterMap takes := by
  refine run_history
    (P := fun events fx _ => (fifoOps fx).map Fifo.Op.isTake = events.filterMap takes) ?_ rfl h
  intro events fx g e fx' g' hp hs
  rw [fifoOps_append, List.map_append, hp, takes_step hs, List.filterMap_append,
    List.filterMap_cons, List.filterMap_nil]
  cases takes e <;> rfl

/-- The words that are queued in turns with the pulls. -/
theorem fifoOps_turns (h : g.run events = some (fx, g')) (hturns : TakeTurns n events) :
    ∃ words : List UInt32, words.length = n ∧
      fifoOps fx = words.flatMap fun w => [.take, .put w] :=
  Fifo.exists_turns ((takes_run h).trans hturns)

/-- In any run in which an iteration or a poll comes before each pull, no pull finds the queue
empty, and words that are queued in turns with the pulls are taken as many turns later as the queue
is long. That is one turn from the start on, and all four of its places from the first time on that
four words were put between two pulls, as a measurement does with its polls. -/
theorem periods_delayed (h : (start k₀).run events = some (fx, g))
    (hfed : Fifo.Fed true (fifoOps fx)) (hput : Fifo.fedAfter true (fifoOps fx) = true)
    (h' : g.run events' = some (fx', g')) (hturns : TakeTurns n events') :
    let q := Fifo.final txFifoDepth initialWords (fifoOps fx)
    (∀ o ∈ Fifo.taken txFifoDepth initialWords (fifoOps (fx ++ fx')), o.isSome = true) ∧
    1 ≤ q.length ∧ q.length ≤ txFifoDepth ∧
    (∃ words, words.length = n ∧ fifoOps fx' = words.flatMap (fun w => [.take, .put w]) ∧
      Fifo.taken txFifoDepth q (fifoOps fx') = ((q ++ words).take words.length).map some) ∧
    (∀ m, TakeTurns m events → q.length = 1) ∧
    ∀ (pre : List (Fifo.Op UInt32)) (puts : List UInt32) (post : List (Fifo.Op UInt32)),
      fifoOps fx = pre ++ puts.map .put ++ post → txFifoDepth ≤ puts.length →
        q.length = txFifoDepth := by
  intro q
  have hlength : initialWords.length = 1 := rfl
  have hle : Fifo.level true initialWords ≤ txFifoDepth := by decide
  obtain ⟨hmono, hmax⟩ := Fifo.level_run hfed hle (Nat.le_refl 1)
  rw [hput] at hmono hmax
  have hq : 1 ≤ q.length ∧ q.length ≤ txFifoDepth := ⟨hmono, hmax⟩
  obtain ⟨words, hwords, hops⟩ := fifoOps_turns h' hturns
  obtain ⟨htaken, -⟩ := Fifo.taken_turns hq.2 hq.1 words
  refine ⟨?_, hq.1, hq.2, ⟨words, hwords, hops, by rw [hops, htaken]⟩, ?_, ?_⟩
  · intro o ho
    rw [fifoOps_append, Fifo.taken_append] at ho
    rcases List.mem_append.1 ho with ho | ho
    · exact Fifo.taken_isSome hfed hle (Nat.le_refl 1) o ho
    · rw [hops, htaken] at ho
      obtain ⟨w, -, rfl⟩ := List.mem_map.1 ho
      rfl
  · intro m hfirst
    obtain ⟨words₀, -, hops₀⟩ := fifoOps_turns h hfirst
    have hfinal := (Fifo.taken_turns (q := initialWords) hle (Nat.le_refl 1) words₀).2
    change (Fifo.final txFifoDepth initialWords (fifoOps fx)).length = 1
    rw [hops₀, hfinal, List.length_drop, List.length_append, hlength]
    omega
  · intro pre puts post hsplit hburst
    rw [hsplit] at hfed hput
    have hfull := Fifo.level_of_burst (q := initialWords) (by decide) (by decide) hburst hfed
    rw [hput] at hfull
    change (Fifo.final txFifoDepth initialWords (fifoOps fx)).length = _
    rw [hsplit]
    exact hfull

/-- Two seconds after a measurement, in which the output is nine ticks late. -/
def secondsAfter : List GenEvent :=
  [.publish (refEdge 162), .pull, .edge ⟨refEdge 162 - 9, [], 0, 880⟩,
    .publish (refEdge 163), .pull, .edge ⟨refEdge 163 - 9, [], 0, 880⟩]

theorem periods_delayed_after_measurement :
    ∃ fx g fx' g', (start 5).run firstMeasurement = some (fx, g) ∧
      g.run secondsAfter = some (fx', g') ∧
      (∀ o ∈ Fifo.taken txFifoDepth initialWords (fifoOps (fx ++ fx')), o.isSome = true) ∧
      (Fifo.final txFifoDepth initialWords (fifoOps fx)).length = txFifoDepth := by
  have hrun : ((start 5).run firstMeasurement).any (fun s =>
      decide (Fifo.Fed true (fifoOps s.1)) && Fifo.fedAfter true (fifoOps s.1) &&
        decide (fifoOps s.1 = (fifoOps s.1).take 313 ++
          (List.replicate 4 s.2.lastPeriod).map .put ++ (fifoOps s.1).drop 317) &&
        (s.2.run secondsAfter).isSome) = true := by
    decide +kernel
  obtain ⟨⟨fx, g⟩, hg, hends⟩ := (Option.any_eq_true _ _).1 hrun
  simp only [Bool.and_eq_true, decide_eq_true_eq] at hends
  obtain ⟨⟨⟨hfed, hput⟩, hsplit⟩, hnext⟩ := hends
  obtain ⟨⟨fx', g'⟩, hg'⟩ := Option.isSome_iff_exists.1 hnext
  obtain ⟨hsome, -, -, -, -, hburst⟩ := periods_delayed hg hfed hput hg' (n := 2) rfl
  exact ⟨fx, g, fx', g', hg, hg', hsome, hburst _ _ _ hsplit (Nat.le_refl 4)⟩

end GenCapture

end PicoGnss
