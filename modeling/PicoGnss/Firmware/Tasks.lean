import PicoGnss.Firmware.GenCapture
import PicoGnss.Firmware.Reception
import PicoGnss.RpPps.Ingest
import PicoGnss.RpPps.PeriodWords

/-! The firmware's tasks around the clock they share: reference edges and sentences come in, the
temperature is read, and the loop steers the output by all of it. -/

namespace PicoGnss
open FixedWidth
set_option autoImplicit true

def tempDmaN : Nat := 16384
def tempRawScale : Nat := 256

/-- A block of samples, as the DMA fills it. -/
structure TempBlock where
  samples : List UInt16
  full : samples.length = tempDmaN

namespace TempBlock

/-- The twelve bits of each sample, added up in a word. -/
def sum (b : TempBlock) : UInt32 := b.samples.foldl (fun sum s => sum + (s &&& 0x0fff).toUInt32) 0

/-- The mean of the block, in 256ths of a code. -/
def scaled (b : TempBlock) : UInt32 := .ofNat (b.sum.toNat * tempRawScale / tempDmaN)

end TempBlock

namespace PpsGpsdo

def updateTemp (g : PpsGpsdo) (temp : Int) : PpsGpsdo :=
  { g with clock := { g.clock with clock := g.clock.clock.updateTemp temp } }

def setTempFfEnable (g : PpsGpsdo) (en : Bool) : PpsGpsdo :=
  { g with clock := { g.clock with clock := g.clock.clock.setTempFfEnable en } }

def setTempFfParams (g : PpsGpsdo) (smShift shift : Nat) (gainQ8 : Int) : PpsGpsdo :=
  { g with clock := { g.clock with clock := g.clock.clock.setTempFfParams smShift shift gainQ8 } }

def setTempFfLag (g : PpsGpsdo) (lagQ8 : Int) (dleadShift obsShift : Nat) : PpsGpsdo :=
  { g with clock := { g.clock with clock := g.clock.clock.setTempFfLag lagQ8 dleadShift obsShift } }

def steeringFreqMppb (g : PpsGpsdo) : Int := g.clock.clock.steeringFreqMppb

end PpsGpsdo

/-- What the tasks keep: `CLOCK` with the receiver's bytes and the capture that feed it, the
reception, the loop with the shared reference edge, and the temperature. -/
structure Firmware where
  ingest : Ingest
  reception : RxJitter
  gen : GenCapture
  tempRaw : UInt32

inductive FirmwareEvent where
  /-- A step of the reading loop of `main`, or an edge that `pps_task` takes. -/
  | ingest (e : IngestEvent)
  | temp (block : TempBlock)
  /-- The output program takes a word. -/
  | pull
  | edge (x0 : UInt32) (backlog : List UInt32)
  | poll (c2 : Option UInt32) (late : Bool)
  | settle

inductive FirmwareEffect where
  | locked (edge : TimedEdge)
  | gen (effect : GenEffect)

namespace FirmwareEffect

/-- What the loop sees of an effect. -/
def toGen : FirmwareEffect → Option GenEffect
  | gen effect => some effect
  | locked _ => none

/-- The interval of a locked edge. -/
def interval : FirmwareEffect → Option Int
  | locked edge => some (asI64 edge.intervalNs)
  | gen _ => none

/-- The locked edges since the loop's last look, after one more effect. -/
def since (edges : List TimedEdge) : FirmwareEffect → List TimedEdge
  | locked edge => edges ++ [edge]
  | gen .looked => []
  | gen _ => edges

end FirmwareEffect

namespace Firmware

/-- `CLOCK` when the tasks are spawned. -/
def bootClock : PpsGpsdo :=
  ((PpsGpsdo.new.setTempFfEnable true).setTempFfParams 4 7 64).setTempFfLag 1536 2 2

def start (k : UInt32) : Firmware where
  ingest := { buf := [], assembler := .new, timeline := .new clkSysHz.toNat, clock := bootClock }
  reception := .new
  gen := .start k
  tempRaw := 0

/-- What the clock makes of an edge. -/
def stepped (w : Firmware) (raw : UInt32) (queryNs : Nat) : GnssdoStep × PpsGpsdo :=
  w.ingest.clock.onPpsEdge (w.ingest.timeline.observe raw).1 queryNs

/-- The body of the loop of `pps_task`: only a locked edge is published and judged. -/
def takeEdge (w : Firmware) (raw : UInt32) (queryNs : Nat) : List FirmwareEffect × Firmware :=
  let edge := (w.ingest.timeline.observe raw).1
  let ingest := w.ingest.takeEdge raw queryNs
  if (w.stepped raw queryNs).1.event.isLocked then
    ([.locked edge, .gen (.published edge.raw)],
      { w with
        ingest
        reception := w.reception.record (asI64 edge.intervalNs)
        gen := { w.gen with published := ⟨edge.raw, w.gen.published.gen + 1⟩ } })
  else ([], { w with ingest })

/-- What an effect of the loop does to the clock. -/
def feed (clock : PpsGpsdo) : GenEffect → PpsGpsdo
  | .updateTemp raw => clock.updateTemp raw
  | _ => clock

def genStep (w : Firmware) (e : GenEvent) : Option (List FirmwareEffect × Firmware) :=
  (w.gen.step e).map fun s => (s.1.map .gen,
    { w with gen := s.2, ingest := { w.ingest with clock := s.1.foldl feed w.ingest.clock } })

def step (w : Firmware) : FirmwareEvent → Option (List FirmwareEffect × Firmware)
  | .ingest (.edge raw queryNs) => some (w.takeEdge raw queryNs)
  | .ingest e => (w.ingest.step e).map fun ingest => ([], { w with ingest })
  | .temp block => some ([], { w with tempRaw := block.scaled })
  | .pull => w.genStep .pull
  | .edge x0 backlog =>
    w.genStep (.edge ⟨x0, backlog, w.ingest.clock.steeringFreqMppb, w.tempRaw.toNat⟩)
  | .poll c2 late => w.genStep (.poll c2 late)
  | .settle => w.genStep .settle

def run (w : Firmware) (events : List FirmwareEvent) : Option (List FirmwareEffect × Firmware) :=
  Reactor.run step w events

end Firmware

namespace TempBlock

/-- What a sample adds. -/
def code (s : UInt16) : Nat := s.toNat % 4096

theorem toNat_masked (s : UInt16) : (s &&& 0x0fff).toUInt32.toNat = code s := by
  rw [UInt16.toNat_toUInt32, UInt16.toNat_and]
  exact Nat.and_two_pow_sub_one_eq_mod s.toNat 12

theorem codes_le (samples : List UInt16) : (samples.map code).sum ≤ 4095 * samples.length := by
  induction samples with
  | nil => exact Nat.le_refl 0
  | cons s samples ih =>
    have hs : code s < 4096 := Nat.mod_lt _ (by decide)
    rw [List.map_cons, List.sum_cons, List.length_cons]
    omega

theorem toNat_foldl (acc : UInt32) (samples : List UInt16)
    (h : acc.toNat + 4095 * samples.length < 4294967296) :
    (samples.foldl (fun sum s => sum + (s &&& 0x0fff).toUInt32) acc).toNat =
      acc.toNat + (samples.map code).sum := by
  induction samples generalizing acc with
  | nil => rfl
  | cons s samples ih =>
    rw [List.length_cons] at h
    have hs : code s < 4096 := Nat.mod_lt _ (by decide)
    have hacc : (acc + (s &&& 0x0fff).toUInt32).toNat = acc.toNat + code s := by
      rw [UInt32.toNat_add, toNat_masked]
      omega
    rw [List.foldl_cons, ih _ (by omega), hacc, List.map_cons, List.sum_cons, Nat.add_assoc]

/-- Nothing overflows on the way to the mean, and it stays within the scaled codes. -/
theorem toNat_scaled (b : TempBlock) :
    b.scaled.toNat = (b.samples.map code).sum * tempRawScale / tempDmaN ∧
      b.scaled.toNat ≤ 1048320 := by
  have hle := codes_le b.samples
  have hsum : b.sum.toNat = (b.samples.map code).sum := by
    have hzero : (0 : UInt32).toNat = 0 := rfl
    rw [sum, toNat_foldl 0 _ (by rw [b.full, hzero, tempDmaN]; decide), hzero, Nat.zero_add]
  rw [b.full, tempDmaN] at hle
  rw [scaled, UInt32.toNat_ofNat', hsum, tempRawScale, tempDmaN]
  omega

end TempBlock

namespace PpsGpsdo

variable {g : PpsGpsdo}

theorem reachable_onPpsEdge (h : g.clock.clock.Reachable) (e : TimedEdge) (q : Nat) :
    (g.onPpsEdge e q).2.clock.clock.Reachable := by
  obtain ⟨step, c, hstep⟩ := Gnssdo.PpsStep.exists g.clock (e.edgeNs / 1000) (asI64 e.intervalNs)
  rw [onPpsEdge_clock, hstep.eq]
  cases hstep with
  | held => exact h
  | updated hlocked hns hfreq =>
    have hd : (g.clock.disciplined (g.clock.tracker.record (e.edgeNs / 1000)).1).Reachable := by
      unfold Gnssdo.disciplined
      split
      · exact h.handle .startQuarantine
      · exact h
    have hu := hd.handle (.updateFreq (asI64 e.intervalNs))
    rw [Mealy.next_eq (DisciplinedClock.handle_updateFreq _ _), hfreq.eq] at hu
    exact hu

theorem reachable_feedNmea (h : g.clock.clock.Reachable) (s : List UInt8) :
    (g.feedNmea s).2.clock.clock.Reachable := by
  obtain ⟨-, hsame⟩ | ⟨t, c, q, r, -, hpins⟩ := g.feedNmea_cases s
  · rw [hsame.clock]
    exact h
  · rw [hpins.clock]
    exact h.handle (.updateEpoch c q r.unixNs)

theorem event_onPpsEdge (g : PpsGpsdo) (e : TimedEdge) (q : Nat) :
    (g.onPpsEdge e q).1.event = (g.clock.tracker.record (e.edgeNs / 1000)).1 := by
  rw [(fields_eq (g.onPpsEdge_eq e q)).1, (Gnssdo.onPps_tracked _ _ _).1]

theorem tracker_onPpsEdge (g : PpsGpsdo) (e : TimedEdge) (q : Nat) :
    (g.onPpsEdge e q).2.clock.tracker = (g.clock.tracker.record (e.edgeNs / 1000)).2 := by
  rw [onPpsEdge_clock, (Gnssdo.onPps_tracked _ _ _).2.1]

/-- A sentence leaves the tracker alone. -/
theorem tracker_feedNmea (g : PpsGpsdo) (s : List UInt8) :
    (g.feedNmea s).2.clock.tracker = g.clock.tracker := by
  obtain ⟨-, hsame⟩ | ⟨t, c, q, r, -, hpins⟩ := g.feedNmea_cases s
  · rw [hsame.clock]
  · rw [hpins.clock]
    rfl

end PpsGpsdo

/-- A step of the reading loop changes the clock by a sentence at most. -/
theorem Ingest.step_clock {w w' : Ingest} (h : w.step e = some w')
    (he : ∀ raw q, e ≠ .edge raw q) : w'.timeline = w.timeline ∧
      (w'.clock = w.clock ∨ ∃ s, w'.clock = (w.clock.feedNmea s).2) := by
  rcases Ingest.step_cases h with ⟨-, -, rfl⟩ | ⟨b, rest, -, -, rfl⟩ | ⟨raw, q, hedge, -⟩
  · exact ⟨rfl, .inl rfl⟩
  · simp only [Ingest.pushByte]
    split
    · exact ⟨rfl, .inr ⟨_, rfl⟩⟩
    · exact ⟨rfl, .inl rfl⟩
  · exact absurd hedge (he raw q)

namespace Firmware

variable {w w' : Firmware} {fx : List FirmwareEffect}

theorem takeEdge_locked
    (h : (w.stepped raw q).1.event.isLocked = true) :
    w.takeEdge raw q = ([.locked (w.ingest.timeline.observe raw).1, .gen (.published raw)],
      { w with
        ingest := w.ingest.takeEdge raw q
        reception := w.reception.record (asI64 (w.ingest.timeline.observe raw).1.intervalNs)
        gen := { w.gen with published := ⟨raw, w.gen.published.gen + 1⟩ } }) := by
  have hraw : (w.ingest.timeline.observe raw).1.raw = raw := rfl
  simp only [takeEdge, h, if_true, hraw]

theorem takeEdge_not_locked
    (h : (w.stepped raw q).1.event.isLocked = false) :
    w.takeEdge raw q = ([], { w with ingest := w.ingest.takeEdge raw q }) := by
  simp only [takeEdge, h, Bool.false_eq_true, if_false]

/-- What one step can be. -/
inductive Step (w : Firmware) : FirmwareEvent → List FirmwareEffect → Firmware → Prop where
  | edge (raw : UInt32) (q : Nat) :
      Step w (.ingest (.edge raw q)) (w.takeEdge raw q).1 (w.takeEdge raw q).2
  | reads : w.ingest.step e = some i → (∀ raw q, e ≠ .edge raw q) →
      Step w (.ingest e) [] { w with ingest := i }
  | temp (block : TempBlock) : Step w (.temp block) [] { w with tempRaw := block.scaled }
  | gen : w.gen.step e = some (effects, g) → (∀ raw, e ≠ .publish raw) →
      (∀ r, e = .edge r →
        r.steerMppb = w.ingest.clock.steeringFreqMppb ∧ r.tempRaw = w.tempRaw.toNat) →
      Step w x (effects.map .gen)
        { w with gen := g, ingest := { w.ingest with clock := effects.foldl feed w.ingest.clock } }

theorem step_cases (h : w.step e = some (fx, w')) : Step w e fx w' := by
  have hgen {ge : GenEvent} (hstep : w.genStep ge = some (fx, w')) (hp : ∀ raw, ge ≠ .publish raw)
      (hr : ∀ r, ge = .edge r →
        r.steerMppb = w.ingest.clock.steeringFreqMppb ∧ r.tempRaw = w.tempRaw.toNat) :
      Step w e fx w' := by
    obtain ⟨⟨effects, g⟩, hs, heq⟩ := Option.map_eq_some_iff.1 hstep
    simp only [Prod.mk.injEq] at heq
    obtain ⟨rfl, rfl⟩ := heq
    exact .gen hs hp hr
  cases e with
  | ingest e =>
    cases e with
    | edge raw q =>
      have heq : w.takeEdge raw q = (fx, w') := Option.some.inj h
      rw [show fx = (w.takeEdge raw q).1 by rw [heq], show w' = (w.takeEdge raw q).2 by rw [heq]]
      exact .edge raw q
    | failed | read | push =>
      obtain ⟨ingest, hs, heq⟩ := Option.map_eq_some_iff.1 h
      cases heq
      exact .reads hs fun _ _ hno => by cases hno
  | temp block =>
    cases h
    exact .temp block
  | edge x0 backlog =>
    refine hgen h (fun _ hno => by cases hno) fun r hr => ?_
    cases hr
    exact ⟨rfl, rfl⟩
  | pull | poll | settle =>
    exact hgen h (fun _ hno => by cases hno) fun _ hno => by cases hno

def genEffects (fx : List FirmwareEffect) : List GenEffect := fx.filterMap FirmwareEffect.toGen

def intervals (fx : List FirmwareEffect) : List Int := fx.filterMap FirmwareEffect.interval

def lockedSince (fx : List FirmwareEffect) : List TimedEdge := fx.foldl FirmwareEffect.since []

theorem genEffects_map (effects : List GenEffect) :
    genEffects (effects.map .gen) = effects := by
  rw [genEffects, List.filterMap_map]
  exact List.filterMap_some

theorem mem_genEffects (h : o ∈ genEffects fx) : .gen o ∈ fx := by
  obtain ⟨effect, hmem, ho⟩ := List.mem_filterMap.1 h
  cases effect with
  | gen o' =>
    cases ho
    exact hmem
  | locked edge => cases ho

end Firmware

end PicoGnss
