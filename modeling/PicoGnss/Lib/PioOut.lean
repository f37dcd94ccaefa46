import Mathlib.Data.List.Basic
import PicoGnss.Lib.Serialiser

/-! A state machine of a programmable I/O block that jumps to the bits it shifts out. Every
instruction is an `out pc` with a side-set. The output register shifts right and is refilled from
the queue after 32 bits. -/

namespace PioOut
set_option autoImplicit true

open Serialiser (Event)

/-- `out pc, bits side side`. -/
structure Instr where
  bits : Nat
  side : Nat
deriving DecidableEq

structure Program where
  code : List Instr
  origin : Nat
  sideSet : Nat
  wrapTarget : Nat
  wrap : Nat
deriving DecidableEq

structure State where
  pc : Nat
  osr : BitVec 32
  shifted : Nat
  queue : List (BitVec 32)
deriving DecidableEq

/-- The output register starts empty. -/
def start (p : Program) : State where
  pc := p.origin
  osr := 0
  shifted := 32
  queue := []

/-- The side-set pins; `none` outside the program. -/
def State.pins (p : Program) (s : State) : Option Nat := p.code[s.pc]?.map Instr.side

def State.pull (s : State) : State :=
  match s.queue with
  | word :: rest => { s with osr := word, shifted := 0, queue := rest }
  | [] => s

/-- Shift bits out of the output register and jump to them. -/
def State.shiftOut (s : State) (bits : Nat) : State where
  pc := (s.osr.extractLsb' 0 bits).toNat
  osr := s.osr >>> bits
  shifted := s.shifted + bits
  queue := s.queue

/-- One cycle: an empty output register stalls while it is refilled, one that runs out is refilled
in the same cycle. -/
def State.step (p : Program) (s : State) : State :=
  match p.code[s.pc]? with
  | none => s
  | some instr =>
    if 32 ≤ s.shifted then s.pull
    else
      let s := s.shiftOut instr.bits
      if 32 ≤ s.shifted then s.pull else s

/-- The symbols of a word, in the order in which they are shifted out. -/
def symbols (n : Nat) (word : BitVec 32) : List (BitVec n) :=
  (List.range (32 / n)).map fun i => word.extractLsb' (n * i) n

/-- The symbols of a word are addresses inside the program. -/
def Legal (p : Program) (n : Nat) (word : BitVec 32) : Prop :=
  ∀ a ∈ symbols n word, a.toNat < p.code.length

/-- A state machine and the words that are still to be moved into its queue. -/
structure Feeder where
  sm : State
  dma : List (BitVec 32)

/-- The symbols left in the output register, the queue and the buffer. -/
def Feeder.abs (n : Nat) (f : Feeder) : Serialiser.State (BitVec 32) (BitVec n) where
  shift := (List.range ((32 - f.sm.shifted) / n)).map fun i => f.sm.osr.extractLsb' (n * i) n
  queue := f.sm.queue
  buffer := f.dma
  out := .ofNat n f.sm.pc

/-- The copier moves a word if the queue has room. -/
def Feeder.move (depth : Nat) (f : Feeder) : Feeder :=
  match f.dma with
  | word :: rest =>
    if f.sm.queue.length < depth then
      { sm := { f.sm with queue := f.sm.queue ++ [word] }, dma := rest }
    else f
  | [] => f

/-- Push a word if the queue has room, and whether it had. -/
def Feeder.tryPush (depth : Nat) (word : BitVec 32) (f : Feeder) : Bool × Feeder :=
  if f.sm.queue.length < depth then
    (true, { f with sm := { f.sm with queue := f.sm.queue ++ [word] } })
  else (false, f)

/-- Nothing else is asked of a feeder before its buffer is moved. -/
def Feeder.apply (depth : Nat) (f : Feeder) : Event (BitVec 32) → Feeder
  | .move => f.move depth
  | .send words => if f.dma.isEmpty then { f with dma := words } else f
  | .push word => if f.dma.isEmpty then (f.tryPush depth word).2 else f

/-- The words an event is allowed to add, as one transmission. -/
def Feeder.takes (depth : Nat) (f : Feeder) : Event (BitVec 32) → List (List (BitVec 32))
  | .move => []
  | .send words => if f.dma.isEmpty then [words] else []
  | .push word => if f.dma.isEmpty && (f.tryPush depth word).1 then [[word]] else []

def Feeder.takesAll (depth : Nat) (f : Feeder) :
    List (Event (BitVec 32)) → List (List (BitVec 32))
  | [] => []
  | e :: es => f.takes depth e ++ (f.apply depth e).takesAll depth es

def Feeder.cycle (p : Program) (depth : Nat) (f : Feeder) (es : List (Event (BitVec 32))) :
    Feeder :=
  let f := es.foldl (Feeder.apply depth) f
  { f with sm := f.sm.step p }

/-- The feeder after some cycles; the events of a cycle come before its tick. -/
def run (p : Program) (depth : Nat) (env : Nat → List (Event (BitVec 32))) (f : Feeder) :
    Nat → Feeder
  | 0 => f
  | t + 1 => (run p depth env f t).cycle p depth (env t)

/-- The transmissions taken in some cycles. -/
def taken (p : Program) (depth : Nat) (env : Nat → List (Event (BitVec 32))) (f : Feeder) :
    Nat → List (List (BitVec 32))
  | 0 => []
  | t + 1 => taken p depth env f t ++ (run p depth env f t).takesAll depth (env t)

/-- Every instruction takes `n` bits, and `n` divides the word. -/
structure Program.Uniform (p : Program) (n : Nat) : Prop where
  pos : 0 < n
  dvd : n ∣ 32
  bits : ∀ instr ∈ p.code, instr.bits = n

/-- The machine is inside its program and in step with its symbols. -/
structure Feeder.Inside (p : Program) (n : Nat) (f : Feeder) : Prop where
  pc : f.sm.pc < p.code.length
  dvd : n ∣ f.sm.shifted
  le : f.sm.shifted ≤ 32
  legal : ∀ a ∈ (f.abs n).rest (symbols n), a.toNat < p.code.length

theorem extractLsb'_ushiftRight (w : BitVec 32) (n i : Nat) :
    (w >>> n).extractLsb' (n * i) n = w.extractLsb' (n * (i + 1)) n := by
  apply BitVec.eq_of_getLsbD_eq
  intro j hj
  rw [BitVec.getLsbD_extractLsb', BitVec.getLsbD_extractLsb', BitVec.getLsbD_ushiftRight,
    Nat.mul_succ, Nat.add_comm (n * i) n, Nat.add_assoc]

@[simp] theorem length_symbols (n : Nat) (word : BitVec 32) :
    (symbols n word).length = 32 / n := by
  rw [symbols, List.length_map, List.length_range]

/-- The first symbol of the register, and the others as the register holds them once shifted. -/
theorem symbols_cons (w : BitVec 32) (n m : Nat) :
    ((List.range (m + 1)).map fun i => w.extractLsb' (n * i) n) = w.extractLsb' 0 n ::
      (List.range m).map fun i => (w >>> n).extractLsb' (n * i) n := by
  rw [List.range_succ_eq_map, List.map_cons, List.map_map]
  congr 1
  apply List.map_congr_left
  intro i _
  exact (extractLsb'_ushiftRight w n i).symm

theorem abs_pull (n : Nat) (f : Feeder) :
    Feeder.abs n { f with sm := f.sm.pull } = (f.abs n).refill (symbols n) := by
  cases hq : f.sm.queue with
  | nil =>
    have hsame : f.sm.pull = f.sm := by rw [State.pull, hq]
    have hrefill : (f.abs n).refill (symbols n) = f.abs n := by
      simp only [Serialiser.State.refill, Feeder.abs, hq]
    rw [hsame, hrefill]
  | cons word rest => simp only [Feeder.abs, State.pull, Serialiser.State.refill, hq, Nat.sub_zero,
      symbols]

theorem abs_shiftOut (hn : 0 < n) (f : Feeder) (hlt : f.sm.shifted + n ≤ 32) :
    Feeder.abs n { f with sm := f.sm.shiftOut n } =
        { f.abs n with shift := (Feeder.abs n { f with sm := f.sm.shiftOut n }).shift,
                       out := f.sm.osr.extractLsb' 0 n } ∧
      (f.abs n).shift = f.sm.osr.extractLsb' 0 n ::
        (Feeder.abs n { f with sm := f.sm.shiftOut n }).shift := by
  have hlen : (32 - f.sm.shifted) / n = (32 - (f.sm.shifted + n)) / n + 1 := by
    rw [← Nat.add_div_right _ hn]
    congr 1
    omega
  constructor
  · simp only [Feeder.abs, State.shiftOut, BitVec.ofNat_toNat, BitVec.setWidth_eq]
  · simp only [Feeder.abs, State.shiftOut]
    rw [hlen, symbols_cons]

/-- A cycle inside the program refills an empty register, or shows a symbol. -/
theorem Feeder.Inside.step_cases {p : Program} (hp : p.Uniform n) {f : Feeder}
    (h : f.Inside p n) :
    (32 ≤ f.sm.shifted ∧ f.sm.step p = f.sm.pull) ∨
      (f.sm.shifted + n ≤ 32 ∧ f.sm.step p =
        if 32 ≤ f.sm.shifted + n then (f.sm.shiftOut n).pull else f.sm.shiftOut n) := by
  obtain ⟨instr, hcode⟩ : ∃ instr, p.code[f.sm.pc]? = some instr :=
    ⟨_, List.getElem?_eq_getElem h.pc⟩
  have hbits : instr.bits = n := hp.bits _ (List.mem_of_getElem? hcode)
  by_cases hfull : 32 ≤ f.sm.shifted
  · exact .inl ⟨hfull, by simp only [State.step, hcode, hfull, ↓reduceIte]⟩
  · refine .inr ⟨?_, ?_⟩
    · have hle := Nat.le_of_dvd (by omega) (Nat.dvd_sub hp.dvd h.dvd)
      omega
    · simp only [State.step, hcode, hbits, hfull, ↓reduceIte]
      rfl

theorem abs_empty (n : Nat) (f : Feeder) (h : 32 ≤ f.sm.shifted) : (f.abs n).shift = [] := by
  simp only [Feeder.abs, Nat.sub_eq_zero_of_le h, Nat.zero_div, List.range_zero, List.map_nil]

/-- The state machine works through its register, its queue and its buffer. -/
theorem abs_step {p : Program} (hp : p.Uniform n) (f : Feeder) (h : f.Inside p n) :
    Feeder.abs n { f with sm := f.sm.step p } = (f.abs n).tick (symbols n) := by
  rcases h.step_cases hp with ⟨hfull, hstep⟩ | ⟨hroom, hstep⟩
  · rw [hstep, abs_pull, Serialiser.State.tick, abs_empty n f hfull]
  · obtain ⟨hsame, hcons⟩ := abs_shiftOut hp.pos f hroom
    by_cases hlast : 32 ≤ f.sm.shifted + n
    · rw [if_pos hlast] at hstep
      rw [abs_empty n { f with sm := f.sm.shiftOut n } hlast] at hsame hcons
      rw [hstep, Serialiser.State.tick, hcons]
      exact (abs_pull n { f with sm := f.sm.shiftOut n }).trans (congrArg _ hsame)
    · rw [if_neg hlast] at hstep
      obtain ⟨b, rest, hmore⟩ :
          ∃ b rest, (Feeder.abs n { f with sm := f.sm.shiftOut n }).shift = b :: rest := by
        have hleft : n ∣ 32 - (f.sm.shifted + n) :=
          Nat.dvd_sub hp.dvd (Nat.dvd_add h.dvd (Nat.dvd_refl n))
        obtain ⟨m, hm⟩ : ∃ m, (32 - (f.sm.shifted + n)) / n = m + 1 :=
          Nat.exists_eq_succ_of_ne_zero
            (Nat.ne_of_gt (Nat.div_pos (Nat.le_of_dvd (by omega) hleft) hp.pos))
        simp only [Feeder.abs, State.shiftOut, hm, symbols_cons]
        exact ⟨_, _, rfl⟩
      rw [hmore] at hsame hcons
      rw [hstep, Serialiser.State.tick, hcons]
      exact hsame

theorem abs_apply (n : Nat) (f : Feeder) (e : Event (BitVec 32)) :
    (f.apply depth e).abs n = (f.abs n).apply depth e := by
  cases e with
  | move =>
    simp only [Feeder.apply, Feeder.move, Serialiser.State.apply]
    cases hbuf : f.dma with
    | nil => simp only [Feeder.abs, hbuf]
    | cons word rest =>
      by_cases hroom : f.sm.queue.length < depth <;> simp only [Feeder.abs, hbuf, hroom, ↓reduceIte]
  | send words =>
    simp only [Feeder.apply, Serialiser.State.apply]
    cases hbuf : f.dma with
    | nil => simp [Feeder.abs, hbuf]
    | cons word rest => simp [Feeder.abs, hbuf]
  | push word =>
    simp only [Feeder.apply, Feeder.tryPush, Serialiser.State.apply]
    cases hbuf : f.dma with
    | nil => by_cases hroom : f.sm.queue.length < depth <;> simp [Feeder.abs, hbuf, hroom]
    | cons word rest => simp [Feeder.abs, hbuf]

theorem abs_takes (n : Nat) (f : Feeder) (e : Event (BitVec 32)) :
    f.takes depth e = (f.abs n).takes depth e := by
  cases e with
  | move => rfl
  | send words => rfl
  | push word =>
    have hroom : (f.tryPush depth word).1 = decide (f.sm.queue.length < depth) := by
      rw [Feeder.tryPush]
      split <;> simp_all
    simp only [Feeder.takes, Serialiser.State.takes, hroom]
    rfl

theorem abs_takesAll (n : Nat) (f : Feeder) (es : List (Event (BitVec 32))) :
    f.takesAll depth es = (f.abs n).takesAll depth es := by
  induction es generalizing f with
  | nil => rfl
  | cons e es ih =>
    rw [Feeder.takesAll, Serialiser.State.takesAll, abs_takes n, ih, abs_apply]

theorem apply_sm (depth : Nat) (f : Feeder) (e : Event (BitVec 32)) :
    (f.apply depth e).sm.pc = f.sm.pc ∧ (f.apply depth e).sm.shifted = f.sm.shifted := by
  cases e <;> simp only [Feeder.apply, Feeder.move, Feeder.tryPush] <;> (repeat' split) <;>
    exact ⟨rfl, rfl⟩

theorem Feeder.Inside.event {p : Program} {f : Feeder} (h : f.Inside p n)
    (hlegal : ∀ word ∈ e.words, Legal p n word) : (f.apply depth e).Inside p n := by
  obtain ⟨hpc, hshifted⟩ := apply_sm depth f e
  refine ⟨hpc ▸ h.pc, hshifted ▸ h.dvd, hshifted ▸ h.le, fun a ha => ?_⟩
  rw [abs_apply, Serialiser.rest_apply] at ha
  rcases List.mem_append.1 ha with hold | hnew
  · exact h.legal a hold
  · obtain ⟨l, hl, hal⟩ := List.mem_flatten.1 hnew
    obtain ⟨op, hop, rfl⟩ := List.mem_map.1 hl
    obtain ⟨word, hword, haw⟩ := List.mem_flatMap.1 hal
    exact hlegal word ((Serialiser.mem_takes hop).2 ▸ hword) a haw

theorem Feeder.Inside.events {p : Program} {f : Feeder} (h : f.Inside p n)
    (hlegal : ∀ e ∈ es, ∀ word ∈ e.words, Legal p n word) :
    (es.foldl (Feeder.apply depth) f).Inside p n ∧
      (es.foldl (Feeder.apply depth) f).abs n = (f.abs n).applyAll depth es := by
  induction es generalizing f with
  | nil => exact ⟨h, rfl⟩
  | cons e es ih =>
    obtain ⟨hinside, habs⟩ :=
      ih (h.event (hlegal e List.mem_cons_self)) fun e he => hlegal e (List.mem_cons_of_mem _ he)
    refine ⟨hinside, ?_⟩
    rw [List.foldl_cons, habs, abs_apply]
    rfl

theorem pull_sm (s : State) :
    s.pull.pc = s.pc ∧ (s.pull.shifted = s.shifted ∨ s.pull.shifted = 0) := by
  simp only [State.pull]
  split
  · exact ⟨rfl, .inr rfl⟩
  · exact ⟨rfl, .inl rfl⟩

/-- A symbol that is shown is an address inside the program, and so the machine stays in it. -/
theorem Feeder.Inside.tick {p : Program} (hp : p.Uniform n) {f : Feeder} (h : f.Inside p n) :
    Feeder.Inside p n { f with sm := f.sm.step p } := by
  obtain ⟨hpc, hdvd, hle⟩ : (f.sm.step p).pc < p.code.length ∧ n ∣ (f.sm.step p).shifted ∧
      (f.sm.step p).shifted ≤ 32 := by
    rcases h.step_cases hp with ⟨-, hstep⟩ | ⟨hroom, hstep⟩
    · obtain ⟨hpc, hshifted⟩ := pull_sm f.sm
      rw [hstep, hpc]
      rcases hshifted with hs | hs <;> rw [hs]
      · exact ⟨h.pc, h.dvd, h.le⟩
      · exact ⟨h.pc, Nat.dvd_zero n, Nat.zero_le 32⟩
    · have hfirst : (f.sm.shiftOut n).pc < p.code.length := by
        obtain ⟨-, hcons⟩ := abs_shiftOut hp.pos f hroom
        apply h.legal
        rw [Serialiser.State.rest, hcons]
        exact List.mem_append_left _ List.mem_cons_self
      have hshifted : n ∣ (f.sm.shiftOut n).shifted := Nat.dvd_add h.dvd (Nat.dvd_refl n)
      rw [hstep]
      split
      · obtain ⟨hpc, hs | hs⟩ := pull_sm (f.sm.shiftOut n) <;> rw [hpc, hs]
        · exact ⟨hfirst, hshifted, hroom⟩
        · exact ⟨hfirst, Nat.dvd_zero n, Nat.zero_le 32⟩
      · exact ⟨hfirst, hshifted, hroom⟩
  refine ⟨hpc, hdvd, hle, fun a ha => h.legal a ?_⟩
  rw [abs_step hp f h] at ha
  rcases @Serialiser.tick_rest _ _ (symbols n) (f.abs n) with ⟨b, -, -, hrest⟩ | ⟨-, -, hrest⟩
  · rw [hrest]
    exact List.mem_cons_of_mem _ ha
  · rwa [hrest] at ha

/-- The fed state machine does what the register, queue and buffer of its symbols do, and never
leaves its program. -/
theorem abs_run {p : Program} (hp : p.Uniform n) {f : Feeder} (h : f.Inside p n)
    {env : Nat → List (Event (BitVec 32))}
    (hlegal : ∀ t, ∀ e ∈ env t, ∀ word ∈ e.words, Legal p n word) (t : Nat) :
    (run p depth env f t).Inside p n ∧
      (run p depth env f t).abs n = Serialiser.run (symbols n) depth env (f.abs n) t := by
  induction t with
  | zero => exact ⟨h, rfl⟩
  | succ t ih =>
    obtain ⟨hinside, habs⟩ := ih
    obtain ⟨hevents, happly⟩ : ((env t).foldl (Feeder.apply depth) _).Inside p n ∧ _ :=
      hinside.events (hlegal t)
    refine ⟨hevents.tick hp, ?_⟩
    rw [run, Feeder.cycle, abs_step hp _ hevents, happly, habs]
    rfl

theorem taken_eq {p : Program} (hp : p.Uniform n) {f : Feeder} (h : f.Inside p n)
    {env : Nat → List (Event (BitVec 32))}
    (hlegal : ∀ t, ∀ e ∈ env t, ∀ word ∈ e.words, Legal p n word) (t : Nat) :
    taken p depth env f t = Serialiser.sent (symbols n) depth env (f.abs n) t := by
  induction t with
  | zero => rfl
  | succ t ih =>
    rw [taken, Serialiser.sent, ih, abs_takesAll n, (abs_run hp h hlegal t).2]

end PioOut
