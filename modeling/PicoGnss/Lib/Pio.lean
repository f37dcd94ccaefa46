import Mathlib.Data.Nat.Count

/-! A state machine of a programmable I/O block: one instruction a cycle, no side-set or delay. -/

namespace Pio
set_option autoImplicit true

inductive Reg where
  | x
  | y
  | isr
  | osr
deriving DecidableEq

inductive Cond where
  | always
  | pin
  | dec (r : Reg)

/-- `inWord` shifts in all 32 bits, `push` does not block. -/
inductive Instr where
  | jmp (cond : Cond) (target : Nat)
  | inWord (src : Reg)
  | push
  | pull (block : Bool)
  | mov (dst src : Reg)
  | setPins (level : Bool)
  | setPindirs (output : Bool)

structure Program where
  code : List Instr
  wrapTarget : Nat
  wrap : Nat

/-- The transmit queue is read at its head; the receive queue has its newest word first and is
never full. -/
structure State where
  pc : Nat
  x : UInt32
  y : UInt32
  isr : UInt32
  osr : UInt32
  pins : Bool
  pindirs : Bool
  tx : List UInt32
  rx : List UInt32
deriving DecidableEq

namespace State

def reset : State where
  pc := 0
  x := 0
  y := 0
  isr := 0
  osr := 0
  pins := false
  pindirs := false
  tx := []
  rx := []

def get (s : State) : Reg → UInt32
  | .x => s.x
  | .y => s.y
  | .isr => s.isr
  | .osr => s.osr

def set (s : State) (r : Reg) (v : UInt32) : State :=
  match r with
  | .x => { s with x := v }
  | .y => { s with y := v }
  | .isr => { s with isr := v }
  | .osr => { s with osr := v }

@[simp] theorem get_set (s : State) (r : Reg) (v : UInt32) : (s.set r v).get r = v := by
  cases r <;> rfl

@[simp] theorem set_set (s : State) (r : Reg) (v w : UInt32) :
    (s.set r v).set r w = s.set r w := by
  cases r <;> rfl

@[simp] theorem set_get (s : State) (r : Reg) : s.set r (s.get r) = s := by
  cases r <;> rfl

@[simp] theorem set_pc (s : State) (r : Reg) (v : UInt32) : (s.set r v).pc = s.pc := by
  cases r <;> rfl

@[simp] theorem set_pins (s : State) (r : Reg) (v : UInt32) : (s.set r v).pins = s.pins := by
  cases r <;> rfl

end State

/-- The address after an instruction that does not jump. -/
def Program.after (p : Program) (pc : Nat) : Nat := if pc = p.wrap then p.wrapTarget else pc + 1

/-- Whether a jump is taken; a register is tested before it is decremented. -/
def Cond.holds (pin : Bool) (s : State) : Cond → Bool
  | always => true
  | .pin => pin
  | dec r => s.get r != 0

def Cond.decrement (s : State) : Cond → State
  | dec r => s.set r (s.get r - 1)
  | _ => s

def exec (p : Program) (pin : Bool) (s : State) : Instr → State
  | .jmp cond target =>
    { cond.decrement s with pc := if cond.holds pin s then target else p.after s.pc }
  | .inWord src => { s with isr := s.get src, pc := p.after s.pc }
  | .push => { s with rx := s.isr :: s.rx, isr := 0, pc := p.after s.pc }
  | .pull block =>
    match s.tx with
    | word :: rest => { s with osr := word, tx := rest, pc := p.after s.pc }
    -- a pull that does not block takes X from an empty queue
    | [] => if block then s else { s with osr := s.x, pc := p.after s.pc }
  | .mov dst src => { s.set dst (s.get src) with pc := p.after s.pc }
  | .setPins level => { s with pins := level, pc := p.after s.pc }
  | .setPindirs output => { s with pindirs := output, pc := p.after s.pc }

def step (p : Program) (pin : Bool) (s : State) : State :=
  match p.code[s.pc]? with
  | some instr => exec p pin s instr
  | none => s

/-- The state after some cycles with the given levels on the jump pin. -/
def run (p : Program) (pin : Nat → Bool) (s : State) : Nat → State
  | 0 => s
  | t + 1 => step p (pin t) (run p pin s t)

/-- The next instruction decrements a register. -/
def State.decrements (p : Program) (s : State) : Bool :=
  match p.code[s.pc]? with
  | some (.jmp (.dec _) _) => true
  | _ => false

/-- The next instruction decrements a register that is already zero. -/
def State.wraps (p : Program) (s : State) : Bool :=
  match p.code[s.pc]? with
  | some (.jmp (.dec r) _) => s.get r == 0
  | _ => false

def decrements (p : Program) (pin : Nat → Bool) (s : State) (t : Nat) : Nat :=
  Nat.count (fun u => (run p pin s u).decrements p = true) t

def wraps (p : Program) (pin : Nat → Bool) (s : State) (t : Nat) : Nat :=
  Nat.count (fun u => (run p pin s u).wraps p = true) t

/-- The pins go high in this cycle. -/
def Rises (p : Program) (pin : Nat → Bool) (s : State) (t : Nat) : Prop :=
  (run p pin s t).pins = false ∧ (run p pin s (t + 1)).pins = true

instance (p : Program) (pin : Nat → Bool) (s : State) : DecidablePred (Rises p pin s) :=
  fun t => by
    unfold Rises
    infer_instance

/-- The rising edge with `n` before it. -/
structure IsEdge (p : Program) (pin : Nat → Bool) (s : State) (n t : Nat) : Prop where
  rises : Rises p pin s t
  count : Nat.count (Rises p pin s) t = n

variable {p : Program} {pin : Nat → Bool} {s : State}

theorem IsEdge.unique (h : IsEdge p pin s n t) (h' : IsEdge p pin s n t') : t = t' :=
  Nat.count_injective h.rises h'.rises (h.count.trans h'.count.symm)

theorem step_eq (h : p.code[s.pc]? = some instr) (level : Bool) :
    step p level s = exec p level s instr := by
  rw [step, h]

theorem run_add (p : Program) (pin : Nat → Bool) (s : State) (a b : Nat) :
    run p pin s (a + b) = run p (fun t => pin (a + t)) (run p pin s a) b := by
  induction b with
  | zero => rfl
  | succ b ih => rw [← Nat.add_assoc, run, ih, run]

theorem rises_add (p : Program) (pin : Nat → Bool) (s : State) (a b : Nat) :
    Rises p pin s (a + b) ↔ Rises p (fun t => pin (a + t)) (run p pin s a) b := by
  rw [Rises, Rises, Nat.add_assoc, run_add, run_add]

theorem count_rises_add (p : Program) (pin : Nat → Bool) (s : State) (a b : Nat) :
    Nat.count (Rises p pin s) (a + b) = Nat.count (Rises p pin s) a +
      Nat.count (Rises p (fun t => pin (a + t)) (run p pin s a)) b := by
  simp only [Nat.count_add, rises_add]

/-- Edges are counted from wherever a run is cut. -/
theorem IsEdge.shift (h : IsEdge p (fun t => pin (a + t)) (run p pin s a) n t) :
    IsEdge p pin s (Nat.count (Rises p pin s) a + n) (a + t) :=
  ⟨(rises_add p pin s a t).2 h.rises, by rw [count_rises_add, h.count]⟩

/-- A stretch of cycles with one edge in it. -/
theorem count_rises_eq_one (h : ∀ k, k < d → (Rises p pin s k ↔ k = a)) (had : a < d) :
    Nat.count (Rises p pin s) d = 1 := by
  have hfilter : (Finset.range d).filter (Rises p pin s) = {a} := by
    ext k
    rw [Finset.mem_filter, Finset.mem_range, Finset.mem_singleton]
    constructor
    · exact fun hk => (h k hk.1).1 hk.2
    · rintro rfl
      exact ⟨had, (h k had).2 rfl⟩
  rw [Nat.count_eq_card_filter_range, hfilter, Finset.card_singleton]

theorem toNat_sub_one (v : UInt32) :
    (v - 1).toNat + 1 = v.toNat + if v = 0 then 4294967296 else 0 := by
  have hlt := v.toNat_lt
  by_cases h : v = 0
  · rw [h]
    rfl
  · have hpos : v.toNat ≠ 0 := fun h0 => h (UInt32.toNat_inj.1 h0)
    have hle : (1 : UInt32) ≤ v := UInt32.le_iff_toNat_le.2 (Nat.one_le_iff_ne_zero.2 hpos)
    rw [if_neg h, UInt32.toNat_sub_of_le _ _ hle]
    exact Nat.sub_add_cancel (Nat.one_le_iff_ne_zero.2 hpos)

/-- A jump to itself counts its register down, one a cycle. -/
theorem run_countdown (pin : Nat → Bool) (hcode : p.code[a]? = some (.jmp (.dec r) a))
    (hpc : s.pc = a) (hk : k ≤ (s.get r).toNat) :
    ∃ v, run p pin s k = s.set r v ∧ v.toNat + k = (s.get r).toNat := by
  induction k with
  | zero => exact ⟨s.get r, (s.set_get r).symm, rfl⟩
  | succ k ih =>
    obtain ⟨v, hrun, hv⟩ := ih (Nat.le_of_succ_le hk)
    have hne : v ≠ 0 := by
      rintro rfl
      simp at hv
      omega
    have hdec := toNat_sub_one v
    rw [if_neg hne] at hdec
    refine ⟨v - 1, ?_, by omega⟩
    cases hpc
    rw [run, hrun, step_eq (by rw [State.set_pc]; exact hcode), exec, Cond.holds, Cond.decrement]
    simp only [State.get_set, State.set_set, bne_iff_ne.2 hne, ↓reduceIte]
    cases r <;> rfl

/-- The countdown falls through once its register is spent, with the register at its maximum. -/
theorem run_countdown_done (pin : Nat → Bool) (hcode : p.code[a]? = some (.jmp (.dec r) a))
    (hpc : s.pc = a) (hv : s.get r = v) :
    run p pin s (v.toNat + 1) = { s.set r 4294967295 with pc := p.after a } := by
  cases hv
  obtain ⟨v, hrun, hv⟩ := run_countdown pin hcode hpc (Nat.le_refl _)
  obtain rfl : v = 0 := UInt32.toNat_inj.1 (by simpa using hv)
  cases hpc
  rw [run, hrun, step_eq (by rw [State.set_pc]; exact hcode), exec, Cond.holds, Cond.decrement]
  simp only [State.get_set, State.set_set, State.set_pc, bne_self_eq_false, Bool.false_eq_true,
    ↓reduceIte]
  rfl

theorem countdown_pins (pin : Nat → Bool) (hcode : p.code[a]? = some (.jmp (.dec r) a))
    (hpc : s.pc = a) (hk : k ≤ (s.get r).toNat + 1) : (run p pin s k).pins = s.pins := by
  rcases Nat.lt_or_eq_of_le hk with hlt | rfl
  · obtain ⟨v, hrun, -⟩ := run_countdown pin hcode hpc (Nat.le_of_lt_succ hlt)
    rw [hrun, State.set_pins]
  · rw [run_countdown_done pin hcode hpc rfl]
    exact s.set_pins r _

end Pio
