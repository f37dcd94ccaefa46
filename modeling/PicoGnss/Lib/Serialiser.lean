import Mathlib.Data.List.Basic

/-! A shift register behind a queue of bounded depth. A copier moves a buffer into the queue, one
word at a time, whenever it gets the bus. -/

namespace Serialiser
set_option autoImplicit true

inductive Event (W : Type) where
  | move
  | send (words : List W)
  | push (word : W)

def Event.words : Event W → List W
  | .move => []
  | .send words => words
  | .push word => [word]

structure State (W S : Type) where
  shift : List S
  queue : List W
  buffer : List W
  out : S

variable {W S : Type} (symbols : W → List S) (depth : Nat)

/-- `send` hands over a buffer and `push` one word; neither is possible while a buffer is being
moved. -/
def State.apply (s : State W S) : Event W → State W S
  | .move =>
    match s.buffer with
    | word :: rest =>
      if s.queue.length < depth then { s with queue := s.queue ++ [word], buffer := rest } else s
    | [] => s
  | .send words => if s.buffer.isEmpty then { s with buffer := words } else s
  | .push word =>
    if s.buffer.isEmpty && s.queue.length < depth then { s with queue := s.queue ++ [word] } else s

/-- What an event adds to the words that are to be sent, as one transmission. -/
def State.takes (s : State W S) : Event W → List (List W)
  | .move => []
  | .send words => if s.buffer.isEmpty then [words] else []
  | .push word => if s.buffer.isEmpty && s.queue.length < depth then [[word]] else []

def State.takesAll (s : State W S) : List (Event W) → List (List W)
  | [] => []
  | e :: es => s.takes depth e ++ (s.apply depth e).takesAll es

def State.applyAll (s : State W S) (es : List (Event W)) : State W S :=
  es.foldl (State.apply depth) s

def State.refill (s : State W S) : State W S :=
  match s.queue with
  | word :: rest => { s with shift := symbols word, queue := rest }
  | [] => s

/-- An empty register stalls for a cycle even when it refills; one that becomes empty does not. -/
def State.tick (s : State W S) : State W S :=
  match s.shift with
  | [] => s.refill symbols
  | [a] => { s with shift := [], out := a }.refill symbols
  | a :: b :: rest => { s with shift := b :: rest, out := a }

/-- The state after some cycles; the events of a cycle come before its tick. -/
def run (env : Nat → List (Event W)) (s : State W S) : Nat → State W S
  | 0 => s
  | t + 1 => ((run env s t).applyAll depth (env t)).tick symbols

/-- The transmissions taken in some cycles. -/
def sent (env : Nat → List (Event W)) (s : State W S) : Nat → List (List W)
  | 0 => []
  | t + 1 => sent env s t ++ (run symbols depth env s t).takesAll depth (env t)

/-- What the line shows in each of some cycles. -/
def wire (env : Nat → List (Event W)) (s : State W S) : Nat → List S
  | 0 => []
  | t + 1 => wire env s t ++ [(run symbols depth env s (t + 1)).out]

def line (words : List W) : List S := words.flatMap symbols

/-- The symbols that are still to be shown. -/
def State.rest (s : State W S) : List S := s.shift ++ line symbols (s.queue ++ s.buffer)

/-- How many symbols of what was taken the line has shown. -/
def position (env : Nat → List (Event W)) (s : State W S) (t : Nat) : Nat :=
  ((sent symbols depth env s t).map (line symbols)).flatten.length -
    ((run symbols depth env s t).rest symbols).length

/-- Nothing is on its way. -/
def State.Quiet (s : State W S) : Prop := s.shift = [] ∧ s.queue = [] ∧ s.buffer = []

/-- Lines one after the other with any stretch of `idle` between them. -/
inductive Paced (idle : S) : List (List S) → List S → Prop where
  | nil : Paced idle [] []
  | gap : Paced idle ls w → Paced idle ls (w ++ [idle])
  | line : Paced idle ls w → Paced idle (ls ++ [l]) (w ++ l)

variable {symbols depth}

theorem Paced.lines (h : Paced idle ls w) (ls' : List (List S)) :
    Paced idle (ls ++ ls') (w ++ ls'.flatten) := by
  induction ls' generalizing ls w with
  | nil => simpa using h
  | cons l ls' ih => simpa using ih h.line

theorem Paced.map (f : S → T) (h : Paced idle ls w) :
    Paced (f idle) (ls.map (List.map f)) (w.map f) := by
  induction h with
  | nil => exact .nil
  | gap _ ih =>
    rw [List.map_append]
    exact ih.gap
  | line _ ih =>
    rw [List.map_append, List.map_append]
    exact ih.line

@[simp] theorem line_append (ws ws' : List W) :
    line symbols (ws ++ ws') = line symbols ws ++ line symbols ws' := List.flatMap_append

@[simp] theorem line_nil : line symbols ([] : List W) = [] := rfl

@[simp] theorem line_cons (w : W) (ws : List W) :
    line symbols (w :: ws) = symbols w ++ line symbols ws := List.flatMap_cons

theorem line_flatten (ops : List (List W)) :
    line symbols ops.flatten = (ops.map (line symbols)).flatten := by
  induction ops with
  | nil => rfl
  | cons ws ops ih => rw [List.flatten_cons, line_append, ih, List.map_cons, List.flatten_cons]

@[simp] theorem apply_shift (s : State W S) (e : Event W) : (s.apply depth e).shift = s.shift := by
  cases e <;> simp only [State.apply] <;> (repeat' split) <;> rfl

@[simp] theorem apply_out (s : State W S) (e : Event W) : (s.apply depth e).out = s.out := by
  cases e <;> simp only [State.apply] <;> (repeat' split) <;> rfl

/-- An event loses nothing and adds what it takes. -/
theorem rest_apply (s : State W S) (e : Event W) :
    (s.apply depth e).rest symbols =
      s.rest symbols ++ ((s.takes depth e).map (line symbols)).flatten := by
  cases e with
  | move =>
    simp only [State.apply, State.takes]
    cases hb : s.buffer with
    | nil => simp
    | cons word rest =>
      by_cases hq : s.queue.length < depth
      · simp [hq, State.rest, hb]
      · simp [hq]
  | send words =>
    simp only [State.apply, State.takes]
    cases hb : s.buffer with
    | nil => simp [State.rest, hb]
    | cons word rest => simp
  | push word =>
    simp only [State.apply, State.takes]
    by_cases h : (s.buffer.isEmpty && decide (s.queue.length < depth)) = true
    · have hb : s.buffer = [] := by simpa using (Bool.and_eq_true_iff.1 h).1
      simp only [h, if_true]
      simp [State.rest, hb]
    · simp [h]

theorem mem_takes {s : State W S} {e : Event W} (h : op ∈ s.takes depth e) :
    e ≠ .move ∧ op = e.words := by
  cases e with
  | move => cases h
  | send words =>
    simp only [State.takes] at h
    split at h
    · exact ⟨nofun, List.mem_singleton.1 h⟩
    · cases h
  | push w =>
    simp only [State.takes] at h
    split at h
    · exact ⟨nofun, List.mem_singleton.1 h⟩
    · cases h

theorem mem_takesAll {s : State W S} {es : List (Event W)} (h : op ∈ s.takesAll depth es) :
    ∃ e ∈ es, e ≠ .move ∧ op = e.words := by
  induction es generalizing s with
  | nil => cases h
  | cons e es ih =>
    rcases List.mem_append.1 h with hhead | htail
    · exact ⟨e, List.mem_cons_self, mem_takes hhead⟩
    · obtain ⟨e', he', hwords⟩ := ih htail
      exact ⟨e', List.mem_cons_of_mem _ he', hwords⟩

/-- What is taken was handed over. -/
theorem mem_sent {env : Nat → List (Event W)} {s : State W S}
    (h : op ∈ sent symbols depth env s t) : ∃ u, ∃ e ∈ env u, e ≠ .move ∧ op = e.words := by
  induction t with
  | zero => cases h
  | succ t ih =>
    rcases List.mem_append.1 h with hold | hnew
    · exact ih hold
    · exact ⟨t, mem_takesAll hnew⟩

theorem rest_refill (s : State W S) (h : s.shift = []) :
    (s.refill symbols).rest symbols = s.rest symbols := by
  simp only [State.refill]
  cases hq : s.queue with
  | nil => rfl
  | cons word rest => simp [State.rest, h, hq]

@[simp] theorem refill_out (s : State W S) : (s.refill symbols).out = s.out := by
  simp only [State.refill]
  split <;> rfl

@[simp] theorem refill_buffer (s : State W S) : (s.refill symbols).buffer = s.buffer := by
  simp only [State.refill]
  split <;> rfl

/-- A tick shows the next symbol, or repeats the last one while the register is empty. -/
theorem tick_rest (s : State W S) :
    (∃ a, s.shift = a :: s.shift.tail ∧ (s.tick symbols).out = a ∧
      s.rest symbols = a :: (s.tick symbols).rest symbols) ∨
    (s.shift = [] ∧ (s.tick symbols).out = s.out ∧
      (s.tick symbols).rest symbols = s.rest symbols) := by
  cases hs : s.shift with
  | nil =>
    refine .inr ⟨rfl, ?_, ?_⟩ <;> simp only [State.tick, hs]
    · exact refill_out s
    · exact rest_refill s hs
  | cons a rest =>
    refine .inl ⟨a, rfl, ?_⟩
    cases rest with
    | nil =>
      simp only [State.tick, hs]
      rw [refill_out, rest_refill _ rfl]
      exact ⟨rfl, by simp [State.rest, hs]⟩
    | cons b rest =>
      simp only [State.tick, hs]
      exact ⟨trivial, by simp [State.rest, hs]⟩

@[simp] theorem applyAll_shift (s : State W S) (es : List (Event W)) :
    (s.applyAll depth es).shift = s.shift := by
  induction es generalizing s with
  | nil => rfl
  | cons e es ih => exact (ih _).trans (apply_shift s e)

@[simp] theorem applyAll_out (s : State W S) (es : List (Event W)) :
    (s.applyAll depth es).out = s.out := by
  induction es generalizing s with
  | nil => rfl
  | cons e es ih => exact (ih _).trans (apply_out s e)

theorem rest_applyAll (s : State W S) (es : List (Event W)) :
    (s.applyAll depth es).rest symbols =
      s.rest symbols ++ ((s.takesAll depth es).map (line symbols)).flatten := by
  induction es generalizing s with
  | nil => simp [State.applyAll, State.takesAll]
  | cons e es ih =>
    have h := ih (s.apply depth e)
    rw [rest_apply] at h
    simpa [State.applyAll, State.takesAll] using h

theorem length_queue_apply (s : State W S) (e : Event W) (h : s.queue.length ≤ depth) :
    (s.apply depth e).queue.length ≤ depth := by
  cases e with
  | move =>
    simp only [State.apply]
    cases s.buffer with
    | nil => exact h
    | cons word rest =>
      by_cases hq : s.queue.length < depth
      · simp only [hq, ↓reduceIte, List.length_append]
        exact hq
      · simp only [hq, ↓reduceIte]
        exact h
  | send words =>
    simp only [State.apply]
    split <;> exact h
  | push word =>
    simp only [State.apply]
    split
    case isTrue hq =>
      rw [List.length_append]
      exact of_decide_eq_true (Bool.and_eq_true_iff.1 hq).2
    case isFalse => exact h

theorem length_queue_tick (s : State W S) (h : s.queue.length ≤ depth) :
    (s.tick symbols).queue.length ≤ depth := by
  have refill : ∀ s : State W S, s.queue.length ≤ depth →
      (s.refill symbols).queue.length ≤ depth := by
    intro s h
    simp only [State.refill]
    cases hq : s.queue with
    | nil => exact h
    | cons word rest =>
      rw [hq, List.length_cons] at h
      exact Nat.le_of_succ_le h
  simp only [State.tick]
  split
  · exact refill _ h
  · exact refill _ h
  · exact h

/-- The queue never holds more than it has room for. -/
theorem length_queue_run (env : Nat → List (Event W)) (s : State W S)
    (h : s.queue.length ≤ depth) (t : Nat) : (run symbols depth env s t).queue.length ≤ depth := by
  have events : ∀ (es : List (Event W)) (s : State W S), s.queue.length ≤ depth →
      (s.applyAll depth es).queue.length ≤ depth := by
    intro es
    induction es with
    | nil => exact fun s h => h
    | cons e es ih => exact fun s h => ih _ (length_queue_apply s e h)
  induction t with
  | zero => exact h
  | succ t ih => exact length_queue_tick _ (events _ _ ih)

section Position
variable (symbols depth) (env : Nat → List (Event W)) (s : State W S)

/-- `shown` is the part of what was taken that the line has shown. -/
structure Shown (t : Nat) (shown : List S) : Prop where
  split : ((sent symbols depth env s t).map (line symbols)).flatten =
    shown ++ (run symbols depth env s t).rest symbols
  out : (s.out :: shown)[shown.length]? = some (run symbols depth env s t).out

variable {symbols depth env s}

theorem Shown.start (h : s.Quiet) : Shown symbols depth env s 0 [] := by
  obtain ⟨hshift, hqueue, hbuffer⟩ := h
  exact ⟨by simp [sent, run, State.rest, hshift, hqueue, hbuffer], rfl⟩

theorem Shown.step (h : Shown symbols depth env s t shown) :
    (∃ a, Shown symbols depth env s (t + 1) (shown ++ [a])) ∨
      (Shown symbols depth env s (t + 1) shown ∧
        (run symbols depth env s t).shift = []) := by
  have hsplit : ((sent symbols depth env s (t + 1)).map (line symbols)).flatten =
      shown ++ ((run symbols depth env s t).applyAll depth (env t)).rest symbols := by
    rw [rest_applyAll, sent, List.map_append, List.flatten_append, h.split, List.append_assoc]
  rcases tick_rest ((run symbols depth env s t).applyAll depth (env t)) with
    ⟨a, -, hout, htick⟩ | ⟨hshift, hout, htick⟩
  · refine .inl ⟨a, ?_, ?_⟩
    · rw [hsplit, htick, run, List.append_assoc, List.singleton_append]
    · rw [run, hout]
      simp
  · refine .inr ⟨⟨?_, ?_⟩, by simpa using hshift⟩
    · rw [hsplit, run, htick]
    · rw [run, hout, applyAll_out]
      exact h.out

theorem Shown.position_eq (h : Shown symbols depth env s t shown) :
    position symbols depth env s t = shown.length := by
  rw [position, h.split, List.length_append, Nat.add_sub_cancel]

theorem shown_run (h : s.Quiet) (t : Nat) :
    ∃ shown, Shown symbols depth env s t shown := by
  induction t with
  | zero => exact ⟨[], .start h⟩
  | succ t ih =>
    obtain ⟨shown, hshown⟩ := ih
    rcases hshown.step with ⟨a, ha⟩ | ⟨hsame, -⟩
    · exact ⟨_, ha⟩
    · exact ⟨_, hsame⟩

theorem length_line (hk : ∀ w, (symbols w).length = k) (ws : List W) :
    (line symbols ws).length = k * ws.length := by
  induction ws with
  | nil => rfl
  | cons w ws ih => rw [line_cons, List.length_append, ih, hk, List.length_cons, Nat.mul_succ,
      Nat.add_comm]

theorem length_rest_le (h : s.Quiet) (hk : ∀ w, (symbols w).length = k) (t : Nat) :
    ((run symbols depth env s t).rest symbols).length ≤
      k * (sent symbols depth env s t).flatten.length := by
  obtain ⟨shown, hshown⟩ : ∃ shown, Shown symbols depth env s t shown := shown_run h t
  rw [← length_line hk, line_flatten, hshown.split, List.length_append]
  exact Nat.le_add_left _ _

theorem dvd_length_lines (hk : ∀ w, (symbols w).length = k) (ops : List (List W)) :
    k ∣ (ops.map (line symbols)).flatten.length := by
  induction ops with
  | nil => exact ⟨0, rfl⟩
  | cons ws ops ih =>
    rw [List.map_cons, List.flatten_cons, List.length_append, length_line hk]
    exact Nat.dvd_add ⟨_, rfl⟩ ih

/-- Whatever the order of events, the line shows what was taken, symbol by symbol: none is lost,
none comes twice, and the line only ever holds a symbol at the end of a word. -/
theorem position_steps (h : s.Quiet) (hk : ∀ w, (symbols w).length = k) :
    position symbols depth env s 0 = 0 ∧ ∀ t,
      (position symbols depth env s (t + 1) = position symbols depth env s t + 1 ∨
        (position symbols depth env s (t + 1) = position symbols depth env s t ∧
          k ∣ position symbols depth env s t)) ∧
      (s.out :: ((sent symbols depth env s t).map (line symbols)).flatten)[
        position symbols depth env s t]? = some (run symbols depth env s t).out := by
  refine ⟨(Shown.start h).position_eq, fun t => ?_⟩
  obtain ⟨shown, hshown⟩ := shown_run h t
  constructor
  · rcases hshown.step with ⟨a, ha⟩ | ⟨hsame, hshift⟩
    · left
      rw [ha.position_eq, hshown.position_eq, List.length_append, List.length_singleton]
    · right
      rw [hsame.position_eq, hshown.position_eq]
      refine ⟨rfl, ?_⟩
      have htotal := dvd_length_lines hk (sent symbols depth env s t)
      have hrest : k ∣ ((run symbols depth env s t).rest symbols).length := by
        rw [State.rest, hshift, List.nil_append, length_line hk]
        exact ⟨_, rfl⟩
      rw [hshown.split, List.length_append] at htotal
      exact (Nat.dvd_add_left hrest).1 htotal
  · rw [hshown.position_eq, hshown.split, ← List.cons_append, List.getElem?_append_left]
    · exact hshown.out
    · exact Nat.lt_succ_self _

end Position

section Pacing
variable (symbols depth) (env : Nat → List (Event W)) (idle : S)

/-- A line that ends at rest. -/
def Ends (l : List S) : Prop := ∀ a, l.getLast? = some a → a = idle

/-- The copier gets the bus in every stretch of `k` cycles. -/
def Fed (k : Nat) : Prop := ∀ t, ∃ u, u < k ∧ .move ∈ env (t + u)

/-- In cycle `t`, with `es` still to come, `ops` taken and `w` shown: the transmissions of `done`
are over, and the register runs dry only between two of them. -/
structure Pacing (t : Nat) (es : List (Event W)) (ops : List (List W)) (w : List S)
    (s : State W S) (done todo : List (List W)) (before cur : List S) : Prop where
  ops_eq : ops = done ++ todo
  wire_eq : w = before ++ cur
  paced : Paced idle (done.map (line symbols)) before
  split : cur ++ s.rest symbols = (todo.map (line symbols)).flatten
  stalled : s.shift = [] → cur = [] ∧ s.out = idle
  next : s.queue = [] → s.buffer ≠ [] →
    (∃ first, todo = first ++ [s.buffer] ∧ cur ++ s.shift = (first.map (line symbols)).flatten) ∨
    (s.shift ≠ [] ∧ .move ∈ es) ∨ ∃ u, 1 ≤ u ∧ u < s.shift.length ∧ .move ∈ env (t + u)

variable {symbols depth env idle}

theorem ends_flatten {ls : List (List S)} (h : ∀ l ∈ ls, Ends idle l) : Ends idle ls.flatten := by
  induction ls with
  | nil => exact nofun
  | cons l ls ih =>
    intro a ha
    rw [List.flatten_cons, List.getLast?_append] at ha
    cases hl : ls.flatten.getLast? with
    | none =>
      rw [hl, Option.none_or] at ha
      exact h l List.mem_cons_self a ha
    | some b =>
      rw [hl, Option.some_or, Option.some.injEq] at ha
      exact ih (fun l hl => h l (List.mem_cons_of_mem _ hl)) a (ha ▸ hl)

/-- An event that does nothing can be left out, unless it is the awaited move. -/
theorem Pacing.skip (h : Pacing symbols env idle t (e :: es) ops w s done todo before cur)
    (he : e ≠ .move) : Pacing symbols env idle t es ops w s done todo before cur where
  ops_eq := h.ops_eq
  wire_eq := h.wire_eq
  paced := h.paced
  split := h.split
  stalled := h.stalled
  next := by
    intro hq hb
    rcases h.next hq hb with hfirst | ⟨hs, hmove⟩ | hlater
    · exact .inl hfirst
    · rcases List.mem_cons.1 hmove with rfl | hmem
      · exact absurd rfl he
      · exact .inr (.inl ⟨hs, hmem⟩)
    · exact .inr (.inr hlater)

/-- An event that leaves words in the queue, or the whole of a buffer behind an empty one. -/
theorem Pacing.take (h : Pacing symbols env idle t (e :: es) ops w s done todo before cur)
    (hnext : (s.apply depth e).queue = [] → (s.apply depth e).buffer ≠ [] →
      ∃ first, todo ++ s.takes depth e = first ++ [(s.apply depth e).buffer] ∧
        cur ++ s.shift = (first.map (line symbols)).flatten) :
    Pacing symbols env idle t es (ops ++ s.takes depth e) w (s.apply depth e) done
      (todo ++ s.takes depth e) before cur where
  ops_eq := by rw [h.ops_eq, List.append_assoc]
  wire_eq := h.wire_eq
  paced := h.paced
  split := by
    rw [rest_apply, ← List.append_assoc, h.split, List.map_append, List.flatten_append]
  stalled := by
    rw [apply_shift, apply_out]
    exact h.stalled
  next := by
    rw [apply_shift]
    exact fun hq hb => .inl (hnext hq hb)

theorem Pacing.event (h : Pacing symbols env idle t (e :: es) ops w s done todo before cur)
    (hdepth : 0 < depth) :
    Pacing symbols env idle t es (ops ++ s.takes depth e) w (s.apply depth e) done
      (todo ++ s.takes depth e) before cur := by
  cases e with
  | move =>
    apply h.take
    intro hq hb
    exfalso
    cases hbuf : s.buffer with
    | nil =>
      simp only [State.apply, hbuf] at hb
      exact hb rfl
    | cons word rest =>
      by_cases hroom : s.queue.length < depth
      · simp [State.apply, hbuf, hroom] at hq
      · simp only [State.apply, hbuf, hroom, ↓reduceIte] at hq
        rw [hq] at hroom
        exact hroom hdepth
  | send words =>
    cases hbuf : s.buffer with
    | nil =>
      apply h.take
      simp only [State.apply, State.takes, hbuf, List.isEmpty_nil, ↓reduceIte]
      intro hq hb
      have hsplit := h.split
      simp only [State.rest, hq, hbuf, line_nil, List.append_nil] at hsplit
      exact ⟨todo, rfl, hsplit⟩
    | cons word rest =>
      have hsame : s.apply depth (.send words) = s := by simp [State.apply, hbuf]
      have htakes : s.takes depth (.send words) = [] := by simp [State.takes, hbuf]
      rw [hsame, htakes, List.append_nil, List.append_nil]
      exact h.skip nofun
  | push word =>
    by_cases hroom : (s.buffer.isEmpty && decide (s.queue.length < depth)) = true
    · apply h.take
      intro hq
      simp [State.apply, hroom] at hq
    · have hsame : s.apply depth (.push word) = s := if_neg hroom
      have htakes : s.takes depth (.push word) = [] := if_neg hroom
      rw [hsame, htakes, List.append_nil, List.append_nil]
      exact h.skip nofun

theorem Pacing.events (h : Pacing symbols env idle t es ops w s done todo before cur)
    (hdepth : 0 < depth) :
    Pacing symbols env idle t [] (ops ++ s.takesAll depth es) w (s.applyAll depth es) done
      (todo ++ s.takesAll depth es) before cur := by
  induction es generalizing ops s todo with
  | nil =>
    rw [State.takesAll, List.append_nil, List.append_nil]
    exact h
  | cons e es ih =>
    rw [State.takesAll, ← List.append_assoc, ← List.append_assoc]
    exact ih (h.event hdepth)

/-- What has been shown when the register and the queue are empty ends with a transmission. -/
theorem Pacing.boundary (h : Pacing symbols env idle t [] ops w s done todo before cur)
    (hs : s.shift = [a]) (hq : s.queue = []) :
    ∃ first last, todo = first ++ last ∧ cur ++ [a] = (first.map (line symbols)).flatten ∧
      (s.buffer ≠ [] → last = [s.buffer]) := by
  by_cases hb : s.buffer = []
  · refine ⟨todo, [], (List.append_nil _).symm, ?_, fun hne => absurd hb hne⟩
    rw [← h.split, State.rest, hs, hq, hb, List.append_nil, line_nil, List.append_nil]
  · rcases h.next hq hb with ⟨first, htodo, hfirst⟩ | ⟨-, hmove⟩ | ⟨u, hu, hlt, -⟩
    · exact ⟨first, [s.buffer], htodo, hs ▸ hfirst, fun _ => rfl⟩
    · cases hmove
    · rw [hs, List.length_singleton] at hlt
      omega

theorem Pacing.tick_more (h : Pacing symbols env idle t [] ops w s done todo before cur)
    (hs : s.shift = a :: b :: rest) :
    Pacing symbols env idle (t + 1) (env (t + 1)) ops (w ++ [(s.tick symbols).out])
      (s.tick symbols) done todo before (cur ++ [a]) := by
  have htick : s.tick symbols = { s with shift := b :: rest, out := a } := by rw [State.tick, hs]
  rw [htick]
  constructor
  case ops_eq => exact h.ops_eq
  case wire_eq => rw [h.wire_eq, List.append_assoc]
  case paced => exact h.paced
  case split =>
    rw [← h.split, State.rest, State.rest, hs, List.append_assoc]
    rfl
  case stalled => exact fun hnil => nomatch hnil
  case next =>
    intro hq hb
    rcases h.next hq hb with ⟨first, htodo, hfirst⟩ | ⟨-, hmove⟩ | ⟨u, hu, hlt, hmove⟩
    · refine .inl ⟨first, htodo, ?_⟩
      rw [← hfirst, hs, List.append_assoc]
      rfl
    · cases hmove
    · obtain ⟨u, rfl⟩ : ∃ v, u = 1 + v := ⟨u - 1, by omega⟩
      rw [hs, List.length_cons, Nat.add_comm 1, Nat.add_lt_add_iff_right] at hlt
      rw [← Nat.add_assoc] at hmove
      cases u with
      | zero => exact .inr (.inl ⟨nofun, hmove⟩)
      | succ u => exact .inr (.inr ⟨u + 1, Nat.succ_pos u, hlt, hmove⟩)

section Tick
variable (hk : ∀ word, (symbols word).length = k)
include hk

theorem symbols_ne_nil (hpos : 0 < k) (word : W) : symbols word ≠ [] := by
  intro hnil
  have hlen := hk word
  rw [hnil] at hlen
  exact Nat.ne_of_lt hpos hlen

theorem quiet_of_rest (hpos : 0 < k) {s : State W S} (h : s.rest symbols = []) : s.Quiet := by
  rw [State.rest, List.append_eq_nil_iff] at h
  have hwords : s.queue ++ s.buffer = [] := by
    cases hw : s.queue ++ s.buffer with
    | nil => rfl
    | cons word words =>
      rw [hw, line_cons, List.append_eq_nil_iff] at h
      exact absurd h.2.1 (symbols_ne_nil hk hpos word)
  exact ⟨h.1, List.append_eq_nil_iff.1 hwords⟩

/-- A fresh word in the register gives the copier a whole stretch. -/
theorem Fed.fresh (hfed : Fed env k) (hpos : 0 < k) (t : Nat) (word : W) :
    (symbols word ≠ [] ∧ Event.move ∈ env t) ∨
      ∃ u, 1 ≤ u ∧ u < (symbols word).length ∧ Event.move ∈ env (t + u) := by
  obtain ⟨u, hu, hmove⟩ := hfed t
  cases u with
  | zero => exact .inl ⟨symbols_ne_nil hk hpos word, hmove⟩
  | succ u => exact .inr ⟨u + 1, Nat.succ_pos u, (hk word).symm ▸ hu, hmove⟩

/-- A stall repeats the idle symbol behind whole transmissions. -/
theorem Pacing.tick_stall (h : Pacing symbols env idle t [] ops w s done todo before cur)
    (hpos : 0 < k) (hfed : Fed env k) (hs : s.shift = []) :
    Pacing symbols env idle (t + 1) (env (t + 1)) ops (w ++ [(s.tick symbols).out])
      (s.tick symbols) done todo (before ++ [idle]) [] := by
  obtain ⟨hcur, hout⟩ := h.stalled hs
  have htick : s.tick symbols = s.refill symbols := by rw [State.tick, hs]
  rw [htick]
  constructor
  case ops_eq => exact h.ops_eq
  case wire_eq => rw [refill_out, hout, h.wire_eq, hcur, List.append_nil, List.append_nil]
  case paced => exact h.paced.gap
  case split => rw [rest_refill s hs, ← h.split, hcur]
  case stalled =>
    rw [refill_out]
    exact fun _ => ⟨rfl, hout⟩
  case next =>
    cases hq : s.queue with
    | nil =>
      have hsame : s.refill symbols = s := by rw [State.refill, hq]
      rw [hsame]
      intro _ hb
      rcases h.next hq hb with ⟨first, htodo, hfirst⟩ | ⟨hne, -⟩ | ⟨u, -, hu, -⟩
      · rw [hcur] at hfirst
        exact .inl ⟨first, htodo, hfirst⟩
      · exact absurd hs hne
      · rw [hs] at hu
        exact absurd hu (Nat.not_lt_zero u)
    | cons word rest =>
      simp only [State.refill, hq]
      exact fun _ _ => .inr (hfed.fresh hk hpos (t + 1) word)

theorem Pacing.tick_last (h : Pacing symbols env idle t [] ops w s done todo before cur)
    (hpos : 0 < k) (hfed : Fed env k) (hends : ∀ op ∈ ops, Ends idle (line symbols op))
    (hs : s.shift = [a]) :
    ∃ done' todo' before' cur', Pacing symbols env idle (t + 1) (env (t + 1)) ops
      (w ++ [(s.tick symbols).out]) (s.tick symbols) done' todo' before' cur' := by
  have htick : s.tick symbols = { s with shift := [], out := a }.refill symbols := by
    rw [State.tick, hs]
  have hout : (s.tick symbols).out = a := by rw [htick, refill_out]
  have hrest : (s.tick symbols).rest symbols = line symbols (s.queue ++ s.buffer) := by
    rw [htick, rest_refill _ rfl]
    rfl
  have hsplit := h.split
  rw [State.rest, hs, ← List.append_assoc] at hsplit
  cases hq : s.queue with
  | cons word rest =>
    refine ⟨done, todo, before, cur ++ [a], h.ops_eq, ?_, h.paced, ?_, ?_, ?_⟩
    · rw [hout, h.wire_eq, List.append_assoc]
    · rw [hrest, hsplit]
    · simp only [htick, State.refill, hq]
      exact fun hnil => absurd hnil (symbols_ne_nil hk hpos word)
    · simp only [htick, State.refill, hq]
      exact fun _ _ => .inr (hfed.fresh hk hpos (t + 1) word)
  | nil =>
    have hsame : s.tick symbols = { s with shift := [], out := a } := by
      simp only [htick, State.refill, hq]
    obtain ⟨first, last, htodo, hfirst, hlast⟩ := h.boundary hs hq
    have ha : a = idle := by
      refine ends_flatten (fun l hl => ?_) a (hfirst ▸ List.getLast?_concat)
      obtain ⟨op, hop, rfl⟩ := List.mem_map.1 hl
      apply hends
      rw [h.ops_eq, htodo]
      exact List.mem_append_right _ (List.mem_append_left _ hop)
    refine ⟨done ++ first, last, before ++ (cur ++ [a]), [], ?_, ?_, ?_, ?_, ?_, ?_⟩
    · rw [h.ops_eq, htodo, List.append_assoc]
    · rw [hout, h.wire_eq, List.append_nil, List.append_assoc]
    · rw [hfirst, List.map_append]
      exact h.paced.lines _
    · rw [htodo, List.map_append, List.flatten_append, ← hfirst] at hsplit
      rw [hrest, List.nil_append]
      exact List.append_cancel_left hsplit
    · rw [hsame]
      exact fun _ => ⟨rfl, ha⟩
    · rw [hsame]
      intro _ hb
      exact .inl ⟨[], hlast hb, rfl⟩

/-- The register runs dry between two transmissions only. -/
theorem Pacing.tick (h : Pacing symbols env idle t [] ops w s done todo before cur)
    (hpos : 0 < k) (hfed : Fed env k) (hends : ∀ op ∈ ops, Ends idle (line symbols op)) :
    ∃ done' todo' before' cur', Pacing symbols env idle (t + 1) (env (t + 1)) ops
      (w ++ [(s.tick symbols).out]) (s.tick symbols) done' todo' before' cur' := by
  match hs : s.shift with
  | [] => exact ⟨_, _, _, _, h.tick_stall hk hpos hfed hs⟩
  | [a] => exact h.tick_last hk hpos hfed hends hs
  | a :: b :: rest => exact ⟨_, _, _, _, h.tick_more hs⟩

end Tick

theorem pacing_run {s : State W S} (h : s.Quiet) (hout : s.out = idle) (hdepth : 0 < depth)
    (hk : ∀ word, (symbols word).length = k) (hpos : 0 < k) (hfed : Fed env k) (t : Nat)
    (hends : ∀ op ∈ sent symbols depth env s t, Ends idle (line symbols op)) :
    ∃ done todo before cur, Pacing symbols env idle t (env t) (sent symbols depth env s t)
      (wire symbols depth env s t) (run symbols depth env s t) done todo before cur := by
  obtain ⟨hshift, hqueue, hbuffer⟩ := h
  induction t with
  | zero =>
    refine ⟨[], [], [], [], rfl, rfl, .nil, ?_, fun _ => ⟨rfl, hout⟩, fun _ hb => ?_⟩
    · simp [run, State.rest, hshift, hqueue, hbuffer]
    · exact absurd hbuffer hb
  | succ t ih =>
    obtain ⟨done, todo, before, cur, hpacing⟩ :=
      ih fun op hop => hends op (List.mem_append_left _ hop)
    exact (hpacing.events hdepth).tick hk hpos hfed hends

/-- When the copier gets the bus often enough, the line is the transmissions in the order they were
taken, each without a gap, and idle between them. -/
theorem wire_paced {s : State W S} (h : s.Quiet) (hout : s.out = idle) (hdepth : 0 < depth)
    (hk : ∀ word, (symbols word).length = k) (hpos : 0 < k) (hfed : Fed env k) (t : Nat)
    (hends : ∀ op ∈ sent symbols depth env s t, Ends idle (line symbols op)) :
    Paced idle ((sent symbols depth env s t).map (line symbols))
      (wire symbols depth env s t ++ (run symbols depth env s t).rest symbols) := by
  obtain ⟨done, todo, before, cur, hp⟩ := pacing_run h hout hdepth hk hpos hfed t hends
  rw [hp.ops_eq, List.map_append, hp.wire_eq, List.append_assoc, hp.split]
  exact hp.paced.lines _

/-- A line with nothing left to show rests. -/
theorem out_of_rest {s : State W S} (h : s.Quiet) (hout : s.out = idle) (hdepth : 0 < depth)
    (hk : ∀ word, (symbols word).length = k) (hpos : 0 < k) (hfed : Fed env k) (t : Nat)
    (hends : ∀ op ∈ sent symbols depth env s t, Ends idle (line symbols op))
    (hrest : (run symbols depth env s t).rest symbols = []) :
    (run symbols depth env s t).out = idle := by
  obtain ⟨done, todo, before, cur, hp⟩ := pacing_run h hout hdepth hk hpos hfed t hends
  exact (hp.stalled (quiet_of_rest hk hpos hrest).1).2

end Pacing

section Drain
variable {env : Nat → List (Event W)} {s : State W S}

theorem run_add (env : Nat → List (Event W)) (s : State W S) (a b : Nat) :
    run symbols depth env s (a + b) =
      run symbols depth (fun t => env (a + t)) (run symbols depth env s a) b := by
  induction b with
  | zero => rfl
  | succ b ih => rw [← Nat.add_assoc, run, ih, run]

theorem sent_add (env : Nat → List (Event W)) (s : State W S) (a b : Nat) :
    sent symbols depth env s (a + b) = sent symbols depth env s a ++
      sent symbols depth (fun t => env (a + t)) (run symbols depth env s a) b := by
  induction b with
  | zero => exact (List.append_nil _).symm
  | succ b ih => rw [← Nat.add_assoc, sent, ih, sent, run_add, List.append_assoc]

theorem takesAll_moves {es : List (Event W)} (h : ∀ e ∈ es, e = .move) (s : State W S) :
    s.takesAll depth es = [] := by
  induction es generalizing s with
  | nil => rfl
  | cons e es ih =>
    rw [State.takesAll, ih (fun e he => h e (List.mem_cons_of_mem _ he)), h e List.mem_cons_self]
    rfl

/-- With nothing but moves, a move leaves words in the queue or no buffer. -/
theorem applyAll_moves {es : List (Event W)} (h : ∀ e ∈ es, e = .move) (hdepth : 0 < depth)
    (s : State W S) (hmove : .move ∈ es ∨ s.queue ≠ [] ∨ s.buffer = []) :
    (s.applyAll depth es).queue ≠ [] ∨ (s.applyAll depth es).buffer = [] := by
  induction es generalizing s with
  | nil => exact hmove.resolve_left List.not_mem_nil
  | cons e es ih =>
    apply ih (fun e he => h e (List.mem_cons_of_mem _ he))
    right
    rw [h e List.mem_cons_self]
    cases hbuf : s.buffer with
    | nil => exact .inr (by simp [State.apply, hbuf])
    | cons word rest =>
      left
      by_cases hroom : s.queue.length < depth
      · simp [State.apply, hbuf, hroom]
      · simp only [State.apply, hbuf, hroom, ↓reduceIte]
        rintro hq
        rw [hq] at hroom
        exact hroom hdepth

variable (hmoves : ∀ t, ∀ e ∈ env t, e = .move)
include hmoves

variable (symbols depth s) in
theorem rest_run_one : (run symbols depth env s 1).rest symbols =
    ((s.applyAll depth (env 0)).tick symbols).rest symbols ∧
    (s.applyAll depth (env 0)).rest symbols = s.rest symbols := by
  refine ⟨rfl, ?_⟩
  rw [rest_applyAll, takesAll_moves (hmoves 0)]
  exact List.append_nil _

theorem shows_next (hs : s.shift ≠ []) :
    ((run symbols depth env s 1).rest symbols).length < (s.rest symbols).length := by
  obtain ⟨hrun, hrest⟩ := rest_run_one symbols depth s hmoves
  rw [hrun, ← hrest]
  rcases tick_rest (s.applyAll depth (env 0)) with ⟨a, -, -, h⟩ | ⟨h, -⟩
  · rw [h]
    exact Nat.lt_succ_self _
  · rw [applyAll_shift] at h
    exact absurd h hs

/-- An empty register is loaded from the queue, or waits for a move. -/
theorem loads_or_waits (hdepth : 0 < depth) (hs : s.shift = []) (hrest : s.rest symbols ≠ []) :
    (run symbols depth env s 1).rest symbols = s.rest symbols ∧
      ((∃ word, (run symbols depth env s 1).shift = symbols word) ∨ .move ∉ env 0) := by
  obtain ⟨hrun, hsame⟩ := rest_run_one symbols depth s hmoves
  have htick : run symbols depth env s 1 = (s.applyAll depth (env 0)).refill symbols := by
    change (s.applyAll depth (env 0)).tick symbols = _
    rw [State.tick, applyAll_shift, hs]
  rw [htick, rest_refill _ (by rw [applyAll_shift, hs]), hsame]
  refine ⟨rfl, ?_⟩
  cases hq : (s.applyAll depth (env 0)).queue with
  | cons word rest => exact .inl ⟨word, by rw [State.refill, hq]⟩
  | nil =>
    right
    intro hmove
    apply hrest
    rcases applyAll_moves (hmoves 0) hdepth s (.inl hmove) with h | h
    · exact absurd hq h
    · rw [← hsame, State.rest, applyAll_shift, hs, hq, h]
      rfl

theorem shows_after (h : (run symbols depth env s 1).rest symbols = s.rest symbols)
    (hs : (run symbols depth env s 1).shift ≠ []) :
    ((run symbols depth env s 2).rest symbols).length < (s.rest symbols).length := by
  rw [run_add env s 1 1, ← h]
  exact shows_next (fun t => hmoves (1 + t)) hs

/-- Something is shown soon after the copier gets the bus. -/
theorem progress (hk : ∀ word, (symbols word).length = k) (hpos : 0 < k) (hdepth : 0 < depth)
    (hbus : ∃ u, u ≤ d ∧ .move ∈ env u) (hrest : s.rest symbols ≠ []) :
    ∃ u, u ≤ d + 2 ∧
      ((run symbols depth env s u).rest symbols).length < (s.rest symbols).length := by
  induction d generalizing s env with
  | zero =>
    obtain ⟨u, hu, hmove⟩ := hbus
    rw [Nat.le_zero.1 hu] at hmove
    by_cases hs : s.shift = []
    · obtain ⟨hsame, ⟨word, hword⟩ | hno⟩ := loads_or_waits hmoves hdepth hs hrest
      · exact ⟨2, Nat.le_refl _, shows_after hmoves hsame (hword ▸ symbols_ne_nil hk hpos word)⟩
      · exact absurd hmove hno
    · exact ⟨1, by omega, shows_next hmoves hs⟩
  | succ d ih =>
    by_cases hs : s.shift = []
    · obtain ⟨hsame, ⟨word, hword⟩ | hno⟩ := loads_or_waits hmoves hdepth hs hrest
      · exact ⟨2, by omega, shows_after hmoves hsame (hword ▸ symbols_ne_nil hk hpos word)⟩
      · obtain ⟨u, hu, hmove⟩ := hbus
        obtain ⟨u, rfl⟩ : ∃ v, u = 1 + v := by
          cases u with
          | zero => exact absurd hmove hno
          | succ u => exact ⟨u, Nat.add_comm u 1⟩
        obtain ⟨v, hv, hlt⟩ := ih (s := run symbols depth env s 1) (fun t => hmoves (1 + t))
          ⟨u, by omega, hmove⟩ (by rwa [hsame])
        refine ⟨1 + v, by omega, ?_⟩
        rw [run_add, ← hsame]
        exact hlt
    · exact ⟨1, by omega, shows_next hmoves hs⟩

/-- Once nothing more is taken, everything taken is shown in a bounded time. -/
theorem drains (hk : ∀ word, (symbols word).length = k) (hpos : 0 < k) (hdepth : 0 < depth)
    (hfed : Fed env k) :
    ∃ t, t ≤ (k + 1) * (s.rest symbols).length ∧ (run symbols depth env s t).rest symbols = [] := by
  induction hn : (s.rest symbols).length using Nat.strongRecOn generalizing s env with
  | ind n ih =>
    by_cases hrest : s.rest symbols = []
    · exact ⟨0, Nat.zero_le _, hrest⟩
    · obtain ⟨u, hu, hmove⟩ := hfed 0
      rw [Nat.zero_add] at hmove
      obtain ⟨v, hv, hlt⟩ := progress (d := k - 1) hmoves hk hpos hdepth ⟨u, by omega, hmove⟩ hrest
      obtain ⟨t, ht, hdone⟩ := ih _ (hn ▸ hlt) (fun t => hmoves (v + t))
        (fun t => by simpa only [Nat.add_assoc] using hfed (v + t)) rfl
      refine ⟨v + t, ?_, by rw [run_add, hdone]⟩
      have hmul := Nat.mul_le_mul_left (k + 1) (hn ▸ hlt)
      rw [Nat.succ_eq_add_one, Nat.mul_add] at hmul
      omega

theorem empty_stays (h : s.rest symbols = []) (t : Nat) :
    (run symbols depth env s t).rest symbols = [] := by
  induction t with
  | zero => exact h
  | succ t ih =>
    obtain ⟨hrun, hsame⟩ := rest_run_one symbols depth (run symbols depth env s t)
      fun u => hmoves (t + u)
    rw [ih] at hsame
    rw [run_add, hrun]
    rcases tick_rest ((run symbols depth env s t).applyAll depth (env (t + 0))) with
      ⟨a, -, -, hcons⟩ | ⟨-, -, hrest⟩
    · rw [hsame] at hcons
      cases hcons
    · rw [hrest, hsame]

theorem sent_moves (t : Nat) : sent symbols depth env s t = [] := by
  induction t with
  | zero => rfl
  | succ t ih => rw [sent, ih, takesAll_moves (hmoves t), List.append_nil]

end Drain

end Serialiser
