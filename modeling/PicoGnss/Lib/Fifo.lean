import PicoGnss.Lib.Mealy

/-! A bounded queue that drops what does not fit, with one reader that takes its turns. -/

namespace Fifo
set_option autoImplicit true

/-- The reader takes the first item, or the writer puts one at the end. -/
inductive Op (α : Type u) where
  | take
  | put (a : α)
deriving DecidableEq

variable {α : Type u} {depth : Nat} {q : List α}

def Op.isTake : Op α → Bool
  | take => true
  | put _ => false

/-- What is taken, `none` from an empty queue; a put takes nothing. -/
def step (depth : Nat) (q : List α) : Op α → List (Option α) × List α
  | .take => ([q.head?], q.tail)
  | .put a => ([], if q.length < depth then q ++ [a] else q)

def final (depth : Nat) (q : List α) (ops : List (Op α)) : List α := Mealy.final (step depth) q ops

/-- What the reader takes, turn by turn. -/
def taken (depth : Nat) (q : List α) (ops : List (Op α)) : List (Option α) :=
  (Mealy.outputs (step depth) q ops).flatten

theorem final_cons (op : Op α) (ops : List (Op α)) :
    final depth q (op :: ops) = final depth (step depth q op).2 ops := rfl

theorem taken_cons (op : Op α) (ops : List (Op α)) :
    taken depth q (op :: ops) = (step depth q op).1 ++ taken depth (step depth q op).2 ops := rfl

theorem final_append (ops ops' : List (Op α)) :
    final depth q (ops ++ ops') = final depth (final depth q ops) ops' :=
  Mealy.final_append _ _ _ _

theorem taken_append (ops ops' : List (Op α)) :
    taken depth q (ops ++ ops') = taken depth q ops ++ taken depth (final depth q ops) ops' := by
  rw [taken, Mealy.outputs_append, List.flatten_append]
  rfl

/-- Something is put between any two turns, and before the first one unless `fed`. -/
def Fed : Bool → List (Op α) → Prop
  | _, [] => True
  | fed, .take :: ops => fed = true ∧ Fed false ops
  | _, .put _ :: ops => Fed true ops

instance decidableFed : (fed : Bool) → (ops : List (Op α)) → Decidable (Fed fed ops)
  | _, [] => isTrue trivial
  | fed, .take :: ops =>
    have := decidableFed false ops
    inferInstanceAs (Decidable (fed = true ∧ Fed false ops))
  | _, .put _ :: ops => decidableFed true ops

/-- Whether something has been put since the last turn. -/
def fedAfter : Bool → List (Op α) → Bool
  | fed, [] => fed
  | _, .take :: ops => fedAfter false ops
  | _, .put _ :: ops => fedAfter true ops

/-- How many items the next turn finds at least. -/
def level (fed : Bool) (q : List α) : Nat := if fed then q.length else q.length + 1

theorem fed_append (fed : Bool) (ops ops' : List (Op α)) :
    Fed fed (ops ++ ops') ↔ Fed fed ops ∧ Fed (fedAfter fed ops) ops' := by
  induction ops generalizing fed with
  | nil => simp only [List.nil_append, Fed, fedAfter, true_and]
  | cons op ops ih =>
    cases op with
    | take => simp only [List.cons_append, Fed, fedAfter, ih, and_assoc]
    | put a => simp only [List.cons_append, Fed, fedAfter, ih]

theorem step_take (depth : Nat) (x : α) (q : List α) :
    step depth (x :: q) .take = ([some x], q) := rfl

theorem step_put (h : q.length < depth) (a : α) : step depth q (.put a) = ([], q ++ [a]) := by
  rw [step, if_pos h]

theorem step_put_full (h : depth ≤ q.length) (a : α) : step depth q (.put a) = ([], q) := by
  rw [step, if_neg (Nat.not_lt.2 h)]

/-- One operation of a fed queue: it never lowers the level. -/
theorem level_step (h : Fed fed (op :: ops)) (hlevel : level fed q ≤ depth)
    (hpos : 1 ≤ level fed q) :
    level fed q ≤ level (fedAfter fed [op]) (step depth q op).2 ∧
      level (fedAfter fed [op]) (step depth q op).2 ≤ depth := by
  cases op with
  | take =>
    obtain ⟨rfl, -⟩ := h
    simp only [level, if_true, fedAfter, step, List.length_tail] at *
    rw [if_neg Bool.false_ne_true]
    omega
  | put a =>
    have hafter : fedAfter fed [Op.put a] = true := rfl
    rw [hafter]
    by_cases hroom : q.length < depth
    · rw [step_put hroom]
      cases fed with
      | true =>
        simp only [level, if_true, List.length_append, List.length_singleton]
        omega
      | false =>
        simp only [level, Bool.false_eq_true, if_false, if_true, List.length_append,
          List.length_singleton]
        omega
    · rw [step_put_full (Nat.le_of_not_lt hroom)]
      cases fed with
      | true => exact ⟨Nat.le_refl _, hlevel⟩
      | false => exact absurd hlevel hroom

/-- The level of a fed queue never falls. -/
theorem level_run (h : Fed fed ops) (hlevel : level fed q ≤ depth) (hpos : 1 ≤ level fed q) :
    level fed q ≤ level (fedAfter fed ops) (final depth q ops) ∧
      level (fedAfter fed ops) (final depth q ops) ≤ depth := by
  induction ops generalizing fed q with
  | nil => exact ⟨Nat.le_refl _, hlevel⟩
  | cons op ops ih =>
    obtain ⟨hmono, hle⟩ := level_step h hlevel hpos
    have hrest : Fed (fedAfter fed [op]) ops := by
      cases op with
      | take => exact h.2
      | put a => exact h
    obtain ⟨hmono', hle'⟩ := ih hrest hle (Nat.le_trans hpos hmono)
    have hafter : fedAfter fed (op :: ops) = fedAfter (fedAfter fed [op]) ops := by
      cases op <;> rfl
    rw [final_cons, hafter]
    exact ⟨Nat.le_trans hmono hmono', hle'⟩

/-- The reader of a fed queue never finds it empty. -/
theorem taken_isSome (h : Fed fed ops) (hlevel : level fed q ≤ depth) (hpos : 1 ≤ level fed q) :
    ∀ o ∈ taken depth q ops, o.isSome = true := by
  induction ops generalizing fed q with
  | nil => exact List.forall_mem_nil _
  | cons op ops ih =>
    obtain ⟨hmono, hle⟩ := level_step h hlevel hpos
    rw [taken_cons]
    cases op with
    | take =>
      obtain ⟨rfl, hrest⟩ := h
      intro o ho
      rcases List.mem_append.1 ho with ho | ho
      · rw [step, List.mem_singleton] at ho
        rw [ho, List.isSome_head?]
        simp only [level, if_true] at hpos
        exact List.ne_nil_of_length_pos hpos
      · exact ih hrest hle (Nat.le_trans hpos hmono) o ho
    | put a => exact ih h hle (Nat.le_trans hpos hmono)

theorem exists_map_some {os : List (Option α)} (h : ∀ o ∈ os, o.isSome = true) :
    ∃ as : List α, os = as.map some := by
  induction os with
  | nil => exact ⟨[], rfl⟩
  | cons o os ih =>
    obtain ⟨a, rfl⟩ := Option.isSome_iff_exists.1 (h o (List.mem_cons_self ..))
    obtain ⟨as, rfl⟩ := ih fun o ho => h o (List.mem_cons_of_mem _ ho)
    exact ⟨a :: as, rfl⟩

/-- What is taken was in the queue or has been put into it. -/
theorem mem_taken {a : α} (h : some a ∈ taken depth q ops) : a ∈ q ∨ .put a ∈ ops := by
  induction ops generalizing q with
  | nil => cases h
  | cons op ops ih =>
    rw [taken_cons] at h
    rcases List.mem_append.1 h with h | h
    · cases op with
      | take =>
        rw [step, List.mem_singleton] at h
        exact .inl (List.mem_of_mem_head? h.symm)
      | put b => cases h
    · rcases ih h with hmem | hmem
      · cases op with
        | take => exact .inl (List.mem_of_mem_tail hmem)
        | put b =>
          rw [step] at hmem
          split at hmem
          · rcases List.mem_append.1 hmem with hmem | hmem
            · exact .inl hmem
            · rw [List.mem_singleton.1 hmem]
              exact .inr (List.mem_cons_self ..)
          · exact .inl hmem
      · exact .inr (List.mem_cons_of_mem _ hmem)

/-- Puts alone fill the queue, and what does not fit is lost. -/
theorem final_puts (h : q.length ≤ depth) (as : List α) :
    final depth q (as.map .put) = (q ++ as).take depth := by
  induction as generalizing q with
  | nil =>
    rw [List.append_nil, List.take_of_length_le h]
    rfl
  | cons a as ih =>
    rw [List.map_cons, final_cons]
    by_cases hroom : q.length < depth
    · rw [step_put hroom, ih (by rw [List.length_append]; exact hroom), List.append_assoc,
        List.singleton_append]
    · have hfull : depth ≤ q.length := Nat.le_of_not_lt hroom
      rw [step_put_full hfull, ih h, List.take_append_of_le_length hfull,
        List.take_append_of_le_length hfull]

theorem fedAfter_append (fed : Bool) (ops ops' : List (Op α)) :
    fedAfter fed (ops ++ ops') = fedAfter (fedAfter fed ops) ops' := by
  induction ops generalizing fed with
  | nil => rfl
  | cons op ops ih =>
    cases op with
    | take => exact ih false
    | put a => exact ih true

theorem fedAfter_puts (fed : Bool) {as : List α} (h : as ≠ []) :
    fedAfter fed (as.map .put) = true := by
  induction as generalizing fed with
  | nil => exact absurd rfl h
  | cons a as ih =>
    cases as with
    | nil => rfl
    | cons b as => exact ih true (List.cons_ne_nil _ _)

theorem length_final_le (h : q.length ≤ depth) (ops : List (Op α)) :
    (final depth q ops).length ≤ depth := by
  induction ops generalizing q with
  | nil => exact h
  | cons op ops ih =>
    rw [final_cons]
    apply ih
    cases op with
    | take => exact Nat.le_trans (by rw [step, List.length_tail]; exact Nat.sub_le _ _) h
    | put a =>
      by_cases hroom : q.length < depth
      · rw [step_put hroom, List.length_append]
        exact hroom
      · rw [step_put_full (Nat.le_of_not_lt hroom)]
        exact h

/-- Once as many puts as the queue is deep came between two turns, it stays as full as it can. -/
theorem level_of_burst {pre post : List (Op α)} {as : List α} (h : q.length ≤ depth)
    (hdepth : 1 ≤ depth) (hlen : depth ≤ as.length)
    (hfed : Fed fed (pre ++ as.map .put ++ post)) :
    level (fedAfter fed (pre ++ as.map .put ++ post))
      (final depth q (pre ++ as.map .put ++ post)) = depth := by
  obtain ⟨-, hpost⟩ := (fed_append fed _ post).1 hfed
  have hne : as ≠ [] := List.ne_nil_of_length_pos (Nat.le_trans hdepth hlen)
  have hafter : fedAfter fed (pre ++ as.map .put) = true := by
    rw [fedAfter_append, fedAfter_puts _ hne]
  have hfull : (final depth q (pre ++ as.map .put)).length = depth := by
    rw [final_append, final_puts (length_final_le h pre), List.length_take, List.length_append]
    omega
  have hlevel : level true (final depth q (pre ++ as.map .put)) = depth := hfull
  rw [hafter] at hpost
  obtain ⟨hmono, hle⟩ := level_run hpost (Nat.le_of_eq hlevel) (by rw [hlevel]; exact hdepth)
  rw [hlevel] at hmono
  rw [fedAfter_append, hafter, final_append]
  exact Nat.le_antisymm hle hmono

/-- Where every turn is followed by one put, what is put is taken as many turns later as there were
items before. -/
theorem taken_turns (h : q.length ≤ depth) (hpos : 1 ≤ q.length) (as : List α) :
    taken depth q (as.flatMap fun a => [.take, .put a]) =
        ((q ++ as).take as.length).map some ∧
      final depth q (as.flatMap fun a => [.take, .put a]) = (q ++ as).drop as.length := by
  induction as generalizing q with
  | nil =>
    rw [List.append_nil]
    exact ⟨rfl, rfl⟩
  | cons a as ih =>
    obtain ⟨x, q, rfl⟩ := List.exists_cons_of_length_pos hpos
    have hroom : q.length < depth := h
    have hlen : (q ++ [a]).length = q.length + 1 := by
      rw [List.length_append, List.length_singleton]
    obtain ⟨htaken, hfinal⟩ :=
      ih (q := q ++ [a]) (by rw [hlen]; exact hroom) (by rw [hlen]; exact Nat.le_add_left 1 _)
    rw [List.append_assoc, List.singleton_append] at htaken hfinal
    rw [List.flatMap_cons, List.cons_append, List.singleton_append, taken_cons, final_cons,
      taken_cons, final_cons, step_take, step_put hroom, htaken, hfinal]
    exact ⟨rfl, rfl⟩

/-- Operations that take and put in turns are the turns of the items they put. -/
theorem exists_turns {ops : List (Op α)}
    (h : ops.map Op.isTake = (List.replicate n [true, false]).flatten) :
    ∃ as : List α, as.length = n ∧ ops = as.flatMap fun a => [.take, .put a] := by
  induction n generalizing ops with
  | zero => exact ⟨[], rfl, List.map_eq_nil_iff.1 h⟩
  | succ n ih =>
    match ops with
    | [] => cases h
    | [.take] => cases h
    | .put _ :: _ => cases h
    | .take :: .take :: _ => cases h
    | .take :: .put a :: ops =>
      obtain ⟨as, hlen, hops⟩ := ih (List.cons.inj (List.cons.inj h).2).2
      refine ⟨a :: as, congrArg (· + 1) hlen, ?_⟩
      rw [hops]
      rfl

end Fifo
