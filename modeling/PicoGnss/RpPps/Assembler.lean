import Mathlib.Data.List.Induction
import PicoGnss.Lib.Mealy

namespace PicoGnss
set_option autoImplicit true

/-- A vector of fixed capacity, as `heapless::Vec`. -/
structure BoundedVec (α : Type u) (n : Nat) where
  toList : List α
  fits : toList.length ≤ n

def BoundedVec.empty : BoundedVec α n := ⟨[], Nat.zero_le n⟩

def BoundedVec.push (v : BoundedVec α n) (a : α) : Option (BoundedVec α n) :=
  if h : v.toList.length < n then
    some ⟨v.toList ++ [a], by rw [List.length_append]; exact h⟩
  else none

theorem BoundedVec.push_eq_some (v : BoundedVec α n) (a : α) (h : v.push a = some w) :
    w.toList = v.toList ++ [a] := by
  unfold BoundedVec.push at h
  split at h
  · cases h; rfl
  · cases h

theorem BoundedVec.push_eq_none (v : BoundedVec α n) (a : α) (h : v.push a = none) :
    v.toList.length = n := by
  unfold BoundedVec.push at h
  have hv := v.fits
  split at h
  · cases h
  · omega

def maxSentenceLen : Nat := 82

structure NmeaLineAssembler where
  buf : BoundedVec UInt8 maxSentenceLen
  inSentence : Bool

def dollar : UInt8 := 0x24
def carriageReturn : UInt8 := 0x0D
def lineFeed : UInt8 := 0x0A

namespace NmeaLineAssembler

def new : NmeaLineAssembler := ⟨.empty, false⟩

def push (a : NmeaLineAssembler) (byte : UInt8) : Option (List UInt8) × NmeaLineAssembler :=
  if byte = dollar then
    (none, ⟨⟨[dollar], by decide⟩, true⟩)
  else if byte = carriageReturn ∨ byte = lineFeed then
    if a.inSentence ∧ 1 < a.buf.toList.length then
      (some a.buf.toList, { a with inSentence := false })
    else (none, { a with inSentence := false })
  else if a.inSentence then
    match a.buf.push byte with
    | some buf => (none, { a with buf := buf })
    | none => (none, ⟨.empty, false⟩)
  else (none, a)

end NmeaLineAssembler

/-- A byte that neither starts nor ends a sentence. -/
def Plain (b : UInt8) : Prop := b ≠ dollar ∧ b ≠ carriageReturn ∧ b ≠ lineFeed

instance : DecidablePred Plain := fun b => by unfold Plain; infer_instance

def Terminator (b : UInt8) : Prop := b = carriageReturn ∨ b = lineFeed

theorem Terminator.not_plain (h : Terminator b) : ¬ Plain b := by
  rintro ⟨_, hc, hl⟩
  exact h.elim hc hl

theorem Terminator.ne_dollar (h : Terminator b) : b ≠ dollar := by
  rintro rfl
  exact absurd h (by unfold Terminator; decide)

/-- The history ends in an open sentence with the given bytes after its `$`. -/
def Open (history body : List UInt8) : Prop :=
  (∃ pre, history = pre ++ dollar :: body) ∧ ∀ b ∈ body, Plain b

theorem Open.unique (h : Open history body) (h' : Open history body') : body = body' := by
  obtain ⟨⟨pre, rfl⟩, hb⟩ := h
  obtain ⟨⟨pre', he⟩, hb'⟩ := h'
  have hd (hp : ∀ b ∈ body, Plain b) : dollar ∉ body := fun hm => (hp _ hm).1 rfl
  have hd' : dollar ∉ body' := fun hm => (hb' _ hm).1 rfl
  rcases List.append_eq_append_iff.1 he with ⟨as, _, hs⟩ | ⟨as, _, hs⟩
  · cases as with
    | nil => simpa using hs
    | cons a as =>
      simp only [List.cons_append, List.cons.injEq] at hs
      exact absurd (by rw [hs.2]; simp) (hd hb)
  · cases as with
    | nil => simpa using hs.symm
    | cons a as =>
      simp only [List.cons_append, List.cons.injEq] at hs
      exact absurd (by rw [hs.2]; simp) hd'

theorem Open.start (history : List UInt8) : Open (history ++ [dollar]) [] :=
  ⟨⟨history, rfl⟩, by simp⟩

theorem Open.extend (h : Open history body) (hb : Plain b) :
    Open (history ++ [b]) (body ++ [b]) := by
  obtain ⟨⟨pre, rfl⟩, hp⟩ := h
  refine ⟨⟨pre, by simp⟩, ?_⟩
  intro x hx
  rcases List.mem_append.1 hx with hx | hx
  · exact hp x hx
  · rw [List.mem_singleton.1 hx]
    exact hb

/-- An open sentence is empty right after its `$` and otherwise ends in the last byte. -/
theorem Open.concat_inv (h : Open (history ++ [b]) body) :
    (b = dollar ∧ body = []) ∨
      ∃ body', body = body' ++ [b] ∧ Plain b ∧ Open history body' := by
  obtain ⟨⟨pre, he⟩, hp⟩ := h
  rcases List.eq_nil_or_concat body with rfl | ⟨body', x, rfl⟩
  · have := List.append_inj' he rfl
    simp only [List.cons.injEq, and_true] at this
    exact .inl ⟨this.2, rfl⟩
  · rw [List.concat_eq_append] at he hp ⊢
    rw [← List.cons_append, ← List.append_assoc] at he
    obtain ⟨hh, hx⟩ := List.append_inj' he rfl
    simp only [List.cons.injEq, and_true] at hx
    subst hx
    exact .inr ⟨body', rfl, hp b (by simp), ⟨pre, hh⟩, fun x hx => hp x (by simp [hx])⟩

/-- What the assembler's state says about the bytes it has been fed. -/
def Tracks (a : NmeaLineAssembler) (history : List UInt8) : Prop :=
  if a.inSentence then ∃ body, Open history body ∧ a.buf.toList = dollar :: body
  else ∀ body, Open history body → 82 ≤ body.length

theorem Tracks.new : Tracks .new [] := by
  intro body h
  obtain ⟨⟨pre, he⟩, _⟩ := h
  simp at he

theorem Terminator.closes (ht : Terminator b) : ¬ Open (history ++ [b]) body := by
  intro ho
  rcases ho.concat_inv with ⟨hd, _⟩ | ⟨_, _, hp, _⟩
  · exact ht.ne_dollar hd
  · exact ht.not_plain hp

theorem Tracks.push (h : Tracks a history) (b : UInt8) :
    Tracks (a.push b).2 (history ++ [b]) := by
  unfold NmeaLineAssembler.push
  split_ifs with hd ht hs hs
  · subst hd
    exact ⟨[], .start history, rfl⟩
  · intro body ho
    exact (Terminator.closes ht ho).elim
  · intro body ho
    exact (Terminator.closes ht ho).elim
  · have hb : Plain b := ⟨hd, not_or.1 ht⟩
    rw [Tracks, if_pos hs] at h
    obtain ⟨body, ho, hbuf⟩ := h
    cases hpush : a.buf.push b with
    | some buf =>
      simp only [Tracks, if_pos hs]
      exact ⟨body ++ [b], ho.extend hb, by rw [BoundedVec.push_eq_some _ b hpush, hbuf]; rfl⟩
    | none =>
      -- the buffer holds 82 bytes, so this is the 82nd byte after the `$`
      intro body' ho'
      have hlen := BoundedVec.push_eq_none _ b hpush
      rw [hbuf, List.length_cons] at hlen
      rw [← (ho.extend hb).unique ho', List.length_append, List.length_singleton]
      exact Nat.le_of_eq hlen.symm
  · have hb : Plain b := ⟨hd, not_or.1 ht⟩
    simp only [Tracks, hs] at h ⊢
    intro body ho
    rcases ho.concat_inv with ⟨hd', _⟩ | ⟨body', rfl, _, ho'⟩
    · exact absurd hd' hd
    · have := h body' ho'
      rw [List.length_append]
      omega

theorem tracks_run (history : List UInt8) :
    Tracks (Mealy.final NmeaLineAssembler.push .new history) history := by
  induction history using List.reverseRecOn with
  | nil => exact Tracks.new
  | append_singleton history b ih =>
    rw [Mealy.final_concat]
    exact ih.push b

/-- The sentence that a terminator completes after `history`. -/
theorem push_terminator (ht : Terminator b) (h : Tracks a history) (line : List UInt8) :
    (a.push b).1 = some line ↔
      ∃ body, Open history body ∧ 1 ≤ body.length ∧ body.length ≤ 81 ∧
        line = dollar :: body := by
  have hd := ht.ne_dollar
  have hfits := a.buf.fits
  simp only [NmeaLineAssembler.push, if_neg hd, if_pos (show b = _ ∨ b = _ from ht)]
  cases hs : a.inSentence with
  | true =>
    rw [Tracks, if_pos hs] at h
    obtain ⟨body, ho, hbuf⟩ := h
    rw [hbuf, List.length_cons, maxSentenceLen] at hfits
    constructor
    · intro he
      split at he
      · rename_i hlen
        rw [hbuf] at he hlen
        rw [List.length_cons] at hlen
        exact ⟨body, ho, by omega, by omega, (Option.some.inj he).symm⟩
      · cases he
    · rintro ⟨body', ho', hlo, hhi, rfl⟩
      rw [← ho.unique ho', if_pos ⟨rfl, by rw [hbuf, List.length_cons, ho.unique ho']; omega⟩, hbuf]
  | false =>
    rw [Tracks, hs] at h
    constructor
    · intro he
      simp at he
    · rintro ⟨body, ho, _, hhi, _⟩
      have := h body ho
      omega

theorem push_silent (ht : ¬ Terminator b) (a : NmeaLineAssembler) : (a.push b).1 = none := by
  simp only [NmeaLineAssembler.push, if_neg (show ¬ (b = _ ∨ b = _) from ht)]
  split_ifs
  · rfl
  · cases a.buf.push b <;> rfl
  · rfl

theorem outputs_silent (a : NmeaLineAssembler) (bytes : List UInt8)
    (h : ∀ b ∈ bytes, ¬ Terminator b) :
    Mealy.outputs NmeaLineAssembler.push a bytes = List.replicate bytes.length none := by
  induction bytes generalizing a with
  | nil => rfl
  | cons b bytes ih =>
    rw [Mealy.outputs_cons, push_silent (h b (List.mem_cons_self ..)),
      ih _ fun x hx => h x (List.mem_cons_of_mem b hx)]
    rfl

theorem outputs_after_terminator (ht : Terminator t) (hist : Tracks a (history ++ [t]))
    (rest : List UInt8) (hrest : ∀ b ∈ rest, Terminator b) :
    Mealy.outputs NmeaLineAssembler.push a rest = List.replicate rest.length none := by
  induction rest generalizing a history t with
  | nil => rfl
  | cons b rest ih =>
    have hb := hrest b (List.mem_cons_self ..)
    have hnone : (a.push b).1 = none := by
      by_contra hsome
      obtain ⟨line, hline⟩ := Option.ne_none_iff_exists'.1 hsome
      obtain ⟨body, ho, _⟩ := (push_terminator hb hist line).1 hline
      exact ht.closes ho
    rw [Mealy.outputs_cons, hnone,
      ih hb (hist.push b) fun x hx => hrest x (List.mem_cons_of_mem b hx)]
    rfl

/-- The bytes of one sentence after any history answer nothing until the terminator, which
answers the sentence; further terminators answer nothing. -/
theorem outputs_sentence (history : List UInt8) (hb : ∀ b ∈ body, Plain b)
    (hlo : 1 ≤ body.length) (hhi : body.length ≤ 81) (ht : Terminator t)
    (hrest : ∀ b ∈ rest, Terminator b) :
    Mealy.outputs NmeaLineAssembler.push (Mealy.final NmeaLineAssembler.push .new history)
        (dollar :: body ++ t :: rest) =
      List.replicate (body.length + 1) none ++ some (dollar :: body) ::
        List.replicate rest.length none := by
  have hquiet : ∀ b ∈ dollar :: body, ¬ Terminator b := by
    intro b hmem hterm
    rcases List.mem_cons.1 hmem with rfl | hmem
    · exact hterm.ne_dollar rfl
    · exact hterm.not_plain (hb b hmem)
  have hopen : Open (history ++ dollar :: body) body := ⟨⟨history, rfl⟩, hb⟩
  have htracks := tracks_run (history ++ dollar :: body)
  have hline := (push_terminator ht htracks (dollar :: body)).2 ⟨body, hopen, hlo, hhi, rfl⟩
  rw [Mealy.outputs_append, outputs_silent _ _ hquiet, ← Mealy.final_append,
    Mealy.outputs_cons, hline, outputs_after_terminator ht (htracks.push t) rest hrest,
    List.length_cons]

/-- Framing is the stream specification: a terminator emits exactly the open sentence of 1 to 81
bytes before it, every other byte emits nothing, and so a well-formed sentence is emitted once and
unmodified whatever came before it. -/
theorem push_emits_stream_sentence (history : List UInt8) :
    (∀ b line, ((Mealy.final NmeaLineAssembler.push .new history).push b).1 = some line ↔
      (b = carriageReturn ∨ b = lineFeed) ∧ ∃ pre body, history = pre ++ dollar :: body ∧
        1 ≤ body.length ∧ body.length ≤ 81 ∧
        (∀ x ∈ body, x ≠ dollar ∧ x ≠ carriageReturn ∧ x ≠ lineFeed) ∧
        line = dollar :: body) ∧
    ∀ body t rest, (∀ x ∈ body, x ≠ dollar ∧ x ≠ carriageReturn ∧ x ≠ lineFeed) →
      1 ≤ body.length → body.length ≤ 81 → (t = carriageReturn ∨ t = lineFeed) →
      (∀ x ∈ rest, x = carriageReturn ∨ x = lineFeed) →
      Mealy.outputs NmeaLineAssembler.push (Mealy.final NmeaLineAssembler.push .new history)
          (dollar :: body ++ t :: rest) =
        List.replicate (body.length + 1) none ++ some (dollar :: body) ::
          List.replicate rest.length none := by
  refine ⟨fun b line => ?_, fun body t rest hb hlo hhi ht hrest =>
    outputs_sentence history hb hlo hhi ht hrest⟩
  by_cases ht : Terminator b
  · rw [push_terminator ht (tracks_run history)]
    constructor
    · rintro ⟨body, ⟨⟨pre, he⟩, hp⟩, hlo, hhi, hl⟩
      exact ⟨ht, pre, body, he, hlo, hhi, hp, hl⟩
    · rintro ⟨_, pre, body, he, hlo, hhi, hp, hl⟩
      exact ⟨body, ⟨⟨pre, he⟩, hp⟩, hlo, hhi, hl⟩
  · rw [push_silent ht]
    constructor
    · intro h
      cases h
    · intro h
      exact absurd h.1 ht

/-- `$G` cut off by `$GP` and CR LF. -/
theorem push_emits_resynchronised_sentence :
    Mealy.outputs NmeaLineAssembler.push
        (Mealy.final NmeaLineAssembler.push .new [dollar, 0x47])
        (dollar :: [0x47, 0x50] ++ carriageReturn :: [lineFeed]) =
      [none, none, none, some [dollar, 0x47, 0x50], none] :=
  (push_emits_stream_sentence [dollar, 0x47]).2 [0x47, 0x50] carriageReturn [lineFeed]
    (by decide +kernel) (by decide) (by decide) (.inl rfl) (by decide +kernel)

end PicoGnss
