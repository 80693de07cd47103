import Mathlib.Tactic

/-!
# Input streams — bytes, flags, and loops that read until the end

A C++ `istream` over a buffer that delivers finitely many bytes. Behind them the buffer either has
no more, or it throws, which the stream catches: then `badbit` is set and `eofbit` is not. A read
from a stream that is not good takes nothing. `untilEof` is the loop that asks for `eofbit` alone
before every turn.
-/

namespace Streams

/-- A stream and its flags. -/
structure IStream where
  rest : List Char
  /-- what the buffer does once `rest` is used up -/
  throws : Bool
  eofbit : Bool
  failbit : Bool
  badbit : Bool
deriving DecidableEq, Repr

/-- A stream nothing has been read from. -/
def opened (bytes : List Char) (throws : Bool) : IStream :=
  { rest := bytes, throws := throws, eofbit := false, failbit := false, badbit := false }

namespace IStream

def good (s : IStream) : Bool := !(s.eofbit || s.failbit || s.badbit)

def fail (s : IStream) : IStream := { s with failbit := true }

/-- The buffer is asked for a byte behind the last one. -/
def exhaust (s : IStream) : IStream :=
  if s.throws then { s with rest := [], badbit := true } else { s with rest := [], eofbit := true }

/-- `get`: a byte, or none. -/
def get (s : IStream) : Option Char × IStream :=
  if s.good then
    match s.rest with
    | [] => (none, s.exhaust.fail)
    | c :: cs => (some c, { s with rest := cs })
  else (none, s.fail)

/-- `>>` into a string, where `isSpace` are skipped before the word and end it. -/
def word (isSpace : Char → Bool) (s : IStream) : List Char × IStream :=
  if s.good then
    let text := s.rest.dropWhile isSpace
    let behind := text.dropWhile fun c => !isSpace c
    if text = [] then ([], s.exhaust.fail)
    else
      (text.takeWhile fun c => !isSpace c,
        if behind = [] then s.exhaust else { s with rest := behind })
  else ([], s.fail)

end IStream

open IStream

variable {τ ρ : Type} (body : τ → IStream → (τ ⊕ ρ) × IStream) (finish : τ → ρ)

/-- `while (!input->eof())`, at most so many turns: what is returned, or nothing if more turns are
needed. A turn goes on with the variables of the loop or returns. -/
def untilEof : Nat → τ → IStream → Option ρ
  | 0, t, s => if s.eofbit then some (finish t) else none
  | n + 1, t, s =>
    if s.eofbit then some (finish t)
    else
      match body t s with
      | (.inl t', s') => untilEof n t' s'
      | (.inr r, _) => some r

variable {body finish}

theorem untilEof_end {s : IStream} (h : s.eofbit = true) (n : Nat) (t : τ) :
    untilEof body finish n t s = some (finish t) := by
  cases n with
  | zero => exact if_pos h
  | succ n => exact if_pos h

theorem untilEof_next {s s' : IStream} {t t' : τ} (h : s.eofbit = false)
    (hbody : body t s = (.inl t', s')) (n : Nat) :
    untilEof body finish (n + 1) t s = untilEof body finish n t' s' := by
  rw [untilEof, h, hbody]
  rfl

theorem untilEof_return {s s' : IStream} {t : τ} {r : ρ} (h : s.eofbit = false)
    (hbody : body t s = (.inr r, s')) (n : Nat) :
    untilEof body finish (n + 1) t s = some r := by
  rw [untilEof, h, hbody]
  rfl

/-- More turns change nothing for a loop that has returned. -/
theorem untilEof_add {n : Nat} {t : τ} {s : IStream} {r : ρ}
    (h : untilEof body finish n t s = some r) (d : Nat) :
    untilEof body finish (n + d) t s = some r := by
  induction n generalizing t s with
  | zero =>
    cases heof : s.eofbit with
    | true =>
      rw [untilEof_end heof] at h ⊢
      exact h
    | false =>
      rw [untilEof, heof] at h
      cases h
  | succ n ih =>
    rw [Nat.add_right_comm]
    cases heof : s.eofbit with
    | true =>
      rw [untilEof_end heof] at h ⊢
      exact h
    | false =>
      rcases hbody : body t s with ⟨t' | r', s'⟩
      · rw [untilEof_next heof hbody] at h ⊢
        exact ih h
      · rw [untilEof_return heof hbody] at h ⊢
        exact h

/-- **A loop that never ends.** What keeps `eofbit` unset and survives every turn keeps the loop
going. -/
theorem untilEof_none {I : τ → IStream → Prop}
    (hI : ∀ t s, I t s → s.eofbit = false ∧ ∃ t' s', body t s = (.inl t', s') ∧ I t' s') (n : Nat)
    {t : τ} {s : IStream} (h : I t s) : untilEof body finish n t s = none := by
  induction n generalizing t s with
  | zero =>
    rw [untilEof, (hI t s h).1]
    rfl
  | succ n ih =>
    obtain ⟨heof, t', s', hbody, h'⟩ := hI t s h
    rw [untilEof_next heof hbody]
    exact ih h'

/-! ## Reads -/

theorem good_opened (bytes : List Char) (throws : Bool) : (opened bytes throws).good = true := rfl

/-- At the end of what a buffer has, a read sets `eofbit`. -/
theorem exhaust_eofbit {s : IStream} (h : s.throws = false) : s.exhaust.eofbit = true := by
  rw [exhaust, h]
  rfl

/-- The stream is over a buffer that throws, and no read has met its end in another way. -/
structure Breaking (s : IStream) : Prop where
  throws : s.throws = true
  eofbit : s.eofbit = false

theorem breaking_opened (bytes : List Char) : Breaking (opened bytes true) where
  throws := rfl
  eofbit := rfl

theorem Breaking.fail {s : IStream} (h : Breaking s) : Breaking s.fail := ⟨h.throws, h.eofbit⟩

theorem Breaking.exhaust {s : IStream} (h : Breaking s) : Breaking s.exhaust := by
  unfold IStream.exhaust
  rw [if_pos h.throws]
  exact ⟨h.throws, h.eofbit⟩

theorem good_fail (s : IStream) : s.fail.good = false := by
  simp [good, IStream.fail]

/-- **One `get`**: it takes the next character, or fails at the end or because the stream is not
good. -/
theorem get_cases (s : IStream) :
    (s.good = true ∧ ∃ c cs, s.rest = c :: cs ∧ s.get = (some c, { s with rest := cs })) ∨
      s.get = (none, s.exhaust.fail) ∨ s.get = (none, s.fail) := by
  cases hgood : s.good with
  | true =>
    cases hrest : s.rest with
    | nil =>
      refine Or.inr (Or.inl ?_)
      simp only [IStream.get, hgood, hrest, if_true]
    | cons c cs =>
      refine Or.inl ⟨rfl, c, cs, rfl, ?_⟩
      simp only [IStream.get, hgood, hrest, if_true]
  | false =>
    refine Or.inr (Or.inr ?_)
    simp only [IStream.get, hgood, Bool.false_eq_true, if_false]

/-- A read that yields no byte leaves a stream that is not good. -/
theorem good_of_get_none {s : IStream} (h : s.get.1 = none) : s.get.2.good = false := by
  rcases get_cases s with ⟨-, c, cs, -, hget⟩ | hget | hget
  · rw [hget] at h
    cases h
  · rw [hget]
    exact good_fail _
  · rw [hget]
    exact good_fail _

/-- A read that yields a byte takes it from a good stream. -/
theorem get_some {s : IStream} {c : Char} (h : s.get.1 = some c) :
    s.good = true ∧ s.rest = c :: s.get.2.rest := by
  rcases get_cases s with ⟨hgood, c', cs, hrest, hget⟩ | hget | hget
  · rw [hget] at h ⊢
    obtain rfl := Option.some.inj h
    exact ⟨hgood, hrest⟩
  · rw [hget] at h
    cases h
  · rw [hget] at h
    cases h

/-- No read makes a breaking stream one that has ended. -/
theorem Breaking.get {s : IStream} (h : Breaking s) : Breaking s.get.2 := by
  rcases get_cases s with ⟨-, c, cs, -, hget⟩ | hget | hget
  · rw [hget]
    exact ⟨h.throws, h.eofbit⟩
  · rw [hget]
    exact h.exhaust.fail
  · rw [hget]
    exact h.fail

/-- Reading a word keeps a stream one that throws at its end. -/
theorem Breaking.word {s : IStream} (h : Breaking s) (isSpace : Char → Bool) :
    Breaking (s.word isSpace).2 := by
  unfold IStream.word
  split
  · simp only
    split
    · exact h.exhaust.fail
    · simp only
      split
      · exact h.exhaust
      · exact ⟨h.throws, h.eofbit⟩
  · exact h.fail

end Streams
