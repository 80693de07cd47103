import Mathlib.Tactic

/-!
# Parsers with actions

Backtracking parsers in the style of an expression grammar whose pieces carry semantic actions. An
action is performed when its piece matches; a later backtrack does not undo it. A parser may also
throw. The recursive rules of a grammar and the repetition `many` take fuel; `Fits` says for how
long an input some fuel is enough, and its rules follow the combinators.
-/

namespace ActionParser

/-- How a parser ends: it matches up to some rest, it does not match, it throws, or it has run out
of fuel. -/
inductive Outcome where
  | hit (rest : List Char)
  | miss
  | threw (reason : String)
  | spent
deriving DecidableEq, Repr

variable {α : Type}

/-- The actions performed, and how the parser ends. -/
structure Parsed (α : Type) where
  acts : List α
  outcome : Outcome
deriving DecidableEq, Repr

abbrev Parser (α : Type) := List Char → Parsed α

/-- `p >> q` -/
def seq (p q : Parser α) : Parser α := fun s =>
  match (p s).outcome with
  | .hit rest => ⟨(p s).acts ++ (q rest).acts, (q rest).outcome⟩
  | _ => p s

/-- `p | q` -/
def alt (p q : Parser α) : Parser α := fun s =>
  match (p s).outcome with
  | .miss => ⟨(p s).acts ++ (q s).acts, (q s).outcome⟩
  | _ => p s

/-- `!p` -/
def opt (p : Parser α) : Parser α := fun s =>
  match (p s).outcome with
  | .miss => ⟨(p s).acts, .hit s⟩
  | _ => p s

/-- Nothing, with no fuel left. -/
def spent : Parser α := fun _ => ⟨[], .spent⟩

/-- `*p` -/
def many (p : Parser α) : Nat → Parser α
  | 0 => spent
  | n + 1 => fun s =>
    match (p s).outcome with
    | .hit rest => ⟨(p s).acts ++ (many p n rest).acts, (many p n rest).outcome⟩
    | .miss => ⟨(p s).acts, .hit s⟩
    | _ => p s

/-- A piece that matches with these actions or does not match. -/
def piece (read : List Char → Option (List α × List Char)) : Parser α := fun s =>
  match read s with
  | some (acts, rest) => ⟨acts, .hit rest⟩
  | none => ⟨[], .miss⟩

/-- `eps_p[throw]` -/
def throws (reason : String) : Parser α := fun _ => ⟨[], .threw reason⟩

/-! ## What is left of the input

Termination of a recursive grammar: a parser leaves no more than there was, or less. -/

/-- A match leaves no more than there was. -/
def Shrinks (p : Parser α) : Prop := ∀ s rest, (p s).outcome = .hit rest → rest.length ≤ s.length

/-- A match takes something. -/
def Eats (p : Parser α) : Prop := ∀ s rest, (p s).outcome = .hit rest → rest.length < s.length

/-- The fuel is enough for inputs shorter than this. -/
def Fits (n : Nat) (p : Parser α) : Prop := ∀ s, s.length < n → (p s).outcome ≠ .spent

variable {p q : Parser α} {n : Nat}

theorem Eats.shrinks (h : Eats p) : Shrinks p := fun s rest hs => (h s rest hs).le

theorem Fits.mono {m : Nat} (h : Fits n p) (hmn : m ≤ n) : Fits m p :=
  fun s hs => h s (hs.trans_le hmn)

theorem seq_hit {s rest : List Char} (h : (p s).outcome = .hit rest) :
    seq p q s = ⟨(p s).acts ++ (q rest).acts, (q rest).outcome⟩ := by
  rw [seq, h]

/-- If the first parser does not match, the second is not tried. -/
theorem seq_of_not_hit {s : List Char} (h : ∀ rest, (p s).outcome ≠ .hit rest) :
    seq p q s = p s := by
  rw [seq]
  split
  · next rest hs => exact absurd hs (h rest)
  · rfl

theorem alt_miss {s : List Char} (h : (p s).outcome = .miss) :
    alt p q s = ⟨(p s).acts ++ (q s).acts, (q s).outcome⟩ := by
  rw [alt, h]

theorem alt_of_not_miss {s : List Char} (h : (p s).outcome ≠ .miss) : alt p q s = p s := by
  rw [alt]
  split
  · next hs => exact absurd hs h
  · rfl

/-- Two parsers that leave no more than there was, one behind the other. -/
theorem shrinks_seq (hp : Shrinks p) (hq : Shrinks q) : Shrinks (seq p q) := by
  intro s rest h
  cases hs : (p s).outcome with
  | hit r =>
    rw [seq_hit hs] at h
    exact (hq r rest h).trans (hp s r hs)
  | _ =>
    rw [seq_of_not_hit (by simp [hs])] at h
    rw [hs] at h
    cases h

/-- It is enough that the first of two takes something. -/
theorem eats_seq_left (hp : Eats p) (hq : Shrinks q) : Eats (seq p q) := by
  intro s rest h
  cases hs : (p s).outcome with
  | hit r =>
    rw [seq_hit hs] at h
    exact (hq r rest h).trans_lt (hp s r hs)
  | _ =>
    rw [seq_of_not_hit (by simp [hs])] at h
    rw [hs] at h
    cases h

theorem alt_hit {s rest : List Char} (h : (alt p q s).outcome = .hit rest) :
    (p s).outcome = .hit rest ∨ (q s).outcome = .hit rest := by
  by_cases hs : (p s).outcome = .miss
  · rw [alt_miss hs] at h
    exact Or.inr h
  · rw [alt_of_not_miss hs] at h
    exact Or.inl h

theorem shrinks_alt (hp : Shrinks p) (hq : Shrinks q) : Shrinks (alt p q) := by
  intro s rest h
  rcases alt_hit h with h | h
  · exact hp s rest h
  · exact hq s rest h

theorem eats_alt (hp : Eats p) (hq : Eats q) : Eats (alt p q) := by
  intro s rest h
  rcases alt_hit h with h | h
  · exact hp s rest h
  · exact hq s rest h

theorem opt_miss {s : List Char} (h : (p s).outcome = .miss) : opt p s = ⟨(p s).acts, .hit s⟩ := by
  rw [opt, h]

theorem opt_of_not_miss {s : List Char} (h : (p s).outcome ≠ .miss) : opt p s = p s := by
  rw [opt]
  split
  · next hs => exact absurd hs h
  · rfl

/-- What may be missing leaves no more than there was. -/
theorem shrinks_opt (hp : Shrinks p) : Shrinks (opt p) := by
  intro s rest h
  by_cases hs : (p s).outcome = .miss
  · rw [opt_miss hs] at h
    cases h
    exact le_rfl
  · rw [opt_of_not_miss hs] at h
    exact hp s rest h

/-- However often a parser matches, it leaves no more than there was. -/
theorem shrinks_many (hp : Shrinks p) : Shrinks (many p n) := by
  induction n with
  | zero =>
    intro s rest h
    cases h
  | succ n ih =>
    intro s rest h
    simp only [many] at h
    split at h
    · next r hs => exact (ih r rest h).trans (hp s r hs)
    · cases h
      exact le_rfl
    · exact hp s rest h

theorem eats_throws (reason : String) : Eats (throws reason : Parser α) := by
  intro s rest h
  cases h

theorem eats_spent : Eats (spent : Parser α) := by
  intro s rest h
  cases h

/-- A piece takes something if its reader does. -/
theorem eats_piece {read : List Char → Option (List α × List Char)}
    (h : ∀ s acts rest, read s = some (acts, rest) → rest.length < s.length) :
    Eats (piece read) := by
  intro s rest hs
  cases hread : read s with
  | none =>
    rw [piece, hread] at hs
    cases hs
  | some r =>
    obtain ⟨acts, rest'⟩ := r
    rw [piece, hread] at hs
    cases hs
    exact h s acts _ hread

/-! ## Actions

Actions are done as soon as a part matches. A parser is atomic if it does none without a match. -/

/-- The parser matches, or does nothing. -/
def Atomic (p : Parser α) : Prop := ∀ s, (∃ rest, (p s).outcome = .hit rest) ∨ p s = ⟨[], .miss⟩

theorem atomic_piece (read : List Char → Option (List α × List Char)) : Atomic (piece read) := by
  intro s
  rw [piece]
  split
  · next acts rest _ => exact Or.inl ⟨rest, rfl⟩
  · exact Or.inr rfl

/-- A choice of parsers that do nothing without a match does nothing without one. -/
theorem atomic_alt (hp : Atomic p) (hq : Atomic q) : Atomic (alt p q) := by
  intro s
  rcases hp s with ⟨rest, hs⟩ | hs
  · rw [alt_of_not_miss (by simp [hs])]
    exact Or.inl ⟨rest, hs⟩
  · rw [alt_miss (by rw [hs]), hs, List.nil_append]
    exact hq s

/-- What does not match goes on to the next alternative with nothing done. -/
theorem alt_of_atomic (hp : Atomic p) {s : List Char}
    (h : ∀ rest, (alt p q s).outcome ≠ .hit rest) : alt p q s = q s := by
  rcases hp s with ⟨rest, hs⟩ | hs
  · rw [alt_of_not_miss (by simp [hs])] at h
    exact absurd hs (h rest)
  · rw [alt_miss (by rw [hs]), hs, List.nil_append]

/-- The actions of an alternative that was tried come first, whatever comes of it. -/
theorem acts_alt (p q : Parser α) (s : List Char) :
    ∃ acts, (alt p q s).acts = (p s).acts ++ acts := by
  by_cases hs : (p s).outcome = .miss
  · exact ⟨_, by rw [alt_miss hs]⟩
  · exact ⟨[], by rw [alt_of_not_miss hs, List.append_nil]⟩

/-! ## Matches and what they do

The rules for matches that are known: a grammar is followed along a text piece by piece. -/

section Match

variable {s rest rest' : List Char} {as bs : List α}

theorem seq_match (hp : p s = ⟨as, .hit rest⟩) (hq : q rest = ⟨bs, .hit rest'⟩) :
    seq p q s = ⟨as ++ bs, .hit rest'⟩ := by
  rw [seq_hit (by rw [hp]), hp, hq]

theorem alt_match_left (hp : p s = ⟨as, .hit rest⟩) : alt p q s = ⟨as, .hit rest⟩ := by
  rw [alt_of_not_miss (by simp [hp]), hp]

theorem alt_match_right (hp : p s = ⟨[], .miss⟩) : alt p q s = q s := by
  rw [alt_miss (by rw [hp]), hp, List.nil_append]

theorem opt_match (hp : p s = ⟨as, .hit rest⟩) : opt p s = ⟨as, .hit rest⟩ := by
  rw [opt_of_not_miss (by simp [hp]), hp]

theorem opt_none (hp : p s = ⟨[], .miss⟩) : opt p s = ⟨[], .hit s⟩ := by
  rw [opt_miss (by rw [hp]), hp]

theorem seq_none (hp : p s = ⟨[], .miss⟩) : seq p q s = ⟨[], .miss⟩ := by
  rw [seq_of_not_hit (by simp [hp]), hp]

theorem many_none (hp : p s = ⟨[], .miss⟩) (n : Nat) : many p (n + 1) s = ⟨[], .hit s⟩ := by
  simp only [many, hp]

theorem many_match (hp : p s = ⟨as, .hit rest⟩) (hq : many p n rest = ⟨bs, .hit rest'⟩) :
    many p (n + 1) s = ⟨as ++ bs, .hit rest'⟩ := by
  simp only [many, hp, hq]

end Match

/-! ## Fuel -/

theorem fits_piece (read : List Char → Option (List α × List Char)) : Fits n (piece read) := by
  intro s _
  rw [piece]
  split
  · simp
  · simp

theorem fits_throws (reason : String) : Fits n (throws reason : Parser α) := by
  intro s _
  simp [throws]

/-- The fuel of a sequence: the second parser has no more to read than the first. -/
theorem fits_seq (hp : Fits n p) (hshrinks : Shrinks p) (hq : Fits n q) : Fits n (seq p q) := by
  intro s hs
  cases hps : (p s).outcome with
  | hit rest =>
    rw [seq_hit hps]
    exact hq rest ((hshrinks s rest hps).trans_lt hs)
  | _ =>
    rw [seq_of_not_hit (by simp [hps])]
    exact hp s hs

/-- Behind something that is taken one unit less of fuel is enough. -/
theorem fits_seq_eats (hp : Fits (n + 1) p) (heats : Eats p) (hq : Fits n q) :
    Fits (n + 1) (seq p q) := by
  intro s hs
  cases hps : (p s).outcome with
  | hit rest =>
    rw [seq_hit hps]
    exact hq rest ((heats s rest hps).trans_le (Nat.lt_succ_iff.mp hs))
  | _ =>
    rw [seq_of_not_hit (by simp [hps])]
    exact hp s hs

/-- The fuel of a choice, both of whose parsers read the same input. -/
theorem fits_alt (hp : Fits n p) (hq : Fits n q) : Fits n (alt p q) := by
  intro s hs
  by_cases hps : (p s).outcome = .miss
  · rw [alt_miss hps]
    exact hq s hs
  · rw [alt_of_not_miss hps]
    exact hp s hs

theorem fits_opt (hp : Fits n p) : Fits n (opt p) := by
  intro s hs
  by_cases hps : (p s).outcome = .miss
  · simp [opt_miss hps]
  · rw [opt_of_not_miss hps]
    exact hp s hs

/-- The fuel of a repetition: each match takes something, so that it comes to its end. -/
theorem fits_many (hp : Fits n p) (heats : Eats p) : Fits n (many p n) := by
  induction n with
  | zero => exact fun s hs => absurd hs (Nat.not_lt_zero _)
  | succ n ih =>
    intro s hs
    simp only [many]
    split
    -- every round takes something, so the rest fits the fuel that is left
    · next rest hps =>
      exact ih (hp.mono (Nat.le_succ n)) rest
        ((heats s rest hps).trans_le (Nat.lt_succ_iff.mp hs))
    · simp
    · exact hp s hs

end ActionParser
