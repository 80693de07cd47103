import Mathlib.Tactic

/-!
# Recognisers — machines that read one symbol at a time until they know

A recogniser changes its state with each symbol it is given and may give a verdict with it; it
reads no further then. `parse` feeds it a list of symbols and gives back what was not read.

The rules below say how a parse goes on behind a prefix (`parse_append_of_none`,
`parse_append_of_some`), so that pieces can be read like the whole, and what a state that waits for
one symbol (`says_literal`) or collects symbols up to one (`says_span`) accepts.
`verdict_eq_none_iff` says what a recogniser tells early that can be led to its end from every
state.
-/

namespace Recogniser

variable {σ α β : Type}

abbrev Consume (σ α β : Type) := σ → α → σ × Option β

/-- The state behind the last symbol read, the verdict if there is one, and what was not read. -/
structure Parsed (σ α β : Type) where
  state : σ
  verdict : Option β
  rest : List α
deriving DecidableEq, Repr

def parse (consume : Consume σ α β) : σ → List α → Parsed σ α β
  | q, [] => ⟨q, none, []⟩
  | q, a :: s =>
    match consume q a with
    | (q', none) => parse consume q' s
    | (q', some b) => ⟨q', some b, s⟩

variable {consume : Consume σ α β} {q q' : σ} {a : α} {b : β} {s rest : List α}

@[simp] theorem parse_nil : parse consume q [] = ⟨q, none, []⟩ := rfl

theorem parse_cons_none (h : consume q a = (q', none)) :
    parse consume q (a :: s) = parse consume q' s := by
  simp [parse, h]

theorem parse_cons_some (h : consume q a = (q', some b)) :
    parse consume q (a :: s) = ⟨q', some b, s⟩ := by
  simp [parse, h]

/-- **Undecided input can be cut anywhere**: what follows is parsed from the state that was reached.
-/
theorem parse_append_of_none (h : (parse consume q s).verdict = none) (t : List α) :
    parse consume q (s ++ t) = parse consume (parse consume q s).state t := by
  induction s generalizing q with
  | nil => rfl
  | cons a s ih =>
    rcases hc : consume q a with ⟨q', _ | b⟩
    · rw [parse_cons_none hc] at h
      rw [List.cons_append, parse_cons_none hc, parse_cons_none hc, ih h]
    · rw [parse_cons_some hc] at h
      cases h

/-- Once the verdict has fallen, what follows is left over with the rest. -/
theorem parse_append_of_some (h : parse consume q s = ⟨q', some b, rest⟩) (t : List α) :
    parse consume q (s ++ t) = ⟨q', some b, rest ++ t⟩ := by
  induction s generalizing q with
  | nil => cases h
  | cons a s ih =>
    rcases hc : consume q a with ⟨q₁, _ | b₁⟩
    · rw [parse_cons_none hc] at h
      rw [List.cons_append, parse_cons_none hc, ih h]
    · rw [parse_cons_some hc] at h
      cases h
      rw [List.cons_append, parse_cons_some hc]

/-- What every symbol preserves holds behind every input. -/
theorem parse_invariant {P : σ → Prop} (hstep : ∀ q a, P q → P (consume q a).1) (h : P q)
    (s : List α) : P (parse consume q s).state := by
  induction s generalizing q with
  | nil => exact h
  | cons a s ih =>
    have hq := hstep q a h
    rcases hc : consume q a with ⟨q', _ | b⟩
    · rw [hc] at hq
      rw [parse_cons_none hc]
      exact ih hq
    · rw [hc] at hq
      rw [parse_cons_some hc]
      exact hq

/-- Every symbol is read or left. -/
theorem exists_read (h : parse consume q s = ⟨q', some b, rest⟩) :
    ∃ read, s = read ++ rest ∧ parse consume q read = ⟨q', some b, []⟩ := by
  induction s generalizing q with
  | nil => cases h
  | cons a s ih =>
    rcases hc : consume q a with ⟨q₁, _ | b₁⟩
    · rw [parse_cons_none hc] at h
      obtain ⟨read, rfl, hread⟩ := ih h
      exact ⟨a :: read, rfl, by rw [parse_cons_none hc, hread]⟩
    · rw [parse_cons_some hc] at h
      cases h
      exact ⟨[a], rfl, by rw [parse_cons_some hc]⟩

/-! ## What a state accepts

The texts from which a state comes to a verdict, by the kinds of states that parsers are made of:
one symbol, a literal, a span up to a separator. -/

/-- The recogniser gives the verdict `b` in the state `q'` and leaves `rest`. -/
def Says (consume : Consume σ α β) (b : β) (q : σ) (s : List α) (q' : σ) (rest : List α) : Prop :=
  parse consume q s = ⟨q', some b, rest⟩

theorem says_cons_none (h : consume q a = (q', none)) {q'' : σ} :
    Says consume b q (a :: s) q'' rest ↔ Says consume b q' s q'' rest := by
  rw [Says, Says, parse_cons_none h]

/-- A first symbol that is refused rules the other verdict out. -/
theorem not_says_of_no {no : β} (hne : b ≠ no) {x : α} {q' q'' : σ}
    (h : consume q x = (q', some no)) : ¬ Says consume b q (x :: s) q'' rest := by
  intro hs
  rw [Says, parse_cons_some h] at hs
  injection hs with _ hverdict _
  exact hne (Option.some.inj hverdict).symm

/-- A state that waits for one symbol. -/
theorem says_literal [DecidableEq α] {c : α} {no : β} (hne : b ≠ no) {next q'' : σ}
    (h : ∀ x, consume q x = if x = c then (next, none) else (q, some no)) :
    Says consume b q s q'' rest ↔ ∃ t, s = c :: t ∧ Says consume b next t q'' rest := by
  cases s with
  | nil => simp [Says]
  | cons x s =>
    by_cases hx : x = c
    · subst hx
      rw [says_cons_none (by rw [h, if_pos rfl])]
      simp
    · have hno : consume q x = (q, some no) := by rw [h, if_neg hx]
      simp only [List.cons.injEq, hx, false_and, exists_false, iff_false]
      exact not_says_of_no hne hno

/-- A state that collects symbols into what it holds, up to the symbol that ends it. -/
theorem says_span [DecidableEq α] {τ : Type} {c : α} {no : β} (hne : b ≠ no)
    (state next : τ → σ) (bad : α → Bool) (push : τ → α → τ)
    (h : ∀ r x, consume (state r) x =
      if x = c then (next r, none) else if bad x then (state r, some no)
      else (state (push r x), none))
    (r : τ) {q'' : σ} :
    Says consume b (state r) s q'' rest ↔
      ∃ t t', s = t ++ c :: t' ∧ (∀ x ∈ t, x ≠ c ∧ bad x = false) ∧
        Says consume b (next (t.foldl push r)) t' q'' rest := by
  induction s generalizing r with
  | nil => simp [Says]
  | cons x s ih =>
    by_cases hx : x = c
    · subst hx
      rw [says_cons_none (by rw [h, if_pos rfl])]
      constructor
      · exact fun hs => ⟨[], s, rfl, by simp, hs⟩
      · rintro ⟨t, t', heq, ht, hs⟩
        cases t with
        | nil =>
          obtain ⟨-, rfl⟩ := List.cons.inj heq
          exact hs
        | cons y t =>
          obtain ⟨rfl, -⟩ := List.cons.inj heq
          exact absurd rfl (ht x List.mem_cons_self).1
    · cases hbad : bad x with
      -- a bad symbol is the verdict, so that no span can have it
      | true =>
        have hno : consume (state r) x = (state r, some no) := by
          rw [h, if_neg hx, if_pos hbad]
        constructor
        · exact fun hs => absurd hs (not_says_of_no hne hno)
        · rintro ⟨t, t', heq, ht, -⟩
          cases t with
          | nil => exact absurd (List.cons.inj heq).1 hx
          | cons y t =>
            obtain ⟨rfl, -⟩ := List.cons.inj heq
            rw [(ht x List.mem_cons_self).2] at hbad
            cases hbad
      | false =>
        -- any other symbol is pushed, and the span goes on
        rw [says_cons_none (by rw [h, if_neg hx, hbad, if_neg Bool.false_ne_true]), ih]
        constructor
        · rintro ⟨t, t', rfl, ht, hs⟩
          exact ⟨x :: t, t', rfl, List.forall_mem_cons.mpr ⟨⟨hx, hbad⟩, ht⟩, hs⟩
        · rintro ⟨t, t', heq, ht, hs⟩
          cases t with
          | nil => exact absurd (List.cons.inj heq).1 hx
          | cons y t =>
            obtain ⟨rfl, rfl⟩ := List.cons.inj heq
            exact ⟨t, t', rfl, fun z hz => ht z (List.mem_cons_of_mem _ hz), hs⟩

/-- A state that wants a first symbol before it collects as in `says_span`. -/
theorem says_span_ne [DecidableEq α] {τ : Type} {c : α} {no : β} (hne : b ≠ no)
    (start state next : τ → σ) (bad : α → Bool) (push : τ → α → τ) (hc : bad c = true) (r : τ)
    (hstart : ∀ x, consume (start r) x =
      if bad x then (start r, some no) else (state (push r x), none))
    (h : ∀ r x, consume (state r) x =
      if x = c then (next r, none) else if bad x then (state r, some no)
      else (state (push r x), none))
    {q'' : σ} :
    Says consume b (start r) s q'' rest ↔
      ∃ t t', t ≠ [] ∧ s = t ++ c :: t' ∧ (∀ x ∈ t, bad x = false) ∧
        Says consume b (next (t.foldl push r)) t' q'' rest := by
  have hsep : ∀ t : List α, (∀ x ∈ t, bad x = false) → ∀ x ∈ t, x ≠ c ∧ bad x = false := by
    intro t ht x hx
    refine ⟨?_, ht x hx⟩
    rintro rfl
    rw [ht x hx] at hc
    cases hc
  cases s with
  | nil => simp [Says]
  | cons x s =>
    cases hbad : bad x with
    | true =>
      have hno : consume (start r) x = (start r, some no) := by rw [hstart, if_pos hbad]
      constructor
      · exact fun hs => absurd hs (not_says_of_no hne hno)
      · rintro ⟨t, t', ht0, heq, ht, -⟩
        obtain ⟨y, t, rfl⟩ := List.exists_cons_of_ne_nil ht0
        obtain ⟨rfl, -⟩ := List.cons.inj heq
        rw [ht x List.mem_cons_self] at hbad
        cases hbad
    -- behind the first symbol it is a span as any other
    | false =>
      rw [says_cons_none (by rw [hstart, hbad, if_neg Bool.false_ne_true]),
        says_span hne state next bad push h]
      constructor
      · rintro ⟨t, t', rfl, ht, hs⟩
        exact ⟨x :: t, t', List.cons_ne_nil _ _, rfl,
          List.forall_mem_cons.mpr ⟨hbad, fun z hz => (ht z hz).2⟩, hs⟩
      · rintro ⟨t, t', ht0, heq, ht, hs⟩
        obtain ⟨y, t, rfl⟩ := List.exists_cons_of_ne_nil ht0
        obtain ⟨rfl, rfl⟩ := List.cons.inj heq
        exact ⟨t, t', rfl, hsep t fun z hz => ht z (List.mem_cons_of_mem _ hz), hs⟩

/-! ## What is told early

`Accepted` are the texts that lead to `yes` with nothing left. -/

section Early

variable {yes : β} {no : β} {Accepted : List α → Prop}

/-- More is wanted exactly of the beginnings of accepted texts, if every state can be led to
`yes`. -/
theorem verdict_eq_none_iff
    (haccepted : ∀ s, Accepted s ↔ ∃ q', parse consume q s = ⟨q', some yes, []⟩)
    (hclose : ∀ q, ∃ s q', s ≠ [] ∧ parse consume q s = ⟨q', some yes, []⟩) (s : List α) :
    (parse consume q s).verdict = none ↔ ∃ t, t ≠ [] ∧ Accepted (s ++ t) := by
  constructor
  · intro h
    obtain ⟨t, q', hne, ht⟩ := hclose (parse consume q s).state
    exact ⟨t, hne, (haccepted _).mpr ⟨q', by rw [parse_append_of_none h, ht]⟩⟩
  · rintro ⟨t, hne, ht⟩
    obtain ⟨q', hall⟩ := (haccepted _).mp ht
    rcases hp : parse consume q s with ⟨q₁, _ | b, rest⟩
    · rfl
    · -- a verdict behind `s` would leave `t` unread
      rw [parse_append_of_some hp] at hall
      injection hall with _ _ hrest
      exact absurd (List.append_eq_nil_iff.mp hrest).2 hne

/-- The verdict is yes exactly for what begins with something accepted. -/
theorem verdict_eq_yes_iff
    (haccepted : ∀ s, Accepted s ↔ ∃ q', parse consume q s = ⟨q', some yes, []⟩) (s : List α) :
    (parse consume q s).verdict = some yes ↔ ∃ t, Accepted t ∧ t <+: s := by
  constructor
  · intro h
    rcases hp : parse consume q s with ⟨q', v, rest⟩
    rw [hp] at h
    cases h
    obtain ⟨read, rfl, hread⟩ := exists_read hp
    exact ⟨read, (haccepted _).mpr ⟨q', hread⟩, List.prefix_append _ _⟩
  · rintro ⟨t, ht, rest, rfl⟩
    obtain ⟨q', hall⟩ := (haccepted _).mp ht
    rw [parse_append_of_some hall]

end Early

end Recogniser
