import Mathlib.Tactic

/-!
# The first match of a search whose test can throw

`List.findM?` stops at the first value that a test accepts, and at the first one where the test
throws. It finds the first value with a property exactly if the test decides the property at every
value up to that one (`findM?_isFirst_iff`).
-/

namespace FirstMatch

variable {α ε : Type}

/-- The first value with the property, if there is one. -/
def IsFirst (P : α → Prop) (xs : List α) : Option α → Prop
  | some x => ∃ pre post, xs = pre ++ x :: post ∧ (∀ y ∈ pre, ¬ P y) ∧ P x
  | none => ∀ x ∈ xs, ¬ P x

/-- The test answers here, and its answer is the property. -/
def Decides (test : α → Except ε Bool) (P : α → Prop) (x : α) : Prop :=
  ∃ b, test x = .ok b ∧ (b = true ↔ P x)

/-- A value with the property in front is the first one. -/
theorem isFirst_cons_of_pos {P : α → Prop} {x : α} (h : P x) (xs : List α) (r : Option α) :
    IsFirst P (x :: xs) r ↔ r = some x := by
  constructor
  · intro hr
    cases r with
    | none => exact absurd h (hr x (List.mem_cons_self ..))
    | some y =>
      obtain ⟨pre, post, heq, hpre, -⟩ := hr
      cases pre with
      | nil => rw [(List.cons.inj heq).1]
      | cons z pre =>
        obtain ⟨rfl, -⟩ := List.cons.inj heq
        exact absurd h (hpre x (List.mem_cons_self ..))
  · rintro rfl
    exact ⟨[], xs, rfl, by simp, h⟩

/-- A value without it in front does not count. -/
theorem isFirst_cons_of_neg {P : α → Prop} {x : α} (h : ¬ P x) (xs : List α) (r : Option α) :
    IsFirst P (x :: xs) r ↔ IsFirst P xs r := by
  cases r with
  | none => simp [IsFirst, h]
  | some y =>
    constructor
    · rintro ⟨pre, post, heq, hpre, hy⟩
      cases pre with
      | nil =>
        obtain ⟨rfl, -⟩ := List.cons.inj heq
        exact absurd hy h
      | cons z pre =>
        exact ⟨pre, post, (List.cons.inj heq).2, fun w hw => hpre w (List.mem_cons_of_mem _ hw), hy⟩
    · rintro ⟨pre, post, rfl, hpre, hy⟩
      exact ⟨x :: pre, post, rfl, List.forall_mem_cons.mpr ⟨h, hpre⟩, hy⟩

theorem findM?_of_true {test : α → Except ε Bool} {x : α} (h : test x = .ok true) (xs : List α) :
    (x :: xs).findM? test = .ok (some x) := by
  rw [List.findM?, h]
  rfl

theorem findM?_of_false {test : α → Except ε Bool} {x : α} (h : test x = .ok false) (xs : List α) :
    (x :: xs).findM? test = xs.findM? test := by
  rw [List.findM?, h]
  rfl

theorem findM?_of_error {test : α → Except ε Bool} {x : α} {e : ε} (h : test x = .error e)
    (xs : List α) : (x :: xs).findM? test = .error e := by
  rw [List.findM?, h]
  rfl

/-- What is found was accepted. -/
theorem findM?_accepts {test : α → Except ε Bool} {xs : List α} {x : α}
    (h : xs.findM? test = .ok (some x)) : test x = .ok true := by
  induction xs with
  | nil => cases h
  | cons y xs ih =>
    cases hy : test y with
    | error e =>
      rw [findM?_of_error hy] at h
      cases h
    | ok b =>
      cases b with
      | true =>
        rw [findM?_of_true hy] at h
        obtain rfl := Option.some.inj (Except.ok.inj h)
        exact hy
      | false =>
        rw [findM?_of_false hy] at h
        exact ih h

/-- The values that a search comes to: those with no match before them. -/
theorem forall_reached_cons {P Q : α → Prop} {x : α} (xs : List α) :
    (∀ pre y post, x :: xs = pre ++ y :: post → (∀ z ∈ pre, ¬ P z) → Q y) ↔
      Q x ∧ (¬ P x → ∀ pre y post, xs = pre ++ y :: post → (∀ z ∈ pre, ¬ P z) → Q y) := by
  constructor
  · intro h
    refine ⟨h [] x xs rfl (by simp), fun hx pre y post heq hpre => ?_⟩
    exact h (x :: pre) y post (by rw [heq]; rfl) (List.forall_mem_cons.mpr ⟨hx, hpre⟩)
  · rintro ⟨hx, hrest⟩ pre y post heq hpre
    cases pre with
    | nil =>
      obtain ⟨rfl, -⟩ := List.cons.inj heq
      exact hx
    | cons z pre =>
      obtain ⟨rfl, heq'⟩ := List.cons.inj heq
      obtain ⟨hz, hpre'⟩ := List.forall_mem_cons.mp hpre
      exact hrest hz pre y post heq' hpre'

/-- **The search rule.** The search finds the first value with the property exactly if the test
decides the property wherever the search comes. -/
theorem findM?_isFirst_iff (test : α → Except ε Bool) (P : α → Prop) (xs : List α) :
    (∃ r, xs.findM? test = .ok r ∧ IsFirst P xs r) ↔
      ∀ pre x post, xs = pre ++ x :: post → (∀ y ∈ pre, ¬ P y) → Decides test P x := by
  induction xs with
  | nil =>
    refine iff_of_true ⟨none, rfl, by simp [IsFirst]⟩ ?_
    intro pre x post heq
    simp at heq
  | cons x xs ih =>
    -- the test is asked at the head in any case, behind it only if the head has not the property
    rw [forall_reached_cons]
    cases hx : test x with
    | error e =>
      rw [findM?_of_error hx]
      refine iff_of_false (by simp) ?_
      rintro ⟨⟨b, hb, -⟩, -⟩
      rw [hx] at hb
      cases hb
    | ok b =>
      have hdec : Decides test P x ↔ (b = true ↔ P x) := by simp [Decides, hx]
      rw [hdec]
      by_cases hP : P x
      · simp only [isFirst_cons_of_pos hP, exists_eq_right, hP, iff_true, not_true_eq_false,
          false_implies, and_true]
        constructor
        · intro h
          have := findM?_accepts h
          rw [hx] at this
          exact Except.ok.inj this
        · rintro rfl
          exact findM?_of_true hx xs
      · simp only [isFirst_cons_of_neg hP]
        cases b with
        | true =>
          -- what was found has not the property
          rw [findM?_of_true hx]
          refine iff_of_false ?_ (by simp [hP])
          rintro ⟨r, hr, hfirst⟩
          obtain rfl := Except.ok.inj hr
          obtain ⟨-, -, -, -, hPx⟩ := hfirst
          exact hP hPx
        | false =>
          rw [findM?_of_false hx, ih]
          simp [hP]

end FirstMatch
