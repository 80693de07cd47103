import Mathlib.Tactic

/-!
# Codes that can be read back

A code writes each value as a text. It is readable before a kind of text if the value and what
follows it can be told apart wherever a text of that kind follows. Readable codes are put one
behind another (`ReadableBefore.pair`), and a sequence of values can be read back from their texts
with nothing between them (`ReadableBefore.flatMap_injective`). Quoted texts are readable before
any text, and texts without a delimiter are before a delimiter.
-/

namespace Readable

variable {α β σ : Type}

def ReadableBefore (Ends : List σ → Prop) (code : α → List σ) : Prop :=
  ∀ a b x y, Ends x → Ends y → code a ++ x = code b ++ y → a = b ∧ x = y

/-- The text is empty or begins with the delimiter. -/
def AtDelim (delim : σ) (x : List σ) : Prop := ∀ c, x.head? = some c → c = delim

variable {Ends : List σ → Prop} {code : α → List σ} {tail : β → List σ} {delim esc : σ}

/-- Two values, one text behind the other: the first can be read before anything. -/
theorem ReadableBefore.pair (h : ReadableBefore (fun _ => True) code)
    (h' : ReadableBefore Ends tail) :
    ReadableBefore Ends fun p : α × β => code p.1 ++ tail p.2 := by
  rintro ⟨a, b⟩ ⟨a', b'⟩ x y hx hy heq
  rw [List.append_assoc, List.append_assoc] at heq
  obtain ⟨rfl, htail⟩ := h _ _ _ _ trivial trivial heq
  obtain ⟨rfl, rfl⟩ := h' _ _ _ _ hx hy htail
  exact ⟨rfl, rfl⟩

/-- **A sequence can be read back**, if each of its texts can be before the next one and before the
end. -/
theorem ReadableBefore.flatMap_injective (h : ReadableBefore Ends code) (hnil : Ends [])
    (hcode : ∀ a x, Ends (code a ++ x)) (hne : ∀ a, code a ≠ []) :
    Function.Injective (List.flatMap code) := by
  -- what is left behind an item can follow one
  have hends : ∀ as, Ends (List.flatMap code as) := by
    intro as
    cases as with
    | nil => exact hnil
    | cons a as => exact hcode a _
  intro as
  induction as with
  | nil =>
    intro bs hbs
    cases bs with
    | nil => rfl
    | cons b bs =>
      have := (List.append_eq_nil_iff.mp hbs.symm).1
      exact absurd this (hne b)
  | cons a as ih =>
    intro bs hbs
    cases bs with
    | nil =>
      have := (List.append_eq_nil_iff.mp hbs).1
      exact absurd this (hne a)
    | cons b bs =>
      obtain ⟨rfl, hrest⟩ := h a b _ _ (hends as) (hends bs) hbs
      rw [ih hrest]

/-! ## Delimited texts -/

/-- Texts without the delimiter end where it stands. -/
theorem readableBefore_of_not_mem (hcode : Function.Injective code) (hdelim : ∀ a, delim ∉ code a) :
    ReadableBefore (AtDelim delim) code := by
  -- the text is what stands in front of the first delimiter
  have hfront : ∀ (s t x y : List σ), delim ∉ s → delim ∉ t → AtDelim delim x → AtDelim delim y →
      s ++ x = t ++ y → s = t ∧ x = y := by
    intro s
    induction s with
    | nil =>
      intro t x y _ ht hx _ heq
      cases t with
      | nil => exact ⟨rfl, heq⟩
      | cons c t =>
        rw [List.nil_append, List.cons_append] at heq
        have hc := hx c (by rw [heq, List.head?_cons])
        exact absurd (hc ▸ List.mem_cons_self) ht
    | cons c s ih =>
      intro t x y hs ht hx hy heq
      cases t with
      | nil =>
        rw [List.nil_append, List.cons_append] at heq
        have hc := hy c (by rw [← heq, List.head?_cons])
        exact absurd (hc ▸ List.mem_cons_self) hs
      | cons c' t =>
        rw [List.cons_append, List.cons_append, List.cons.injEq] at heq
        obtain ⟨rfl, heq⟩ := heq
        obtain ⟨rfl, rfl⟩ := ih t x y (fun h => hs (List.mem_cons_of_mem _ h))
          (fun h => ht (List.mem_cons_of_mem _ h)) hx hy heq
        exact ⟨rfl, rfl⟩
  intro a b x y hx hy heq
  obtain ⟨htext, hrest⟩ := hfront _ _ _ _ (hdelim a) (hdelim b) hx hy heq
  exact ⟨hcode htext, hrest⟩

/-! ## Quoted texts -/

section Quoted

variable [DecidableEq σ]

/-- The delimiter and the escape are escaped. -/
def escaped (delim esc : σ) : List σ → List σ
  | [] => []
  | c :: s =>
    if c = delim ∨ c = esc then esc :: c :: escaped delim esc s else c :: escaped delim esc s

def quoted (delim esc : σ) (s : List σ) : List σ := delim :: (escaped delim esc s ++ [delim])

theorem escaped_cons (delim esc c : σ) (s : List σ) :
    escaped delim esc (c :: s) =
      (if c = delim ∨ c = esc then [esc, c] else [c]) ++ escaped delim esc s := by
  rw [escaped]
  split <;> rfl

/-- A quoted text ends at its quote, whatever follows. -/
theorem readableBefore_quoted (hesc : esc ≠ delim) :
    ReadableBefore (fun _ => True) (quoted delim esc) := by
  -- the first quote that is not escaped ends the text
  have hbody : ∀ (s t x y : List σ),
      escaped delim esc s ++ delim :: x = escaped delim esc t ++ delim :: y → s = t ∧ x = y := by
    intro s
    induction s with
    | nil =>
      intro t x y heq
      cases t with
      | nil => exact ⟨rfl, (List.cons.inj heq).2⟩
      | cons c t =>
        rw [escaped_cons] at heq
        split at heq
        · exact absurd (List.cons.inj heq).1.symm hesc
        · next hc => exact absurd (Or.inl (List.cons.inj heq).1.symm) hc
    | cons c s ih =>
      intro t x y heq
      cases t with
      | nil =>
        rw [escaped_cons] at heq
        split at heq
        · exact absurd (List.cons.inj heq).1 hesc
        · next hc => exact absurd (Or.inl (List.cons.inj heq).1) hc
      | cons c' t =>
        rw [escaped_cons, escaped_cons, List.append_assoc, List.append_assoc] at heq
        have hchars : c = c' ∧
            escaped delim esc s ++ delim :: x = escaped delim esc t ++ delim :: y := by
          split at heq
          · split at heq
            · simpa using heq
            · next hc' => exact absurd (Or.inr (List.cons.inj heq).1.symm) hc'
          · next hc =>
            split at heq
            · exact absurd (Or.inr (List.cons.inj heq).1) hc
            · exact List.cons.inj heq
        obtain ⟨rfl, hrest⟩ := hchars
        obtain ⟨rfl, rfl⟩ := ih t x y hrest
        exact ⟨rfl, rfl⟩
  intro s t x y _ _ heq
  refine hbody s t x y ?_
  simpa [quoted] using heq

end Quoted

end Readable
