import Mathlib.Tactic

/-!
# Computations that may throw

When a sequence of computations in `Except` returns: `mapM` exactly if each of them does, with the
values they return (`mapM_eq_ok_iff`), and `foldlM` exactly if each step does, provided that this
does not depend on what is carried along (`returns_foldlM_iff`).
-/

namespace Throwing

variable {ε α β σ : Type}

/-- The computation returns. -/
def Returns (x : Except ε α) : Prop := ∃ a, x = .ok a

theorem returns_ok (a : α) : Returns (.ok a : Except ε α) := ⟨a, rfl⟩

theorem not_returns_error (e : ε) : ¬ Returns (.error e : Except ε α) := by
  rintro ⟨a, h⟩
  cases h

theorem ok_bind (a : α) (f : α → Except ε β) : ((.ok a : Except ε α) >>= f) = f a := rfl

theorem except_map_bind {γ : Type} (x : Except ε α) (f : α → β) (g : β → Except ε γ) :
    (x.map f >>= g) = x >>= fun a => g (f a) := by
  cases x <;> rfl

theorem except_bind_map {γ : Type} (x : Except ε α) (g : α → Except ε β) (f : β → γ) :
    (x >>= g).map f = x >>= fun a => (g a).map f := by
  cases x <;> rfl

theorem except_map_ok (a : α) (f : α → β) : (.ok a : Except ε α).map f = .ok (f a) := rfl

theorem returns_bind_iff {x : Except ε α} {f : α → Except ε β} :
    Returns (x >>= f) ↔ ∃ a, x = .ok a ∧ Returns (f a) := by
  cases x with
  | error e => exact iff_of_false (not_returns_error e) (by rintro ⟨a, h, -⟩; cases h)
  | ok a => exact ⟨fun h => ⟨a, rfl, h⟩, by rintro ⟨a', h, hf⟩; cases h; exact hf⟩

/-- **The rule for `mapM`**: it returns exactly the values that the single computations return. -/
theorem mapM_eq_ok_iff {f : α → Except ε β} {xs : List α} {ys : List β} :
    xs.mapM f = .ok ys ↔ List.Forall₂ (fun x y => f x = .ok y) xs ys := by
  induction xs generalizing ys with
  | nil =>
    rw [List.mapM_nil, List.forall₂_nil_left_iff]
    exact ⟨fun h => (Except.ok.inj h).symm, fun h => h ▸ rfl⟩
  | cons x xs ih =>
    rw [List.mapM_cons, List.forall₂_cons_left_iff]
    cases hx : f x with
    | error e => exact iff_of_false (by rintro ⟨⟩) (by rintro ⟨y, ys', h, -⟩; cases h)
    | ok y =>
      cases hxs : xs.mapM f with
      | error e =>
        refine iff_of_false (by rintro ⟨⟩) ?_
        rintro ⟨y', ys', -, h, -⟩
        rw [ih.mpr h] at hxs
        cases hxs
      | ok ys' =>
        constructor
        · intro h
          exact ⟨y, ys', rfl, ih.mp hxs, (Except.ok.inj h).symm⟩
        · rintro ⟨y', ys'', hy, h, rfl⟩
          rw [ih.mpr h] at hxs
          cases hxs
          cases hy
          rfl

/-- Values that are made of others can be made of them behind the sequence. -/
theorem mapM_eq_map_mapM {γ : Type} {f : α → Except ε γ} {g : α → Except ε β} {h : β → γ}
    (hfg : ∀ x, f x = (g x).map h) (xs : List α) :
    xs.mapM f = (xs.mapM g).map (List.map h) := by
  induction xs with
  | nil => rfl
  | cons x xs ih =>
    rw [List.mapM_cons, List.mapM_cons, hfg, ih]
    cases g x with
    | error e => rfl
    | ok y => cases xs.mapM g <;> rfl

/-- It returns exactly if every one of them does. -/
theorem returns_mapM_iff {f : α → Except ε β} {xs : List α} :
    Returns (xs.mapM f) ↔ ∀ x ∈ xs, Returns (f x) := by
  induction xs with
  | nil => exact iff_of_true ⟨[], rfl⟩ (by simp)
  | cons x xs ih =>
    rw [List.mapM_cons, returns_bind_iff, List.forall_mem_cons, ← ih]
    constructor
    · rintro ⟨y, hy, hrest⟩
      obtain ⟨ys, hys, -⟩ := returns_bind_iff.mp hrest
      exact ⟨⟨y, hy⟩, ys, hys⟩
    · rintro ⟨⟨y, hy⟩, ys, hys⟩
      exact ⟨y, hy, returns_bind_iff.mpr ⟨ys, hys, returns_ok _⟩⟩

/-- **The rule for `foldlM`**, where what is carried along decides nothing: it returns exactly if
every step does. -/
theorem returns_foldlM_iff {f : σ → α → Except ε σ} {P : α → Prop}
    (h : ∀ s a, Returns (f s a) ↔ P a) (xs : List α) (s : σ) :
    Returns (xs.foldlM f s) ↔ ∀ a ∈ xs, P a := by
  induction xs generalizing s with
  | nil => exact iff_of_true ⟨s, rfl⟩ (by simp)
  | cons a xs ih =>
    rw [List.foldlM_cons, returns_bind_iff, List.forall_mem_cons]
    constructor
    · rintro ⟨s', hs, hrest⟩
      exact ⟨(h s a).mp ⟨s', hs⟩, (ih s').mp hrest⟩
    · rintro ⟨ha, hrest⟩
      obtain ⟨s', hs⟩ := (h s a).mpr ha
      exact ⟨s', hs, (ih s').mpr hrest⟩

end Throwing
