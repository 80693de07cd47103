import Mathlib.Tactic

/-!
# Subtrees by position

A type whose values have children, in order, and can be given other children in the same number.
`sub` is the subtree at a position, a list of child indices from the root, and `put` replaces it.
The lemmas say what is read below a position that was replaced, and that what a node is apart from
its children (`top`) changes at no other position.
-/

namespace Subtrees

/-- A type of trees; `κ` is what a node is, its children aside. -/
class Branching (τ : Type) (κ : outParam Type) where
  kids : τ → List τ
  graft : τ → List τ → τ
  top : τ → κ
  kids_graft : ∀ t ts, ts.length = (kids t).length → kids (graft t ts) = ts
  graft_kids : ∀ t, graft t (kids t) = t
  top_graft : ∀ t ts, ts.length = (kids t).length → top (graft t ts) = top t

open Branching

abbrev Position := List Nat

variable {τ κ : Type} [Branching τ κ]

def sub (t : τ) : Position → Option τ
  | [] => some t
  | i :: p => (kids t)[i]?.bind fun c => sub c p

def put (t : τ) : Position → τ → τ
  | [], u => u
  | i :: p, u => graft t ((kids t).modify i fun c => put c p u)

@[simp] theorem sub_nil (t : τ) : sub t [] = some t := rfl

@[simp] theorem put_nil (t u : τ) : put t [] u = u := rfl

theorem sub_cons {t c : τ} {i : Nat} (h : (kids t)[i]? = some c) (p : Position) :
    sub t (i :: p) = sub c p := by
  rw [sub, h]
  rfl

theorem sub_singleton (t : τ) (i : Nat) : sub t [i] = (kids t)[i]? := by
  rw [sub]
  cases (kids t)[i]? with
  | none => rfl
  | some c => rfl

/-- A subtree of a subtree is a subtree at the longer position. -/
theorem sub_append (t : τ) (p q : Position) : sub t (p ++ q) = (sub t p).bind fun s => sub s q := by
  induction p generalizing t with
  | nil => rfl
  | cons i p ih =>
    rw [List.cons_append, sub, sub, Option.bind_assoc]
    congr 1
    funext c
    exact ih c

theorem kids_put (t u : τ) (i : Nat) (p : Position) :
    kids (put t (i :: p) u) = (kids t).modify i fun c => put c p u := by
  rw [put]
  exact kids_graft _ _ (List.length_modify ..)

theorem top_put (t u : τ) (i : Nat) (p : Position) : top (put t (i :: p) u) = top t := by
  rw [put]
  exact top_graft _ _ (List.length_modify ..)

theorem sub_put_cons (t u : τ) (i : Nat) (p q : Position) :
    sub (put t (i :: p) u) (i :: q) = (kids t)[i]?.bind fun c => sub (put c p u) q := by
  rw [sub, kids_put, List.getElem?_modify]
  simp [Option.bind_map]

theorem sub_put_cons_ne (t u : τ) {i j : Nat} (h : i ≠ j) (p q : Position) :
    sub (put t (i :: p) u) (j :: q) = sub t (j :: q) := by
  rw [sub, kids_put, List.getElem?_modify, sub]
  simp [h]

/-- At a position that was replaced, and below it, is what was put there. -/
theorem sub_put_below {t s : τ} {p : Position} (h : sub t p = some s) (u : τ) (q : Position) :
    sub (put t p u) (p ++ q) = sub u q := by
  induction p generalizing t with
  | nil => rfl
  | cons i p ih =>
    obtain ⟨c, hc, hs⟩ := Option.bind_eq_some_iff.mp h
    rw [List.cons_append, sub_put_cons, hc]
    exact ih hs

/-- Replacing a subtree by itself changes nothing. -/
theorem put_self {t s : τ} {p : Position} (h : sub t p = some s) : put t p s = t := by
  induction p generalizing t with
  | nil => exact (Option.some.inj h).symm
  | cons i p ih =>
    obtain ⟨c, hc, hs⟩ := Option.bind_eq_some_iff.mp h
    have hsame : ((kids t).modify i fun c => put c p s) = kids t := by
      apply List.ext_getElem?
      intro j
      rw [List.getElem?_modify]
      by_cases hij : i = j
      · subst hij
        simp [hc, ih hs]
      · simp [hij]
    rw [put, hsame, graft_kids]

/-- **The frame rule.** At every position that is not at or below the one replaced, a node is what
it was. -/
theorem top_sub_put {t u : τ} {p q : Position} (h : ¬ p <+: q) :
    (sub (put t p u) q).map top = (sub t q).map top := by
  induction p generalizing t q with
  | nil => exact absurd (List.nil_prefix) h
  | cons i p ih =>
    -- the root is kept; below it, either the two positions part here or both go on in one child
    cases q with
    | nil =>
      rw [sub_nil, sub_nil, Option.map_some, Option.map_some, top_put]
    | cons j q =>
      by_cases hij : i = j
      · subst hij
        have hpq : ¬ p <+: q := fun hp => h (List.cons_prefix_cons.mpr ⟨rfl, hp⟩)
        rw [sub_put_cons, sub]
        cases (kids t)[i]? with
        | none => rfl
        | some c => exact ih hpq
      · rw [sub_put_cons_ne t u hij]

end Subtrees
