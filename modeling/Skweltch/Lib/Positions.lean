import Mathlib.Data.Set.Card
import Mathlib.Tactic

/-!
# Positions in a history

The positions of the events of a kind in a list. Kinds whose positions are paired off with one
another occur equally often (`countP_eq_of_bijOn`).
-/

namespace Positions

variable {α : Type}

/-- Where the events of a kind are. -/
def positions (p : α → Bool) (h : List α) : Set Nat := {i | ∃ a, h[i]? = some a ∧ p a = true}

/-- The positions behind the first element are shifted by one. -/
theorem positions_cons (p : α → Bool) (a : α) (h : List α) :
    positions p (a :: h) = (if p a then {0} else ∅) ∪ Nat.succ '' positions p h := by
  ext i
  cases i with
  | zero =>
    by_cases hp : p a = true
    · simp [positions, hp]
    · simp [positions, hp]
  | succ i =>
    by_cases hp : p a = true
    · simp [positions, hp]
    · simp [positions, hp]

theorem finite_positions (p : α → Bool) (h : List α) : (positions p h).Finite := by
  refine (Set.finite_Iio h.length).subset ?_
  rintro i ⟨a, ha, -⟩
  exact (List.getElem?_eq_some_iff.mp ha).1

/-- As many positions have a property as elements do. -/
theorem ncard_positions (p : α → Bool) (h : List α) : (positions p h).ncard = h.countP p := by
  induction h with
  | nil => simp [positions]
  | cons a h ih =>
    have hsucc : (Nat.succ '' positions p h).ncard = h.countP p := by
      rw [Set.ncard_image_of_injective _ Nat.succ_injective, ih]
    rw [positions_cons, List.countP_cons]
    by_cases hp : p a = true
    · have hzero : 0 ∉ Nat.succ '' positions p h := by
        rintro ⟨i, -, hi⟩
        exact Nat.succ_ne_zero i hi
      rw [if_pos hp, if_pos hp, Set.singleton_union,
        Set.ncard_insert_of_notMem hzero ((finite_positions p h).image _), hsucc]
    · rw [if_neg hp, if_neg hp, Set.empty_union, hsucc, Nat.add_zero]

theorem countP_eq_of_bijOn {p q : α → Bool} {h : List α} {f : Nat → Nat}
    (hf : Set.BijOn f (positions p h) (positions q h)) : h.countP p = h.countP q := by
  rw [← ncard_positions, ← ncard_positions, ← hf.image_eq, hf.injOn.ncard_image]

end Positions
