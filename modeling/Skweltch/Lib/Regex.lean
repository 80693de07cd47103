import Mathlib.Tactic

/-!
# Regular expressions of literals and wildcards

Expressions made of literal characters, `.` and `.*`, and whether one is found somewhere in a text.
An expression of literals is found where it is a substring (`search_lits_iff`).
-/

namespace Regex

/-- A literal character, `.` or `.*`. -/
inductive Item where
  | lit (c : Char)
  | any
  | many
deriving DecidableEq, Repr

/-- The expression matches some beginning of the text. -/
def heads : List Item → List Char → Bool
  | [], _ => true
  | .lit c :: r, d :: l => decide (c = d) && heads r l
  | .any :: r, _ :: l => heads r l
  | .many :: r, l => l.tails.any (heads r)
  | _ :: _, [] => false

def search (r : List Item) (l : List Char) : Bool := l.tails.any (heads r)

def lits (s : String) : List Item := s.toList.map .lit

/-- A pattern of literal characters heads a text that begins with them. -/
theorem heads_lits_iff (s l : List Char) : heads (s.map .lit) l = true ↔ s <+: l := by
  induction s generalizing l with
  | nil => simp [heads]
  | cons c s ih =>
    cases l with
    | nil => simp [heads]
    | cons d l =>
      rw [List.map_cons, heads, Bool.and_eq_true, decide_eq_true_iff, ih,
        List.cons_prefix_cons]

/-- It is found in a text that has them in a row. -/
theorem search_lits_iff (s : String) (l : List Char) :
    search (lits s) l = true ↔ s.toList <:+: l := by
  rw [search, List.any_eq_true]
  constructor
  · rintro ⟨t, ht, hs⟩
    have hsuffix : t <:+ l := (List.mem_tails t l).mp ht
    exact ((heads_lits_iff _ _).mp hs).isInfix.trans hsuffix.isInfix
  · intro h
    obtain ⟨t, hprefix, hsuffix⟩ := List.infix_iff_prefix_suffix.mp h
    exact ⟨t, (List.mem_tails t l).mpr hsuffix, (heads_lits_iff _ _).mpr hprefix⟩

end Regex
