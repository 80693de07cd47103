import Mathlib.Tactic

/-!
# Texts made of pieces

A program writes a text piece by piece: its own literals, and strings that are spliced in at places
of some kind. A scanner goes through the literals character by character and takes what is spliced
in for opaque. `Placed` says that each string is spliced in where its place says.
-/

namespace Pieces

variable {σ τ χ π : Type}

inductive Piece (π χ : Type) where
  | lit (s : List χ)
  | splice (place : π) (s : List χ)
deriving DecidableEq, Repr

def Piece.text : Piece π χ → List χ
  | .lit s => s
  | .splice _ s => s

def text (ps : List (Piece π χ)) : List χ := ps.flatMap Piece.text

/-- Go through characters, with the marks found on the way. -/
def run (step : σ → χ → σ × List τ) : σ → List χ → σ × List τ
  | s, [] => (s, [])
  | s, c :: cs => ((run step (step s c).1 cs).1, (step s c).2 ++ (run step (step s c).1 cs).2)

/-- What a scanner does with a character, and which places it can be at. -/
structure PieceScanner (σ τ χ π : Type) where
  step : σ → χ → σ × List τ
  At : σ → π → Prop

variable (S : PieceScanner σ τ χ π)

/-- Go through pieces; what is spliced in is not looked at. -/
def scan : σ → List (Piece π χ) → σ × List τ
  | s, [] => (s, [])
  | s, .lit cs :: ps =>
    ((scan (run S.step s cs).1 ps).1, (run S.step s cs).2 ++ (scan (run S.step s cs).1 ps).2)
  | s, .splice _ _ :: ps => scan s ps

/-- Whatever is spliced in is where its place says. -/
def Placed : σ → List (Piece π χ) → Prop
  | _, [] => True
  | s, .lit cs :: ps => Placed (run S.step s cs).1 ps
  | s, .splice p _ :: ps => S.At s p ∧ Placed s ps

variable {S}

/-- Pieces one behind the other are scanned one behind the other. -/
theorem scan_append (s : σ) (ps qs : List (Piece π χ)) :
    scan S s (ps ++ qs) =
      ((scan S (scan S s ps).1 qs).1, (scan S s ps).2 ++ (scan S (scan S s ps).1 qs).2) := by
  induction ps generalizing s with
  | nil => rfl
  | cons p ps ih =>
    cases p with
    | lit cs => rw [List.cons_append, scan, scan, ih, List.append_assoc]
    | splice p cs => rw [List.cons_append, scan, scan, ih]

/-- Pieces one behind the other are each placed where the ones before have led. -/
theorem placed_append (s : σ) (ps qs : List (Piece π χ)) :
    Placed S s (ps ++ qs) ↔ Placed S s ps ∧ Placed S (scan S s ps).1 qs := by
  induction ps generalizing s with
  | nil => simp [Placed, scan]
  | cons p ps ih =>
    cases p with
    | lit cs => rw [List.cons_append, Placed, Placed, scan, ih]
    | splice p cs => rw [List.cons_append, Placed, Placed, scan, ih, and_assoc]

end Pieces
