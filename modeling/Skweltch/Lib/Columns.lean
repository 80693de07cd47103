import Mathlib.Tactic

/-!
# Columns — lines that are cut at a separator

A line is built cell by cell (`extend`), with a separator in front of every cell but the first,
and cut again at the separators (`fields`). `columns` is how many columns a reader of the line
counts, where an empty line still has one.
-/

namespace Columns

variable {α : Type} {sep : α}

/-- What can stand between two separators: something, without a separator in it. -/
structure Cell (sep : α) (x : List α) : Prop where
  ne_nil : x ≠ []
  not_mem : sep ∉ x

def extend (sep : α) (line x : List α) : List α := if line = [] then x else line ++ sep :: x

theorem extend_ne_nil (line : List α) {x : List α} (h : Cell sep x) : extend sep line x ≠ [] := by
  unfold extend
  split
  · exact h.ne_nil
  · next hline => exact fun hnil => hline (List.append_eq_nil_iff.mp hnil).1

variable [DecidableEq α]

def fields (sep : α) (line : List α) : List (List α) :=
  if line = [] then [] else line.splitOn sep

def columns (sep : α) (line : List α) : Nat := (line.splitOn sep).length

theorem columns_append (a b : List α) :
    columns sep (a ++ sep :: b) = columns sep a + columns sep b := by
  rw [columns, List.splitOn_append_cons_self, List.length_append, columns, columns]

theorem columns_of_not_mem {a : List α} (h : sep ∉ a) : columns sep a = 1 := by
  rw [columns, List.splitOn_eq_singleton h, List.length_singleton]

theorem columns_cell {a : List α} (h : sep ∉ a) (b : List α) :
    columns sep (a ++ sep :: b) = columns sep b + 1 := by
  rw [columns_append, columns_of_not_mem h, Nat.add_comm]

theorem length_fields {line : List α} (h : line ≠ []) :
    (fields sep line).length = columns sep line := by
  rw [fields, if_neg h, columns]

/-- One more cell is one more field. -/
theorem fields_extend (line : List α) {x : List α} (h : Cell sep x) :
    fields sep (extend sep line x) = fields sep line ++ [x] := by
  rw [fields, if_neg (extend_ne_nil line h), extend, fields]
  by_cases hline : line = []
  · rw [if_pos hline, if_pos hline, List.splitOn_eq_singleton h.not_mem, List.nil_append]
  · rw [if_neg hline, if_neg hline, List.splitOn_append_cons_self,
      List.splitOn_eq_singleton h.not_mem]

/-- **What was written is read.** -/
theorem fields_foldl_extend {xs : List (List α)} (h : ∀ x ∈ xs, Cell sep x) (line : List α) :
    fields sep (xs.foldl (extend sep) line) = fields sep line ++ xs := by
  induction xs generalizing line with
  | nil => rw [List.foldl_nil, List.append_nil]
  | cons x xs ih =>
    rw [List.foldl_cons, ih (fun y hy => h y (List.mem_cons_of_mem x hy)),
      fields_extend line (h x List.mem_cons_self), List.append_assoc, List.singleton_append]

/-- A separator behind every cell: one column more than there are cells. -/
theorem columns_flatMap {β : Type} {xs : List β} {cell : β → List α}
    (h : ∀ x ∈ xs, sep ∉ cell x) (rest : List α) :
    columns sep (xs.flatMap (fun x => cell x ++ [sep]) ++ rest) =
      xs.length + columns sep rest := by
  induction xs with
  | nil => simp
  | cons x xs ih =>
    rw [List.flatMap_cons, List.append_assoc, List.append_assoc, List.singleton_append,
      columns_cell (h x List.mem_cons_self), ih fun y hy => h y (List.mem_cons_of_mem x hy),
      List.length_cons]
    omega

end Columns
