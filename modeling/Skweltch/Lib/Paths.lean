import Mathlib.Tactic

/-!
# Paths of files

`resolve` is the file that a path names, as the directories that lead to it from the root: a path
that begins with a slash begins at the root and any other in the current directory, `.` and an
empty name stay where they are, and `..` goes one directory up. There are no links.

A path that goes on behind a slash with no two dots in a row stays below the directory that it
begins with (`resolve_below`).
-/

namespace Paths

abbrev Directory := List (List Char)

def step (dir : Directory) (name : List Char) : Directory :=
  if name = [] ∨ name = ['.'] then dir
  else if name = ['.', '.'] then dir.dropLast
  else dir ++ [name]

def resolve (cwd : Directory) (path : List Char) : Directory :=
  (path.splitOn '/').foldl step (if path.head? = some '/' then [] else cwd)

/-- A name that is not two dots leads into the directory, or stays there. -/
theorem prefix_step {dir : Directory} {name : List Char} (h : name ≠ ['.', '.']) :
    dir <+: step dir name := by
  unfold step
  split
  · exact List.prefix_rfl
  · exact List.prefix_append dir [name]

/-- Names that do not go up lead further down. -/
theorem prefix_foldl {names : List (List Char)} (h : ∀ name ∈ names, name ≠ ['.', '.'])
    (dir : Directory) : dir <+: names.foldl step dir := by
  induction names generalizing dir with
  | nil => exact List.prefix_rfl
  | cons name names ih =>
    obtain ⟨hname, hnames⟩ := List.forall_mem_cons.mp h
    exact (prefix_step hname).trans (ih hnames _)

/-- A segment of a path stands in the path. -/
theorem infix_intercalate {ls : List (List Char)} {l : List Char} (h : l ∈ ls)
    (sep : List Char) : l <:+: sep.intercalate ls := by
  induction ls with
  | nil => cases h
  | cons l₀ ls ih =>
    cases ls with
    | nil =>
      obtain rfl := List.mem_singleton.mp h
      rw [List.intercalate_singleton]
    | cons l₁ ls =>
      rw [List.intercalate_cons_cons]
      rcases List.mem_cons.mp h with rfl | h
      · exact (List.prefix_append l _).isInfix.trans (List.prefix_append _ _).isInfix
      · exact (ih h).trans (List.suffix_append _ _).isInfix

/-- A name of a path is a part of it. -/
theorem infix_of_mem_splitOn {path name : List Char} (h : name ∈ path.splitOn '/') :
    name <:+: path := by
  have hinfix := infix_intercalate h ['/']
  rwa [List.intercalate_splitOn] at hinfix

/-- **Below a directory**: what is behind a slash and has no two dots in a row does not leave the
directory that is named before it. -/
theorem resolve_below (cwd : Directory) {root : List Char} (hroot : root ≠ []) {path : List Char}
    (hdots : ¬ ['.', '.'] <:+: path) : resolve cwd root <+: resolve cwd (root ++ '/' :: path) := by
  have hhead : (root ++ '/' :: path).head? = root.head? := by
    obtain ⟨c, root, rfl⟩ := List.exists_cons_of_ne_nil hroot
    rfl
  rw [resolve, resolve, hhead, List.splitOn_append_cons_self, List.foldl_append]
  refine prefix_foldl (fun name hname => ?_) _
  rintro rfl
  exact hdots (infix_of_mem_splitOn hname)

end Paths
