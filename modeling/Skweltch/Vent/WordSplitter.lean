import Skweltch.Lib.Callbacks
import Skweltch.Msg

/-!
# Skweltch — the word splitter

`WordSplitter::process` (`vent/WordSplitter.cpp`) hands the words of a text to an `IWord`. It reads
until a read meets the end of the text; where blanks end the text the last read yields the empty
word. The byte the code looks at before an empty word does not matter: the word stays empty.
-/

namespace Skweltch

open Callbacks

abbrev IWord (κ : Type) := Handler κ Str

namespace WordSplitter

/-- `std::isspace`. -/
def isSpace (c : Char) : Bool := decide (c ∈ [' ', '\t', '\n', '\x0b', '\x0c', '\r'])

/-- `std::isalnum`. -/
def isAlnum (c : Char) : Bool :=
  decide (('0' ≤ c ∧ c ≤ '9') ∨ ('A' ≤ c ∧ c ≤ 'Z') ∨ ('a' ≤ c ∧ c ≤ 'z'))

def toLower (c : Char) : Char := if 'A' ≤ c ∧ c ≤ 'Z' then Char.ofNat (c.toNat + 32) else c

/-- `*input >> s`: the word read and what is left of the input. -/
def extract (input : Str) : Str × Str :=
  let text := input.dropWhile isSpace
  (text.takeWhile fun c => !isSpace c, text.dropWhile fun c => !isSpace c)

/-- What becomes of a word before it is handed over. -/
def clean (s : Str) : Str :=
  let s := if (s.getLast?.map isAlnum).getD false then s else s.dropLast
  s.map toLower

/-- Reading a word leaves less than there was. -/
theorem extract_length (input : Str) (h : (extract input).2 ≠ []) :
    (extract input).2.length < input.length := by
  have hdrop := (List.dropWhile_sublist (l := input) isSpace).length_le
  have hskip := List.dropWhile_sublist (l := input.dropWhile isSpace) fun c => !isSpace c
  refine lt_of_lt_of_le ?_ hdrop
  cases htext : input.dropWhile isSpace with
  | nil => simp [extract, htext] at h
  | cons c text =>
    -- the first byte after the blanks is part of the word
    have hc : isSpace c = false := by
      have := List.head_dropWhile_not isSpace (l := input) (by rw [htext]; simp)
      simpa [htext] using this
    simp only [extract, htext, List.dropWhile_cons, hc, Bool.not_false, if_true]
    have := (List.dropWhile_sublist (l := text) fun c => !isSpace c).length_le
    simp only [List.length_cons]
    omega

/-- The words in the order they are handed over. The read that meets the end is the last. -/
def words (input : Str) : List Str :=
  if _h : (extract input).2 = [] then [clean (extract input).1]
  else clean (extract input).1 :: words (extract input).2
termination_by input.length
decreasing_by exact extract_length input _h

/-- `WordSplitter::process`. -/
def process {κ : Type} (w : IWord κ) (k : κ) (input : Str) : κ × Bool := feed w k (words input)

theorem words_ne_nil (input : Str) : words input ≠ [] := by
  rw [words]
  split <;> simp

end WordSplitter

end Skweltch
