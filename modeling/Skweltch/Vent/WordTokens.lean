import Skweltch.Lib.FixedWidth
import Skweltch.Vent.WordSplitter

/-!
# Skweltch — the words of a text

What `WordSplitter::process` (`vent/WordSplitter.cpp`) is for: `tokens` are the maximal pieces of
a text without white space. The loop asks for the end of the text before it reads, and hands over
what a read yields whether it read a word or not. So what is read are the tokens, and behind them
an empty word unless the text ends in a token (`reads_eq`).
-/

namespace Skweltch

open Callbacks FixedWidth

namespace WordSplitter

/-- The maximal pieces without white space, in order. -/
def tokens (text : Str) : List Str := (text.splitOnP isSpace).filter (· ≠ [])

/-- What `*input >> s` leaves in `s`, turn after turn. -/
def reads (input : Str) : List Str :=
  if _h : (extract input).2 = [] then [(extract input).1]
  else (extract input).1 :: reads (extract input).2
termination_by input.length
decreasing_by exact extract_length input _h

/-- `s.length()-1`, as the `size_t` that `s` is indexed with. -/
def lastIndex (s : Str) : Nat := size64 ((s.length : Int) - 1)

/-- The text ends in a token. -/
def EndsInToken (text : Str) : Prop := ∃ c, text.getLast? = some c ∧ isSpace c = false

instance (text : Str) : Decidable (EndsInToken text) :=
  decidable_of_iff ((text.getLast?.any fun c => !isSpace c) = true) (by
    simp [EndsInToken, Option.any_eq_true])

/-! ## Tokens

The tokens of a text are what stands between its white space. They are defined without reading, so
that the reads can be compared with them. -/

theorem tokens_nil : tokens [] = [] := by
  simp [tokens]

theorem tokens_space {c : Char} (h : isSpace c = true) (text : Str) :
    tokens (c :: text) = tokens text := by
  simp [tokens, List.splitOnP_cons_eq_if_modifyHead, h]

/-- White space in front of a text yields nothing. -/
theorem tokens_dropWhile (text : Str) : tokens (text.dropWhile isSpace) = tokens text := by
  induction text with
  | nil => rfl
  | cons c text ih =>
    cases hc : isSpace c with
    | true => rw [List.dropWhile_cons_of_pos hc, ih, tokens_space hc]
    | false => rw [List.dropWhile_cons_of_neg (by simp [hc])]

theorem tokens_token {s : Str} (hs : ∀ c ∈ s, isSpace c = false) (hne : s ≠ []) :
    tokens s = [s] := by
  simp [tokens, List.splitOnP_eq_singleton hs, hne]

/-- A token ends where white space begins. -/
theorem tokens_append {s rest : Str} (hs : ∀ c ∈ s, isSpace c = false) (hne : s ≠ [])
    (hrest : ∀ c ∈ rest.head?, isSpace c = true) : tokens (s ++ rest) = s :: tokens rest := by
  cases rest with
  | nil => rw [List.append_nil, tokens_token hs hne, tokens_nil]
  | cons c rest =>
    have hc : isSpace c = true := hrest c rfl
    rw [tokens_space hc]
    simp [tokens, List.splitOnP_append_cons_of_forall_mem hs c hc, hne]

/-! ## Reads

The splitter reads with `>>`, which skips white space first and reads an empty word at the end of a
text that ends in white space. That word is handed over like any other. -/

theorem words_eq (input : Str) : words input = (reads input).map clean := by
  induction input using words.induct with
  | case1 input h => rw [words, reads, dif_pos h, dif_pos h, List.map_singleton]
  | case2 input h ih => rw [words, reads, dif_neg h, dif_neg h, List.map_cons, ih]

/-- Nothing is read exactly where only white space is left. -/
theorem extract_eq_nil_iff (input : Str) :
    (extract input).1 = [] ↔ input.dropWhile isSpace = [] := by
  simp only [extract]
  cases htext : input.dropWhile isSpace with
  | nil => simp
  | cons c text =>
    have hc : isSpace c = false := by
      have := List.head_dropWhile_not isSpace (l := input) (by rw [htext]; simp)
      simpa [htext] using this
    simp [hc]

theorem extract_append (input : Str) :
    (extract input).1 ++ (extract input).2 = input.dropWhile isSpace :=
  List.takeWhile_append_dropWhile

theorem extract_token (input : Str) : ∀ c ∈ (extract input).1, isSpace c = false := by
  intro c hc
  have := List.all_eq_true.mp
    (List.all_takeWhile (p := fun c => !isSpace c) (l := input.dropWhile isSpace)) c hc
  simpa using this

/-- What is left begins with white space, or there is nothing left. -/
theorem extract_rest (input : Str) : ∀ c ∈ (extract input).2.head?, isSpace c = true := by
  intro c hc
  have hhead := List.head?_dropWhile_not (fun c => !isSpace c) (input.dropWhile isSpace)
  unfold extract at hc
  rw [Option.mem_def.mp hc] at hhead
  simpa using hhead

/-- **One read** takes the first token off the text, if there is one. -/
theorem tokens_extract (input : Str) :
    tokens input =
      (if (extract input).1 = [] then [] else [(extract input).1]) ++ tokens (extract input).2 := by
  rw [← tokens_dropWhile, ← extract_append]
  split
  · next h => rw [h, List.nil_append, List.nil_append]
  · next h => exact tokens_append (extract_token input) h (extract_rest input)

/-- The end of a text is where it was after a read that did not come to the end. -/
theorem getLast?_extract {input : Str} (h : (extract input).2 ≠ []) :
    (extract input).2.getLast? = input.getLast? := by
  have hsplit : input =
      (input.takeWhile isSpace ++ (extract input).1) ++ (extract input).2 := by
    rw [List.append_assoc, extract_append, List.takeWhile_append_dropWhile]
  conv_rhs => rw [hsplit, List.getLast?_append_of_ne_nil _ h]

theorem endsInToken_extract {input : Str} (h : (extract input).2 ≠ []) :
    EndsInToken (extract input).2 ↔ EndsInToken input := by
  unfold EndsInToken
  rw [getLast?_extract h]

/-- The read that comes to the end reads a token exactly if the text ends in one. -/
theorem endsInToken_iff_of_last {input : Str} (h : (extract input).2 = []) :
    EndsInToken input ↔ (extract input).1 ≠ [] := by
  have hsplit : input.takeWhile isSpace ++ (extract input).1 = input := by
    have happ := extract_append input
    rw [h, List.append_nil] at happ
    rw [happ, List.takeWhile_append_dropWhile]
  constructor
  · rintro ⟨c, hlast, hc⟩ hnil
    -- then all of the text is white space
    have hall : input.takeWhile isSpace = input := by
      rw [hnil, List.append_nil] at hsplit
      exact hsplit
    have hmem : c ∈ input.takeWhile isSpace := by
      rw [hall]
      exact List.mem_of_getLast? hlast
    have := List.all_eq_true.mp (List.all_takeWhile (p := isSpace) (l := input)) c hmem
    rw [hc] at this
    cases this
  · intro hne
    refine ⟨(extract input).1.getLast hne, ?_, extract_token input _ (List.getLast_mem hne)⟩
    conv_lhs => rw [← hsplit]
    rw [List.getLast?_append_of_ne_nil _ hne, List.getLast?_eq_some_getLast hne]

/-- **What is read** are the tokens, and once nothing where the text does not end in one. -/
theorem reads_eq (text : Str) :
    reads text = tokens text ++ if EndsInToken text then [] else [[]] := by
  induction text using words.induct with
  | case1 text h =>
    rw [reads, dif_pos h, tokens_extract, h, tokens_nil, List.append_nil,
      if_congr (endsInToken_iff_of_last h) rfl rfl]
    by_cases hnil : (extract text).1 = []
    · simp [hnil]
    · simp [hnil]
  | case2 text h ih =>
    -- a read that leaves something has read a token
    have hne : (extract text).1 ≠ [] := by
      intro hnil
      have happ := extract_append text
      rw [(extract_eq_nil_iff text).mp hnil] at happ
      exact h (List.append_eq_nil_iff.mp happ).2
    rw [reads, dif_neg h, tokens_extract text, if_neg hne, ih,
      if_congr (endsInToken_extract h) rfl rfl]
    rfl

/-- There are at most as many words as characters, and one more. -/
theorem length_words_le (input : Str) : (words input).length ≤ input.length + 1 := by
  induction input using words.induct with
  | case1 input h =>
    rw [words, dif_pos h, List.length_singleton]
    omega
  | case2 input h ih =>
    have hshort := extract_length input h
    rw [words, dif_neg h, List.length_cons]
    omega

/-- A property of the cleaned words is one of the tokens, if it holds of the empty word. -/
theorem forall_words_iff {p : Str → Prop} (hnil : p (clean [])) (text : Str) :
    (∀ s ∈ words text, p s) ↔ ∀ s ∈ tokens text, p (clean s) := by
  rw [words_eq, reads_eq, List.forall_mem_map, List.forall_mem_append]
  constructor
  · exact fun h => h.1
  · intro h
    refine ⟨h, ?_⟩
    split
    · exact fun s hs => absurd hs List.not_mem_nil
    · intro s hs
      rw [List.mem_singleton.mp hs]
      exact hnil

/-- Cleaning a word makes it no longer. -/
theorem length_clean_le (s : Str) : (clean s).length ≤ s.length := by
  unfold clean
  rw [List.length_map]
  split
  · exact le_rfl
  · exact (List.dropLast_sublist s).length_le

/-- Their letters are at most as many as there are characters. -/
theorem sum_length_words_le (input : Str) :
    ((words input).map List.length).sum ≤ input.length := by
  have hsplit : ∀ text : Str, (extract text).1.length + (extract text).2.length ≤ text.length := by
    intro text
    rw [← List.length_append, extract_append]
    exact (List.dropWhile_sublist isSpace).length_le
  induction input using words.induct with
  | case1 input h =>
    have hread := hsplit input
    have hclean := length_clean_le (extract input).1
    rw [words, dif_pos h, List.map_singleton, List.sum_singleton]
    omega
  | case2 input h ih =>
    have hread := hsplit input
    have hclean := length_clean_le (extract input).1
    rw [words, dif_neg h, List.map_cons, List.sum_cons]
    omega

theorem ne_nil_of_mem_tokens {text s : Str} (h : s ∈ tokens text) : s ≠ [] := by
  have := (List.mem_filter.mp h).2
  simpa using this

/-- The last character of a word is in it unless the word is empty. -/
theorem lastIndex_lt_iff (s : Str) : lastIndex s < s.length ↔ s ≠ [] := by
  unfold lastIndex size64
  cases s with
  | nil => simp
  | cons c s =>
    simp only [List.length_cons, ne_eq, reduceCtorEq, not_false_eq_true, iff_true]
    omega

/-- Exactly the tokens are handed over, each cleaned, and no read is indexed outside of what was
read, whatever an `IWord` that never stops does with them. -/
def Exact (text : Str) : Prop :=
  (∀ (κ : Type) (w : IWord κ) (k : κ), (∀ k s, (w k s).2 = true) →
    (process (recorded w) (k, []) text).1.2 = (tokens text).map clean) ∧
  ∀ s ∈ reads text, lastIndex s < s.length

/-- An `IWord` that never stops is handed every word. -/
theorem process_recorded {κ : Type} {w : IWord κ} (h : ∀ k s, (w k s).2 = true) (k : κ)
    (text : Str) : (process (recorded w) (k, []) text).1.2 = words text := by
  unfold process
  rw [feed_recorded, List.nil_append]
  exact given_eq (feed_snd_true h k _)

/-- **Word splitting.** It is exact for the texts that end in a token, and for no other. -/
theorem process_exact_iff (text : Str) : Exact text ↔ EndsInToken text := by
  constructor
  · rintro ⟨-, hindex⟩
    by_contra hno
    -- behind the tokens nothing is read, and indexed
    have hmem : ([] : Str) ∈ reads text := by
      rw [reads_eq, if_neg hno]
      exact List.mem_append_right _ (List.mem_singleton_self _)
    exact (lastIndex_lt_iff []).mp (hindex [] hmem) rfl
  · intro hends
    have hreads : reads text = tokens text := by
      rw [reads_eq, if_pos hends, List.append_nil]
    refine ⟨fun κ w k hw => ?_, fun s hs => ?_⟩
    · rw [process_recorded hw, words_eq, hreads]
    · rw [hreads] at hs
      exact (lastIndex_lt_iff s).mpr (ne_nil_of_mem_tokens hs)

/-- Behind the white space at the end of the text an empty word is handed over. -/
theorem trailing_space_not_exact : ¬ Exact "ab, cd ".toList := by
  rintro ⟨hexact, -⟩
  have := hexact Unit (fun k _ => (k, true)) () fun _ _ => rfl
  revert this
  decide +kernel

end WordSplitter

end Skweltch
