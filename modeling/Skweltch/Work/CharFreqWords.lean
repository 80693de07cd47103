import Skweltch.Vent.WordTokens
import Skweltch.Work.CharFreq

/-!
# Skweltch — the words of ventwords at the letter counter

`WordSplitter::process` hands over the blank-delimited words of a text, one trailing byte removed
unless it is alphanumeric, in lower case. `WWorker::processMsg` of workcharfreq takes words over
`'a'..'z'` with no letter more than fifteen times: it throws on any other byte, and at a sixteenth
letter it overruns its buffer. `Fit` and `Sparse` say which texts the two agree on.
-/

namespace Skweltch

open Callbacks WordSplitter

namespace WorkCharFreq

/-! ## What the worker accepts

The worker takes a word of small letters in which none occurs more than fifteen times, and no other.
-/

/-- A character that is no small letter is rejected. -/
theorem countLetter_of_not_lower {ch : Char} (h : ¬ ('a' ≤ ch ∧ ch ≤ 'z')) (result : Str) :
    countLetter result ch = .error (.threw "letter not in range.") := by
  have hout : (ch.toNat : Int) - 97 < 0 ∨ (ch.toNat : Int) - 97 > 25 := by
    by_contra hin
    apply h
    have h₁ : 97 ≤ ch.toNat := by omega
    have h₂ : ch.toNat ≤ 122 := by omega
    exact ⟨h₁, h₂⟩
  exact if_pos hout

/-- The loop does not get past a byte that is not a lower-case letter. -/
theorem foldlM_of_not_lower {word : Str} (h : ¬ Lower word) {f : Fin 26 → Nat}
    (hf : ∀ i, f i ≤ 15) (r : Str) : word.foldlM countLetter (tally f) ≠ .ok r := by
  induction word generalizing f with
  | nil => exact absurd (fun ch hch => absurd hch List.not_mem_nil) h
  | cons ch word ih =>
    rw [List.foldlM_cons]
    by_cases hch : 'a' ≤ ch ∧ ch ≤ 'z'
    · obtain ⟨i, rfl⟩ := exists_letter hch
      have hrest : ¬ Lower word := fun hlower => h (List.forall_mem_cons.mpr ⟨hch, hlower⟩)
      rcases Nat.lt_or_ge (f i) 15 with hlt | hge
      · rw [countLetter_tally hlt]
        apply ih hrest
        intro j
        rw [Function.update_apply]
        split
        · omega
        · exact hf j
      · rw [countLetter_full (le_antisymm (hf i) hge)]
        simp [bind, Except.bind]
    · rw [countLetter_of_not_lower hch]
      simp [bind, Except.bind]

/-- The worker sends a message for a word exactly when all of its bytes are lower-case letters and
none is there more than fifteen times. -/
theorem processMsg_accepts_iff (id : Int) (word : Str) :
    (∃ m, processMsg ⟨id, word⟩ = .ok m) ↔ Lower word ∧ Few word := by
  by_cases h : Lower word
  · by_cases hfew : Few word
    · have hword : processMsg ⟨id, word⟩ = .ok _ := processMsg_eq h hfew
      exact ⟨fun _ => ⟨h, hfew⟩, fun _ => ⟨_, hword⟩⟩
    · have hword : processMsg ⟨id, word⟩ = .error .undefined := processMsg_of_many h hfew
      rw [hword]
      simp [hfew]
  · have hno : ∀ r, encode word ≠ .ok r := by
      rw [encode, ← tally_zero]
      exact foldlM_of_not_lower h fun _ => Nat.zero_le _
    refine ⟨?_, fun hword => absurd hword.1 h⟩
    rintro ⟨m, hm⟩
    rw [processMsg] at hm
    cases hencode : encode word with
    | error f =>
      rw [hencode] at hm
      cases hm
    | ok r => exact absurd hencode (hno r)

end WorkCharFreq

namespace WordSplitter

/-! ## What the splitter hands over

Words are cleaned before they are sent: a last character that is neither a letter nor a digit is
dropped, and capitals are made small. -/

def isLetter (c : Char) : Bool := decide (('A' ≤ c ∧ c ≤ 'Z') ∨ ('a' ≤ c ∧ c ≤ 'z'))

/-- Every byte of the text is a blank, a letter, or a byte that is not alphanumeric and that a
blank or the end of the text follows. -/
def Fit : Str → Prop
  | [] => True
  | c :: text =>
    (isSpace c ∨ isLetter c ∨ (¬ isAlnum c ∧ ∀ next ∈ text.head?, isSpace next)) ∧ Fit text

/-- The bytes of a word that are handed over, in the case they were read. -/
def stripped (s : Str) : Str :=
  if (s.getLast?.map isAlnum).getD false then s else s.dropLast

theorem clean_eq (s : Str) : clean s = (stripped s).map toLower := rfl

theorem isAlnum_of_isLetter {c : Char} (h : isLetter c) : isAlnum c := by
  simp only [isLetter, isAlnum, decide_eq_true_eq] at h ⊢
  exact Or.inr h

/-- What is a small letter after cleaning was a letter before. -/
theorem toLower_lower_iff (c : Char) : ('a' ≤ toLower c ∧ toLower c ≤ 'z') ↔ isLetter c := by
  simp only [toLower, isLetter, decide_eq_true_eq]
  split
  · next h =>
    have h₁ : 65 ≤ c.toNat := h.1
    have h₂ : c.toNat ≤ 90 := h.2
    have all : ∀ i : Fin 26, (Char.ofNat (65 + i + 32)).toNat = 65 + i + 32 := by decide
    have hn : (Char.ofNat (c.toNat + 32)).toNat = c.toNat + 32 := by
      have := all ⟨c.toNat - 65, by omega⟩
      rwa [show 65 + (c.toNat - 65) = c.toNat from by omega] at this
    have h₃ : 97 ≤ (Char.ofNat (c.toNat + 32)).toNat := by omega
    have h₄ : (Char.ofNat (c.toNat + 32)).toNat ≤ 122 := by omega
    exact ⟨fun _ => Or.inl h, fun _ => ⟨h₃, h₄⟩⟩
  · next h => exact ⟨Or.inr, fun hc => hc.resolve_left h⟩

theorem lower_clean_iff (s : Str) :
    WorkCharFreq.Lower (clean s) ↔ ∀ c ∈ stripped s, isLetter c := by
  rw [clean_eq, WorkCharFreq.Lower, List.forall_mem_map]
  exact forall₂_congr fun c _ => toLower_lower_iff c

theorem stripped_cons_cons (c d : Char) (s : Str) :
    stripped (c :: d :: s) = c :: stripped (d :: s) := by
  unfold stripped
  rw [List.getLast?_cons_cons]
  split
  · rfl
  · rfl

/-- White space before the first word does not matter. -/
theorem fit_dropWhile (text : Str) : Fit (text.dropWhile isSpace) ↔ Fit text := by
  induction text with
  | nil => rfl
  | cons c text ih =>
    rw [List.dropWhile_cons]
    split
    · next hc =>
      rw [ih, Fit]
      exact ⟨fun h => ⟨Or.inl hc, h⟩, fun h => h.2⟩
    · rfl

/-- A text that begins with a word: the word answers for itself. -/
theorem fit_append {s rest : Str} (hs : ∀ c ∈ s, isSpace c = false)
    (hrest : ∀ next ∈ rest.head?, isSpace next) :
    Fit (s ++ rest) ↔ (∀ c ∈ stripped s, isLetter c) ∧ Fit rest := by
  induction s with
  | nil => simp [stripped]
  | cons c s ih =>
    obtain ⟨hc, hs⟩ := List.forall_mem_cons.mp hs
    rw [List.cons_append, Fit, ih hs]
    cases s with
    | nil =>
      -- the only byte of the word, or its last one
      have hletter := isAlnum_of_isLetter (c := c)
      cases halnum : isAlnum c with
      | true => simp [stripped, hc, halnum]
      | false =>
        have : isLetter c = false := by simpa [halnum] using hletter
        simp [stripped, hc, halnum, this]
        exact fun _ => hrest
    | cons d s =>
      have hd : isSpace d = false := hs d (List.mem_cons_self ..)
      rw [stripped_cons_cons, List.forall_mem_cons, and_assoc]
      simp [hc, hd]

/-- A text is fit if its first word is and the rest is. -/
theorem fit_extract (text : Str) :
    Fit text ↔ (∀ c ∈ stripped (extract text).1, isLetter c) ∧ Fit (extract text).2 := by
  rw [← fit_dropWhile text]
  unfold extract
  generalize text.dropWhile isSpace = text
  conv_lhs => rw [← List.takeWhile_append_dropWhile (p := fun c => !isSpace c) (l := text)]
  apply fit_append
  · intro c hc
    have := List.all_eq_true.mp (List.all_takeWhile (p := fun c => !isSpace c) (l := text)) c hc
    simpa using this
  · intro next hnext
    have := List.head?_dropWhile_not (fun c => !isSpace c) text
    rw [Option.mem_def.mp hnext] at this
    simpa using this

/-- The words are accepted exactly if the text is fit. -/
theorem lower_words_iff (input : Str) :
    (∀ s ∈ words input, WorkCharFreq.Lower s) ↔ Fit input := by
  induction input using words.induct with
  | case1 input h =>
    rw [words, dif_pos h, List.forall_mem_singleton, lower_clean_iff, fit_extract input, h]
    simp [Fit]
  | case2 input h ih =>
    rw [words, dif_neg h, List.forall_mem_cons, lower_clean_iff, fit_extract input, ih]

/-! ## How often a letter occurs

A letter occurs in the words of a text as often as in the text, capitals included. -/

/-- How often a letter occurs in a text. -/
def letterCount (text : Str) (i : Fin 26) : Nat :=
  text.countP fun c => decide (toLower c = WorkCharFreq.letter i)

theorem letterCount_append (as bs : Str) (i : Fin 26) :
    letterCount (as ++ bs) i = letterCount as i + letterCount bs i :=
  List.countP_append ..

theorem letterCount_le (text : Str) (i : Fin 26) : letterCount text i ≤ text.length :=
  List.countP_le_length

/-- Bytes that are no letters do not count. -/
theorem letterCount_eq_zero {s : Str} (h : ∀ c ∈ s, isLetter c = false) (i : Fin 26) :
    letterCount s i = 0 := by
  rw [letterCount, List.countP_eq_zero]
  intro c hc
  rw [decide_eq_true_eq]
  intro hletter
  have hcase : 'a' ≤ toLower c ∧ toLower c ≤ 'z' := by
    have all : ∀ j : Fin 26, 'a' ≤ WorkCharFreq.letter j ∧ WorkCharFreq.letter j ≤ 'z' := by decide
    rw [hletter]
    exact all i
  have := (toLower_lower_iff c).mp hcase
  rw [h c hc] at this
  cases this

theorem isLetter_of_isSpace {c : Char} (h : isSpace c = true) : isLetter c = false := by
  simp only [isSpace, decide_eq_true_eq, List.mem_cons, List.not_mem_nil, or_false] at h
  rcases h with rfl | rfl | rfl | rfl | rfl | rfl <;> decide

/-- The byte that is stripped off a word is no letter. -/
theorem letterCount_stripped (s : Str) (i : Fin 26) :
    letterCount (stripped s) i = letterCount s i := by
  unfold stripped
  split
  · rfl
  · next hlast =>
    cases s using List.reverseRecOn with
    | nil => rfl
    | append_singleton s c =>
      have hc : isAlnum c = false := by simpa using hlast
      have hletter : isLetter c = false := by
        rw [Bool.eq_false_iff]
        intro h
        rw [isAlnum_of_isLetter h] at hc
        cases hc
      have hzero := letterCount_eq_zero (s := [c]) (by simpa using hletter) i
      rw [List.dropLast_concat, letterCount_append, hzero, Nat.add_zero]

theorem count_clean (s : Str) (i : Fin 26) :
    (clean s).count (WorkCharFreq.letter i) = letterCount s i := by
  rw [clean_eq, ← letterCount_stripped, List.count, List.countP_map]
  rfl

/-- No word has a letter more than fifteen times. -/
def Sparse (text : Str) : Prop := ∀ s ∈ tokens text, ∀ i, letterCount s i ≤ 15

instance (text : Str) : Decidable (Sparse text) := by
  unfold Sparse
  infer_instance

/-- A text is sparse as its words are, which are handed over without the byte that is stripped. -/
theorem few_words_iff (input : Str) :
    (∀ s ∈ words input, WorkCharFreq.Few s) ↔ Sparse input := by
  have htokens := forall_words_iff (p := WorkCharFreq.Few) (by decide) input
  simp only [WorkCharFreq.Few, count_clean] at htokens
  exact htokens

/-- **The workers survive a text exactly when it is fit and sparse.** Then every word that the
splitter hands to an `IWord` is accepted by a worker. -/
theorem words_accepted_iff (input : Str) :
    (∀ (κ : Type) (w : IWord κ) (k : κ), ∀ s ∈ given w k (words input), ∀ id : Int,
      ∃ m, WorkCharFreq.processMsg ⟨id, s⟩ = .ok m) ↔ Fit input ∧ Sparse input := by
  rw [← lower_words_iff, ← few_words_iff, ← forall₂_and]
  refine ⟨fun h s hs => ?_, fun h κ w k s hs id => ?_⟩
  · -- an `IWord` that goes on is handed every word
    have hall : given (fun (_ : Unit) (_ : Str) => ((), true)) () (words input) = words input := by
      apply given_eq
      exact feed_snd_true (fun _ _ => rfl) () _
    exact (WorkCharFreq.processMsg_accepts_iff 0 s).mp (h Unit _ () s (hall ▸ hs) 0)
  · have hhanded := given_prefix k (words input) (h := w)
    exact (WorkCharFreq.processMsg_accepts_iff id s).mpr (h s (hhanded.subset hs))

/-- The apostrophe inside `it's` reaches the worker, which throws on it. -/
theorem words_not_accepted :
    ¬ ∀ (input : Str) (κ : Type) (w : IWord κ) (k : κ), ∀ s ∈ given w k (words input), ∀ id : Int,
      ∃ m, WorkCharFreq.processMsg ⟨id, s⟩ = .ok m := by
  intro h
  have hword : words ['i', 't', '\'', 's'] = [['i', 't', '\'', 's']] := by
    rw [words, dif_pos (by decide)]
    decide
  obtain ⟨m, hm⟩ := h ['i', 't', '\'', 's'] Unit (fun _ _ => ((), true)) () ['i', 't', '\'', 's']
    (by rw [hword]; exact List.mem_cons_self ..) 0
  have hthrows : WorkCharFreq.processMsg ⟨0, ['i', 't', '\'', 's']⟩ =
      .error (.threw "letter not in range.") := by decide
  rw [hthrows] at hm
  cases hm

end WordSplitter

end Skweltch
