import Skweltch.Lib.IStream
import Skweltch.Vent.WordTokens
import Skweltch.Vent.XmlParser

/-!
# Skweltch — reading from a stream that breaks

The loops of `XmlParser::process` and `WordSplitter::process` (`vent/XmlParser.cpp`,
`vent/WordSplitter.cpp`) over an input stream, whose end the loops ask for before they read. Over
a stream that reaches the end of its bytes they are `XmlParser.process` and `WordSplitter.process`
(`readLoop_eq`, `WordSplitter.readLoop_eq`). Over a buffer that throws, as a gzip filter does on
a file that is cut off, the end is never reached.
-/

namespace Skweltch

open Callbacks Streams

namespace XmlParser

variable {σ : Type} (elem : IXmlElement σ)

/-- One turn of the loop: a byte is read, and what a failed `get` returns is taken for one. -/
def turn (t : State × σ) (input : IStream) : ((State × σ) ⊕ (σ × Bool)) × IStream :=
  let c := input.get.1.getD eof
  match feed elem t.2 (onChar t.1 c).1 with
  | (e, false) => (.inr (e, false), input.get.2)
  | (e, true) =>
    match (onChar t.1 c).2 with
    | none => (.inr (e, false), input.get.2)
    | some st => (.inl (st, e), input.get.2)

/-- `XmlParser::process` on a stream, with at most `n` turns of its loop. -/
def readLoop (n : Nat) (e : σ) (input : IStream) : Option (σ × Bool) :=
  untilEof (turn elem) (fun t => (t.2, true)) n (init, e) input

variable {elem}

/-- A turn that reads on: the character was accepted and the element has gone on. -/
theorem turn_next {st st' : State} {e : σ} {input : IStream}
    (hfeed : (feed elem e (onChar st (input.get.1.getD eof)).1).2 = true)
    (hst : (onChar st (input.get.1.getD eof)).2 = some st') :
    turn elem (st, e) input =
      (.inl (st', (feed elem e (onChar st (input.get.1.getD eof)).1).1), input.get.2) := by
  unfold turn
  simp only
  split
  · next e' h => rw [h] at hfeed; cases hfeed
  · next e' h => rw [hst, h]

/-- A turn that returns: the character was not accepted, or the element has asked for it. -/
theorem turn_return {st : State} {e : σ} {input : IStream}
    (h : (feed elem e (onChar st (input.get.1.getD eof)).1).2 = false ∨
      (onChar st (input.get.1.getD eof)).2 = none) :
    turn elem (st, e) input =
      (.inr ((feed elem e (onChar st (input.get.1.getD eof)).1).1, false), input.get.2) := by
  unfold turn
  simp only
  split
  · next e' hfeed => rw [hfeed]
  · next e' hfeed =>
    rw [hfeed] at h ⊢
    rcases h with h | h
    · cases h
    · rw [h]

theorem onChar_eof (st : State) : onChar st eof = ([], some { st with s := st.s ++ [eof] }) :=
  onChar_other (by decide) (by decide) (by decide) (by decide) st

/-- **The loop over a stream that ends** takes a turn for every byte and one more. -/
theorem untilEof_opened (st : State) (e : σ) (bytes : Str) :
    untilEof (turn elem) (fun t => (t.2, true)) (bytes.length + 1) (st, e) (opened bytes false) =
      some (loop elem st e (bytes ++ [eof])) := by
  induction bytes generalizing st e with
  | nil =>
    -- the turn that meets the end takes its value for a byte
    have hget : (opened [] false).get.1.getD eof = eof := rfl
    have hturn : turn elem (st, e) (opened [] false) =
        (.inl ({ st with s := st.s ++ [eof] }, e), (opened [] false).get.2) := by
      rw [@turn_next _ _ st { st with s := st.s ++ [eof] }]
      · rw [hget, onChar_eof]
        rfl
      · rw [hget, onChar_eof]
        rfl
      · rw [hget, onChar_eof]
    rw [List.length_nil, untilEof_next rfl hturn, untilEof_end rfl, List.nil_append, loop,
      onChar_eof]
    rfl
  | cons c bytes ih =>
    have hget : (opened (c :: bytes) false).get.1.getD eof = c := rfl
    rw [List.length_cons, List.cons_append, loop]
    rcases hfeed : feed elem e (onChar st c).1 with ⟨e', ok⟩
    have he : (feed elem e (onChar st c).1).1 = e' := by rw [hfeed]
    cases ok with
    | false =>
      have hturn : turn elem (st, e) (opened (c :: bytes) false) = _ :=
        turn_return (Or.inl (by rw [hget, hfeed]))
      rw [untilEof_return rfl hturn, hget, he]
    | true =>
      cases hst : (onChar st c).2 with
      | none =>
        have hturn : turn elem (st, e) (opened (c :: bytes) false) = _ :=
          turn_return (Or.inr (by rw [hget, hst]))
        rw [untilEof_return rfl hturn, hget, he]
      | some st' =>
        have hturn : turn elem (st, e) (opened (c :: bytes) false) = _ :=
          turn_next (by rw [hget, hfeed]) (by rw [hget, hst])
        rw [untilEof_next rfl hturn, hget, he]
        exact ih st' e'

theorem readLoop_eq (e : σ) (bytes : Str) :
    readLoop elem (bytes.length + 1) e (opened bytes false) = some (process elem bytes e) :=
  untilEof_opened init e bytes

/-- What keeps the loop going on a stream that breaks: no flag tells of an end, and as long as the
bytes last the parser accepts them. -/
def GoesOn (t : State × σ) (input : IStream) : Prop :=
  Breaking input ∧ (input.good = true → (scan t.1 input.rest).2 = true)

/-- A turn over a stream that breaks never comes to its end. -/
theorem goesOn_turn (helem : ∀ e a, (elem e a).2 = true) (t : State × σ) (input : IStream)
    (h : GoesOn t input) :
    input.eofbit = false ∧
      ∃ t' input', turn elem t input = (.inl t', input') ∧ GoesOn t' input' := by
  obtain ⟨st, e⟩ := t
  obtain ⟨hbreaking, haccepts⟩ := h
  refine ⟨hbreaking.eofbit, ?_⟩
  have hfeed := feed_snd_true helem e
  cases hget : input.get.1 with
  | none =>
    -- the value of the failed read is collected, and the stream stays as bad as it is
    have hst : (onChar st (input.get.1.getD eof)).2 = some { st with s := st.s ++ [eof] } := by
      rw [hget, Option.getD_none, onChar_eof]
    refine ⟨_, _, turn_next (hfeed _) hst, hbreaking.get, fun hgood => ?_⟩
    rw [good_of_get_none hget] at hgood
    cases hgood
  | some c =>
    obtain ⟨hgood, hrest⟩ := get_some hget
    have hscan := haccepts hgood
    rw [hrest, scan] at hscan
    cases hst : (onChar st c).2 with
    | none =>
      rw [hst] at hscan
      cases hscan
    | some st' =>
      rw [hst] at hscan
      have hst : (onChar st (input.get.1.getD eof)).2 = some st' := by
        rw [hget, Option.getD_some, hst]
      exact ⟨_, _, turn_next (hfeed _) hst, hbreaking.get, fun _ => hscan⟩

/-- **A broken stream keeps the parser reading**, unless it has rejected the bytes before. -/
theorem readLoop_breaking (helem : ∀ e a, (elem e a).2 = true) {bytes : Str}
    (h : accepts bytes = true) (n : Nat) (e : σ) : readLoop elem n e (opened bytes true) = none :=
  untilEof_none (I := GoesOn) (goesOn_turn helem) n ⟨breaking_opened bytes, fun _ => h⟩

end XmlParser

namespace WordSplitter

variable {κ : Type} (w : IWord κ)

/-- One turn of the loop: the word that was read is handed over, whether one was read or not. -/
def turn (k : κ) (input : IStream) : (κ ⊕ (κ × Bool)) × IStream :=
  match w k (clean (input.word isSpace).1) with
  | (k', false) => (.inr (k', false), (input.word isSpace).2)
  | (k', true) => (.inl k', (input.word isSpace).2)

/-- `WordSplitter::process` on a stream, with at most `n` turns of its loop. -/
def readLoop (n : Nat) (k : κ) (input : IStream) : Option (κ × Bool) :=
  untilEof (turn w) (fun k => (k, true)) n k input

variable {w}

theorem turn_next {k : κ} {input : IStream} (h : (w k (clean (input.word isSpace).1)).2 = true) :
    turn w k input = (.inl (w k (clean (input.word isSpace).1)).1, (input.word isSpace).2) := by
  unfold turn
  split
  · next h' => rw [h'] at h; cases h
  · next h' => rw [h']

theorem turn_return {k : κ} {input : IStream}
    (h : (w k (clean (input.word isSpace).1)).2 = false) :
    turn w k input =
      (.inr ((w k (clean (input.word isSpace).1)).1, false), (input.word isSpace).2) := by
  unfold turn
  split
  · next h' => rw [h']
  · next h' => rw [h'] at h; cases h

/-- A read from a good stream takes what `extract` takes. -/
theorem word_opened (bytes : Str) (throws : Bool) :
    ((opened bytes throws).word isSpace).1 = (extract bytes).1 := by
  have hrest : (opened bytes throws).rest = bytes := rfl
  rw [IStream.word, if_pos (good_opened bytes throws)]
  simp only
  split
  · next h =>
    rw [hrest] at h
    rw [extract, h]
    rfl
  · rfl

/-- Behind a word that is not the last the stream is good. -/
theorem word_opened_rest {bytes : Str} (h : (extract bytes).2 ≠ []) (throws : Bool) :
    ((opened bytes throws).word isSpace).2 = opened (extract bytes).2 throws := by
  have hrest : (opened bytes throws).rest = bytes := rfl
  have htext : (opened bytes throws).rest.dropWhile isSpace ≠ [] := by
    rw [hrest]
    intro hnil
    rw [extract, hnil] at h
    exact h rfl
  rw [IStream.word, if_pos (good_opened bytes throws)]
  simp only
  rw [if_neg htext]
  exact if_neg h

/-- The read that comes to the end of the bytes sets `eofbit`. -/
theorem word_opened_last {bytes : Str} (h : (extract bytes).2 = []) :
    ((opened bytes false).word isSpace).2.eofbit = true := by
  rw [IStream.word, if_pos (good_opened bytes false)]
  simp only
  split
  · rfl
  · exact (congrArg IStream.eofbit (if_pos h)).trans (exhaust_eofbit rfl)

/-- **The loop over a stream that ends** takes at most a turn for every byte and one more. -/
theorem readLoop_eq (k : κ) (bytes : Str) :
    readLoop w (bytes.length + 1) k (opened bytes false) = some (process w k bytes) := by
  unfold readLoop process
  induction bytes using words.induct generalizing k with
  | case1 bytes h =>
    rw [words, dif_pos h, ← word_opened bytes false]
    cases hw : (w k (clean ((opened bytes false).word isSpace).1)).2 with
    | true =>
      rw [feed_cons_true hw, feed_nil, untilEof_next rfl (turn_next hw),
        untilEof_end (word_opened_last h)]
    | false => rw [feed_cons_false hw, untilEof_return rfl (turn_return hw)]
  | case2 bytes h ih =>
    rw [words, dif_neg h, ← word_opened bytes false]
    cases hw : (w k (clean ((opened bytes false).word isSpace).1)).2 with
    | true =>
      rw [feed_cons_true hw, untilEof_next rfl (turn_next hw), word_opened_rest h]
      -- what was read leaves fewer bytes, and so fewer turns
      have hlt := extract_length bytes h
      have hn : bytes.length =
          (extract bytes).2.length + 1 + (bytes.length - ((extract bytes).2.length + 1)) := by omega
      rw [hn]
      exact untilEof_add (ih _) _
    | false => rw [feed_cons_false hw, untilEof_return rfl (turn_return hw)]

/-- **A broken stream keeps the splitter reading**, whatever it has delivered. -/
theorem readLoop_breaking (hw : ∀ k s, (w k s).2 = true) (n : Nat) (k : κ) (bytes : Str) :
    readLoop w n k (opened bytes true) = none := by
  have hstep : ∀ (k : κ) (input : IStream), Breaking input → input.eofbit = false ∧
      ∃ k' input', turn w k input = (.inl k', input') ∧ Breaking input' :=
    fun k input h => ⟨h.eofbit, _, _, turn_next (hw _ _), h.word isSpace⟩
  exact untilEof_none (I := fun _ input => Breaking input) hstep n (breaking_opened bytes)

end WordSplitter

/-! ## Both loops

Both loops test `eof` only. A stream that breaks never sets it, and what `get` returns is handed on.
-/

/-- Both loops end within so many turns, with callbacks that return `true`. -/
def ReadingEnds (n : Nat) (input : IStream) : Prop :=
  (∀ (σ : Type) (elem : IXmlElement σ) (e : σ), (∀ e a, (elem e a).2 = true) →
    (XmlParser.readLoop elem n e input).isSome = true) ∧
  ∀ (κ : Type) (w : IWord κ) (k : κ), (∀ k s, (w k s).2 = true) →
    (WordSplitter.readLoop w n k input).isSome = true

theorem readingEnds_opened (bytes : Str) (c : Nat) :
    ReadingEnds (bytes.length + 1 + c) (opened bytes false) := by
  refine ⟨fun σ elem e _ => ?_, fun κ w k _ => ?_⟩
  · rw [XmlParser.readLoop, untilEof_add (XmlParser.readLoop_eq e bytes) c]
    rfl
  · rw [WordSplitter.readLoop, untilEof_add (WordSplitter.readLoop_eq k bytes) c]
    rfl

/-- Over a stream that throws neither does, whatever the fuel. -/
theorem not_readingEnds_breaking (bytes : Str) (n : Nat) :
    ¬ ReadingEnds n (opened bytes true) := by
  rintro ⟨-, hwords⟩
  have := hwords Unit (fun k _ => (k, true)) () fun _ _ => rfl
  rw [WordSplitter.readLoop_breaking fun _ _ => rfl] at this
  cases this

/-- **Reading ends** within a turn for every byte and a constant exactly if the stream comes to
its end and does not break. -/
theorem reading_ends_iff (bytes : Str) (throws : Bool) (c : Nat) :
    ReadingEnds (bytes.length + 1 + c) (opened bytes throws) ↔ throws = false := by
  cases throws with
  | false => exact iff_of_true (readingEnds_opened bytes c) rfl
  | true => exact iff_of_false (not_readingEnds_breaking bytes _) Bool.true_eq_false_eq_False.elim

/-- A stream that breaks before its first byte is read for ever, by both loops. -/
theorem broken_at_once_reads_on :
    ¬ ∃ n, ReadingEnds n (opened [] true) ∨
      (XmlParser.readLoop (fun (u : Unit) _ => (u, true)) n () (opened [] true)).isSome = true := by
  rintro ⟨n, h | h⟩
  · exact not_readingEnds_breaking [] n h
  · rw [XmlParser.readLoop_breaking (fun _ _ => rfl) rfl] at h
    cases h

end Skweltch
