import Skweltch.Vent.XmlParser

/-!
# Skweltch — the calls of the XML parser

In which order `XmlParser::process` (`vent/XmlParser.cpp`) calls an `IXmlElement` back, for any
bytes and any answers. `Moves` is what a byte can do to the state of the parser; the order of the
calls follows from it by induction over the bytes.
-/

namespace Skweltch

open Callbacks

/-- What the calls come in. -/
inductive IsBlock : List XmlCall → Prop
  | content (s : Str) : IsBlock [.content s]
  | pi (s : Str) : IsBlock [.pi s]
  | endTag (s : Str) : IsBlock [.endTag s]
  | startTag (s : Str) (attrs : List Str) :
    IsBlock (.startTag s :: (attrs.map XmlCall.attr ++ [.endAttr]))

def XmlCall.isContent : XmlCall → Bool
  | .content _ => true
  | _ => false

/-- **The protocol** that a sequence of calls keeps to. -/
structure Protocol (made : List XmlCall) : Prop where
  blocks : ∃ bs : List (List XmlCall), (∀ b ∈ bs, IsBlock b) ∧ made <+: bs.flatten
  nonempty : XmlCall.content [] ∉ made
  apart : made.IsChain fun a b => ¬ (a.isContent = true ∧ b.isContent = true)

/-- A protocol that is broken off is kept up to there. -/
theorem Protocol.of_prefix {made more : List XmlCall} (h : Protocol more) (hmade : made <+: more) :
    Protocol made where
  blocks := by
    obtain ⟨bs, hbs, hmore⟩ := h.blocks
    exact ⟨bs, hbs, hmade.trans hmore⟩
  nonempty hmem := h.nonempty (hmade.subset hmem)
  apart := h.apart.prefix hmade

namespace XmlParser

/-- What a byte can do: from where to where, with which calls. -/
inductive Moves : Where → List XmlCall → Option Where → Prop
  /-- the byte is collected, or dropped -/
  | stay (w : Where) : Moves w [] (some w)
  | opened : Moves .start [] (some .intag)
  | openAfter {s : Str} (collected : s ≠ []) : Moves .start [.content s] (some .intag)
  | stray : Moves .start [] none
  | question : Moves .intag [] (some .inpi)
  | named (s : Str) : Moves .intag [.startTag s] (some .inattr)
  | attr (s : Str) : Moves .inattr [.attr s] (some .inattr)
  | closeAttr (s : Str) : Moves .inattr [.attr s, .endAttr] (some .start)
  | closeStart (s : Str) : Moves .intag [.startTag s, .endAttr] (some .start)
  | closeEnd (s : Str) : Moves .intag [.endTag s] (some .start)
  | closePi (s : Str) : Moves .inpi [.pi s] (some .start)

/-- What one character can do, by the state. -/
theorem onChar_moves (st : State) (c : Char) :
    Moves st.state (onChar st c).1 ((onChar st c).2.map State.state) := by
  obtain ⟨w, s⟩ := st
  unfold onChar
  -- the same order of cases as in the parser
  by_cases hopen : c = '<'
  · rw [if_pos hopen]
    cases w with
    | start =>
      by_cases hs : s = []
      · rw [if_pos hs]
        exact .opened
      · rw [if_neg hs]
        exact .openAfter hs
    | _ => exact .stay _
  rw [if_neg hopen]
  by_cases hquestion : c = '?'
  · rw [if_pos hquestion]
    cases w with
    | intag => exact .question
    | _ => exact .stay _
  rw [if_neg hquestion]
  by_cases hblank : c = ' '
  · rw [if_pos hblank]
    cases w with
    | inattr => exact .attr s
    | intag => exact .named s
    | _ => exact .stay _
  rw [if_neg hblank]
  by_cases hclose : c = '>'
  · rw [if_pos hclose]
    cases w with
    | start => exact .stray
    | inattr => exact .closeAttr s
    | intag =>
      by_cases hend : s.head? = some '/'
      · simp only [if_pos hend]
        exact .closeEnd s.tail
      · simp only [if_neg hend]
        exact .closeStart s
    | inpi => exact .closePi s
  · rw [if_neg hclose]
    exact .stay _

/-- Where the parser gives up it calls nothing. -/
theorem Moves.nil_of_none {w : Where} {calls : List XmlCall} (h : Moves w calls none) :
    calls = [] := by
  cases h
  rfl

/-- The calls of a scan, from its first byte. -/
theorem scan_cases (st : State) (c : Char) (cs : List Char) :
    (∃ calls st', Moves st.state calls (some st'.state) ∧
      (scan st (c :: cs)).1 = calls ++ (scan st' cs).1) ∨ (scan st (c :: cs)).1 = [] := by
  have hmoves := onChar_moves st c
  rw [scan]
  cases hst : (onChar st c).2 with
  | none =>
    rw [hst] at hmoves
    exact Or.inr hmoves.nil_of_none
  | some st' =>
    rw [hst] at hmoves
    exact Or.inl ⟨_, st', hmoves, rfl⟩

/-! ## Blocks

A block is one call, or a start tag with its attributes up to their end. Where the parser is in a
block is read off its state, and each character either moves on in it or begins another. -/

/-- Blocks that the calls begin, where a start tag may already be open. -/
def Fits (w : Where) (out : List XmlCall) : Prop :=
  ∃ (attrs : List Str) (bs : List (List XmlCall)), (∀ b ∈ bs, IsBlock b) ∧
    out <+: (if w = .inattr then attrs.map XmlCall.attr ++ [.endAttr] else []) ++ bs.flatten

theorem fits_nil (w : Where) : Fits w [] := ⟨[], [], by simp, List.nil_prefix⟩

/-- Outside of a start tag it does not matter where. -/
theorem Fits.of_ne {w w' : Where} {out : List XmlCall} (h : Fits w out) (hw : w ≠ .inattr)
    (hw' : w' ≠ .inattr) : Fits w' out := by
  obtain ⟨attrs, bs, hbs, hout⟩ := h
  rw [if_neg hw] at hout
  exact ⟨attrs, bs, hbs, by rwa [if_neg hw']⟩

/-- A whole block before what fits. -/
theorem Fits.block {w w' : Where} {b out : List XmlCall} (h : Fits w out) (hw : w ≠ .inattr)
    (hw' : w' ≠ .inattr) (hb : IsBlock b) : Fits w' (b ++ out) := by
  obtain ⟨attrs, bs, hbs, hout⟩ := h
  rw [if_neg hw, List.nil_append] at hout
  refine ⟨attrs, b :: bs, List.forall_mem_cons.mpr ⟨hb, hbs⟩, ?_⟩
  rw [if_neg hw', List.nil_append, List.flatten_cons]
  exact (List.prefix_append_right_inj b).mpr hout

/-- The name of a start tag opens a block. -/
theorem Fits.named {out : List XmlCall} (h : Fits .inattr out) (s : Str) :
    Fits .intag (.startTag s :: out) := by
  obtain ⟨attrs, bs, hbs, hout⟩ := h
  refine ⟨[], (.startTag s :: (attrs.map XmlCall.attr ++ [.endAttr])) :: bs,
    List.forall_mem_cons.mpr ⟨.startTag s attrs, hbs⟩, ?_⟩
  exact List.cons_prefix_cons.mpr ⟨rfl, hout⟩

theorem Fits.attr {out : List XmlCall} (h : Fits .inattr out) (s : Str) :
    Fits .inattr (.attr s :: out) := by
  obtain ⟨attrs, bs, hbs, hout⟩ := h
  exact ⟨s :: attrs, bs, hbs, List.cons_prefix_cons.mpr ⟨rfl, hout⟩⟩

/-- The end of the attributes closes it. -/
theorem Fits.endAttr {out : List XmlCall} (h : Fits .start out) :
    Fits .inattr (.endAttr :: out) := by
  obtain ⟨attrs, bs, hbs, hout⟩ := h
  exact ⟨[], bs, hbs, List.cons_prefix_cons.mpr ⟨rfl, hout⟩⟩

/-- Calls that move to a state fit before those that fit there. -/
theorem fits_moves {w w' : Where} {calls out : List XmlCall} (h : Moves w calls (some w'))
    (hout : Fits w' out) : Fits w (calls ++ out) := by
  cases h with
  | stay => exact hout
  | opened => exact hout.of_ne (by decide) (by decide)
  | openAfter => exact hout.block (by decide) (by decide) (.content _)
  | question => exact hout.of_ne (by decide) (by decide)
  | named s => exact hout.named s
  | attr s => exact hout.attr s
  | closeAttr s => exact hout.endAttr.attr s
  | closeStart s => exact hout.endAttr.named s
  | closeEnd s => exact hout.block (by decide) (by decide) (.endTag s)
  | closePi s => exact hout.block (by decide) (by decide) (.pi s)

/-- What every scan preserves, by induction on the text. -/
theorem scan_fits (st : State) (cs : List Char) : Fits st.state (scan st cs).1 := by
  induction cs generalizing st with
  | nil => exact fits_nil _
  | cons c cs ih =>
    rcases scan_cases st c cs with ⟨calls, st', hmoves, hscan⟩ | hscan
    · rw [hscan]
      exact fits_moves hmoves (ih st')
    · rw [hscan]
      exact fits_nil _

/-! ## Contents

Text is handed over between two tags only, and once: no two calls with text stand next to each
other. -/

/-- Apart, and not beginning with a content unless the parser stands between tags. -/
def Apart (w : Where) (out : List XmlCall) : Prop :=
  (out.IsChain fun a b => ¬ (a.isContent = true ∧ b.isContent = true)) ∧
    (w ≠ .start → ∀ a ∈ out.head?, a.isContent = false) ∧ XmlCall.content [] ∉ out

theorem apart_nil (w : Where) : Apart w [] := by
  refine ⟨List.isChain_nil, fun _ a ha => ?_, List.not_mem_nil⟩
  cases ha

/-- A call that is no content keeps what is behind it apart. -/
theorem Apart.cons {w w' : Where} {a : XmlCall} {out : List XmlCall} (h : Apart w out)
    (ha : a.isContent = false) : Apart w' (a :: out) := by
  obtain ⟨hchain, -, hne⟩ := h
  refine ⟨List.isChain_cons.mpr ⟨fun b _ hab => ?_, hchain⟩, fun _ b hb => ?_, ?_⟩
  · rw [ha] at hab
    cases hab.1
  · obtain rfl := Option.some.inj hb
    exact ha
  · rw [List.mem_cons, not_or]
    refine ⟨?_, hne⟩
    rintro rfl
    cases ha

/-- Calls that move to a state keep the contents apart, with those that do so from there. -/
theorem apart_moves {w w' : Where} {calls out : List XmlCall} (h : Moves w calls (some w'))
    (hout : Apart w' out) : Apart w (calls ++ out) := by
  obtain ⟨hchain, hhead, hne⟩ := hout
  cases h with
  | stay => exact ⟨hchain, hhead, hne⟩
  | opened => exact ⟨hchain, fun h => absurd rfl h, hne⟩
  | @openAfter s collected =>
    -- the tag that is open now is closed, or named, before another content
    have hhead := hhead (by decide)
    refine ⟨List.isChain_cons.mpr ⟨fun b hb hab => ?_, hchain⟩, fun h => absurd rfl h, ?_⟩
    · rw [hhead b hb] at hab
      cases hab.2
    · rw [List.singleton_append, List.mem_cons, not_or]
      refine ⟨fun h => ?_, hne⟩
      exact collected (XmlCall.content.inj h).symm
  | question => exact ⟨hchain, fun _ => hhead (by decide), hne⟩
  | named | attr | closeEnd | closePi => exact Apart.cons ⟨hchain, hhead, hne⟩ rfl
  | closeAttr | closeStart =>
    exact Apart.cons (w := .start) (Apart.cons ⟨hchain, hhead, hne⟩ rfl) rfl

/-- What every scan preserves for the contents, by induction on the text. -/
theorem scan_apart (st : State) (cs : List Char) : Apart st.state (scan st cs).1 := by
  induction cs generalizing st with
  | nil => exact apart_nil _
  | cons c cs ih =>
    rcases scan_cases st c cs with ⟨calls, st', hmoves, hscan⟩ | hscan
    · rw [hscan]
      exact apart_moves hmoves (ih st')
    · rw [hscan]
      exact apart_nil _

theorem calls_protocol (input : Str) : Protocol (calls input) where
  blocks := by
    obtain ⟨_, bs, hbs, hout⟩ := scan_fits init input
    exact ⟨bs, hbs, hout⟩
  nonempty := (scan_apart init input).2.2
  apart := (scan_apart init input).1

/-- The calls that are made, with their answers. -/
def made {σ : Type} (elem : IXmlElement σ) (input : Str) (e : σ) : List (XmlCall × Bool) :=
  (process (answered elem) input (e, [])).1.2

theorem made_eq {σ : Type} (elem : IXmlElement σ) (input : Str) (e : σ) :
    made elem input e = exchange elem e (calls input) := by
  rw [made, process_eq_feed, feed_answered, List.nil_append]

/-- **The callback protocol.** Whatever the bytes and whatever the answers, the calls made keep to
the protocol, and an answer `false` ends them and the parse. -/
theorem process_protocol {σ : Type} (elem : IXmlElement σ) (input : Str) (e : σ) :
    Protocol ((made elem input e).map Prod.fst) ∧
      ∀ before a after, made elem input e = before ++ (a, false) :: after →
        after = [] ∧ (process elem input e).2 = false := by
  rw [made_eq]
  refine ⟨?_, fun before a after hlog => ?_⟩
  · rw [exchange_fst]
    exact Protocol.of_prefix (calls_protocol input) <| given_prefix e _
  · obtain ⟨hafter, hfeed⟩ := exchange_false hlog
    refine ⟨hafter, ?_⟩
    rw [process_eq_feed, hfeed]
    rfl

end XmlParser

end Skweltch
