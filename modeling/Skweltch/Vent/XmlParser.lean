import Skweltch.Lib.Callbacks
import Skweltch.Msg

/-!
# Skweltch — the XML parser

`XmlParser::process` (`vent/XmlParser.cpp`) reads a byte at a time and calls an `IXmlElement` back.
`onChar` is the body of its loop: the calls a byte leads to and the state after them. The calls do
not depend on the answers, an answer `false` only ends the parse; `process_eq_feed` says so.
-/

namespace Skweltch

open Callbacks

inductive XmlCall where
  | pi (s : Str)
  | startTag (s : Str)
  | attr (s : Str)
  | endAttr
  | endTag (s : Str)
  | content (s : Str)
deriving DecidableEq, Repr

abbrev IXmlElement (σ : Type) := Handler σ XmlCall

namespace XmlParser

inductive Where where
  | start
  | inpi
  | intag
  | inattr
deriving DecidableEq, Repr

/-- The local variables of `XmlParser::process`. -/
structure State where
  state : Where
  s : Str
deriving DecidableEq, Repr

def init : State := { state := .start, s := [] }

/-- One byte: the calls it leads to and the state after them; `none` where the parser returns
`false` by itself. -/
def onChar (st : State) (c : Char) : List XmlCall × Option State :=
  if c = '<' then
    match st.state with
    -- what has been collected since the last end tag
    | .start => (if st.s = [] then [] else [.content st.s], some { state := .intag, s := [] })
    -- logged as a nested `<` and dropped
    | _ => ([], some st)
  else if c = '?' then
    match st.state with
    | .intag => ([], some { st with state := .inpi })
    | _ => ([], some { st with s := st.s ++ [c] })
  else if c = ' ' then
    match st.state with
    | .inattr => ([.attr st.s], some { st with s := [] })
    | .intag => ([.startTag st.s], some { state := .inattr, s := [] })
    | _ => ([], some { st with s := st.s ++ [c] })
  else if c = '>' then
    match st.state with
    | .start => ([], none)
    | .inattr => ([.attr st.s, .endAttr], some init)
    | .intag =>
      if st.s.head? = some '/' then ([.endTag st.s.tail], some init)
      else ([.startTag st.s, .endAttr], some init)
    | .inpi => ([.pi st.s], some init)
  else ([], some { st with s := st.s ++ [c] })

/-- The loop over the input, with the answers of the element. -/
def loop {σ : Type} (elem : IXmlElement σ) : State → σ → List Char → σ × Bool
  | _, e, [] => (e, true)
  | st, e, c :: cs =>
    match feed elem e (onChar st c).1 with
    | (e', false) => (e', false)
    | (e', true) =>
      match (onChar st c).2 with
      | none => (e', false)
      | some st' => loop elem st' e' cs

/-- What `get` returns at the end of the input, as a `char`. -/
def eof : Char := Char.ofNat 255

/-- `XmlParser::process`. The loop tests for the end of the input before it reads, so that it goes
round once more with the value of a failed `get`. -/
def process {σ : Type} (elem : IXmlElement σ) (input : Str) (e : σ) : σ × Bool :=
  loop elem init e (input ++ [eof])

/-! ## The parser as a producer of calls

The parser calls its element as it reads, and the element may stop it. So a text determines a list
of calls of which the element is given the first few. -/

/-- The calls for the input, as long as all answers are `true`, and whether the end is reached. -/
def scan : State → List Char → List XmlCall × Bool
  | _, [] => ([], true)
  | st, c :: cs =>
    match (onChar st c).2 with
    | none => ((onChar st c).1, false)
    | some st' => ((onChar st c).1 ++ (scan st' cs).1, (scan st' cs).2)

def calls (input : Str) : List XmlCall := (scan init input).1

def accepts (input : Str) : Bool := (scan init input).2

theorem scan_cons_some {st st' : State} {c : Char} {out : List XmlCall}
    (h : onChar st c = (out, some st')) (cs : List Char) :
    scan st (c :: cs) = (out ++ (scan st' cs).1, (scan st' cs).2) := by
  simp [scan, h]

theorem scan_cons_none {st : State} {c : Char} {out : List XmlCall}
    (h : onChar st c = (out, none)) (cs : List Char) : scan st (c :: cs) = (out, false) := by
  simp [scan, h]

/-- The value of the failed `get` is collected like any other byte and never looked at. -/
theorem scan_eof (st : State) (cs : List Char) : scan st (cs ++ [eof]) = scan st cs := by
  induction cs generalizing st with
  | nil =>
    have h : onChar st eof = ([], some { st with s := st.s ++ [eof] }) := by
      rw [onChar, if_neg (by decide), if_neg (by decide), if_neg (by decide), if_neg (by decide)]
    exact scan_cons_some h []
  | cons c cs ih =>
    rw [List.cons_append, scan, scan]
    cases (onChar st c).2 with
    | none => rfl
    | some st' => simp only [ih]

/-- **The parser feeds its calls to the element.** -/
theorem loop_eq_feed {σ : Type} (elem : IXmlElement σ) (st : State) (e : σ) (cs : List Char) :
    loop elem st e cs =
      ((feed elem e (scan st cs).1).1, (feed elem e (scan st cs).1).2 && (scan st cs).2) := by
  induction cs generalizing st e with
  | nil => rfl
  | cons c cs ih =>
    rw [loop, scan]
    cases hstate : (onChar st c).2 with
    | none =>
      cases h : feed elem e (onChar st c).1 with
      | mk e' ok => cases ok <;> simp
    | some st' =>
      cases h : feed elem e (onChar st c).1 with
      | mk e' ok => cases ok <;> simp [feed_append, h, ih]

theorem process_eq_feed {σ : Type} (elem : IXmlElement σ) (input : Str) (e : σ) :
    process elem input e =
      ((feed elem e (calls input)).1, (feed elem e (calls input)).2 && accepts input) := by
  rw [process, loop_eq_feed, scan_eof]
  rfl

/-! ## Stretches of input

What is read of a stretch does not depend on what stands behind it. The rules go from a single
character to the tags, and the results about documents are put together from them. -/

theorem not_mem_cons {a c : Char} {cs : List Char} : a ∉ c :: cs ↔ a ≠ c ∧ a ∉ cs := by
  simp

/-- From one state to another over a stretch of input, making these calls. -/
def Scans (st : State) (cs : List Char) (out : List XmlCall) (st' : State) : Prop :=
  ∀ rest, scan st (cs ++ rest) = (out ++ (scan st' rest).1, (scan st' rest).2)

theorem Scans.nil (st : State) : Scans st [] [] st := fun _ => rfl

theorem Scans.append {st st' st'' : State} {cs ds : List Char} {out out' : List XmlCall}
    (h : Scans st cs out st') (h' : Scans st' ds out' st'') :
    Scans st (cs ++ ds) (out ++ out') st'' := by
  intro rest
  rw [List.append_assoc, h, h', List.append_assoc]

theorem Scans.single {st st' : State} {c : Char} {out : List XmlCall}
    (h : onChar st c = (out, some st')) : Scans st [c] out st' :=
  fun rest => scan_cons_some h rest

theorem onChar_other {c : Char} (h1 : c ≠ '<') (h2 : c ≠ '?') (h3 : c ≠ ' ') (h4 : c ≠ '>')
    (st : State) : onChar st c = ([], some { st with s := st.s ++ [c] }) := by
  rw [onChar, if_neg h1, if_neg h2, if_neg h3, if_neg h4]

/-- Text between tags is kept and makes no call. -/
theorem scans_text {t : Str} (hlt : '<' ∉ t) (hgt : '>' ∉ t) (s : Str) :
    Scans { state := .start, s := s } t [] { state := .start, s := s ++ t } := by
  induction t generalizing s with
  | nil => simpa using Scans.nil _
  | cons c t ih =>
    obtain ⟨hc1, hvlt⟩ := not_mem_cons.mp hlt
    obtain ⟨hc2, hvgt⟩ := not_mem_cons.mp hgt
    have step : onChar { state := .start, s := s } c =
        ([], some { state := .start, s := s ++ [c] }) := by
      rw [onChar, if_neg (Ne.symm hc1)]
      by_cases h1 : c = '?'
      · rw [if_pos h1]
      · rw [if_neg h1]
        by_cases h2 : c = ' '
        · rw [if_pos h2]
        · rw [if_neg h2, if_neg (Ne.symm hc2)]
    simpa using (Scans.single step).append (ih hvlt hvgt (s ++ [c]))

/-- What opens a tag: the text before it is handed over. -/
theorem scans_open (s : Str) :
    Scans { state := .start, s := s } ['<'] (if s = [] then [] else [.content s])
      { state := .intag, s := [] } :=
  Scans.single (by rw [onChar, if_pos rfl])

/-- The calls for what stands after the first blank of a tag, with `s` collected so far. -/
def attrCalls : Str → Str → List XmlCall
  | s, [] => [.attr s, .endAttr]
  | s, c :: cs => if c = ' ' then .attr s :: attrCalls [] cs else attrCalls (s ++ [c]) cs

/-- The attributes of a tag, up to its end. -/
theorem scans_attrs {v : Str} (hlt : '<' ∉ v) (hgt : '>' ∉ v) (s : Str) :
    Scans { state := .inattr, s := s } (v ++ ['>']) (attrCalls s v) init := by
  induction v generalizing s with
  | nil => exact Scans.single rfl
  | cons c v ih =>
    obtain ⟨hc1, hvlt⟩ := not_mem_cons.mp hlt
    obtain ⟨hc2, hvgt⟩ := not_mem_cons.mp hgt
    rw [attrCalls]
    by_cases hsp : c = ' '
    · subst hsp
      rw [if_pos rfl]
      have step : Scans { state := .inattr, s := s } [' '] [.attr s]
          { state := .inattr, s := [] } := Scans.single rfl
      exact step.append (ih hvlt hvgt [])
    · rw [if_neg hsp]
      have step : onChar { state := .inattr, s := s } c =
          ([], some { state := .inattr, s := s ++ [c] }) := by
        rw [onChar, if_neg (Ne.symm hc1)]
        by_cases h1 : c = '?'
        · rw [if_pos h1]
        · rw [if_neg h1, if_neg hsp, if_neg (Ne.symm hc2)]
      exact (Scans.single step).append (ih hvlt hvgt (s ++ [c]))

/-- The calls for what stands in a tag, with `s` of its name collected so far. -/
def nameCalls : Str → Str → List XmlCall
  | s, [] => if s.head? = some '/' then [.endTag s.tail] else [.startTag s, .endAttr]
  | s, c :: cs => if c = ' ' then .startTag s :: attrCalls [] cs else nameCalls (s ++ [c]) cs

/-- A tag from its name on, up to its end. -/
theorem scans_name {v : Str} (hlt : '<' ∉ v) (hgt : '>' ∉ v) (hq : '?' ∉ v.takeWhile (· ≠ ' '))
    (s : Str) : Scans { state := .intag, s := s } (v ++ ['>']) (nameCalls s v) init := by
  induction v generalizing s with
  | nil =>
    apply Scans.single
    rw [nameCalls, onChar, if_neg (by decide), if_neg (by decide), if_neg (by decide),
      if_pos rfl]
    split_ifs <;> rfl
  | cons c v ih =>
    obtain ⟨hc1, hvlt⟩ := not_mem_cons.mp hlt
    obtain ⟨hc2, hvgt⟩ := not_mem_cons.mp hgt
    rw [nameCalls]
    by_cases hsp : c = ' '
    · subst hsp
      rw [if_pos rfl]
      have step : Scans { state := .intag, s := s } [' '] [.startTag s]
          { state := .inattr, s := [] } := Scans.single rfl
      exact step.append (scans_attrs hvlt hvgt [])
    · rw [if_neg hsp]
      rw [List.takeWhile_cons_of_pos (by simpa using hsp)] at hq
      obtain ⟨hc3, hvq⟩ := not_mem_cons.mp hq
      have step := onChar_other (Ne.symm hc1) (Ne.symm hc3) hsp (Ne.symm hc2)
        { state := .intag, s := s }
      exact (Scans.single step).append (ih hvlt hvgt hvq (s ++ [c]))

/-- **A whole tag**: after its `>` the parser is where it started. -/
theorem scans_tag {v : Str} (hlt : '<' ∉ v) (hgt : '>' ∉ v) (hq : '?' ∉ v.takeWhile (· ≠ ' '))
    (s : Str) :
    Scans { state := .start, s := s } ('<' :: (v ++ ['>']))
      ((if s = [] then [] else [.content s]) ++ nameCalls [] v) init :=
  (scans_open s).append (scans_name hlt hgt hq [])

theorem scan_stray {t : Str} (hlt : '<' ∉ t) (hgt : '>' ∉ t) (s rest : Str) :
    scan { state := .start, s := s } (t ++ '>' :: rest) = ([], false) := by
  have step : onChar { state := .start, s := s ++ t } '>' = ([], none) := rfl
  rw [scans_text hlt hgt, scan_cons_none step]
  rfl

/-- An end tag is only reported at its `>`. -/
theorem endTag_not_mem_of_no_gt {cs : Str} (hgt : '>' ∉ cs) (st : State) (s : Str) :
    XmlCall.endTag s ∉ (scan st cs).1 := by
  induction cs generalizing st with
  | nil => simp [scan]
  | cons c cs ih =>
    obtain ⟨hc, hvgt⟩ := not_mem_cons.mp hgt
    have hout : XmlCall.endTag s ∉ (onChar st c).1 := by
      unfold onChar
      rw [if_neg (Ne.symm hc)]
      split_ifs <;> (cases st.state <;> simp)
    rw [scan]
    cases (onChar st c).2 with
    | none => exact hout
    | some st' =>
      rw [List.mem_append, not_or]
      exact ⟨hout, ih hvgt st'⟩

end XmlParser

end Skweltch
