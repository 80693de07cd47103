import Mathlib.Data.List.TakeWhile
import Skweltch.Vent.ChunkSlices
import Skweltch.Vent.XmlDocument

/-!
# Skweltch — what a path selects

The splitter counts the names of the path that are open and knows no depth. `Fits` says of an
element of a document that its tags leave the count at the number of names its chain matches. When
all elements fit, the chunks are the serialisations of the selected elements, by induction on the
document.
-/

namespace Skweltch

open Callbacks XPathSplitterElem

namespace Xml

/-- What the parser takes for the name in a tag: it only looks for the first blank. -/
def readName (v : Str) : Str := v.takeWhile (· ≠ ' ')

/-- The tags of the element count as they should. On the path the start tag counts up and the end
tag down; off the path neither is taken for the next or the last name matched. An empty-element tag
is never counted down, nor handed on. -/
def Fits (path : List Str) (o : Occurrence) : Prop :=
  match o.body with
  | some (_, gap) =>
    if o.chain <+: path then readName o.tag = o.name.text ∧ gap.text = []
    else path[matched path o.above]? ≠ some (readName o.tag) ∧
      (gap.text = [] → 0 < matched path o.above →
        path[matched path o.above - 1]? ≠ some o.name.text)
  | none => o.chain ≠ path ∧ path[matched path o.above]? ≠ some (readName o.tag)

instance (path : List Str) (o : Occurrence) : Decidable (Fits path o) := by
  unfold Fits
  split <;> infer_instance

section

variable {path above : List Str} {name : Name} {tail : Tail} {kids : Forest} {gap : Gap}

/-- An element on the path fits if those in it do, with its name among those above. -/
theorem Fits.on (h : Fits path { above, name, tail, body := some (kids, gap) })
    (hon : above ++ [name.text] <+: path) :
    readName (startTag name tail) = name.text ∧ gap.text = [] := by
  have hchain : Occurrence.chain { above, name, tail, body := some (kids, gap) } <+: path := hon
  simp only [Fits] at h
  rw [if_pos hchain] at h
  exact h

/-- An element off the path fits if nothing in it, nor its own end, is taken for the path. -/
theorem Fits.off (h : Fits path { above, name, tail, body := some (kids, gap) })
    (hoff : ¬ above ++ [name.text] <+: path) :
    path[matched path above]? ≠ some (readName (startTag name tail)) ∧
      (gap.text = [] → 0 < matched path above →
        path[matched path above - 1]? ≠ some name.text) := by
  have hchain : ¬ Occurrence.chain { above, name, tail, body := some (kids, gap) } <+: path := hoff
  simp only [Fits] at h
  rw [if_neg hchain] at h
  exact h

theorem Fits.empty (h : Fits path { above, name, tail, body := none }) :
    above ++ [name.text] ≠ path ∧
      path[matched path above]? ≠ some (readName (emptyTag name tail)) := h

end

/-! ## Stretches of a document

The splitter is followed along a document in stretches: what the parser reads of one, what is
emitted while it does, and the state that the element is left in. Text that is still in the parser's
hands when a stretch begins is flushed by the next tag. -/

/-- Read between two tags, with the text `s` collected, a stretch of input hands on the chunks
`out`. -/
def Consumes (s : Str) (e : XPathSplitterElem) (cs : Str) (out : List Str) (s' : Str)
    (e' : XPathSplitterElem) : Prop :=
  ∃ calls, XmlParser.Scans { state := .start, s := s } cs calls { state := .start, s := s' } ∧
    emitted next e calls = out ∧ reached next e calls = e'

/-- Stretches one behind the other are consumed one behind the other. -/
theorem Consumes.append {s s' s'' : Str} {e e' e'' : XPathSplitterElem} {cs ds : Str}
    {out out' : List Str} (h : Consumes s e cs out s' e') (h' : Consumes s' e' ds out' s'' e'') :
    Consumes s e (cs ++ ds) (out ++ out') s'' e'' := by
  obtain ⟨calls, hscan, rfl, rfl⟩ := h
  obtain ⟨calls', hscan', rfl, rfl⟩ := h'
  refine ⟨calls ++ calls', hscan.append hscan', ?_, ?_⟩
  · rw [emitted_append]
  · rw [reached_append]

theorem consumes_text (t : Text) (s : Str) (e : XPathSplitterElem) :
    Consumes s e t.text [] (s ++ t.text) e := by
  have hlt : '<' ∉ t.text := fun h => (t.ok _ h).1 rfl
  have hgt : '>' ∉ t.text := fun h => (t.ok _ h).2.1 rfl
  exact ⟨[], XmlParser.scans_text hlt hgt s, rfl, rfl⟩

/-! ## Tags

Which calls a tag makes depends on its first character and on whether it has a blank in it. An end
tag closes an element of the path only by its whole text, so that one with a blank is text of the
chunk. -/

/-- A name before a blank is reported as a start tag, and the attributes follow. -/
theorem nameCalls_blank {u : Str} (hu : ' ' ∉ u) (s w : Str) :
    XmlParser.nameCalls s (u ++ ' ' :: w) = .startTag (s ++ u) :: XmlParser.attrCalls [] w := by
  induction u generalizing s with
  | nil => simp [XmlParser.nameCalls]
  | cons c u ih =>
    obtain ⟨hc, hu⟩ := XmlParser.not_mem_cons.mp hu
    rw [List.cons_append, XmlParser.nameCalls, if_neg (Ne.symm hc), ih hu]
    simp

/-- A tag without a blank is a start or an end tag, by its first character. -/
theorem nameCalls_no_blank {v : Str} (hv : ' ' ∉ v) (s : Str) :
    XmlParser.nameCalls s v =
      if (s ++ v).head? = some '/' then [.endTag (s ++ v).tail]
      else [.startTag (s ++ v), .endAttr] := by
  induction v generalizing s with
  | nil => rw [XmlParser.nameCalls, List.append_nil]
  | cons c v ih =>
    obtain ⟨hc, hv⟩ := XmlParser.not_mem_cons.mp hv
    rw [XmlParser.nameCalls, if_neg (Ne.symm hc), ih hv]
    simp

theorem readName_blank {u : Str} (hu : ' ' ∉ u) (w : Str) : readName (u ++ ' ' :: w) = u := by
  rw [readName, List.takeWhile_append_of_pos, List.takeWhile_cons_of_neg (by simp),
    List.append_nil]
  intro c hc
  have : c ≠ ' ' := fun h => hu (h ▸ hc)
  simpa using this

theorem readName_no_blank {v : Str} (hv : ' ' ∉ v) : readName v = v := by
  rw [readName, List.takeWhile_eq_self_iff]
  intro c hc
  have : c ≠ ' ' := fun h => hv (h ▸ hc)
  simpa using this

def flushed (s : Str) (e : XPathSplitterElem) : XPathSplitterElem :=
  { e with chunk := e.chunk ++ s }

/-- A tag is consumed by the calls that its text makes. -/
theorem consumes_tag {v : Str} (hv : ∀ c ∈ v, IsPlain c) (s : Str) (e : XPathSplitterElem) :
    Consumes s e (angled v) (emitted next (flushed s e) (XmlParser.nameCalls [] v)) []
      (reached next (flushed s e) (XmlParser.nameCalls [] v)) := by
  have hlt : '<' ∉ v := fun h => (hv _ h).1 rfl
  have hgt : '>' ∉ v := fun h => (hv _ h).2.1 rfl
  have hq : '?' ∉ v.takeWhile (· ≠ ' ') := fun h => (hv _ (List.takeWhile_subset _ h)).2.2 rfl
  refine ⟨_, XmlParser.scans_tag hlt hgt hq s, ?_, ?_⟩
  · split
    · next hs => simp [flushed, hs]
    · rfl
  · split
    · next hs => simp [flushed, hs]
    · rfl

/-- A start tag steps along the path if it has the next name, and goes into the chunk otherwise. -/
theorem start_effect {v : Str} (hv : v.head? ≠ some '/' ∨ ' ' ∈ v) (e : XPathSplitterElem) :
    emitted next e (XmlParser.nameCalls [] v) = [] ∧
      reached next e (XmlParser.nameCalls [] v) =
        if e.stack[e.spos]? = some (readName v) then
          { e with spos := e.spos + 1, chunk := angled v }
        else { e with chunk := e.chunk ++ angled v } := by
  by_cases hblank : ' ' ∈ v
  -- with a blank the attributes are put back behind the name
  · obtain ⟨u, w, rfl, hu⟩ := List.eq_append_cons_of_mem hblank
    obtain ⟨hem, hre⟩ := attrCalls_effect (e.startTag u) [] w
    rw [nameCalls_blank hu, readName_blank hu]
    refine ⟨hem, ?_⟩
    show reached next (e.startTag u) (XmlParser.attrCalls [] w) = _
    rw [hre, XPathSplitterElem.startTag]
    split
    · simp [angled]
    · simp [angled]
  · have hhead : ([] ++ v).head? ≠ some '/' := hv.resolve_right hblank
    rw [nameCalls_no_blank hblank, if_neg hhead, readName_no_blank hblank]
    refine ⟨rfl, ?_⟩
    show (e.startTag v).endAttr = _
    rw [XPathSplitterElem.startTag]
    split
    · rfl
    · simp [endAttr, angled]

theorem consumes_open {v : Str} (hv : ∀ c ∈ v, IsPlain c) (hhead : v.head? ≠ some '/') (s : Str)
    {e : XPathSplitterElem} (h : e.stack[e.spos]? = some (readName v)) :
    Consumes s e (angled v) [] [] { e with spos := e.spos + 1, chunk := angled v } := by
  have hopen : (flushed s e).stack[(flushed s e).spos]? = some (readName v) := h
  obtain ⟨hem, hre⟩ := start_effect (Or.inl hhead) (flushed s e)
  have htag := consumes_tag hv s e
  rw [hem, hre, if_pos hopen] at htag
  exact htag

theorem consumes_other {v : Str} (hv : ∀ c ∈ v, IsPlain c) (hhead : v.head? ≠ some '/' ∨ ' ' ∈ v)
    (s : Str) {e : XPathSplitterElem} (h : e.stack[e.spos]? ≠ some (readName v)) :
    Consumes s e (angled v) [] [] { e with chunk := e.chunk ++ s ++ angled v } := by
  have hother : (flushed s e).stack[(flushed s e).spos]? ≠ some (readName v) := h
  obtain ⟨hem, hre⟩ := start_effect hhead (flushed s e)
  have htag := consumes_tag hv s e
  rw [hem, hre, if_neg hother] at htag
  exact htag

theorem end_calls {n : Str} (hn : ' ' ∉ n) :
    XmlParser.nameCalls [] ('/' :: n) = [.endTag n] := by
  have : ' ' ∉ '/' :: n := by simpa using hn
  rw [nameCalls_no_blank this]
  rfl

/-- An end tag that counts down, and hands on the chunk when the whole path is matched. -/
theorem consumes_close {n : Str} (hv : ∀ c ∈ '/' :: n, IsPlain c) (hn : ' ' ∉ n) (s : Str)
    {e : XPathSplitterElem} (h : e.Closes n) :
    Consumes s e (angled ('/' :: n))
      (if e.spos = e.stack.length then [e.chunk ++ s ++ angled ('/' :: n)] else []) []
      { e with spos := e.spos - 1, chunk := e.chunk ++ s ++ angled ('/' :: n) } := by
  have hclose : (flushed s e).Closes n := h
  have htag := consumes_tag hv s e
  rw [end_calls hn] at htag
  simp only [emitted, reached, next, if_pos hclose, List.append_nil] at htag
  exact htag

/-- An end tag that does not close the last element of the path goes into the chunk. -/
theorem consumes_unclosed {n : Str} (hv : ∀ c ∈ '/' :: n, IsPlain c) (hn : ' ' ∉ n) (s : Str)
    {e : XPathSplitterElem} (h : ¬ e.Closes n) :
    Consumes s e (angled ('/' :: n)) [] []
      { e with chunk := e.chunk ++ s ++ angled ('/' :: n) } := by
  have hclose : ¬ (flushed s e).Closes n := h
  have htag := consumes_tag hv s e
  rw [end_calls hn] at htag
  simp only [emitted, reached, next, if_neg hclose, List.append_nil] at htag
  exact htag

/-! ## What stands in the tags of a document -/

theorem IsSpace.isPlain {c : Char} (h : IsSpace c) : IsPlain c := by
  rcases h with rfl | rfl | rfl | rfl <;> decide

theorem startTag_isPlain (name : Name) (tail : Tail) : ∀ c ∈ startTag name tail, IsPlain c := by
  intro c hc
  rcases List.mem_append.mp hc with hc | hc
  · exact (name.ok c hc).1
  · exact tail.ok c hc

theorem emptyTag_isPlain (name : Name) (tail : Tail) : ∀ c ∈ emptyTag name tail, IsPlain c := by
  intro c hc
  rcases List.mem_append.mp hc with hc | hc
  · exact startTag_isPlain name tail c hc
  · rw [List.mem_singleton.mp hc]
    decide

/-- No character of an end tag opens or closes a tag. -/
theorem endTag_isPlain (name : Name) (gap : Gap) : ∀ c ∈ endTag name gap, IsPlain c := by
  intro c hc
  rcases List.mem_cons.mp hc with rfl | hc
  · decide
  · rcases List.mem_append.mp hc with hc | hc
    · exact (name.ok c hc).1
    · exact (gap.ok c hc).isPlain

/-- A tag that begins with a name is no end tag. -/
theorem head?_name (name : Name) (rest : Str) : (name.text ++ rest).head? ≠ some '/' := by
  intro h
  obtain ⟨c, cs, hname⟩ := List.exists_cons_of_ne_nil name.ne_nil
  rw [hname] at h
  have hc : c = '/' := Option.some.inj h
  apply name.slash_not_mem
  rw [hname, hc]
  exact List.mem_cons_self ..

/-! ## The invariant

While a document is read the position of the splitter counts the names of the path that the open
elements match (`Counts`). It is kept by every forest, by induction on it, and what is emitted on
the way is what is selected. -/

variable {path : Path}

/-- The count stands at the names that are matched, and with all of them matched the text since
the last match has not been lost. -/
structure Counts (path : Path) (above : List Str) (e : XPathSplitterElem) : Prop where
  stack_eq : e.stack = path.names
  spos_eq : e.spos = matched path.names above

/-- A stretch that leaves the count as it was, hands on `out` and keeps the text. -/
structure Keeps (path : Path) (above : List Str) (s : Str) (e : XPathSplitterElem) (cs : Str)
    (out : List Str) (s' : Str) (e' : XPathSplitterElem) : Prop where
  consumes : Consumes s e cs out s' e'
  counts : Counts path above e'
  text : e.spos = path.names.length → e'.chunk ++ s' = e.chunk ++ s ++ cs

/-- The invariant of two stretches, one behind the other. -/
theorem Keeps.append {above : List Str} {s s' s'' : Str} {e e' e'' : XPathSplitterElem}
    {cs ds : Str} {out out' : List Str} (h : Keeps path above s e cs out s' e')
    (hpos : e'.spos = e.spos) (h' : Keeps path above s' e' ds out' s'' e'') :
    Keeps path above s e (cs ++ ds) (out ++ out') s'' e'' := by
  refine ⟨h.consumes.append h'.consumes, h'.counts, fun hfull => ?_⟩
  rw [h'.text (hpos.trans hfull), h.text hfull, List.append_assoc]

/-- An end tag off the path is not taken for the last name matched. -/
theorem keeps_endTag_off {above : List Str} {name : Name} {gap : Gap} {e : XPathSplitterElem}
    (hcount : Counts path above e)
    (hfit : gap.text = [] → 0 < matched path.names above →
      path.names[matched path.names above - 1]? ≠ some name.text) (s : Str) :
    Keeps path above s e (angled (endTag name gap)) [] []
      { e with chunk := e.chunk ++ s ++ angled (endTag name gap) } := by
  refine ⟨?_, ⟨hcount.stack_eq, hcount.spos_eq⟩, fun _ => by rw [List.append_nil]⟩
  by_cases hblank : ' ' ∈ name.text ++ gap.text
  · -- a blank makes the parser report it as a start tag
    apply consumes_other (endTag_isPlain name gap) (Or.inr (List.mem_cons_of_mem _ hblank))
    rw [hcount.stack_eq]
    intro h
    have hmem := List.mem_of_getElem? h
    rw [endTag, readName, List.takeWhile_cons_of_pos (by decide)] at hmem
    exact path.slash_not_mem _ hmem
  · apply consumes_unclosed (endTag_isPlain name gap) hblank
    intro h
    obtain ⟨hpos, hlast⟩ := h
    rw [hcount.stack_eq, hcount.spos_eq] at hlast
    rw [hcount.spos_eq] at hpos
    cases hgap : gap.text with
    | nil =>
      rw [hgap, List.append_nil] at hlast
      exact hfit hgap hpos hlast
    | cons c cs =>
      have hc : c ∈ gap.text := by
        rw [hgap]
        exact List.mem_cons_self ..
      exact path.append_space_not_mem hc (gap.ok c hc) (List.mem_of_getElem? hlast)

/-- What the path selects of an element comes before or after what it selects below: nothing below
what is selected is selected. -/
theorem selected_comm {above : List Str} {n chunk : Str} (kids : Forest) :
    kids.selected path.names (above ++ [n]) ++
        (if above ++ [n] = path.names then [chunk] else []) =
      (if above ++ [n] = path.names then [chunk] else []) ++
        kids.selected path.names (above ++ [n]) := by
  split
  · next hsel =>
    rw [Forest.selected_below (by rw [hsel])]
    rfl
  · rw [List.append_nil]
    rfl

/-- An element on the path: its start tag counts up, its end tag counts down and hands it on if it
is selected. -/
theorem keeps_elem_on {above : List Str} {name : Name} {tail : Tail} {kids : Forest} {gap : Gap}
    {e e₁ : XPathSplitterElem} {s s₁ : Str} (hcount : Counts path above e)
    (hon : above ++ [name.text] <+: path.names)
    (hread : readName (startTag name tail) = name.text) (hgap : gap.text = [])
    (hkids : Keeps path (above ++ [name.text]) []
      { e with spos := e.spos + 1, chunk := angled (startTag name tail) } kids.write
      (kids.selected path.names (above ++ [name.text])) s₁ e₁) :
    ∃ e₂, Keeps path above s e
      (angled (startTag name tail) ++ kids.write ++ angled (endTag name gap))
      ((if above ++ [name.text] = path.names then
        [angled (startTag name tail) ++ kids.write ++ angled (endTag name gap)] else []) ++
        kids.selected path.names (above ++ [name.text])) [] e₂ := by
  have habove : above <+: path.names := (List.prefix_append above [name.text]).trans hon
  have hpos : e.spos = above.length := by rw [hcount.spos_eq, matched_of_prefix habove]
  have hlt : above.length < path.names.length := by
    have := hon.length_le
    rw [List.length_append, List.length_singleton] at this
    omega
  have hpos₁ : e₁.spos = above.length + 1 := by
    rw [hkids.counts.spos_eq, matched_of_prefix hon]
    simp
  -- the start tag takes the splitter one name further
  have hopen : Consumes s e (angled (startTag name tail)) [] []
      { e with spos := e.spos + 1, chunk := angled (startTag name tail) } := by
    apply consumes_open (startTag_isPlain name tail) (head?_name name _)
    rw [hcount.stack_eq, hpos, hread]
    exact getElem?_of_prefix hon
  have hend : endTag name gap = '/' :: name.text := by rw [endTag, hgap, List.append_nil]
  -- whatever was read in between, the end tag is that of this name
  have hclose : e₁.Closes name.text := by
    refine ⟨by omega, ?_⟩
    rw [hkids.counts.stack_eq, hpos₁]
    exact getElem?_of_prefix hon
  have htag := consumes_close (hend ▸ endTag_isPlain name gap) name.blank_not_mem s₁ hclose
  have hall := (hopen.append hkids.consumes).append htag
  rw [← hend] at hall
  have hout : (if e₁.spos = e₁.stack.length then
        [e₁.chunk ++ s₁ ++ angled (endTag name gap)] else []) =
      (if above ++ [name.text] = path.names then
        [angled (startTag name tail) ++ kids.write ++ angled (endTag name gap)] else []) := by
    rw [hpos₁, hkids.counts.stack_eq]
    by_cases hsel : above ++ [name.text] = path.names
    · -- the whole path is matched, so that no text was lost below
      have hfull : above.length + 1 = path.names.length := by
        rw [← hsel]
        simp
      have htext := hkids.text (by show e.spos + 1 = _; omega)
      rw [if_pos hsel, if_pos hfull, htext, List.append_nil]
    · have hne : above.length + 1 ≠ path.names.length := by
        intro h
        apply hsel
        apply hon.eq_of_length
        rw [List.length_append, List.length_singleton, h]
      rw [if_neg hsel, if_neg hne]
  rw [List.nil_append, hout, selected_comm] at hall
  refine ⟨_, hall, ⟨hkids.counts.stack_eq, ?_⟩, fun hfull => ?_⟩
  · show e₁.spos - 1 = _
    rw [hpos₁, ← hcount.spos_eq, hpos]
    rfl
  · omega

/-- An element off the path leaves the count alone. -/
theorem keeps_elem_off {above : List Str} {name : Name} {tail : Tail} {kids : Forest} {gap : Gap}
    {e e₁ : XPathSplitterElem} {s s₁ : Str} (hcount : Counts path above e)
    (hoff : ¬ above ++ [name.text] <+: path.names)
    (hstart : path.names[matched path.names above]? ≠ some (readName (startTag name tail)))
    (hend : gap.text = [] → 0 < matched path.names above →
      path.names[matched path.names above - 1]? ≠ some name.text)
    (hkids : Keeps path (above ++ [name.text]) []
      { e with chunk := e.chunk ++ s ++ angled (startTag name tail) } kids.write
      (kids.selected path.names (above ++ [name.text])) s₁ e₁) :
    ∃ e₂, Keeps path above s e
      (angled (startTag name tail) ++ kids.write ++ angled (endTag name gap))
      ((if above ++ [name.text] = path.names then
        [angled (startTag name tail) ++ kids.write ++ angled (endTag name gap)] else []) ++
        kids.selected path.names (above ++ [name.text])) [] e₂ := by
  have hopen : Consumes s e (angled (startTag name tail)) [] []
      { e with chunk := e.chunk ++ s ++ angled (startTag name tail) } := by
    apply consumes_other (startTag_isPlain name tail) (Or.inl (head?_name name _))
    rw [hcount.stack_eq, hcount.spos_eq]
    exact hstart
  have hcount₁ : Counts path above e₁ := by
    refine ⟨hkids.counts.stack_eq, ?_⟩
    rw [hkids.counts.spos_eq, matched_append hoff]
  have hne : above ++ [name.text] ≠ path.names := by
    intro h
    apply hoff
    rw [h]
  -- the end tag is not taken for one of the path
  have hclose := keeps_endTag_off hcount₁ hend s₁
  refine ⟨_, ?_, hclose.counts, fun hfull => ?_⟩
  · have hall := (hopen.append hkids.consumes).append hclose.consumes
    rw [List.nil_append, List.append_nil] at hall
    rw [if_neg hne]
    exact hall
  · have htext := hkids.text hfull
    have hfull₁ : e₁.spos = path.names.length := by
      rw [hcount₁.spos_eq, ← hcount.spos_eq, hfull]
    rw [hclose.text hfull₁, htext]
    simp

/-- A tag without content goes into the chunk and leaves the path where it was. -/
theorem keeps_empty {above : List Str} {name : Name} {tail : Tail} {e : XPathSplitterElem}
    (hcount : Counts path above e)
    (hstart : path.names[matched path.names above]? ≠ some (readName (emptyTag name tail)))
    (s : Str) :
    Keeps path above s e (angled (emptyTag name tail)) [] []
      { e with chunk := e.chunk ++ s ++ angled (emptyTag name tail) } := by
  refine ⟨?_, ⟨hcount.stack_eq, hcount.spos_eq⟩, fun _ => by rw [List.append_nil]⟩
  have hhead : (emptyTag name tail).head? ≠ some '/' := by
    rw [emptyTag, List.append_assoc]
    exact head?_name name _
  apply consumes_other (emptyTag_isPlain name tail) (Or.inl hhead)
  rw [hcount.stack_eq, hcount.spos_eq]
  exact hstart

/-- A document whose elements all fit leaves the count as it was and hands on what is selected, by
induction on the document. -/
theorem keeps_forest (doc : Forest) {above : List Str} {e : XPathSplitterElem}
    (hfits : ∀ o ∈ doc.elements above, Fits path.names o) (hcount : Counts path above e)
    (s : Str) :
    ∃ s' e', Keeps path above s e doc.write (doc.selected path.names above) s' e' := by
  induction doc generalizing above s e with
  | nil =>
    exact ⟨s, e, ⟨[], XmlParser.Scans.nil _, rfl, rfl⟩, hcount, fun _ => (List.append_nil _).symm⟩
  | text t rest ih =>
    obtain ⟨s', e', hrest⟩ := ih hfits hcount (s ++ t.text)
    have htext : Keeps path above s e t.text [] (s ++ t.text) e :=
      ⟨consumes_text t s e, hcount, fun _ => (List.append_assoc _ _ _).symm⟩
    exact ⟨s', e', htext.append rfl hrest⟩
  | elem name tail kids gap rest ihkids ihrest =>
    have hmem : ∀ o, o = { above, name, tail, body := some (kids, gap) } ∨
        o ∈ kids.elements (above ++ [name.text]) ∨ o ∈ rest.elements above →
          Fits path.names o := by
      intro o ho
      apply hfits
      rw [Forest.elements, List.mem_cons, List.mem_append]
      exact ho
    -- the element itself, those in it and those behind it all fit
    have hfit := hmem _ (Or.inl rfl)
    have hkids : ∀ o ∈ kids.elements (above ++ [name.text]), Fits path.names o :=
      fun o ho => hmem o (Or.inr (Or.inl ho))
    have hrest : ∀ o ∈ rest.elements above, Fits path.names o :=
      fun o ho => hmem o (Or.inr (Or.inr ho))
    have helem : ∃ e₂, Keeps path above s e
        (angled (startTag name tail) ++ kids.write ++ angled (endTag name gap))
        ((if above ++ [name.text] = path.names then
          [angled (startTag name tail) ++ kids.write ++ angled (endTag name gap)] else []) ++
          kids.selected path.names (above ++ [name.text])) [] e₂ := by
      by_cases hon : above ++ [name.text] <+: path.names
      · -- on the path one name more is counted while the children are read
        obtain ⟨hread, hgap⟩ := hfit.on hon
        have habove : above <+: path.names := (List.prefix_append above [name.text]).trans hon
        have hcount₁ : Counts path (above ++ [name.text])
            { e with spos := e.spos + 1, chunk := angled (startTag name tail) } := by
          refine ⟨hcount.stack_eq, ?_⟩
          show e.spos + 1 = _
          rw [hcount.spos_eq, matched_of_prefix habove, matched_of_prefix hon]
          simp
        obtain ⟨s₁, e₁, hk⟩ := ihkids hkids hcount₁ []
        exact keeps_elem_on hcount hon hread hgap hk
      · -- off the path the tags are text of the chunk
        obtain ⟨hstart, hend⟩ := hfit.off hon
        have hcount₁ : Counts path (above ++ [name.text])
            { e with chunk := e.chunk ++ s ++ angled (startTag name tail) } := by
          refine ⟨hcount.stack_eq, ?_⟩
          show e.spos = _
          rw [hcount.spos_eq, matched_append hon]
        obtain ⟨s₁, e₁, hk⟩ := ihkids hkids hcount₁ []
        exact keeps_elem_off hcount hon hstart hend hk
    obtain ⟨e₂, he₂⟩ := helem
    -- behind the end tag the position is what it was before the start tag
    obtain ⟨s', e', hr⟩ := ihrest hrest he₂.counts []
    have hpos : e₂.spos = e.spos := by rw [he₂.counts.spos_eq, hcount.spos_eq]
    refine ⟨s', e', ?_⟩
    have := he₂.append hpos hr
    rw [Forest.selected_elem, ← List.append_assoc]
    exact this
  | empty name tail rest ih =>
    obtain ⟨hne, hstart⟩ := Fits.empty (hfits _ (List.mem_cons_self ..))
    have htag := keeps_empty hcount hstart s
    obtain ⟨s', e', hr⟩ := ih (fun o ho => hfits o (List.mem_cons_of_mem _ ho)) htag.counts []
    refine ⟨s', e', ?_⟩
    rw [Forest.selected_empty hne]
    exact htag.append rfl hr

/-- **The splitter selects by path where all elements fit.** What it hands to the `IChunk`, up to the
first chunk that is refused, are the serialisations of the elements whose chain of names is the
path, in document order. -/
theorem delivered_selected {κ : Type} (ch : IChunk κ) (k : κ) (path : Path) (doc : Forest)
    (h : ∀ o ∈ doc.elements [], Fits path.names o) :
    XPathSplitter.delivered ch k path.text doc.write =
      given ch k (doc.selected path.names []) := by
  have hcount : Counts path [] (XPathSplitterElem.init path.text) := by
    refine ⟨path.splitOn_text, ?_⟩
    rw [matched_nil]
    rfl
  obtain ⟨s', e', ⟨calls, hscan, hem, -⟩, -⟩ := keeps_forest doc h hcount []
  have hcalls : XmlParser.calls doc.write = calls := by
    have := hscan []
    rw [List.append_nil] at this
    rw [XmlParser.calls, XmlParser.init, this]
    exact List.append_nil _
  rw [XPathSplitter.delivered_eq, XPathSplitter.chunks, hcalls, hem]

def nameA : Name := ⟨"a".toList, by decide, by simp [IsPlain, IsSpace]⟩

def nameB : Name := ⟨"b".toList, by decide, by simp [IsPlain, IsSpace]⟩

def nameC : Name := ⟨"c".toList, by decide, by simp [IsPlain, IsSpace]⟩

def noTail : Tail := ⟨[], by simp, by simp, by decide⟩

def noGap : Gap := ⟨[], by simp⟩

def textX : Text := ⟨"x".toList, by simp [IsPlain]⟩

/-- `a/b` -/
def pathAB : Path where
  names := ["a".toList, "b".toList]
  ne_nil := by decide
  ok s hs := by
    rcases List.mem_pair.mp hs with rfl | rfl
    · exact ⟨nameA, rfl⟩
    · exact ⟨nameB, rfl⟩

/-- `<a><b id="1/2">x<c></c></b><c/></a>` -/
def fittingDoc : Forest :=
  .elem nameA noTail
    (.elem nameB ⟨" id=\"1/2\"".toList, by simp [IsPlain], by simp [IsSpace], by decide⟩
      (.text textX (.elem nameC noTail .nil noGap .nil)) noGap (.empty nameC noTail .nil))
    noGap .nil

/-- What is delivered of a document in which elements lie on the path and off it. -/
theorem fittingDoc_selected :
    XPathSplitter.delivered (fun n _ => (n + 1, true)) 0 pathAB.text fittingDoc.write =
      given (fun n _ => (n + 1, true)) 0 (fittingDoc.selected pathAB.names []) :=
  delivered_selected (fun n _ => (n + 1, true)) 0 pathAB fittingDoc (by decide)

/-- `<a><c><b>x</b></c></a>` -/
def strayDoc : Forest :=
  .elem nameA noTail
    (.elem nameC noTail (.elem nameB noTail (.text textX .nil) noGap .nil) noGap .nil) noGap .nil

/-- The `b` is in a `c`, so that `a/b` selects nothing. -/
theorem strayDoc_not_selected :
    XPathSplitter.delivered (fun n _ => (n + 1, true)) 0 pathAB.text strayDoc.write ≠
      given (fun n _ => (n + 1, true)) 0 (strayDoc.selected pathAB.names []) := by
  decide

end Xml

end Skweltch
