import Skweltch.Vent.XPathSplitter

/-!
# Skweltch — chunks are slices of the input

The splitter rebuilds a chunk from callbacks that leave out the delimiters. Over an input whose
tags hold no `<`, and no `?` in their names, what it rebuilds is what it read: every chunk is a
slice of the input, and the slices follow one another. The input need not be well formed, and the
parse may end early.
-/

namespace Skweltch

open Callbacks XPathSplitterElem

/-- What stands between each `<` of the input and the next `>`. -/
def tags : Str → List Str
  | [] => []
  | c :: cs => if c = '<' ∧ '>' ∈ cs then cs.takeWhile (· ≠ '>') :: tags cs else tags cs

/-- No `<` stands between a `<` and the next `>`. -/
def NoNestedTag (input : Str) : Prop := ∀ v ∈ tags input, '<' ∉ v

/-- No `?` stands in a tag before its first blank or its `>`. -/
def NoQuestionMark (input : Str) : Prop := ∀ v ∈ tags input, '?' ∉ v.takeWhile (· ≠ ' ')

instance (input : Str) : Decidable (NoNestedTag input) := by unfold NoNestedTag; infer_instance

instance (input : Str) : Decidable (NoQuestionMark input) := by
  unfold NoQuestionMark; infer_instance

/-- The chunks are slices of the input, disjoint and in order. -/
inductive Slices : List Str → Str → Prop where
  | nil (rest : Str) : Slices [] rest
  | cons {cs : List Str} {rest : Str} (gap c : Str) (h : Slices cs rest) :
      Slices (c :: cs) (gap ++ c ++ rest)

def Starts (name c : Str) : Prop :=
  ('<' :: (name ++ [' '])) <+: c ∨ ('<' :: (name ++ ['>'])) <+: c

/-- The shape of a chunk for a path that ends in `name`. -/
def IsChunk (name c : Str) : Prop := Starts name c ∧ closing name <:+ c

def lastName (xpath : Str) : Str := (xpath.splitOn '/').getLastD []

/-! ## Tags in the input -/

/-- The input, cut at every `>`: text and a tag, again and again, up to a `>` outside a tag or to a
rest without `>`. -/
inductive Tagged : Str → Prop where
  | rest {t : Str} (hgt : '>' ∉ t) : Tagged t
  | stray {t : Str} (rest : Str) (hlt : '<' ∉ t) (hgt : '>' ∉ t) : Tagged (t ++ '>' :: rest)
  | tag {t v rest : Str} (htlt : '<' ∉ t) (htgt : '>' ∉ t) (hlt : '<' ∉ v) (hgt : '>' ∉ v)
      (hq : '?' ∉ v.takeWhile (· ≠ ' ')) (h : Tagged rest) :
      Tagged (t ++ '<' :: (v ++ ['>']) ++ rest)

theorem tags_append_subset (u w : Str) : tags w ⊆ tags (u ++ w) := by
  induction u with
  | nil => exact List.Subset.refl _
  | cons c u ih =>
    rw [List.cons_append, tags]
    split
    · exact List.subset_cons_of_subset _ ih
    · exact ih

/-- What stands between a `<` and the next `>` is a tag. -/
theorem mem_tags {t v rest : Str} (hgt : '>' ∉ v) : v ∈ tags (t ++ '<' :: (v ++ '>' :: rest)) := by
  apply tags_append_subset
  rw [tags, if_pos (by simp)]
  have hall : ∀ c ∈ v, (decide (c ≠ '>')) = true := by
    intro c hc
    have : c ≠ '>' := fun h => hgt (h ▸ hc)
    simpa using this
  rw [List.takeWhile_append_of_pos hall, List.takeWhile_cons_of_neg (by simp), List.append_nil]
  exact List.mem_cons_self ..

/-- The two conditions on the input say that its tags are plain. -/
theorem tagged_of {input : Str} (hnest : NoNestedTag input) (hq : NoQuestionMark input) :
    Tagged input := by
  -- a tag ends at a `>`, so that the rest after it is shorter
  induction hlen : input.length using Nat.strong_induction_on generalizing input with
  | _ n ih =>
    by_cases hgt : '>' ∈ input
    · obtain ⟨u, rest, rfl, hu⟩ := List.eq_append_cons_of_mem hgt
      by_cases hlt : '<' ∈ u
      · obtain ⟨t, v, rfl, ht⟩ := List.eq_append_cons_of_mem hlt
        rw [List.mem_append, not_or] at hu
        obtain ⟨htgt, hvgt⟩ := hu
        have hvgt : '>' ∉ v := fun h => hvgt (List.mem_cons_of_mem _ h)
        have hinput : t ++ '<' :: v ++ '>' :: rest = t ++ '<' :: (v ++ '>' :: rest) := by simp
        have hcut : t ++ '<' :: v ++ '>' :: rest = (t ++ '<' :: (v ++ ['>'])) ++ rest := by simp
        have hmem : v ∈ tags (t ++ '<' :: v ++ '>' :: rest) := hinput ▸ mem_tags hvgt
        have hrest : tags rest ⊆ tags (t ++ '<' :: v ++ '>' :: rest) :=
          hcut ▸ tags_append_subset _ rest
        have hshort : rest.length < n := by
          rw [← hlen, hcut, List.length_append]
          simp
        rw [hcut]
        exact Tagged.tag ht htgt (hnest v hmem) hvgt (hq v hmem)
          (ih rest.length hshort (fun x hx => hnest x (hrest hx)) (fun x hx => hq x (hrest hx)) rfl)
      · exact Tagged.stray rest hlt hu
    · exact Tagged.rest hgt

/-! ## What the calls of one tag do to the chunk

Between two start tags of the path the chunk collects the text as it was read. Each call puts its
part of the tag behind it, with the marks that the parser has taken off. -/

/-- Attributes go into the chunk as they are. -/
theorem attrCalls_effect (e : XPathSplitterElem) (s v : Str) :
    emitted next e (XmlParser.attrCalls s v) = [] ∧
      reached next e (XmlParser.attrCalls s v) =
        { e with chunk := e.chunk ++ ' ' :: (s ++ v ++ ['>']) } := by
  induction v generalizing e s with
  | nil =>
    refine ⟨rfl, ?_⟩
    show (e.attr s).endAttr = _
    simp [attr, endAttr]
  | cons c v ih =>
    rw [XmlParser.attrCalls]
    split
    · next hc =>
      obtain ⟨he, hr⟩ := ih (e.attr s) []
      refine ⟨he, hr.trans ?_⟩
      simp [attr, hc]
    · obtain ⟨he, hr⟩ := ih e (s ++ [c])
      refine ⟨he, hr.trans ?_⟩
      simp

/-- What stands in a tag is an end tag's name, or a name with the rest of a start tag. -/
theorem nameCalls_cases (s v : Str) :
    (∃ n, s ++ v = '/' :: n ∧ XmlParser.nameCalls s v = [.endTag n]) ∨
      ∃ n sep r, (sep = ' ' ∨ sep = '>') ∧ s ++ v ++ ['>'] = n ++ sep :: r ∧
        ∀ e, emitted next e (XmlParser.nameCalls s v) = [] ∧
          reached next e (XmlParser.nameCalls s v) =
            { e.startTag n with chunk := (e.startTag n).chunk ++ sep :: r } := by
  induction v generalizing s with
  | nil =>
    rw [XmlParser.nameCalls]
    split
    · next hs =>
      refine .inl ⟨s.tail, ?_, rfl⟩
      rw [List.append_nil, List.cons_head?_tail hs]
    · exact .inr ⟨s, '>', [], .inr rfl, by simp, fun e => ⟨rfl, rfl⟩⟩
  | cons c v ih =>
    rw [XmlParser.nameCalls]
    split
    · next hc =>
      subst hc
      refine .inr ⟨s, ' ', v ++ ['>'], .inl rfl, by simp, fun e => ?_⟩
      exact attrCalls_effect (e.startTag s) [] v
    · have h := ih (s ++ [c])
      rw [List.append_assoc] at h
      exact h

/-! ## The invariant

While the last name of the path is open the chunk is the end of what was read so far. A chunk is
emitted at its end tag, so that it is a slice of the input. -/

/-- With the whole path matched the chunk is the end of what has been read, and starts with the
tag of the last name. -/
structure Tracks (stack : List Str) (e : XPathSplitterElem) (past : Str) : Prop where
  stack_eq : e.stack = stack
  le : e.spos ≤ stack.length
  full : e.spos = stack.length → e.chunk <:+ past ∧ Starts (stack.getLastD []) e.chunk

variable {stack : List Str} {e : XPathSplitterElem} {past : Str}

theorem Starts.append {name c : Str} (h : Starts name c) (d : Str) : Starts name (c ++ d) :=
  h.imp (·.trans (List.prefix_append c d)) (·.trans (List.prefix_append c d))

theorem suffix_append_append {c d : Str} (h : c <:+ d) (t : Str) : c ++ t <:+ d ++ t := by
  obtain ⟨u, rfl⟩ := h
  exact ⟨u, by rw [List.append_assoc]⟩

theorem Tracks.extend (h : Tracks stack e past) (t : Str) :
    Tracks stack { e with chunk := e.chunk ++ t } (past ++ t) :=
  ⟨h.stack_eq, h.le, fun hn =>
    ⟨suffix_append_append (h.full hn).1 t, (h.full hn).2.append t⟩⟩

theorem getLastD_of_getElem? {n : Str} {i : Nat} (h : stack[i]? = some n)
    (hi : i + 1 = stack.length) : stack.getLastD [] = n := by
  rw [List.getLastD_eq_getLast?, List.getLast?_eq_getElem?, ← hi, Nat.add_sub_cancel, h]
  rfl

/-- A start tag keeps the invariant: it starts the chunk anew or goes into it. -/
theorem Tracks.startTag (h : Tracks stack e past) {n r : Str} {sep : Char}
    (hsep : sep = ' ' ∨ sep = '>') :
    Tracks stack { e.startTag n with chunk := (e.startTag n).chunk ++ sep :: r }
      (past ++ '<' :: (n ++ sep :: r)) := by
  by_cases hm : e.stack[e.spos]? = some n
  · have hlt : e.spos < e.stack.length := (List.getElem?_eq_some_iff.mp hm).1
    have hstart : e.startTag n = { e with spos := e.spos + 1, chunk := '<' :: n } := by
      rw [XPathSplitterElem.startTag, if_pos hm]
    rw [hstart]
    rw [h.stack_eq] at hm hlt
    refine ⟨h.stack_eq, hlt, fun hn => ⟨List.suffix_append past _, ?_⟩⟩
    rw [getLastD_of_getElem? hm hn]
    rcases hsep with rfl | rfl
    · exact .inl ⟨r, by simp⟩
    · exact .inr ⟨r, by simp⟩
  · have hstart : e.startTag n = { e with chunk := e.chunk ++ '<' :: n } := by
      rw [XPathSplitterElem.startTag, if_neg hm]
    have := h.extend ('<' :: (n ++ sep :: r))
    rw [hstart]
    simpa using this

/-- An end tag finishes a chunk, or keeps the invariant. -/
theorem Tracks.endTag (h : Tracks stack e past) (hne : stack ≠ []) (n : Str) :
    ((next e (.endTag n)).2 = [] ∧ Tracks stack (next e (.endTag n)).1 (past ++ closing n)) ∨
      ∃ c, (next e (.endTag n)).2 = [c] ∧ c <:+ past ++ closing n ∧
        IsChunk (stack.getLastD []) c ∧ Tracks stack (next e (.endTag n)).1 [] := by
  have hpos : 0 < stack.length := List.length_pos_iff.mpr hne
  simp only [next]
  by_cases hc : e.Closes n
  · rw [if_pos hc]
    have hlt : e.spos - 1 < stack.length := by have := h.le; have := hc.1; omega
    by_cases hn : e.spos = e.stack.length
    · have hfull := h.full (h.stack_eq ▸ hn)
      have hlast : stack.getLastD [] = n := by
        have hat := hc.2
        rw [h.stack_eq] at hat hn
        exact getLastD_of_getElem? hat (by omega)
      rw [if_pos hn]
      refine .inr ⟨e.chunk ++ closing n, rfl, suffix_append_append hfull.1 _,
        ⟨hfull.2.append _, hlast ▸ List.suffix_append _ _⟩, h.stack_eq, hlt.le, ?_⟩
      intro hcontra
      exact absurd hcontra (by show e.spos - 1 ≠ stack.length; omega)
    · rw [if_neg hn]
      refine .inl ⟨rfl, h.stack_eq, hlt.le, ?_⟩
      intro hcontra
      exact absurd hcontra (by show e.spos - 1 ≠ stack.length; omega)
  · rw [if_neg hc]
    exact .inl ⟨rfl, h.extend _⟩

/-- Text and a tag: the chunk they finish, if any, is the end of what has been read, and the
invariant holds after them. -/
theorem Tracks.tag (h : Tracks stack e past) (hne : stack ≠ []) (t v : Str) :
    let out := (if t = [] then [] else [XmlCall.content t]) ++ XmlParser.nameCalls [] v
    let seg := t ++ '<' :: (v ++ ['>'])
    (emitted next e out = [] ∧ Tracks stack (reached next e out) (past ++ seg)) ∨
      ∃ c, emitted next e out = [c] ∧ c <:+ past ++ seg ∧ IsChunk (stack.getLastD []) c ∧
        Tracks stack (reached next e out) [] := by
  intro out seg
  -- the text before the tag goes into the chunk
  have htext : emitted next e (if t = [] then [] else [XmlCall.content t]) = [] ∧
      reached next e (if t = [] then [] else [XmlCall.content t]) =
        { e with chunk := e.chunk ++ t } := by
    split
    · next ht => simp [ht, emitted, reached]
    · exact ⟨rfl, rfl⟩
  have hext := h.extend t
  show (emitted next e (_ ++ _) = [] ∧ Tracks stack (reached next e (_ ++ _)) _) ∨
    ∃ c, emitted next e (_ ++ _) = [c] ∧ _ ∧ _ ∧ Tracks stack (reached next e (_ ++ _)) _
  rw [emitted_append, reached_append, htext.1, htext.2, List.nil_append]
  rcases nameCalls_cases [] v with ⟨n, hv, hcalls⟩ | ⟨n, sep, r, hsep, hv, heffect⟩
  · have hseg : past ++ seg = past ++ t ++ closing n := by
      simp only [List.nil_append] at hv
      simp [seg, hv, closing]
    rw [hcalls, hseg]
    have hend := hext.endTag hne n
    simpa [emitted, reached] using hend
  · have hseg : past ++ seg = past ++ t ++ '<' :: (n ++ sep :: r) := by
      simp only [List.nil_append] at hv
      simp [seg, hv]
    obtain ⟨hem, hre⟩ := heffect { e with chunk := e.chunk ++ t }
    rw [hem, hre, hseg]
    exact .inl ⟨rfl, hext.startTag hsep⟩

/-- Without an end tag no chunk is emitted. -/
theorem emitted_of_no_endTag {out : List XmlCall} (h : ∀ s, XmlCall.endTag s ∉ out)
    (e : XPathSplitterElem) : emitted next e out = [] := by
  induction out generalizing e with
  | nil => rfl
  | cons c out ih =>
    have hc : (next e c).2 = [] := by
      cases c with
      | endTag s => exact absurd (List.mem_cons_self ..) (h s)
      | _ => rfl
    rw [emitted, hc, ih fun s hs => h s (List.mem_cons_of_mem _ hs)]
    rfl

/-- Slices of the end of a text are slices of the text. -/
theorem Slices.extend {cs : List Str} {u rest : Str} (h : Slices cs rest) :
    Slices cs (u ++ rest) := by
  cases h with
  | nil => exact .nil _
  | cons gap c h =>
    have := Slices.cons (u ++ gap) c h
    rwa [List.append_assoc u gap c, List.append_assoc u] at this

/-- The first of some slices are slices. -/
theorem Slices.of_prefix {cs ds : List Str} {input : Str} (h : Slices ds input) (hp : cs <+: ds) :
    Slices cs input := by
  induction h generalizing cs with
  | nil rest =>
    rw [List.prefix_nil.mp hp]
    exact .nil _
  | cons gap c h ih =>
    cases cs with
    | nil => exact .nil _
    | cons d cs =>
      obtain ⟨rfl, hcs⟩ := List.cons_prefix_cons.mp hp
      exact .cons gap d (ih hcs)

/-- **The chunks of a tagged input are slices of it**, by induction on its tags. -/
theorem slices_of_tagged {input : Str} (hin : Tagged input) (hne : stack ≠ [])
    (h : Tracks stack e past) :
    Slices (emitted next e (XmlParser.scan XmlParser.init input).1) (past ++ input) ∧
      ∀ c ∈ emitted next e (XmlParser.scan XmlParser.init input).1,
        IsChunk (stack.getLastD []) c := by
  induction hin generalizing e past with
  | rest hgt =>
    rw [emitted_of_no_endTag fun s => XmlParser.endTag_not_mem_of_no_gt hgt _ s]
    exact ⟨.nil _, by simp⟩
  | stray rest hlt hgt =>
    rw [show XmlParser.scan XmlParser.init _ = ([], false) from
      XmlParser.scan_stray hlt hgt [] rest]
    exact ⟨.nil _, by simp [emitted]⟩
  | @tag t v rest htlt htgt hlt hgt hq _ ih =>
    have hscan := ((XmlParser.scans_text htlt htgt []).append
      (XmlParser.scans_tag hlt hgt hq ([] ++ t))) rest
    rw [List.nil_append, List.nil_append] at hscan
    rw [show XmlParser.init = { state := .start, s := [] } from rfl] at ih ⊢
    rw [hscan, emitted_append]
    -- a tag emits at most one chunk, and slices are taken in order
    rcases h.tag hne t v with ⟨hem, htracks⟩ | ⟨c, hem, hsuf, hchunk, htracks⟩
    · rw [hem, List.nil_append, ← List.append_assoc]
      exact ih htracks
    · obtain ⟨hslices, hall⟩ := ih htracks
      obtain ⟨gap, hgap⟩ := hsuf
      rw [hem]
      refine ⟨?_, ?_⟩
      · have := Slices.cons gap c hslices
        rw [hgap, List.nil_append] at this
        rw [← List.append_assoc]
        exact this
      · intro d hd
        rcases List.mem_append.mp hd with hd | hd
        · rw [List.mem_singleton.mp hd]
          exact hchunk
        · exact hall d hd

theorem tracks_init (xpath past : Str) :
    Tracks (xpath.splitOn '/') (XPathSplitterElem.init xpath) past := by
  have hpos : 0 < (xpath.splitOn '/').length :=
    List.length_pos_iff.mpr (List.splitOn_ne_nil _ _)
  refine ⟨rfl, hpos.le, fun h => ?_⟩
  exact absurd h hpos.ne

/-- **Chunks are verbatim slices.** Whatever the `IChunk` answers and whether or not `process`
returns `true`, what it delivers are disjoint slices of the input in order, each from `<name` and a
blank or `>` to `</name>`. -/
theorem delivered_slices {κ : Type} (ch : IChunk κ) (k : κ) (xpath input : Str)
    (hnest : NoNestedTag input) (hq : NoQuestionMark input) :
    Slices (XPathSplitter.delivered ch k xpath input) input ∧
      ∀ c ∈ XPathSplitter.delivered ch k xpath input, IsChunk (lastName xpath) c := by
  have hpre := XPathSplitter.delivered_prefix ch k xpath input
  obtain ⟨hslices, hall⟩ := slices_of_tagged (tagged_of hnest hq) (List.splitOn_ne_nil _ _)
    (tracks_init xpath [])
  exact ⟨hslices.of_prefix hpre, fun c hc => hall c (hpre.subset hc)⟩

/-- A document with blanks and a newline in its tags that breaks off at a stray `>`, and an `IChunk`
that stops at the second chunk. -/
theorem delivered_slices_broken :
    Slices (XPathSplitter.delivered (fun n _ => (n + 1, decide (n = 0))) 0 "a/b".toList
        "<a><b  x=\"1\"\n >t</b ></b>u</a ><a><b>?</b></a>>".toList)
      "<a><b  x=\"1\"\n >t</b ></b>u</a ><a><b>?</b></a>>".toList :=
  (delivered_slices (fun n _ => (n + 1, decide (n = 0))) 0 "a/b".toList
    "<a><b  x=\"1\"\n >t</b ></b>u</a ><a><b>?</b></a>>".toList (by decide) (by decide)).1

end Skweltch
