import Skweltch.Vent.CallProtocol
import Skweltch.Vent.Markup
import Mathlib.Data.List.TakeWhile

/-!
# Skweltch — which documents the XML parser reads right

`XmlParser::process` (`vent/XmlParser.cpp`) on documents with all their markup. Behind every `>`
the parser is where it started, or has given up; so what becomes of a piece of a document does
not depend on the pieces before it. `ReadRight` says which are read right.
-/

namespace Skweltch

open Callbacks Markup

def XmlCall.tag : XmlCall → Option Tag
  | .startTag _ => some .startTag
  | .endTag _ => some .endTag
  | _ => none

namespace XmlParser

def tagsOf (calls : List XmlCall) : List Tag := calls.filterMap XmlCall.tag

/-- From one state to another over a stretch of input, reporting these tags. -/
def Reports (st : State) (cs : List Char) (tags : List Tag) (st' : State) : Prop :=
  ∃ out, Scans st cs out st' ∧ tagsOf out = tags

/-- The parser returns `false` on its own, whatever follows (`scan_rejected`). -/
def Rejects (st : State) (cs : List Char) : Prop := (scan st cs).2 = false

/-- Stretches one behind the other report their tags one behind the other. -/
theorem Reports.append {st st' st'' : State} {cs ds : List Char} {tags tags' : List Tag}
    (h : Reports st cs tags st') (h' : Reports st' ds tags' st'') :
    Reports st (cs ++ ds) (tags ++ tags') st'' := by
  obtain ⟨out, hscan, rfl⟩ := h
  obtain ⟨out', hscan', rfl⟩ := h'
  exact ⟨out ++ out', hscan.append hscan', List.filterMap_append⟩

/-- What a stretch reports does not depend on what comes behind it. -/
theorem Reports.scan {st st' : State} {cs : List Char} {tags : List Tag}
    (h : Reports st cs tags st') (rest : List Char) :
    tagsOf (scan st (cs ++ rest)).1 = tags ++ tagsOf (scan st' rest).1 ∧
      (XmlParser.scan st (cs ++ rest)).2 = (XmlParser.scan st' rest).2 := by
  obtain ⟨out, hscan, rfl⟩ := h
  rw [hscan]
  exact ⟨List.filterMap_append, rfl⟩

theorem Reports.tags_eq {st st' : State} {cs : List Char} {tags : List Tag}
    (h : Reports st cs tags st') : tagsOf (XmlParser.scan st cs).1 = tags := by
  have := (h.scan []).1
  rw [List.append_nil] at this
  exact this.trans (List.append_nil tags)

/-- Behind what is rejected nothing is read. -/
theorem scan_rejected {st : State} {cs : List Char} (h : Rejects st cs) (rest : List Char) :
    scan st (cs ++ rest) = scan st cs := by
  unfold Rejects at h
  induction cs generalizing st with
  | nil => cases h
  | cons c cs ih =>
    rw [List.cons_append, scan, scan]
    rw [scan] at h
    cases hst : (onChar st c).2 with
    | none => rfl
    | some st' =>
      rw [hst] at h
      simp only
      rw [ih h]

theorem Rejects.append {st : State} {cs : List Char} (h : Rejects st cs) (rest : List Char) :
    Rejects st (cs ++ rest) := by
  unfold Rejects
  rw [scan_rejected h]
  exact h

theorem Reports.rejects {st st' : State} {cs ds : List Char} {tags : List Tag}
    (h : Reports st cs tags st') (hds : Rejects st' ds) : Rejects st (cs ++ ds) :=
  (h.scan ds).2.trans hds

/-! ## Up to a `>`

Inside a tag the parser ends at the next `>`, whatever stands before it, and outside of one it gives
up there. So a text can be cut at each `>`, and what is read of a cut depends on its own characters.
-/

theorem reports_single {st st' : State} {c : Char} (out : List XmlCall)
    (h : onChar st c = (out, some st')) {tags : List Tag} (htags : tagsOf out = tags) :
    Reports st [c] tags st' := ⟨out, Scans.single h, htags⟩

/-- In a processing instruction, or among attributes, no tag is reported before the `>`. -/
theorem reports_within {w : Where} (hw : w = .inpi ∨ w = .inattr) {v : Str} (hgt : '>' ∉ v)
    (s : Str) : Reports { state := w, s := s } (v ++ ['>']) [] init := by
  induction v generalizing s with
  | nil =>
    rcases hw with rfl | rfl
    · exact reports_single [.pi s] rfl rfl
    · exact reports_single [.attr s, .endAttr] rfl rfl
  | cons c v ih =>
    obtain ⟨hc, hv⟩ := not_mem_cons.mp hgt
    have hstep : ∃ s', Reports { state := w, s := s } [c] [] { state := w, s := s' } := by
      by_cases h1 : c = '<'
      · rcases hw with rfl | rfl
        · exact ⟨s, reports_single [] (by rw [h1]; rfl) rfl⟩
        · exact ⟨s, reports_single [] (by rw [h1]; rfl) rfl⟩
      by_cases h2 : c = '?'
      · rcases hw with rfl | rfl
        · exact ⟨_, reports_single [] (by rw [h2]; rfl) rfl⟩
        · exact ⟨_, reports_single [] (by rw [h2]; rfl) rfl⟩
      by_cases h3 : c = ' '
      · rcases hw with rfl | rfl
        · exact ⟨_, reports_single [] (by rw [h3]; rfl) rfl⟩
        · exact ⟨_, reports_single [.attr s] (by rw [h3]; rfl) rfl⟩
      · exact ⟨_, reports_single [] (onChar_other h1 h2 h3 (Ne.symm hc) _) rfl⟩
    obtain ⟨s', hstep⟩ := hstep
    exact hstep.append (ih hv s')

/-- The tags reported for what stands between a `<` and the next `>`, with `s` of it collected. -/
def inTag (s v : Str) : List Tag :=
  if '?' ∈ v.takeWhile (· ≠ ' ') then []
  else if ' ' ∈ v then [.startTag]
  else if (s ++ v.filter (· ≠ '<')).head? = some '/' then [.endTag]
  else [.startTag]

/-- A character of a name that is collected, or a `<` that is dropped. -/
theorem inTag_cons {c : Char} (h1 : c ≠ '?') (h2 : c ≠ ' ') (s v : Str) :
    inTag s (c :: v) = inTag (if c = '<' then s else s ++ [c]) v := by
  have htake : (c :: v).takeWhile (· ≠ ' ') = c :: v.takeWhile (· ≠ ' ') :=
    List.takeWhile_cons_of_pos (by simpa using h2)
  unfold inTag
  rw [htake]
  by_cases hlt : c = '<'
  · simp [hlt]
  · simp [hlt, Ne.symm h1, Ne.symm h2]

/-- Up to the `>` everything belongs to the tag. -/
theorem reports_intag {v : Str} (hgt : '>' ∉ v) (s : Str) :
    Reports { state := .intag, s := s } (v ++ ['>']) (inTag s v) init := by
  induction v generalizing s with
  | nil =>
    by_cases hs : s.head? = some '/'
    · have hend : inTag s [] = [.endTag] := by simp [inTag, hs]
      have hstep : onChar { state := .intag, s := s } '>' = ([.endTag s.tail], some init) := by
        rw [onChar, if_neg (by decide), if_neg (by decide), if_neg (by decide), if_pos rfl]
        simp only [if_pos hs]
      rw [hend]
      exact reports_single [.endTag s.tail] hstep rfl
    · have hstart : inTag s [] = [.startTag] := by simp [inTag, hs]
      have hstep : onChar { state := .intag, s := s } '>' =
          ([.startTag s, .endAttr], some init) := by
        rw [onChar, if_neg (by decide), if_neg (by decide), if_neg (by decide), if_pos rfl]
        simp only [if_neg hs]
      rw [hstart]
      exact reports_single [.startTag s, .endAttr] hstep rfl
  | cons c v ih =>
    obtain ⟨hc, hv⟩ := not_mem_cons.mp hgt
    -- a blank ends the name, a question mark makes it a processing instruction
    by_cases h1 : c = '?'
    · have hpi : inTag s (c :: v) = [] := by simp [inTag, h1]
      have hstep : Reports { state := .intag, s := s } [c] [] { state := .inpi, s := s } :=
        reports_single [] (by rw [h1]; rfl) rfl
      rw [hpi]
      exact hstep.append (reports_within (Or.inl rfl) hv s)
    by_cases h2 : c = ' '
    · have hstart : inTag s (c :: v) = [.startTag] := by simp [inTag, h2]
      have hstep : Reports { state := .intag, s := s } [c] [.startTag]
          { state := .inattr, s := [] } := reports_single [.startTag s] (by rw [h2]; rfl) rfl
      rw [hstart]
      exact hstep.append (reports_within (Or.inr rfl) hv [])
    rw [inTag_cons h1 h2]
    by_cases h3 : c = '<'
    · have hstep : Reports { state := .intag, s := s } [c] [] { state := .intag, s := s } :=
        reports_single [] (by rw [h3]; rfl) rfl
      rw [if_pos h3]
      exact hstep.append (ih hv s)
    · have hstep : Reports { state := .intag, s := s } [c] [] { state := .intag, s := s ++ [c] } :=
        reports_single [] (onChar_other h3 h1 h2 (Ne.symm hc) _) rfl
      rw [if_neg h3]
      exact hstep.append (ih hv (s ++ [c]))

/-- The parser between tags, where only the text that is collected is not yet determined. -/
def between (s : Str) : State := { state := .start, s := s }

theorem reports_text {t : Str} (hlt : '<' ∉ t) (hgt : '>' ∉ t) (s : Str) :
    Reports (between s) t [] (between (s ++ t)) :=
  ⟨[], scans_text hlt hgt s, rfl⟩

theorem reports_open (s : Str) : Reports (between s) ['<'] [] { state := .intag, s := [] } := by
  refine ⟨_, scans_open s, ?_⟩
  split_ifs
  · rfl
  · rfl

/-- A `>` between tags ends the parse. -/
theorem rejects_stray {t : Str} (hlt : '<' ∉ t) (rest s : Str) :
    Rejects (between s) (t ++ '>' :: rest) := by
  by_cases hgt : '>' ∈ t
  · obtain ⟨before, behind, rfl, hbefore⟩ := List.eq_append_cons_of_mem hgt
    rw [List.append_assoc, List.cons_append]
    exact congrArg Prod.snd (scan_stray (fun h => hlt (List.mem_append_left _ h)) hbefore s _)
  · exact congrArg Prod.snd (scan_stray hlt hgt s rest)

/-- One piece of markup without a `>` in it. -/
theorem reports_angled {v : Str} (hgt : '>' ∉ v) (s : Str) :
    Reports (between s) (Xml.angled v) (inTag [] v) init :=
  (reports_open s).append (reports_intag hgt [])

/-! ## Stretches between one `>` and the next

A stretch whose first `<` the parser takes for the beginning of a processing instruction is passed
over, and is called quiet. Any other is given up or reports a tag. Comments and declarations are
read right if all their stretches are quiet. -/

/-- The first `<` of the stretch opens what the parser takes for a processing instruction. -/
def Quiet (w : Str) : Prop := '?' ∈ (w.dropWhile (· ≠ '<')).takeWhile (· ≠ ' ')

instance (w : Str) : Decidable (Quiet w) := by unfold Quiet; infer_instance

/-- The stretch from its first `<`, if there is one. -/
theorem stretch_cases (w : Str) :
    ('<' ∉ w ∧ ¬ Quiet w) ∨ ∃ t v, w = t ++ '<' :: v ∧ '<' ∉ t ∧
      (Quiet w ↔ '?' ∈ v.takeWhile (· ≠ ' ')) := by
  by_cases hlt : '<' ∈ w
  · obtain ⟨t, v, rfl, ht⟩ := List.eq_append_cons_of_mem hlt
    refine Or.inr ⟨t, v, rfl, ht, ?_⟩
    have hdrop : (t ++ '<' :: v).dropWhile (· ≠ '<') = '<' :: v := by
      rw [List.dropWhile_append_of_pos]
      · rfl
      · intro c hc
        have hne : c ≠ '<' := by
          rintro rfl
          exact ht hc
        simpa using hne
    rw [Quiet, hdrop, List.takeWhile_cons_of_pos (by decide), List.mem_cons]
    exact or_iff_right (by decide)
  · refine Or.inl ⟨hlt, ?_⟩
    have hdrop : w.dropWhile (· ≠ '<') = [] := by
      rw [List.dropWhile_eq_nil_iff]
      intro c hc
      have hne : c ≠ '<' := by
        rintro rfl
        exact hlt hc
      simpa using hne
    rw [Quiet, hdrop]
    exact List.not_mem_nil

/-- A quiet stretch reports no tag. -/
theorem reports_quiet {w : Str} (hgt : '>' ∉ w) (h : Quiet w) (s : Str) :
    Reports (between s) (w ++ ['>']) [] init := by
  rcases stretch_cases w with ⟨-, hno⟩ | ⟨t, v, rfl, hlt, hiff⟩
  · exact absurd h hno
  · rw [List.mem_append, List.mem_cons, not_or, not_or] at hgt
    have hv := reports_angled hgt.2.2 (s ++ t)
    rw [inTag, if_pos (hiff.mp h)] at hv
    rw [List.append_assoc]
    exact (reports_text hlt hgt.1 s).append hv

/-- A stretch that is not quiet is given up or reports a tag. -/
theorem loud {w : Str} (hgt : '>' ∉ w) (h : ¬ Quiet w) (s : Str) :
    Rejects (between s) (w ++ ['>']) ∨
      ∃ tags, tags ≠ [] ∧ Reports (between s) (w ++ ['>']) tags init := by
  rcases stretch_cases w with ⟨hlt, -⟩ | ⟨t, v, rfl, hlt, hiff⟩
  · exact Or.inl (rejects_stray hlt [] s)
  · rw [List.mem_append, List.mem_cons, not_or, not_or] at hgt
    have hv := reports_angled hgt.2.2 (s ++ t)
    refine Or.inr ⟨inTag [] v, ?_, ?_⟩
    · rw [inTag, if_neg fun hq => h (hiff.mpr hq)]
      split_ifs
      · exact List.cons_ne_nil _ _
      · exact List.cons_ne_nil _ _
      · exact List.cons_ne_nil _ _
    · rw [List.append_assoc]
      exact (reports_text hlt hgt.1 s).append hv

/-- Stretch after stretch. -/
theorem stretch_induction {P : Str → Prop} (last : ∀ w, '>' ∉ w → P w)
    (more : ∀ w u, '>' ∉ w → P u → P (w ++ '>' :: u)) (u : Str) : P u := by
  induction hn : u.length using Nat.strong_induction_on generalizing u with
  | _ n ih =>
    by_cases hgt : '>' ∈ u
    · obtain ⟨w, rest, rfl, hw⟩ := List.eq_append_cons_of_mem hgt
      refine more w rest hw (ih rest.length ?_ rest rfl)
      rw [← hn, List.length_append, List.length_cons]
      omega
    · exact last u hgt

/-- Quiet stretches one behind the other report nothing. -/
theorem reports_stretches {u : Str} (h : ∀ w ∈ u.splitOn '>', Quiet w) (s : Str) :
    Reports (between s) (u ++ ['>']) [] init := by
  induction u using stretch_induction generalizing s with
  | last w hw =>
    rw [List.splitOn_eq_singleton hw] at h
    exact reports_quiet hw (h w (List.mem_singleton_self w)) s
  | more w u hw ih =>
    rw [List.splitOn_append_cons_self_of_not_mem hw, List.forall_mem_cons] at h
    have hsplit : w ++ '>' :: u ++ ['>'] = (w ++ ['>']) ++ (u ++ ['>']) := by simp
    rw [hsplit]
    exact (reports_quiet hw h.1 s).append (ih h.2 [])

/-- As soon as one of them is not quiet, something is reported or all is rejected. -/
theorem loud_stretches {u : Str} (h : ¬ ∀ w ∈ u.splitOn '>', Quiet w) (s : Str) :
    Rejects (between s) (u ++ ['>']) ∨ tagsOf (scan (between s) (u ++ ['>'])).1 ≠ [] := by
  induction u using stretch_induction generalizing s with
  | last w hw =>
    rw [List.splitOn_eq_singleton hw, List.forall_mem_singleton] at h
    rcases loud hw h s with hrejects | ⟨tags, hne, hreports⟩
    · exact Or.inl hrejects
    · exact Or.inr (by rwa [hreports.tags_eq])
  | more w u hw ih =>
    rw [List.splitOn_append_cons_self_of_not_mem hw, List.forall_mem_cons] at h
    have hsplit : w ++ '>' :: u ++ ['>'] = (w ++ ['>']) ++ (u ++ ['>']) := by simp
    rw [hsplit]
    by_cases hquiet : Quiet w
    · have hw := reports_quiet hw hquiet s
      rcases ih (fun hu => h ⟨hquiet, hu⟩) [] with hrejects | htags
      · exact Or.inl (hw.rejects hrejects)
      · exact Or.inr (by rwa [(hw.scan _).1])
    · rcases loud hw hquiet s with hrejects | ⟨tags, hne, hreports⟩
      · exact Or.inl (hrejects.append _)
      · refine Or.inr fun hnil => hne ?_
        rw [(hreports.scan _).1] at hnil
        exact (List.append_eq_nil_iff.mp hnil).1

/-! ## Pieces

Each kind of piece is either read as what it is or misread: given up within it, or taken for other
tags. -/

/-- The pieces that are read right. Text has no `>`. A start tag has no `>` in its attributes, and
no `?` before its first blank. An end tag has no blank. Of other markup every stretch up to a `>`
opens with what the parser takes for a processing instruction. -/
def ReadRight : Piece → Prop
  | .text t => '>' ∉ t.text
  | .start name attrs gap =>
    '>' ∉ (Piece.start name attrs gap).markup ∧
      '?' ∉ (Piece.start name attrs gap).markup.takeWhile (· ≠ ' ')
  | .empty name attrs gap =>
    '>' ∉ (Piece.start name attrs gap).markup ∧
      '?' ∉ (Piece.start name attrs gap).markup.takeWhile (· ≠ ' ')
  | .close _ gap => ' ' ∉ gap.text
  | .comment t => ∀ w ∈ ('<' :: (Piece.comment t).markup).splitOn '>', Quiet w
  | .cdata t => ∀ w ∈ ('<' :: (Piece.cdata t).markup).splitOn '>', Quiet w
  | .pi t => ∀ w ∈ ('<' :: (Piece.pi t).markup).splitOn '>', Quiet w

/-- Not read right: the parser gives up, or it reports other tags. -/
def Misread (s cs : Str) (tags : List Tag) : Prop :=
  Rejects (between s) cs ∨ tagsOf (scan (between s) cs).1 ≠ tags

theorem misread_of_reports {s cs : Str} {tags tags' : List Tag} {st : State}
    (h : Reports (between s) cs tags' st) (hne : tags' ≠ tags) : Misread s cs tags :=
  Or.inr (by rwa [h.tags_eq])

theorem angled_eq (v : Str) : Xml.angled v = ('<' :: v) ++ ['>'] := rfl

/-- A character is looked for before the end of the name only. -/
theorem mem_takeWhile_append {c d : Char} {v behind : Str} (hc : c ∉ behind) :
    c ∈ (v ++ behind).takeWhile (· ≠ d) ↔ c ∈ v.takeWhile (· ≠ d) := by
  by_cases hall : ∀ c ∈ v, (decide (c ≠ d)) = true
  · rw [List.takeWhile_append_of_pos hall, List.mem_append, List.takeWhile_eq_self_iff.mpr hall]
    exact or_iff_left fun h => hc ((List.takeWhile_prefix _).subset h)
  · rw [List.takeWhile_append, if_neg]
    intro hlen
    exact hall (List.takeWhile_eq_self_iff.mp ((List.takeWhile_prefix _).eq_of_length hlen))

theorem filter_of_not_mem {c : Char} {v : Str} (h : c ∉ v) : v.filter (· ≠ c) = v := by
  rw [List.filter_eq_self]
  intro d hd
  exact decide_eq_true (ne_of_mem_of_not_mem hd h)

/-- A start tag, and an empty-element tag. -/
theorem start_cases (name : Name) (attrs : List Attr) (gap : Xml.Gap) {behind : Str}
    (hbehind : behind = [] ∨ behind = ['/']) (s : Str) :
    ('>' ∉ (Piece.start name attrs gap).markup ∧
        '?' ∉ (Piece.start name attrs gap).markup.takeWhile (· ≠ ' ') ∧
        Reports (between s) (Xml.angled ((Piece.start name attrs gap).markup ++ behind))
          [.startTag] init) ∨
      ¬ ('>' ∉ (Piece.start name attrs gap).markup ∧
        '?' ∉ (Piece.start name attrs gap).markup.takeWhile (· ≠ ' ')) ∧
        Misread s (Xml.angled ((Piece.start name attrs gap).markup ++ behind)) [.startTag] := by
  have hlt := Piece.lt_not_mem_start name attrs gap
  have hhead := Piece.head?_start name attrs gap behind
  generalize (Piece.start name attrs gap).markup = v at hlt hhead ⊢
  have hclean : '<' ∉ behind ∧ '>' ∉ behind ∧ '?' ∉ behind := by
    rcases hbehind with rfl | rfl
    · decide
    · decide
  obtain ⟨hlt', hgt', hquestion'⟩ := hclean
  by_cases hgt : '>' ∈ v
  · -- the tag ends at the first `>`, and the next one stands between tags
    refine Or.inr ⟨fun h => h.1 hgt, Or.inl ?_⟩
    obtain ⟨v1, v2, rfl, hv1⟩ := List.eq_append_cons_of_mem hgt
    have hsplit : Xml.angled (v1 ++ '>' :: v2 ++ behind) =
        Xml.angled v1 ++ ((v2 ++ behind) ++ ['>']) := by
      simp [Xml.angled]
    have hv2 : '<' ∉ v2 ++ behind := by
      rw [List.mem_append, not_or]
      exact ⟨fun h => hlt (List.mem_append_right _ (List.mem_cons_of_mem _ h)), hlt'⟩
    rw [hsplit]
    exact (reports_angled hv1 s).rejects (rejects_stray hv2 [] [])
  -- the tag ends where it should: at its own `>`
  have hgtv : '>' ∉ v ++ behind := by
    rw [List.mem_append, not_or]
    exact ⟨hgt, hgt'⟩
  have hquestion : '?' ∈ (v ++ behind).takeWhile (· ≠ ' ') ↔ '?' ∈ v.takeWhile (· ≠ ' ') :=
    mem_takeWhile_append hquestion'
  by_cases hq : '?' ∈ v.takeWhile (· ≠ ' ')
  · -- the parser takes the tag for a processing instruction
    refine Or.inr ⟨fun h => h.2 hq, misread_of_reports (reports_angled hgtv s) ?_⟩
    rw [inTag, if_pos (hquestion.mpr hq)]
    exact (List.cons_ne_nil _ _).symm
  · refine Or.inl ⟨hgt, hq, ?_⟩
    have hfilter : (v ++ behind).filter (· ≠ '<') = v ++ behind := by
      apply filter_of_not_mem
      rw [List.mem_append, not_or]
      exact ⟨hlt, hlt'⟩
    have htags : inTag [] (v ++ behind) = [.startTag] := by
      rw [inTag, if_neg fun h => hq (hquestion.mp h), List.nil_append, hfilter, if_neg hhead,
        ite_self]
    have := reports_angled hgtv s
    rwa [htags] at this

/-- An end tag is read right exactly if it has no blank. -/
theorem close_cases (name : Name) (gap : Xml.Gap) (s : Str) :
    (' ' ∉ gap.text ∧
        Reports (between s) (Xml.angled (Piece.close name gap).markup) [.endTag] init) ∨
      ¬ ' ' ∉ gap.text ∧ Misread s (Xml.angled (Piece.close name gap).markup) [.endTag] := by
  have hgap : ∀ c, ¬ Xml.IsSpace c → c ∉ gap.text := fun c => gap_not_mem gap
  have hname : ∀ c ∈ ['<', '>', '?', '/', ' '], c ∉ name.text := fun c => name.not_mem
  rw [Piece.markup_close]
  have hgt : '>' ∉ '/' :: (name.text ++ gap.text) := by
    simp [hgap '>' (by decide), hname '>' (by decide)]
  have hquestion : '?' ∉ ('/' :: (name.text ++ gap.text)).takeWhile (· ≠ ' ') := by
    intro h
    have := (List.takeWhile_prefix _).subset h
    simp [hgap '?' (by decide), hname '?' (by decide)] at this
  -- with a blank in it the tag is read as one with attributes
  have htag : inTag [] ('/' :: (name.text ++ gap.text)) =
      if ' ' ∈ gap.text then [.startTag] else [.endTag] := by
    have hhead : ('/' :: (name.text ++ gap.text)).filter (· ≠ '<') =
        '/' :: (name.text ++ gap.text).filter (· ≠ '<') :=
      List.filter_cons_of_pos (by decide)
    rw [inTag, if_neg hquestion, List.nil_append, hhead, List.head?_cons, if_pos rfl]
    simp [hname ' ' (by decide)]
  have hreports := reports_angled hgt s
  rw [htag] at hreports
  by_cases hblank : ' ' ∈ gap.text
  · rw [if_pos hblank] at hreports
    exact Or.inr ⟨not_not.mpr hblank, misread_of_reports hreports (by decide)⟩
  · rw [if_neg hblank] at hreports
    exact Or.inl ⟨hblank, hreports⟩

/-- Other markup is passed over exactly if all its stretches are quiet. -/
theorem markup_cases (v s : Str) :
    ((∀ w ∈ ('<' :: v).splitOn '>', Quiet w) ∧ Reports (between s) (Xml.angled v) [] init) ∨
      (¬ ∀ w ∈ ('<' :: v).splitOn '>', Quiet w) ∧ Misread s (Xml.angled v) [] := by
  rw [angled_eq]
  by_cases h : ∀ w ∈ ('<' :: v).splitOn '>', Quiet w
  · exact Or.inl ⟨h, reports_stretches h s⟩
  · exact Or.inr ⟨h, loud_stretches h s⟩

/-- **A piece** between others is read right, or it is not. -/
theorem piece_cases (p : Piece) (s : Str) :
    (ReadRight p ∧ ∃ s', Reports (between s) p.write p.tags (between s')) ∨
      ¬ ReadRight p ∧ Misread s p.write p.tags := by
  cases p with
  | text t =>
    by_cases hgt : '>' ∈ t.text
    · refine Or.inr ⟨not_not.mpr hgt, Or.inl ?_⟩
      obtain ⟨before, behind, htext, -⟩ := List.eq_append_cons_of_mem hgt
      have hlt : '<' ∉ before := by
        intro h
        exact t.ok (by rw [htext]; exact List.mem_append_left _ h)
      have := rejects_stray hlt behind s
      rwa [← htext] at this
    · exact Or.inl ⟨hgt, _, reports_text t.ok hgt s⟩
  | start name attrs gap =>
    rcases start_cases name attrs gap (Or.inl rfl) s with ⟨hgt, hq, hreports⟩ | ⟨hno, hmis⟩
    · rw [List.append_nil] at hreports
      exact Or.inl ⟨⟨hgt, hq⟩, [], hreports⟩
    · rw [List.append_nil] at hmis
      exact Or.inr ⟨hno, hmis⟩
  | empty name attrs gap =>
    rcases start_cases name attrs gap (Or.inr rfl) s with ⟨hgt, hq, hreports⟩ | ⟨hno, hmis⟩
    · exact Or.inl ⟨⟨hgt, hq⟩, [], hreports⟩
    · exact Or.inr ⟨hno, hmis⟩
  | close name gap =>
    rcases close_cases name gap s with ⟨hblank, hreports⟩ | hmis
    · exact Or.inl ⟨hblank, [], hreports⟩
    · exact Or.inr hmis
  -- the parser knows these three as one
  | comment t | cdata t | pi t =>
    rcases markup_cases _ s with ⟨hquiet, hreports⟩ | hmis
    · exact Or.inl ⟨hquiet, [], hreports⟩
    · exact Or.inr hmis

/-! ## Documents

A document is understood exactly if none of its pieces is misread: the first one that is shows in
what is reported so far. -/

/-- Pieces that are all read right are reported tag by tag. -/
theorem reports_pieces {ps : List Piece} (h : ∀ p ∈ ps, ReadRight p) (s : Str) :
    ∃ s', Reports (between s) (writeAll ps) (ps.flatMap Piece.tags) (between s') := by
  induction ps generalizing s with
  | nil => exact ⟨s, [], Scans.nil _, rfl⟩
  | cons p ps ih =>
    obtain ⟨hp, hps⟩ := List.forall_mem_cons.mp h
    rcases piece_cases p s with ⟨-, s', hreports⟩ | ⟨hno, -⟩
    · obtain ⟨s'', hrest⟩ := ih hps s'
      exact ⟨s'', hreports.append hrest⟩
    · exact absurd hp hno

/-- What stands before the first piece that is not read right. -/
theorem exists_first_misread {ps : List Piece} (h : ¬ ∀ p ∈ ps, ReadRight p) :
    ∃ before p after, ps = before ++ p :: after ∧ (∀ q ∈ before, ReadRight q) ∧ ¬ ReadRight p := by
  induction ps with
  | nil => exact absurd (fun p hp => absurd hp List.not_mem_nil) h
  | cons p ps ih =>
    by_cases hp : ReadRight p
    · obtain ⟨before, q, after, rfl, hbefore, hq⟩ :=
        ih fun hps => h (List.forall_mem_cons.mpr ⟨hp, hps⟩)
      exact ⟨p :: before, q, after, rfl, List.forall_mem_cons.mpr ⟨hp, hbefore⟩, hq⟩
    · exact ⟨[], p, ps, rfl, by simp, hp⟩

/-- The whole input is read and `true` is returned, and when the parser has read the pieces of a
document up to some place, the start and end tags it has reported are those of these pieces. -/
def Understood (ps : List Piece) : Prop :=
  ∀ (σ : Type) (elem : IXmlElement σ) (e : σ), (∀ e a, (elem e a).2 = true) →
    (process elem (writeAll ps) e).2 = true ∧
    ∀ before, before <+: ps →
      tagsOf ((made elem (writeAll before) e).map Prod.fst) = before.flatMap Piece.tags

/-- With callbacks that return `true` only the parser itself decides. -/
theorem understood_iff (ps : List Piece) :
    Understood ps ↔ accepts (writeAll ps) = true ∧
      ∀ before, before <+: ps → tagsOf (calls (writeAll before)) = before.flatMap Piece.tags := by
  have hall : ∀ {σ : Type} {elem : IXmlElement σ}, (∀ e a, (elem e a).2 = true) →
      ∀ (input : Str) (e : σ), (process elem input e).2 = accepts input ∧
        (made elem input e).map Prod.fst = calls input := by
    intro σ elem helem input e
    rw [process_eq_feed, made_eq, exchange_fst, feed_snd_true helem, Bool.true_and]
    exact ⟨rfl, given_eq (feed_snd_true helem e _)⟩
  constructor
  · intro h
    obtain ⟨haccepts, htags⟩ := h Unit (fun u _ => (u, true)) () fun _ _ => rfl
    rw [(hall (fun _ _ => rfl) _ _).1] at haccepts
    refine ⟨haccepts, fun before hbefore => ?_⟩
    rw [← htags before hbefore, (hall (fun _ _ => rfl) _ _).2]
  · rintro ⟨haccepts, htags⟩ σ elem e helem
    rw [(hall helem _ _).1]
    refine ⟨haccepts, fun before hbefore => ?_⟩
    rw [(hall helem _ _).2, htags before hbefore]

theorem writeAll_append (ps qs : List Piece) : writeAll (ps ++ qs) = writeAll ps ++ writeAll qs :=
  List.flatMap_append

/-- The parser understands pieces exactly if it reads every one of them right. -/
theorem understood_iff_readRight (ps : List Piece) :
    Understood ps ↔ ∀ p ∈ ps, ReadRight p := by
  rw [understood_iff]
  constructor
  · rintro ⟨haccepts, htags⟩
    -- the first piece that is misread decides
    by_contra hno
    obtain ⟨before, p, after, rfl, hbefore, hp⟩ := exists_first_misread hno
    obtain ⟨s, hreports⟩ := reports_pieces hbefore []
    rcases piece_cases p s with ⟨hyes, -⟩ | ⟨-, hrejects | htags'⟩
    · exact hp hyes
    · -- given up within the piece
      have hall : Rejects init (writeAll (before ++ p :: after)) := by
        have hwrite : writeAll (before ++ p :: after) =
            (writeAll before ++ p.write) ++ writeAll after := by
          rw [writeAll_append, List.append_assoc]
          rfl
        rw [hwrite]
        exact (hreports.rejects hrejects).append _
      rw [accepts, hall] at haccepts
      cases haccepts
    · -- other tags reported within the piece
      have hbeforep : before ++ [p] <+: before ++ p :: after :=
        ⟨after, by rw [List.append_assoc]; rfl⟩
      have := htags (before ++ [p]) hbeforep
      have hwrite : writeAll (before ++ [p]) = writeAll before ++ p.write := by
        rw [writeAll_append]
        simp [writeAll]
      rw [hwrite, List.flatMap_append] at this
      have := List.append_cancel_left ((hreports.scan p.write).1.symm.trans this)
      apply htags'
      simpa using this
  · intro h
    refine ⟨?_, fun before hbefore => ?_⟩
    · obtain ⟨s, hreports⟩ := reports_pieces h []
      have := (hreports.scan []).2
      rw [List.append_nil] at this
      exact this
    · obtain ⟨s, hreports⟩ := reports_pieces (fun p hp => h p (hbefore.subset hp)) []
      exact hreports.tags_eq

/-- No blank stands before the `>` of an end tag, and no `?` before the first blank of a start
tag. -/
def Ordinary : Piece → Prop
  | .start name attrs gap => '?' ∉ (Piece.start name attrs gap).markup.takeWhile (· ≠ ' ')
  | .empty name attrs gap => '?' ∉ (Piece.start name attrs gap).markup.takeWhile (· ≠ ' ')
  | .close _ gap => ' ' ∉ gap.text
  | _ => True

/-- No `>` stands in text or in an attribute value. Where there is other markup, what the parser
takes for the beginning of a tag is a processing instruction, each time. -/
def Legible : Piece → Prop
  | .text t => '>' ∉ t.text
  | .start _ attrs _ => ∀ a ∈ attrs, '>' ∉ a.value
  | .empty _ attrs _ => ∀ a ∈ attrs, '>' ∉ a.value
  | .close _ _ => True
  | .comment t => ∀ w ∈ ('<' :: (Piece.comment t).markup).splitOn '>', Quiet w
  | .cdata t => ∀ w ∈ ('<' :: (Piece.cdata t).markup).splitOn '>', Quiet w
  | .pi t => ∀ w ∈ ('<' :: (Piece.pi t).markup).splitOn '>', Quiet w

/-- A piece is read right if it is ordinary and legible. -/
theorem readRight_iff (p : Piece) : ReadRight p ↔ Ordinary p ∧ Legible p := by
  cases p with
  | start name attrs gap | empty name attrs gap =>
    rw [ReadRight, Piece.gt_not_mem_start]
    exact and_comm
  | close name gap => exact (and_iff_left trivial).symm
  | _ => exact (and_iff_right trivial).symm

/-- **Which documents are understood.** Those whose text and attribute values hold no `>`, and
whose other markup looks to the parser like processing instructions. -/
theorem process_understood_iff (doc : Document) (h : ∀ p ∈ doc.pieces, Ordinary p) :
    Understood doc.pieces ↔ ∀ p ∈ doc.pieces, Legible p := by
  rw [understood_iff_readRight]
  refine forall₂_congr fun p hp => ?_
  rw [readRight_iff]
  exact and_iff_right (h p hp)

theorem forall_mem_of_all {P : Char → Prop} [DecidablePred P] {s : Str}
    (h : s.all (fun c => decide (P c)) = true) : ∀ c ∈ s, P c :=
  fun c hc => of_decide_eq_true (List.all_eq_true.mp h c hc)

def nameA : Name :=
  { text := ['a'], begins := ⟨'a', rfl, by decide +kernel⟩,
    ok := forall_mem_of_all (by decide +kernel) }

theorem closed_ok : ∀ c ∈ ([] : Str), Xml.IsSpace c := by simp

def closed : Xml.Gap := { text := [], ok := closed_ok }

/-- `<a>x > y</a>` -/
def comparison : Document where
  content :=
    .elem nameA [] closed
      (.text { text := "x > y".toList, ok := by decide +kernel,
               no_cdata_end := by decide +kernel } .nil)
      closed .nil
  ok := trivial

/-- The parser gives up at a `>` in text. -/
theorem comparison_not_understood : ¬ Understood comparison.pieces := by
  rw [understood_iff]
  rintro ⟨haccepts, -⟩
  revert haccepts
  decide +kernel

/-- `<?p q?><a b="?">x</a>` -/
def question : Document where
  content :=
    .pi { target := { text := ['p'], begins := ⟨'p', rfl, by decide +kernel⟩,
                      ok := forall_mem_of_all (by decide +kernel) },
          text := " q".toList,
          spaced := fun c hc => by
            obtain rfl : ' ' = c := Option.some.inj hc
            decide
          ok := by decide +kernel }
      (.elem nameA
        [{ gap := { text := [' '], ok := forall_mem_of_all (by decide) }, spaced := by decide,
           name := { text := ['b'], begins := ⟨'b', rfl, by decide +kernel⟩,
                     ok := forall_mem_of_all (by decide +kernel) },
           before := closed, behind := closed, quote := '"', quote_ok := Or.inl rfl,
           value := ['?'], ok := by decide +kernel }]
        closed
        (.text { text := ['x'], ok := by decide, no_cdata_end := by decide +kernel } .nil)
        closed .nil)
  ok := trivial

/-- A processing instruction that is understood. -/
theorem question_understood : Understood question.pieces := by
  have hordinary : ∀ p ∈ question.pieces, Ordinary p := by
    intro p hp
    simp only [question, Document.pieces, Content.pieces, List.mem_cons, List.mem_append,
      List.not_mem_nil, or_false] at hp
    rcases hp with rfl | rfl | rfl | rfl
    · trivial
    · unfold Ordinary
      decide +kernel
    · trivial
    · unfold Ordinary
      decide +kernel
  refine (process_understood_iff question hordinary).mpr fun p hp => ?_
  simp only [question, Document.pieces, Content.pieces, List.mem_cons, List.mem_append,
    List.not_mem_nil, or_false] at hp
  rcases hp with rfl | rfl | rfl | rfl
  · unfold Legible
    decide +kernel
  · unfold Legible
    decide +kernel
  · unfold Legible
    decide +kernel
  · trivial

end XmlParser

end Skweltch
