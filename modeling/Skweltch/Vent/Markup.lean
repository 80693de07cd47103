import Skweltch.Vent.XmlDocument

/-!
# Skweltch — XML documents with all their markup

Documents of elements, attributes, text, comments, processing instructions and CDATA sections.
What a well-formed document may not hold is asked of each part, but for references, which are not
looked into. Nothing is asked of a `>` in text, in an attribute value or in a comment. A document
is written piece by piece; the tags among the pieces are what a parser has to report.
-/

namespace Skweltch

namespace Markup

open Xml (IsSpace angled)

def IsNameStart (c : Char) : Prop := c.isAlpha = true ∨ c = '_' ∨ c = ':' ∨ 128 ≤ c.toNat

def IsNameChar (c : Char) : Prop := IsNameStart c ∨ c.isDigit = true ∨ c = '-' ∨ c = '.'

instance (c : Char) : Decidable (IsNameStart c) := by unfold IsNameStart; infer_instance

instance (c : Char) : Decidable (IsNameChar c) := by unfold IsNameChar; infer_instance

structure Name where
  text : Str
  begins : ∃ c, text.head? = some c ∧ IsNameStart c
  ok : ∀ c ∈ text, IsNameChar c

structure Attr where
  gap : Xml.Gap
  spaced : gap.text ≠ []
  name : Name
  before : Xml.Gap
  behind : Xml.Gap
  quote : Char
  quote_ok : quote = '"' ∨ quote = '\''
  value : Str
  ok : '<' ∉ value ∧ quote ∉ value

def Attr.write (a : Attr) : Str :=
  a.gap.text ++ a.name.text ++ a.before.text ++
    '=' :: (a.behind.text ++ a.quote :: (a.value ++ [a.quote]))

structure CharData where
  text : Str
  ok : '<' ∉ text
  no_cdata_end : ¬ "]]>".toList <:+: text

structure Comment where
  text : Str
  ok : ¬ "--".toList <:+: text ++ ['-']

structure CData where
  text : Str
  ok : ¬ "]]>".toList <:+: text

structure Pi where
  target : Name
  text : Str
  spaced : ∀ c ∈ text.head?, IsSpace c
  ok : ¬ "?>".toList <:+: text

/-- The content of an element, and what stands around the root of a document. -/
inductive Content where
  | nil
  | text (t : CharData) (rest : Content)
  | cdata (t : CData) (rest : Content)
  | comment (t : Comment) (rest : Content)
  | pi (t : Pi) (rest : Content)
  | elem (name : Name) (attrs : List Attr) (gap : Xml.Gap) (kids : Content) (close : Xml.Gap)
      (rest : Content)
  | empty (name : Name) (attrs : List Attr) (gap : Xml.Gap) (rest : Content)

namespace Content

/-- Neither an element nor text that is not white space. -/
def IsMisc : Content → Prop
  | .nil => True
  | .text t rest => (∀ c ∈ t.text, IsSpace c) ∧ rest.IsMisc
  | .comment _ rest | .pi _ rest => rest.IsMisc
  | _ => False

/-- One element, the root, with nothing else around it. -/
def IsDocument : Content → Prop
  | .text t rest => (∀ c ∈ t.text, IsSpace c) ∧ rest.IsDocument
  | .comment _ rest | .pi _ rest => rest.IsDocument
  | .elem _ _ _ _ _ rest | .empty _ _ _ rest => rest.IsMisc
  | _ => False

end Content

structure Document where
  content : Content
  ok : content.IsDocument

/-! ## Pieces

A document is written as a list of pieces, which need not be nested as elements are: the parser does
not look at nesting, and the results about it do not either. -/

inductive Piece where
  | text (t : CharData)
  | start (name : Name) (attrs : List Attr) (gap : Xml.Gap)
  | empty (name : Name) (attrs : List Attr) (gap : Xml.Gap)
  | close (name : Name) (gap : Xml.Gap)
  | comment (t : Comment)
  | cdata (t : CData)
  | pi (t : Pi)

namespace Piece

/-- What stands between the `<` and the `>` of a piece that is no text. -/
def markup : Piece → Str
  | .text _ => []
  | .start name attrs gap => name.text ++ attrs.flatMap Attr.write ++ gap.text
  | .empty name attrs gap => name.text ++ attrs.flatMap Attr.write ++ gap.text ++ ['/']
  | .close name gap => '/' :: (name.text ++ gap.text)
  | .comment t => "!--".toList ++ t.text ++ "--".toList
  | .cdata t => "![CDATA[".toList ++ t.text ++ "]]".toList
  | .pi t => '?' :: (t.target.text ++ t.text ++ ['?'])

def write : Piece → Str
  | .text t => t.text
  | p => angled p.markup

theorem markup_start (name : Name) (attrs : List Attr) (gap : Xml.Gap) :
    (start name attrs gap).markup = name.text ++ attrs.flatMap Attr.write ++ gap.text := rfl

theorem markup_close (name : Name) (gap : Xml.Gap) :
    (close name gap).markup = '/' :: (name.text ++ gap.text) := rfl

end Piece

inductive Tag where
  | startTag
  | endTag
deriving DecidableEq, Repr

/-- The tags that are reported for a piece. An empty-element tag is reported as the start tag it
is written like; the `/` at its end tells it from one. -/
def Piece.tags : Piece → List Tag
  | .start .. | .empty .. => [.startTag]
  | .close .. => [.endTag]
  | _ => []

def Content.pieces : Content → List Piece
  | .nil => []
  | .text t rest => .text t :: rest.pieces
  | .cdata t rest => .cdata t :: rest.pieces
  | .comment t rest => .comment t :: rest.pieces
  | .pi t rest => .pi t :: rest.pieces
  | .elem name attrs gap kids close rest =>
    .start name attrs gap :: (kids.pieces ++ .close name close :: rest.pieces)
  | .empty name attrs gap rest => .empty name attrs gap :: rest.pieces

def writeAll (ps : List Piece) : Str := ps.flatMap Piece.write

def Document.pieces (doc : Document) : List Piece := doc.content.pieces

def Document.write (doc : Document) : Str := writeAll doc.pieces

/-! ## Characters that do not occur

The marks by which the parser takes a document apart do not occur in names or in white space. In the
values of attributes a `>` may occur. -/

theorem not_isNameChar_of_mem {c : Char} (h : c ∈ ['<', '>', '?', '/', ' ']) : ¬ IsNameChar c := by
  simp only [List.mem_cons, List.not_mem_nil, or_false] at h
  rcases h with rfl | rfl | rfl | rfl | rfl
  all_goals decide +kernel

theorem Name.not_mem (n : Name) {c : Char} (h : c ∈ ['<', '>', '?', '/', ' ']) : c ∉ n.text :=
  fun hc => not_isNameChar_of_mem h (n.ok c hc)

theorem Name.ne_nil (n : Name) : n.text ≠ [] := by
  obtain ⟨c, hc, -⟩ := n.begins
  intro hnil
  rw [hnil] at hc
  cases hc

theorem gap_not_mem (g : Xml.Gap) {c : Char} (h : ¬ IsSpace c) : c ∉ g.text :=
  fun hc => h (g.ok c hc)

/-- No `<` stands in a tag. -/
theorem Attr.lt_not_mem (a : Attr) : '<' ∉ a.write := by
  have hquote : '<' ≠ a.quote := by
    rcases a.quote_ok with h | h
    · rw [h]
      decide
    · rw [h]
      decide
  have hgap : ∀ g : Xml.Gap, '<' ∉ g.text := fun g => gap_not_mem g (by decide)
  have hname : '<' ∉ a.name.text := a.name.not_mem (c := '<') (by decide)
  simp [Attr.write, hgap, hname, hquote, a.ok.1]

/-- A start tag has no `<` in it. -/
theorem Piece.lt_not_mem_start (name : Name) (attrs : List Attr) (gap : Xml.Gap) :
    '<' ∉ (Piece.start name attrs gap).markup := by
  have hgap : '<' ∉ gap.text := gap_not_mem gap (by decide)
  have hname : '<' ∉ name.text := name.not_mem (by decide)
  have hattrs : '<' ∉ attrs.flatMap Attr.write := by
    rw [List.mem_flatMap]
    rintro ⟨a, -, ha⟩
    exact a.lt_not_mem ha
  rw [Piece.markup_start, List.mem_append, List.mem_append, not_or, not_or]
  exact ⟨⟨hname, hattrs⟩, hgap⟩

/-- A `>` in a tag stands in an attribute value. -/
theorem Attr.gt_mem (a : Attr) : '>' ∈ a.write ↔ '>' ∈ a.value := by
  have hquote : '>' ≠ a.quote := by
    rcases a.quote_ok with h | h
    · rw [h]
      decide
    · rw [h]
      decide
  have hgap : ∀ g : Xml.Gap, '>' ∉ g.text := fun g => gap_not_mem g (by decide)
  have hname : '>' ∉ a.name.text := a.name.not_mem (c := '>') (by decide)
  simp [Attr.write, hgap, hname, hquote]

theorem Piece.gt_not_mem_start (name : Name) (attrs : List Attr) (gap : Xml.Gap) :
    '>' ∉ (Piece.start name attrs gap).markup ↔ ∀ a ∈ attrs, '>' ∉ a.value := by
  have hgap : '>' ∉ gap.text := gap_not_mem gap (by decide)
  have hname : '>' ∉ name.text := name.not_mem (by decide)
  rw [Piece.markup_start, List.mem_append, List.mem_append, List.mem_flatMap]
  simp [hgap, hname, Attr.gt_mem]

/-- A start tag does not begin like an end tag. -/
theorem Piece.head?_start (name : Name) (attrs : List Attr) (gap : Xml.Gap) (behind : Str) :
    ((Piece.start name attrs gap).markup ++ behind).head? ≠ some '/' := by
  obtain ⟨c, hc, -⟩ := name.begins
  obtain ⟨text, htext⟩ : ∃ text, name.text = c :: text := by
    cases hn : name.text with
    | nil => rw [hn] at hc; cases hc
    | cons d text =>
      rw [hn] at hc
      exact ⟨text, by rw [Option.some.inj hc]⟩
  have hne : c ≠ '/' := by
    rintro rfl
    exact name.not_mem (c := '/') (by decide) (by rw [htext]; exact List.mem_cons_self ..)
  rw [Piece.markup_start, htext]
  intro h
  exact hne (Option.some.inj h)

end Markup

end Skweltch
