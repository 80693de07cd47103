import Skweltch.Msg

/-!
# Skweltch — XML documents

The documents a splitter is given: properly nested elements with attributes and text, and
empty-element tags. There are no comments, processing instructions or CDATA sections, and no `<`,
`>` or `?` inside names, attributes or text. What a path selects is defined on the document, by the
names from the root down.
-/

namespace Skweltch

namespace Xml

def IsSpace (c : Char) : Prop := c = ' ' ∨ c = '\t' ∨ c = '\n' ∨ c = '\r'

instance (c : Char) : Decidable (IsSpace c) := by unfold IsSpace; infer_instance

/-- Not one of the characters that open, close or turn a tag into something else. -/
def IsPlain (c : Char) : Prop := c ≠ '<' ∧ c ≠ '>' ∧ c ≠ '?'

instance (c : Char) : Decidable (IsPlain c) := by unfold IsPlain; infer_instance

structure Name where
  text : Str
  ne_nil : text ≠ []
  ok : ∀ c ∈ text, IsPlain c ∧ c ≠ '/' ∧ ¬ IsSpace c

/-- What stands behind the name in a start tag: nothing, or white space and attributes. -/
structure Tail where
  text : Str
  ok : ∀ c ∈ text, IsPlain c
  spaced : ∀ c ∈ text.head?, IsSpace c
  not_empty_tag : text.getLast? ≠ some '/'

structure Gap where
  text : Str
  ok : ∀ c ∈ text, IsSpace c

structure Text where
  text : Str
  ok : ∀ c ∈ text, IsPlain c

/-- The content of an element, or a whole document: a sequence of text and elements. -/
inductive Forest where
  | nil
  | text (t : Text) (rest : Forest)
  | elem (name : Name) (tail : Tail) (kids : Forest) (gap : Gap) (rest : Forest)
  | empty (name : Name) (tail : Tail) (rest : Forest)

/-- What stands between the `<` and the `>` of a start tag. -/
def startTag (name : Name) (tail : Tail) : Str := name.text ++ tail.text

def endTag (name : Name) (gap : Gap) : Str := '/' :: (name.text ++ gap.text)

def emptyTag (name : Name) (tail : Tail) : Str := name.text ++ tail.text ++ ['/']

def angled (v : Str) : Str := '<' :: (v ++ ['>'])

def Forest.write : Forest → Str
  | .nil => []
  | .text t rest => t.text ++ rest.write
  | .elem name tail kids gap rest =>
    angled (startTag name tail) ++ kids.write ++ angled (endTag name gap) ++ rest.write
  | .empty name tail rest => angled (emptyTag name tail) ++ rest.write

/-- An element of a document, with the names of the elements it is in; an empty-element tag has no
body. -/
structure Occurrence where
  above : List Str
  name : Name
  tail : Tail
  body : Option (Forest × Gap)

namespace Occurrence

def chain (o : Occurrence) : List Str := o.above ++ [o.name.text]

def tag (o : Occurrence) : Str :=
  match o.body with
  | some _ => startTag o.name o.tail
  | none => emptyTag o.name o.tail

def write (o : Occurrence) : Str :=
  match o.body with
  | some (kids, gap) =>
    angled (startTag o.name o.tail) ++ kids.write ++ angled (endTag o.name gap)
  | none => angled (emptyTag o.name o.tail)

end Occurrence

namespace Forest

def elements (above : List Str) : Forest → List Occurrence
  | .nil => []
  | .text _ rest => rest.elements above
  | .elem name tail kids gap rest =>
    { above, name, tail, body := some (kids, gap) } ::
      (kids.elements (above ++ [name.text]) ++ rest.elements above)
  | .empty name tail rest =>
    { above, name, tail, body := none } :: rest.elements above

/-- The serialisations of the elements whose chain of names is the path. -/
def selected (path above : List Str) (doc : Forest) : List Str :=
  ((doc.elements above).filter fun o => o.chain = path).map Occurrence.write

end Forest

structure Path where
  names : List Str
  ne_nil : names ≠ []
  ok : ∀ s ∈ names, ∃ n : Name, s = n.text

/-- `p1/.../pn` -/
def Path.text (path : Path) : Str := List.intercalate ['/'] path.names

/-! ## Names -/

theorem Name.slash_not_mem (n : Name) : '/' ∉ n.text := fun h => (n.ok _ h).2.1 rfl

theorem Name.blank_not_mem (n : Name) : ' ' ∉ n.text := fun h => (n.ok _ h).2.2 (Or.inl rfl)

theorem Path.splitOn_text (path : Path) : path.text.splitOn '/' = path.names := by
  apply List.splitOn_intercalate
  · intro s hs
    obtain ⟨n, rfl⟩ := path.ok s hs
    exact n.slash_not_mem
  · exact path.ne_nil

/-- A name that is followed by white space is no name of a path. -/
theorem Path.append_space_not_mem (path : Path) {s t : Str} {c : Char} (hc : c ∈ t)
    (hspace : IsSpace c) : s ++ t ∉ path.names := by
  intro h
  obtain ⟨n, hn⟩ := path.ok _ h
  have hmem : c ∈ n.text := by
    rw [← hn]
    exact List.mem_append_right _ hc
  exact (n.ok c hmem).2.2 hspace

theorem Path.slash_not_mem (path : Path) (s : Str) : '/' :: s ∉ path.names := by
  intro h
  obtain ⟨n, hn⟩ := path.ok _ h
  apply n.slash_not_mem
  rw [← hn]
  exact List.mem_cons_self ..

/-! ## How much of a path is matched

For the elements that are open, from the outermost on: how many of them have the names that the path
begins with. Elements below one that does not match are not counted. -/

/-- How many names of the path a chain of names begins with. -/
def matched : List Str → List Str → Nat
  | p :: ps, m :: ms => if p = m then matched ps ms + 1 else 0
  | _, _ => 0

theorem matched_nil (path : List Str) : matched path [] = 0 := by
  cases path <;> rfl

theorem matched_of_prefix {path chain : List Str} (h : chain <+: path) :
    matched path chain = chain.length := by
  induction chain generalizing path with
  | nil => exact matched_nil path
  | cons m ms ih =>
    obtain ⟨rest, rfl⟩ := h
    rw [List.cons_append, matched, if_pos rfl, ih (List.prefix_append ms rest)]
    rfl

/-- An element that does not lie on it leaves what is matched as it was. -/
theorem matched_append {path chain : List Str} {name : Str} (h : ¬ chain ++ [name] <+: path) :
    matched path (chain ++ [name]) = matched path chain := by
  induction chain generalizing path with
  | nil =>
    cases path with
    | nil => rfl
    | cons p ps =>
      have hne : p ≠ name := by
        rintro rfl
        exact h ⟨ps, rfl⟩
      rw [List.nil_append, matched, if_neg hne, matched_nil]
  | cons m ms ih =>
    cases path with
    | nil => rfl
    | cons p ps =>
      rw [List.cons_append, matched, matched]
      split
      · next heq =>
        subst heq
        rw [ih fun hp => h (List.cons_prefix_cons.mpr ⟨rfl, hp⟩)]
      · rfl

theorem getElem?_of_prefix {path chain : List Str} {name : Str} (h : chain ++ [name] <+: path) :
    path[chain.length]? = some name := by
  obtain ⟨rest, rfl⟩ := h
  simp

/-! ## What is selected -/

namespace Forest

/-- What is selected of an element: itself at the end of the path, what is in it elsewhere. -/
theorem selected_elem (path above : List Str) (name : Name) (tail : Tail) (kids : Forest)
    (gap : Gap) (rest : Forest) :
    selected path above (.elem name tail kids gap rest) =
      (if above ++ [name.text] = path then
        [angled (startTag name tail) ++ kids.write ++ angled (endTag name gap)] else []) ++
        (selected path (above ++ [name.text]) kids ++ selected path above rest) := by
  simp only [selected, elements, List.filter_cons, List.filter_append, Occurrence.chain]
  split
  · next h =>
    rw [if_pos (of_decide_eq_true h)]
    simp [Occurrence.write]
  · next h =>
    rw [if_neg (fun heq => h (decide_eq_true heq))]
    simp

theorem selected_empty {path above : List Str} {name : Name}
    (h : above ++ [name.text] ≠ path) (tail : Tail) (rest : Forest) :
    selected path above (.empty name tail rest) = selected path above rest := by
  simp [selected, elements, Occurrence.chain, h]

/-- Nothing is selected below the end of the path. -/
theorem selected_below {path above : List Str} (h : path.length ≤ above.length) (doc : Forest) :
    selected path above doc = [] := by
  have hne : ∀ (above : List Str) (name : Name), path.length ≤ above.length →
      above ++ [name.text] ≠ path := by
    intro above name hle heq
    have := congrArg List.length heq
    rw [List.length_append, List.length_singleton] at this
    omega
  induction doc generalizing above with
  | nil => rfl
  | text t rest ih => exact ih h
  | elem name tail kids gap rest ihkids ihrest =>
    rw [selected_elem, if_neg (hne above name h), ihrest h, ihkids (by simp; omega)]
    rfl
  | empty name tail rest ih => rw [selected_empty (hne above name h), ih h]

end Forest

end Xml

end Skweltch
