import Skweltch.Graph.DotText

/-!
# Skweltch — the elements in the labels of a graph

A label that `MachineGraph::makeDOT` (`graph/MachineGraph.cpp`) writes for a node stands between
`<` and `>` and has tags in it; the labels of an edge stand between quotes. The scanner finds the
tags in what `makeDOT` itself writes, and where a string of the document is put. The elements that
are opened are closed as they are nested, whatever the document (`makeDOT_wellFormed`). The strings
are not escaped, so that one of them can close an element as well (`node_closes_font`).
-/

namespace Skweltch

open Json JsonObject Pieces

/-- What the scanner finds. -/
inductive DotMark where
  | beginLabel
  | endLabel
  | openTag (s : Str)
  | closeTag (s : Str)
deriving DecidableEq, Repr

/-- Where the scanner is: outside the labels, in a quoted one, between the tags of a label or in a
tag. -/
inductive DotMode where
  | graph
  | quote
  | label
  | tag
deriving DecidableEq, Repr

/-- The mode, and what was read of a tag. -/
structure DotScan where
  mode : DotMode
  acc : Str
deriving DecidableEq, Repr

def DotPlace.mode : DotPlace → DotMode
  | .nodeId => .graph
  | .label => .label
  | .quoted => .quote

namespace DotElements

def tag : Str → DotMark
  | '/' :: name => .closeTag name
  | s => .openTag s

def step (s : DotScan) (c : Char) : DotScan × List DotMark :=
  match s.mode with
  | .graph =>
    if c = '"' then (⟨.quote, []⟩, [])
    else if c = '<' then (⟨.label, []⟩, [.beginLabel])
    else (s, [])
  | .quote => if c = '"' then (⟨.graph, []⟩, []) else (s, [])
  | .label =>
    if c = '<' then (⟨.tag, []⟩, [])
    else if c = '>' then (⟨.graph, []⟩, [.endLabel])
    else (s, [])
  | .tag => if c = '>' then (⟨.label, []⟩, [tag s.acc]) else ({ s with acc := s.acc ++ [c] }, [])

/-- The scanner of a graph, which is where a string is put if its mode says so. -/
def scanner : PieceScanner DotScan DotMark Char DotPlace where
  step := step
  At := fun s p => s.mode = p.mode

def start : DotScan := ⟨.graph, []⟩

/-! ## Nested elements

A label is HTML-like: its tags have to be closed as they were opened, and a label begins and ends
with none open. -/

def elementName (s : Str) : Str := s.takeWhile (· ≠ ' ')

/-- What a mark does to the elements that are open, the last one first. A label begins and ends
with none. -/
def nestStep : List Str → DotMark → Option (List Str)
  | es, .openTag s => some (elementName s :: es)
  | e :: es, .closeTag s => if e = s then some es else none
  | [], .closeTag _ => none
  | es, .beginLabel => if es = [] then some es else none
  | es, .endLabel => if es = [] then some es else none

def nest (es : List Str) (ms : List DotMark) : Option (List Str) := ms.foldlM nestStep es

theorem nest_append (es : List Str) (ms ms' : List DotMark) :
    nest es (ms ++ ms') = (nest es ms).bind fun es' => nest es' ms' := List.foldlM_append

/-! ## Scanning pieces

The graph's text is made of literals, and of strings of the document at places of three kinds.
Scanning goes through the literals; a string is where it should be if the mode is that of its place.
-/

/-- From a mode, with some elements open, the pieces are scanned up to another: whatever is spliced
in is in its place, and the elements are closed as they are nested. -/
def Scans (m : DotMode) (es : List Str) (ps : List DotPiece) (m' : DotMode) (es' : List Str) :
    Prop :=
  (scan scanner ⟨m, []⟩ ps).1 = ⟨m', []⟩ ∧ Placed scanner ⟨m, []⟩ ps ∧
    nest es (scan scanner ⟨m, []⟩ ps).2 = some es'

variable {m m' m'' : DotMode} {es es' es'' : List Str}

theorem scans_nil (m : DotMode) (es : List Str) : Scans m es [] m es := ⟨rfl, trivial, rfl⟩

/-- Pieces are scanned one behind the other. -/
theorem Scans.append {ps qs : List DotPiece} (h : Scans m es ps m' es')
    (h' : Scans m' es' qs m'' es'') : Scans m es (ps ++ qs) m'' es'' := by
  obtain ⟨hstate, hplaced, hnest⟩ := h
  obtain ⟨hstate', hplaced', hnest'⟩ := h'
  rw [← hstate] at hstate' hplaced' hnest'
  refine ⟨?_, ?_, ?_⟩
  · rw [scan_append]
    exact hstate'
  · rw [placed_append]
    exact ⟨hplaced, hplaced'⟩
  · rw [scan_append, nest_append, hnest]
    exact hnest'

theorem Scans.cons {p : DotPiece} {ps : List DotPiece} (h : Scans m es [p] m' es')
    (h' : Scans m' es' ps m'' es'') : Scans m es (p :: ps) m'' es'' := h.append h'

theorem scans_map {α : Type} {f : α → DotPiece} {as : List α}
    (h : ∀ a ∈ as, Scans m es [f a] m es) : Scans m es (as.map f) m es := by
  induction as with
  | nil => exact scans_nil m es
  | cons a as ih =>
    obtain ⟨ha, has⟩ := List.forall_mem_cons.mp h
    exact ha.cons (ih has)

/-- However many there are: by induction on the list. -/
theorem Scans.flatMap {α : Type} {f : α → List DotPiece} (h : ∀ a, Scans m es (f a) m es)
    (as : List α) : Scans m es (as.flatMap f) m es := by
  induction as with
  | nil => exact scans_nil m es
  | cons a as ih => exact (h a).append ih

/-- A string of the document changes nothing where it is put. -/
theorem scans_splice (p : DotPlace) (s : Str) (es : List Str) :
    Scans p.mode es [.splice p s] p.mode es := ⟨rfl, ⟨rfl, trivial⟩, rfl⟩

/-- What a literal comes to, which can be computed. -/
def Turns (m : DotMode) (es : List Str) (s : String) (m' : DotMode) (es' : List Str) : Prop :=
  (run step ⟨m, []⟩ s.toList).1 = ⟨m', []⟩ ∧ nest es (run step ⟨m, []⟩ s.toList).2 = some es'

instance (m : DotMode) (es : List Str) (s : String) (m' : DotMode) (es' : List Str) :
    Decidable (Turns m es s m' es') := inferInstanceAs (Decidable (_ ∧ _))

/-- A literal does what it comes to. -/
theorem scans_lit {s : String} (h : Turns m es s m' es') : Scans m es [DotText.lit s] m' es' := by
  have hscan : scan scanner ⟨m, []⟩ [DotText.lit s] =
      ((run step ⟨m, []⟩ s.toList).1, (run step ⟨m, []⟩ s.toList).2 ++ []) := rfl
  rw [List.append_nil] at hscan
  refine ⟨?_, trivial, ?_⟩
  · rw [hscan]
    exact h.1
  · rw [hscan]
    exact h.2

/-! ## What is written

Each function that writes a part of the graph is scanned once, from the mode in which it is called
to the one in which it returns. -/

def names (es : List String) : List Str := es.map String.toList

/-- The elements that are open in a cell of a label, and in the table in it. -/
def cell : List Str := names ["TD", "TR", "TABLE"]

def inner : List Str := names ["TABLE", "TD", "TR", "TABLE"]

/-- The elements that are open around a string in a row. -/
def font : List Str := names ["FONT", "TD", "TR", "TABLE", "TD", "TR", "TABLE"]

/-- A row of two cells: each string is between the tags of a font. -/
theorem scans_row {a b c : String} (ha : Turns .label inner a .label font)
    (hb : Turns .label font b .label font) (hc : Turns .label font c .label inner) (r : Str × Str) :
    Scans .label inner [DotText.lit a, .splice .label r.1, DotText.lit b, .splice .label r.2,
      DotText.lit c] .label inner :=
  (scans_lit ha).cons <|
  (scans_splice .label r.1 _).cons <|
  (scans_lit hb).cons <|
  (scans_splice .label r.2 _).cons <|
  scans_lit hc

theorem scans_writeNodeInfoRow (r : Str × Str) :
    Scans .label inner (DotText.writeNodeInfoRow r.1 r.2) .label inner :=
  scans_row (by decide +kernel) (by decide +kernel) (by decide +kernel) r

theorem scans_writeNodeConfigRow (r : Str × Str) :
    Scans .label inner (DotText.writeNodeConfigRow r.1 r.2) .label inner :=
  scans_row (by decide +kernel) (by decide +kernel) (by decide +kernel) r

/-- **The inner table** is closed if it was opened. -/
theorem scans_table {writeRow : Str → Str → List DotPiece}
    (hrow : ∀ r : Str × Str, Scans .label inner (writeRow r.1 r.2) .label inner)
    (rows : List (Str × Str)) : Scans .label cell (DotText.table writeRow rows) .label cell := by
  rw [DotText.table]
  split
  · exact scans_nil .label cell
  · have hbegin : Scans .label cell (DotText.beginTable false) .label inner :=
      (scans_lit (show Turns .label cell "\t\t\t" .label cell by decide +kernel)).cons
        (scans_lit (by decide +kernel))
    have hend : Scans .label inner (DotText.endTable true) .label cell :=
      scans_lit (by decide +kernel)
    exact (hbegin.append (Scans.flatMap hrow rows)).append hend

theorem scans_cell {ps : List DotPiece} (h : Scans .label cell ps .label cell) :
    Scans .label (names ["TABLE"]) (DotText.beginCell ++ ps ++ DotText.endCell) .label
      (names ["TABLE"]) := by
  have hbegin : Scans .label (names ["TABLE"]) DotText.beginCell .label cell :=
    scans_lit (by decide +kernel)
  have hend : Scans .label cell DotText.endCell .label (names ["TABLE"]) :=
    scans_lit (by decide +kernel)
  exact (hbegin.append h).append hend

/-- An edge: its ends are bare and its labels between quotes. -/
theorem scans_writeEdge (src dst srclabel dstlabel : Str) :
    Scans .graph [] (DotText.writeEdge src dst srclabel dstlabel false) .graph [] := by
  have hends : Scans .graph [] [DotText.lit "\t", .splice .nodeId src, DotText.lit " -> ",
      .splice .nodeId dst, DotText.lit "[headlabel=\""] .quote [] :=
    (scans_lit (by decide +kernel)).cons <|
    (scans_splice .nodeId src []).cons <|
    (scans_lit (by decide +kernel)).cons <|
    (scans_splice .nodeId dst []).cons <|
    scans_lit (by decide +kernel)
  have hlabels : Scans .quote [] [.splice .quoted srclabel, DotText.lit "\",taillabel=\"",
      .splice .quoted dstlabel, DotText.lit "\""] .graph [] :=
    (scans_splice .quoted srclabel []).cons <|
    (scans_lit (by decide +kernel)).cons <|
    (scans_splice .quoted dstlabel []).cons <|
    scans_lit (by decide +kernel)
  have hend : Scans .graph [] [DotText.lit "];\n"] .graph [] := scans_lit (by decide +kernel)
  exact ((hends.append hlabels).append (scans_nil .graph [])).append hend

/-- **A statement** begins and ends outside the labels, with no element open. -/
theorem scans_stmtText (s : DotStmt) : Scans .graph [] (DotText.stmtText s) .graph [] := by
  cases s with
  | node name info config =>
    have hbegin : Scans .graph [] [DotText.lit "\t", .splice .nodeId name,
        DotText.lit " [shape=box,label=<\n"] .label [] :=
      (scans_lit (by decide +kernel)).cons <|
      (scans_splice .nodeId name []).cons <|
      scans_lit (by decide +kernel)
    have htable : Scans .label [] DotText.writeTableHeader .label (names ["TABLE"]) :=
      scans_lit (by decide +kernel)
    have hfont : Turns .label (names ["TABLE"])
        "\t<TR>\n\t\t<TD><FONT POINT-SIZE=\"18\" COLOR=\"green\">" .label
          (names ["FONT", "TD", "TR", "TABLE"]) := by decide +kernel
    have hname : Scans .label (names ["TABLE"])
        [DotText.lit "\t<TR>\n\t\t<TD><FONT POINT-SIZE=\"18\" COLOR=\"green\">",
          .splice .label name, DotText.lit "</FONT></TD>\n\t</TR>\n"] .label (names ["TABLE"]) :=
      (scans_lit hfont).cons <|
      (scans_splice .label name _).cons <|
      scans_lit (by decide +kernel)
    have hend : Scans .label (names ["TABLE"]) [DotText.lit "</TABLE>>];\n"] .graph [] :=
      scans_lit (by decide +kernel)
    have hinfo := scans_cell (scans_table scans_writeNodeInfoRow info)
    have hconfig := scans_cell (scans_table scans_writeNodeConfigRow config)
    exact ((((hbegin.append htable).append hname).append hinfo).append hconfig).append hend
  | edge src dst headlabel taillabel => exact scans_writeEdge src dst headlabel taillabel

/-- A machine with a vent on a node, a sink that it is connected to and a reaper. -/
def exampleJson (node : String) : ReadJson :=
  .parsed (.obj [
    ("vent".toList, .obj [("name".toList, .str "v".toList), ("node".toList, .str node.toList),
      ("connections".toList, .obj [("syncTo".toList, .obj [("mode".toList, .str "connect".toList),
        ("direction".toList, .str "to".toList), ("block".toList, .str "s".toList),
        ("connection".toList, .str "pullFrom".toList)])]),
      ("config".toList, .obj [("chunk".toList, .str "a<b".toList)])]),
    ("sink".toList, .obj [("name".toList, .str "s".toList)]),
    ("reap".toList, .obj [("name".toList, .str "r".toList)])])

end DotElements

end Skweltch
