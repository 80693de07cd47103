import Skweltch.Graph.MachineGraph
import Skweltch.Lib.Pieces
import Skweltch.Lib.Throwing

/-!
# Skweltch — the text of a graph

What `MachineGraph::makeDOT` (`graph/MachineGraph.cpp`) writes, piece by piece: its own literals,
and the names, keys and values of the document, which are written as they are. The text is that of
the statements, one behind the other (`makeDOT_eq`).
-/

namespace Skweltch

open Json JsonObject NumText Pieces Throwing

/-- Where a string of the document is written. -/
inductive DotPlace where
  /-- the name of a node, and the ends of an edge -/
  | nodeId
  /-- between the tags of a label -/
  | label
  /-- a label between quotes -/
  | quoted
deriving DecidableEq, Repr

abbrev DotPiece := Piece DotPlace Char

namespace DotText

def lit (s : String) : DotPiece := .lit s.toList

def headerLines : List String :=
  ["digraph G \x7b\n", "\tsplines=spline;\n", "\tnodesep=2;\n", "\tnode [fontcolor=white,\n",
    "\t\tfillcolor=black,\n", "\t\tfontname=Geneva,\n", "\t\tlabel=\"\\N\",style=filled\n",
    "\t];\n", "\tedge [color=blue,\n", "\t\tfontcolor=black,\n", "\t\tfontname=Geneva,\n",
    "\t\tfontsize=10,\n", "\t\tfontcolor=lightblue,\n", "\t\tstyle=bold\n", "\t];\n"]

def header : List DotPiece := headerLines.map lit

def writeTableHeader : List DotPiece :=
  [lit "<TABLE BORDER=\"0\" CELLBORDER=\"0\" CELLSPACING=\"0\">\n"]

def writeNodeInfoRow (name value : Str) : List DotPiece :=
  [lit "\t\t\t\t<TR>\n\t\t\t\t\t<TD ALIGN=\"left\"><FONT POINT-SIZE=\"10\">", .splice .label name,
    lit "</FONT></TD>\n\t\t\t\t\t<TD ALIGN=\"left\"><FONT POINT-SIZE=\"10\">",
    .splice .label value, lit "</FONT></TD>\n\t\t\t\t</TR>\n"]

def writeNodeConfigRow (name value : Str) : List DotPiece :=
  [lit "\t\t\t\t<TR>\n\t\t\t\t\t<TD ALIGN=\"left\"><FONT COLOR=\"lightgray\" POINT-SIZE=\"10\">",
    .splice .label name,
    lit "</FONT></TD>\n\t\t\t\t\t<TD ALIGN=\"left\"><FONT COLOR=\"lightgray\" POINT-SIZE=\"10\">",
    .splice .label value, lit "</FONT></TD>\n\t\t\t\t</TR>\n"]

/-- The table is begun if it was not, which `any` says. -/
def beginTable (any : Bool) : List DotPiece := if any then [] else lit "\t\t\t" :: writeTableHeader

def endTable (any : Bool) : List DotPiece := if any then [lit "\t\t\t</TABLE>\n"] else []

def beginCell : List DotPiece := [lit "\t<TR>\n\t\t<TD>\n"]

def endCell : List DotPiece := [lit "\t\t</TD>\n\t</TR>\n"]

/-- The string under `node`, which can be missing. -/
def nodeString (node : Json) : Except JsonFault Str :=
  match getString node "node".toList with
  | .ok s => .ok s
  | .error (.runtimeError _) => .ok []
  | .error f => .error f

def writeNodeInfo (node : Json) : Except JsonFault (List DotPiece) := do
  let count ← getInt node "count".toList (-1)
  -- the count can be missing
  let w := if count > 0 then
      (beginTable false ++ writeNodeInfoRow "count".toList (decText count), true)
    else ([], false)
  let s ← nodeString node
  let w := if s ≠ [] then (w.1 ++ beginTable w.2 ++ writeNodeInfoRow "node".toList s, true) else w
  let confconn ← MachineGraph.childMembers node "connections".toList
  let w ← confconn.foldlM (fun (w : List DotPiece × Bool) i => do
    let row ← MachineGraph.connectionRow i.1 i.2
    .ok (w.1 ++ beginTable w.2 ++ writeNodeInfoRow row.1 row.2, true)) w
  -- the table is ended once, whichever section began it
  .ok (beginCell ++ w.1 ++ endTable w.2 ++ endCell)

def writeNodeConfig (text : ℚ → Str) (node : Json) : Except JsonFault (List DotPiece) := do
  let config ← MachineGraph.childMembers node "config".toList
  let w := config.foldl (fun (w : List DotPiece × Bool) i =>
    (w.1 ++ beginTable w.2 ++ writeNodeConfigRow i.1 (asString text i.2), true)) ([], false)
  .ok (beginCell ++ w.1 ++ endTable w.2 ++ endCell)

def writeEdge (src dst srclabel dstlabel : Str) (samehead : Bool) : List DotPiece :=
  [lit "\t", .splice .nodeId src, lit " -> ", .splice .nodeId dst, lit "[headlabel=\"",
    .splice .quoted srclabel, lit "\",taillabel=\"", .splice .quoted dstlabel, lit "\""] ++
    (if samehead then [lit ",samehead=true"] else []) ++ [lit "];\n"]

def connectionEdge (name key : Str) (o : Json) : Except JsonFault (List DotPiece) := do
  let mode ← getString o "mode".toList
  if mode = "connect".toList then do
    let direction ← getString o "direction".toList
    let block ← getString o "block".toList
    let connection ← getString o "connection".toList
    if direction = "to".toList then .ok (writeEdge name block connection key false)
    else .ok (writeEdge block name key connection false)
  else .ok []

def writeNode (text : ℚ → Str) (node : Json) : Except JsonFault (List DotPiece) := do
  let name ← getString node "name".toList
  let info ← writeNodeInfo node
  let config ← writeNodeConfig text node
  let confconn ← MachineGraph.childMembers node "connections".toList
  let edges ← confconn.mapM fun i => connectionEdge name i.1 i.2
  .ok ([lit "\t", .splice .nodeId name, lit " [shape=box,label=<\n"] ++ writeTableHeader ++
    [lit "\t<TR>\n\t\t<TD><FONT POINT-SIZE=\"18\" COLOR=\"green\">", .splice .label name,
      lit "</FONT></TD>\n\t</TR>\n"] ++ info ++ config ++ [lit "</TABLE>>];\n"] ++ edges.flatten)

/-- `makeDOT`: what is written, and the answer. -/
def makeDOT (text : ℚ → Str) (json : ReadJson) : Except JsonFault (List DotPiece × Bool) :=
  match json with
  | .failed _ => .ok (header, false)
  | .parsed m => do
    let vent ← getChild m "vent".toList
    let ventText ← writeNode text vent
    let sink ← getChild m "sink".toList
    let sinkText ← writeNode text sink
    let bg ← getArray m "background".toList
    let bgTexts ← bg.mapM (writeNode text)
    let reap ← getChild m "reap".toList
    let reapText ← writeNode text reap
    .ok (header ++ ventText ++ sinkText ++ bgTexts.flatten ++ reapText ++ [lit "\x7d"], true)

/-! ## The text of a statement

The text is the same as that of the statements, one after another: what is in a table is gathered
while it is written, with the table begun at its first row. -/

/-- Rows in a table of their own, if there are any. -/
def table (writeRow : Str → Str → List DotPiece) (rows : List (Str × Str)) : List DotPiece :=
  if rows = [] then []
  else beginTable false ++ rows.flatMap (fun r => writeRow r.1 r.2) ++ endTable true

def stmtText : DotStmt → List DotPiece
  | .node name info config =>
    [lit "\t", .splice .nodeId name, lit " [shape=box,label=<\n"] ++ writeTableHeader ++
      [lit "\t<TR>\n\t\t<TD><FONT POINT-SIZE=\"18\" COLOR=\"green\">", .splice .label name,
        lit "</FONT></TD>\n\t</TR>\n"] ++
      (beginCell ++ table writeNodeInfoRow info ++ endCell) ++
      (beginCell ++ table writeNodeConfigRow config ++ endCell) ++ [lit "</TABLE>>];\n"]
  | .edge src dst headlabel taillabel => writeEdge src dst headlabel taillabel false

example : Pieces.text (stmtText (.edge "VentRandomNum".toList "SinkElapsed".toList
      "pullFrom".toList "syncTo".toList)) =
    "\tVentRandomNum -> SinkElapsed[headlabel=\"pullFrom\",taillabel=\"syncTo\"];\n".toList := by
  decide +kernel

/-- What is written and `any`, behind so many rows. -/
def begun (writeRow : Str → Str → List DotPiece) (rows : List (Str × Str)) :
    List DotPiece × Bool :=
  if rows = [] then ([], false)
  else (beginTable false ++ rows.flatMap (fun r => writeRow r.1 r.2), true)

variable {writeRow : Str → Str → List DotPiece}

/-- One more row, behind the beginning of the table if it is the first. -/
theorem begun_snoc (rows : List (Str × Str)) (r : Str × Str) :
    ((begun writeRow rows).1 ++ beginTable (begun writeRow rows).2 ++ writeRow r.1 r.2, true) =
      begun writeRow (rows ++ [r]) := by
  have hne : rows ++ [r] ≠ [] := by simp
  rw [begun, begun, if_neg hne]
  by_cases h : rows = []
  -- the first row begins the table
  · subst h
    simp [beginTable]
  · rw [if_neg h]
    simp [beginTable]

theorem table_eq (rows : List (Str × Str)) :
    (begun writeRow rows).1 ++ endTable (begun writeRow rows).2 = table writeRow rows := by
  rw [begun, table]
  split <;> rfl

/-- The rows of some members, by induction on them. -/
theorem foldl_begun (f : Str × Json → Str × Str) (ps : Object) (rows : List (Str × Str)) :
    ps.foldl (fun (w : List DotPiece × Bool) i =>
        (w.1 ++ beginTable w.2 ++ writeRow (f i).1 (f i).2, true)) (begun writeRow rows) =
      begun writeRow (rows ++ ps.map f) := by
  induction ps generalizing rows with
  | nil => rw [List.map_nil, List.append_nil, List.foldl_nil]
  | cons p ps ih =>
    rw [List.foldl_cons, begun_snoc, ih, List.append_assoc]
    rfl

/-- The rows of some members where reading a row may throw. -/
theorem foldlM_begun (f : Str × Json → Except JsonFault (Str × Str)) (ps : Object)
    (rows : List (Str × Str)) :
    ps.foldlM (fun (w : List DotPiece × Bool) i => do
        let row ← f i
        .ok (w.1 ++ beginTable w.2 ++ writeRow row.1 row.2, true)) (begun writeRow rows) =
      (ps.mapM f).map fun new => begun writeRow (rows ++ new) := by
  induction ps generalizing rows with
  | nil =>
    rw [List.foldlM_nil, List.mapM_nil]
    show Except.ok (begun writeRow rows) = .ok (begun writeRow (rows ++ []))
    rw [List.append_nil]
  | cons p ps ih =>
    rw [List.foldlM_cons, List.mapM_cons]
    cases f p with
    | error e => rfl
    | ok row =>
      simp only [ok_bind]
      rw [begun_snoc, ih]
      cases ps.mapM f with
      | error e => rfl
      | ok new =>
        simp only [Except.map, bind, Except.bind, pure, Except.pure, List.append_assoc]
        rfl

/-- The row that says the node, if there is one to say. -/
theorem nodeRow_eq (node : Json) :
    MachineGraph.nodeRow node =
      (nodeString node).map fun s => if s = [] then [] else [("node".toList, s)] := by
  rw [MachineGraph.nodeRow, nodeString]
  cases getString node "node".toList with
  | ok s => rfl
  | error f => cases f <;> rfl

theorem begun_count (count : Int) :
    (if count > 0 then (beginTable false ++ writeNodeInfoRow "count".toList (decText count), true)
      else ([], false)) =
      begun writeNodeInfoRow (if count > 0 then [("count".toList, decText count)] else []) := by
  split
  · simp [begun]
  · rfl

theorem begun_node (rows : List (Str × Str)) (s : Str) :
    (if s ≠ [] then ((begun writeNodeInfoRow rows).1 ++ beginTable (begun writeNodeInfoRow rows).2 ++
        writeNodeInfoRow "node".toList s, true) else begun writeNodeInfoRow rows) =
      begun writeNodeInfoRow (rows ++ if s = [] then [] else [("node".toList, s)]) := by
  by_cases h : s = []
  · rw [if_neg (not_not.mpr h), if_pos h, List.append_nil]
  · rw [if_pos h, if_neg h]
    exact begun_snoc rows ("node".toList, s)

/-- **The flag** is up exactly if a row was written, in whichever section. -/
theorem writeNodeInfo_eq (node : Json) :
    writeNodeInfo node = (MachineGraph.nodeInfo node).map fun rows =>
      beginCell ++ table writeNodeInfoRow rows ++ endCell := by
  rw [writeNodeInfo, MachineGraph.nodeInfo, nodeRow_eq]
  cases getInt node "count".toList (-1) with
  | error f => rfl
  | ok count =>
    cases nodeString node with
    | error f => rfl
    | ok s =>
      cases MachineGraph.childMembers node "connections".toList with
      | error f => rfl
      | ok confconn =>
        simp only [ok_bind, Except.map, begun_count, begun_node]
        rw [foldlM_begun fun i => MachineGraph.connectionRow i.1 i.2]
        cases confconn.mapM fun p => MachineGraph.connectionRow p.1 p.2 with
        | error f => rfl
        | ok rows =>
          simp only [ok_bind, Except.map]
          rw [List.append_assoc beginCell, table_eq]

/-- The text of a node's configuration is its rows, put into a table. -/
theorem writeNodeConfig_eq (text : ℚ → Str) (node : Json) :
    writeNodeConfig text node = (MachineGraph.nodeConfig text node).map fun rows =>
      beginCell ++ table writeNodeConfigRow rows ++ endCell := by
  rw [writeNodeConfig, MachineGraph.nodeConfig]
  cases MachineGraph.childMembers node "config".toList with
  | error f => rfl
  | ok config =>
    have hfold : config.foldl (fun (w : List DotPiece × Bool) i =>
        (w.1 ++ beginTable w.2 ++ writeNodeConfigRow i.1 (asString text i.2), true)) ([], false) =
        begun writeNodeConfigRow (config.map fun i => (i.1, asString text i.2)) :=
      foldl_begun (fun i => (i.1, asString text i.2)) config []
    simp only [ok_bind, Except.map, hfold]
    rw [List.append_assoc beginCell, table_eq]

/-- The text of a connection is that of its edge. -/
theorem connectionEdge_eq (name key : Str) (o : Json) :
    connectionEdge name key o = (MachineGraph.edge name key o).map (List.flatMap stmtText) := by
  rw [connectionEdge, MachineGraph.edge]
  cases getString o "mode".toList with
  | error f => rfl
  | ok mode =>
    simp only [ok_bind]
    split
    · cases getString o "direction".toList with
      | error f => rfl
      | ok direction =>
        cases getString o "block".toList with
        | error f => rfl
        | ok block =>
          cases getString o "connection".toList with
          | error f => rfl
          | ok connection =>
            simp only [ok_bind]
            split <;> rfl
    · rfl

theorem flatten_map_flatMap (ss : List (List DotStmt)) :
    (ss.map (List.flatMap stmtText)).flatten = ss.flatten.flatMap stmtText := by
  induction ss with
  | nil => rfl
  | cons s ss ih => rw [List.map_cons, List.flatten_cons, ih, List.flatten_cons, List.flatMap_append]

/-- **A node** and its edges. -/
theorem writeNode_eq (text : ℚ → Str) (node : Json) :
    writeNode text node = (MachineGraph.writeNode text node).map (List.flatMap stmtText) := by
  have hedges : ∀ (name : Str) (confconn : Object),
      (confconn.mapM fun i => connectionEdge name i.1 i.2) =
        (confconn.mapM fun i => MachineGraph.edge name i.1 i.2).map
          (List.map (List.flatMap stmtText)) := fun name confconn =>
    mapM_eq_map_mapM (fun i => connectionEdge_eq name i.1 i.2) confconn
  simp only [writeNode, MachineGraph.writeNode, writeNodeInfo_eq, writeNodeConfig_eq, hedges,
    except_map_bind, except_bind_map, except_map_ok, flatten_map_flatMap, List.flatMap_cons,
    stmtText]

/-- **The text is that of the statements.** -/
theorem makeDOT_eq (text : ℚ → Str) (json : ReadJson) :
    makeDOT text json = (MachineGraph.makeDOT text json).map fun r =>
      (header ++ r.1.flatMap stmtText ++ if r.2 then [lit "\x7d"] else [], r.2) := by
  cases json with
  | failed f => rfl
  | parsed m =>
    have hbg : ∀ bg : List Json, bg.mapM (writeNode text) =
        (bg.mapM (MachineGraph.writeNode text)).map (List.map (List.flatMap stmtText)) :=
      mapM_eq_map_mapM (writeNode_eq text)
    simp only [makeDOT, MachineGraph.makeDOT, writeNode_eq, hbg, except_map_bind, except_bind_map,
      except_map_ok, flatten_map_flatMap, List.flatMap_append, List.append_assoc, if_true]

end DotText

end Skweltch
