import Skweltch.Machine.MachineRunner

/-!
# Skweltch — the graph of a machine

`MachineGraph::makeDOT` (`graph/MachineGraph.cpp`) writes a machine as a graph in DOT. A statement
carries the names, rows and labels that are written; the HTML around them is left out, and so is
what had been written when an exception escapes.
-/

namespace Skweltch

open Json JsonObject NumText

/-- A statement of the graph. -/
inductive DotStmt where
  | node (name : Str) (info config : List (Str × Str))
  | edge (src dst headlabel taillabel : Str)
deriving DecidableEq, Repr

namespace MachineGraph

def connectionRow (key : Str) (o : Json) : Except JsonFault (Str × Str) := do
  let mode ← getString o "mode".toList
  if mode = "connect".toList then .ok (key, "connect".toList)
  else do
    let address ← getString o "address".toList
    let port ← getInt o "port".toList (-1)
    .ok (key, "bind:".toList ++ address ++ ":".toList ++ decText port)

def childMembers (node : Json) (key : Str) : Except JsonFault Object := do
  let child ← getChild node key
  if child.isNull then .ok [] else child.getObj

def nodeRow (node : Json) : Except JsonFault (List (Str × Str)) :=
  match getString node "node".toList with
  | .ok s => .ok (if s = [] then [] else [("node".toList, s)])
  | .error (.runtimeError _) => .ok []
  | .error f => .error f

/-- The rows of `writeNodeInfo`. -/
def nodeInfo (node : Json) : Except JsonFault (List (Str × Str)) := do
  let count ← getInt node "count".toList (-1)
  let counts := if count > 0 then [("count".toList, decText count)] else []
  let nodes ← nodeRow node
  let conns ← childMembers node "connections".toList
  let rows ← conns.mapM fun p => connectionRow p.1 p.2
  .ok (counts ++ nodes ++ rows)

def nodeConfig (text : ℚ → Str) (node : Json) : Except JsonFault (List (Str × Str)) := do
  let config ← childMembers node "config".toList
  .ok (config.map fun p => (p.1, asString text p.2))

def edge (name key : Str) (o : Json) : Except JsonFault (List DotStmt) := do
  let mode ← getString o "mode".toList
  if mode = "connect".toList then do
    let direction ← getString o "direction".toList
    let block ← getString o "block".toList
    let connection ← getString o "connection".toList
    if direction = "to".toList then .ok [.edge name block connection key]
    else .ok [.edge block name key connection]
  else .ok []

def writeNode (text : ℚ → Str) (node : Json) : Except JsonFault (List DotStmt) := do
  let name ← getString node "name".toList
  let info ← nodeInfo node
  let config ← nodeConfig text node
  let conns ← childMembers node "connections".toList
  let edges ← conns.mapM fun p => edge name p.1 p.2
  .ok (.node name info config :: edges.flatten)

/-- `makeDOT`: the statements and the answer. -/
def makeDOT (text : ℚ → Str) (json : ReadJson) : Except JsonFault (List DotStmt × Bool) :=
  match json with
  | .failed _ => .ok ([], false)
  | .parsed m => do
    let vent ← getChild m "vent".toList
    let ventStmts ← writeNode text vent
    let sink ← getChild m "sink".toList
    let sinkStmts ← writeNode text sink
    let bg ← getArray m "background".toList
    let bgStmts ← bg.mapM (writeNode text)
    let reap ← getChild m "reap".toList
    let reapStmts ← writeNode text reap
    .ok (ventStmts ++ sinkStmts ++ bgStmts.flatten ++ reapStmts, true)

end MachineGraph

end Skweltch
