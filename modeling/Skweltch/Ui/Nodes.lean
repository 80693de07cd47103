import Skweltch.Config.JsonPath

/-!
# Skweltch — the nodes handler

`nodesHandler` (`ui/rest/nodesHandler.cpp`) answers a request for the nodes of the machine that is
loaded. Where the layout puts the vertexes is given by `layout`, which may also fail.
-/

namespace Skweltch

open Json JsonObject

/-- How the handler ends that does not answer. -/
inductive NodesFault where
  | json (f : JsonFault)
  /-- `throw new runtime_error` -/
  | pointer (what : Str)
deriving DecidableEq, Repr

/-- `reply::status_type`, with the content where there is one. -/
inductive NodesReply where
  | noContent
  | badRequest
  | ok (content : Json)
deriving Repr

namespace Nodes

def read {α : Type} : Except JsonFault α → Except NodesFault α
  | .ok a => .ok a
  | .error f => .error (.json f)

structure View where
  size : Int
  centerx : Int
  centery : Int
deriving DecidableEq, Repr

/-- `lexical_cast<int>(nvp[1])`. -/
def value (nvp : List Str) : Except NodesFault Int :=
  match nvp[1]? with
  | some s => read (JsonPath.toInt s)
  | none => .error (.json .undefined)

/-- One `name=value` of the arguments. -/
def argument (v : View) (arg : Str) : Except NodesFault View := do
  let nvp := arg.splitOn '='
  if nvp.head? = some "size".toList then do
    let n ← value nvp
    .ok { v with size := n }
  else if nvp.head? = some "centerx".toList then do
    let n ← value nvp
    .ok { v with centerx := n }
  else if nvp.head? = some "centery".toList then do
    let n ← value nvp
    .ok { v with centery := n }
  else .ok v

def view (args : Str) : Except NodesFault View :=
  (args.splitOn '&').foldlM argument { size := 300, centerx := 150, centery := 150 }

/-- `ids[name] = id`. -/
def setId (ids : List (Str × Nat)) (name : Str) (id : Nat) : List (Str × Nat) := (name, id) :: ids

/-- `ids.at(name)`. -/
def idAt (ids : List (Str × Nat)) (name : Str) : Except NodesFault Nat :=
  match (ids.find? fun p => name = p.1).map Prod.snd with
  | some id => .ok id
  | none => .error (.json .outOfRange)

/-- `config.connections` of a node, which may be null. -/
def connections (node : Json) : Except NodesFault Object := do
  let conns ← read (JsonPath.getPath node "config.connections".toList)
  if conns.isNull then .ok [] else read conns.getObj

def target (o : Json) : Except NodesFault (Option Str) := do
  let direction ← read (getString o "direction".toList)
  if direction = "to".toList then do
    let block ← read (getString o "block".toList)
    .ok (some block)
  else .ok none

def edge (ids : List (Str × Nat)) (name : Str) (o : Json) :
    Except NodesFault (List (Nat × Nat)) := do
  match ← target o with
  | none => .ok []
  | some block => do
    let src ← idAt ids name
    let dst ← idAt ids block
    if src = dst then .error (.pointer ("from same as to for ".toList ++ name))
    else .ok [(src, dst)]

def addEdges (ids : List (Str × Nat)) (node : Json) : Except NodesFault (List (Nat × Nat)) := do
  let name ← read (getString node "name".toList)
  let conns ← connections node
  let edges ← conns.mapM fun p => edge ids name p.2
  .ok edges.flatten

/-- `addRect`, at a centre of the layout. -/
def addRect (info : Json) (center : Int × Int) : Json :=
  add info "rect".toList (add (add (add (add .null "left".toList (.int center.1))
    "top".toList (.int center.2)) "width".toList (.int 100)) "height".toList (.int 100))

def connectionEntry (name : Str) (o : Json) : Except NodesFault (List Json) := do
  match ← target o with
  | none => .ok []
  | some block =>
    .ok [add (add .null "from".toList (.str name)) "to".toList (.str block)]

/-- `addNode`: the node's member and its connections. -/
def addNode (ids : List (Str × Nat)) (centers : List (Int × Int)) (type : Str) (node : Json) :
    Except NodesFault ((Str × Json) × List Json) := do
  let name ← read (getString node "name".toList)
  let id ← idAt ids name
  let center ← match centers[id]? with
    | some c => (.ok c : Except NodesFault (Int × Int))
    | none => .error (.json .undefined)
  let count ← read (getInt node "count".toList 0)
  let typed := add .null "type".toList (.str type)
  let counted := if count > 0 then add typed "count".toList (.int count) else typed
  let conns ← connections node
  let entries ← conns.mapM fun p => connectionEntry name p.2
  .ok ((name, addRect counted center), entries.flatten)

/-- The ids of the vent, the background nodes and the reaper, in that order. -/
def makeIds (vent reap : Json) (bg : List Json) : Except NodesFault (List (Str × Nat)) := do
  let names ← (vent :: bg ++ [reap]).mapM fun node => read (getString node "name".toList)
  .ok (names.zipIdx.foldl (fun ids p => setId ids p.1 p.2) [])

/-- `nodesHandler`, for a context that has loaded `root` or nothing. -/
def handler (layout : Nat → List (Nat × Nat) → View → Option (List (Int × Int)))
    (root : Option Json) (args : Str) : Except NodesFault NodesReply :=
  match root with
  | none => .ok .noContent
  | some root => do
    let v ← view args
    let bg ← read (getArray root "background".toList)
    let vent ← read (getChild root "vent".toList)
    let reap ← read (getChild root "reap".toList)
    let ids ← makeIds vent reap bg
    let edges ← (vent :: bg ++ [reap]).mapM (addEdges ids)
    match layout (bg.length + 2) edges.flatten v with
    | none => .ok .badRequest
    | some centers => do
      let ventNode ← addNode ids centers "vent".toList vent
      let bgNodes ← bg.mapM (addNode ids centers "background".toList)
      let reapNode ← addNode ids centers "reap".toList reap
      let nodes := ventNode :: bgNodes ++ [reapNode]
      let conns := nodes.flatMap Prod.snd
      let pt := nodes.foldl (fun pt n => add pt n.1.1 n.1.2) .null
      .ok (.ok (if conns = [] then pt else add pt "connections".toList (.arr conns)))

end Nodes

end Skweltch
