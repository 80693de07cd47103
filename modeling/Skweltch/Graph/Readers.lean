import Skweltch.Graph.MachineGraph
import Skweltch.Machine.Wiring
import Skweltch.Ui.Nodes

/-!
# Skweltch — the other readers of a machine

The task monitor reads a machine as an array `blocks`, with the name of its vent under `vent`.
`makeDOT` and `nodesHandler` read it as objects under `vent`, `sink` and `reap`, with an array
`background`. The result is that neither of them gets past the vent of any machine the task
monitor can run.
-/

namespace Skweltch

open Json JsonObject

/-- A block of a machine, as the task monitor reads it. -/
structure Block where
  members : Object
  name : Str
  exe : Str
  connections : Object
  config : Object
  has_name : get members "name".toList = .str name
  has_exe : get members "exe".toList = .str exe
  has_connections : get members "connections".toList = .obj connections
  has_config : get members "config".toList = .obj config
  formed : ∀ p ∈ connections,
    (∃ address port, Wiring.Binds p.2 address port) ∨ ∃ block conn, Wiring.Connects p.2 block conn

/-- A machine in the format of the task monitor. -/
structure MachineFile where
  members : Object
  blocks : List Block
  vent : Block
  vent_mem : vent ∈ blocks
  has_vent : get members "vent".toList = .str vent.name
  has_blocks : get members "blocks".toList = .arr (blocks.map fun b => .obj b.members)

namespace Block

def connects (b : Block) : Object :=
  b.connections.filter fun p =>
    match getString p.2 "mode".toList with
    | .ok mode => mode == "connect".toList
    | .error _ => false

end Block

namespace MachineFile

def json (m : MachineFile) : Json := .obj m.members

def names (m : MachineFile) : List Str := m.blocks.map Block.name

end MachineFile

namespace DotStmt

def nodeName : DotStmt → Option Str
  | .node name _ _ => some name
  | .edge .. => none

def isEdge : DotStmt → Bool
  | .node .. => false
  | .edge .. => true

end DotStmt

namespace Readers

/-- The graph has one node for each block and one edge for each connection that connects. -/
def Drawn (text : ℚ → Str) (m : MachineFile) : Prop :=
  ∃ stmts, MachineGraph.makeDOT text (.parsed m.json) = .ok (stmts, true) ∧
    (stmts.filterMap DotStmt.nodeName).Perm m.names ∧
    stmts.countP DotStmt.isEdge = (m.blocks.flatMap Block.connects).length

/-- The handler lists one node for each block, and the connections behind them if there are
any. -/
def Listed (layout : Nat → List (Nat × Nat) → Nodes.View → Option (List (Int × Int)))
    (args : Str) (m : MachineFile) : Prop :=
  ∃ nodes rest, Nodes.handler layout (some m.json) args = .ok (.ok (.obj (nodes ++ rest))) ∧
    (nodes.map Prod.fst).Perm m.names ∧ ∀ p ∈ rest, p.1 = "connections".toList

/-! ## Where the readers stop

`graph` reads the vent as an object, the UI does too, and in the files of the machines it is a
string. -/

theorem getString_str (s key : Str) :
    getString (.str s) key =
      .error (.runtimeError "get_value< Object > called on string Value") := rfl

theorem getChild_vent (m : MachineFile) :
    getChild m.json "vent".toList = .ok (.str m.vent.name) := by
  rw [MachineFile.json, getChild_obj, m.has_vent]

theorem writeNode_str (text : ℚ → Str) (s : Str) :
    MachineGraph.writeNode text (.str s) =
      .error (.runtimeError "get_value< Object > called on string Value") := rfl

theorem makeDOT_throws (text : ℚ → Str) (m : MachineFile) :
    MachineGraph.makeDOT text (.parsed m.json) =
      .error (.runtimeError "get_value< Object > called on string Value") := by
  simp only [MachineGraph.makeDOT, getChild_vent, writeNode_str, bind, Except.bind]

theorem makeIds_str (s : Str) (reap : Json) (bg : List Json) :
    Nodes.makeIds (.str s) reap bg =
      .error (.json (.runtimeError "get_value< Object > called on string Value")) := by
  simp only [Nodes.makeIds, List.cons_append, List.mapM_cons, getString_str, Nodes.read, bind,
    Except.bind]

/-- Whatever the request, the handler answers nothing. -/
theorem handler_throws
    (layout : Nat → List (Nat × Nat) → Nodes.View → Option (List (Int × Int))) (args : Str)
    (m : MachineFile) : ∃ f, Nodes.handler layout (some m.json) args = .error f := by
  simp only [Nodes.handler, bind, Except.bind]
  rcases Nodes.view args with f | v
  · exact ⟨f, rfl⟩
  · have hbg : ∃ bg, getArray m.json "background".toList = .ok bg := by
      simp only [MachineFile.json, getArray, getObj_obj, bind, Except.bind]
      split
      · exact ⟨_, rfl⟩
      · exact ⟨_, rfl⟩
    have hreap : getChild m.json "reap".toList = .ok (get m.members "reap".toList) := rfl
    obtain ⟨bg, hbg⟩ := hbg
    simp only [hbg, getChild_vent, hreap, Nodes.read, makeIds_str]
    exact ⟨_, rfl⟩

/-- **No machine is read alike.** Of no machine in the format of the task monitor is a graph made,
and for none does the handler list the nodes, whatever the request and however the graph would
be laid out. -/
theorem never_alike (text : ℚ → Str)
    (layout : Nat → List (Nat × Nat) → Nodes.View → Option (List (Int × Int))) (args : Str)
    (m : MachineFile) : ¬ Drawn text m ∧ ¬ Listed layout args m := by
  constructor
  · intro h
    obtain ⟨stmts, hdot, -⟩ := h
    rw [makeDOT_throws] at hdot
    cases hdot
  · intro h
    obtain ⟨nodes, rest, hlist, -⟩ := h
    obtain ⟨f, hf⟩ := handler_throws layout args m
    rw [hf] at hlist
    cases hlist

/-- A vent that binds the port it pushes to. -/
def aloneBlock : Block where
  members := [("name".toList, .str "vent".toList), ("exe".toList, .str "bin/vent".toList),
    ("connections".toList, .obj [("pushTo".toList, .obj [("mode".toList, .str "bind".toList),
      ("address".toList, .str "*".toList), ("port".toList, .int 5557)])]),
    ("config".toList, .obj [])]
  name := "vent".toList
  exe := "bin/vent".toList
  connections := [("pushTo".toList, .obj [("mode".toList, .str "bind".toList),
      ("address".toList, .str "*".toList), ("port".toList, .int 5557)])]
  config := []
  has_name := rfl
  has_exe := rfl
  has_connections := rfl
  has_config := rfl
  formed p hp := by
    obtain rfl := List.mem_singleton.mp hp
    exact Or.inl ⟨_, _, _, rfl, rfl, rfl, rfl⟩

def aloneFile : MachineFile where
  members := [("vent".toList, .str "vent".toList), ("blocks".toList, .arr [.obj aloneBlock.members])]
  blocks := [aloneBlock]
  vent := aloneBlock
  vent_mem := List.mem_cons_self ..
  has_vent := rfl
  has_blocks := rfl

/-- A machine with nothing but its vent. -/
theorem aloneFile_not_alike :
    ¬ (Drawn (fun _ => []) aloneFile ∧ Listed (fun n _ _ => some (List.replicate n (0, 0)))
      [] aloneFile) := by
  intro h
  obtain ⟨⟨stmts, hdot, -⟩, -⟩ := h
  rw [makeDOT_throws] at hdot
  cases hdot

end Readers

end Skweltch
