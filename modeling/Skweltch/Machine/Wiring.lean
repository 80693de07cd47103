import Skweltch.Core.Ports
import Skweltch.Machine.PipeBuilder

/-!
# Skweltch — wiring a machine

A machine's blocks are wired by name: a connection binds a port or connects to a binding
connection of another block. `WellWired` is a configuration whose connections all resolve. The
result is that the pipes `collect` builds for two connected blocks, in two separate calls, name
the same endpoint.
-/

namespace Skweltch

open FixedWidth Json JsonObject

namespace Wiring

/-! ## What a configuration says

The assumptions on a configuration whose blocks agree: each has its own name, a connection that
binds has an address and a port, and one that connects names a block and a connection of it that
binds. -/

/-- The members of what `collect` returns: none for the null it returns without connections. -/
def members : Json → Object
  | .obj o => o
  | _ => []

def Binds (val : Json) (address : Str) (port : Int) : Prop :=
  ∃ o, val = .obj o ∧ get o "mode".toList = .str "bind".toList ∧
    get o "address".toList = .str address ∧ get o "port".toList = .int port

def Connects (val : Json) (block conn : Str) : Prop :=
  ∃ o, val = .obj o ∧ get o "mode".toList = .str "connect".toList ∧
    get o "block".toList = .str block ∧ get o "connection".toList = .str conn

/-- The block has this name, node and connections. -/
def IsBlock (b : Json) (name node : Str) (conns : Object) : Prop :=
  ∃ o, b = .obj o ∧ get o "name".toList = .str name ∧ get o "node".toList = .str node ∧
    get o "connections".toList = .obj conns

/-- A configuration whose only object or array is `blocks`, with uniquely named blocks whose
connections all resolve. -/
structure WellWired (config : Json) (blocks : List Json) : Prop where
  only : ∃ o, config = .obj o ∧
    o.filter (fun p => p.2.isObj || p.2.isArr) = [("blocks".toList, .arr blocks)]
  block : ∀ b ∈ blocks, ∃ name node conns, IsBlock b name node conns
  unique : blocks.Pairwise fun b b' => ∀ name node node' conns conns',
    IsBlock b name node conns → ¬ IsBlock b' name node' conns'
  named : ∀ b ∈ blocks, ∀ name node conns, IsBlock b name node conns →
    ∀ p ∈ conns, JsonPath.Plain p.1 ∧ p.1 ≠ "control".toList
  wired : ∀ b ∈ blocks, ∀ name node conns, IsBlock b name node conns → ∀ p ∈ conns,
    (∃ address port, Binds p.2 address port) ∨
      ∃ block conn, Connects p.2 block conn ∧
        ∃ b' ∈ blocks, ∃ node' conns', IsBlock b' block node' conns' ∧
          ∃ address port, Binds (get conns' conn) address port

def connectPipe (node : Str) (port : Int) : Json :=
  .obj [("node".toList, .str node), ("port".toList, .int port),
    ("mode".toList, .str "connect".toList)]

def bindPipe (address : Str) (port : Int) : Json :=
  .obj [("address".toList, .str address), ("port".toList, .int port),
    ("mode".toList, .str "bind".toList)]

/-! ## Finding a block by its name

The lookup goes through everything below the configuration. Values that are no objects pass, as do
blocks of other names, so that it comes to the one block of the name. -/

/-- Values that do not have the name are passed over. -/
theorem search_append {pred : Json → Except JsonFault Bool} {vs : List Json}
    (h : ∀ v ∈ vs, pred v = .ok false) (ws : List Json) :
    search pred (vs ++ ws) = search pred ws := by
  induction vs with
  | nil => rfl
  | cons v vs ih =>
    obtain ⟨hv, hvs⟩ := List.forall_mem_cons.mp h
    rw [List.cons_append, search, hv, ← ih hvs]
    rfl

theorem search_cons {pred : Json → Except JsonFault Bool} {v : Json} (h : pred v = .ok true)
    (vs : List Json) : search pred (v :: vs) = .ok v := by
  rw [search, h]
  rfl

theorem matches_scalar {v : Json} (h : v.isObj = false) (name : Str) :
    JsonNamePredicate.matches name v = .ok false := by
  rw [JsonNamePredicate.matches, h]
  rfl

theorem matches_block {b : Json} {name node : Str} {conns : Object}
    (h : IsBlock b name node conns) (name' : Str) :
    JsonNamePredicate.matches name' b = .ok (decide (name = name')) := by
  obtain ⟨o, rfl, hname, -, -⟩ := h
  rw [JsonNamePredicate.matches, if_pos (show (Json.obj o).isObj = true from rfl),
    getString_eq hname]
  rfl

variable {config : Json} {blocks : List Json}

/-- The members that `findObj` passes over on its way to the blocks. -/
theorem only_split (h : WellWired config blocks) :
    ∃ pre post, config = .obj (pre ++ ("blocks".toList, .arr blocks) :: post) ∧
      ∀ p ∈ pre, p.2.isObj = false ∧ p.2.isArr = false := by
  obtain ⟨o, rfl, ho⟩ := h.only
  obtain ⟨pre, post, rfl, hpre, -, -⟩ := List.filter_eq_cons_iff.mp ho
  refine ⟨pre, post, rfl, fun p hp => ?_⟩
  have := hpre p hp
  rw [Bool.not_eq_true, Bool.or_eq_false_iff] at this
  exact this

/-- In a well wired configuration every block is found by its name. -/
theorem findObj_eq (h : WellWired config blocks) {b : Json} (hb : b ∈ blocks)
    {name node : Str} {conns : Object} (hblock : IsBlock b name node conns) :
    findObj config (JsonNamePredicate.matches name) = .ok b := by
  obtain ⟨pre, post, rfl, hpre⟩ := only_split h
  obtain ⟨before, after, hsplit⟩ := List.append_of_mem hb
  have hskip : ∀ v ∈ pre.flatMap (fun p => candidates p.2),
      JsonNamePredicate.matches name v = .ok false := by
    intro v hv
    obtain ⟨p, hp, hvp⟩ := List.mem_flatMap.mp hv
    obtain ⟨hobj, harr⟩ := hpre p hp
    have hpv : v = p.2 := by
      cases hp2 : p.2 with
      | arr es =>
        rw [hp2] at harr
        cases harr
      | _ => simpa [hp2, candidates] using hvp
    rw [hpv]
    exact matches_scalar hobj name
  have hbefore : ∀ v ∈ before, JsonNamePredicate.matches name v = .ok false := by
    intro v hv
    obtain ⟨name', node', conns', hv'⟩ := h.block v (by rw [hsplit]; simp [hv])
    have hunique := h.unique
    rw [hsplit, List.pairwise_append] at hunique
    have hne : name' ≠ name := by
      intro heq
      subst heq
      exact hunique.2.2 v hv b (List.mem_cons_self ..) name' node' node conns' conns hv' hblock
    rw [matches_block hv']
    simp [hne]
  rw [findObj_obj, List.flatMap_append, search_append hskip, List.flatMap_cons,
    show candidates (.arr blocks) = before ++ b :: after from hsplit, List.append_assoc,
    search_append hbefore, List.cons_append, search_cons (by rw [matches_block hblock]; simp)]

/-! ## The pipe of one connection

A connection binds or connects. What connects takes the port from the connection of the other block,
so that the two ends are the same. -/

/-- A connection that binds makes a pipe with its own address and port. -/
theorem pipe_bind {val : Json} {address : Str} {port : Int} (h : Binds val address port) :
    PipeBuilder.pipe config val = .ok (.pipes (bindPipe address (int32 port))) := by
  obtain ⟨o, rfl, hmode, haddress, hport⟩ := h
  have hne : ("bind".toList : Str) ≠ "connect".toList := by decide
  simp only [PipeBuilder.pipe, getString_eq hmode, bind, Except.bind, if_neg hne, if_true,
    getString_eq haddress, getInt_eq hport]
  rfl

/-- A connection that connects makes one with the node of the other block and the port that is bound
there. -/
theorem pipe_connect (h : WellWired config blocks) {val : Json} {block conn : Str}
    (hval : Connects val block conn) {b : Json} (hb : b ∈ blocks) {node : Str} {conns : Object}
    (hblock : IsBlock b block node conns) {address : Str} {port : Int}
    (hbinds : Binds (get conns conn) address port) :
    PipeBuilder.pipe config val = .ok (.pipes (connectPipe node (int32 port))) := by
  have hfind := findObj_eq h hb hblock
  have hplain : JsonPath.Plain conn := by
    obtain ⟨o, hget, -⟩ := hbinds
    exact (h.named b hb block node conns hblock _
      (get_mem (by rw [hget]; exact Json.noConfusion))).1
  obtain ⟨o, rfl, hmode, hblk, hconn⟩ := hval
  obtain ⟨ob, rfl, -, hnode, hconns⟩ := hblock
  obtain ⟨oc, hget, -, -, hport⟩ := hbinds
  have hpath := JsonPath.getPath_member JsonPath.plain_connections (by decide) hplain hconns hget
  rw [show "connections".toList ++ '.' :: conn = "connections.".toList ++ conn from rfl] at hpath
  simp only [PipeBuilder.pipe, getString_eq hmode, bind, Except.bind, if_true,
    getString_eq hblk, hfind, isObj, getString_eq hconn, hpath, getString_eq hnode,
    getInt_eq hport]
  rfl

/-! ## The pipes of a block

`collect` makes one pipe for each connection, under its name, and adds the control port behind them
if there is one. -/

def pipeOf (config : Json) (p : Str × Json) : Json :=
  match PipeBuilder.pipe config p.2 with
  | .ok (.pipes v) => v
  | _ => .null

theorem members_add (v : Json) (name : Str) (x : Json) :
    members (add v name x) = members v ++ [(name, x)] := by
  cases v <;> rfl

/-- The pipes of a block are those of its connections, in their order. -/
theorem pipesFrom_eq {conns : Object}
    (h : ∀ p ∈ conns, PipeBuilder.pipe config p.2 = .ok (.pipes (pipeOf config p))) (acc : Json) :
    ∃ v, PipeBuilder.pipesFrom config acc conns = .ok (.pipes v) ∧
      members v = members acc ++ conns.map fun p => (p.1, pipeOf config p) := by
  induction conns generalizing acc with
  | nil => exact ⟨acc, rfl, by simp⟩
  | cons p conns ih =>
    obtain ⟨hp, hrest⟩ := List.forall_mem_cons.mp h
    obtain ⟨v, hv, hmembers⟩ := ih hrest (add acc p.1 (pipeOf config p))
    refine ⟨v, ?_, ?_⟩
    · rw [PipeBuilder.pipesFrom, hp]
      exact hv
    · rw [hmembers, members_add, List.append_assoc, List.map_cons]
      rfl

def controlEntry (control : Int) : Object :=
  if control > 0 then
    [("control".toList, .obj [("mode".toList, .str "connect".toList),
      ("node".toList, .str "localhost".toList), ("port".toList, .int control)])]
  else []

theorem members_withControl (v : Json) (control : Int) :
    members (PipeBuilder.withControl v control) = members v ++ controlEntry control := by
  unfold PipeBuilder.withControl controlEntry
  split
  · rw [members_add]
    rfl
  · rw [List.append_nil]

theorem Connects.unique {val : Json} {block conn block' conn' : Str} (h : Connects val block conn)
    (h' : Connects val block' conn') : block = block' ∧ conn = conn' := by
  obtain ⟨o, rfl, -, hblk, hconn⟩ := h
  obtain ⟨o', ho, -, hblk', hconn'⟩ := h'
  cases ho
  rw [hblk] at hblk'
  rw [hconn] at hconn'
  exact ⟨Json.str.inj hblk', Json.str.inj hconn'⟩

theorem Connects.not_binds {val : Json} {block conn address : Str} {port : Int}
    (h : Connects val block conn) : ¬ Binds val address port := by
  obtain ⟨o, rfl, hmode, -⟩ := h
  intro hbinds
  obtain ⟨o', ho, hmode', -⟩ := hbinds
  cases ho
  rw [hmode] at hmode'
  exact absurd (Json.str.inj hmode') (by decide)

/-- A block has one name, one node and one set of connections. -/
theorem IsBlock.unique {b : Json} {name node name' node' : Str} {conns conns' : Object}
    (h : IsBlock b name node conns) (h' : IsBlock b name' node' conns') :
    name = name' ∧ node = node' ∧ conns = conns' := by
  obtain ⟨o, rfl, hname, hnode, hconns⟩ := h
  obtain ⟨o', ho, hname', hnode', hconns'⟩ := h'
  cases ho
  rw [hname] at hname'
  rw [hnode] at hnode'
  rw [hconns] at hconns'
  exact ⟨Json.str.inj hname', Json.str.inj hnode', Json.obj.inj hconns'⟩

theorem block_unique (h : WellWired config blocks) {b b' : Json} (hb : b ∈ blocks)
    (hb' : b' ∈ blocks) {name node node' : Str} {conns conns' : Object}
    (hblock : IsBlock b name node conns) (hblock' : IsBlock b' name node' conns') : b = b' := by
  by_contra hne
  have : Std.Symm fun b b' => ∀ name node node' conns conns',
      IsBlock b name node conns → ¬ IsBlock b' name node' conns' :=
    ⟨fun _ _ hr name node node' conns conns' h₁ h₂ => hr name node' node conns' conns h₂ h₁⟩
  exact h.unique.forall hb hb' hne name node node' conns conns' hblock hblock'

/-- What a connection names is bound by the block that has the name. -/
theorem connects_to (h : WellWired config blocks) {A : Json} (hA : A ∈ blocks) {name node : Str}
    {conns : Object} (hblock : IsBlock A name node conns) {p : Str × Json} (hp : p ∈ conns)
    {block conn : Str} (hval : Connects p.2 block conn) {B : Json} (hB : B ∈ blocks)
    {nodeB : Str} {connsB : Object} (hblockB : IsBlock B block nodeB connsB) :
    ∃ address port, Binds (get connsB conn) address port := by
  rcases h.wired A hA name node conns hblock p hp with
    ⟨address, port, hbinds⟩ | ⟨block', conn', hval', b', hb', node', conns', hblock', hbinds⟩
  · exact absurd hbinds hval.not_binds
  · obtain ⟨rfl, rfl⟩ := hval.unique hval'
    obtain rfl := block_unique h hB hb' hblockB hblock'
    obtain ⟨-, -, rfl⟩ := hblockB.unique hblock'
    exact hbinds

/-- Every connection of a well wired configuration makes its pipe. -/
theorem pipe_eq (h : WellWired config blocks) {A : Json} (hA : A ∈ blocks) {name node : Str}
    {conns : Object} (hblock : IsBlock A name node conns) {p : Str × Json} (hp : p ∈ conns) :
    PipeBuilder.pipe config p.2 = .ok (.pipes (pipeOf config p)) := by
  rcases h.wired A hA name node conns hblock p hp with
    ⟨address, port, hbinds⟩ | ⟨block, conn, hval, b, hb, node', conns', hblock', a, port, hbinds⟩
  · have := @pipe_bind config _ _ _ hbinds
    rw [pipeOf, this]
  · have := pipe_connect h hval hb hblock' hbinds
    rw [pipeOf, this]

/-- In a well wired configuration `collect` returns the pipes of all connections of a block. -/
theorem collect_eq (h : WellWired config blocks) (control : Int) {A : Json} (hA : A ∈ blocks)
    {name node : Str} {conns : Object} (hblock : IsBlock A name node conns) :
    ∃ v, PipeBuilder.collect config A control = .ok v ∧
      members v = (conns.map fun p => (p.1, pipeOf config p)) ++ controlEntry control := by
  obtain ⟨v, hv, hmembers⟩ :=
    pipesFrom_eq (fun p hp => pipe_eq h hA hblock hp) .null
  obtain ⟨o, rfl, -, -, hconns⟩ := hblock
  have hpath := JsonPath.getPath_name JsonPath.plain_connections (by decide) hconns (by simp)
  refine ⟨PipeBuilder.withControl v control, ?_, ?_⟩
  · simp only [PipeBuilder.collect, PipeBuilder.collected, hpath, getObj_obj, hv, bind,
      Except.bind]
  · rw [members_withControl, hmembers]
    rfl

/-- A pipe is found under the name of its connection. -/
theorem get_pipes (config : Json) {conns : Object} {name : Str} (h : get conns name ≠ .null)
    (rest : Object) :
    get ((conns.map fun p => (p.1, pipeOf config p)) ++ rest) name =
      pipeOf config (name, get conns name) := by
  have hmem : name ∈ conns.map Prod.fst := List.mem_map.mpr ⟨_, get_mem h, rfl⟩
  have hkeys : name ∈ (conns.map fun p => (p.1, pipeOf config p)).map Prod.fst := by
    rw [List.map_map]
    exact hmem
  obtain ⟨v, -, hget, hmap⟩ := get_map (pipeOf config) hmem
  rw [get_append_of_mem hkeys, hmap, hget]

/-! ## Joining

A part that joins a pipe binds or connects its socket to the endpoint that the pipe says. -/

theorem connectPipe_port {port : Int} (hport : IsInt port) (node : Str) :
    JsonObject.getInt (connectPipe node port) "port".toList (-1) = .ok port := by
  rw [connectPipe, getInt_eq rfl, int32_of_isInt hport]

theorem bindPipe_port {port : Int} (hport : IsInt port) (address : Str) :
    JsonObject.getInt (bindPipe address port) "port".toList (-1) = .ok port := by
  rw [bindPipe, getInt_eq rfl, int32_of_isInt hport]

/-- Joining a pipe that connects connects the socket to its endpoint. -/
theorem join_connect (works : SocketAct → Bool) {pipes : Json} {name node : Str} {port : Int}
    (h : get (members pipes) name = connectPipe node port) (hport : IsInt port) :
    Ports.join works pipes name =
      .ok (Ports.attach works (.connect (Ports.endpoint node port))) := by
  cases pipes with
  | obj o =>
    have hget : get o name = connectPipe node port := h
    have hobj : (connectPipe node port).isObj = true := rfl
    have hmode : getString (connectPipe node port) "mode".toList = .ok "connect".toList := rfl
    have hnode : getString (connectPipe node port) "node".toList = .ok node := rfl
    have hne : ¬ ("connect".toList = "bind".toList) := by decide
    simp only [Ports.join, getChild_obj, hget, bind, Except.bind, hobj, if_true,
      connectPipe_port hport, hmode, if_neg hne, hnode]
  | _ => exact absurd h (by simp [members, connectPipe])

/-- Joining one that binds binds it. -/
theorem join_bind (works : SocketAct → Bool) {pipes : Json} {name address : Str} {port : Int}
    (h : get (members pipes) name = bindPipe address port) (hport : IsInt port) :
    Ports.join works pipes name =
      .ok (Ports.attach works (.bind (Ports.endpoint address port))) := by
  cases pipes with
  | obj o =>
    have hget : get o name = bindPipe address port := h
    have hobj : (bindPipe address port).isObj = true := rfl
    have hmode : getString (bindPipe address port) "mode".toList = .ok "bind".toList := rfl
    have haddress : getString (bindPipe address port) "address".toList = .ok address := rfl
    simp only [Ports.join, getChild_obj, hget, bind, Except.bind, hobj, if_true,
      bindPipe_port hport, hmode, haddress]
  | _ => exact absurd h (by simp [members, bindPipe])

/-- **Both ends of every pipe agree.** `collect` builds one pipe for each connection, and the
control pipe; the pipe of a connection that connects and the pipe of the connection at its other
end, built in a call for another block, have one port, and joining them asks for one endpoint. -/
theorem collect_agrees (h : WellWired config blocks) (control : Int) {A : Json} (hA : A ∈ blocks)
    {name node : Str} {conns : Object} (hblock : IsBlock A name node conns) :
    ∃ pipes, PipeBuilder.collect config A control = .ok pipes ∧
      (members pipes).map Prod.fst =
        conns.map Prod.fst ++ (if control > 0 then ["control".toList] else []) ∧
      ∀ (i : Nat) (hi : i < conns.length) (block conn : Str), Connects conns[i].2 block conn →
        ∀ B ∈ blocks, ∀ nodeB connsB, IsBlock B block nodeB connsB →
          ∃ pipesB address port, PipeBuilder.collect config B control = .ok pipesB ∧
            (members pipes)[i]? = some (conns[i].1, connectPipe nodeB port) ∧
            get (members pipesB) conn = bindPipe address port ∧
            ∀ works, (get conns conns[i].1 = conns[i].2 →
              Ports.join works pipes conns[i].1 =
                .ok (Ports.attach works (.connect (Ports.endpoint nodeB port)))) ∧
              Ports.join works pipesB conn =
                .ok (Ports.attach works (.bind (Ports.endpoint address port))) := by
  obtain ⟨pipes, hpipes, hmembers⟩ := collect_eq h control hA hblock
  refine ⟨pipes, hpipes, ?_, ?_⟩
  · rw [hmembers, List.map_append, List.map_map]
    unfold controlEntry
    split
    · rfl
    · rfl
  · intro i hi block conn hval B hB nodeB connsB hblockB
    obtain ⟨pipesB, hpipesB, hmembersB⟩ := collect_eq h control hB hblockB
    obtain ⟨address, port, hbinds⟩ :=
      connects_to h hA hblock (List.getElem_mem hi) hval hB hblockB
    have hpipe := pipe_connect h hval hB hblockB hbinds
    have hbind := @pipe_bind config _ _ _ hbinds
    have hgetB : get (members pipesB) conn = bindPipe address (int32 port) := by
      rw [hmembersB, get_pipes config (by obtain ⟨o, ho, -⟩ := hbinds; rw [ho]; simp), pipeOf,
        hbind]
    -- both ends carry the port that is wrapped in the same way
    have hport := isInt_int32 port
    refine ⟨pipesB, address, int32 port, hpipesB, ?_, hgetB, fun works => ⟨fun hfirst => ?_, ?_⟩⟩
    · rw [hmembers, List.getElem?_append_left (by simpa using hi), List.getElem?_map,
        List.getElem?_eq_getElem hi, Option.map_some, pipeOf, hpipe]
    · apply join_connect works _ hport
      rw [hmembers, get_pipes config (by
        obtain ⟨o, ho, -⟩ := hval
        rw [hfirst, ho]
        simp), pipeOf, hfirst, hpipe]
    · exact join_bind works hgetB hport

def sampleVent : Json :=
  .obj [("name".toList, .str "vent".toList), ("node".toList, .str "localhost".toList),
    ("connections".toList, .obj [("pushTo".toList, .obj [("mode".toList, .str "connect".toList),
      ("block".toList, .str "sink".toList), ("connection".toList, .str "pullFrom".toList)])])]

def sampleSink : Json :=
  .obj [("name".toList, .str "sink".toList), ("node".toList, .str "localhost".toList),
    ("connections".toList, .obj [("pullFrom".toList, .obj [("mode".toList, .str "bind".toList),
      ("address".toList, .str "*".toList), ("port".toList, .int 5557)])])]

def sampleConfig : Json :=
  .obj [("vent".toList, .str "vent".toList), ("blocks".toList, .arr [sampleVent, sampleSink])]

theorem sampleVent_isBlock : IsBlock sampleVent "vent".toList "localhost".toList
    [("pushTo".toList, .obj [("mode".toList, .str "connect".toList),
      ("block".toList, .str "sink".toList), ("connection".toList, .str "pullFrom".toList)])] :=
  ⟨_, rfl, rfl, rfl, rfl⟩

theorem sampleSink_isBlock : IsBlock sampleSink "sink".toList "localhost".toList
    [("pullFrom".toList, .obj [("mode".toList, .str "bind".toList),
      ("address".toList, .str "*".toList), ("port".toList, .int 5557)])] :=
  ⟨_, rfl, rfl, rfl, rfl⟩

/-- The two are wired as the results ask for. -/
theorem sampleConfig_wellWired : WellWired sampleConfig [sampleVent, sampleSink] where
  only := ⟨_, rfl, rfl⟩
  block b hb := by
    rcases List.mem_pair.mp hb with rfl | rfl
    · exact ⟨_, _, _, sampleVent_isBlock⟩
    · exact ⟨_, _, _, sampleSink_isBlock⟩
  unique := by
    apply List.pairwise_pair.mpr
    intro name node node' conns conns' h h'
    have hvent := (h.unique sampleVent_isBlock).1
    have hsink := (h'.unique sampleSink_isBlock).1
    exact absurd (hvent.symm.trans hsink) (by decide)
  named b hb name node conns h p hp := by
    rcases List.mem_pair.mp hb with rfl | rfl
    · obtain ⟨-, -, rfl⟩ := h.unique sampleVent_isBlock
      obtain rfl := List.mem_singleton.mp hp
      exact ⟨JsonPath.plain_of_all (by decide), by decide⟩
    · obtain ⟨-, -, rfl⟩ := h.unique sampleSink_isBlock
      obtain rfl := List.mem_singleton.mp hp
      exact ⟨JsonPath.plain_of_all (by decide), by decide⟩
  wired b hb name node conns h p hp := by
    rcases List.mem_pair.mp hb with rfl | rfl
    · obtain ⟨-, -, rfl⟩ := h.unique sampleVent_isBlock
      obtain rfl := List.mem_singleton.mp hp
      exact Or.inr ⟨_, _, ⟨_, rfl, rfl, rfl, rfl⟩, sampleSink, by simp, _, _, sampleSink_isBlock,
        _, _, ⟨_, rfl, rfl, rfl, rfl⟩⟩
    · obtain ⟨-, -, rfl⟩ := h.unique sampleSink_isBlock
      obtain rfl := List.mem_singleton.mp hp
      exact Or.inl ⟨_, _, _, rfl, rfl, rfl, rfl⟩

/-- The vent of the sample connects to the endpoint that its sink binds. -/
theorem collect_agrees_sample :
    ∃ pipes, PipeBuilder.collect sampleConfig sampleVent 5558 = .ok pipes ∧
      (members pipes).map Prod.fst = ["pushTo".toList, "control".toList] ∧
      ∃ pipesB address port, PipeBuilder.collect sampleConfig sampleSink 5558 = .ok pipesB ∧
        (members pipes)[0]? = some ("pushTo".toList, connectPipe "localhost".toList port) ∧
        get (members pipesB) "pullFrom".toList = bindPipe address port := by
  obtain ⟨pipes, hpipes, hkeys, hends⟩ :=
    collect_agrees sampleConfig_wellWired 5558 (List.mem_cons_self ..) sampleVent_isBlock
  obtain ⟨pipesB, address, port, hB, hi, hget, -⟩ :=
    hends 0 (by decide) "sink".toList "pullFrom".toList ⟨_, rfl, rfl, rfl, rfl⟩ sampleSink (by simp)
      _ _ sampleSink_isBlock
  exact ⟨pipes, hpipes, hkeys, pipesB, address, port, hB, hi, hget⟩

end Wiring

end Skweltch
