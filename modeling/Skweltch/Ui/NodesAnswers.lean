import Skweltch.Lib.Throwing
import Skweltch.Ui.Nodes

/-!
# Skweltch — when the nodes handler answers

Where `nodesHandler` (`ui/rest/nodesHandler.cpp`) cannot read an argument or the machine, it throws.
What is thrown is only caught if it comes from the layout. The requests that are answered are those
with readable arguments, as long as the machine has all that the handler asks for
(`handler_answers_iff`).
-/

namespace Skweltch

open Json JsonObject NumText Throwing

namespace JsonPath

/-- Two names, one behind the other, lead to an object in an object or nowhere. -/
theorem getPath_member_inv {v w : Json} {s t : Str} (hs : Plain s) (hne : s ≠ []) (ht : Plain t)
    (h : getPath v (s ++ '.' :: t) = .ok w) :
    ∃ m m' m'', v = .obj m ∧ JsonObject.get m s = .obj m' ∧ JsonObject.get m' t = .obj m'' ∧
      w = .obj m'' := by
  cases v with
  | obj m =>
    rw [getPath, walk_name hs hne, walk, if_pos rfl, nextToken_plain ht] at h
    simp only [member] at h
    -- the first name has to be there, and to be an object
    cases hget : get m s with
    | none =>
      rw [hget] at h
      cases h
    | some c =>
      rw [hget] at h
      cases c with
      | obj m' =>
        simp only [objOf, getObj_obj, bind, Except.bind] at h
        cases hget' : get m' t with
        | none =>
          rw [hget'] at h
          cases h
        | some c' =>
          rw [hget'] at h
          cases c' with
          | obj m'' =>
            simp only [walk, Except.ok.injEq] at h
            refine ⟨m, m', m'', rfl, ?_, ?_, h.symm⟩
            · rw [← getD_get, hget]
              rfl
            · rw [← getD_get, hget']
              rfl
          | _ => cases h
      | _ => cases h
  | _ =>
    obtain ⟨c, s', rfl⟩ := List.exists_cons_of_ne_nil hne
    have hc := hs.head
    rw [getPath, List.cons_append, walk] at h
    simp only [if_neg hc.1, if_neg hc.2] at h
    cases h

end JsonPath

namespace Nodes

/-! ## Arguments

Each argument is a name, a `=` and a number; what is no number throws. -/

def settings : List Str := ["size".toList, "centerx".toList, "centery".toList]

/-- An argument that is to set something has a number behind the first `=`. -/
def GoodArg (arg : Str) : Prop :=
  ∀ name ∈ settings, (arg.splitOn '=').head? = some name →
    ∃ s n, (arg.splitOn '=')[1]? = some s ∧ readInt s = some n

theorem returns_read_iff {α : Type} {x : Except JsonFault α} : Returns (read x) ↔ Returns x := by
  cases x with
  | error f => exact iff_of_false (not_returns_error _) (not_returns_error _)
  | ok a => exact iff_of_true (returns_ok a) (returns_ok a)

theorem read_eq_ok_iff {α : Type} {x : Except JsonFault α} {a : α} :
    read x = .ok a ↔ x = .ok a := by
  cases x with
  | error f => exact iff_of_false (by rintro ⟨⟩) (by rintro ⟨⟩)
  | ok b => simp [read]

/-- A value is read from the text behind the `=`, if that is a number. -/
theorem returns_value_iff {nvp : List Str} :
    Returns (value nvp) ↔ ∃ s n, nvp[1]? = some s ∧ readInt s = some n := by
  rw [value]
  cases nvp[1]? with
  | none => exact iff_of_false (not_returns_error _) (by simp)
  | some s =>
    rw [returns_read_iff, JsonPath.toInt]
    cases hread : readInt s with
    | none => exact iff_of_false (not_returns_error _) (by simp [hread])
    | some n => exact iff_of_true (returns_ok n) ⟨s, n, rfl, hread⟩

/-- One argument is taken or throws. -/
theorem returns_argument_iff (v : View) (arg : Str) : Returns (argument v arg) ↔ GoodArg arg := by
  have hset : ∀ (f : Int → View), Returns (do let n ← value (arg.splitOn '='); .ok (f n)) ↔
      Returns (value (arg.splitOn '=')) := by
    intro f
    rw [returns_bind_iff]
    exact ⟨fun ⟨n, hn, _⟩ => ⟨n, hn⟩, fun ⟨n, hn⟩ => ⟨n, hn, returns_ok _⟩⟩
  rw [argument, GoodArg]
  simp only [settings, List.forall_mem_cons, List.not_mem_nil, false_implies, implies_true,
    and_true, ← returns_value_iff]
  by_cases hsize : (arg.splitOn '=').head? = some "size".toList
  · rw [if_pos hsize, hset, hsize]
    simp
  · rw [if_neg hsize]
    by_cases hx : (arg.splitOn '=').head? = some "centerx".toList
    · rw [if_pos hx, hset, hx]
      simp
    · rw [if_neg hx]
      by_cases hy : (arg.splitOn '=').head? = some "centery".toList
      · rw [if_pos hy, hset, hy]
        simp
      · rw [if_neg hy]
        exact iff_of_true (returns_ok v) ⟨fun h => absurd h hsize, fun h => absurd h hx,
          fun h => absurd h hy⟩

theorem returns_view_iff (args : Str) :
    Returns (view args) ↔ ∀ arg ∈ args.splitOn '&', GoodArg arg :=
  returns_foldlM_iff returns_argument_iff _ _

/-! ## Ids

The nodes are numbered in order. Where two have one name the later number is found. -/

/-- The ids of the names in order: a name that comes twice has the later one. -/
def idsOf (names : List Str) : List (Str × Nat) :=
  names.zipIdx.foldl (fun ids p => setId ids p.1 p.2) []

/-- The ids count the nodes, and a later node of a name stands before an earlier one. -/
theorem idsOf_eq (names : List Str) : idsOf names = names.zipIdx.reverse := by
  have hfold : ∀ (ps ids : List (Str × Nat)),
      ps.foldl (fun ids p => setId ids p.1 p.2) ids = ps.reverse ++ ids := by
    intro ps
    induction ps with
    | nil => intro ids; rfl
    | cons p ps ih =>
      intro ids
      rw [List.foldl_cons, ih, setId, List.reverse_cons, List.append_assoc]
      rfl
  rw [idsOf, hfold, List.append_nil]

/-- An id is the index of its name. -/
theorem getElem?_of_idAt {names : List Str} {name : Str} {id : Nat}
    (h : idAt (idsOf names) name = .ok id) : names[id]? = some name := by
  rw [idAt, idsOf_eq] at h
  cases hfind : names.zipIdx.reverse.find? fun p => name = p.1 with
  | none =>
    rw [hfind] at h
    cases h
  | some p =>
    rw [hfind] at h
    have hid : p.2 = id := Except.ok.inj h
    have hname : name = p.1 := by simpa using List.find?_some hfind
    have hmem := List.mem_reverse.mp (List.mem_of_find?_eq_some hfind)
    rw [← hid, hname]
    exact List.mem_zipIdx_iff_getElem?.mp hmem

/-- An id is found for the names that there are, and for no others. -/
theorem returns_idAt_iff {names : List Str} {name : Str} :
    Returns (idAt (idsOf names) name) ↔ name ∈ names := by
  constructor
  · rintro ⟨id, hid⟩
    exact List.mem_of_getElem? (getElem?_of_idAt hid)
  · intro hmem
    obtain ⟨i, hi⟩ := List.mem_iff_getElem?.mp hmem
    have hpair : (name, i) ∈ names.zipIdx.reverse :=
      List.mem_reverse.mpr (List.mem_zipIdx_iff_getElem?.mpr hi)
    rw [idAt, idsOf_eq]
    cases hfind : names.zipIdx.reverse.find? fun p => name = p.1 with
    | none =>
      have hno := List.find?_eq_none.mp hfind _ hpair
      simp at hno
    | some p => exact returns_ok p.2

/-! ## The machine

What a document has to be for its nodes and edges to be listed. -/

/-- A connection has a direction, and if that is `to` the name of another node. -/
def GoodConnection (names : List Str) (name : Str) (o : Json) : Prop :=
  ∃ direction, getString o "direction".toList = .ok direction ∧
    (direction = "to".toList →
      ∃ block, getString o "block".toList = .ok block ∧ block ∈ names ∧ block ≠ name)

/-- A node has a name, and an object of connections in its configuration. -/
def GoodNode (names : List Str) (node : Json) : Prop :=
  ∃ m name config conns, node = .obj m ∧ JsonObject.get m "name".toList = .str name ∧
    JsonObject.get m "config".toList = .obj config ∧
    JsonObject.get config "connections".toList = .obj conns ∧
    ∀ p ∈ conns, GoodConnection names name p.2

/-- The nodes, of which only those under background may be missing. -/
def nodesOf (root : Object) : List Json :=
  let bg := match JsonObject.get root "background".toList with
    | .arr es => es
    | _ => []
  JsonObject.get root "vent".toList :: bg ++ [JsonObject.get root "reap".toList]

def nameOf (node : Json) : Option Str := (getString node "name".toList).toOption

def GoodMachine (root : Json) : Prop :=
  ∃ o, root = .obj o ∧ ∀ node ∈ nodesOf o, GoodNode ((nodesOf o).filterMap nameOf) node

/-- A connection has a target if it leads to a block, and is passed over if it leads elsewhere. -/
theorem target_eq_ok_iff {o : Json} {t : Option Str} :
    target o = .ok t ↔ ∃ direction, getString o "direction".toList = .ok direction ∧
      ((direction ≠ "to".toList ∧ t = none) ∨ (direction = "to".toList ∧
        ∃ block, getString o "block".toList = .ok block ∧ t = some block)) := by
  rw [target, bind_eq_ok]
  simp only [read_eq_ok_iff]
  refine exists_congr fun direction => and_congr_right fun _ => ?_
  by_cases hto : direction = "to".toList
  · simp only [hto, if_true, bind_eq_ok, read_eq_ok_iff, Except.ok.injEq, ne_eq,
      not_true_eq_false, false_and, true_and, false_or]
    exact exists_congr fun block => and_congr_right fun _ => eq_comm
  · simp only [hto, if_false, Except.ok.injEq, ne_eq, not_false_eq_true, false_and, true_and,
      or_false]
    exact eq_comm

/-- `GoodConnection`, by where the connection leads. -/
theorem goodConnection_iff {names : List Str} {name : Str} {o : Json} :
    GoodConnection names name o ↔
      ∃ t, target o = .ok t ∧ ∀ block, t = some block → block ∈ names ∧ block ≠ name := by
  simp only [target_eq_ok_iff, GoodConnection]
  constructor
  · rintro ⟨direction, hdirection, hto⟩
    by_cases h : direction = "to".toList
    · obtain ⟨block, hblock, hgood⟩ := hto h
      refine ⟨some block, ⟨direction, hdirection, Or.inr ⟨h, block, hblock, rfl⟩⟩, ?_⟩
      rintro b ⟨⟩
      exact hgood
    · exact ⟨none, ⟨direction, hdirection, Or.inl ⟨h, rfl⟩⟩, fun b hb => by cases hb⟩
  · rintro ⟨t, ⟨direction, hdirection, ⟨h, rfl⟩ | ⟨h, block, hblock, rfl⟩⟩, hgood⟩
    · exact ⟨direction, hdirection, fun hto => absurd hto h⟩
    · exact ⟨direction, hdirection, fun _ => ⟨block, hblock, hgood block rfl⟩⟩

/-- An edge is made for the connections that are good. -/
theorem returns_edge_iff {names : List Str} {name : Str} (hname : name ∈ names) {o : Json} :
    Returns (edge (idsOf names) name o) ↔ GoodConnection names name o := by
  obtain ⟨src, hsrc⟩ := returns_idAt_iff.mpr hname
  rw [goodConnection_iff, edge, returns_bind_iff]
  refine exists_congr fun t => and_congr_right fun _ => ?_
  cases t with
  | none => exact iff_of_true (returns_ok _) fun block h => by cases h
  | some block =>
    simp only [hsrc, bind, Except.bind, Option.some.injEq, forall_eq']
    rw [← returns_idAt_iff]
    cases hdst : idAt (idsOf names) block with
    | error f => exact iff_of_false (not_returns_error _) fun h => not_returns_error _ h.1
    | ok dst =>
      -- two names have the same id only if they are the same
      have hsame : src = dst ↔ block = name := by
        constructor
        · rintro rfl
          have hblock := getElem?_of_idAt hdst
          rw [getElem?_of_idAt hsrc] at hblock
          exact (Option.some.inj hblock).symm
        · rintro rfl
          rw [hsrc] at hdst
          exact Except.ok.inj hdst
      simp only [hsame]
      by_cases h : block = name
      · rw [if_pos h]
        exact iff_of_false (not_returns_error _) fun hgood => hgood.2 h
      · rw [if_neg h]
        exact iff_of_true (returns_ok _) ⟨returns_ok _, h⟩

theorem plain_config : JsonPath.Plain "config".toList := JsonPath.plain_of_all (by decide)

/-- The connections of a node are those of its `config`. -/
theorem connections_eq_ok_iff {node : Json} {conns : Object} :
    connections node = .ok conns ↔ ∃ m config, node = .obj m ∧
      JsonObject.get m "config".toList = .obj config ∧
      JsonObject.get config "connections".toList = .obj conns := by
  have hpath : "config.connections".toList = "config".toList ++ '.' :: "connections".toList := rfl
  rw [connections, bind_eq_ok, hpath]
  simp only [read_eq_ok_iff]
  constructor
  · rintro ⟨w, hw, hconns⟩
    obtain ⟨m, config, conns', rfl, hconfig, hget, rfl⟩ :=
      JsonPath.getPath_member_inv plain_config (by decide) JsonPath.plain_connections hw
    obtain rfl : conns' = conns := by simpa [isNull, read] using hconns
    exact ⟨m, config, rfl, hconfig, hget⟩
  · rintro ⟨m, config, rfl, hconfig, hget⟩
    refine ⟨.obj conns, JsonPath.getPath_member plain_config (by decide)
      JsonPath.plain_connections hconfig hget, ?_⟩
    simp [isNull, read]

/-- A node is good if its name and its connections are read and each of these is good. -/
theorem goodNode_iff {names : List Str} {node : Json} :
    GoodNode names node ↔ ∃ name conns, getString node "name".toList = .ok name ∧
      connections node = .ok conns ∧ ∀ p ∈ conns, GoodConnection names name p.2 := by
  simp only [getString_eq_ok_iff, connections_eq_ok_iff]
  constructor
  · rintro ⟨m, name, config, conns, rfl, hname, hconfig, hconns, hgood⟩
    exact ⟨name, conns, ⟨m, rfl, hname⟩, ⟨m, config, rfl, hconfig, hconns⟩, hgood⟩
  · rintro ⟨name, conns, ⟨m, rfl, hname⟩, ⟨m', config, hm, hconfig, hconns⟩, hgood⟩
    obtain rfl := Json.obj.inj hm
    exact ⟨m, name, config, conns, rfl, hname, hconfig, hconns, hgood⟩

/-- **The edges of a node** of which the name has an id. -/
theorem returns_addEdges_iff {names : List Str} {node : Json}
    (hname : ∀ name, getString node "name".toList = .ok name → name ∈ names) :
    Returns (addEdges (idsOf names) node) ↔ GoodNode names node := by
  rw [goodNode_iff, addEdges, returns_bind_iff]
  simp only [read_eq_ok_iff, returns_bind_iff, returns_ok, and_true]
  constructor
  · rintro ⟨name, hn, conns, hconns, hedges⟩
    refine ⟨name, conns, hn, hconns, fun p hp => ?_⟩
    exact (returns_edge_iff (hname name hn)).mp (returns_mapM_iff.mp hedges p hp)
  · rintro ⟨name, conns, hn, hconns, hgood⟩
    refine ⟨name, hn, conns, hconns, ?_⟩
    exact returns_mapM_iff.mpr fun p hp => (returns_edge_iff (hname name hn)).mpr (hgood p hp)

/-- **The node itself**, if the layout has a centre for each id. -/
theorem returns_addNode {names : List Str} {centers : List (Int × Int)}
    (hcenters : centers.length = names.length) (type : Str) {node : Json}
    (hname : ∀ name, getString node "name".toList = .ok name → name ∈ names)
    (hgood : GoodNode names node) : Returns (addNode (idsOf names) centers type node) := by
  obtain ⟨name, conns, hn, hconns, hall⟩ := goodNode_iff.mp hgood
  obtain ⟨id, hid⟩ := returns_idAt_iff.mpr (hname name hn)
  have hlt : id < centers.length := by
    rw [hcenters]
    exact (List.getElem?_eq_some_iff.mp (getElem?_of_idAt hid)).1
  have hentries : Returns (conns.mapM fun p => connectionEntry name p.2) := by
    refine returns_mapM_iff.mpr fun p hp => ?_
    obtain ⟨t, ht, -⟩ := goodConnection_iff.mp (hall p hp)
    simp only [connectionEntry, ht, bind, Except.bind]
    cases t with
    | none => exact returns_ok _
    | some block => exact returns_ok _
  obtain ⟨entries, hentries⟩ := hentries
  have hcount : ∃ count, getInt node "count".toList 0 = .ok count := by
    obtain ⟨m, rfl, -⟩ := getString_eq_ok_iff.mp hn
    exact ⟨_, getInt_obj m _ _⟩
  obtain ⟨count, hcount⟩ := hcount
  simp only [addNode, hn, hid, List.getElem?_eq_getElem hlt, hcount, hconns, hentries, read, bind,
    Except.bind]
  exact returns_ok _

/-! ## The handler

The handler throws at the first thing that it cannot read, so that it answers if everything is good.
-/

theorem makeIds_eq_ok_iff {vent reap : Json} {bg : List Json} {ids : List (Str × Nat)} :
    makeIds vent reap bg = .ok ids ↔ ∃ names,
      List.Forall₂ (fun node name => getString node "name".toList = .ok name)
        (vent :: bg ++ [reap]) names ∧ ids = idsOf names := by
  rw [makeIds, bind_eq_ok]
  simp only [mapM_eq_ok_iff, read_eq_ok_iff, Except.ok.injEq, idsOf]
  exact exists_congr fun names => and_congr_right fun _ => eq_comm

/-- The names that are read are those that can be. -/
theorem filterMap_nameOf {nodes : List Json} {names : List Str}
    (h : List.Forall₂ (fun node name => getString node "name".toList = .ok name) nodes names) :
    nodes.filterMap nameOf = names := by
  induction h with
  | nil => rfl
  | @cons node name nodes names hn _ ih =>
    have hname : nameOf node = some name := by
      rw [nameOf, hn]
      rfl
    rw [List.filterMap_cons_some hname, ih]

theorem mem_names {nodes : List Json} {node : Json} (hnode : node ∈ nodes) {name : Str}
    (h : getString node "name".toList = .ok name) : name ∈ nodes.filterMap nameOf :=
  List.mem_filterMap.mpr ⟨node, hnode, by rw [nameOf, h]; rfl⟩

/-- The ids and the edges can be made of nodes that are good, and of no others. -/
theorem edges_iff (vent reap : Json) (bg : List Json) :
    (∃ ids, makeIds vent reap bg = .ok ids ∧
      Returns ((vent :: bg ++ [reap]).mapM (addEdges ids))) ↔
    ∀ node ∈ vent :: bg ++ [reap],
      GoodNode ((vent :: bg ++ [reap]).filterMap nameOf) node := by
  simp only [makeIds_eq_ok_iff]
  generalize vent :: bg ++ [reap] = nodes
  constructor
  · rintro ⟨ids, ⟨names, hnames, rfl⟩, hedges⟩ node hnode
    -- the ids are those of all names, so that each name has one
    have heq := filterMap_nameOf hnames
    rw [heq]
    refine (returns_addEdges_iff fun name hn => ?_).mp (returns_mapM_iff.mp hedges node hnode)
    rw [← heq]
    exact mem_names hnode hn
  · intro hgood
    have hnames : Returns (nodes.mapM fun node => getString node "name".toList) := by
      refine returns_mapM_iff.mpr fun node hnode => ?_
      obtain ⟨name, -, hn, -⟩ := goodNode_iff.mp (hgood node hnode)
      exact ⟨name, hn⟩
    obtain ⟨names, hnames⟩ := hnames
    rw [mapM_eq_ok_iff] at hnames
    have heq := filterMap_nameOf hnames
    refine ⟨idsOf names, ⟨names, hnames, rfl⟩, ?_⟩
    refine returns_mapM_iff.mpr fun node hnode => ?_
    rw [← heq]
    exact (returns_addEdges_iff fun name hn => mem_names hnode hn).mpr (hgood node hnode)

variable {layout : Nat → List (Nat × Nat) → View → Option (List (Int × Int))}

/-- For a document that is an object the arguments and the nodes decide. -/
theorem returns_handler_iff
    (hlayout : ∀ n es v centers, layout n es v = some centers → centers.length = n)
    (o : Object) (args : Str) :
    Returns (handler layout (some (.obj o)) args) ↔
      (∀ arg ∈ args.splitOn '&', GoodArg arg) ∧
        ∀ node ∈ nodesOf o, GoodNode ((nodesOf o).filterMap nameOf) node := by
  have hbg : ∃ bg, getArray (.obj o) "background".toList = .ok bg ∧
      nodesOf o = JsonObject.get o "vent".toList :: bg ++ [JsonObject.get o "reap".toList] := by
    simp only [getArray, getObj_obj, bind, Except.bind, nodesOf]
    cases JsonObject.get o "background".toList with
    | arr es => exact ⟨es, rfl, rfl⟩
    | _ => exact ⟨[], rfl, rfl⟩
  obtain ⟨bg, hbg, hnodes⟩ := hbg
  rw [← returns_view_iff, hnodes, ← edges_iff, handler, returns_bind_iff]
  simp only [hbg, getChild_obj, read, ok_bind]
  constructor
  · rintro ⟨v, hv, hrest⟩
    obtain ⟨ids, hids, hrest⟩ := returns_bind_iff.mp hrest
    obtain ⟨edges, hedges, -⟩ := returns_bind_iff.mp hrest
    exact ⟨⟨v, hv⟩, ids, hids, edges, hedges⟩
  · rintro ⟨⟨v, hv⟩, ids, hids, edges, hedges⟩
    refine ⟨v, hv, ?_⟩
    simp only [hids, hedges, bind, Except.bind]
    cases hcenters : layout (bg.length + 2) edges.flatten v with
    | none => exact returns_ok _
    | some centers =>
      -- the layout has a centre for each node, so that every id has one
      obtain ⟨names, hnames, rfl⟩ := makeIds_eq_ok_iff.mp hids
      have hlen : centers.length = names.length := by
        rw [hlayout _ _ _ _ hcenters, ← hnames.length_eq]
        simp
      have heq := filterMap_nameOf hnames
      have hgood := (edges_iff _ _ bg).mp ⟨_, hids, edges, hedges⟩
      rw [heq] at hgood
      have hnode : ∀ type, ∀ node ∈ JsonObject.get o "vent".toList :: bg ++
          [JsonObject.get o "reap".toList],
          Returns (addNode (idsOf names) centers type node) := by
        intro type node hmem
        refine returns_addNode hlen type (fun name hn => ?_) (hgood node hmem)
        rw [← heq]
        exact mem_names hmem hn
      obtain ⟨ventNode, hvent⟩ := hnode "vent".toList _ List.mem_cons_self
      obtain ⟨bgNodes, hbgNodes⟩ : Returns (bg.mapM
          (addNode (idsOf names) centers "background".toList)) :=
        returns_mapM_iff.mpr fun node hmem => hnode _ node (by simp [hmem])
      obtain ⟨reapNode, hreap⟩ := hnode "reap".toList (JsonObject.get o "reap".toList) (by simp)
      simp only [hvent, hbgNodes, hreap]
      exact returns_ok _

/-- **When a request is answered.** If no machine is loaded, or if the arguments can be read and
every node of the machine has a name and an object of connections, each with a direction and with
the name of another node where it leads to one. -/
theorem handler_answers_iff
    (hlayout : ∀ n es v centers, layout n es v = some centers → centers.length = n)
    (root : Option Json) (args : Str) :
    (∃ r, handler layout root args = .ok r) ↔
      ∀ json, root = some json →
        (∀ arg ∈ args.splitOn '&', GoodArg arg) ∧ GoodMachine json := by
  cases root with
  | none => exact iff_of_true ⟨.noContent, rfl⟩ fun json h => by cases h
  | some json =>
    simp only [Option.some.injEq, forall_eq']
    cases json with
    | obj o =>
      rw [← Returns, returns_handler_iff hlayout]
      simp [GoodMachine]
    | _ =>
      refine iff_of_false ?_ fun h => by obtain ⟨o, ho, -⟩ := h.2; cases ho
      rintro ⟨r, hr⟩
      obtain ⟨v, -, hrest⟩ := bind_eq_ok.mp hr
      cases hrest

/-- A layout that puts all vertexes in one place. -/
def onePlace (n : Nat) (_ : List (Nat × Nat)) (v : View) : Option (List (Int × Int)) :=
  some (List.replicate n (v.centerx, v.centery))

def exampleNode (name : String) : Json :=
  .obj [("name".toList, .str name.toList),
    ("config".toList, .obj [("connections".toList, .obj [])])]

def exampleMachine : Json :=
  .obj [("vent".toList, exampleNode "vent"), ("reap".toList, exampleNode "reap")]

/-- The machine of the example, with one argument. -/
theorem handler_answers_onePlace :
    (∃ r, handler onePlace (some exampleMachine) "size=200".toList = .ok r) ↔
      ∀ json, some exampleMachine = some json →
        (∀ arg ∈ "size=200".toList.splitOn '&', GoodArg arg) ∧ GoodMachine json :=
  handler_answers_iff (fun _ _ _ _ h => Option.some.inj h ▸ List.length_replicate)
    (some exampleMachine) "size=200".toList

/-- A size that is no number, and one that is missing. -/
theorem handler_throws_size :
    handler onePlace (some exampleMachine) "size=big".toList = .error (.json .badLexicalCast) ∧
      handler onePlace (some exampleMachine) "size".toList = .error (.json .undefined) := by
  constructor
  · rfl
  · rfl

end Nodes

end Skweltch
