import Skweltch.Config.PathSteps
import Skweltch.Machine.Wiring

/-!
# Skweltch — what an ill-formed wiring comes to

`PipeBuilder::collect` (`machine/PipeBuilder.cpp`) rejects a connection by an exception or by
returning something that is no object. `Accepted` says which connections it takes, whatever comes
of them, and `Loose` which of these have no port of their own or of a connection that binds. The
pipes are all wired exactly if the block has a connection that is rejected or none that is loose
(`collect_wired_iff`).
-/

namespace Skweltch

open FixedWidth Json JsonObject

namespace Wiring

/-! ## The connections that are taken

`pipe` takes more than what is well wired. Which connections it takes, and with which port, is said
without running it. -/

/-- The port that goes into the pipe. -/
def portOf (m : Object) : Int := intAt m "port".toList (-1)

/-- A connection that binds, with the address it asks for. -/
def Binding (val : Json) (m : Object) (address : Str) : Prop :=
  val = .obj m ∧ get m "mode".toList = .str "bind".toList ∧ get m "address".toList = .str address

/-- A connection that connects, with the block it leads to, that block's node and what the path
to the connection finds there. -/
def Connecting (config val : Json) (conn node : Str) (b c : Object) : Prop :=
  ∃ m block, val = .obj m ∧ get m "mode".toList = .str "connect".toList ∧
    get m "block".toList = .str block ∧
    findObj config (JsonNamePredicate.matches block) = .ok (.obj b) ∧
    get m "connection".toList = .str conn ∧
    JsonPath.getPath (.obj b) ("connections.".toList ++ conn) = .ok (.obj c) ∧
    get b "node".toList = .str node

/-- The connection is not rejected. -/
def Accepted (config val : Json) : Prop :=
  (∃ m address, Binding val m address) ∨ ∃ conn node b c, Connecting config val conn node b c

variable {config val : Json}

/-- A connection that binds is taken, with the port that is written there. -/
theorem pipe_binding {m : Object} {address : Str} (h : Binding val m address) :
    PipeBuilder.pipe config val = .ok (.pipes (bindPipe address (portOf m))) := by
  obtain ⟨rfl, hmode, haddress⟩ := h
  have hne : ("bind".toList : Str) ≠ "connect".toList := by decide
  simp only [PipeBuilder.pipe, getString_eq hmode, bind, Except.bind, if_neg hne, if_true,
    getString_eq haddress, getInt_obj]
  rfl

/-- A connection that connects is taken with the port of the other end, whatever it is. -/
theorem pipe_connecting {conn node : Str} {b c : Object} (h : Connecting config val conn node b c) :
    PipeBuilder.pipe config val = .ok (.pipes (connectPipe node (portOf c))) := by
  obtain ⟨m, block, rfl, hmode, hblock, hfind, hconn, hpath, hnode⟩ := h
  simp only [PipeBuilder.pipe, getString_eq hmode, bind, Except.bind, if_true,
    getString_eq hblock, hfind, isObj, getString_eq hconn, hpath, getString_eq hnode, getInt_obj]
  rfl

/-- What is not taken gives no pipe, and nothing that could be taken for pipes. -/
theorem pipe_eq_ok {r : Collected} (h : PipeBuilder.pipe config val = .ok r) :
    Accepted config val ∨ ∃ v, r = .syntaxError v ∧ v.isObj = false := by
  obtain ⟨mode, hgmode, h⟩ := bind_eq_ok.mp h
  obtain ⟨m, rfl, hmode⟩ := getString_eq_ok_iff.mp hgmode
  split at h
  · next hconnect =>
    subst hconnect
    obtain ⟨block, hgblock, h⟩ := bind_eq_ok.mp h
    obtain ⟨b, hfind, h⟩ := bind_eq_ok.mp h
    cases b with
    | obj b =>
      rw [if_pos (by rfl)] at h
      -- the other block is there: its connection is looked up by a path
      obtain ⟨conn, hgconn, h⟩ := bind_eq_ok.mp h
      obtain ⟨c, hpath, h⟩ := bind_eq_ok.mp h
      cases c with
      | obj c =>
        rw [if_pos (by rfl)] at h
        obtain ⟨node, hgnode, h⟩ := bind_eq_ok.mp h
        exact Or.inl (Or.inr ⟨conn, node, b, c, m, block, rfl, hmode, get_of_getString hgblock,
          hfind, get_of_getString hgconn, hpath, get_of_getString hgnode⟩)
      | _ => exact Or.inr ⟨_, (Except.ok.inj h).symm, rfl⟩
    | _ => exact Or.inr ⟨_, (Except.ok.inj h).symm, rfl⟩
  · split at h
    · next hbind =>
      subst hbind
      obtain ⟨address, hgaddress, h⟩ := bind_eq_ok.mp h
      exact Or.inl (Or.inl ⟨m, address, rfl, hmode, get_of_getString hgaddress⟩)
    · exact Or.inr ⟨_, (Except.ok.inj h).symm, rfl⟩

/-! ## The connections that have a port

A connection that is taken is wired if its port is one that was written, and loose in the ways that
`Loose` lists. -/

/-- A port of its own, that no default can be taken for. -/
def Ported (m : Object) (port : Int) : Prop :=
  get m "port".toList = .int port ∧ IsInt port ∧ port ≠ -1

/-- The connection gets this port from the configuration: it binds and has it, or it connects to
a connection of an existing block that binds and has it. -/
inductive Wired (config : Json) : Json → Int → Prop where
  | bind {m : Object} {port : Int} (mode : get m "mode".toList = .str "bind".toList)
      (ported : Ported m port) : Wired config (.obj m) port
  | connect {m b conns c : Object} {block conn : Str} {port : Int}
      (mode : get m "mode".toList = .str "connect".toList)
      (named : get m "block".toList = .str block)
      (found : findObj config (JsonNamePredicate.matches block) = .ok (.obj b))
      (connections : get b "connections".toList = .obj conns)
      (connection : get m "connection".toList = .str conn)
      (member : get conns conn = .obj c)
      (binds : get c "mode".toList = .str "bind".toList)
      (ported : Ported c port) : Wired config (.obj m) port

/-- A connection that is taken although it has no port, or another one's. -/
inductive Loose (config val : Json) : Prop where
  /-- it binds without a port -/
  | unported {m : Object} {address : Str} (binding : Binding val m address)
      (port : ∀ n, ¬ Ported m n)
  /-- the other end has no port -/
  | farUnported {conn node : Str} {b c : Object} (connecting : Connecting config val conn node b c)
      (plain : JsonPath.Plain conn) (port : ∀ n, ¬ Ported c n)
  /-- the other end does not bind -/
  | farConnects {conn node : Str} {b c : Object} (connecting : Connecting config val conn node b c)
      (plain : JsonPath.Plain conn) (mode : get c "mode".toList ≠ .str "bind".toList)
  /-- the name is read as a path, and leads to another port than that of a connection so named -/
  | elsewhere {conn node : Str} {b c : Object} (connecting : Connecting config val conn node b c)
      (marks : ¬ JsonPath.Plain conn)
      (other : ∀ conns c', get b "connections".toList = .obj conns → get conns conn = .obj c' →
        get c' "mode".toList = .str "bind".toList → ¬ Ported c' (portOf c))

theorem Ported.portOf_eq {m : Object} {port : Int} (h : Ported m port) : portOf m = port := by
  rw [portOf, intAt, h.1]
  exact int32_of_isInt h.2.1

theorem Wired.ne {port : Int} (h : Wired config val port) : port ≠ -1 := by
  cases h with
  | bind _ ported => exact ported.2.2
  | connect _ _ _ _ _ _ _ ported => exact ported.2.2

/-- The path that `pipe` looks the other connection up by. -/
theorem getPath_connection {b c : Object} {conn : Str} (hplain : JsonPath.Plain conn) :
    JsonPath.getPath (.obj b) ("connections.".toList ++ conn) = .ok (.obj c) ↔
      ∃ conns, get b "connections".toList = .obj conns ∧ get conns conn = .obj c := by
  rw [show "connections.".toList ++ conn = "connections".toList ++ '.' :: conn from rfl]
  constructor
  · intro h
    rw [JsonPath.getPath, JsonPath.walk_name JsonPath.plain_connections (by decide),
      JsonPath.walk_dot, JsonPath.nextToken_plain hplain] at h
    -- behind a plain name nothing is left of the path
    have hwalk : ∀ o : Option Json, JsonPath.walk o [] = .ok o := by
      intro o
      rw [JsonPath.walk]
    cases hconns : JsonPath.get b "connections".toList with
    | none =>
      rw [hconns] at h
      cases h
    | some cv =>
      rw [hconns] at h
      cases cv with
      | obj conns =>
        rw [JsonPath.member] at h
        simp only [JsonPath.objOf, getObj_obj, Except.bind, bind] at h
        cases hget : JsonPath.get conns conn with
        | none =>
          rw [hget] at h
          cases h
        | some x =>
          rw [hget] at h
          cases x with
          | obj c' =>
            simp only [hwalk, Except.ok.injEq] at h
            refine ⟨conns, ?_, ?_⟩
            · rw [← JsonPath.getD_get, hconns]
              rfl
            · rw [← JsonPath.getD_get, hget]
              exact h
          | _ => cases h
      | _ => cases h
  · rintro ⟨conns, hconns, hget⟩
    exact JsonPath.getPath_member JsonPath.plain_connections (by decide) hplain hconns hget

/-- A connection that binds is wired unless its port is missing. -/
theorem Binding.wired_iff {m : Object} {address : Str} (h : Binding val m address) :
    Wired config val (portOf m) ↔ ¬ Loose config val := by
  obtain ⟨rfl, hmode, haddress⟩ := h
  constructor
  · intro hwired hloose
    cases hwired with
    | bind _ ported =>
      cases hloose with
      | unported binding port =>
        obtain ⟨heq, -, -⟩ := binding
        obtain rfl := Json.obj.inj heq
        exact port _ ported
      | farUnported connecting | farConnects connecting | elsewhere connecting =>
        obtain ⟨m', block, heq, hmode', -⟩ := connecting
        obtain rfl := Json.obj.inj heq
        exact absurd (Json.str.inj (hmode.symm.trans hmode')) (by decide)
    | connect hmode' =>
      exact absurd (Json.str.inj (hmode.symm.trans hmode')) (by decide)
  · intro hloose
    have hported : ∃ n, Ported m n := by
      by_contra hno
      exact hloose (.unported ⟨rfl, hmode, haddress⟩ (not_exists.mp hno))
    obtain ⟨n, hn⟩ := hported
    rw [hn.portOf_eq]
    exact .bind hmode hn

/-- A connection names one other end. -/
theorem Connecting.unique {conn node conn' node' : Str} {b c b' c' : Object}
    (h : Connecting config val conn node b c) (h' : Connecting config val conn' node' b' c') :
    conn = conn' ∧ b = b' ∧ c = c' := by
  obtain ⟨m, block, rfl, -, hblock, hfind, hconn, hpath, -⟩ := h
  obtain ⟨m', block', heq, -, hblock', hfind', hconn', hpath', -⟩ := h'
  obtain rfl := Json.obj.inj heq
  obtain rfl := Json.str.inj (hblock.symm.trans hblock')
  obtain rfl := Json.obj.inj (Except.ok.inj (hfind.symm.trans hfind'))
  obtain rfl := Json.str.inj (hconn.symm.trans hconn')
  exact ⟨rfl, rfl, Json.obj.inj (Except.ok.inj (hpath.symm.trans hpath'))⟩

/-- A connection that connects is wired unless the port of the other one is missing. -/
theorem Connecting.wired_iff {conn node : Str} {b c : Object}
    (h : Connecting config val conn node b c) :
    Wired config val (portOf c) ↔ ¬ Loose config val := by
  have hthis := h
  obtain ⟨m, block, rfl, hmode, hblock, hfind, hconn, hpath, -⟩ := h
  constructor
  · intro hwired hloose
    cases hwired with
    | bind hmode' => exact absurd (Json.str.inj (hmode.symm.trans hmode')) (by decide)
    | @connect _ b' conns c' conn' block' _ _ named found connections connection member binds
        ported =>
      obtain rfl := Json.str.inj (hblock.symm.trans named)
      obtain rfl := Json.obj.inj (Except.ok.inj (hfind.symm.trans found))
      obtain rfl := Json.str.inj (hconn.symm.trans connection)
      -- a plain name leads to the member so named
      have hsame : JsonPath.Plain conn → c = c' := by
        intro hplain
        obtain ⟨conns', hconns', hget⟩ := (getPath_connection hplain).mp hpath
        obtain rfl := Json.obj.inj (hconns'.symm.trans connections)
        exact Json.obj.inj (hget.symm.trans member)
      cases hloose with
      | unported binding =>
        obtain ⟨heq, hmode', -⟩ := binding
        obtain rfl := Json.obj.inj heq
        exact absurd (Json.str.inj (hmode.symm.trans hmode')) (by decide)
      | farUnported connecting plain port =>
        obtain ⟨rfl, rfl, rfl⟩ := hthis.unique connecting
        obtain rfl := hsame plain
        exact port _ ported
      | farConnects connecting plain mode =>
        obtain ⟨rfl, rfl, rfl⟩ := hthis.unique connecting
        exact mode (hsame plain ▸ binds)
      | elsewhere connecting _ other =>
        obtain ⟨rfl, rfl, rfl⟩ := hthis.unique connecting
        exact other conns c' connections member binds ported
  · intro hloose
    -- a plain name leads to one connection; any other is loose unless a connection is so named
    by_cases hplain : JsonPath.Plain conn
    · obtain ⟨conns, hconns, hget⟩ := (getPath_connection hplain).mp hpath
      have hported : ∃ n, Ported c n := by
        by_contra hno
        exact hloose (.farUnported hthis hplain (not_exists.mp hno))
      have hbinds : get c "mode".toList = .str "bind".toList := by
        by_contra hno
        exact hloose (.farConnects hthis hplain hno)
      obtain ⟨n, hn⟩ := hported
      rw [hn.portOf_eq]
      exact .connect hmode hblock hfind hconns hconn hget hbinds hn
    · by_contra hwired
      exact hloose (.elsewhere hthis hplain fun conns c' hconns hget hbinds hported =>
        hwired (.connect hmode hblock hfind hconns hconn hget hbinds hported))

/-! ## The pipes of a block

A single connection that is not taken leaves something that is no object. If all are taken there is
one pipe for each. -/

/-- A connection that is taken gives a pipe, whose port is what it is to be or not. -/
theorem pipe_accepted (h : Accepted config val) :
    ∃ pipe port, PipeBuilder.pipe config val = .ok (.pipes (.obj pipe)) ∧
      get pipe "port".toList = .int port ∧ (Wired config val port ↔ ¬ Loose config val) := by
  rcases h with ⟨m, address, hbinding⟩ | ⟨conn, node, b, c, hconnecting⟩
  · exact ⟨_, portOf m, pipe_binding hbinding, rfl, hbinding.wired_iff⟩
  · exact ⟨_, portOf c, pipe_connecting hconnecting, rfl, hconnecting.wired_iff⟩

/-- A connection that is not taken spoils the pipes of the block. -/
theorem pipesFrom_rejected {conns : Object} (h : ∃ p ∈ conns, ¬ Accepted config p.2) (acc : Json)
    {r : Collected} (hr : PipeBuilder.pipesFrom config acc conns = .ok r) :
    ∃ v, r = .syntaxError v ∧ v.isObj = false := by
  induction conns generalizing acc with
  | nil =>
    obtain ⟨p, hp, -⟩ := h
    cases hp
  | cons p conns ih =>
    obtain ⟨name, val⟩ := p
    obtain ⟨first, hfirst, hrest⟩ := bind_eq_ok.mp hr
    -- a connection that is taken leaves the rejected one to the rest of the loop
    by_cases haccepted : Accepted config val
    · obtain ⟨q, hq, hrejected⟩ := h
      obtain ⟨pipe, port, hpipe, -⟩ := pipe_accepted haccepted
      obtain rfl := Except.ok.inj (hpipe.symm.trans hfirst)
      refine ih ⟨q, ?_, hrejected⟩ _ hrest
      rcases List.mem_cons.mp hq with rfl | hq
      · exact absurd haccepted hrejected
      · exact hq
    · obtain ⟨v, rfl, hv⟩ := (pipe_eq_ok hfirst).resolve_left haccepted
      exact ⟨v, (Except.ok.inj hrest).symm, hv⟩

def ConnectionsOf (block : Json) (conns : Object) : Prop :=
  ∃ m, block = .obj m ∧ get m "connections".toList = .obj conns

/-- The path to the connections of a block. -/
theorem getPath_connections {block : Json} {conns : Object} :
    JsonPath.getPath block "connections".toList = .ok (.obj conns) ↔ ConnectionsOf block conns := by
  rw [JsonPath.getPath, JsonPath.walk_last JsonPath.plain_connections (by decide)]
  cases block with
  | obj m =>
    simp only [JsonPath.objOf, getObj_obj, Except.map, bind, Except.bind, ConnectionsOf,
      Json.obj.injEq, exists_eq_left', ← JsonPath.getD_get]
    cases JsonPath.get m "connections".toList with
    | none => simp
    | some v => simp
  | _ =>
    refine iff_of_false (by simp [JsonPath.objOf, getObj, wrongType, Except.map, bind, Except.bind])
      ?_
    rintro ⟨m, heq, -⟩
    cases heq

/-- Pipes are collected only if all connections are taken. -/
theorem collect_obj {block : Json} {control : Int} {o : Object}
    (h : PipeBuilder.collect config block control = .ok (.obj o)) :
    ∃ conns, ConnectionsOf block conns ∧ ∀ p ∈ conns, Accepted config p.2 := by
  obtain ⟨r, hr, hresult⟩ := bind_eq_ok.mp h
  obtain ⟨cv, hpath, hr⟩ := bind_eq_ok.mp hr
  obtain ⟨conns, hconns, hr⟩ := bind_eq_ok.mp hr
  obtain ⟨r', hr', hr⟩ := bind_eq_ok.mp hr
  cases cv with
  | obj conns' =>
    obtain rfl := Except.ok.inj hconns
    refine ⟨conns', getPath_connections.mp hpath, ?_⟩
    by_contra hno
    obtain ⟨p, hp⟩ := not_forall.mp hno
    rw [Classical.not_imp] at hp
    obtain ⟨v, rfl, hv⟩ := pipesFrom_rejected ⟨p, hp⟩ .null hr'
    -- what is returned instead of pipes is no object
    obtain rfl := Except.ok.inj hr
    obtain rfl := Except.ok.inj hresult
    cases hv
  | _ => cases hconns

/-- The converse: then there is a pipe for each of them. -/
theorem collect_accepted {block : Json} {conns : Object} (hconns : ConnectionsOf block conns)
    (h : ∀ p ∈ conns, Accepted config p.2) (control : Int) :
    ∃ v, PipeBuilder.collect config block control = .ok v ∧
      members v = (conns.map fun p => (p.1, pipeOf config p)) ++ controlEntry control := by
  have hpipes : ∀ p ∈ conns, PipeBuilder.pipe config p.2 = .ok (.pipes (pipeOf config p)) := by
    intro p hp
    obtain ⟨pipe, port, hpipe, -⟩ := pipe_accepted (h p hp)
    rw [pipeOf, hpipe]
  obtain ⟨v, hv, hmembers⟩ := pipesFrom_eq hpipes .null
  refine ⟨PipeBuilder.withControl v control, ?_, ?_⟩
  · simp only [PipeBuilder.collect, PipeBuilder.collected, getPath_connections.mpr hconns,
      getObj_obj, hv, bind, Except.bind]
  · rw [members_withControl, hmembers]
    rfl

/-- What a non-empty result is to be: one pipe for each connection, with the port that the
configuration gives, then the control pipe; and nowhere the port that stands for none. -/
def AllWired (config block : Json) (control : Int) (o : Object) : Prop :=
  (∃ conns pipes, ConnectionsOf block conns ∧ o = pipes ++ controlEntry control ∧
    List.Forall₂ (fun p q => ∃ pipe port, q = (p.1, .obj pipe) ∧
      get pipe "port".toList = .int port ∧ Wired config p.2 port) conns pipes) ∧
  ∀ q ∈ o, ∀ pipe, q.2 = .obj pipe → get pipe "port".toList ≠ .int (-1)

theorem members_obj {v : Json} (h : members v ≠ []) : v = .obj (members v) := by
  cases v with
  | obj o => rfl
  | _ => exact absurd rfl h

/-- Each pipe is wired exactly if it has the port that its connection says. -/
theorem forall₂_pipeOf {conns : Object} :
    List.Forall₂ (fun p q => ∃ pipe port, q = (p.1, Json.obj pipe) ∧
        get pipe "port".toList = .int port ∧ Wired config p.2 port)
      conns (conns.map fun p => (p.1, pipeOf config p)) ↔
    ∀ p ∈ conns, ∃ pipe port, pipeOf config p = .obj pipe ∧
      get pipe "port".toList = .int port ∧ Wired config p.2 port := by
  rw [List.forall₂_map_right_iff, List.forall₂_same]
  simp

/-- The control port is never -1. -/
theorem controlEntry_port {control : Int} {q : Str × Json} (hq : q ∈ controlEntry control)
    {pipe : Object} (h : q.2 = .obj pipe) : get pipe "port".toList ≠ .int (-1) := by
  unfold controlEntry at hq
  split at hq
  · next hpos =>
    obtain rfl := List.mem_singleton.mp hq
    obtain rfl := Json.obj.inj h
    intro hport
    have : control = -1 := Json.int.inj hport
    omega
  · cases hq

/-- **Ill-formed wiring.** What `collect` returns has a port from the configuration in every pipe
exactly if some connection of the block is rejected or none is loose. -/
theorem collect_wired_iff (config block : Json) (control : Int) :
    (∀ o, PipeBuilder.collect config block control = .ok (.obj o) → o ≠ [] →
        AllWired config block control o) ↔
      ∀ conns, ConnectionsOf block conns →
        (∃ p ∈ conns, ¬ Accepted config p.2) ∨ ∀ p ∈ conns, ¬ Loose config p.2 := by
  constructor
  · intro h conns hconns
    by_cases haccepted : ∀ p ∈ conns, Accepted config p.2
    · refine Or.inr fun p hp => ?_
      obtain ⟨v, hv, hmembers⟩ := collect_accepted hconns haccepted control
      have hne : members v ≠ [] := by
        rw [hmembers]
        intro hnil
        have := List.map_eq_nil_iff.mp (List.append_eq_nil_iff.mp hnil).1
        rw [this] at hp
        cases hp
      rw [members_obj hne] at hv
      obtain ⟨⟨conns', pipes, hconns', hsplit, hpipes⟩, -⟩ := h _ hv hne
      obtain rfl : conns = conns' := by
        obtain ⟨m, rfl, hm⟩ := hconns
        obtain ⟨m', heq, hm'⟩ := hconns'
        obtain rfl := Json.obj.inj heq
        exact Json.obj.inj (hm.symm.trans hm')
      -- the control pipe comes last on both sides, so the pipes are the connections' own
      obtain rfl := List.append_cancel_right (hmembers.symm.trans hsplit)
      obtain ⟨pipe, port, hpipe, hport, hwired⟩ := forall₂_pipeOf.mp hpipes p hp
      obtain ⟨pipe', port', hpipe', hport', hiff⟩ := pipe_accepted (haccepted p hp)
      rw [pipeOf, hpipe'] at hpipe
      obtain rfl := Json.obj.inj hpipe
      obtain rfl := Json.int.inj (hport'.symm.trans hport)
      exact hiff.mp hwired
    · simp only [not_forall] at haccepted
      obtain ⟨p, hp, hno⟩ := haccepted
      exact Or.inl ⟨p, hp, hno⟩
  · intro h o ho _
    obtain ⟨conns, hconns, haccepted⟩ := collect_obj ho
    have hloose : ∀ p ∈ conns, ¬ Loose config p.2 := by
      refine (h conns hconns).resolve_left ?_
      rintro ⟨p, hp, hno⟩
      exact hno (haccepted p hp)
    obtain ⟨v, hv, hmembers⟩ := collect_accepted hconns haccepted control
    obtain rfl := Except.ok.inj (ho.symm.trans hv)
    have ho : o = (conns.map fun p => (p.1, pipeOf config p)) ++ controlEntry control := hmembers
    have hwired : ∀ p ∈ conns, ∃ pipe port, pipeOf config p = .obj pipe ∧
        get pipe "port".toList = .int port ∧ Wired config p.2 port := by
      intro p hp
      obtain ⟨pipe, port, hpipe, hport, hiff⟩ := pipe_accepted (haccepted p hp)
      exact ⟨pipe, port, by rw [pipeOf, hpipe], hport, hiff.mpr (hloose p hp)⟩
    refine ⟨⟨conns, _, hconns, ho, forall₂_pipeOf.mpr hwired⟩, fun q hq pipe hpipe => ?_⟩
    rw [ho] at hq
    rcases List.mem_append.mp hq with hq | hq
    · obtain ⟨p, hp, rfl⟩ := List.mem_map.mp hq
      obtain ⟨pipe', port, hpipe', hport, hw⟩ := hwired p hp
      obtain rfl := Json.obj.inj (hpipe'.symm.trans hpipe)
      rw [hport]
      exact fun heq => hw.ne (Json.int.inj heq)
    · exact controlEntry_port hq hpipe

def portlessConnection : Json :=
  .obj [("mode".toList, .str "bind".toList), ("address".toList, .str "*".toList)]

def portlessBlock : Json :=
  .obj [("connections".toList, .obj [("pullFrom".toList, portlessConnection)])]

/-- A connection that binds without a port is taken, and its pipe has the port -1. -/
theorem portlessBind_loose :
    PipeBuilder.collect (.obj []) portlessBlock 0 =
        .ok (.obj [("pullFrom".toList, bindPipe "*".toList (-1))]) ∧
      ¬ AllWired (.obj []) portlessBlock 0 [("pullFrom".toList, bindPipe "*".toList (-1))] := by
  constructor
  · have hbinding : Binding portlessConnection
        [("mode".toList, .str "bind".toList), ("address".toList, .str "*".toList)] "*".toList :=
      ⟨rfl, rfl, rfl⟩
    have hconns : ConnectionsOf portlessBlock [("pullFrom".toList, portlessConnection)] :=
      ⟨_, rfl, rfl⟩
    simp only [PipeBuilder.collect, PipeBuilder.collected, getPath_connections.mpr hconns,
      getObj_obj, PipeBuilder.pipesFrom, pipe_binding hbinding, bind, Except.bind]
    rfl
  · rintro ⟨-, hports⟩
    exact hports _ (List.mem_singleton_self _) _ rfl rfl

end Wiring

end Skweltch
