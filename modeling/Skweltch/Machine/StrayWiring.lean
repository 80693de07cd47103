import Skweltch.Config.PathThrows
import Skweltch.Machine.IllWired
import Skweltch.Machine.TaskMonitor

/-!
# Skweltch — a wiring that throws something else

What `PipeBuilder::collect` (`machine/PipeBuilder.cpp`) and `TaskMonitor::doVent`
(`machine/TaskMonitor.cpp`) throw is a `runtime_error`, except behind a path: a block without
`connections` is a null pointer, and the name of a connection at the other end is followed as a
path (`collect_uncaught_iff`, `doVent_uncaught_iff`).
-/

namespace Skweltch

open Json JsonObject

/-! ## The pipes of a block

Of everything that `collect` looks up, only two paths can throw what is not caught: the one to the
connections and the one to the other end. -/

namespace Wiring

open JsonPath (Strays steps Uncaught uncaught_bind not_uncaught_ok not_uncaught_getString
  not_uncaught_findObj not_uncaught_getInt not_uncaught_getObj)

/-- The connection connects to an object in which its path strays. -/
def StrayEnd (config val : Json) : Prop :=
  ∃ m block b conn, val = .obj m ∧ get m "mode".toList = .str "connect".toList ∧
    get m "block".toList = .str block ∧
    findObj config (JsonNamePredicate.matches block) = .ok (.obj b) ∧
    get m "connection".toList = .str conn ∧
    Strays (.obj b) (steps ("connections.".toList ++ conn))

/-- The block has no connections, or one whose path strays behind others that are taken. -/
def StrayWiring (config block : Json) : Prop :=
  (∃ m, block = .obj m ∧ JsonPath.get m "connections".toList = none) ∨
    ∃ conns pre p post, ConnectionsOf block conns ∧ conns = pre ++ p :: post ∧
      (∀ q ∈ pre, Accepted config q.2) ∧ StrayEnd config p.2

variable {config val block : Json}

/-- A pipe throws what nobody catches exactly at a stray end. -/
theorem pipe_uncaught_iff : Uncaught (PipeBuilder.pipe config val) ↔ StrayEnd config val := by
  constructor
  -- bind by bind: every lookup but the path throws a `runtime_error` if anything
  · intro h
    obtain ⟨mode, hgmode, h⟩ := (uncaught_bind.mp h).resolve_left (not_uncaught_getString _ _)
    obtain ⟨m, rfl, hmode⟩ := getString_eq_ok_iff.mp hgmode
    split at h
    · next hconnect =>
      subst hconnect
      obtain ⟨block, hgblock, h⟩ := (uncaught_bind.mp h).resolve_left (not_uncaught_getString _ _)
      obtain ⟨b, hfind, h⟩ := (uncaught_bind.mp h).resolve_left (not_uncaught_findObj _ _)
      cases b with
      | obj b =>
        rw [if_pos (by rfl)] at h
        obtain ⟨conn, hgconn, h⟩ := (uncaught_bind.mp h).resolve_left (not_uncaught_getString _ _)
        rcases uncaught_bind.mp h with hpath | ⟨c, -, h⟩
        · exact ⟨m, block, b, conn, rfl, hmode, get_of_getString hgblock, hfind,
            get_of_getString hgconn, (JsonPath.getPath_strays_iff _ _).mp hpath⟩
        · split at h
          · obtain ⟨node, -, h⟩ := (uncaught_bind.mp h).resolve_left (not_uncaught_getString _ _)
            obtain ⟨port, -, h⟩ := (uncaught_bind.mp h).resolve_left (not_uncaught_getInt _ _ _)
            exact absurd h (not_uncaught_ok _)
          · exact absurd h (not_uncaught_ok _)
      | _ => exact absurd h (not_uncaught_ok _)
    · split at h
      · obtain ⟨address, -, h⟩ := (uncaught_bind.mp h).resolve_left (not_uncaught_getString _ _)
        obtain ⟨port, -, h⟩ := (uncaught_bind.mp h).resolve_left (not_uncaught_getInt _ _ _)
        exact absurd h (not_uncaught_ok _)
      · exact absurd h (not_uncaught_ok _)
  · rintro ⟨m, block, b, conn, rfl, hmode, hblock, hfind, hconn, hstrays⟩
    have hpath : Uncaught (JsonPath.getPath (.obj b) ("connections.".toList ++ conn)) :=
      (JsonPath.getPath_strays_iff _ _).mpr hstrays
    refine uncaught_bind.mpr (Or.inr ⟨_, getString_eq hmode, ?_⟩)
    rw [if_pos rfl]
    refine uncaught_bind.mpr (Or.inr ⟨_, getString_eq hblock, ?_⟩)
    refine uncaught_bind.mpr (Or.inr ⟨_, hfind, ?_⟩)
    rw [if_pos (by rfl)]
    refine uncaught_bind.mpr (Or.inr ⟨_, getString_eq hconn, ?_⟩)
    exact uncaught_bind.mpr (Or.inl hpath)

/-- The loop is left at the first connection that is not taken. -/
theorem pipesFrom_uncaught_iff (acc : Json) (conns : Object) :
    Uncaught (PipeBuilder.pipesFrom config acc conns) ↔
      ∃ pre p post, conns = pre ++ p :: post ∧ (∀ q ∈ pre, Accepted config q.2) ∧
        StrayEnd config p.2 := by
  induction conns generalizing acc with
  | nil => exact iff_of_false (not_uncaught_ok _) (by simp)
  | cons p conns ih =>
    obtain ⟨name, val⟩ := p
    -- the first connection strays, or it is taken and the rest of the loop decides
    rw [PipeBuilder.pipesFrom, uncaught_bind, pipe_uncaught_iff]
    constructor
    · rintro (hstray | ⟨r, hpipe, hrest⟩)
      · exact ⟨[], (name, val), conns, rfl, by simp, hstray⟩
      · cases r with
        | syntaxError v => exact absurd hrest (not_uncaught_ok _)
        | pipes pipe =>
          obtain ⟨pre, p, post, rfl, hpre, hstray⟩ := (ih _).mp hrest
          refine ⟨(name, val) :: pre, p, post, rfl, ?_, hstray⟩
          intro q hq
          rcases List.mem_cons.mp hq with rfl | hq
          · refine (pipe_eq_ok hpipe).resolve_right ?_
            rintro ⟨v, heq, -⟩
            cases heq
          · exact hpre q hq
    · rintro ⟨pre, p, post, heq, hpre, hstray⟩
      cases pre with
      | nil =>
        obtain ⟨rfl, rfl⟩ := List.cons.inj heq
        exact Or.inl hstray
      | cons q pre =>
        obtain ⟨rfl, rfl⟩ := List.cons.inj heq
        obtain ⟨pipe, port, hpipe, -⟩ := pipe_accepted (hpre (name, val) (List.mem_cons_self ..))
        exact Or.inr ⟨_, hpipe, (ih _).mpr ⟨pre, p, post, rfl,
          fun q hq => hpre q (List.mem_cons_of_mem _ hq), hstray⟩⟩

/-- Looking the connections up throws what nobody catches in an object that has none. -/
theorem getPath_connections_uncaught :
    Uncaught (JsonPath.getPath block "connections".toList) ↔
      ∃ m, block = .obj m ∧ JsonPath.get m "connections".toList = none := by
  rw [JsonPath.getPath, JsonPath.walk_last JsonPath.plain_connections (by decide)]
  cases block with
  | obj m =>
    simp only [JsonPath.objOf, getObj_obj, Except.map, bind, Except.bind, Json.obj.injEq,
      exists_eq_left']
    cases JsonPath.get m "connections".toList with
    | none => simp [Uncaught, JsonPath.Runtime]
    | some v => simp
  | _ =>
    refine iff_of_false ?_ (by simp)
    exact JsonPath.not_uncaught_wrongType _ _

/-- **What the pipes throw.** Something that is no `runtime_error`, exactly if the wiring strays. -/
theorem collect_uncaught_iff (config block : Json) (control : Int) :
    Uncaught (PipeBuilder.collect config block control) ↔ StrayWiring config block := by
  -- writing the pipes down throws nothing
  have hcollect : Uncaught (PipeBuilder.collect config block control) ↔
      Uncaught (PipeBuilder.collected config block control) := by
    rw [PipeBuilder.collect, uncaught_bind]
    refine or_iff_left ?_
    rintro ⟨r, -, h⟩
    cases r with
    | syntaxError v => exact not_uncaught_ok _ h
    | pipes v => exact not_uncaught_ok _ h
  rw [hcollect, PipeBuilder.collected, uncaught_bind, getPath_connections_uncaught]
  refine or_congr_right ?_
  constructor
  · rintro ⟨v, hpath, h⟩
    obtain ⟨conns, hobj, h⟩ := (uncaught_bind.mp h).resolve_left (not_uncaught_getObj _)
    cases v with
    | obj conns' =>
      obtain rfl := Except.ok.inj hobj
      rcases uncaught_bind.mp h with hpipes | ⟨r, -, h⟩
      · obtain ⟨pre, p, post, heq, hpre, hstray⟩ := (pipesFrom_uncaught_iff _ _).mp hpipes
        exact ⟨_, pre, p, post, getPath_connections.mp hpath, heq, hpre, hstray⟩
      · cases r with
        | syntaxError v => exact absurd h (not_uncaught_ok _)
        | pipes v => exact absurd h (not_uncaught_ok _)
    | _ => cases hobj
  · rintro ⟨conns, pre, p, post, hconns, heq, hpre, hstray⟩
    refine ⟨.obj conns, getPath_connections.mpr hconns, ?_⟩
    refine uncaught_bind.mpr (Or.inr ⟨conns, rfl, ?_⟩)
    exact uncaught_bind.mpr (Or.inl ((pipesFrom_uncaught_iff _ _).mpr
      ⟨pre, p, post, heq, hpre, hstray⟩))

end Wiring

/-! ## The vent

The vent is started by way of its command, so that it throws where its pipes do. -/

namespace TaskMonitor

open JsonPath (Runtime Uncaught uncaught_bind not_uncaught_ok not_uncaught_getString)

/-- The machine has a vent whose wiring strays. -/
def StrayVent (root : Json) : Prop :=
  ∃ vent block, getString root "vent".toList = .ok vent ∧
    findObj root (JsonNamePredicate.matches vent) = .ok block ∧ Wiring.StrayWiring root block

/-- A command throws what nobody catches exactly where the wiring of its block strays. -/
theorem oneCommand_uncaught_iff (env : TaskEnv) (root block : Json) :
    Uncaught (oneCommand env root block) ↔ Wiring.StrayWiring root block := by
  rw [oneCommand, uncaught_bind, Wiring.collect_uncaught_iff]
  -- behind the pipes nothing but members of the block is read
  refine or_iff_left ?_
  rintro ⟨pipes, -, h⟩
  obtain ⟨exe, -, h⟩ := (uncaught_bind.mp h).resolve_left (not_uncaught_getString _ _)
  rcases uncaught_bind.mp h with hconfig | ⟨config, -, h⟩
  · rw [childText, uncaught_bind] at hconfig
    rcases hconfig with hchild | ⟨child, -, hok⟩
    · exact JsonPath.not_uncaught_getChild _ _ hchild
    · exact not_uncaught_ok _ hok
  · obtain ⟨name, -, h⟩ := (uncaught_bind.mp h).resolve_left (not_uncaught_getString _ _)
    exact not_uncaught_ok _ h

/-- **What the vent throws.** Something that is no `runtime_error`, exactly if it has a wiring that
strays. -/
theorem doVent_uncaught_iff (env : TaskEnv) (root : Json) :
    (∃ f, (doVent env root).2 = .escaped f ∧ ¬ Runtime f) ↔ StrayVent root := by
  unfold doVent StrayVent
  cases hvent : getString root "vent".toList with
  | error f =>
    refine iff_of_false ?_ (by simp)
    rintro ⟨f', hf, hno⟩
    obtain rfl := Ending.escaped.inj hf
    exact not_uncaught_getString root _ ⟨f, hvent, hno⟩
  | ok vent =>
    simp only [doBlock, Except.ok.injEq, exists_and_left, exists_eq_left']
    cases hfind : findObj root (JsonNamePredicate.matches vent) with
    | error f =>
      refine iff_of_false ?_ (by simp)
      rintro ⟨f', hf, hno⟩
      obtain rfl := Ending.escaped.inj hf
      exact JsonPath.not_uncaught_findObj root vent ⟨f, hfind, hno⟩
    | ok block =>
      simp only [Except.ok.injEq, exists_eq_left', ← oneCommand_uncaught_iff env, runOne]
      cases oneCommand env root block with
      | error f => simp [Uncaught]
      | ok cmd => simp [Uncaught]

end TaskMonitor

end Skweltch
