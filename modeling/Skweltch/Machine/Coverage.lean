import Skweltch.Config.Lookups
import Skweltch.Machine.Launch
import Skweltch.Machine.Wiring

/-!
# Skweltch — which process is launched from where

`start` and `doVent` of `TaskMonitor` (`machine/TaskMonitor.cpp`) find the vent in two ways: the
one passes over the block of its name, the other looks it up. `start_covers` is that together they
launch every block that has an `exe`, none of them twice, and `start` as many processes for a block
as its `count` says, or one.
-/

namespace Skweltch

open FixedWidth FirstMatch Json JsonObject NumText

namespace TaskMonitor

/-! ## What a block says

The assumptions on a configuration as a whole: blocks with names of their own, of which one is the
vent, and what they hold for the command. -/

def memberOf (b : Json) (key : Str) : Json :=
  match b with
  | .obj o => get o key
  | _ => .null

def textOf : Json → Option Str
  | .str s => some s
  | _ => none

def nameOf (b : Json) : Str := (textOf (memberOf b "name".toList)).getD []

def exeOf (b : Json) : Option Str := textOf (memberOf b "exe".toList)

def countOf (b : Json) : Int :=
  match memberOf b "count".toList with
  | .int n => n
  | _ => 0

/-- The names of the processes for a block. -/
def instances (b : Json) : List Str :=
  if 0 < countOf b then
    (List.range (countOf b).toNat).map fun (i : Nat) => instanceName (nameOf b) i
  else [nameOf b]

/-- The block is for `start` to launch. -/
def startable (vent : Str) (b : Json) : Bool := (exeOf b).isSome && decide (nameOf b ≠ vent)

/-- What is run for one process of a block. -/
def processOf (env : TaskEnv) (root b : Json) (inst : Str) : Str :=
  let pipes := match PipeBuilder.collect root b env.control with
    | .ok pipes => pipes
    | .error _ => .null
  command ((exeOf b).getD []) (write env.real pipes)
    (write env.real (memberOf b "config".toList)) inst

/-- A block with a name, whose other members have the types that are read, and whose pipes can be
collected. -/
structure BlockConfigured (env : TaskEnv) (root : Json) (o : Object) : Prop where
  named : ∃ name, get o "name".toList = .str name ∧ '[' ∉ name
  counted : get o "count".toList = .null ∨ ∃ n, get o "count".toList = .int n ∧ IsInt n
  runs : has o "exe".toList = true → ∃ exe, get o "exe".toList = .str exe
  resolves : has o "exe".toList = true →
    ∃ pipes, PipeBuilder.collect root (.obj o) env.control = .ok pipes

/-- A machine whose only object or array is `blocks`, with a vent that can be launched. -/
structure Configured (env : TaskEnv) (root : Json) (blocks : List Json) (vent : Str) : Prop where
  only : ∃ o, root = .obj o ∧ get o "blocks".toList = .arr blocks ∧
    get o "vent".toList = .str vent ∧
    o.filter (fun p => p.2.isObj || p.2.isArr) = [("blocks".toList, .arr blocks)]
  block : ∀ b ∈ blocks, ∃ o, b = .obj o ∧ BlockConfigured env root o
  unique : (blocks.map nameOf).Nodup
  ventBlock : ∃ b ∈ blocks, nameOf b = vent ∧ (exeOf b).isSome = true

variable {env : TaskEnv} {root : Json} {blocks : List Json} {vent : Str}

theorem has_of_get {o : Object} {key : Str} (h : get o key ≠ .null) : has o key = true :=
  List.any_eq_true.mpr ⟨_, get_mem h, by simp⟩

theorem textOf_eq_some {v : Json} {s : Str} : textOf v = some s ↔ v = .str s := by
  cases v with
  | str t => simp [textOf]
  | _ => simp [textOf]

/-- In a configured block an executable that is there is a string. -/
theorem has_exe_iff {o : Object} (h : BlockConfigured env root o) :
    has o "exe".toList = (exeOf (.obj o)).isSome := by
  rw [Bool.eq_iff_iff, Option.isSome_iff_exists]
  constructor
  · intro hexe
    obtain ⟨exe, hget⟩ := h.runs hexe
    exact ⟨exe, textOf_eq_some.mpr hget⟩
  · intro hexe
    obtain ⟨exe, hget⟩ := hexe
    have hget : get o "exe".toList = .str exe := textOf_eq_some.mp hget
    exact has_of_get (by rw [hget]; exact Json.noConfusion)

/-- The name of a configured block is read. -/
theorem getName_eq {o : Object} (h : BlockConfigured env root o) :
    JsonArray.getString (.obj o) "name".toList = .ok (nameOf (.obj o)) ∧
      get o "name".toList = .str (nameOf (.obj o)) := by
  obtain ⟨name, hname, -⟩ := h.named
  have hof : nameOf (.obj o) = name := by
    rw [nameOf, memberOf, textOf_eq_some.mpr hname]
    rfl
  rw [hof]
  refine ⟨?_, hname⟩
  simp only [JsonArray.getString, getObj_obj, bind, Except.bind, hname]
  rfl

theorem getCount_eq {o : Object} (h : BlockConfigured env root o) :
    JsonArray.getInt (.obj o) "count".toList = .ok (countOf (.obj o)) := by
  rw [countOf, memberOf]
  simp only [JsonArray.getInt, getObj_obj, bind, Except.bind]
  rcases h.counted with hcount | ⟨n, hcount, hn⟩
  · rw [hcount]
  · rw [hcount]
    exact congrArg Except.ok (int32_of_isInt hn)

/-! ## The processes of a block

A block that has a count runs as often, under its name with the number in brackets. Names of
different blocks and numbers are different. -/

/-- One process at least, and `count` if that is more. -/
theorem length_instances (b : Json) :
    ((instances b).length : Int) = max 1 (countOf b) := by
  unfold instances
  split
  · next h =>
    rw [List.length_map, List.length_range]
    omega
  · rw [List.length_singleton]
    omega

/-- The name of the block can be read off the name of an instance. -/
theorem takeWhile_instanceName {name : Str} (h : '[' ∉ name) (i : Nat) :
    (instanceName name i).takeWhile (· ≠ '[') = name := by
  have hname : instanceName name i = name ++ '[' :: (decText i ++ [']']) := by
    simp [instanceName]
  rw [hname]
  exact (JsonPath.takeWhile_ne h _).1

/-- The name of a block is what its instances have in front of the bracket. -/
theorem takeWhile_of_mem_instances {b : Json} (h : '[' ∉ nameOf b) {inst : Str}
    (hinst : inst ∈ instances b) : inst.takeWhile (· ≠ '[') = nameOf b := by
  unfold instances at hinst
  split at hinst
  · obtain ⟨i, -, rfl⟩ := List.mem_map.mp hinst
    exact takeWhile_instanceName h i
  · obtain rfl := List.mem_singleton.mp hinst
    exact List.takeWhile_eq_self_iff.mpr fun c hc => decide_eq_true fun heq => h (heq ▸ hc)

theorem instanceName_injective {name : Str} {i j : Nat}
    (h : instanceName name i = instanceName name j) : i = j := by
  unfold instanceName at h
  have := List.append_cancel_right h
  have htext := decText_injective (List.cons.inj (List.append_cancel_left this)).2
  exact Int.natCast_inj.mp htext

theorem nodup_instances (b : Json) : (instances b).Nodup := by
  unfold instances
  split
  · exact List.nodup_range.map fun i j h => instanceName_injective h
  · exact List.nodup_singleton _

/-- Different blocks have different instances. -/
theorem nodup_flatMap_instances {bs : List Json} (hbracket : ∀ b ∈ bs, '[' ∉ nameOf b)
    (hunique : (bs.map nameOf).Nodup) : (bs.flatMap instances).Nodup := by
  refine List.nodup_flatMap.mpr ⟨fun b _ => nodup_instances b, ?_⟩
  refine (List.pairwise_map.mp hunique).imp_of_mem fun {b b'} hb hb' hne inst hinst hinst' => ?_
  have h := takeWhile_of_mem_instances (hbracket b hb) hinst
  have h' := takeWhile_of_mem_instances (hbracket b' hb') hinst'
  exact hne (h.symm.trans h')

/-! ## `start`

`start` runs the processes of all blocks but the vent, in the order of the blocks. -/

/-- The commands for a block that is no vent, or for the vent. -/
theorem commands_eq {ro : Object} (hroot : get ro "vent".toList = .str vent) {o : Object}
    (h : BlockConfigured env (.obj ro) o) :
    commands env (.obj ro) (.obj o) = .ok (if startable vent (.obj o) = true
      then (instances (.obj o)).map (processOf env (.obj ro) (.obj o)) else []) := by
  have hhas : has ro "vent".toList = true := has_of_get (by rw [hroot]; exact Json.noConfusion)
  have hvent : isVent (.obj ro) (nameOf (.obj o)) = .ok (decide (vent = nameOf (.obj o))) := by
    simp only [isVent, getObj_obj, bind, Except.bind, hhas, if_true, getString_eq hroot]
  have hexe : JsonArray.has (.obj o) "exe".toList = .ok (exeOf (.obj o)).isSome := by
    simp only [JsonArray.has, getObj_obj, bind, Except.bind, has_exe_iff h]
  simp only [commands, (getName_eq h).1, hvent, getCount_eq h, hexe, bind, Except.bind]
  -- the vent is left to `doVent`
  by_cases hname : vent = nameOf (.obj o)
  · have hno : startable vent (.obj o) = false := by simp [startable, hname]
    rw [decide_eq_true hname, if_pos rfl, hno, if_neg Bool.false_ne_true]
  rw [decide_eq_false hname, if_neg Bool.false_ne_true]
  cases hrun : exeOf (.obj o) with
  | none =>
    have hno : startable vent (.obj o) = false := by simp [startable, hrun]
    rw [hno]
    rfl
  | some exe =>
    have hyes : startable vent (.obj o) = true := by
      simp [startable, hrun, Ne.symm hname]
    have hgetexe : get o "exe".toList = .str exe := textOf_eq_some.mp hrun
    obtain ⟨pipes, hpipes⟩ := h.resolves (by rw [has_exe_iff h, hrun]; rfl)
    have hstr : JsonArray.getString (.obj o) "exe".toList = .ok exe := by
      simp only [JsonArray.getString, getObj_obj, bind, Except.bind, hgetexe]
      rfl
    have hconfig : childText env (.obj o) "config".toList =
        .ok (write env.real (get o "config".toList)) := rfl
    -- the commands of the instances differ in their names only
    have hprocess : ∀ inst, processOf env (.obj ro) (.obj o) inst =
        command exe (write env.real pipes) (write env.real (get o "config".toList)) inst := by
      intro inst
      simp only [processOf, hpipes, hrun, Option.getD_some, memberOf]
    simp only [Option.isSome_some, if_true, hstr, hpipes, hconfig, hyes, instances]
    split
    · rw [List.map_map]
      exact congrArg Except.ok (List.map_congr_left fun i _ => (hprocess _).symm)
    · rw [List.map_singleton, hprocess]

/-- When every launch succeeds the commands are run in order, under the next pids. -/
theorem runAll_eq (hruns : ∀ n, env.run n ≠ 0) (cmds : List Str) (n : Nat) :
    (runAll env cmds n).2 = true ∧ (runAll env cmds n).1.map Task.command = cmds ∧
      (runAll env cmds n).1.map Task.pid = (List.range' n cmds.length).map env.run := by
  induction cmds generalizing n with
  | nil => exact ⟨rfl, rfl, rfl⟩
  | cons cmd cmds ih =>
    obtain ⟨hok, hcmds, hpids⟩ := ih (n + 1)
    rw [runAll, if_neg (hruns n)]
    refine ⟨hok, congrArg (cmd :: ·) hcmds, ?_⟩
    rw [List.map_cons, hpids, List.length_cons, List.range'_succ, List.map_cons]

/-- While every fork has a child, all commands of the blocks are started in their order. -/
theorem startFrom_eq {cmdsOf : Json → List Str} (hruns : ∀ n, env.run n ≠ 0) {bs : List Json}
    (h : ∀ b ∈ bs, commands env root b = .ok (cmdsOf b)) (n : Nat) :
    (startFrom env root bs n).2 = .returned true ∧
      (startFrom env root bs n).1.flatten.map Task.command = bs.flatMap cmdsOf ∧
      (startFrom env root bs n).1.flatten.map Task.pid =
        (List.range' n (bs.flatMap cmdsOf).length).map env.run := by
  induction bs generalizing n with
  | nil => exact ⟨rfl, rfl, rfl⟩
  | cons b bs ih =>
    obtain ⟨hb, hbs⟩ := List.forall_mem_cons.mp h
    obtain ⟨hending, hcmds, hpids⟩ := ih hbs (n + (cmdsOf b).length)
    obtain ⟨-, hruncmds, hrunpids⟩ := runAll_eq hruns (cmdsOf b) n
    rw [startFrom_ok hb fun i _ => hruns (n + i)]
    refine ⟨hending, ?_, ?_⟩
    · rw [List.flatten_cons, List.map_append, hruncmds, hcmds, List.flatMap_cons]
    · rw [List.flatten_cons, List.map_append, hrunpids, hpids, List.flatMap_cons,
        List.length_append, ← List.map_append, List.range'_append_1]

/-- Leaving blocks out before or inside the loop is the same. -/
theorem flatMap_if_filter {α β : Type} (p : α → Bool) (f : α → List β) (xs : List α) :
    (xs.flatMap fun x => if p x = true then f x else []) = (xs.filter p).flatMap f := by
  induction xs with
  | nil => rfl
  | cons x xs ih =>
    rw [List.flatMap_cons, ih]
    cases hx : p x with
    | true => rw [List.filter_cons_of_pos hx, List.flatMap_cons, if_pos rfl]
    | false => rw [List.filter_cons_of_neg (by simp [hx])]; rfl

/-! ## `doVent`

`doVent` looks the vent up by its name and runs its one process. -/

/-- What is asked for its name is a block or no object. -/
theorem Configured.mem_candidates {o : Object} (h : Configured env (.obj o) blocks vent) {x : Json}
    (hx : x ∈ o.flatMap fun p => candidates p.2) : x ∈ blocks ∨ x.isObj = false := by
  obtain ⟨o', ho', -, -, honly⟩ := h.only
  obtain rfl := Json.obj.inj ho'
  obtain ⟨p, hp, hxp⟩ := List.mem_flatMap.mp hx
  cases hkind : p.2.isObj || p.2.isArr with
  | true =>
    have hmem : p ∈ o.filter (fun p => p.2.isObj || p.2.isArr) := List.mem_filter.mpr ⟨hp, hkind⟩
    rw [honly] at hmem
    obtain rfl := List.mem_singleton.mp hmem
    exact Or.inl hxp
  | false =>
    obtain ⟨hobj, harr⟩ := Bool.or_eq_false_iff.mp hkind
    have hx : x = p.2 := by
      cases hp2 : p.2 with
      | arr es =>
        rw [hp2] at harr
        cases harr
      | _ => simpa [hp2, candidates] using hxp
    rw [hx]
    exact Or.inr hobj

theorem Configured.eq_of_name (h : Configured env root blocks vent) {b b' : Json}
    (hb : b ∈ blocks) (hb' : b' ∈ blocks) (hname : nameOf b = nameOf b') : b = b' :=
  List.inj_on_of_nodup_map h.unique hb hb' hname

/-- The vent is the one value of its name that `findObj` can come to. -/
theorem Configured.findVent (h : Configured env root blocks vent) {v : Json} (hv : v ∈ blocks)
    (hname : nameOf v = vent) : findObj root (JsonNamePredicate.matches vent) = .ok v := by
  have hnamed : ∀ b ∈ blocks, ∃ m, b = .obj m ∧ get m "name".toList = .str (nameOf b) := by
    intro b hb
    obtain ⟨o, rfl, ho⟩ := h.block b hb
    exact ⟨o, rfl, (getName_eq ho).2⟩
  obtain ⟨o, rfl, hblocks, -⟩ := h.only
  have hmem : v ∈ o.flatMap fun p => candidates p.2 := by
    refine List.mem_flatMap.mpr ⟨_, @get_mem o "blocks".toList ?_, ?_⟩
    · rw [hblocks]
      exact Json.noConfusion
    · rw [hblocks]
      exact hv
  -- everything that is asked before the vent has a name, or is no object
  obtain ⟨r, hfind, hfirst⟩ := (findObj_named_iff o vent).mpr fun pre x post hsplit _ => by
    rcases h.mem_candidates (x := x) (by rw [hsplit]; simp) with hx | hx
    · intro m hm
      obtain ⟨m', hm', hget⟩ := hnamed x hx
      obtain rfl := Json.obj.inj (hm.symm.trans hm')
      exact ⟨_, hget⟩
    · rintro m rfl
      cases hx
  cases r with
  | none =>
    obtain ⟨m, hm, hget⟩ := hnamed v hv
    exact absurd ⟨m, hm, hname ▸ hget⟩ (hfirst v hmem)
  | some x =>
    obtain ⟨pre, post, hsplit, -, m, rfl, hget⟩ := hfirst
    rcases h.mem_candidates (x := .obj m) (by rw [hsplit]; simp) with hx | hx
    · have hxname : nameOf (.obj m) = vent := by
        rw [nameOf, memberOf, hget]
        rfl
      rw [hfind, h.eq_of_name hv hx (hname.trans hxname.symm)]
      rfl
    · cases hx

/-- The vent is started once, under its own name. -/
theorem Configured.doVent_eq (h : Configured env root blocks vent) {v : Json} (hv : v ∈ blocks)
    (hname : nameOf v = vent) (hexe : (exeOf v).isSome = true) {run : Nat → Nat}
    (hrun : run 0 ≠ 0) :
    doVent { env with run } root = ([⟨run 0, processOf env root v vent⟩], .returned true) := by
  have hfind := h.findVent hv hname
  obtain ⟨o, rfl, -, hvent, -⟩ := h.only
  obtain ⟨vo, rfl, hblock⟩ := h.block v hv
  obtain ⟨exe, hexe⟩ := Option.isSome_iff_exists.mp hexe
  obtain ⟨pipes, hpipes⟩ := hblock.resolves (by rw [has_exe_iff hblock, hexe]; rfl)
  have hgetexe : get vo "exe".toList = .str exe := textOf_eq_some.mp hexe
  have hgetname : get vo "name".toList = .str vent := hname ▸ (getName_eq hblock).2
  have hconfig : childText { env with run } (.obj vo) "config".toList =
      .ok (write env.real (get vo "config".toList)) := rfl
  have hcommand : oneCommand { env with run } (.obj o) (.obj vo) =
      .ok (processOf env (.obj o) (.obj vo) vent) := by
    simp only [oneCommand, processOf, memberOf, hpipes, getString_eq hgetexe, hconfig,
      getString_eq hgetname, hexe, Option.getD_some, bind, Except.bind]
  simp only [doVent, getString_eq hvent, doBlock, hfind, runOne, hcommand, runAll, if_neg hrun]

/-! ## Both together

The two together run each block that has an executable, and none twice. -/

/-- What `start` has launched, and what is left for `doVent`. -/
structure Covered (env : TaskEnv) (root : Json) (blocks : List Json) (vent : Str)
    (tasks : List Task) (v : Json) : Prop where
  commands : tasks.map Task.command = (blocks.filter (startable vent)).flatMap fun b =>
    (instances b).map (processOf env root b)
  pids : tasks.map Task.pid = (List.range tasks.length).map env.run
  count : ∀ b ∈ blocks.filter (startable vent), ((instances b).length : Int) = max 1 (countOf b)
  distinct : (vent :: (blocks.filter (startable vent)).flatMap instances).Nodup
  found : v ∈ blocks ∧ nameOf v = vent
  apart : v ∉ blocks.filter (startable vent)
  covers : (v :: blocks.filter (startable vent)).Perm
    (blocks.filter fun b => (exeOf b).isSome)

/-- The vent and the blocks that `start` starts are all that have an executable, each once. -/
theorem Configured.covers (h : Configured env root blocks vent) {v : Json} (hv : v ∈ blocks)
    (hname : nameOf v = vent) (hexe : (exeOf v).isSome = true) :
    v ∉ blocks.filter (startable vent) ∧
      (v :: blocks.filter (startable vent)).Perm (blocks.filter fun b => (exeOf b).isSome) := by
  have hapart : v ∉ blocks.filter (startable vent) := by
    intro hmem
    have hstart := (List.mem_filter.mp hmem).2
    simp [startable, hname] at hstart
  have hnodup : blocks.Nodup := h.unique.of_map
  refine ⟨hapart, (List.perm_ext_iff_of_nodup (List.nodup_cons.mpr ⟨hapart, hnodup.filter _⟩)
    (hnodup.filter _)).mpr fun x => ?_⟩
  rw [List.mem_cons, List.mem_filter, List.mem_filter, startable, Bool.and_eq_true,
    decide_eq_true_iff]
  constructor
  · rintro (rfl | ⟨hx, hrun, -⟩)
    · exact ⟨hv, hexe⟩
    · exact ⟨hx, hrun⟩
  · rintro ⟨hx, hrun⟩
    by_cases hxname : nameOf x = vent
    · exact Or.inl (h.eq_of_name hx hv (hxname.trans hname.symm))
    · exact Or.inr ⟨hx, hrun, hxname⟩

/-- **Every block is launched once.** When every process can be forked, `start` launches the blocks
with an `exe` but the vent, in order, with `count` processes or one, and `doVent` the vent. -/
theorem start_covers (h : Configured env root blocks vent) (hruns : ∀ n, env.run n ≠ 0)
    {ventRun : Nat → Nat} (hventRun : ventRun 0 ≠ 0) :
    ∃ tasks v, start env root = (tasks, .returned true) ∧ Covered env root blocks vent tasks v ∧
      doVent { env with run := ventRun } root =
        ([⟨ventRun 0, processOf env root v vent⟩], .returned true) := by
  obtain ⟨v, hv, hname, hexe⟩ := h.ventBlock
  obtain ⟨hapart, hcovers⟩ := h.covers hv hname hexe
  have hdoVent := h.doVent_eq hv hname hexe hventRun
  -- the name of a block is what stands before the bracket of an instance
  have hbracket : ∀ b ∈ blocks, '[' ∉ nameOf b := by
    intro b hb
    obtain ⟨o, rfl, ho⟩ := h.block b hb
    obtain ⟨name, hget, hno⟩ := ho.named
    rw [nameOf, memberOf, hget]
    exact hno
  have hcommands : ∀ b ∈ blocks, commands env root b = .ok (if startable vent b = true
      then (instances b).map (processOf env root b) else []) := by
    intro b hb
    obtain ⟨ro, rfl, -, hvent, -⟩ := h.only
    obtain ⟨o, rfl, ho⟩ := h.block b hb
    exact commands_eq hvent ho
  -- every fork has a child, so that all commands of all blocks run
  obtain ⟨hending, hcmds, hpids⟩ := startFrom_eq hruns hcommands 0
  have hblocks : startBlocks env root = startFrom env root blocks 0 := by
    obtain ⟨ro, rfl, hget, -⟩ := h.only
    simp only [startBlocks, getArray, getObj_obj, bind, Except.bind, hget]
  refine ⟨(startFrom env root blocks 0).1.flatten, v, ?_, ?_, hdoVent⟩
  · rw [start, hblocks, hending]
  · refine ⟨?_, ?_, fun b _ => length_instances b, ?_, ⟨hv, hname⟩, hapart, hcovers⟩
    · rw [hcmds, flatMap_if_filter]
    · rw [hpids, ← hcmds, List.length_map, List.range_eq_range']
    -- the vent is not among the blocks that were started
    · have hinstances : ∀ inst ∈ (blocks.filter (startable vent)).flatMap instances,
          inst ≠ vent := by
        intro inst hinst heq
        obtain ⟨b, hb, hinst⟩ := List.mem_flatMap.mp hinst
        obtain ⟨hb, hstart⟩ := List.mem_filter.mp hb
        have htake := takeWhile_of_mem_instances (hbracket b hb) hinst
        have hself : vent.takeWhile (· ≠ '[') = vent := by
          refine List.takeWhile_eq_self_iff.mpr fun c hc => decide_eq_true fun hc' => ?_
          exact hbracket v hv (by rw [hname]; exact hc' ▸ hc)
        rw [heq, hself] at htake
        simp [startable, htake] at hstart
      refine List.nodup_cons.mpr ⟨fun hmem => hinstances vent hmem rfl, ?_⟩
      exact nodup_flatMap_instances (fun b hb => hbracket b (List.mem_filter.mp hb).1)
        (h.unique.sublist (List.filter_sublist.map nameOf))

/-! ## A machine

A vent with a worker that connects to it. -/

/-- The pipes of a well-wired machine can be collected. -/
theorem collect_of_wellWired (h : Wiring.WellWired root blocks) {b : Json} (hb : b ∈ blocks)
    (control : Int) : ∃ pipes, PipeBuilder.collect root b control = .ok pipes := by
  obtain ⟨name, node, conns, hblock⟩ := h.block b hb
  obtain ⟨pipes, hpipes, -⟩ := Wiring.collect_eq h control hb hblock
  exact ⟨pipes, hpipes⟩

def ventConnections : Object :=
  [("pushTo".toList, .obj [("mode".toList, .str "connect".toList),
    ("block".toList, .str "work".toList), ("connection".toList, .str "pullFrom".toList)])]

def workConnections : Object :=
  [("pullFrom".toList, .obj [("mode".toList, .str "bind".toList),
    ("address".toList, .str "*".toList), ("port".toList, .int 5557)])]

def ventObject : Object :=
  [("name".toList, .str "vent".toList), ("node".toList, .str "localhost".toList),
    ("exe".toList, .str "./vent".toList), ("connections".toList, .obj ventConnections)]

def workObject : Object :=
  [("name".toList, .str "work".toList), ("node".toList, .str "localhost".toList),
    ("exe".toList, .str "./work".toList), ("count".toList, .int 2),
    ("connections".toList, .obj workConnections)]

def machine : Json :=
  .obj [("vent".toList, .str "vent".toList),
    ("blocks".toList, .arr [.obj ventObject, .obj workObject])]

theorem ventObject_isBlock : Wiring.IsBlock (.obj ventObject) "vent".toList "localhost".toList
    ventConnections := ⟨_, rfl, rfl, rfl, rfl⟩

theorem workObject_isBlock : Wiring.IsBlock (.obj workObject) "work".toList "localhost".toList
    workConnections := ⟨_, rfl, rfl, rfl, rfl⟩

/-- The machine is wired as the results ask for. -/
theorem machine_wellWired : Wiring.WellWired machine [.obj ventObject, .obj workObject] where
  only := ⟨_, rfl, rfl⟩
  block b hb := by
    rcases List.mem_pair.mp hb with rfl | rfl
    · exact ⟨_, _, _, ventObject_isBlock⟩
    · exact ⟨_, _, _, workObject_isBlock⟩
  unique := by
    apply List.pairwise_pair.mpr
    intro name node node' conns conns' h h'
    have hvent := (h.unique ventObject_isBlock).1
    have hwork := (h'.unique workObject_isBlock).1
    exact absurd (hvent.symm.trans hwork) (by decide)
  named b hb name node conns h p hp := by
    rcases List.mem_pair.mp hb with rfl | rfl
    · obtain ⟨-, -, rfl⟩ := h.unique ventObject_isBlock
      obtain rfl := List.mem_singleton.mp hp
      exact ⟨JsonPath.plain_of_all (by decide), by decide⟩
    · obtain ⟨-, -, rfl⟩ := h.unique workObject_isBlock
      obtain rfl := List.mem_singleton.mp hp
      exact ⟨JsonPath.plain_of_all (by decide), by decide⟩
  wired b hb name node conns h p hp := by
    rcases List.mem_pair.mp hb with rfl | rfl
    · obtain ⟨-, -, rfl⟩ := h.unique ventObject_isBlock
      obtain rfl := List.mem_singleton.mp hp
      exact Or.inr ⟨_, _, ⟨_, rfl, rfl, rfl, rfl⟩, .obj workObject, by simp, _, _,
        workObject_isBlock, _, _, ⟨_, rfl, rfl, rfl, rfl⟩⟩
    · obtain ⟨-, -, rfl⟩ := h.unique workObject_isBlock
      obtain rfl := List.mem_singleton.mp hp
      exact Or.inl ⟨_, _, _, rfl, rfl, rfl, rfl⟩

def machineEnv : TaskEnv := { real := fun _ => [], control := 5558, run := fun n => n + 1 }

/-- The blocks of the machine are configured. -/
theorem machine_configured :
    Configured machineEnv machine [.obj ventObject, .obj workObject] "vent".toList where
  only := ⟨_, rfl, rfl, rfl, rfl⟩
  block b hb := by
    have hcollect := collect_of_wellWired machine_wellWired hb machineEnv.control
    rcases List.mem_pair.mp hb with rfl | rfl
    · exact ⟨_, rfl, ⟨_, rfl, by decide⟩, Or.inl rfl, fun _ => ⟨_, rfl⟩, fun _ => hcollect⟩
    · exact ⟨_, rfl, ⟨_, rfl, by decide⟩, Or.inr ⟨2, rfl, by decide⟩, fun _ => ⟨_, rfl⟩,
        fun _ => hcollect⟩
  unique := by decide
  ventBlock := ⟨_, List.mem_cons_self, rfl, rfl⟩

/-- Two workers and a vent. -/
theorem machine_covered :
    ∃ tasks v, start machineEnv machine = (tasks, .returned true) ∧
      tasks.map Task.pid = [1, 2] ∧ nameOf v = "vent".toList ∧
      doVent { machineEnv with run := fun _ => 3 } machine =
        ([⟨3, processOf machineEnv machine v "vent".toList⟩], .returned true) := by
  obtain ⟨tasks, v, hstart, hcovered, hvent⟩ := @start_covers machineEnv machine _ _
    machine_configured (fun n => Nat.succ_ne_zero n) (fun _ => 3) (by decide)
  have hlen : tasks.length = 2 := by
    rw [← List.length_map, hcovered.commands, List.length_flatMap]
    simp only [List.length_map]
    decide
  refine ⟨tasks, v, hstart, ?_, hcovered.found.2, hvent⟩
  rw [hcovered.pids, hlen]
  rfl

end TaskMonitor

end Skweltch
