import Skweltch.Machine.Launch

/-!
# Skweltch — launching a block whose wiring does not resolve

`collect` reports a syntax error by what it returns instead of pipes, and the callers write
whatever comes back into the command. So the block is launched unless something else stops it;
`unresolved_blocked_iff` says what that is for `start`, `doBlock` and `doVent`.
-/

namespace Skweltch

open Json JsonObject

namespace TaskMonitor

/-- `collect` reports a syntax error for the block. -/
def Unresolved (env : TaskEnv) (root block : Json) : Prop :=
  ∃ v, PipeBuilder.collected root block env.control = .ok (.syntaxError v)

/-- Starting returns false and launches no process for the `k`-th block. -/
def Blocked (r : List (List Task) × Ending) (k : Nat) : Prop :=
  r.2 = .returned false ∧ groupAt r.1 k = []

variable {env : TaskEnv} {root : Json}

theorem startBlocks_eq {blocks : List Json} (h : getArray root "blocks".toList = .ok blocks) :
    startBlocks env root = startFrom env root blocks 0 := by
  rw [startBlocks, h]

/-- A block is blocked if starting fails before its last command. -/
theorem blocked_iff {blocks : List Json} {k n : Nat} {block : Json} (hk : blocks[k]? = some block) :
    Blocked (startFrom env root blocks n) k ↔
      ∃ j m, FailsAt env root blocks n j m ∧
        (j < k ∨ (j = k ∧ m = 0) ∨ (k < j ∧ commands env root block = .ok [])) := by
  refine ⟨fun hblocked => ?_, fun hfails => ?_⟩
  · obtain ⟨j, m, hfails⟩ := failsAt_of_returned hblocked.1
    refine ⟨j, m, hfails, ?_⟩
    -- starting fails before this block, at it, or behind it
    rcases Nat.lt_trichotomy j k with hlt | rfl | hgt
    · exact Or.inl hlt
    · have hlen := hfails.stopsAt.failed
      rw [hblocked.2] at hlen
      exact Or.inr (Or.inl ⟨rfl, hlen.symm⟩)
    · obtain ⟨block', cmds, hk', hcmds, hlen⟩ := hfails.stopsAt.before k hgt
      rw [hblocked.2] at hlen
      obtain rfl : block = block' := Option.some.inj (hk.symm.trans hk')
      obtain rfl : cmds = [] := List.length_eq_zero_iff.mp hlen.symm
      exact Or.inr (Or.inr ⟨hgt, hcmds⟩)
  · obtain ⟨j, m, hfails, hwhere⟩ := hfails
    refine ⟨hfails.stopsAt.ending, ?_⟩
    rcases hwhere with hlt | ⟨rfl, rfl⟩ | ⟨hgt, hnone⟩
    · exact hfails.stopsAt.after k hlt
    · exact List.length_eq_zero_iff.mp hfails.stopsAt.failed
    · obtain ⟨block', cmds, hk', hcmds, hlen⟩ := hfails.stopsAt.before k hgt
      obtain rfl : block = block' := Option.some.inj (hk.symm.trans hk')
      rw [hnone] at hcmds
      obtain rfl : [] = cmds := Except.ok.inj hcmds
      exact List.length_eq_zero_iff.mp hlen

/-- What is found has been asked. -/
theorem search_matches {pred : Json → Except JsonFault Bool} {vs : List Json} {v : Json}
    (h : search pred vs = .ok v) (hv : v ≠ .null) : pred v = .ok true := by
  induction vs with
  | nil => exact absurd (Except.ok.inj h).symm hv
  | cons w vs ih =>
    rw [search] at h
    cases hw : pred w with
    | error f =>
      rw [hw] at h
      cases h
    | ok b =>
      rw [hw] at h
      cases b with
      | true =>
        obtain rfl := Except.ok.inj h
        exact hw
      | false => exact ih h

/-- What is found by a name has that name. -/
theorem findObj_name {name : Str} {o : Object}
    (h : findObj root (JsonNamePredicate.matches name) = .ok (.obj o)) :
    getString (.obj o) "name".toList = .ok name := by
  cases root with
  | obj members =>
    have hmatch := search_matches h (by simp)
    rw [JsonNamePredicate.matches, if_pos (show (Json.obj o).isObj = true from rfl)] at hmatch
    cases hname : getString (.obj o) "name".toList with
    | error f =>
      rw [hname] at hmatch
      cases hmatch
    | ok s =>
      rw [hname] at hmatch
      rw [of_decide_eq_true (Except.ok.inj hmatch)]
  | _ => cases h

/-- `runOne` on a block whose wiring does not resolve: without an `exe` it throws, else the
command is run. -/
theorem runOne_unresolved {o : Object} {name : Str} (h : Unresolved env root (.obj o))
    (hname : getString (.obj o) "name".toList = .ok name) :
    runOne env root (.obj o) = ([], .returned false) ↔
      (∃ exe, get o "exe".toList = .str exe) ∧ env.run 0 = 0 := by
  obtain ⟨v, hv⟩ := h
  have hcollect := collect_syntaxError hv
  have hconfig : childText env (.obj o) "config".toList =
      .ok (write env.real (get o "config".toList)) := rfl
  cases hexe : get o "exe".toList with
  | str exe =>
    have hcmd : oneCommand env root (.obj o) = .ok (command exe (write env.real v)
        (write env.real (get o "config".toList)) name) := by
      simp only [oneCommand, hcollect, getString_eq hexe, hconfig, hname, bind, Except.bind]
    rw [runOne, hcmd]
    by_cases hrun : env.run 0 = 0
    · simp [runAll, hrun]
    · simp [runAll, hrun]
  | _ =>
    have hcmd : ∃ f, oneCommand env root (.obj o) = .error f := by
      simp only [oneCommand, hcollect, getString_obj, hexe, getStr, wrongType, bind, Except.bind]
      exact ⟨_, rfl⟩
    obtain ⟨f, hf⟩ := hcmd
    rw [runOne, hf]
    simp

/-- A single block that cannot be resolved is not started. -/
theorem doBlock_unresolved {name : Str} {block : Json}
    (hfind : findObj root (JsonNamePredicate.matches name) = .ok block)
    (h : Unresolved env root block) :
    doBlock env root name = ([], .returned false) ↔
      (∃ exe, getString block "exe".toList = .ok exe) ∧ env.run 0 = 0 := by
  obtain ⟨o, rfl⟩ := isObj_of_collected h.choose_spec
  rw [doBlock, hfind]
  refine (runOne_unresolved h (findObj_name hfind)).trans (and_congr_left fun _ => ?_)
  exact exists_congr fun exe => ⟨fun hexe => getString_eq hexe, get_of_getString⟩

/-- **When a block whose wiring does not resolve stays unlaunched.** For `start`: launching stops
before the first process of the block, or at a later block while this one has nothing to launch.
For `doBlock` and `doVent`: the block has an `exe` and the fork fails. -/
theorem unresolved_blocked_iff (env : TaskEnv) (root : Json) :
    (∀ blocks, getArray root "blocks".toList = .ok blocks → ∀ k block, blocks[k]? = some block →
      Unresolved env root block →
        (Blocked (startBlocks env root) k ↔
          ∃ j m, FailsAt env root blocks 0 j m ∧
            (j < k ∨ (j = k ∧ m = 0) ∨ (k < j ∧ commands env root block = .ok [])))) ∧
    (∀ name block, findObj root (JsonNamePredicate.matches name) = .ok block →
      Unresolved env root block →
        (doBlock env root name = ([], .returned false) ↔
          (∃ exe, getString block "exe".toList = .ok exe) ∧ env.run 0 = 0)) ∧
    (∀ name block, getString root "vent".toList = .ok name →
      findObj root (JsonNamePredicate.matches name) = .ok block → Unresolved env root block →
        (doVent env root = ([], .returned false) ↔
          (∃ exe, getString block "exe".toList = .ok exe) ∧ env.run 0 = 0)) := by
  refine ⟨fun blocks hblocks k block hk _ => ?_, fun name block hfind h => ?_,
    fun name block hvent hfind h => ?_⟩
  · rw [startBlocks_eq hblocks]
    exact blocked_iff hk
  · exact doBlock_unresolved hfind h
  · rw [doVent, hvent]
    exact doBlock_unresolved hfind h

/-! ## A block that connects to nowhere

A block with a connection to a block that is not there. -/

def strayConnections : Object :=
  [("pullFrom".toList, .obj [("mode".toList, .str "connect".toList),
    ("block".toList, .str "nowhere".toList), ("connection".toList, .str "pushTo".toList)])]

def strayBlock : Json :=
  .obj [("name".toList, .str "work".toList), ("exe".toList, .str "./work".toList),
    ("connections".toList, .obj strayConnections)]

def strayConfig : Json := .obj [("blocks".toList, .arr [strayBlock])]

def healthy : TaskEnv :=
  { real := fun _ => []
    control := 7000
    run := fun n => n + 1 }

theorem strayBlock_unresolved : Unresolved healthy strayConfig strayBlock := by
  have hpath : JsonPath.getPath strayBlock "connections".toList = .ok (.obj strayConnections) :=
    JsonPath.getPath_name JsonPath.plain_connections (by decide) rfl (by simp)
  refine ⟨.null, ?_⟩
  rw [PipeBuilder.collected, hpath]
  rfl

/-- `doBlock` launches it all the same. -/
theorem stray_launched :
    ¬ ∀ (env : TaskEnv) (root : Json),
      (∀ blocks, getArray root "blocks".toList = .ok blocks → ∀ k block, blocks[k]? = some block →
        Unresolved env root block → Blocked (startBlocks env root) k) ∧
      (∀ name block, findObj root (JsonNamePredicate.matches name) = .ok block →
        Unresolved env root block → doBlock env root name = ([], .returned false)) ∧
      (∀ name block, getString root "vent".toList = .ok name →
        findObj root (JsonNamePredicate.matches name) = .ok block → Unresolved env root block →
          doVent env root = ([], .returned false)) := by
  intro h
  have hblock := (h healthy strayConfig).2.1 "work".toList strayBlock rfl strayBlock_unresolved
  obtain ⟨-, hfork⟩ := (doBlock_unresolved rfl strayBlock_unresolved).mp hblock
  exact absurd hfork (by decide)

end TaskMonitor

end Skweltch
