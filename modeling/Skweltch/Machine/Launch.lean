import Skweltch.Machine.TaskMonitor

/-!
# Skweltch — where a launch stops

`TaskMonitor::start` launches block after block and stops at the first command it cannot run or
build. `FailsAt` says where that is, from the commands of the blocks and the answers of `fork`;
the processes of each block follow. A block whose wiring `collect` could not resolve is launched
like any other, with `{}` for its pipes.
-/

namespace Skweltch

open Json JsonObject

namespace TaskMonitor

variable {env : TaskEnv} {root : Json}

/-- Launching the blocks, with `n` processes launched before, stops at the `j`-th block after `m`
of its processes: a `runtime_error` on the way to its commands, or a failed fork. -/
inductive FailsAt (env : TaskEnv) (root : Json) : List Json → Nat → Nat → Nat → Prop
  | raises {block : Json} {blocks : List Json} {n : Nat} {what : String} :
      commands env root block = .error (.runtimeError what) →
      FailsAt env root (block :: blocks) n 0 0
  | fork {block : Json} {blocks : List Json} {n : Nat} {cmds : List Str} {i : Nat} :
      commands env root block = .ok cmds → i < cmds.length →
      (∀ i' < i, env.run (n + i') ≠ 0) → env.run (n + i) = 0 →
      FailsAt env root (block :: blocks) n 0 i
  | later {block : Json} {blocks : List Json} {n : Nat} {cmds : List Str} {j m : Nat} :
      commands env root block = .ok cmds → (∀ i < cmds.length, env.run (n + i) ≠ 0) →
      FailsAt env root blocks (n + cmds.length) j m →
      FailsAt env root (block :: blocks) n (j + 1) m

/-! ## Running a list of commands

Commands are run in order up to the first whose fork has no child. -/

/-- While every fork has a child, all commands run. -/
theorem runAll_ok (cmds : List Str) {n : Nat} (h : ∀ i < cmds.length, env.run (n + i) ≠ 0) :
    (runAll env cmds n).2 = true ∧ (runAll env cmds n).1.length = cmds.length := by
  induction cmds generalizing n with
  | nil => exact ⟨rfl, rfl⟩
  | cons cmd cmds ih =>
    have hfirst : env.run n ≠ 0 := h 0 (Nat.succ_pos _)
    have hrest : ∀ i < cmds.length, env.run (n + 1 + i) ≠ 0 := by
      intro i hi
      rw [show n + 1 + i = n + (i + 1) from by omega]
      exact h (i + 1) (Nat.succ_lt_succ hi)
    obtain ⟨hok, hlen⟩ := ih hrest
    rw [runAll, if_neg hfirst]
    exact ⟨hok, congrArg Nat.succ hlen⟩

/-- At the first fork without one, those before it run. -/
theorem runAll_fails (cmds : List Str) {n i : Nat} (hi : i < cmds.length)
    (hbefore : ∀ i' < i, env.run (n + i') ≠ 0) (hfork : env.run (n + i) = 0) :
    (runAll env cmds n).2 = false ∧ (runAll env cmds n).1.length = i := by
  induction cmds generalizing n i with
  | nil => exact absurd hi (Nat.not_lt_zero _)
  | cons cmd cmds ih =>
    cases i with
    | zero =>
      rw [runAll, if_pos (show env.run n = 0 from hfork)]
      exact ⟨rfl, rfl⟩
    | succ i =>
      have hfirst : env.run n ≠ 0 := hbefore 0 (Nat.succ_pos _)
      have hrest : ∀ i' < i, env.run (n + 1 + i') ≠ 0 := by
        intro i' hi'
        rw [show n + 1 + i' = n + (i' + 1) from by omega]
        exact hbefore (i' + 1) (Nat.succ_lt_succ hi')
      obtain ⟨hok, hlen⟩ := ih (Nat.lt_of_succ_lt_succ hi) hrest
        (by rwa [show n + 1 + i = n + (i + 1) from by omega])
      rw [runAll, if_neg hfirst]
      exact ⟨hok, congrArg Nat.succ hlen⟩

/-- Either every fork has a child, or there is a first without one. -/
theorem forks_cases (env : TaskEnv) (n len : Nat) :
    (∀ i < len, env.run (n + i) ≠ 0) ∨
      ∃ i < len, (∀ i' < i, env.run (n + i') ≠ 0) ∧ env.run (n + i) = 0 := by
  induction len with
  | zero => exact Or.inl fun i hi => absurd hi (Nat.not_lt_zero _)
  | succ len ih =>
    rcases ih with hall | ⟨i, hi, hfirst⟩
    · by_cases hlast : env.run (n + len) = 0
      · exact Or.inr ⟨len, Nat.lt_succ_self _, hall, hlast⟩
      · refine Or.inl fun i hi => ?_
        rcases Nat.lt_succ_iff_lt_or_eq.mp hi with hi | rfl
        · exact hall i hi
        · exact hlast
    · exact Or.inr ⟨i, Nat.lt_succ_of_lt hi, hfirst⟩

/-! ## Running the blocks

The commands of the blocks run one block after another. Where starting fails is a block and the
number of its commands that were run before. -/

/-- A block whose commands all run, and then the others. -/
theorem startFrom_ok {block : Json} {cmds : List Str} (hcmds : commands env root block = .ok cmds)
    {n : Nat} (hforks : ∀ i < cmds.length, env.run (n + i) ≠ 0) (blocks : List Json) :
    startFrom env root (block :: blocks) n =
      ((runAll env cmds n).1 :: (startFrom env root blocks (n + cmds.length)).1,
        (startFrom env root blocks (n + cmds.length)).2) := by
  obtain ⟨hok, hlen⟩ := runAll_ok cmds hforks
  rcases hrun : runAll env cmds n with ⟨tasks, ok⟩
  rw [hrun] at hok hlen
  obtain rfl : ok = true := hok
  simp only [startFrom, hcmds, hrun]
  rw [show tasks.length = cmds.length from hlen]

/-- A block at whose fork everything stops. -/
theorem startFrom_fork {block : Json} {cmds : List Str}
    (hcmds : commands env root block = .ok cmds) {n i : Nat} (hi : i < cmds.length)
    (hbefore : ∀ i' < i, env.run (n + i') ≠ 0) (hfork : env.run (n + i) = 0)
    (blocks : List Json) :
    startFrom env root (block :: blocks) n = ([(runAll env cmds n).1], .returned false) := by
  obtain ⟨hfail, -⟩ := runAll_fails cmds hi hbefore hfork
  rcases hrun : runAll env cmds n with ⟨tasks, ok⟩
  rw [hrun] at hfail
  obtain rfl : ok = false := hfail
  simp only [startFrom, hcmds, hrun]

def groupAt (groups : List (List Task)) (k : Nat) : List Task := groups[k]?.getD []

/-- What is launched when it stops at the `j`-th block after `m` of its processes. -/
structure StopsAt (env : TaskEnv) (root : Json) (blocks : List Json)
    (r : List (List Task) × Ending) (j m : Nat) : Prop where
  ending : r.2 = .returned false
  before : ∀ k < j, ∃ block cmds, blocks[k]? = some block ∧
    commands env root block = .ok cmds ∧ (groupAt r.1 k).length = cmds.length
  failed : (groupAt r.1 j).length = m
  after : ∀ k, j < k → groupAt r.1 k = []

/-- Where starting fails, what runs are the blocks and commands before. -/
theorem FailsAt.stopsAt {blocks : List Json} {n j m : Nat} (h : FailsAt env root blocks n j m) :
    StopsAt env root blocks (startFrom env root blocks n) j m := by
  induction h with
  | raises hcmds =>
    rw [startFrom, hcmds]
    exact ⟨rfl, fun k hk => absurd hk (Nat.not_lt_zero _), rfl, fun k _ => rfl⟩
  | @fork block blocks n cmds i hcmds hi hbefore hfork =>
    obtain ⟨-, hlen⟩ := runAll_fails cmds hi hbefore hfork
    rw [startFrom_fork hcmds hi hbefore hfork]
    refine ⟨rfl, fun k hk => absurd hk (Nat.not_lt_zero _), hlen, fun k hk => ?_⟩
    obtain ⟨k, rfl⟩ := Nat.exists_eq_succ_of_ne_zero (Nat.ne_of_gt hk)
    rfl
  | @later block blocks n cmds j m hcmds hforks _ ih =>
    obtain ⟨-, hlen⟩ := runAll_ok cmds hforks
    rw [startFrom_ok hcmds hforks]
    refine ⟨ih.ending, fun k hk => ?_, ih.failed, fun k hk => ?_⟩
    · cases k with
      | zero => exact ⟨block, cmds, rfl, hcmds, hlen⟩
      | succ k => exact ih.before k (Nat.lt_of_succ_lt_succ hk)
    · obtain ⟨k, rfl⟩ := Nat.exists_eq_succ_of_ne_zero (Nat.ne_of_gt (Nat.zero_lt_of_lt hk))
      exact ih.after k (Nat.lt_of_succ_lt_succ hk)

/-- A start that returns false has failed somewhere. -/
theorem failsAt_of_returned {blocks : List Json} {n : Nat}
    (h : (startFrom env root blocks n).2 = .returned false) :
    ∃ j m, FailsAt env root blocks n j m := by
  induction blocks generalizing n with
  | nil => exact absurd h (by simp [startFrom])
  | cons block blocks ih =>
    cases hcmds : commands env root block with
    | error f =>
      cases f with
      | runtimeError what => exact ⟨0, 0, .raises hcmds⟩
      | badLexicalCast => simp [startFrom, hcmds] at h
      | outOfRange => simp [startFrom, hcmds] at h
      | undefined => simp [startFrom, hcmds] at h
    | ok cmds =>
      rcases forks_cases env n cmds.length with hforks | ⟨i, hi, hbefore, hfork⟩
      · rw [startFrom_ok hcmds hforks] at h
        obtain ⟨j, m, hfails⟩ := ih h
        exact ⟨j + 1, m, .later hcmds hforks hfails⟩
      · exact ⟨0, i, .fork hcmds hi hbefore hfork⟩

/-! ## One block

`doBlock` looks its block up and runs its one command. -/

theorem collect_syntaxError {block v : Json}
    (h : PipeBuilder.collected root block env.control = .ok (.syntaxError v)) :
    PipeBuilder.collect root block env.control = .ok v := by
  rw [PipeBuilder.collect, h]
  rfl

theorem isObj_of_collected {block : Json} {c : Collected} {control : Int}
    (h : PipeBuilder.collected root block control = .ok c) : ∃ o, block = .obj o := by
  cases block with
  | obj o => exact ⟨o, rfl⟩
  | _ =>
    simp only [PipeBuilder.collected, JsonPath.getPath,
      JsonPath.walk_last JsonPath.plain_connections (by decide)] at h
    simp [JsonPath.objOf, getObj, wrongType, Except.map, bind, Except.bind] at h

end TaskMonitor

end Skweltch
