import Skweltch.Machine.Launch
import Skweltch.Machine.Run
import Skweltch.Machine.ServerInvariant

/-!
# Skweltch — what a failed start leaves running

When `TaskMonitor::start` returns false the processes launched before stay: neither `start` nor
any of its callers kills or waits for them. So nothing is left running only if nothing was
launched.
-/

namespace Skweltch

open Json JsonObject

/-! ## Processes that were launched and not waited for

What a program does with processes is read off its acts: `start` and `doVent` launch some, and
`waitFinish` waits for those that it is given. -/

def ServerAct.launched : ServerAct → List Nat
  | .start _ tasks _ => tasks.map Task.pid
  | .doVent _ tasks => tasks.map Task.pid
  | _ => []

def ServerAct.waited : ServerAct → List Nat
  | .waitFinish pids => pids
  | _ => []

def RunnerAct.launched : RunnerAct → List Nat
  | .start tasks => tasks.map Task.pid
  | .doVent tasks => tasks.map Task.pid
  | _ => []

def RunnerAct.waited : RunnerAct → List Nat
  | .waitFinish pids => pids
  | _ => []

/-- The pids launched in the course of the acts and not waited for since. -/
def leftRunning {α : Type} (launched waited : α → List Nat) (acts : List α) : List Nat :=
  acts.foldl (fun left act => (left ++ launched act).filter (· ∉ waited act)) []

theorem leftRunning_snoc {α : Type} (launched waited : α → List Nat) (acts : List α) (act : α) :
    leftRunning launched waited (acts ++ [act]) =
      (leftRunning launched waited acts ++ launched act).filter (· ∉ waited act) := by
  unfold leftRunning
  rw [List.foldl_append]
  rfl

theorem leftRunning_start (done : List ServerAct) (config : Json) (tasks : List Task)
    (ending : Ending) :
    leftRunning ServerAct.launched ServerAct.waited (done ++ [.start config tasks ending]) =
      leftRunning ServerAct.launched ServerAct.waited done ++ tasks.map Task.pid := by
  rw [leftRunning_snoc]
  simp [ServerAct.launched, ServerAct.waited]

theorem leftRunning_runner (tasks : List Task) :
    leftRunning RunnerAct.launched RunnerAct.waited [.start tasks] = tasks.map Task.pid := by
  simp [leftRunning, RunnerAct.launched, RunnerAct.waited]

namespace TaskMonitor

variable {env : TaskEnv} {root : Json}

def StopsFirst (env : TaskEnv) (root : Json) : Prop :=
  ∀ blocks, getArray root "blocks".toList = .ok blocks → ∀ j m, FailsAt env root blocks 0 j m →
    m = 0 ∧ ∀ block ∈ blocks.take j, commands env root block = .ok []

/-- Nothing was started when starting stopped at the first command. -/
theorem StopsAt.flatten_eq_nil_iff {blocks : List Json} {r : List (List Task) × Ending} {j m : Nat}
    (h : StopsAt env root blocks r j m) :
    r.1.flatten = [] ↔ m = 0 ∧ ∀ block ∈ blocks.take j, commands env root block = .ok [] := by
  have hgroups : r.1.flatten = [] ↔ ∀ k, groupAt r.1 k = [] := by
    rw [List.flatten_eq_nil_iff]
    refine ⟨fun hall k => ?_, fun hall group hgroup => ?_⟩
    · unfold groupAt
      cases hk : r.1[k]? with
      | none => rfl
      | some group => exact hall group (List.mem_of_getElem? hk)
    · obtain ⟨k, hk⟩ := List.mem_iff_getElem?.mp hgroup
      have := hall k
      rwa [groupAt, hk] at this
  rw [hgroups]
  refine ⟨fun hall => ⟨?_, fun block hblock => ?_⟩, fun hnone k => ?_⟩
  · rw [← h.failed, hall j]
    rfl
  · obtain ⟨k, hk⟩ := List.mem_iff_getElem?.mp hblock
    have hlt : k < j := by
      by_contra hge
      rw [List.getElem?_take, if_neg hge] at hk
      cases hk
    rw [List.getElem?_take_of_lt hlt] at hk
    obtain ⟨block', cmds, hk', hcmds, hlen⟩ := h.before k hlt
    obtain rfl : block = block' := Option.some.inj (hk.symm.trans hk')
    rw [hall k] at hlen
    obtain rfl : cmds = [] := List.length_eq_zero_iff.mp hlen.symm
    exact hcmds
  -- before the block that fails, at it, and behind it
  · rcases Nat.lt_trichotomy k j with hlt | rfl | hgt
    · obtain ⟨block, cmds, hk, hcmds, hlen⟩ := h.before k hlt
      have hmem : block ∈ blocks.take j :=
        List.mem_of_getElem? ((List.getElem?_take_of_lt hlt).trans hk)
      rw [hnone.2 block hmem] at hcmds
      obtain rfl : [] = cmds := Except.ok.inj hcmds
      exact List.length_eq_zero_iff.mp hlen
    · exact List.length_eq_zero_iff.mp (h.failed.trans hnone.1)
    · exact h.after k hgt

/-- A start that fails has launched nothing exactly if it stops before the first process. -/
theorem start_nil_iff :
    ((start env root).2 = .returned false → (start env root).1 = []) ↔ StopsFirst env root := by
  unfold start startBlocks StopsFirst
  cases hblocks : getArray root "blocks".toList with
  | error f => cases f <;> simp
  | ok blocks =>
    simp only [Except.ok.injEq]
    refine ⟨fun h blocks' hblocks' j m hfails => ?_, fun h hfalse => ?_⟩
    · subst hblocks'
      exact hfails.stopsAt.flatten_eq_nil_iff.mp (h hfails.stopsAt.ending)
    · obtain ⟨j, m, hfails⟩ := failsAt_of_returned hfalse
      exact hfails.stopsAt.flatten_eq_nil_iff.mpr (h blocks rfl j m hfails)

end TaskMonitor

/-- What the three callers leave running of a machine they start. -/
def NothingLeft (real : ℚ → Str) (control : Int) (run : Nat → Nat) (root : Json) : Prop :=
  (∀ s ans, ans.run = run →
    leftRunning ServerAct.launched ServerAct.waited
      (Server.startCommand real control s ans (.go root)).1 = []) ∧
  (∀ env bound success killSent iterations es, env.real = real → env.control = control →
    leftRunning RunnerAct.launched RunnerAct.waited
      (MachineRunner.runOne env (.parsed root) bound run success killSent iterations es).1 = []) ∧
  ∀ ans, ans.file = .parsed root → ans.startRun = run →
    leftRunning RunnerAct.launched RunnerAct.waited (Run.main real control ans).1 = []

/-- A start that fails leaves nothing exactly if it has started nothing. -/
theorem nothingLeft_iff {real : ℚ → Str} {control : Int} {run : Nat → Nat} {root : Json}
    (hfalse : (TaskMonitor.start ⟨real, control, run⟩ root).2 = .returned false) :
    NothingLeft real control run root ↔ (TaskMonitor.start ⟨real, control, run⟩ root).1 = [] := by
  refine ⟨fun h => ?_, fun hnil => ⟨fun s ans hrun => ?_, ?_, ?_⟩⟩
  · -- the machine runner does nothing behind a failed start, so what it leaves is what was launched
    have hleft := h.2.1 ⟨real, fun _ => [], control, false⟩ true .null true 0
      (fun _ => ⟨true, fun _ => 0, .failed, true⟩) rfl rfl
    have hacts : (MachineRunner.runOne ⟨real, fun _ => [], control, false⟩ (.parsed root) true run
        .null true 0 fun _ => ⟨true, fun _ => 0, .failed, true⟩).1 =
        [.start (TaskMonitor.start ⟨real, control, run⟩ root).1] := by
      simp only [MachineRunner.runOne, MachineRunner.monitor, if_true, hfalse]
    rw [hacts, leftRunning_runner] at hleft
    exact List.map_eq_nil_iff.mp hleft
  · subst hrun
    have hmonitor : Server.monitor real control ans = ⟨real, control, ans.run⟩ := rfl
    by_cases hk : s.state = .running → ans.killSent = true
    · rw [Server.startCommand_eq hk, Server.load, Server.startLoaded_acts, leftRunning_start,
        hmonitor, hnil, Server.stopped]
      split
      · rfl
      · rfl
    · rw [Server.startCommand_stuck hk]
      rfl
  -- the machine runner, which starts before it does anything else
  · intro env bound success killSent iterations es hreal hcontrol
    subst hreal hcontrol
    cases bound with
    | true =>
      simp only [MachineRunner.runOne, MachineRunner.monitor, if_true, hfalse]
      rw [leftRunning_runner, hnil]
      rfl
    | false => rfl
  · intro ans hfile hrun
    subst hrun
    simp only [Run.main, hfile]
    split
    · simp only [Run.monitor, hfalse]
      rw [leftRunning_runner, hnil]
      rfl
    · rfl

/-- **When starting a machine is all or nothing.** A start that returns false leaves nothing running,
with any of its callers, exactly if it stops before the first process. -/
theorem all_or_nothing_iff (real : ℚ → Str) (control : Int) (run : Nat → Nat) (root : Json) :
    ((TaskMonitor.start ⟨real, control, run⟩ root).2 = .returned false →
      NothingLeft real control run root) ↔
        TaskMonitor.StopsFirst ⟨real, control, run⟩ root := by
  rw [← TaskMonitor.start_nil_iff]
  refine ⟨fun h hfalse => ?_, fun h hfalse => ?_⟩
  · exact (nothingLeft_iff hfalse).mp (h hfalse)
  · exact (nothingLeft_iff hfalse).mpr (h hfalse)

/-! ## Two workers and one fork

A block with two workers, of which the second fork has no child: the first worker is left running.
-/

def twoWorkers : Json :=
  .obj [("name".toList, .str "work".toList), ("count".toList, .int 2),
    ("exe".toList, .str "./work".toList), ("connections".toList, .obj [])]

def twoMachine : Json := .obj [("blocks".toList, .arr [twoWorkers])]

def oneFork : TaskEnv :=
  { real := fun _ => []
    control := 7000
    run := fun n => if n = 0 then 4711 else 0 }

/-- The block of the example has two commands. -/
theorem twoWorkers_commands :
    ∃ c d, TaskMonitor.commands oneFork twoMachine twoWorkers = .ok [c, d] := by
  have hcollect : PipeBuilder.collect twoMachine twoWorkers oneFork.control =
      .ok (PipeBuilder.withControl .null oneFork.control) :=
    PipeBuilder.collect_unconnected twoMachine rfl oneFork.control
  have hname : JsonArray.getString twoWorkers "name".toList = .ok "work".toList := rfl
  have hvent : TaskMonitor.isVent twoMachine "work".toList = .ok false := rfl
  have hcount : JsonArray.getInt twoWorkers "count".toList = .ok 2 := by
    have hwrap : JsonArray.getInt twoWorkers "count".toList = .ok (FixedWidth.int32 2) := rfl
    rw [hwrap, FixedWidth.int32_of_isInt (by decide)]
  have hhas : JsonArray.has twoWorkers "exe".toList = .ok true := rfl
  have hexe : JsonArray.getString twoWorkers "exe".toList = .ok "./work".toList := rfl
  have hconfig : TaskMonitor.childText oneFork twoWorkers "config".toList = .ok "{}".toList := rfl
  simp only [TaskMonitor.commands, hname, hvent, hcount, hhas, hexe, hcollect, hconfig, bind,
    Except.bind]
  exact ⟨_, _, rfl⟩

/-- The first worker runs on when the second cannot be forked. -/
theorem worker_left :
    ¬ ∀ (real : ℚ → Str) (control : Int) (run : Nat → Nat) (root : Json),
      (TaskMonitor.start ⟨real, control, run⟩ root).2 = .returned false →
        NothingLeft real control run root := by
  intro h
  obtain ⟨c, d, hcmds⟩ := twoWorkers_commands
  have hfails : TaskMonitor.FailsAt oneFork twoMachine [twoWorkers] 0 0 1 := by
    apply TaskMonitor.FailsAt.fork hcmds (by simp)
    · decide
    · rfl
  have hstops : TaskMonitor.StopsFirst oneFork twoMachine := by
    apply TaskMonitor.start_nil_iff.mp
    intro hfalse
    exact (nothingLeft_iff hfalse).mp (h oneFork.real oneFork.control oneFork.run twoMachine hfalse)
  exact absurd (hstops [twoWorkers] rfl 0 1 hfails).1 (by decide)

end Skweltch
