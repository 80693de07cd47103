import Skweltch.Machine.MachineRunner

/-!
# Skweltch — whether a run cleans up

`runOne` kills the machine and waits for it behind its loop. An iteration that leaves `runOne`
from inside the loop leaves the machine running; `Harmless` are the iterations that do not.
-/

namespace Skweltch

open EventLoop Json JsonObject

namespace MachineRunner

/-- The kill message was sent, and then every pid waited for. -/
def Cleaned (pids : List Nat) (acts : List RunnerAct) : Prop :=
  [.kill, .waitFinish pids] <:+: acts

variable (env : RunnerEnv) (r success : Json)

/-- Results that can be checked, and their elapsed time read if they are good. -/
def Checkable (results : Json) : Prop :=
  results.isNull = true ∨ check env.text success results = .ok true ∨
    (check env.text success results = .ok false ∧
      ∃ elapsed, getInt results "elapsed".toList (-1) = .ok elapsed)

/-- An iteration that does not leave `runOne`: it is not begun, or the vent is launched and,
without an interrupt, the reply decodes to results that can be checked. -/
def Harmless (e : Iteration) : Prop :=
  e.stop = true ∨
    ((TaskMonitor.doVent (monitor env e.run) r).2 = .returned true ∧
      (e.interrupted = true ∨
        ∃ text, e.reply.unpack = some text ∧ Checkable env success (readResults text)))

variable {env r success}

/-- The loop is left with the children running exactly where the results cannot be checked. -/
theorem evaluate_left_iff (t : Tally) (results : Json) :
    (∃ ex, evaluate env success t results = .exit (.left ex)) ↔
      ¬ Checkable env success results := by
  have hfailed : ∀ ex, failed env t ≠ .exit (.left ex) := by
    intro ex
    simp only [failed]
    split <;> simp
  have hescape : ∀ f, ∃ ex, escape f = .left ex := by
    intro f
    cases f <;> exact ⟨_, rfl⟩
  unfold Checkable evaluate
  split
  · next hnull => simp [hnull, hfailed]
  · next hnull =>
    cases hcheck : check env.text success results with
    | error f => simp [hnull, hescape]
    | ok bad =>
      cases bad with
      | true => simp [hfailed]
      | false =>
        cases helapsed : getInt results "elapsed".toList (-1) with
        | error f => simp [hnull, hescape]
        | ok elapsed => simp

/-- An iteration leaves `runOne` exactly if it is not harmless. -/
theorem body_left_iff (t : Tally) (e : Iteration) :
    (∃ ex, (body env r success t e).2 = .exit (.left ex)) ↔ ¬ Harmless env r success e := by
  simp only [body]
  split
  · next hstop => simp [Harmless, hstop]
  · next hstop =>
    simp only [iterate, Harmless, hstop]
    cases hvent : (TaskMonitor.doVent (monitor env e.run) r).2 with
    | escaped f => cases f <;> simp [escape]
    | returned ok =>
      cases ok with
      | false => simp
      | true =>
        simp only
        split
        · next hint => simp [hint]
        · next hint =>
          cases hreply : e.reply.unpack with
          | none => simp [hint]
          | some text =>
            simp only [hint]
            simpa using evaluate_left_iff t (readResults text)

/-- No iteration kills. -/
theorem no_kill (t : Tally) (e : Iteration) : ∀ act ∈ (body env r success t e).1, act ≠ .kill := by
  simp only [body]
  split
  · simp
  · simp only [iterate]
    split
    · simp
    · simp
    · split
      · simp
      · split <;> simp

theorem not_cleaned_of {pids : List Nat} {acts : List RunnerAct} (h : ∀ act ∈ acts, act ≠ .kill) :
    ¬ Cleaned pids acts := by
  intro hclean
  exact h .kill (hclean.subset (List.mem_cons_self ..)) rfl

/-- At the end everything is cleaned up if the kill is sent. -/
theorem cleaned_finish_iff (killSent : Bool) (iterations : Int) (pids : List Nat) (t : Tally)
    {acts : List RunnerAct} (h : ∀ act ∈ acts, act ≠ .kill) :
    Cleaned pids (acts ++ (finish killSent iterations pids t).1) ↔ killSent = true := by
  cases killSent with
  | false =>
    rw [finish, if_neg Bool.false_ne_true, List.append_nil]
    exact iff_of_false (not_cleaned_of h) Bool.false_ne_true
  | true =>
    refine iff_of_true ?_ rfl
    exact ⟨acts, [.write iterations t.low t.high t.fail t.sum], by simp [finish]⟩

def turns (iterations : Int) (es : Nat → Iteration) : List Iteration :=
  (List.range iterations.toNat).map es

/-- A run of which no iteration leaves the loop cleans up if the kill is sent, and no other does. -/
theorem runStarted_cleaned_iff (killSent : Bool) (iterations : Int) (es : Nat → Iteration)
    (pids : List Nat) :
    Cleaned pids (runStarted env r success killSent iterations es pids).1 ↔
      killSent = true ∧ ∀ pre e, pre ++ [e] <+: turns iterations es → ∀ outs t,
        run (body env r success) init pre = (outs, .next t) → Harmless env r success e := by
  have hkill := forall_mem_run (@no_kill env r success) init
    (turns iterations es)
  have hstays : ∀ t e, (∀ x, (body env r success t e).2 = .exit x → ∀ ex, x ≠ .left ex) ↔
      Harmless env r success e := by
    intro t e
    rw [← not_iff_not, ← body_left_iff t e]
    simp
  -- the loop is not left half way exactly if every iteration in it is harmless
  have hharmless : (∀ ex, (run (body env r success) init (turns iterations es)).2 ≠
      .exit (.left ex)) ↔ AtEvery (body env r success) init (turns iterations es)
        fun _ e => Harmless env r success e := by
    rw [← atEvery_congr hstays, ← run_exit_iff_atEvery]
    simp only [ne_eq]
    exact ⟨fun h x hx ex heq => h ex (heq ▸ hx), fun h ex hx => h _ hx ex rfl⟩
  refine Iff.trans ?_ (and_congr_right fun _ => hharmless)
  have hturns : (List.range iterations.toNat).map es = turns iterations es := rfl
  simp only [runStarted, hturns]
  rcases hrun : run (body env r success) init (turns iterations es) with ⟨outs, t | ex⟩
  · rw [hrun] at hkill
    simpa using cleaned_finish_iff killSent iterations pids t hkill
  · rw [hrun] at hkill
    cases ex with
    | broke t => simpa using cleaned_finish_iff killSent iterations pids t hkill
    | left e =>
      have := @not_cleaned_of pids _ hkill
      simpa using this

/-- **When a run cleans up.** Once the machine was started, the kill is sent and every pid waited
for exactly if the kill message can be sent and every iteration that is reached is harmless. -/
theorem cleaned_iff (env : RunnerEnv) (r success : Json) (startRun : Nat → Nat) (killSent : Bool)
    (iterations : Int) (es : Nat → Iteration)
    (hstart : (TaskMonitor.start (monitor env startRun) r).2 = .returned true) :
    Cleaned ((TaskMonitor.start (monitor env startRun) r).1.map Task.pid)
        (runOne env (.parsed r) true startRun success killSent iterations es).1 ↔
      killSent = true ∧ ∀ pre e, pre ++ [e] <+: turns iterations es → ∀ outs t,
        run (body env r success) init pre = (outs, .next t) → Harmless env r success e := by
  rw [← runStarted_cleaned_iff killSent iterations es
    ((TaskMonitor.start (monitor env startRun) r).1.map Task.pid)]
  simp only [runOne, hstart, if_true, Cleaned]
  rw [List.infix_cons_iff]
  refine or_iff_right fun hp => ?_
  obtain ⟨rest, hrest⟩ := hp
  simp at hrest

def plainEnv : RunnerEnv :=
  { real := fun _ => []
    text := fun _ => []
    control := 7000
    failonerror := false }

/-- A machine without blocks, and without a vent. -/
def bareMachine : Json := .obj [("blocks".toList, .arr [])]

def quietTurn : Iteration :=
  { stop := false
    run := fun n => n + 1
    reply := .ok (.parsed .null)
    interrupted := false }

def ventBlock : Json :=
  .obj [("name".toList, .str "v".toList), ("exe".toList, .str "./vent".toList),
    ("connections".toList, .obj [])]

def workBlock : Json :=
  .obj [("name".toList, .str "work".toList), ("exe".toList, .str "./work".toList),
    ("connections".toList, .obj [])]

def smallMachine : Json :=
  .obj [("vent".toList, .str "v".toList), ("blocks".toList, .arr [ventBlock, workBlock])]

/-- The vent is launched, and results come. -/
def answeredTurn (elapsed : Int) : Iteration :=
  { stop := false
    run := fun n => n + 7
    reply := .ok (.parsed (.obj [("elapsed".toList, .int elapsed)]))
    interrupted := false }

/-- The machine of the example has one worker. -/
theorem start_smallMachine : ∃ cmd,
    TaskMonitor.start (monitor plainEnv fun n => n + 1) smallMachine =
      ([⟨1, cmd⟩], .returned true) := by
  have hvent : TaskMonitor.commands (monitor plainEnv fun n => n + 1) smallMachine ventBlock =
      .ok [] := rfl
  have hcollect : PipeBuilder.collect smallMachine workBlock
      (monitor plainEnv fun n => n + 1).control = .ok (PipeBuilder.withControl .null 7000) :=
    PipeBuilder.collect_unconnected smallMachine rfl 7000
  have hwork : ∃ cmd, TaskMonitor.commands (monitor plainEnv fun n => n + 1) smallMachine
      workBlock = .ok [cmd] := by
    have hname : JsonArray.getString workBlock "name".toList = .ok "work".toList := rfl
    have hisvent : TaskMonitor.isVent smallMachine "work".toList = .ok false := rfl
    have hcount : JsonArray.getInt workBlock "count".toList = .ok 0 := rfl
    have hhas : JsonArray.has workBlock "exe".toList = .ok true := rfl
    have hexe : JsonArray.getString workBlock "exe".toList = .ok "./work".toList := rfl
    have hconfig : TaskMonitor.childText (monitor plainEnv fun n => n + 1) workBlock
        "config".toList = .ok "{}".toList := rfl
    simp only [TaskMonitor.commands, hname, hisvent, hcount, hhas, hexe, hcollect, hconfig, bind,
      Except.bind]
    exact ⟨_, rfl⟩
  obtain ⟨cmd, hwork⟩ := hwork
  have hblocks : getArray smallMachine "blocks".toList = .ok [ventBlock, workBlock] := rfl
  refine ⟨cmd, ?_⟩
  simp only [TaskMonitor.start, TaskMonitor.startBlocks, hblocks, TaskMonitor.startFrom, hvent,
    hwork]
  rfl

/-- The vent of the small machine is started. -/
theorem vents_smallMachine (elapsed : Int) :
    (TaskMonitor.doVent (monitor plainEnv (answeredTurn elapsed).run) smallMachine).2 =
      .returned true := by
  have hcollect : PipeBuilder.collect smallMachine ventBlock
      (monitor plainEnv (answeredTurn elapsed).run).control =
        .ok (PipeBuilder.withControl .null 7000) :=
    PipeBuilder.collect_unconnected smallMachine rfl 7000
  have hcmd : ∃ cmd, TaskMonitor.oneCommand (monitor plainEnv (answeredTurn elapsed).run)
      smallMachine ventBlock = .ok cmd := by
    rw [TaskMonitor.oneCommand, hcollect]
    exact ⟨_, rfl⟩
  obtain ⟨cmd, hcmd⟩ := hcmd
  have hone : TaskMonitor.doVent (monitor plainEnv (answeredTurn elapsed).run) smallMachine =
      TaskMonitor.runOne (monitor plainEnv (answeredTurn elapsed).run) smallMachine ventBlock := rfl
  rw [hone, TaskMonitor.runOne, hcmd]
  rfl

/-- A worker is started, the machine is vented twice, and then it is killed and waited for. -/
theorem cleaned_smallMachine :
    Cleaned [1] (runOne plainEnv (.parsed smallMachine) true (fun n => n + 1) .null true 2
      fun i => answeredTurn i).1 := by
  obtain ⟨cmd, hstart⟩ := start_smallMachine
  have hclean := (cleaned_iff plainEnv smallMachine .null (fun n => n + 1) true 2
    (fun i => answeredTurn i) (congrArg Prod.snd hstart)).mpr
  rw [hstart] at hclean
  refine hclean ⟨rfl, fun pre e hpre outs t _ => ?_⟩
  have hmem : e ∈ turns 2 fun i => answeredTurn i :=
    hpre.subset (List.mem_append_right _ (List.mem_singleton_self e))
  obtain ⟨i, -, rfl⟩ := List.mem_map.mp hmem
  refine Or.inr ⟨vents_smallMachine i, Or.inr ⟨_, rfl, Or.inr (Or.inr ⟨rfl, _, rfl⟩)⟩⟩

/-- A vent that is not there makes `doVent` throw, and nothing is killed. -/
theorem not_cleaned :
    ¬ ∀ (env : RunnerEnv) (r success : Json) (startRun : Nat → Nat) (killSent : Bool)
      (iterations : Int) (es : Nat → Iteration),
      (TaskMonitor.start (monitor env startRun) r).2 = .returned true →
        Cleaned ((TaskMonitor.start (monitor env startRun) r).1.map Task.pid)
          (runOne env (.parsed r) true startRun success killSent iterations es).1 := by
  intro h
  have hclean := h plainEnv bareMachine .null (fun n => n + 1) true 1 (fun _ => quietTurn) rfl
  have hacts : (runOne plainEnv (.parsed bareMachine) true (fun n => n + 1) .null true 1
      fun _ => quietTurn).1 = [.start [], .doVent []] := rfl
  rw [hacts] at hclean
  exact not_cleaned_of (by simp) hclean

end MachineRunner

end Skweltch
