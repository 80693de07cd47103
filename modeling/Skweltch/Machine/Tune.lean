import Skweltch.Machine.Cleanup
import Skweltch.Machine.StrayWiring
import Skweltch.Machine.TuneRepeat

/-!
# Skweltch — the tuning program

`main` of `machine/tune.cpp` behind its options: for each group and each mutation the machine is
tuned, written to a file and run from there. All of that is in one `try` block, whose handler
takes a `runtime_error &`. `attempt` is the runner's `runOne` with what it throws (`attempt_forget`).

The errors of a run are all reported exactly if every target and every run that it comes to is
without a hazard (`errors_reported_iff`).
-/

namespace Skweltch

open EventLoop FixedWidth Json JsonObject NumText

/-! ## What a run throws

The runner as in `MachineRunner`, with what it throws beside it, since the tuner tells by it what it
reports and what escapes. -/

/-- An iteration, and whether a message that does not unpack is well-formed but of another type. -/
structure Turn extends Iteration where
  wrongType : Bool

/-- What the outside answers for one mutation. -/
structure Attempt where
  /-- `s_interrupted` in the loop condition -/
  stop : Bool
  /-- the file that was written, as it is read -/
  file : ReadJson
  /-- the results socket is made and connected -/
  connects : Bool
  bound : Bool
  startRun : Nat → Nat
  killSent : Bool
  turns : Nat → Turn

namespace MachineRunner

variable (env : RunnerEnv)

/-- What is thrown for a message, if anything: `msgpack::unpack_error` is a `runtime_error`. -/
def unpackThrows (e : Turn) : Option Thrown :=
  match e.reply with
  | .failed => some (.runtimeError "insufficient bytes")
  | .garbage => some (if e.wrongType then .typeError else .runtimeError "parse error")
  | .ok _ => none

def evaluateThrows (success results : Json) : Option Thrown :=
  if results.isNull then none
  else
    match check env.text success results with
    | .error f => some (.ofFault f)
    | .ok true => none
    | .ok false =>
      match getInt results "elapsed".toList (-1) with
      | .error f => some (.ofFault f)
      | .ok _ => none

/-- What an iteration throws that is left by an exception. -/
def throws (r success : Json) (_ : Tally) (e : Turn) : Option Thrown :=
  match (TaskMonitor.doVent (monitor env e.run) r).2 with
  | .escaped f => some (.ofFault f)
  | .returned _ =>
    match e.reply.unpack with
    | none => unpackThrows e
    | some text => evaluateThrows env success (readResults text)

def turnBody (r success : Json) : Body Tally Turn RunnerAct LoopExit := fun t e =>
  body env r success t e.toIteration

/-- An exit of the runner, with what was thrown. -/
def answered : RunnerExit → Option Thrown → Except Thrown Bool
  | .returned b, _ => .ok b
  | .threw, why => .error (why.getD .undefined)
  | .undefined, why => .error (why.getD .undefined)

/-- The exit alone. -/
def forget : Except Thrown Bool → RunnerExit
  | .ok b => .returned b
  | .error .undefined => .undefined
  | .error _ => .threw

/-- The started machine is vented, as in `MachineRunner.runStarted`. -/
def ventStarted (r success : Json) (killSent : Bool) (iterations : Int) (es : Nat → Turn)
    (pids : List Nat) : List RunnerAct × Except Thrown Bool :=
  let looped := run (tagged (turnBody env r success) (throws env r success)) init
    ((List.range iterations.toNat).map es)
  let finished (t : Tally) :=
    (looped.1.flatten ++ (finish killSent iterations pids t).1,
      answered (finish killSent iterations pids t).2 none)
  match looped.2 with
  | .next t => finished t
  | .exit (.broke t, _) => finished t
  | .exit (.left e, why) => (looped.1.flatten, answered e why)

/-- `MachineRunner::runOne`, with what it throws. -/
def attempt (a : Attempt) (success : Json) (iterations : Int) :
    List RunnerAct × Except Thrown Bool :=
  match a.file with
  | .failed _ => ([], .ok false)
  | .parsed r =>
    if a.connects then
      if a.bound then
        let started := TaskMonitor.start (monitor env a.startRun) r
        match started.2 with
        | .returned true =>
          let rest := ventStarted env r success a.killSent iterations a.turns
            (started.1.map Task.pid)
          (.start started.1 :: rest.1, rest.2)
        | .returned false =>
          ([.start started.1], .error (.pointer "couldn't run the machine.".toList))
        | .escaped f => ([.start started.1], .error (.ofFault f))
      else ([], .ok false)
    else ([], .error .socket)

end MachineRunner

/-! ## The program

The loops over groups and mutations, with what the outside answers in each. -/

/-- What the outside answers for one group. -/
structure GroupAnswers where
  /-- `s_interrupted` in the loop condition -/
  stop : Bool
  attempts : Nat → Attempt

inductive TuneAct where
  /-- the header of the columns -/
  | header (group varcount : Int)
  | wrote (mutation : Int) (config : Json)
  | ran (acts : List RunnerAct)
deriving Repr

/-- How a loop of `main` is left before its end. -/
inductive Broken (σ : Type) where
  | broke (s : σ)
  | threw (t : Thrown)

inductive TuneExit where
  | returned (code : Int)
  | escaped (t : Thrown)
deriving DecidableEq, Repr

/-- What `main` reads from the tuner configuration. -/
structure Settings where
  iterations : Int
  mutations : Int
  groups : Int
  success : Json

/-- The program with its tuner. -/
structure TuneEnv (γ : Type) extends TunerEnv γ where
  real : ℚ → Str
  text : ℚ → Str
  control : Int

namespace Tune

variable {γ : Type} (env : TuneEnv γ)

/-- The checks of `main`: a number that is missing or negative ends it. -/
def settings (tuneconfig : Json) : Except JsonFault (Option Settings) := do
  let iterations ← getInt tuneconfig "iterations".toList (-1)
  if iterations < 0 then .ok none
  else do
    let mutations ← getInt tuneconfig "mutations".toList (-1)
    if mutations < 0 then .ok none
    else do
      let groups ← getInt tuneconfig "groups".toList (-1)
      if groups < 0 then .ok none
      else do
        let success ← getChild tuneconfig "success".toList
        .ok (some ⟨iterations, mutations, groups, success⟩)

def runnerEnv (failonerror : Bool) : RunnerEnv :=
  { real := env.real, text := env.text, control := env.control, failonerror := failonerror }

/-- One mutation: tune, write the configuration and run it. -/
def mutationBody (tuneconfig : Json) (c : Settings) (group : Int) :
    Body (Tuning γ) (Int × Attempt) TuneAct (Broken (Tuning γ)) := fun s e =>
  if e.2.stop then ([], .exit (.broke s))
  else
    match MachineTuner.tune env.toTunerEnv tuneconfig group e.1 s with
    | .error t => ([], .exit (.threw t))
    | .ok (false, s') => ([], .exit (.broke s'))
    | .ok (true, s') =>
      let ran := MachineRunner.attempt (runnerEnv env s'.failonerror) e.2 c.success c.iterations
      let acts : List TuneAct := [.wrote e.1 s'.config, .ran ran.1]
      match ran.2 with
      | .error t => (acts, .exit (.threw t))
      | .ok ok => (acts, if ok = false ∧ s'.failonerror = true then .exit (.broke s') else .next s')

def mutationsOf (c : Settings) (g : GroupAnswers) : List (Int × Attempt) :=
  (List.range c.mutations.toNat).map fun (j : Nat) => ((j : Int), g.attempts j)

/-- `resetFail` -/
def reset (s : Tuning γ) : Tuning γ := { s with failonerror := true }

/-- One group: a mutation that cannot go on ends it, and the next group follows. -/
def groupBody (tuneconfig : Json) (c : Settings) :
    Body (Tuning γ) (Int × GroupAnswers) TuneAct (Broken (Tuning γ)) := fun s e =>
  if e.2.stop then ([], .exit (.broke s))
  else
    match MachineTuner.varCount tuneconfig e.1 with
    | .error f => ([], .exit (.threw (.ofFault f)))
    | .ok n =>
      let header : List TuneAct := if n > 0 then [.header e.1 n] else []
      let looped := run (mutationBody env tuneconfig c e.1) (reset s) (mutationsOf c e.2)
      (header ++ looped.1.flatten,
        match looped.2 with
        | .next s' => .next s'
        | .exit (.broke s') => .next s'
        | .exit (.threw t) => .exit (.threw t))

/-- `i=1; i<groups+1`, where the addition is one of `int`s. -/
def groupsOf (c : Settings) (answers : Nat → GroupAnswers) : List (Int × GroupAnswers) :=
  (List.range (int32 (c.groups + 1) - 1).toNat).map fun (i : Nat) => ((i : Int) + 1, answers i)

def begun (config : Json) (gen : γ) : Tuning γ :=
  { config := config, failonerror := true, gen := gen, vars := 0, varstring := [] }

def main (gen : γ) (config tuneconfig : ReadJson) (answers : Nat → GroupAnswers) :
    List TuneAct × TuneExit :=
  match config, tuneconfig with
  | .failed _, _ => ([], .returned 1)
  | .parsed _, .failed _ => ([], .returned 1)
  | .parsed doc, .parsed tuner =>
    match settings tuner with
    | .error f => ([], .escaped (.ofFault f))
    | .ok none => ([], .returned 1)
    | .ok (some c) =>
      let looped := run (groupBody env tuner c) (begun doc gen) (groupsOf c answers)
      (looped.1.flatten,
        match looped.2 with
        | .exit (.threw t) => if t.caught then .returned 0 else .escaped t
        | _ => .returned 0)

end Tune

/-! ## Where a run is left

From the inside out: what escapes from an iteration, from a run of the runner, and from starting its
blocks, each said about the answers alone. -/

/-- What escapes from starting the blocks is no runtime error. -/
theorem TaskMonitor.startFrom_escaped {env : TaskEnv} {root : Json} {blocks : List Json} {n : Nat}
    {f : JsonFault} (h : (startFrom env root blocks n).2 = .escaped f) : ¬ JsonPath.Runtime f := by
  induction blocks generalizing n with
  | nil => cases h
  | cons block blocks ih =>
    rw [startFrom] at h
    split at h
    · cases h
    · next f' hne _ =>
      obtain rfl := Ending.escaped.inj h
      rintro ⟨what, rfl⟩
      exact hne what rfl
    · split at h
      · cases h
      · exact ih h

/-- `start` catches every `runtime_error` itself. -/
theorem TaskMonitor.start_escaped {env : TaskEnv} {root : Json} {f : JsonFault}
    (h : (start env root).2 = .escaped f) : ¬ JsonPath.Runtime f := by
  have hblocks : (startBlocks env root).2 = .escaped f := h
  unfold startBlocks at hblocks
  split at hblocks
  · cases hblocks
  · next f' hne _ =>
    obtain rfl := Ending.escaped.inj hblocks
    rintro ⟨what, rfl⟩
    exact hne what rfl
  · exact startFrom_escaped hblocks

namespace MachineRunner

open JsonPath
open MachineTuner (Escapes escapes_error not_escapes_ok)
open Thrown (ofFault caught caught_ofFault)

/-- Reading a member as a text throws runtime errors only. -/
theorem not_uncaught_getAsString (text : ℚ → Str) (v : Json) (key : Str) :
    ¬ Uncaught (getAsString text v key) := by
  rw [getAsString, uncaught_bind]
  rintro (h | ⟨o, -, h⟩)
  · exact not_uncaught_getObj v h
  · exact not_uncaught_ok _ h

/-- Comparing members with those of the results throws runtime errors only. -/
theorem not_uncaught_checkFrom (text : ℚ → Str) (results : Json) (o : Object) :
    ¬ Uncaught (checkFrom text results o) := by
  induction o with
  | nil => exact not_uncaught_ok _
  | cons p o ih =>
    obtain ⟨k, v⟩ := p
    cases v with
    | real q =>
      rw [checkFrom, uncaught_bind]
      rintro (h | ⟨rv, -, h⟩)
      · exact not_uncaught_getDouble _ _ h
      · split at h
        · exact not_uncaught_ok _ h
        · exact ih h
    | _ =>
      rw [checkFrom, uncaught_bind]
      · rintro (h | ⟨rv, -, h⟩)
        · exact not_uncaught_getAsString _ _ _ h
        · split at h
          · exact not_uncaught_ok _ h
          · exact ih h
      · simp

/-- Checking the results throws runtime errors only. -/
theorem not_uncaught_check (text : ℚ → Str) (success results : Json) :
    ¬ Uncaught (check text success results) := by
  unfold check
  split
  · exact not_uncaught_ok _
  · rw [uncaught_bind]
    rintro (h | ⟨o, -, h⟩)
    · exact not_uncaught_getObj _ h
    · exact not_uncaught_checkFrom text results o h

variable {env : RunnerEnv} {r success : Json}

/-- What the evaluation of the results throws is a `runtime_error`. -/
theorem evaluate_left {t : Tally} {results : Json} {x : RunnerExit}
    (h : evaluate env success t results = .exit (.left x)) :
    x = .threw ∧ ∃ what, evaluateThrows env success results = some (.runtimeError what) := by
  have hescape : ∀ {f : JsonFault}, Runtime f → escape f = .left x →
      x = .threw ∧ ∃ what, some (ofFault f) = some (Thrown.runtimeError what) := by
    rintro f ⟨what, rfl⟩ hx
    exact ⟨(LoopExit.left.inj hx).symm, what, rfl⟩
  have hfailed : failed env t ≠ .exit (.left x) := by
    simp only [failed]
    split <;> simp
  unfold evaluate at h
  unfold evaluateThrows
  split at h
  · exact absurd h hfailed
  · next hnull =>
    rw [if_neg hnull]
    cases hcheck : check env.text success results with
    | error f =>
      rw [hcheck] at h
      exact hescape (runtime_of_error (not_uncaught_check _ _ _) hcheck) (Flow.exit.inj h)
    | ok bad =>
      rw [hcheck] at h
      cases bad with
      | true => exact absurd h hfailed
      | false =>
        cases helapsed : JsonObject.getInt results "elapsed".toList (-1) with
        | error f =>
          rw [helapsed] at h
          exact hescape (runtime_of_error (not_uncaught_getInt _ _ _) helapsed) (Flow.exit.inj h)
        | ok elapsed =>
          rw [helapsed] at h
          cases h

/-- An iteration that throws something that is not caught: the wiring of the vent strays, or a
message is of another type. -/
def TurnHazard (env : RunnerEnv) (r : Json) (e : Turn) : Prop :=
  e.stop = false ∧
    (TaskMonitor.StrayVent r ∨
      ((TaskMonitor.doVent (monitor env e.run) r).2 = .returned true ∧ e.interrupted = false ∧
        e.reply = .garbage ∧ e.wrongType = true))

/-- The runner goes on, breaks off, returns or throws a `runtime_error`. -/
def Fine : LoopExit × Option Thrown → Prop
  | (.broke _, _) => True
  | (.left x, why) => ¬ Escapes (answered x why)

theorem fine_threw {t : Thrown} : Fine (.left .threw, some t) ↔ t.caught = true := by
  rw [Fine, answered, escapes_error, Bool.not_eq_false]
  rfl

/-- An iteration is left by what is not caught exactly where its hazards are. -/
theorem turn_exit_iff (t : Tally) (e : Turn) :
    (∀ y, (tagged (turnBody env r success) (throws env r success) t e).2 = .exit y → Fine y) ↔
      ¬ TurnHazard env r e := by
  rw [tagged_exit_iff]
  -- in the order of the loop: the condition, the vent, the interrupt, the message
  simp only [turnBody, body, TurnHazard]
  by_cases hstop : e.stop = true
  · simp [hstop, Fine]
  · rw [if_neg hstop]
    have hgo : e.stop = false := by simpa using hstop
    simp only [iterate, throws, hgo, true_and,
      ← TaskMonitor.doVent_uncaught_iff (monitor env e.run)]
    -- whatever escapes from the vent leaves the runner, and main takes it if it can
    cases hvent : (TaskMonitor.doVent (monitor env e.run) r).2 with
    | escaped f =>
      have hfine : ∀ x, escape f = x → (Fine (x, some (ofFault f)) ↔ Runtime f) := by
        rintro x rfl
        rw [← caught_ofFault]
        cases f with
        | undefined => simp [escape, Fine, answered, escapes_error]
        | _ => exact fine_threw
      simpa using hfine _ rfl
    | returned ok =>
      cases ok with
      | false => simp [Fine, answered, not_escapes_ok]
      | true =>
        simp only [reduceCtorEq, false_and, exists_false, false_or, true_and]
        by_cases hint : e.interrupted = true
        · simp [hint, Fine]
        · rw [if_neg hint]
          have hnot : e.interrupted = false := by simpa using hint
          simp only [hnot, true_and, unpackThrows]
          cases hreply : e.reply with
          | failed => simp [Received.unpack, fine_threw, caught]
          | garbage =>
            cases hwrong : e.wrongType with
            | false => simp [Received.unpack, fine_threw, caught]
            | true => simp [Received.unpack, fine_threw, caught]
          | ok text =>
            simp only [Received.unpack, reduceCtorEq, false_and, not_false_eq_true, iff_true]
            intro x hx
            cases x with
            | broke t' => trivial
            | left x =>
              obtain ⟨rfl, what, hthrows⟩ := evaluate_left hx
              rw [hthrows]
              exact fine_threw.mpr rfl

/-- The iterations of an attempt. -/
def turnsOf (iterations : Int) (a : Attempt) : List Turn :=
  (List.range iterations.toNat).map a.turns

theorem answered_finish (killSent : Bool) (iterations : Int) (pids : List Nat) (t : Tally) :
    ∃ b, answered (finish killSent iterations pids t).2 none = .ok b := by
  cases killSent with
  | true => exact ⟨_, rfl⟩
  | false => exact ⟨_, rfl⟩

/-- Nothing escapes from the loop exactly if no iteration it comes to is a hazard. -/
theorem ventStarted_escapes_iff (killSent : Bool) (iterations : Int) (a : Attempt)
    (pids : List Nat) :
    ¬ Escapes (ventStarted env r success killSent iterations a.turns pids).2 ↔
      AtEvery (turnBody env r success) init (turnsOf iterations a)
        fun _ e => ¬ TurnHazard env r e := by
  rw [← atEvery_tagged (throws env r success), ← atEvery_congr turn_exit_iff,
    ← run_exit_iff_atEvery]
  simp only [ventStarted]
  have hturns : (List.range iterations.toNat).map a.turns = turnsOf iterations a := rfl
  rw [hturns]
  rcases run (tagged (turnBody env r success) (throws env r success)) init
    (turnsOf iterations a) with ⟨outs, t | ⟨x, why⟩⟩
  -- behind the loop the runner only cleans up and answers
  · obtain ⟨b, hb⟩ := answered_finish killSent iterations pids t
    simp [hb, not_escapes_ok]
  · cases x with
    | broke t =>
      obtain ⟨b, hb⟩ := answered_finish killSent iterations pids t
      simp [hb, not_escapes_ok, Fine]
    | left x => simp [Fine]

/-- An attempt whose run throws something that is not caught: the results socket is not connected,
the machine in the file is not started, or an iteration is a hazard. -/
inductive AttemptHazard (env : RunnerEnv) (success : Json) (iterations : Int) (a : Attempt) : Prop
    where
  | connect {r : Json} (file : a.file = .parsed r) (fails : a.connects = false)
  | start {r : Json} (file : a.file = .parsed r) (connects : a.connects = true)
      (bound : a.bound = true)
      (fails : (TaskMonitor.start (monitor env a.startRun) r).2 ≠ .returned true)
  | turn {r : Json} (file : a.file = .parsed r) (connects : a.connects = true)
      (bound : a.bound = true)
      (started : (TaskMonitor.start (monitor env a.startRun) r).2 = .returned true)
      (hazard : ¬ AtEvery (turnBody env r success) init (turnsOf iterations a)
        fun _ e => ¬ TurnHazard env r e)

/-- **One run.** Something escapes exactly at a hazard. -/
theorem attempt_hazard_iff (env : RunnerEnv) (success : Json) (iterations : Int) (a : Attempt) :
    Escapes (attempt env a success iterations).2 ↔ AttemptHazard env success iterations a := by
  unfold attempt
  cases hfile : a.file with
  | failed left =>
    refine iff_of_false (not_escapes_ok _) fun hazard => ?_
    cases hazard with
    | connect file | start file | turn file => rw [hfile] at file; cases file
  | parsed r =>
    -- a hazard speaks of the configuration that was parsed
    have hsame : ∀ {r'}, a.file = .parsed r' → r' = r := by
      intro r' file
      rw [hfile] at file
      exact (ReadJson.parsed.inj file).symm
    by_cases hconnects : a.connects = true
    · by_cases hbound : a.bound = true
      · simp only [hconnects, hbound, if_true]
        cases hstart : (TaskMonitor.start (monitor env a.startRun) r).2 with
        | escaped f =>
          have hf : (ofFault f).caught = false := by
            rw [← Bool.not_eq_true, caught_ofFault]
            exact TaskMonitor.start_escaped hstart
          exact iff_of_true (escapes_error.mpr hf)
            (.start hfile hconnects hbound (by simp [hstart]))
        | returned ok =>
          cases ok with
          | false =>
            exact iff_of_true (escapes_error.mpr rfl)
              (.start hfile hconnects hbound (by simp [hstart]))
          | true =>
            simp only
            -- with the vent started it is the iterations that decide
            rw [← not_iff_not, ventStarted_escapes_iff]
            constructor
            · intro hturns hazard
              cases hazard with
              | connect _ fails => rw [hconnects] at fails; cases fails
              | start file _ _ fails =>
                obtain rfl := hsame file
                exact fails hstart
              | turn file _ _ _ hazard =>
                obtain rfl := hsame file
                exact hazard hturns
            · intro hno
              by_contra hturns
              exact hno (.turn hfile hconnects hbound hstart hturns)
      · simp only [hconnects, if_true]
        rw [if_neg hbound]
        refine iff_of_false (not_escapes_ok _) fun hazard => ?_
        cases hazard with
        | connect _ fails => rw [hconnects] at fails; cases fails
        | start _ _ bound | turn _ _ bound => exact hbound bound
    · simp only [if_neg hconnects]
      exact iff_of_true (escapes_error.mpr rfl) (.connect hfile (by simpa using hconnects))

/-! ## The runner without what it throws

With what is thrown forgotten, the runner here is that of `MachineRunner`. -/

/-- The exit says of what was thrown what the runner's exit says. -/
def Agrees : LoopExit × Option Thrown → Prop
  | (.broke _, _) => True
  | (.left x, why) => forget (answered x why) = x

/-- An iteration ends as that of the runner which does not say what it throws. -/
theorem turn_agrees (t : Tally) (e : Turn) :
    ∀ y, (tagged (turnBody env r success) (throws env r success) t e).2 = .exit y → Agrees y := by
  rw [tagged_exit_iff]
  simp only [turnBody, body]
  split
  · intro x hx
    obtain rfl := Flow.exit.inj hx
    trivial
  -- the same cases on both sides: each exit says what was thrown
  · simp only [iterate, throws]
    cases (TaskMonitor.doVent (monitor env e.run) r).2 with
    | escaped f =>
      intro x hx
      obtain rfl := Flow.exit.inj hx
      cases f <;> rfl
    | returned ok =>
      cases ok with
      | false =>
        intro x hx
        obtain rfl := Flow.exit.inj hx
        rfl
      | true =>
        simp only
        split
        · intro x hx
          obtain rfl := Flow.exit.inj hx
          trivial
        · unfold unpackThrows
          cases e.reply with
          | failed =>
            intro x hx
            obtain rfl := Flow.exit.inj hx
            rfl
          | garbage =>
            intro x hx
            obtain rfl := Flow.exit.inj hx
            cases e.wrongType <;> rfl
          | ok text =>
            simp only [Received.unpack]
            intro x hx
            cases x with
            | broke t' => trivial
            | left x =>
              obtain ⟨rfl, what, hthrows⟩ := evaluate_left hx
              rw [hthrows]
              rfl

/-- Forgetting what is thrown leaves the end as it was. -/
theorem forget_finish (killSent : Bool) (iterations : Int) (pids : List Nat) (t : Tally) :
    forget (answered (finish killSent iterations pids t).2 none) =
      (finish killSent iterations pids t).2 := by
  cases killSent with
  | true => rfl
  | false => rfl

/-- The whole run agrees with that of the runner which does not say what it throws. -/
theorem ventStarted_forget (killSent : Bool) (iterations : Int) (es : Nat → Turn)
    (pids : List Nat) :
    runStarted env r success killSent iterations (fun i => (es i).toIteration) pids =
      ((ventStarted env r success killSent iterations es pids).1,
        forget (ventStarted env r success killSent iterations es pids).2) := by
  have hagrees : ∀ y, (run (tagged (turnBody env r success) (throws env r success)) init
      ((List.range iterations.toNat).map es)).2 = .exit y → Agrees y :=
    (run_exit_iff_atEvery Agrees init _).mpr fun pre e _ outs t _ => turn_agrees t e
  have hrun : run (body env r success) init
      ((List.range iterations.toNat).map fun i => (es i).toIteration) =
        run (turnBody env r success) init ((List.range iterations.toNat).map es) := by
    have hmap : run (turnBody env r success) init ((List.range iterations.toNat).map es) =
        run (body env r success) init (((List.range iterations.toNat).map es).map
          Turn.toIteration) := run_map Turn.toIteration init _
    rw [List.map_map] at hmap
    exact hmap.symm
  simp only [runStarted, ventStarted, hrun]
  -- the two runs end the same way, and the tag at an exit says what the exit says
  rcases run_tagged (turnBody env r success) (throws env r success) init
      ((List.range iterations.toNat).map es) with
    ⟨outs, t, hplain, htagged⟩ | ⟨outs, x, why, hplain, htagged⟩
  · rw [hplain, htagged]
    simp only [forget_finish]
  · rw [hplain, htagged]
    rw [htagged] at hagrees
    have hxwhy := hagrees (x, why) rfl
    cases x with
    | broke t => simp only [forget_finish]
    | left x => exact congrArg (Prod.mk outs.flatten) hxwhy.symm

/-- **Refinement.** Behind the results socket an attempt does what `runOne` does. -/
theorem attempt_forget (env : RunnerEnv) {a : Attempt} (h : a.connects = true) (success : Json)
    (iterations : Int) :
    runOne env a.file a.bound a.startRun success a.killSent iterations
        (fun i => (a.turns i).toIteration) =
      ((attempt env a success iterations).1, forget (attempt env a success iterations).2) := by
  unfold runOne attempt
  cases a.file with
  | failed left => rfl
  | parsed r =>
    simp only [h, if_true]
    cases a.bound with
    | false => rfl
    | true =>
      simp only [if_true]
      cases (TaskMonitor.start (monitor env a.startRun) r).2 with
      | escaped f => cases f <;> rfl
      | returned ok =>
        cases ok with
        | false => rfl
        | true => simp only [ventStarted_forget]

end MachineRunner

/-! ## What the program reports

A mutation, a group and the whole program let something escape exactly at their hazards. The loops
are handled by the library's rule for exits. -/

namespace Tune

open MachineTuner (Escapes escapes_error not_escapes_ok)

variable {γ : Type} {env : TuneEnv γ}

/-- Settings are read from an object, and the number of mutations is not negative. -/
theorem settings_obj {tuneconfig : Json} {c : Settings}
    (h : settings tuneconfig = .ok (some c)) :
    ∃ members, tuneconfig = .obj members ∧
      intAt members "mutations".toList (-1) = c.mutations ∧ 0 ≤ c.mutations := by
  obtain ⟨iterations, hiterations, h⟩ := bind_eq_ok.mp h
  obtain ⟨members, rfl⟩ : ∃ members, tuneconfig = .obj members := by
    cases tuneconfig with
    | obj members => exact ⟨members, rfl⟩
    | _ => cases hiterations
  refine ⟨members, rfl, ?_⟩
  split at h
  · cases h
  · obtain ⟨mutations, hmutations, h⟩ := bind_eq_ok.mp h
    split at h
    · cases h
    · next hneg =>
      obtain ⟨groups, -, h⟩ := bind_eq_ok.mp h
      split at h
      · cases h
      · obtain ⟨success, -, h⟩ := bind_eq_ok.mp h
        obtain rfl := Option.some.inj (Except.ok.inj h)
        rw [getInt_obj] at hmutations
        exact ⟨Except.ok.inj hmutations, not_lt.mp hneg⟩

/-- The loop goes on, breaks off or throws what the handler takes. -/
def Reported {σ : Type} : Broken σ → Prop
  | .broke _ => True
  | .threw t => t.caught = true

/-- A mutation that is not begun, or whose targets are harmless one after the other and whose run,
if there is one, is no hazard. -/
def SafeMutation (env : TuneEnv γ) (members : Object) (c : Settings) (group : Int) (s : Tuning γ)
    (e : Int × Attempt) : Prop :=
  e.2.stop = true ∨
    (AtEvery (MachineTuner.body env.toTunerEnv group c.mutations e.1) (MachineTuner.begun s) members
        (MachineTuner.Harmless group) ∧
      ∀ s', MachineTuner.tune env.toTunerEnv (.obj members) group e.1 s = .ok (true, s') →
        ¬ MachineRunner.AttemptHazard (runnerEnv env s'.failonerror) c.success c.iterations e.2)

def SafeGroup (env : TuneEnv γ) (members : Object) (c : Settings) (s : Tuning γ)
    (e : Int × GroupAnswers) : Prop :=
  e.2.stop = true ∨
    AtEvery (mutationBody env (.obj members) c e.1) (reset s) (mutationsOf c e.2)
      (SafeMutation env members c e.1)

/-- A mutation lets something escape exactly where it is not safe. -/
theorem mutation_exit_iff {members : Object} {c : Settings}
    (hmutations : intAt members "mutations".toList (-1) = c.mutations) (hpos : 0 ≤ c.mutations)
    (group : Int) (s : Tuning γ) (e : Int × Attempt) :
    (∀ x, (mutationBody env (.obj members) c group s e).2 = .exit x → Reported x) ↔
      SafeMutation env members c group s e := by
  -- a mutation is left by what `tune` throws, or by what the run throws if there is one
  have htune := MachineTuner.tune_escapes_iff env.toTunerEnv
    (hpos.trans_eq hmutations.symm) group e.1 s
  rw [hmutations] at htune
  unfold SafeMutation mutationBody
  rw [← htune]
  by_cases hstop : e.2.stop = true
  · simp [hstop, Reported]
  · rw [if_neg hstop, or_iff_right hstop]
    cases MachineTuner.tune env.toTunerEnv (.obj members) group e.1 s with
    | error t =>
      rw [escapes_error, Bool.not_eq_false]
      simp [Reported]
    | ok result =>
      obtain ⟨more, s'⟩ := result
      cases more with
      | false => simp [Reported, not_escapes_ok]
      | true =>
        simp only [not_escapes_ok, not_false_eq_true, true_and, Except.ok.injEq, Prod.mk.injEq,
          forall_eq', ← MachineRunner.attempt_hazard_iff]
        cases (MachineRunner.attempt (runnerEnv env s'.failonerror) e.2 c.success
            c.iterations).2 with
        | error t =>
          rw [escapes_error, Bool.not_eq_false]
          simp [Reported]
        | ok ok =>
          refine iff_of_true ?_ (not_escapes_ok _)
          intro x hx
          simp only at hx
          split at hx
          · obtain rfl := Flow.exit.inj hx
            trivial
          · cases hx

/-- A group lets something escape exactly where it is not safe. -/
theorem group_exit_iff {members : Object} {c : Settings}
    (hmutations : intAt members "mutations".toList (-1) = c.mutations) (hpos : 0 ≤ c.mutations)
    (s : Tuning γ) (e : Int × GroupAnswers) :
    (∀ x, (groupBody env (.obj members) c s e).2 = .exit x → Reported x) ↔
      SafeGroup env members c s e := by
  -- counting throws nothing, and the header is only written
  obtain ⟨n, hcount⟩ := MachineTuner.varCount_ok members e.1
  unfold SafeGroup groupBody
  rw [← atEvery_congr (mutation_exit_iff hmutations hpos e.1), ← run_exit_iff_atEvery]
  by_cases hstop : e.2.stop = true
  · simp [hstop, Reported]
  · rw [if_neg hstop, or_iff_right hstop, hcount]
    simp only
    cases (run (mutationBody env (.obj members) c e.1) (reset s) (mutationsOf c e.2)).2 with
    | next s' => simp
    | exit x =>
      cases x with
      | broke s' => simp [Reported]
      | threw t => simp [Reported]

/-- **Reported errors.** For a tuner configuration that passes the checks, no exception escapes
from `main` exactly if every group, every mutation and every target that it comes to is safe. -/
theorem errors_reported_iff (env : TuneEnv γ) (gen : γ) (config : Json) {tuneconfig : Json}
    {c : Settings} (h : settings tuneconfig = .ok (some c)) (answers : Nat → GroupAnswers) :
    (∀ t, (main env gen (.parsed config) (.parsed tuneconfig) answers).2 ≠ .escaped t) ↔
      ∃ members, tuneconfig = .obj members ∧
        AtEvery (groupBody env tuneconfig c) (begun config gen) (groupsOf c answers)
          (SafeGroup env members c) := by
  -- the checks have found an object, whose members are the targets
  obtain ⟨members, rfl, hmutations, hpos⟩ := settings_obj h
  simp only [Json.obj.injEq, exists_eq_left']
  rw [← atEvery_congr (group_exit_iff hmutations hpos), ← run_exit_iff_atEvery]
  simp only [main, h]
  cases (run (groupBody env (.obj members) c) (begun config gen) (groupsOf c answers)).2 with
  | next s' => simp
  | exit x =>
    cases x with
    | broke s' => simp [Reported]
    | threw t =>
      cases ht : t.caught with
      | true => simp [Reported, ht]
      | false => simp [Reported, ht]

def sampleEnv : TuneEnv Unit :=
  { toTunerEnv := MachineTuner.exactEnv
    real := fun _ => []
    text := fun _ => []
    control := 7000 }

/-- Every attempt runs the small machine, which answers. -/
def sampleAttempt : Attempt :=
  { stop := false
    file := .parsed MachineRunner.smallMachine
    connects := true
    bound := true
    startRun := fun n => n + 1
    killSent := true
    turns := fun i => { MachineRunner.answeredTurn i with wrongType := false } }

def sampleAnswers : Nat → GroupAnswers := fun _ =>
  { stop := false
    attempts := fun _ => sampleAttempt }

def sampleTuner (targets : Object) : Json :=
  .obj ([("iterations".toList, .int 2), ("mutations".toList, .int 1),
    ("groups".toList, .int 1)] ++ targets)

/-- The settings of the sample. -/
theorem settings_sampleTuner (targets : Object) (h : get targets "success".toList = .null) :
    settings (sampleTuner targets) = .ok (some ⟨2, 1, 1, .null⟩) := by
  have hiterations : JsonObject.getInt (sampleTuner targets) "iterations".toList (-1) = .ok 2 :=
    (getInt_obj ..).trans (congrArg Except.ok (int32_of_isInt (by decide)))
  have hmutations : JsonObject.getInt (sampleTuner targets) "mutations".toList (-1) = .ok 1 :=
    (getInt_obj ..).trans (congrArg Except.ok (int32_of_isInt (by decide)))
  have hgroups : JsonObject.getInt (sampleTuner targets) "groups".toList (-1) = .ok 1 :=
    (getInt_obj ..).trans (congrArg Except.ok (int32_of_isInt (by decide)))
  have hsuccess : getChild (sampleTuner targets) "success".toList = .ok .null :=
    congrArg Except.ok h
  simp only [settings, hiterations, hmutations, hgroups, hsuccess, bind, Except.bind]
  rfl

/-- The attempt throws nothing. -/
theorem not_hazard_sampleAttempt (failonerror : Bool) :
    ¬ MachineRunner.AttemptHazard (runnerEnv sampleEnv failonerror) .null 2 sampleAttempt := by
  obtain ⟨cmd, hstart⟩ := MachineRunner.start_smallMachine
  intro hazard
  cases hazard with
  | connect _ fails => cases fails
  | start file _ _ fails =>
    obtain rfl := ReadJson.parsed.inj file
    exact fails (congrArg Prod.snd hstart)
  | turn file _ _ _ hazard =>
    obtain rfl := ReadJson.parsed.inj file
    refine hazard fun pre e hpre _ _ _ hturn => ?_
    have hmem : e ∈ MachineRunner.turnsOf 2 sampleAttempt :=
      hpre.subset (List.mem_append_right _ (List.mem_singleton_self e))
    obtain ⟨i, -, rfl⟩ := List.mem_map.mp hmem
    rcases hturn.2 with hstray | ⟨-, -, hgarbage, -⟩
    · obtain ⟨f, hf, -⟩ := (TaskMonitor.doVent_uncaught_iff (MachineRunner.monitor
        MachineRunner.plainEnv (MachineRunner.answeredTurn i).run) _).mpr hstray
      rw [MachineRunner.vents_smallMachine i] at hf
      cases hf
    · cases hgarbage

/-- One group with two targets and one mutation, which is run. -/
theorem errors_reported_sample :
    settings (sampleTuner MachineTuner.sampleTargets) = .ok (some ⟨2, 1, 1, .null⟩) ∧
      ∀ t, (main sampleEnv () (.parsed (MachineTuner.machineWith 1 2))
        (.parsed (sampleTuner MachineTuner.sampleTargets)) sampleAnswers).2 ≠ .escaped t := by
  have hsettings := settings_sampleTuner MachineTuner.sampleTargets rfl
  refine ⟨hsettings, ?_⟩
  obtain ⟨members, hmembers, hmutations, hpos⟩ := settings_obj hsettings
  obtain rfl := Json.obj.inj hmembers
  have hgroups : groupsOf ⟨2, 1, 1, .null⟩ sampleAnswers = [(1, sampleAnswers 0)] := by
    have hone : (int32 (1 + 1) - 1).toNat = 1 := by decide +kernel
    rw [groupsOf, hone]
    rfl
  have hattempts : mutationsOf ⟨2, 1, 1, .null⟩ (sampleAnswers 0) = [(0, sampleAttempt)] := rfl
  refine (errors_reported_iff sampleEnv () _ hsettings sampleAnswers).mpr ⟨_, rfl, ?_⟩
  rw [hgroups, atEvery_singleton]
  refine Or.inr ?_
  rw [hattempts, atEvery_singleton]
  refine Or.inr ⟨?_, fun s' _ => not_hazard_sampleAttempt s'.failonerror⟩
  -- the two targets, in the configuration as it was read
  rw [← hmutations] at hpos ⊢
  refine (MachineTuner.tune_escapes_iff MachineTuner.exactEnv hpos 1 0 _).mp ?_
  have htargets : ∀ p ∈ [("iterations".toList, .int 2), ("mutations".toList, .int 1),
      ("groups".toList, .int 1)] ++ MachineTuner.sampleTargets,
      p ∈ MachineTuner.sampleTargets ∨ MachineTuner.isSelected 1 p = false := by
    intro p hp
    rcases List.mem_append.mp hp with hp | hp
    · simp only [List.mem_cons, List.not_mem_nil, or_false] at hp
      rcases hp with rfl | rfl | rfl <;> exact Or.inr rfl
    · exact Or.inl hp
  obtain ⟨b, s', htune⟩ := MachineTuner.tune_sample hpos htargets
    (s := reset (begun (MachineTuner.machineWith 1 2) ())) ⟨1, 2, rfl⟩ 0
  rw [htune]
  exact not_escapes_ok _

/-- A target of a type that is not known makes `tune` throw a pointer. -/
theorem unknownType_escapes :
    (main sampleEnv () (.parsed (.obj [])) (.parsed (sampleTuner [("a".toList,
      .obj [("enabled".toList, .bool true), ("group".toList, .int 1),
        ("type".toList, .str "float".toList)])])) sampleAnswers).2 =
      .escaped (.pointer "don't know the type".toList) := by
  decide +kernel

end Tune

end Skweltch
