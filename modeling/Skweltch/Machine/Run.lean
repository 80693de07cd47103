import Skweltch.Machine.MachineRunner

/-!
# Skweltch — a single run

`main` of `machine/run.cpp` behind its options: start a machine, vent it once, wait for one
message and kill it.
-/

namespace Skweltch

/-- How `main` ends. -/
inductive RunExit where
  | returned (code : Int)
  | threw
  | undefined
deriving DecidableEq, Repr

/-- What the outside answers in a single run. -/
structure RunAnswers where
  file : ReadJson
  bound : Bool
  startRun : Nat → Nat
  ventRun : Nat → Nat
  /-- the message unpacks -/
  unpacks : Bool
  killSent : Bool

namespace Run

variable (real : ℚ → Str) (control : Int)

def monitor (run : Nat → Nat) : TaskEnv := { real := real, control := control, run := run }

def escape : JsonFault → RunExit
  | .undefined => .undefined
  | _ => .threw

def vent (ans : RunAnswers) (r : Json) (pids : List Nat) : List RunnerAct × RunExit :=
  let vented := TaskMonitor.doVent (monitor real control ans.ventRun) r
  match vented.2 with
  | .escaped f => ([.doVent vented.1], escape f)
  -- `return false`
  | .returned false => ([.doVent vented.1], .returned 0)
  | .returned true =>
    let acts : List RunnerAct := [.doVent vented.1, .waitFinish (vented.1.map Task.pid)]
    if ans.unpacks then
      if ans.killSent then (acts ++ [.kill, .waitFinish pids], .returned 0)
      else (acts, .returned 0)
    else (acts, .threw)

def main (ans : RunAnswers) : List RunnerAct × RunExit :=
  match ans.file with
  | .failed _ => ([], .returned 1)
  | .parsed r =>
    if ans.bound then
      let started := TaskMonitor.start (monitor real control ans.startRun) r
      match started.2 with
      | .returned true =>
        let rest := vent real control ans r (started.1.map Task.pid)
        (.start started.1 :: rest.1, rest.2)
      -- `throw new runtime_error`
      | .returned false => ([.start started.1], .threw)
      | .escaped f => ([.start started.1], escape f)
    else ([], .returned 0)

end Run

end Skweltch
