import Skweltch.Lib.EventLoop
import Skweltch.Machine.Server

/-!
# Skweltch — running a machine and checking its results

`MachineRunner::runOne` (`machine/MachineRunner.cpp`) starts a machine, vents it a number of times
and compares each results message with the success object. An `Iteration` is what the outside
answers in one turn of its loop. The pid file is left out.
-/

namespace Skweltch

open EventLoop FixedWidth Json JsonObject NumText

namespace JsonObject

/-- `getValueString`, and `getAsString` once the value is looked up. The text of a real is what
`lexical_cast` makes of it. -/
def asString (text : ℚ → Str) : Json → Str
  | .str s => s
  | .int n => decText (int32 n)
  | .bool b => if b then ['1'] else ['0']
  | .real q => text q
  | _ => ['?']

/-- `getAsString`. -/
def getAsString (text : ℚ → Str) (v : Json) (key : Str) : Except JsonFault Str := do
  let o ← v.getObj
  .ok (asString text (get o key))

end JsonObject

/-- The local variables of the loop in `runOne`. -/
structure Tally where
  fail : Int
  low : Int
  high : Int
  sum : Int
deriving DecidableEq, Repr

/-- What the outside answers in one iteration. -/
structure Iteration where
  /-- `s_interrupted` in the loop condition -/
  stop : Bool
  /-- what `fork` answers for the vent -/
  run : Nat → Nat
  /-- the results message, as `StringMsg` and `JsonObject::read` make of it -/
  reply : Received ReadJson
  /-- `*interrupted` behind `recv` -/
  interrupted : Bool

/-- What `runOne` does to the processes, and its report. -/
inductive RunnerAct where
  | start (tasks : List Task)
  | doVent (tasks : List Task)
  | waitFinish (pids : List Nat)
  | kill
  | write (iterations low high fail sum : Int)
deriving DecidableEq, Repr

inductive RunnerExit where
  | returned (b : Bool)
  /-- an exception escapes -/
  | threw
  | undefined
deriving DecidableEq, Repr

/-- How the loop is left before its end. -/
inductive LoopExit where
  | broke (t : Tally)
  | left (e : RunnerExit)
deriving DecidableEq, Repr

/-- The settings of a runner and of its task monitor. -/
structure RunnerEnv where
  real : ℚ → Str
  text : ℚ → Str
  control : Int
  failonerror : Bool

namespace MachineRunner

variable (env : RunnerEnv)

def monitor (run : Nat → Nat) : TaskEnv := { real := env.real, control := env.control, run := run }

/-- The comparison with the success object: whether the iteration is bad. -/
def checkFrom (text : ℚ → Str) (results : Json) : Object → Except JsonFault Bool
  | [] => .ok false
  | (k, .real v) :: rest => do
    let rv ← getDouble results k
    if |v - rv| > 5 / 1000 then .ok true else checkFrom text results rest
  | (k, v) :: rest => do
    let rv ← getAsString text results k
    if asString text v ≠ rv then .ok true else checkFrom text results rest

def check (text : ℚ → Str) (success results : Json) : Except JsonFault Bool :=
  if success.isNull then .ok false
  else do
    let o ← success.getObj
    checkFrom text results o

def init : Tally := { fail := 0, low := -1, high := -1, sum := 0 }

def failed (t : Tally) : Flow Tally LoopExit :=
  let t := { t with fail := int32 (t.fail + 1) }
  if env.failonerror then .exit (.broke t) else .next t

def passed (t : Tally) (elapsed : Int) : Tally :=
  { t with
    low := if t.low < 0 ∨ elapsed < t.low then elapsed else t.low
    high := if t.high < 0 ∨ elapsed > t.high then elapsed else t.high
    sum := int32 (t.sum + elapsed) }

def escape : JsonFault → LoopExit
  | .undefined => .left .undefined
  | _ => .left .threw

/-- What is done with the results, once they are decoded. -/
def evaluate (success : Json) (t : Tally) (results : Json) : Flow Tally LoopExit :=
  if results.isNull then failed env t
  else
    match check env.text success results with
    | .error f => .exit (escape f)
    | .ok true => failed env t
    | .ok false =>
      match getInt results "elapsed".toList (-1) with
      | .error f => .exit (escape f)
      | .ok elapsed => .next (passed t elapsed)

/-- What `results` holds behind `read`, whose answer is not looked at. -/
def readResults : ReadJson → Json
  | .parsed v => v
  | .failed left => left

def iterate (r success : Json) (t : Tally) (e : Iteration) :
    List RunnerAct × Flow Tally LoopExit :=
  let vented := TaskMonitor.doVent (monitor env e.run) r
  match vented.2 with
  | .escaped f => ([.doVent vented.1], .exit (escape f))
  | .returned false => ([.doVent vented.1], .exit (.left (.returned false)))
  | .returned true =>
    let acts : List RunnerAct := [.doVent vented.1, .waitFinish (vented.1.map Task.pid)]
    if e.interrupted then (acts, .exit (.broke t))
    else
      match e.reply.unpack with
      | none => (acts, .exit (.left .threw))
      | some text => (acts, evaluate env success t (readResults text))

def body (r success : Json) : Body Tally Iteration RunnerAct LoopExit
  | t, e => if e.stop then ([], .exit (.broke t)) else iterate env r success t e

/-- Behind the loop: kill the machine, wait for it and report. -/
def finish (killSent : Bool) (iterations : Int) (pids : List Nat) (t : Tally) :
    List RunnerAct × RunnerExit :=
  if killSent then
    ([.kill, .waitFinish pids, .write iterations t.low t.high t.fail t.sum],
      .returned (t.fail = 0))
  else ([], .returned false)

def runStarted (r success : Json) (killSent : Bool) (iterations : Int) (es : Nat → Iteration)
    (pids : List Nat) : List RunnerAct × RunnerExit :=
  let looped := run (body env r success) init ((List.range iterations.toNat).map es)
  let finished (t : Tally) :=
    (looped.1.flatten ++ (finish killSent iterations pids t).1, (finish killSent iterations pids t).2)
  match looped.2 with
  | .next t => finished t
  | .exit (.broke t) => finished t
  | .exit (.left e) => (looped.1.flatten, e)

/-- `MachineRunner::runOne`; `bound` is whether the control socket can be bound. -/
def runOne (file : ReadJson) (bound : Bool) (startRun : Nat → Nat) (success : Json)
    (killSent : Bool) (iterations : Int) (es : Nat → Iteration) : List RunnerAct × RunnerExit :=
  match file with
  | .failed _ => ([], .returned false)
  | .parsed r =>
    if bound then
      let started := TaskMonitor.start (monitor env startRun) r
      match started.2 with
      | .returned true =>
        let rest := runStarted env r success killSent iterations es (started.1.map Task.pid)
        (.start started.1 :: rest.1, rest.2)
      -- `throw new runtime_error`
      | .returned false => ([.start started.1], .threw)
      | .escaped .undefined => ([.start started.1], .undefined)
      | .escaped _ => ([.start started.1], .threw)
    else ([], .returned false)

end MachineRunner

end Skweltch
