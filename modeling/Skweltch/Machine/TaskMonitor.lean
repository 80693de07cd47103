import Skweltch.Config.JsonWriter
import Skweltch.Machine.PipeBuilder

/-!
# Skweltch — the task monitor

`TaskMonitor` (`machine/TaskMonitor.cpp`) launches the processes of a machine. What it would
launch for a block is a list of shell commands; each is run by `ExeRunner::run`, which answers
with the pid of the process, or with zero when it cannot fork.
-/

namespace Skweltch

open Json JsonObject NumText

/-- A process that was launched: its pid and the command it was given. -/
structure Task where
  pid : Nat
  command : Str
deriving DecidableEq, Repr

/-- How a function of the monitor ends. -/
inductive Ending where
  | returned (b : Bool)
  /-- an exception escapes, or the fault is undefined -/
  | escaped (f : JsonFault)
deriving DecidableEq, Repr

/-- What the monitor has: the text of reals, the control port and what `ExeRunner::run` answers
for the `n`-th process of a call. -/
structure TaskEnv where
  real : ℚ → Str
  control : Int
  run : Nat → Nat

namespace TaskMonitor

variable (env : TaskEnv)

/-- Run the commands in order until one cannot be forked; `n` processes were launched before. -/
def runAll : List Str → Nat → List Task × Bool
  | [], _ => ([], true)
  | cmd :: cmds, n =>
    if env.run n = 0 then ([], false)
    else (⟨env.run n, cmd⟩ :: (runAll cmds (n + 1)).1, (runAll cmds (n + 1)).2)

/-- `exe 'pipes' 'config' name`. -/
def command (exe pipes config name : Str) : Str :=
  exe ++ " '".toList ++ pipes ++ "' '".toList ++ config ++ "' ".toList ++ name

/-- The name of one instance of a block. -/
def instanceName (name : Str) (i : Nat) : Str := name ++ '[' :: decText i ++ [']']

/-- Skip over a vent if there was one. -/
def isVent (root : Json) (name : Str) : Except JsonFault Bool := do
  let o ← root.getObj
  if has o "vent".toList then do
    let vent ← getString root "vent".toList
    .ok (vent = name)
  else .ok false

/-- `getChildAsString`. -/
def childText (v : Json) (key : Str) : Except JsonFault Str := do
  let child ← getChild v key
  .ok (write env.real child)

/-- The commands for one block, in the order they are run. -/
def commands (root block : Json) : Except JsonFault (List Str) := do
  let name ← JsonArray.getString block "name".toList
  if ← isVent root name then .ok []
  else do
    let count ← JsonArray.getInt block "count".toList
    if ← JsonArray.has block "exe".toList then do
      let exe ← JsonArray.getString block "exe".toList
      let pipes ← PipeBuilder.collect root block env.control
      let config ← childText env block "config".toList
      if count > 0 then
        .ok ((List.range count.toNat).map fun i =>
          command exe (write env.real pipes) config (instanceName name i))
      else .ok [command exe (write env.real pipes) config name]
    else .ok []

/-- The loop over the blocks, in its `try` block: the processes launched for each block. -/
def startFrom (root : Json) : List Json → Nat → List (List Task) × Ending
  | [], _ => ([], .returned true)
  | block :: blocks, n =>
    match commands env root block with
    | .error (.runtimeError _) => ([], .returned false)
    | .error f => ([], .escaped f)
    | .ok cmds =>
      match runAll env cmds n with
      | (tasks, false) => ([tasks], .returned false)
      | (tasks, true) =>
        (tasks :: (startFrom root blocks (n + tasks.length)).1,
          (startFrom root blocks (n + tasks.length)).2)

/-- `TaskMonitor::start`, with the processes of each block apart. -/
def startBlocks (root : Json) : List (List Task) × Ending :=
  match getArray root "blocks".toList with
  | .error (.runtimeError _) => ([], .returned false)
  | .error f => ([], .escaped f)
  | .ok blocks => startFrom env root blocks 0

/-- `TaskMonitor::start`: the processes it launches and how it ends. -/
def start (root : Json) : List Task × Ending :=
  ((startBlocks env root).1.flatten, (startBlocks env root).2)

def oneCommand (root block : Json) : Except JsonFault Str := do
  let pipes ← PipeBuilder.collect root block env.control
  let exe ← getString block "exe".toList
  let config ← childText env block "config".toList
  let name ← getString block "name".toList
  .ok (command exe (write env.real pipes) config name)

/-- `TaskMonitor::runOne`. -/
def runOne (root block : Json) : List Task × Ending :=
  match oneCommand env root block with
  | .error f => ([], .escaped f)
  | .ok cmd =>
    match runAll env [cmd] 0 with
    | (tasks, ok) => (tasks, .returned ok)

/-- `TaskMonitor::doBlock`. -/
def doBlock (root : Json) (block : Str) : List Task × Ending :=
  match findObj root (JsonNamePredicate.matches block) with
  | .error f => ([], .escaped f)
  | .ok b => runOne env root b

/-- `TaskMonitor::doVent`. -/
def doVent (root : Json) : List Task × Ending :=
  match getString root "vent".toList with
  | .error f => ([], .escaped f)
  | .ok vent => doBlock env root vent

end TaskMonitor

end Skweltch
