import Skweltch.Lib.EventLoop
import Skweltch.Machine.TaskMonitor

/-!
# Skweltch — the machine server

The command loop of `machine/machine.cpp` as the body of an event loop. A message selects a
branch; `Answers` is what the outside answers on the way through it: whether the kill message can
be sent, what the database and the files hold, and what `fork` answers. What a failed parse leaves
in `r` is up to the parser.
-/

namespace Skweltch

open EventLoop

/-- `MachineMsg`. -/
structure MachineMsg where
  code : Int
  data : Str
deriving DecidableEq, Repr

namespace MachineMsg

/-- `MachineMsg()`. -/
def init : MachineMsg := { code := 0, data := [] }

def startMsg (config : Str) (_ : MachineMsg) : MachineMsg := { code := 1, data := config }

def startMachineIdMsg (id : Str) (_ : MachineMsg) : MachineMsg := { code := 2, data := id }

def ventMsg (m : MachineMsg) : MachineMsg := { m with code := 3 }

def stopMsg (m : MachineMsg) : MachineMsg := { m with code := 4 }

def quitMsg (m : MachineMsg) : MachineMsg := { m with code := 5 }

end MachineMsg

/-- The branch of the server's `switch`. -/
inductive MachineCommand where
  | loadFromDb (id : Str)
  | loadFromFile (config : Str)
  | vent
  | stop
  | quit
  | unknown
deriving DecidableEq, Repr

/-- What `JsonObject::read` does to its value. -/
inductive ReadJson where
  | parsed (v : Json)
  /-- it answers false and leaves this -/
  | failed (left : Json)
deriving Repr

/-- What the query for a machine comes to. -/
inductive DbAnswer where
  /-- the id is none, or the connection is gone -/
  | threw
  | missing
  | found (text : ReadJson)
deriving Repr

/-- What the outside answers while a command is carried out. -/
structure Answers where
  killSent : Bool
  db : Str → DbAnswer
  file : Str → ReadJson
  run : Nat → Nat

/-- One turn of the command loop. -/
inductive ServerEvent where
  | interrupted
  /-- what was received is no `MachineMsg` -/
  | garbage
  | command (msg : MachineMsg) (ans : Answers)

inductive ServerMode where
  | idle
  | running
deriving DecidableEq, Repr

structure ServerState where
  state : ServerMode
  r : Json
  pids : List Nat
deriving Repr

/-- What the server does to the processes. -/
inductive ServerAct where
  /-- the kill message goes out on the control socket -/
  | kill
  | waitFinish (pids : List Nat)
  /-- `mon.start` on a configuration: the processes and how it ends -/
  | start (config : Json) (tasks : List Task) (ending : Ending)
  /-- `mon.doVent` on a configuration -/
  | doVent (config : Json) (tasks : List Task)
deriving Repr

inductive ServerExit where
  | returned (code : Int)
  | undefined
deriving DecidableEq, Repr

namespace Server

def init : ServerState := { state := .idle, r := .null, pids := [] }

/-- The `switch` over a message's code. -/
def branch (msg : MachineMsg) : MachineCommand :=
  if msg.code = 1 then .loadFromDb msg.data
  else if msg.code = 2 then .loadFromFile msg.data
  else if msg.code = 3 then .vent
  else if msg.code = 4 then .stop
  else if msg.code = 5 then .quit
  else .unknown

/-- How an exception that reaches `main` ends the server. -/
def caught : JsonFault → ServerExit
  | .undefined => .undefined
  | _ => .returned 0

inductive Loaded where
  | threw
  /-- the text does not parse: `continue` -/
  | skip (left : Json)
  | go (config : Json)
deriving Repr

def ofRead : ReadJson → Loaded
  | .parsed v => .go v
  | .failed left => .skip left

/-- A machine that is not found is only logged: `r` still holds what it held. -/
def loadDb (r : Json) : DbAnswer → Loaded
  | .threw => .threw
  | .missing => .go r
  | .found text => ofRead text

variable (real : ℚ → Str) (control : Int)

def monitor (ans : Answers) : TaskEnv := { real := real, control := control, run := ans.run }

def startLoaded (s : ServerState) (ans : Answers) (done : List ServerAct) (config : Json) :
    List ServerAct × Flow ServerState ServerExit :=
  let started := TaskMonitor.start (monitor real control ans) config
  let acts := done ++ [.start config started.1 started.2]
  match started.2 with
  | .returned true =>
    (acts, .next
      { state := .running
        r := config
        pids := s.pids ++ started.1.map Task.pid })
  | .returned false => (acts, .exit (.returned 1))
  | .escaped f => (acts, .exit (caught f))

/-- The rest of a start command once nothing is running any more. -/
def load (s : ServerState) (ans : Answers) (done : List ServerAct) :
    Loaded → List ServerAct × Flow ServerState ServerExit
  | .threw => (done, .exit (.returned 0))
  | .skip left => (done, .next { s with r := left })
  | .go config => startLoaded real control s ans done config

/-- A start command: a running machine is stopped first. -/
def startCommand (s : ServerState) (ans : Answers) (loaded : Loaded) :
    List ServerAct × Flow ServerState ServerExit :=
  if s.state = .running then
    if ans.killSent then
      load real control { s with pids := [] } ans [.kill, .waitFinish s.pids] loaded
    else ([], .exit (.returned 1))
  else load real control s ans [] loaded

def ventCommand (s : ServerState) (ans : Answers) : List ServerAct × Flow ServerState ServerExit :=
  if s.state = .running then
    let vented := TaskMonitor.doVent (monitor real control ans) s.r
    match vented.2 with
    | .returned true =>
      ([.doVent s.r vented.1, .waitFinish (vented.1.map Task.pid)], .next s)
    | .returned false => ([.doVent s.r vented.1], .exit (.returned 1))
    | .escaped f => ([.doVent s.r vented.1], .exit (caught f))
  else ([], .next s)

def stopCommand (s : ServerState) (ans : Answers) : List ServerAct × Flow ServerState ServerExit :=
  if s.state = .running then
    if ans.killSent then
      ([.kill, .waitFinish s.pids], .next { s with state := .idle, pids := [] })
    else ([], .exit (.returned 1))
  else ([], .next s)

def quitCommand (s : ServerState) (ans : Answers) : List ServerAct × Flow ServerState ServerExit :=
  if s.state = .running then
    if ans.killSent then ([.kill, .waitFinish s.pids], .exit (.returned 0))
    else ([], .exit (.returned 1))
  else ([], .exit (.returned 0))

def body : Body ServerState ServerEvent ServerAct ServerExit
  | _, .interrupted => ([], .exit (.returned 0))
  | _, .garbage => ([], .exit (.returned 0))
  | s, .command msg ans =>
    match branch msg with
    | .loadFromDb id => startCommand real control s ans (loadDb s.r (ans.db id))
    | .loadFromFile config => startCommand real control s ans (ofRead (ans.file config))
    | .vent => ventCommand real control s ans
    | .stop => stopCommand s ans
    | .quit => quitCommand s ans
    | .unknown => ([], .next s)

end Server

end Skweltch
