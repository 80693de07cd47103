import Skweltch.Machine.Server

/-!
# Skweltch — the command client and the server

`machine/machinecmd.cpp` turns its options into a `MachineMsg`; others build one with the
factories of `MachineMsg`. The server reads code 1 as an id in the database and code 2 as a file,
the factories and the client write code 1 for a file.
-/

namespace Skweltch

namespace Machinecmd

/-- The options the client was given. -/
structure Options where
  help : Bool
  cmd : Option Str
  jsonConfig : Option Str
  machineID : Option Str
deriving DecidableEq, Repr

/-- The message for a start command; with nothing to start, what was built so far. -/
def startMsg (vm : Options) (msg : MachineMsg) : MachineMsg :=
  match vm.jsonConfig, vm.machineID with
  | some config, _ => msg.startMsg config
  | none, some id => msg.startMsg id
  | none, none => msg

def message (vm : Options) : Option MachineMsg :=
  if vm.help then none
  else
    match vm.cmd with
    | none => none
    | some cmd =>
      if cmd = "start".toList then some (startMsg vm .init)
      else if cmd = "vent".toList then some (MachineMsg.init.ventMsg)
      else if cmd = "stop".toList then some (MachineMsg.init.stopMsg)
      else if cmd = "quit".toList then some (MachineMsg.init.quitMsg)
      else none

/-- The ways to send the server a command. -/
inductive Request where
  /-- `machinecmd start` with a configuration file, with or without an id -/
  | cmdConfig (config : Str) (machineID : Option Str)
  /-- `machinecmd start` with an id only -/
  | cmdMachineID (id : Str)
  | startMsg (config : Str)
  | startMachineIdMsg (id : Str)
  | cmdVent
  | cmdStop
  | cmdQuit
deriving DecidableEq, Repr

def bare (cmd : Str) : Options :=
  { help := false
    cmd := some cmd
    jsonConfig := none
    machineID := none }

namespace Request

def sent : Request → Option MachineMsg
  | .cmdConfig config id =>
    message { bare "start".toList with
      jsonConfig := some config
      machineID := id }
  | .cmdMachineID id => message { bare "start".toList with machineID := some id }
  | .startMsg config => some (MachineMsg.init.startMsg config)
  | .startMachineIdMsg id => some (MachineMsg.init.startMachineIdMsg id)
  | .cmdVent => message (bare "vent".toList)
  | .cmdStop => message (bare "stop".toList)
  | .cmdQuit => message (bare "quit".toList)

/-- What the sender wants the server to do. -/
def meant : Request → MachineCommand
  | .cmdConfig config _ => .loadFromFile config
  | .cmdMachineID id => .loadFromDb id
  | .startMsg config => .loadFromFile config
  | .startMachineIdMsg id => .loadFromDb id
  | .cmdVent => .vent
  | .cmdStop => .stop
  | .cmdQuit => .quit

/-- The server takes the branch the sender means. -/
def Agrees (q : Request) : Prop := ∃ msg, q.sent = some msg ∧ Server.branch msg = q.meant

/-- A message that is sent agrees with the command if it is the one that was meant. -/
theorem agrees_of_eq {q : Request} {msg : MachineMsg} (hsent : q.sent = some msg) :
    q.Agrees ↔ Server.branch msg = q.meant := by
  refine ⟨fun h => ?_, fun h => ⟨msg, hsent, h⟩⟩
  obtain ⟨msg', hsent', hbranch⟩ := h
  obtain rfl : msg = msg' := Option.some.inj (hsent.symm.trans hsent')
  exact hbranch

end Request

/-- **Client and server agree** on an id given to the client, and on `vent`, `stop` and `quit`. They
do not agree on any configuration file, nor on an id sent with `startMachineIdMsg`. -/
theorem agrees_iff (q : Request) :
    q.Agrees ↔ (∃ id, q = .cmdMachineID id) ∨ q = .cmdVent ∨ q = .cmdStop ∨ q = .cmdQuit := by
  cases q with
  | cmdConfig config id =>
    rw [Request.agrees_of_eq (show _ = some (MachineMsg.init.startMsg config) from rfl)]
    simp [Server.branch, MachineMsg.startMsg, Request.meant]
  | cmdMachineID id =>
    rw [Request.agrees_of_eq (show _ = some (MachineMsg.init.startMsg id) from rfl)]
    simp [Server.branch, MachineMsg.startMsg, Request.meant]
  | startMsg config =>
    rw [Request.agrees_of_eq (show _ = some (MachineMsg.init.startMsg config) from rfl)]
    simp [Server.branch, MachineMsg.startMsg, Request.meant]
  | startMachineIdMsg id =>
    rw [Request.agrees_of_eq (show _ = some (MachineMsg.init.startMachineIdMsg id) from rfl)]
    simp [Server.branch, MachineMsg.startMachineIdMsg, Request.meant]
  | cmdVent =>
    rw [Request.agrees_of_eq (show _ = some MachineMsg.init.ventMsg from rfl)]
    simp [Server.branch, MachineMsg.ventMsg, Request.meant]
  | cmdStop =>
    rw [Request.agrees_of_eq (show _ = some MachineMsg.init.stopMsg from rfl)]
    simp [Server.branch, MachineMsg.stopMsg, Request.meant]
  | cmdQuit =>
    rw [Request.agrees_of_eq (show _ = some MachineMsg.init.quitMsg from rfl)]
    simp [Server.branch, MachineMsg.quitMsg, Request.meant]

/-- A file is looked up in the database. -/
theorem config_not_agrees : ¬ ∀ q : Request, q.Agrees := by
  intro h
  obtain ⟨msg, hsent, hbranch⟩ := h (.cmdConfig "m.json".toList none)
  have hmsg : msg = { code := 1, data := "m.json".toList } := (Option.some.inj hsent).symm
  rw [hmsg] at hbranch
  exact absurd hbranch (by decide)

end Machinecmd

end Skweltch
