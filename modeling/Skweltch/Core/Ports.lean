import Skweltch.Config.Json

/-!
# Skweltch — ports

`Ports::join` and `Ports::bind` (`core/Ports.cpp`) attach a socket to the pipe of a name. What the
socket answers is given by `works`; the endpoints it is asked for are the outputs.
-/

namespace Skweltch

open NumText

/-- What a socket is asked for. -/
inductive SocketAct where
  | bind (endpoint : Str)
  | connect (endpoint : Str)
  /-- `setsockopt(ZMQ_LINGER, -1)` -/
  | linger
deriving DecidableEq, Repr

namespace Ports

def endpoint (node : Str) (port : Int) : Str :=
  "tcp://".toList ++ node ++ ":".toList ++ decText port

/-- Attach the socket, then set its linger option. -/
def attach (works : SocketAct → Bool) (act : SocketAct) : List SocketAct × Bool :=
  if works act then ([act, .linger], works .linger) else ([act], false)

/-- `Ports::join`: without a pipe of that name nothing is joined. -/
def join (works : SocketAct → Bool) (ports : Json) (name : Str) :
    Except JsonFault (List SocketAct × Bool) := do
  let pipe ← JsonObject.getChild ports name
  if pipe.isObj then do
    let port ← JsonObject.getInt pipe "port".toList (-1)
    let mode ← JsonObject.getString pipe "mode".toList
    if mode = "bind".toList then do
      let address ← JsonObject.getString pipe "address".toList
      .ok (attach works (.bind (endpoint address port)))
    else if mode = "connect".toList then do
      let node ← JsonObject.getString pipe "node".toList
      .ok (attach works (.connect (endpoint node port)))
    else .ok ([], false)
  else .ok ([], true)

end Ports

end Skweltch
