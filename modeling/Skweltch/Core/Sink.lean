import Skweltch.Core.MsgTracker
import Skweltch.Lib.EventLoop
import Skweltch.Msg

/-!
# Skweltch — the sink loop

`Sink::process` (`core/Sink.cpp`) as the body of an event loop. A `SinkEvent` is what the
environment answers in one iteration: whether `shouldQuit` stops the loop, what `poll` returns or
that it throws, and what `recv` yields. The loop's own variables are the tracker and `retries`;
the calls it makes on its worker are the outputs. The elapsed milliseconds handed to `results`
are a clock reading and are left out, as is logging (`dump` only logs).
-/

namespace Skweltch

open EventLoop

/-- The calls `Sink::process` makes on its `ISinkWorker`. -/
inductive SinkCall where
  | first (id : Int)
  | process (id : Int) (data : List Str)
  | last (id : Int)
  | results
deriving DecidableEq, Repr

/-- What the environment answers in one iteration of the loop. -/
inductive SinkEvent where
  /-- `shouldQuit` is true in the loop condition -/
  | quit
  /-- `poll` throws -/
  | pollFailed
  /-- `poll` finds a message; `quit` is the answer of the `shouldQuit` after `recv` -/
  | msg (recv : Received SinkMsg) (quit : Bool)
  | control (recv : Received Int)
  | timeout
deriving DecidableEq, Repr

/-- The local variables of `Sink::process`. -/
structure SinkState where
  tracker : MsgTracker
  retries : Int
deriving DecidableEq, Repr

/-- How the loop is left. -/
inductive SinkExit where
  | returned (b : Bool)
  /-- an exception escapes -/
  | threw
  /-- the tracker writes outside its buckets -/
  | undefined
deriving DecidableEq, Repr

namespace Sink

def maxretries : Int := 5

def init : SinkState := { tracker := .init, retries := 0 }

/-- After a message has been dealt with: fetch the results when the tracker is complete. -/
def checkComplete (s : SinkState) (done : List SinkCall) :
    List SinkCall × Flow SinkState SinkExit :=
  if s.tracker.complete then (done ++ [.results], .next { s with tracker := s.tracker.reset })
  else (done, .next s)

/-- The `switch` over a message's code and the completion test after it. -/
def dispatch (s : SinkState) (m : SinkMsg) : List SinkCall × Flow SinkState SinkExit :=
  if m.code = 1 then
    checkComplete { s with tracker := s.tracker.setFirst m.id } [.first m.id]
  else if m.code = 2 then
    match s.tracker.track m.id with
    | some t => checkComplete { s with tracker := t } [.process m.id m.data]
    | none => ([.process m.id m.data], .exit .undefined)
  else if m.code = 3 then
    checkComplete { s with tracker := s.tracker.setLast m.id } [.last m.id]
  else ([], .exit (.returned false))

/-- The `Poller::NONE` branch. -/
def idle (s : SinkState) : List SinkCall × Flow SinkState SinkExit :=
  if s.retries > maxretries then ([.results], .next { s with tracker := s.tracker.reset })
  else ([], .next { s with retries := s.retries + 1 })

def body : Body SinkState SinkEvent SinkCall SinkExit
  | _, .quit => ([], .exit (.returned true))
  -- `recved` still has its initial value `Poller::NONE`
  | s, .pollFailed => idle s
  | s, .msg recv quit =>
    if quit then ([], .exit (.returned true))
    else
      match recv.unpack with
      | none => ([], .exit .threw)
      | some m => dispatch { s with retries := 0 } m
  | s, .control .failed => ([], .next s)
  | _, .control .garbage => ([], .exit .threw)
  | s, .control (.ok v) => if v = 0 then ([], .exit (.returned true)) else ([], .next s)
  | s, .timeout => idle s

/-- `Sink::process`: the calls of each iteration and how the run ends. -/
def process (es : List SinkEvent) : List (List SinkCall) × Flow SinkState SinkExit :=
  run body init es

def workerCalls (es : List SinkEvent) : List SinkCall := calls body init es

/-- A message that arrives with no interrupt pending. -/
abbrev deliver (m : SinkMsg) : SinkEvent := .msg (.ok m) false

/-! ## One iteration, by kind of message -/

theorem body_deliver (s : SinkState) (m : SinkMsg) :
    body s (deliver m) = dispatch { s with retries := 0 } m := rfl

theorem body_firstMsg (s : SinkState) (id : Int) :
    body s (deliver (.firstMsg id)) =
      checkComplete { tracker := s.tracker.setFirst id, retries := 0 } [.first id] := by
  rw [body_deliver, dispatch, if_pos (show (SinkMsg.firstMsg id).code = 1 from rfl)]
  rfl

/-- A data message is processed and tracked. -/
theorem body_dataMsg {s : SinkState} {id : Int} {t : MsgTracker}
    (h : s.tracker.track id = some t) (d : List Str) :
    body s (deliver (.dataMsg id d)) =
      checkComplete { tracker := t, retries := 0 } [.process id d] := by
  rw [body_deliver, dispatch,
    if_neg (show (SinkMsg.dataMsg id d).code ≠ 1 from (by decide : (2 : Int) ≠ 1)),
    if_pos (show (SinkMsg.dataMsg id d).code = 2 from rfl)]
  have h' : ({ s with retries := 0 } : SinkState).tracker.track (SinkMsg.dataMsg id d).id =
    some t := h
  rw [h']
  rfl

/-- A data message that the tracker has no bucket for is undefined. -/
theorem body_dataMsg_undefined {s : SinkState} {id : Int} (h : s.tracker.track id = none)
    (d : List Str) :
    body s (deliver (.dataMsg id d)) = ([.process id d], .exit .undefined) := by
  rw [body_deliver, dispatch,
    if_neg (show (SinkMsg.dataMsg id d).code ≠ 1 from (by decide : (2 : Int) ≠ 1)),
    if_pos (show (SinkMsg.dataMsg id d).code = 2 from rfl)]
  have h' : ({ s with retries := 0 } : SinkState).tracker.track (SinkMsg.dataMsg id d).id =
    none := h
  rw [h']
  rfl

theorem body_lastMsg (s : SinkState) (id : Int) :
    body s (deliver (.lastMsg id)) =
      checkComplete { tracker := s.tracker.setLast id, retries := 0 } [.last id] := by
  rw [body_deliver, dispatch,
    if_neg (show (SinkMsg.lastMsg id).code ≠ 1 from (by decide : (3 : Int) ≠ 1)),
    if_neg (show (SinkMsg.lastMsg id).code ≠ 2 from (by decide : (3 : Int) ≠ 2)),
    if_pos (show (SinkMsg.lastMsg id).code = 3 from rfl)]
  rfl

end Sink

end Skweltch
