import Skweltch.Lib.EventLoop
import Skweltch.Msg

/-!
# Skweltch — the work loop

`Work::process` (`core/Work.cpp`) as the body of an event loop. The loop has no variables of its
own; a `WorkEvent` is what the environment answers in one iteration, and the calls are those on
the `IWorkWorker`.
-/

namespace Skweltch

open EventLoop

/-- What `poll` returns in an iteration, with what `recv` then yields. -/
inductive WorkPolled (μ : Type) where
  | msg (recv : Received μ)
  | control (recv : Received Int)
  | none
deriving DecidableEq, Repr

/-- What the environment answers in one iteration. -/
inductive WorkEvent (μ : Type) where
  /-- `shouldQuit` is true in the loop condition -/
  | quit
  /-- what is polled, and the answers of `shouldQuit` after `poll` and at the end -/
  | polled (p : WorkPolled μ) (quitAfterPoll quitAtEnd : Bool)
deriving DecidableEq, Repr

/-- The calls `Work::process` makes on its `IWorkWorker`. -/
inductive WorkCall (μ : Type) where
  | processMsg (message : Received μ)
  | timeout
deriving DecidableEq, Repr

inductive WorkExit where
  | returned
  | threw
deriving DecidableEq, Repr

namespace Work

variable {μ : Type}

/-- The `shouldQuit` at the end of an iteration. -/
def atEnd (quit : Bool) (done : List (WorkCall μ)) : List (WorkCall μ) × Flow Unit WorkExit :=
  if quit then (done, .exit .returned) else (done, .next ())

def body : Body Unit (WorkEvent μ) (WorkCall μ) WorkExit
  | _, .quit => ([], .exit .returned)
  | _, .polled p quitAfterPoll quitAtEnd =>
    if quitAfterPoll then ([], .exit .returned)
    else
      match p with
      -- a failed `recv` is logged and the empty message is processed all the same
      | .msg recv => atEnd quitAtEnd [.processMsg recv]
      | .control .failed => atEnd quitAtEnd []
      | .control .garbage => ([], .exit .threw)
      | .control (.ok v) => if v = 0 then ([], .exit .returned) else atEnd quitAtEnd []
      | .none => atEnd quitAtEnd [.timeout]

abbrev deliver (m : μ) : WorkEvent μ := .polled (.msg (.ok m)) false false

theorem body_deliver (m : μ) : body () (deliver m) = ([.processMsg (.ok m)], .next ()) := rfl

end Work

end Skweltch
