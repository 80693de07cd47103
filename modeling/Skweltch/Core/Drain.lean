import Skweltch.Core.Sink
import Skweltch.Core.Work
import Skweltch.Lib.Mailbox

/-!
# Skweltch — the loops drain their data socket before a kill

`Poller::poll` (`core/Poller.cpp`) looks at the data socket first. Here the messages arrive in any
order and at any time, `poll` reports what is there, and nothing fails or is interrupted; the
event each iteration of `Work::process` and `Sink::process` sees is what `poll` selects.
-/

namespace Skweltch

open EventLoop Mailbox

/-- `Poller::poll` for the sockets that are readable: `MSG`, `CONTROL` or `NONE`. -/
def Poller.poll (socket control : Bool) : Choice :=
  if socket then .first else if control then .second else .neither

theorem Poller.poll_prefersFirst : PrefersFirst Poller.poll := fun _ => rfl

/-- A message on the wire, as the receiver will unpack it. -/
inductive Frame (μ : Type) where
  | garbage
  | ok (m : μ)
deriving DecidableEq, Repr

/-- A `recv` that does not fail. -/
def Frame.received {μ : Type} : Frame μ → Received μ
  | .garbage => .garbage
  | .ok m => .ok m

/-- What arrives on the data and on the control socket between two polls. -/
abbrev Inbox (μ : Type) := Arrivals (Frame μ) (Frame Int)

namespace Work

variable {μ : Type}

def polled : Taken (Frame μ) (Frame Int) → WorkEvent μ
  | .first m => .polled (.msg m.received) false false
  | .second k => .polled (.control k.received) false false
  | .nothing => .polled .none false false

/-- `Work::process` on the messages that arrive. -/
def serve (inbox : List (Inbox μ)) : List (List (WorkCall μ)) × Flow Unit WorkExit :=
  run body () (events Poller.poll polled ⟨[], []⟩ inbox)

def handed : WorkCall μ → Option (Received μ)
  | .processMsg m => some m
  | .timeout => none

/-- The loop of `Work` handles what is polled. -/
theorem handles :
    Handles body (@polled μ) handed (fun m => some m.received) WorkExit.returned where
  stays s m := by simp [polled, body, atEnd]
  first s m s' _ := by simp [polled, body, atEnd, handed]
  second s k := by
    cases k with
    | garbage => rfl
    | ok v =>
      by_cases hv : v = 0
      · simp [polled, body, Frame.received, hv]
      · simp [polled, body, Frame.received, hv, atEnd]
  nothing s := by simp [polled, body, atEnd, handed]
  waits s := by simp [polled, body, atEnd]

end Work

namespace Sink

def polled : Taken (Frame SinkMsg) (Frame Int) → SinkEvent
  | .first m => .msg m.received false
  | .second k => .control k.received
  | .nothing => .timeout

/-- `Sink::process` on the messages that arrive. -/
def serve (inbox : List (Inbox SinkMsg)) : List (List SinkCall) × Flow SinkState SinkExit :=
  run body init (events Poller.poll polled ⟨[], []⟩ inbox)

def dispatched (m : Frame SinkMsg) : Option SinkCall :=
  m.received.unpack.bind fun m =>
    if m.code = 1 then some (.first m.id)
    else if m.code = 2 then some (.process m.id m.data)
    else if m.code = 3 then some (.last m.id)
    else none

def ofMessage : SinkCall → Option SinkCall
  | .results => none
  | c => some c

/-- Reporting calls for no message and does not end the loop. -/
theorem checkComplete_calls (s : SinkState) (done : List SinkCall) :
    (checkComplete s done).1.filterMap ofMessage = done.filterMap ofMessage ∧
      (checkComplete s done).2 ≠ .exit (.returned true) := by
  unfold checkComplete
  split
  · refine ⟨?_, by simp⟩
    rw [List.filterMap_append]
    simp [ofMessage]
  · exact ⟨rfl, by simp⟩

/-- A message makes its one call. -/
theorem dispatch_calls (s : SinkState) (m : SinkMsg) :
    (dispatch s m).2 ≠ .exit (.returned true) ∧
      ∀ s', (dispatch s m).2 = .next s' →
        ((dispatch s m).1.filterMap ofMessage).map some = [dispatched (.ok m)] := by
  simp only [dispatched, Frame.received, Received.unpack, Option.bind_some, dispatch]
  split
  · obtain ⟨hcalls, hflow⟩ :=
      checkComplete_calls { s with tracker := s.tracker.setFirst m.id } [.first m.id]
    exact ⟨hflow, fun _ _ => by rw [hcalls]; rfl⟩
  · split
    · cases s.tracker.track m.id with
      | none => exact ⟨by simp, fun s' hs' => by simp at hs'⟩
      | some t =>
        obtain ⟨hcalls, hflow⟩ :=
          checkComplete_calls { s with tracker := t } [.process m.id m.data]
        exact ⟨hflow, fun _ _ => by rw [hcalls]; rfl⟩
    · split
      · obtain ⟨hcalls, hflow⟩ :=
          checkComplete_calls { s with tracker := s.tracker.setLast m.id } [.last m.id]
        exact ⟨hflow, fun _ _ => by rw [hcalls]; rfl⟩
      · exact ⟨by simp, fun s' hs' => by simp at hs'⟩

theorem idle_calls (s : SinkState) :
    (idle s).1.filterMap ofMessage = [] ∧ (idle s).2 ≠ .exit (.returned true) := by
  unfold idle
  split
  · exact ⟨rfl, by simp⟩
  · exact ⟨rfl, by simp⟩

/-- The loop of `Sink` handles what is polled. -/
theorem handles : Handles body polled ofMessage dispatched (.returned true) where
  stays s m := by
    cases m with
    | garbage => simp [polled, body, Frame.received, Received.unpack]
    | ok m => exact (dispatch_calls { s with retries := 0 } m).1
  first s m s' hs' := by
    cases m with
    | garbage => simp [polled, body, Frame.received, Received.unpack] at hs'
    | ok m => exact (dispatch_calls { s with retries := 0 } m).2 s' hs'
  second s k := by
    cases k with
    | garbage => rfl
    | ok v =>
      by_cases hv : v = 0
      · simp [polled, body, Frame.received, hv]
      · simp [polled, body, Frame.received, hv]
  nothing s := (idle_calls s).1
  waits s := (idle_calls s).2

end Sink

/-- **Graceful drain.** When a kill message ends the loop of a worker or of a sink, every data
message that had arrived by the poll that selected it has been handed over, once and in order. -/
theorem killed_drained :
    (∀ (μ : Type) (inbox : List (Inbox μ)) (outs : List (List (WorkCall μ))),
      Work.serve inbox = (outs, .exit .returned) →
        outs.flatten.filterMap Work.handed =
          (arrived (inbox.take outs.length)).map Frame.received) ∧
    ∀ (inbox : List (Inbox SinkMsg)) (outs : List (List SinkCall)),
      Sink.serve inbox = (outs, .exit (.returned true)) →
        (outs.flatten.filterMap Sink.ofMessage).map some =
          (arrived (inbox.take outs.length)).map Sink.dispatched := by
  refine ⟨fun μ inbox outs h => ?_, fun inbox outs h => ?_⟩
  · have := drained Work.handles Poller.poll_prefersFirst h
    rw [← Function.comp_def some Frame.received, ← List.map_map] at this
    exact List.map_injective_iff.mpr (Option.some_injective _) this
  · exact drained Sink.handles Poller.poll_prefersFirst h

/-- Two messages wait when the end comes. -/
theorem killed_drained_run :
    (([[.processMsg (.ok 1)], [.processMsg (.ok 2)], []] : List (List (WorkCall Nat))).flatten.filterMap
        Work.handed =
      (arrived (([⟨[.ok 1, .ok 2], [.ok 0]⟩, ⟨[], []⟩, ⟨[], []⟩] : List (Inbox Nat)).take 3)).map
        Frame.received) ∧
    (([[.last 4], []] : List (List SinkCall)).flatten.filterMap Sink.ofMessage).map some =
      (arrived (([⟨[.ok (.lastMsg 4)], [.ok 0]⟩, ⟨[], []⟩] : List (Inbox SinkMsg)).take 2)).map
        Sink.dispatched :=
  ⟨killed_drained.1 Nat [⟨[.ok 1, .ok 2], [.ok 0]⟩, ⟨[], []⟩, ⟨[], []⟩]
      [[.processMsg (.ok 1)], [.processMsg (.ok 2)], []] (by decide),
    killed_drained.2 [⟨[.ok (.lastMsg 4)], [.ok 0]⟩, ⟨[], []⟩] [[.last 4], []]
      (by decide +kernel)⟩

end Skweltch
