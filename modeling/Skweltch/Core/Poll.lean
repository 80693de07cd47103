import Skweltch.Lib.EventLoop
import Skweltch.Lib.FixedWidth
import Skweltch.Msg

/-!
# Skweltch — polling

`Poll::process` and `Poll::send` (`core/Poll.cpp`). The `waitEvent` of a worker looks at something
again and again and sleeps in between; a `PollEvent` is what the environment answers at one such
look, and `body` is what is done between two of them.
-/

namespace Skweltch

open EventLoop FixedWidth

/-- What the environment answers when a worker looks once. -/
structure PollEvent (ε : Type) where
  /-- what the worker sees -/
  seen : ε
  /-- `send` throws for the message that is sent behind it, if any -/
  sendFails : Bool
  /-- the answers of `shouldQuit` in `Poll::send` and in `Poll::process` -/
  quitInSend : Bool
  quitAfterSend : Bool
deriving DecidableEq, Repr

inductive PollAct where
  | sleep (ms : Int)
  /-- a message is handed to the socket, which may throw -/
  | send (m : DataMsg Str) (throws : Bool)
deriving DecidableEq, Repr

/-- `IPollWorker`. All workers send in the same way, each its own payload. -/
structure IPollWorker (σ ε : Type) where
  /-- one turn of the loop in `waitEvent`: the value it returns, or `none` if it sleeps and looks
  again -/
  check : σ → ε → σ × Option Bool
  payload : Str
  sleeptime : Int

/-- The worker's members, the next id, and the counter of `Poll`. -/
structure PollState (σ : Type) where
  worker : σ
  msgNum : Int
  count : Int
deriving DecidableEq, Repr

namespace Poll

variable {σ ε : Type}

/-- `Poll::send`: the counter and the value returned, which is `none` if it divides by zero. -/
def send (e : PollEvent ε) (count : Int) (message : DataMsg Str) (sleeptime sleepevery : Int) :
    List PollAct × Int × Option Bool :=
  -- a failed send is logged and the message is lost
  let sent : List PollAct := [.send message e.sendFails]
  if e.quitInSend then (sent, count, some false)
  else
    let count' := int32 (count + 1)
    if sleeptime > 0 then
      if sleepevery = 0 then (sent, count', none)
      else if count'.tmod sleepevery = 0 then (sent ++ [.sleep sleeptime], count', some true)
      else (sent, count', some true)
    else (sent, count', some true)

/-- The `send` of the workers. What `Poll::send` returns is not looked at. -/
def sendNext (w : IPollWorker σ ε) (e : PollEvent ε) (s : PollState σ) :
    List PollAct × PollState σ :=
  let r := send e s.count { id := s.msgNum, payload := w.payload } 0 0
  (r.1, { s with msgNum := int32 (s.msgNum + 1), count := r.2.1 })

/-- `Poll::process` from one look to the next. -/
def body (w : IPollWorker σ ε) : Body (PollState σ) (PollEvent ε) PollAct Bool := fun s e =>
  match w.check s.worker e.seen with
  | (s', none) => ([.sleep w.sleeptime], .next { s with worker := s' })
  -- `waitEvent` gives up, which is no failure
  | (_, some false) => ([], .exit true)
  | (s', some true) =>
    let r := sendNext w e { s with worker := s' }
    (r.1, if e.quitAfterSend then .exit false else .next r.2)

def init (s : σ) : PollState σ := { worker := s, msgNum := 0, count := 0 }

/-- `Poll::process`: what is done at each look. -/
def process (w : IPollWorker σ ε) (s : σ) (es : List (PollEvent ε)) :
    List (List PollAct) × Flow (PollState σ) Bool :=
  run (body w) (init s) es

def isSend : PollAct → Bool
  | .send _ _ => true
  | .sleep _ => false

/-- How many messages are handed to the socket. -/
def sends (acts : List PollAct) : Nat := acts.countP isSend

/-- What was seen when `waitEvent` returned true: a message is sent for each. -/
def fired : List (PollEvent ε) → List (List PollAct) → List ε
  | e :: es, out :: outs =>
    if out.any isSend then e.seen :: fired es outs else fired es outs
  | _, _ => []

/-- What was seen at the looks that were come to. -/
def looked (es : List (PollEvent ε)) (outs : List (List PollAct)) : List ε :=
  (es.take outs.length).map PollEvent.seen

/-! ## One look

A look asks the worker, and sends, sleeps or stops by its answer. -/

variable {w : IPollWorker σ ε} {s : PollState σ} {e : PollEvent ε}

theorem sendNext_acts (w : IPollWorker σ ε) (e : PollEvent ε) (s : PollState σ) :
    (sendNext w e s).1 = [.send { id := s.msgNum, payload := w.payload } e.sendFails] := by
  rw [sendNext, send]
  split
  · rfl
  · rfl

theorem body_sleeps {s' : σ} (h : w.check s.worker e.seen = (s', none)) :
    body w s e = ([.sleep w.sleeptime], .next { s with worker := s' }) := by
  rw [body, h]

theorem body_stops {s' : σ} (h : w.check s.worker e.seen = (s', some false)) :
    body w s e = ([], .exit true) := by
  rw [body, h]

/-- A check that finds something sends. -/
theorem body_fires {s' : σ} (h : w.check s.worker e.seen = (s', some true)) :
    ∃ flow, body w s e =
        ([.send { id := s.msgNum, payload := w.payload } e.sendFails], flow) ∧
      ((e.quitAfterSend = true ∧ flow = .exit false) ∨
        ∃ t : PollState σ, flow = .next t ∧ t.worker = s' ∧ t.msgNum = int32 (s.msgNum + 1)) := by
  rw [body, h]
  refine ⟨_, Prod.ext (sendNext_acts w e _) rfl, ?_⟩
  cases hq : e.quitAfterSend with
  | true => exact Or.inl ⟨rfl, rfl⟩
  | false => exact Or.inr ⟨_, rfl, rfl, rfl⟩

/-- **What is done at one look**, by what `waitEvent` does. -/
theorem body_acts (w : IPollWorker σ ε) (s : PollState σ) (e : PollEvent ε) :
    (body w s e).1 =
      match (w.check s.worker e.seen).2 with
      | none => [.sleep w.sleeptime]
      | some false => []
      | some true => [.send { id := s.msgNum, payload := w.payload } e.sendFails] := by
  rcases h : w.check s.worker e.seen with ⟨s', none | b⟩
  · rw [body_sleeps h]
  · cases b with
    | false => rw [body_stops h]
    | true =>
      obtain ⟨flow, hbody, -⟩ := body_fires h
      rw [hbody]

/-! ## Runs -/

/-- One message for every time `waitEvent` returns true. -/
theorem sends_run (w : IPollWorker σ ε) (s : PollState σ) (es : List (PollEvent ε)) :
    sends (run (body w) s es).1.flatten = (fired es (run (body w) s es).1).length := by
  have hone : ∀ s e, sends (body w s e).1 = if (body w s e).1.any isSend then 1 else 0 := by
    intro s e
    rw [body_acts]
    rcases (w.check s.worker e.seen).2 with _ | _ | _ <;> rfl
  induction es generalizing s with
  | nil => rfl
  | cons e es ih =>
    have hfirst := hone s e
    rcases hb : body w s e with ⟨out, s' | r⟩
    · rw [hb] at hfirst
      rw [run_cons_next hb, List.flatten_cons, sends, List.countP_append, ← sends, ← sends,
        hfirst, ih, fired]
      split
      · rw [List.length_cons, Nat.add_comm]
      · rw [Nat.zero_add]
    · rw [hb] at hfirst
      -- after the exit no answer is looked at, so that `fired` ends here as well
      rw [run_cons_exit hb, List.flatten_singleton, hfirst, fired]
      split
      · cases es <;> rfl
      · cases es <;> rfl

end Poll

end Skweltch
