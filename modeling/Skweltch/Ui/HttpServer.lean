import Skweltch.Lib.EventLoop
import Skweltch.Ui.Reply

/-!
# Skweltch — the server of the user interface

`server` (`ui/server.cpp`), its `connection_manager` and its `connection`s, which run in the loop of
an `io_service`. An event is the end of an operation that was begun (an accept, a read, a write, or
the wait for a signal), and the loop calls the handler of the operation for it. `Allowed` is what
the library promises of events: each ends an operation that was begun and has not ended, nothing
succeeds that was begun on a closed socket, and only the end of a socket aborts an operation on it.
An accept that succeeds opens the socket of `new_connection_` first (`arrived`); a signal can come
before its handler.

What handles a request is given by `handle`, which may throw; what it throws leaves the loop.
Connections are numbered in the order in which they were accepted.
-/

namespace Skweltch

open EventLoop

namespace Http

/-- An error code, with `operation_aborted` told apart from every other. -/
inductive Completion (α : Type) where
  | ok (a : α)
  | aborted
  | failed
deriving DecidableEq, Repr

inductive Operation where
  | read
  | write
deriving DecidableEq, Repr

/-- An operation that has not ended, and whether the socket was open when it was begun. -/
structure Begun where
  operation : Operation
  onOpen : Bool
deriving DecidableEq, Repr

structure Connection where
  isOpen : Bool
  begun : Option Begun
  parser : RequestParser
deriving DecidableEq, Repr

/-- `server`, with the connections that it has accepted so far. -/
structure Server (κ : Type) where
  acceptorOpen : Bool
  accepting : Bool
  /-- the socket of `new_connection_` -/
  newOpen : Bool
  waiting : Bool
  connections : List Connection
  /-- `connection_manager::connections_` -/
  managed : List ℕ
  /-- what the handlers of requests keep -/
  context : κ
deriving DecidableEq, Repr

inductive Event where
  | signal
  /-- a connection is accepted, and the handler is still to be called -/
  | arrived
  | accept (e : Completion Unit)
  | read (i : ℕ) (e : Completion Str)
  | write (i : ℕ) (e : Completion Unit)
deriving DecidableEq, Repr

inductive Call where
  /-- `async_write` of a reply, and the request if one was handled for it -/
  | reply (i : ℕ) (req : Option Request) (rep : Reply)
  | shutdown (i : ℕ)
deriving DecidableEq, Repr

/-- The bytes that an event brings to a connection. -/
def Event.input (i : ℕ) : Event → Str
  | .read j (.ok input) => if j = i then input else []
  | _ => []

/-- The reply that is written to a connection, with the request if one was handled for it. -/
def Call.replies (i : ℕ) : Call → List (Option Request × Reply)
  | .reply j req rep => if j = i then [(req, rep)] else []
  | .shutdown _ => []

/-- The requests that are handled, with what is replied. -/
def Call.handled : Call → List (Request × Reply)
  | .reply _ (some req) rep => [(req, rep)]
  | _ => []

namespace Connection

/-- A connection whose socket was just accepted. -/
def new : Connection := { isOpen := true, begun := none, parser := .new }

def begin (c : Connection) (operation : Operation) : Connection :=
  { c with begun := some { operation := operation, onOpen := c.isOpen } }

def ended (c : Connection) : Connection := { c with begun := none }

def start (c : Connection) : Connection := c.begin .read

def stop (c : Connection) : Connection := { c with isOpen := false }

/-- The operation is under way, and may end like this. -/
def Ends {α : Type} (c : Connection) (operation : Operation) (e : Completion α) : Prop :=
  ∃ onOpen, c.begun = some ⟨operation, onOpen⟩ ∧
    match e with
    | .ok _ => onOpen = true
    | .aborted => onOpen = true ∧ c.isOpen = false
    | .failed => True

end Connection

instance {α : Type} (c : Connection) (operation : Operation) (e : Completion α) :
    Decidable (c.Ends operation e) := by
  unfold Connection.Ends
  cases e <;> infer_instance

namespace Server

variable {κ : Type}

/-- The server after `start_accept` in its constructor. -/
def new (context : κ) : Server κ :=
  { acceptorOpen := true, accepting := true, newOpen := false, waiting := true, connections := []
    managed := [], context := context }

def update (s : Server κ) (i : ℕ) (f : Connection → Connection) : Server κ :=
  { s with connections := s.connections.modify i f }

/-! ## `connection_manager` -/

/-- `connection_manager::start`, for `new_connection_`. -/
def manage (s : Server κ) : Server κ :=
  { s with
    connections := s.connections ++ [Connection.new.start]
    managed := s.connections.length :: s.managed }

/-- `start_accept`: the next connection has a socket of its own. -/
def startAccept (s : Server κ) : Server κ := { s with accepting := true, newOpen := false }

/-- `connection_manager::stop` -/
def stop (s : Server κ) (i : ℕ) : Server κ :=
  { s.update i Connection.stop with managed := s.managed.filter (· ≠ i) }

def stopAll (s : Server κ) : Server κ :=
  { s with
    connections := s.managed.foldl (fun cs i => cs.modify i Connection.stop) s.connections
    managed := [] }

/-! ## The handlers -/

def handleStop (s : Server κ) : Server κ :=
  { s with acceptorOpen := false, waiting := false }.stopAll

def handleAccept (s : Server κ) (e : Completion Unit) : Server κ :=
  -- `new_connection_` is left as it is
  if s.acceptorOpen = false then { s with accepting := false }
  else
    match e with
    | .ok _ => s.manage.startAccept
    | _ => s.startAccept

/-- `connection::handle_read` -/
def handleRead (handle : κ → Request → Option (Reply × κ)) (s : Server κ) (i : ℕ) (c : Connection)
    (e : Completion Str) : List Call × Flow (Server κ) Request :=
  match e with
  | .ok input =>
    let p := c.parser.parse input
    let read := s.update i fun c => { c with parser := p.state }
    match p.verdict with
    | some true =>
      match handle s.context p.state.req with
      | some (rep, context) =>
        ([.reply i (some p.state.req) rep],
          .next { read.update i (Connection.begin · .write) with context := context })
      | none => ([], .exit p.state.req)
    | some false =>
      ([.reply i none (.stockReply .badRequest)], .next (read.update i (Connection.begin · .write)))
    | none => ([], .next (read.update i (Connection.begin · .read)))
  | .aborted => ([], .next (s.update i Connection.ended))
  | .failed => ([], .next ((s.update i Connection.ended).stop i))

/-- `connection::handle_write` -/
def handleWrite (s : Server κ) (i : ℕ) (e : Completion Unit) : List Call × Flow (Server κ) Request :=
  match e with
  | .ok _ => ([.shutdown i], .next ((s.update i Connection.ended).stop i))
  | .aborted => ([], .next (s.update i Connection.ended))
  | .failed => ([], .next ((s.update i Connection.ended).stop i))

/-- `io_service::run` -/
def body (handle : κ → Request → Option (Reply × κ)) :
    Body (Server κ) Event Call Request := fun s event =>
  match event with
  | .signal => ([], .next s.handleStop)
  | .arrived => ([], .next { s with newOpen := true })
  | .accept e => ([], .next (s.handleAccept e))
  | .read i e =>
    match s.connections[i]? with
    | some c => s.handleRead handle i c e
    | none => ([], .next s)
  | .write i e => s.handleWrite i e

/-- What the library may call a handler for. -/
def Allowed (s : Server κ) : Event → Prop
  | .signal => s.waiting = true
  | .arrived => s.acceptorOpen = true ∧ s.accepting = true ∧ s.newOpen = false
  | .accept e => s.accepting = true ∧ (s.newOpen = true ↔ e = .ok ())
  | .read i e => ∃ c, s.connections[i]? = some c ∧ c.Ends .read e
  | .write i e => ∃ c, s.connections[i]? = some c ∧ c.Ends .write e

instance (s : Server κ) (e : Event) : Decidable (s.Allowed e) :=
  match e with
  | .signal => inferInstanceAs (Decidable (s.waiting = true))
  | .arrived => inferInstanceAs (Decidable (_ ∧ _))
  | .accept _ => inferInstanceAs (Decidable (_ ∧ _))
  | .read i e => inferInstanceAs (Decidable (∃ c ∈ s.connections[i]?, c.Ends .read e))
  | .write i e => inferInstanceAs (Decidable (∃ c ∈ s.connections[i]?, c.Ends .write e))

/-! ## The connections after a step

A step changes one connection, all that are managed, or none. -/

section Lookup

variable {s : Server κ} {i j : ℕ}

theorem lookup_update (s : Server κ) (i j : ℕ) (f : Connection → Connection) :
    (s.update i f).connections[j]? =
      (s.connections[j]?).map fun c => if i = j then f c else c := by
  rw [update, List.getElem?_modify]
  cases s.connections[j]? with
  | none => rfl
  | some c => by_cases h : i = j <;> simp [h]

/-- Stopping some connections leaves the others. -/
theorem lookup_foldl (is : List ℕ) (cs : List Connection) (j : ℕ) :
    (is.foldl (fun cs i => cs.modify i Connection.stop) cs)[j]? =
      (cs[j]?).map fun c => if j ∈ is then c.stop else c := by
  induction is generalizing cs with
  | nil => simp
  | cons i is ih =>
    rw [List.foldl_cons, ih, List.getElem?_modify]
    cases cs[j]? with
    | none => rfl
    | some c =>
      by_cases hi : i = j
      · subst hi
        by_cases hmem : i ∈ is <;> simp [hmem, Connection.stop]
      · have hne : j ≠ i := fun heq => hi heq.symm
        simp [hi, hne]

theorem lookup_handleStop (s : Server κ) (j : ℕ) :
    s.handleStop.connections[j]? =
      (s.connections[j]?).map fun c => if j ∈ s.managed then c.stop else c :=
  lookup_foldl s.managed s.connections j

/-- A connection that is accepted comes behind the others. -/
theorem lookup_manage (s : Server κ) (j : ℕ) :
    s.manage.connections[j]? =
      if j = s.connections.length then some Connection.new.start else s.connections[j]? := by
  rw [manage, List.getElem?_append]
  rcases Nat.lt_trichotomy j s.connections.length with hlt | rfl | hgt
  · rw [if_pos hlt, if_neg (by omega)]
  · simp
  · rw [if_neg (by omega), if_neg (by omega), List.getElem?_eq_none (by simp; omega),
      List.getElem?_eq_none (by omega)]

/-- Ending one connection leaves the others. -/
theorem lookup_stop (s : Server κ) (i j : ℕ) :
    ((s.update i Connection.ended).stop i).connections[j]? =
      (s.connections[j]?).map fun c => if i = j then c.ended.stop else c := by
  have hstop : ((s.update i Connection.ended).stop i).connections =
      ((s.update i Connection.ended).update i Connection.stop).connections := rfl
  rw [hstop, lookup_update, lookup_update, Option.map_map]
  congr 1
  funext c
  by_cases h : i = j <;> simp [h]

end Lookup

/-! ## What a step does

One case for each event and outcome, with the state before and after. All that is proved about runs
is proved from these. -/

/-- What is done behind what a connection has read: the operation that is begun, the reply that is
written, and what the handlers keep. -/
inductive Answer (handle : κ → Request → Option (Reply × κ)) (i : ℕ) (context : κ)
    (p : Recogniser.Parsed RequestParser Char Bool) : Operation → List Call → κ → Prop where
  | more (h : p.verdict = none) : Answer handle i context p .read [] context
  | refused (h : p.verdict = some false) :
      Answer handle i context p .write [.reply i none (.stockReply .badRequest)] context
  | handled (rep : Reply) (context' : κ) (h : p.verdict = some true)
      (hhandle : handle context p.state.req = some (rep, context')) :
      Answer handle i context p .write [.reply i (some p.state.req) rep] context'

/-- A connection has read something and begins another operation. -/
def goOn (s : Server κ) (i : ℕ) (parser : RequestParser) (operation : Operation) (context : κ) :
    Server κ :=
  { s.update i (fun c => { c with parser := parser }.begin operation) with context := context }

theorem lookup_goOn (s : Server κ) (i : ℕ) (parser : RequestParser) (operation : Operation)
    (context : κ) (j : ℕ) :
    (s.goOn i parser operation context).connections[j]? = (s.connections[j]?).map fun c =>
      if i = j then { c with parser := parser }.begin operation else c :=
  lookup_update s i j _

/-- What a step does to the server. -/
inductive Step (handle : κ → Request → Option (Reply × κ)) (s : Server κ) :
    Event → List Call → Server κ → Prop where
  | stopped : Step handle s .signal [] s.handleStop
  | arrived : Step handle s .arrived [] { s with newOpen := true }
  | accepted (e : Completion Unit) : Step handle s (.accept e) [] (s.handleAccept e)
  | read {i : ℕ} {c : Connection} {input : Str} {operation : Operation} {out : List Call}
      {context : κ} (hc : s.connections[i]? = some c) (hbegun : c.begun = some ⟨.read, true⟩)
      (hanswer : Answer handle i s.context (c.parser.parse input) operation out context) :
      Step handle s (.read i (.ok input)) out
        (s.goOn i (c.parser.parse input).state operation context)
  | aborted {e : Event} {i : ℕ} {c : Connection} (hc : s.connections[i]? = some c)
      (hbegun : c.begun ≠ none) (hclosed : c.isOpen = false) (hinput : ∀ j, e.input j = []) :
      Step handle s e [] (s.update i Connection.ended)
  | ended {e : Event} {i : ℕ} {c : Connection} {out : List Call}
      (hc : s.connections[i]? = some c) (hbegun : c.begun ≠ none) (hinput : ∀ j, e.input j = [])
      (hout : out = [] ∨ out = [.shutdown i]) :
      Step handle s e out ((s.update i Connection.ended).stop i)

theorem update_update (s : Server κ) (i : ℕ) (f g : Connection → Connection) :
    (s.update i f).update i g = s.update i (g ∘ f) := by
  simp [update, List.modify_modify_eq]

/-- What an iteration can do: one case for each event and outcome. -/
theorem step_of_body {handle : κ → Request → Option (Reply × κ)} {s s' : Server κ} {e : Event}
    {out : List Call} (hallowed : s.Allowed e) (h : body handle s e = (out, .next s')) :
    Step handle s e out s' := by
  cases e with
  | signal =>
    obtain ⟨rfl, hs⟩ := Prod.mk.inj h
    obtain rfl := Flow.next.inj hs
    exact .stopped
  | arrived =>
    obtain ⟨rfl, hs⟩ := Prod.mk.inj h
    obtain rfl := Flow.next.inj hs
    exact .arrived
  | accept e =>
    obtain ⟨rfl, hs⟩ := Prod.mk.inj h
    obtain rfl := Flow.next.inj hs
    exact .accepted e
  | read i e =>
    obtain ⟨c, hc, onOpen, hbegun, he⟩ := hallowed
    have hne : c.begun ≠ none := by simp [hbegun]
    simp only [body, hc] at h
    cases e with
    | aborted =>
      obtain ⟨rfl, hs⟩ := Prod.mk.inj h
      obtain rfl := Flow.next.inj hs
      exact .aborted hc hne he.2 fun _ => rfl
    | failed =>
      obtain ⟨rfl, hs⟩ := Prod.mk.inj h
      obtain rfl := Flow.next.inj hs
      exact .ended hc hne (fun _ => rfl) (Or.inl rfl)
    | ok input =>
      -- data come only on a socket that is open
      obtain rfl : onOpen = true := he
      simp only [handleRead, update_update] at h
      split at h
      · rename_i hverdict
        split at h
        -- a handler that throws leaves the loop, so this one answers
        · rename_i rep context hhandle
          obtain ⟨rfl, hs⟩ := Prod.mk.inj h
          obtain rfl := Flow.next.inj hs
          exact .read hc hbegun (.handled rep context hverdict hhandle)
        · cases h
      · rename_i hverdict
        obtain ⟨rfl, hs⟩ := Prod.mk.inj h
        obtain rfl := Flow.next.inj hs
        exact .read hc hbegun (.refused hverdict)
      · rename_i hverdict
        obtain ⟨rfl, hs⟩ := Prod.mk.inj h
        obtain rfl := Flow.next.inj hs
        exact .read hc hbegun (.more hverdict)
  | write i e =>
    obtain ⟨c, hc, onOpen, hbegun, he⟩ := hallowed
    have hne : c.begun ≠ none := by simp [hbegun]
    cases e with
    | aborted =>
      obtain ⟨rfl, hs⟩ := Prod.mk.inj h
      obtain rfl := Flow.next.inj hs
      exact .aborted hc hne he.2 fun _ => rfl
    | failed =>
      obtain ⟨rfl, hs⟩ := Prod.mk.inj h
      obtain rfl := Flow.next.inj hs
      exact .ended hc hne (fun _ => rfl) (Or.inl rfl)
    | ok input =>
      obtain ⟨rfl, hs⟩ := Prod.mk.inj h
      obtain rfl := Flow.next.inj hs
      exact .ended hc hne (fun _ => rfl) (Or.inr rfl)

/-! ## The server keeps its books

The connections that are managed are those with an open socket, and each of these waits for one
operation. -/

/-- While the server accepts, it waits for the next connection and for a signal. Of the connections
that were started, the open ones are those that it manages, and each of them waits for an operation
that was begun when it was open. -/
structure Consistent (s : Server κ) : Prop where
  accepts : s.acceptorOpen = true → s.accepting = true
  waits : s.waiting = s.acceptorOpen
  managed : ∀ i : ℕ, i ∈ s.managed ↔ ∃ c : Connection, s.connections[i]? = some c ∧ c.isOpen = true
  begun : ∀ (i : ℕ) (c : Connection), s.connections[i]? = some c → c.isOpen = true →
    ∃ operation, c.begun = some ⟨operation, true⟩
  stopped : s.acceptorOpen = false → s.managed = []

variable {handle : κ → Request → Option (Reply × κ)} {s s' : Server κ} {e : Event}
  {out : List Call}

theorem consistent_new (context : κ) : (new context).Consistent where
  accepts := fun _ => rfl
  waits := rfl
  managed := by simp [new]
  begun := by simp [new]
  stopped := fun _ => rfl

/-- The server keeps its books when it is stopped. -/
theorem Consistent.handleStop (h : s.Consistent) : s.handleStop.Consistent where
  accepts := fun hopen => absurd hopen Bool.false_ne_true
  waits := rfl
  managed := by
    intro i
    refine iff_of_false List.not_mem_nil ?_
    rintro ⟨c, hc, hopen⟩
    rw [lookup_handleStop] at hc
    obtain ⟨c₀, hc₀, rfl⟩ := Option.map_eq_some_iff.mp hc
    split at hopen
    · exact Bool.false_ne_true hopen
    · rename_i hmem
      exact hmem ((h.managed i).mpr ⟨c₀, hc₀, hopen⟩)
  begun := by
    intro i c hc hopen
    rw [lookup_handleStop] at hc
    obtain ⟨c₀, hc₀, rfl⟩ := Option.map_eq_some_iff.mp hc
    split at hopen
    · exact absurd hopen Bool.false_ne_true
    · rename_i hmem
      rw [if_neg hmem]
      exact h.begun i c₀ hc₀ hopen
  stopped := fun _ => rfl

/-- The server keeps its books when it takes a connection over. -/
theorem Consistent.manage (h : s.Consistent) (hopen : s.acceptorOpen = true) :
    s.manage.Consistent where
  accepts := h.accepts
  waits := h.waits
  managed := by
    intro i
    rw [lookup_manage]
    by_cases hi : i = s.connections.length
    · subst hi
      rw [if_pos rfl]
      exact iff_of_true List.mem_cons_self ⟨_, rfl, rfl⟩
    · rw [if_neg hi, ← h.managed i]
      exact List.mem_cons.trans (or_iff_right hi)
  begun := by
    intro i c hc hc'
    rw [lookup_manage] at hc
    split at hc
    · obtain rfl := Option.some.inj hc
      exact ⟨.read, rfl⟩
    · exact h.begun i c hc hc'
  stopped := fun hclosed => absurd (hopen.symm.trans hclosed) (by decide)

theorem Consistent.startAccept (h : s.Consistent) : s.startAccept.Consistent :=
  { h with accepts := fun _ => rfl }

/-- The server keeps its books when a connection has been accepted, or has failed to be. -/
theorem Consistent.handleAccept (h : s.Consistent) (e : Completion Unit) :
    (s.handleAccept e).Consistent := by
  rw [Server.handleAccept.eq_def]
  by_cases hopen : s.acceptorOpen = true
  · rw [if_neg (by rw [hopen]; decide)]
    cases e with
    | ok _ => exact (h.manage hopen).startAccept
    | aborted => exact h.startAccept
    | failed => exact h.startAccept
  · have hclosed : s.acceptorOpen = false := Bool.eq_false_iff.mpr hopen
    rw [if_pos hclosed]
    exact { h with accepts := fun hopen' => absurd hopen' hopen }

/-- The server keeps its books when a connection goes on. -/
theorem Consistent.goOn (h : s.Consistent) (i : ℕ) (parser : RequestParser)
    (operation : Operation) (context : κ) :
    (s.goOn i parser operation context).Consistent where
  accepts := h.accepts
  waits := h.waits
  managed := by
    intro j
    refine (h.managed j).trans ?_
    simp only [lookup_goOn, Option.map_eq_some_iff]
    constructor
    · rintro ⟨c, hc, hopen⟩
      refine ⟨_, ⟨c, hc, rfl⟩, ?_⟩
      split <;> exact hopen
    · rintro ⟨_, ⟨c, hc, rfl⟩, hopen⟩
      refine ⟨c, hc, ?_⟩
      split at hopen <;> exact hopen
  begun := by
    intro j c hc hopen
    simp only [lookup_goOn, Option.map_eq_some_iff] at hc
    obtain ⟨c₀, hc₀, rfl⟩ := hc
    split at hopen
    · rename_i hij
      rw [if_pos hij]
      exact ⟨operation, congrArg (fun b => some (Begun.mk operation b)) hopen⟩
    · rename_i hij
      rw [if_neg hij]
      exact h.begun j c₀ hc₀ hopen
  stopped := h.stopped

/-- An operation ends on a connection that is closed. -/
theorem Consistent.aborted (h : s.Consistent) {i : ℕ} {c : Connection}
    (hc : s.connections[i]? = some c) (hclosed : c.isOpen = false) :
    (s.update i Connection.ended).Consistent where
  accepts := h.accepts
  waits := h.waits
  managed := by
    intro j
    refine (h.managed j).trans ?_
    simp only [lookup_update, Option.map_eq_some_iff]
    constructor
    · rintro ⟨c₀, hc₀, hopen⟩
      refine ⟨_, ⟨c₀, hc₀, rfl⟩, ?_⟩
      split <;> exact hopen
    · rintro ⟨_, ⟨c₀, hc₀, rfl⟩, hopen⟩
      refine ⟨c₀, hc₀, ?_⟩
      split at hopen <;> exact hopen
  begun := by
    intro j c' hc' hopen
    simp only [lookup_update, Option.map_eq_some_iff] at hc'
    obtain ⟨c₀, hc₀, rfl⟩ := hc'
    split at hopen
    · rename_i hij
      subst hij
      obtain rfl := Option.some.inj (hc.symm.trans hc₀)
      exact absurd (hopen.symm.trans hclosed) (by decide)
    · rename_i hij
      rw [if_neg hij]
      exact h.begun j c₀ hc₀ hopen
  stopped := h.stopped

/-- The server keeps its books when a connection ends. -/
theorem Consistent.ended (h : s.Consistent) (i : ℕ) :
    ((s.update i Connection.ended).stop i).Consistent where
  accepts := h.accepts
  waits := h.waits
  managed := by
    intro j
    have hmem : j ∈ ((s.update i Connection.ended).stop i).managed ↔ j ∈ s.managed ∧ j ≠ i := by
      show j ∈ s.managed.filter (· ≠ i) ↔ _
      simp
    simp only [hmem, h.managed j, lookup_stop, Option.map_eq_some_iff]
    constructor
    · rintro ⟨⟨c, hc, hopen⟩, hji⟩
      exact ⟨_, ⟨c, hc, rfl⟩, by rw [if_neg (Ne.symm hji)]; exact hopen⟩
    · rintro ⟨_, ⟨c, hc, rfl⟩, hopen⟩
      split at hopen
      · exact absurd hopen Bool.false_ne_true
      · rename_i hij
        exact ⟨⟨c, hc, hopen⟩, Ne.symm hij⟩
  begun := by
    intro j c hc hopen
    simp only [lookup_stop, Option.map_eq_some_iff] at hc
    obtain ⟨c₀, hc₀, rfl⟩ := hc
    split at hopen
    · exact absurd hopen Bool.false_ne_true
    · rename_i hij
      rw [if_neg hij]
      exact h.begun j c₀ hc₀ hopen
  stopped := by
    intro hclosed
    show s.managed.filter (· ≠ i) = []
    rw [h.stopped hclosed]
    rfl

theorem Step.consistent (hstep : Step handle s e out s') (h : s.Consistent) : s'.Consistent := by
  cases hstep with
  | stopped => exact h.handleStop
  | arrived => exact { h with }
  | accepted e => exact h.handleAccept e
  | read hc hbegun hanswer => exact h.goOn _ _ _ _
  | aborted hc hbegun hclosed hinput => exact h.aborted hc hclosed
  | ended hc hbegun hinput hout => exact h.ended _

/-- **The books are kept**: in every run, of the connections that were started the open ones are
those that are managed, and each of them, the acceptor and the signals are waited for. -/
theorem consistent_run {context : κ} {es : List Event} {outs : List (List Call)}
    (hallowed : AtEvery (body handle) (new context) es Allowed)
    (h : run (body handle) (new context) es = (outs, .next s)) : s.Consistent :=
  run_invariant_guarded (I := fun _ _ s => Consistent s) (G := Allowed) (consistent_new context)
    (fun _ _ _ _ _ _ hs hallowed hbody => (step_of_body hallowed hbody).consistent hs) hallowed h

/-- A handler that answers with what is asked for, and counts. -/
def echo (n : ℕ) (req : Request) : Option (Reply × ℕ) :=
  some ({ status := .ok, headers := [], content := req.uri }, n + 1)

/-- A request in two reads with another connection in between, which sends something else. -/
def twoConnections : List Event :=
  [.arrived, .accept (.ok ()), .read 0 (.ok "GET /a HT".toList), .arrived, .accept (.ok ()),
    .read 1 (.ok "\n".toList), .read 0 (.ok "TP/1.0\r\n\r\n".toList)]

/-- The books of a run with two connections. -/
theorem consistent_run_twoConnections :
    ∃ outs s, run (body echo) (new 0) twoConnections = (outs, .next s) ∧ s.Consistent :=
  have hallowed : AtEvery (body echo) (new 0) twoConnections Allowed := by decide +kernel
  ⟨_, _, rfl, consistent_run hallowed rfl⟩

end Server

end Http

end Skweltch
