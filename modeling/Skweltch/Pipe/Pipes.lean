import Skweltch.Core.BatchOnce
import Skweltch.Core.Drain

/-!
# Skweltch — pipes

`pipe/pipecount.cpp` and `pipe/pipedump.cpp` stand between a sender and its receivers, hand every
message on and log one now and then. `transparent` says that a pipe between a vent and its workers
cannot be told from none: whatever can happen with it can happen with the same workers without it,
and the other way round, and the runs that are over correspond. The log is left out.
-/

namespace Skweltch

open EventLoop Fifo FixedWidth Relation

/-- What the environment answers in one turn of a pipe. -/
structure PipeEvent (μ : Type) where
  recv : Received μ
  sendFails : Bool
deriving DecidableEq, Repr

/-- How a pipe ends, which is not caught in either program. -/
inductive PipeExit where
  /-- by a division that has no result -/
  | killed
  | threw
deriving DecidableEq, Repr

namespace Pipe

variable {μ : Type}

/-- `n % count`, which kills the process if it divides by zero. The smallest `int` has no remainder
by -1 either, but `n` comes to it only by an overflow. -/
def remainder (n count : Int) : Option Int :=
  if count = 0 then none else some (n.tmod count)

/-- What `recv` leaves in a message, if it returns. -/
def frame : Received μ → Option (Frame μ)
  | .failed => none
  | .garbage => some .garbage
  | .ok m => some (.ok m)

end Pipe

namespace PipeCount

variable {μ : Type}

/-- The loop of pipecount. -/
def body (count : Int) : Body Int (PipeEvent μ) (Frame μ) PipeExit := fun n e =>
  match Pipe.frame e.recv with
  | none => ([], .exit .threw)
  | some message =>
    if e.sendFails then ([], .exit .threw)
    else
      match Pipe.remainder n count with
      | none => ([message], .exit .killed)
      | some _ => ([message], .next (int32 (n + 1)))

end PipeCount

namespace PipeDump

variable {μ : Type}

/-- The loop of pipedump, which unpacks the messages it logs. -/
def body (count : Int) : Body Int (PipeEvent μ) (Frame μ) PipeExit := fun n e =>
  match Pipe.frame e.recv with
  | none => ([], .exit .threw)
  | some message =>
    match Pipe.remainder n count with
    | none => ([], .exit .killed)
    | some r =>
      if r = 0 ∧ message.received.unpack.isNone then ([], .exit .threw)
      else if e.sendFails then ([], .exit .threw)
      else ([message], .next (int32 (n + 1)))

end PipeDump

namespace Pipe

variable {μ : Type}

/-- A message that arrives on a socket that works. -/
def arrives (m : μ) : PipeEvent μ := { recv := .ok m, sendFails := false }

/-- A pipe that hands on whatever arrives. -/
def Forwards (pipe : Body Int (PipeEvent μ) (Frame μ) PipeExit) : Prop :=
  ∀ n m, ∃ n', pipe n (arrives m) = ([.ok m], .next n')

theorem remainder_isSome {count : Int} (hcount : count ≠ 0) (n : Int) :
    remainder n count = some (n.tmod count) :=
  if_neg hcount

theorem forwards_count {count : Int} (hcount : count ≠ 0) :
    Forwards (PipeCount.body (μ := μ) count) := by
  intro n m
  refine ⟨int32 (n + 1), ?_⟩
  simp only [PipeCount.body, arrives, frame, remainder_isSome hcount, Bool.false_eq_true, if_false]

theorem forwards_dump {count : Int} (hcount : count ≠ 0) :
    Forwards (PipeDump.body (μ := μ) count) := by
  intro n m
  refine ⟨int32 (n + 1), ?_⟩
  simp [PipeDump.body, arrives, frame, remainder_isSome hcount, Frame.received, Received.unpack]

end Pipe

variable {ι α : Type}

/-- A network in which the data messages of the vent come to the workers through a pipe. -/
structure PipedNet (ι α : Type) where
  net : Net ι α
  toPipe : List (DataMsg α)
  pipe : Flow Int PipeExit

namespace PipedNet

def start (acts : List (VentAct α)) : PipedNet ι α :=
  { net := Net.start acts, toPipe := [], pipe := .next 0 }

inductive Step (pipe : Body Int (PipeEvent (DataMsg α)) (Frame (DataMsg α)) PipeExit)
    (job : DataMsg α → List Str) : PipedNet ι α → PipedNet ι α → Prop where
  | send {p : PipedNet ι α} {m : DataMsg α} {acts : List (VentAct α)}
      (h : p.net.vent = .send m :: acts) :
      Step pipe job p { p with net := { p.net with vent := acts }, toPipe := p.toPipe ++ [m] }
  /-- the socket of the pipe picks a worker -/
  | forward {p : PipedNet ι α} {m : DataMsg α} {rest : List (DataMsg α)} {n : Int}
      {out : List (Frame (DataMsg α))} {flow : Flow Int PipeExit} (k : ι)
      (hm : p.toPipe = m :: rest) (hn : p.pipe = .next n)
      (hb : pipe n (Pipe.arrives m) = (out, flow)) :
      Step pipe job p { p with
        net := { p.net with
          toWorkers := p.net.toWorkers ++ (out.filterMap fun f => f.received.unpack).map (k, ·) }
        toPipe := rest
        pipe := flow }
  /-- everything but a data message of the vent goes on as without a pipe -/
  | other {p : PipedNet ι α} {net : Net ι α} (h : Net.Step job p.net net)
      (hvent : ∀ m acts, p.net.vent = .send m :: acts → net.vent = p.net.vent) :
      Step pipe job p { p with net := net }

def Over (pipe : Body Int (PipeEvent (DataMsg α)) (Frame (DataMsg α)) PipeExit)
    (job : DataMsg α → List Str) (p : PipedNet ι α) : Prop :=
  ∀ p', ¬ Step pipe job p p'

/-- The network without the pipe, in which what is in the pipe is on its way to the workers `ks`,
behind all that is on its way to them already. -/
def straight (p : PipedNet ι α) (ks : List ι) : Net ι α :=
  { p.net with toWorkers := p.net.toWorkers ++ ks.zip p.toPipe }

section Simulation

variable {job : DataMsg α → List Str}
  {pipe : Body Int (PipeEvent (DataMsg α)) (Frame (DataMsg α)) PipeExit}
  {acts : List (VentAct α)} {p p' : PipedNet ι α} {n n' : Net ι α}

/-! ## A run with a pipe is one without

The workers to which the pipe will hand its messages are not known yet when it receives them. They
are given for the last state of a run, and from there on backwards: a message that the pipe hands to
`k` was sent to `k` by the vent. -/

/-- A step that is no data message of the vent does not depend on what is sent later. -/
theorem step_late (hstep : Net.Step job n n')
    (hvent : ∀ m acts, n.vent = .send m :: acts → n'.vent = n.vent) (late : List (ι × DataMsg α)) :
    Net.Step job { n with toWorkers := n.toWorkers ++ late }
      { n' with toWorkers := n'.toWorkers ++ late } := by
  cases hstep with
  | tellSink h => exact .tellSink h
  | @send m acts k h =>
    have hsame := hvent m acts h
    rw [h] at hsame
    exact absurd (congrArg List.length hsame) (by simp)
  | sleep h => exact .sleep h
  | work ht hb => exact .work (ht.append late) hb
  | sink hs ht hb => exact .sink hs ht hb

/-- **One step with the pipe** is one without, or none, whoever gets what is in the pipe behind it. -/
theorem Step.straight (hpipe : Pipe.Forwards pipe) (hstep : Step pipe job p p') {ks' : List ι}
    (hks' : ks'.length = p'.toPipe.length) :
    ∃ ks : List ι, ks.length = p.toPipe.length ∧
      ReflTransGen (Net.Step job) (p.straight ks) (p'.straight ks') := by
  cases hstep with
  | @send m acts h =>
    -- the worker of the message that goes in now is the last one
    rw [List.length_append, List.length_singleton] at hks'
    rcases List.eq_nil_or_concat' ks' with rfl | ⟨ks, k, rfl⟩
    · cases hks'
    have hks : ks.length = p.toPipe.length := by simpa using hks'
    have hzip : (ks ++ [k]).zip (p.toPipe ++ [m]) = ks.zip p.toPipe ++ [(k, m)] :=
      List.zip_append hks
    refine ⟨ks, hks, .single ?_⟩
    have hsend : Net.Step job (p.straight ks) _ := .send k h
    simpa only [straight, hzip, List.append_assoc] using hsend
  | @forward m rest n out flow k hm hn hb =>
    obtain ⟨n', hn'⟩ := hpipe n m
    rw [hb, Prod.mk.injEq] at hn'
    obtain ⟨rfl, -⟩ := hn'
    refine ⟨k :: ks', by rw [hm, List.length_cons, hks', List.length_cons], ?_⟩
    have hsame : p.net.toWorkers ++ (k :: ks').zip p.toPipe =
        (p.net.toWorkers ++ [(k, m)]) ++ ks'.zip rest := by
      rw [hm, List.zip_cons_cons, List.append_assoc]
      rfl
    rw [straight, hsame]
    exact .refl
  | other h hvent => exact ⟨ks', hks', .single (step_late h hvent _)⟩

/-- Every run with a pipe is one without, by induction on its steps. -/
theorem straight_run (hpipe : Pipe.Forwards pipe)
    (hrun : ReflTransGen (Step pipe job) (start acts) p) {ks : List ι}
    (hks : ks.length = p.toPipe.length) :
    ReflTransGen (Net.Step job) (Net.start acts) (p.straight ks) := by
  induction hrun generalizing ks with
  | refl =>
    obtain rfl := List.length_eq_zero_iff.mp hks
    exact .refl
  | tail _ hstep ih =>
    obtain ⟨ks₀, hks₀, hsteps⟩ := hstep.straight hpipe hks
    exact (ih hks₀).trans hsteps

/-! ## A run without a pipe is one with it

A message goes through the pipe in two steps: the vent hands it over, and the pipe hands it on at
once. -/

/-- What the vent sends can go through the pipe at once. -/
theorem piped_step (hpipe : Pipe.Forwards pipe) (hstep : Net.Step job n n') (i : Int) :
    ∃ i', ReflTransGen (Step pipe job) { net := n, toPipe := [], pipe := .next i }
      { net := n', toPipe := [], pipe := .next i' } := by
  have hother : (∀ m acts, n.vent = .send m :: acts → n'.vent = n.vent) →
      ∃ i', ReflTransGen (Step pipe job) { net := n, toPipe := [], pipe := .next i }
        { net := n', toPipe := [], pipe := .next i' } :=
    fun hvent => ⟨i, .single (.other hstep hvent)⟩
  cases hstep with
  | tellSink h => exact hother fun m acts hsend => by rw [h] at hsend; cases hsend
  | sleep h => exact hother fun m acts hsend => by rw [h] at hsend; cases hsend
  | work ht hb => exact hother fun _ _ _ => rfl
  | sink hs ht hb => exact hother fun _ _ _ => rfl
  | @send m acts k h =>
    obtain ⟨i', hi'⟩ := hpipe i m
    let handed : PipedNet ι α :=
      { net := { n with vent := acts }, toPipe := [m], pipe := .next i }
    have hsend : Step pipe job { net := n, toPipe := [], pipe := .next i } handed := .send h
    have hforward : Step pipe job handed _ := .forward k rfl rfl hi'
    exact ⟨i', (ReflTransGen.single hsend).tail hforward⟩

/-- The converse: a run without a pipe is one in which the pipe forwards at once. -/
theorem piped_run (hpipe : Pipe.Forwards pipe)
    (hrun : ReflTransGen (Net.Step job) (Net.start acts) n) :
    ∃ i, ReflTransGen (Step pipe job) (start acts) { net := n, toPipe := [], pipe := .next i } := by
  induction hrun with
  | refl => exact ⟨0, .refl⟩
  | tail _ hstep ih =>
    obtain ⟨i, hi⟩ := ih
    obtain ⟨i', hi'⟩ := piped_step hpipe hstep i
    exact ⟨i', hi.trans hi'⟩

/-! ## The end of a run

The pipe never leaves its loop, so that a run ends when it is empty and the rest has ended. -/

/-- The pipe never ends. -/
theorem alive_run (hpipe : Pipe.Forwards pipe)
    (hrun : ReflTransGen (Step pipe job) (start acts) p) : ∃ i, p.pipe = .next i := by
  induction hrun with
  | refl => exact ⟨0, rfl⟩
  | tail _ hstep ih =>
    cases hstep with
    | send h => exact ih
    | other h hvent => exact ih
    | @forward m _ n _ _ k hm hn hb =>
      obtain ⟨n', hn'⟩ := hpipe n m
      rw [hb, Prod.mk.injEq] at hn'
      exact ⟨n', hn'.2⟩

/-- With a pipe a run is over when nothing is in it and the rest is over. -/
theorem over_iff [Nonempty ι] (halive : ∃ i, p.pipe = .next i) :
    p.Over pipe job ↔ p.toPipe = [] ∧ p.net.Over job := by
  obtain ⟨i, hi⟩ := halive
  constructor
  · intro hover
    refine ⟨?_, fun net hstep => ?_⟩
    -- a message in the pipe can always be handed on
    · cases hm : p.toPipe with
      | nil => rfl
      | cons m rest => exact absurd (.forward (Classical.arbitrary ι) hm hi rfl) (hover _)
    · cases hstep with
      | send k h => exact hover _ (.send h)
      | tellSink h =>
        exact hover _ (.other (.tellSink h) fun m acts hsend => by rw [h] at hsend; cases hsend)
      | sleep h =>
        exact hover _ (.other (.sleep h) fun m acts hsend => by rw [h] at hsend; cases hsend)
      | work ht hb => exact hover _ (.other (.work ht hb) fun _ _ _ => rfl)
      | sink hs ht hb => exact hover _ (.other (.sink hs ht hb) fun _ _ _ => rfl)
  · rintro ⟨hempty, hover⟩ p' hstep
    cases hstep with
    -- what the vent can send into the pipe it can send to a worker
    | send h => exact hover _ (.send (Classical.arbitrary ι) h)
    | forward k hm hn hb =>
      rw [hempty] at hm
      cases hm
    | other h hvent => exact hover _ h

end Simulation

/-- **A pipe is transparent.** A run with a pipe between the vent and its workers is one of the same
workers without it, whoever of them gets what is still in the pipe, so that the sink has received
and done the same; a run without is one with a pipe that has handed everything on; and a run with a
pipe is over if that is so and the run without is over. -/
theorem transparent [Nonempty ι] {count : Int} (hcount : count ≠ 0)
    {pipe : Body Int (PipeEvent (DataMsg α)) (Frame (DataMsg α)) PipeExit}
    (hpipe : pipe = PipeCount.body count ∨ pipe = PipeDump.body count)
    (job : DataMsg α → List Str) (acts : List (VentAct α)) :
    (∀ p : PipedNet ι α, ReflTransGen (Step pipe job) (start acts) p →
      (∀ ks, ks.length = p.toPipe.length →
        ReflTransGen (Net.Step job) (Net.start acts) (p.straight ks)) ∧
      (p.Over pipe job ↔ p.toPipe = [] ∧ p.net.Over job)) ∧
    ∀ n : Net ι α, ReflTransGen (Net.Step job) (Net.start acts) n →
      ∃ i, ReflTransGen (Step pipe job) (start acts)
        { net := n, toPipe := [], pipe := .next i } := by
  have hforwards : Pipe.Forwards pipe := by
    rcases hpipe with rfl | rfl
    · exact Pipe.forwards_count hcount
    · exact Pipe.forwards_dump hcount
  refine ⟨fun p hrun => ⟨fun ks hks => straight_run hforwards hrun hks, ?_⟩, fun n hrun => ?_⟩
  · exact over_iff (alive_run hforwards hrun)
  · exact piped_run hforwards hrun

/-- Two numbers go into a pipecount behind the first message. Without the pipe each would have been
sent to a worker of its own, and that run can be carried on to its end, with the pipe as without. -/
theorem transparent_twoWorkers :
    ∃ p : PipedNet Bool Int,
      ReflTransGen (Step (PipeCount.body 100) fun _ => []) (start (numberActs 2)) p ∧
      p.Over (PipeCount.body 100) (fun _ => []) ∧ OnceAfterAll 2 p.net.calls := by
  let job : DataMsg Int → List Str := fun _ => []
  let pipe : Body Int (PipeEvent (DataMsg Int)) (Frame (DataMsg Int)) PipeExit :=
    PipeCount.body 100
  have hacts : numberActs 2 =
      [.sink (.firstMsg 0), .send ⟨0, 7⟩, .send ⟨1, 7⟩, .sink (.lastMsg 1)] := by decide +kernel
  have h : SendsBatch (numberActs 2) 1 := ⟨by decide +kernel, by decide +kernel, by decide⟩
  obtain ⟨hwith, hwithout⟩ := transparent (ι := Bool) (show (100 : Int) ≠ 0 by decide)
    (.inl (Eq.refl pipe)) job (numberActs 2)
  obtain ⟨n₁, hfirst, hdelivered, hvent⟩ := Net.run_first (ι := Bool) job
    (.firstMsg 0) [.send ⟨0, 7⟩, .send ⟨1, 7⟩, .sink (.lastMsg 1)]
  rw [← hacts] at hfirst
  obtain ⟨i₁, hpiped⟩ := hwithout n₁ hfirst
  let full : PipedNet Bool Int :=
    { net := { n₁ with vent := [.sink (.lastMsg 1)] }, toPipe := [⟨0, 7⟩, ⟨1, 7⟩]
      pipe := .next i₁ }
  have hfull : ReflTransGen (Step pipe job) (start (numberActs 2)) full :=
    (hpiped.tail (.send hvent)).tail (.send rfl)
  have hstraight := (hwith full hfull).1 [true, false] rfl
  obtain ⟨n, hrun, hover⟩ := Net.exists_over job (full.straight [true, false])
  have hall := hstraight.trans hrun
  obtain ⟨i, hlast⟩ := hwithout n hall
  have hhead : n.delivered.head? = some (.firstMsg 0) := by
    obtain ⟨rest, hrest⟩ := delivered_prefix hrun
    have hone : (full.straight [true, false]).delivered = [.firstMsg 0] := hdelivered
    rw [← hrest, hone]
    rfl
  exact ⟨_, hlast, (hwith _ hlast).2.mpr ⟨rfl, hover⟩,
    onceAfterAll_of_first h (Net.inv_run h.ends_code hall) hover hhead⟩

end PipedNet

end Skweltch
