import Mathlib.Logic.Relation
import Skweltch.Core.SinkBatches
import Skweltch.Core.Vent
import Skweltch.Core.Work
import Skweltch.Lib.Fifo

/-!
# Skweltch — one batch from vent to sink

A vent, any number of workers and a sink, and the messages between them. The connections are FIFO
and lossless (`Fifo.Takes`) with no order between them: the first and last message of a batch go
directly from the vent to the sink, the data messages through a worker. A `Step` is one act of a
party; a run is any sequence of steps, and it is over when no party can act.
-/

namespace Skweltch

open EventLoop Fifo Relation

variable {ι α : Type}

/-- What a worker's calls send to the sink when it forwards a data message with the same id for
each message it processes; `job` are the strings it makes of a message. -/
def forward (job : DataMsg α → List Str) : WorkCall (DataMsg α) → List SinkMsg
  | .processMsg (.ok m) => [.dataMsg m.id (job m)]
  | .processMsg .failed => []
  | .processMsg .garbage => []
  | .timeout => []

/-- The parties and the messages in flight. The workers have no state of their own. -/
structure Net (ι α : Type) where
  /-- what the vent has still to do -/
  vent : List (VentAct α)
  toWorkers : List (ι × DataMsg α)
  /-- the vent's own connection has the key `none` -/
  toSink : List (Option ι × SinkMsg)
  sink : Flow SinkState SinkExit
  /-- what the sink has received -/
  delivered : List SinkMsg
  /-- the calls the sink has made on its worker -/
  calls : List SinkCall

namespace Net

def start (acts : List (VentAct α)) : Net ι α :=
  { vent := acts, toWorkers := [], toSink := [], sink := .next Sink.init, delivered := [],
    calls := [] }

inductive Step (job : DataMsg α → List Str) : Net ι α → Net ι α → Prop where
  | tellSink {n : Net ι α} {m : SinkMsg} {acts : List (VentAct α)}
      (h : n.vent = .sink m :: acts) :
      Step job n { n with vent := acts, toSink := n.toSink ++ [(none, m)] }
  /-- the socket picks a worker -/
  | send {n : Net ι α} {m : DataMsg α} {acts : List (VentAct α)} (k : ι)
      (h : n.vent = .send m :: acts) :
      Step job n { n with vent := acts, toWorkers := n.toWorkers ++ [(k, m)] }
  | sleep {n : Net ι α} {ms : Int} {acts : List (VentAct α)} (h : n.vent = .sleep ms :: acts) :
      Step job n { n with vent := acts }
  | work {n : Net ι α} {k : ι} {m : DataMsg α} {rest : List (ι × DataMsg α)}
      {out : List (WorkCall (DataMsg α))} (ht : Takes n.toWorkers k m rest)
      (hb : Work.body () (Work.deliver m) = (out, .next ())) :
      Step job n { n with
        toWorkers := rest
        toSink := n.toSink ++ (out.flatMap (forward job)).map fun x => (some k, x) }
  | sink {n : Net ι α} {c : Option ι} {m : SinkMsg} {rest : List (Option ι × SinkMsg)}
      {s : SinkState} {out : List SinkCall} {flow : Flow SinkState SinkExit}
      (hs : n.sink = .next s) (ht : Takes n.toSink c m rest)
      (hb : Sink.body s (Sink.deliver m) = (out, flow)) :
      Step job n { n with
        toSink := rest, sink := flow, delivered := n.delivered ++ [m], calls := n.calls ++ out }

def Over (job : DataMsg α → List Str) (n : Net ι α) : Prop := ∀ n', ¬ Step job n n'

/-! ## Every run ends

Each act of the vent is at most three steps, which a measure counts down. -/

def cost : VentAct α → Nat
  | .sink _ => 2
  | .send _ => 3
  | .sleep _ => 1

def measure (n : Net ι α) : Nat :=
  (n.vent.map cost).sum + 2 * n.toWorkers.length + n.toSink.length

/-- Every step brings a run nearer to its end. -/
theorem Step.measure_lt {job : DataMsg α → List Str} {n n' : Net ι α} (h : Step job n n') :
    n'.measure < n.measure := by
  cases h with
  | tellSink h =>
    simp only [measure, h, List.map_cons, List.sum_cons, cost, List.length_append,
      List.length_singleton]
    omega
  | send k h =>
    simp only [measure, h, List.map_cons, List.sum_cons, cost, List.length_append,
      List.length_singleton]
    omega
  | sleep h =>
    simp only [measure, h, List.map_cons, List.sum_cons, cost]
    omega
  | work ht hb =>
    rw [Work.body_deliver, Prod.mk.injEq] at hb
    obtain ⟨rfl, -⟩ := hb
    have hlen := ht.perm.length_eq
    simp only [List.length_cons] at hlen
    simp only [measure, forward, List.flatMap_cons, List.flatMap_nil, List.append_nil,
      List.map_cons, List.map_nil, List.length_append, List.length_singleton]
    omega
  | sink hs ht hb =>
    have hlen := ht.perm.length_eq
    simp only [List.length_cons] at hlen
    simp only [measure]
    omega

/-- Every run can be carried on to its end, and none goes on for ever. -/
theorem exists_over (job : DataMsg α → List Str) (n : Net ι α) :
    ∃ n', ReflTransGen (Step job) n n' ∧ n'.Over job := by
  induction hm : n.measure using Nat.strong_induction_on generalizing n with
  | _ k ih =>
    by_cases hover : n.Over job
    · exact ⟨n, .refl, hover⟩
    · unfold Over at hover
      push Not at hover
      obtain ⟨n₁, hstep⟩ := hover
      obtain ⟨n₂, hrun, hdone⟩ := ih n₁.measure (hm ▸ hstep.measure_lt) n₁ rfl
      exact ⟨n₂, .head hstep hrun, hdone⟩

/-! ## What is on its way

No message is lost or made twice: what was delivered and what is still owed are what was sent. -/

/-- The message to the sink that an act of the vent leads to. -/
def sentFor (job : DataMsg α → List Str) : VentAct α → List SinkMsg
  | .sink m => [m]
  | .send m => [.dataMsg m.id (job m)]
  | .sleep _ => []

def sent (job : DataMsg α → List Str) (acts : List (VentAct α)) : List SinkMsg :=
  acts.flatMap (sentFor job)

/-- The messages that have not reached the sink yet. -/
def owed (job : DataMsg α → List Str) (n : Net ι α) : List SinkMsg :=
  n.toSink.map Prod.snd ++
    (n.toWorkers.map (fun p => SinkMsg.dataMsg p.2.id (job p.2)) ++ sent job n.vent)

/-- When a run is over and the sink has not left its loop, everything has been delivered. -/
theorem owed_of_over [Nonempty ι] {job : DataMsg α → List Str} {n : Net ι α}
    (hover : n.Over job) {s : SinkState} (hs : n.sink = .next s) :
    n.owed job = [] := by
  have hvent : n.vent = [] := by
    cases hv : n.vent with
    | nil => rfl
    | cons a acts =>
      cases a with
      | sink m => exact absurd (.tellSink hv) (hover _)
      | send m => exact absurd (.send (Classical.arbitrary ι) hv) (hover _)
      | sleep ms => exact absurd (.sleep hv) (hover _)
  have hworkers : n.toWorkers = [] := by
    by_contra hne
    obtain ⟨k, m, rest, ht⟩ := exists_takes hne
    exact hover _ (.work ht (Work.body_deliver m))
  have hsink : n.toSink = [] := by
    by_contra hne
    obtain ⟨c, m, rest, ht⟩ := exists_takes hne
    exact hover _ (.sink hs ht rfl)
  simp [owed, hvent, hworkers, hsink, sent]

def ends (ms : List SinkMsg) : List SinkMsg := ms.filter fun m => decide (m.code ≠ 2)

theorem ends_append (as bs : List SinkMsg) : ends (as ++ bs) = ends as ++ ends bs :=
  List.filter_append ..

/-- What holds in every state of a run for the vent's `acts`: nothing is lost or doubled, the first
and the last message keep their order, workers send data messages only, and the sink has run on
what was delivered. -/
structure Inv [DecidableEq ι] (job : DataMsg α → List Str) (acts : List (VentAct α))
    (n : Net ι α) : Prop where
  conserved : (n.delivered ++ n.owed job).Perm (sent job acts)
  ordered : ends n.delivered ++ (queue none n.toSink ++ Vent.sinkMsgs n.vent) =
    Vent.sinkMsgs acts
  data : ∀ p ∈ n.toSink, p.1 ≠ none → p.2.code = 2
  ran : (Sink.process (n.delivered.map Sink.deliver)).2 = n.sink
  called : Sink.workerCalls (n.delivered.map Sink.deliver) = n.calls

variable [DecidableEq ι] {job : DataMsg α → List Str} {acts : List (VentAct α)} {n n' : Net ι α}

/-- Before the first step everything is still with the vent. -/
theorem inv_start : Inv job acts (start acts : Net ι α) where
  conserved := List.Perm.refl _
  ordered := rfl
  data := fun _ hp => absurd hp List.not_mem_nil
  ran := rfl
  called := rfl

/-- What the vent tells the sink is on its way. -/
theorem Inv.tellSink (h : Inv job acts n) {m : SinkMsg} {rest : List (VentAct α)}
    (hv : n.vent = .sink m :: rest) :
    Inv job acts { n with vent := rest, toSink := n.toSink ++ [(none, m)] } where
  conserved := by
    have hmove : (n.toSink.map Prod.snd ++ (m ::
        (n.toWorkers.map (fun p => SinkMsg.dataMsg p.2.id (job p.2)) ++ sent job rest))).Perm
        (n.owed job) := by
      have hsent : sent job (.sink m :: rest) = m :: sent job rest := rfl
      rw [owed, hv, hsent]
      exact List.perm_middle.symm.append_left _
    refine List.Perm.trans (List.Perm.append_left _ ?_) h.conserved
    simpa [owed] using hmove
  ordered := by
    rw [← h.ordered, hv, queue_append, queue_cons_self]
    simp
  data := by
    intro p hp hne
    rcases List.mem_append.mp hp with hp | hp
    · exact h.data p hp hne
    · rw [List.mem_singleton.mp hp] at hne
      exact absurd rfl hne
  ran := h.ran
  called := h.called

/-- What it sends goes to one of the workers. -/
theorem Inv.send (h : Inv job acts n) (k : ι) {m : DataMsg α} {rest : List (VentAct α)}
    (hv : n.vent = .send m :: rest) :
    Inv job acts { n with vent := rest, toWorkers := n.toWorkers ++ [(k, m)] } where
  conserved := by
    have howed : Net.owed job { n with vent := rest, toWorkers := n.toWorkers ++ [(k, m)] } =
        n.owed job := by
      simp [owed, hv, sent, sentFor]
    rw [howed]
    exact h.conserved
  ordered := by
    rw [← h.ordered, hv]
    rfl
  data := h.data
  ran := h.ran
  called := h.called

/-- What a worker has done is on its way to the sink. -/
theorem Inv.work (h : Inv job acts n) {k : ι} {m : DataMsg α} {rest : List (ι × DataMsg α)}
    (ht : Takes n.toWorkers k m rest) :
    Inv job acts { n with
      toWorkers := rest, toSink := n.toSink ++ [(some k, .dataMsg m.id (job m))] } where
  conserved := by
    have hwork := ht.perm.map fun p => SinkMsg.dataMsg p.2.id (job p.2)
    have hmove : (n.toSink.map Prod.snd ++ (SinkMsg.dataMsg m.id (job m) ::
        rest.map (fun p => SinkMsg.dataMsg p.2.id (job p.2)) ++ sent job n.vent)).Perm
        (n.owed job) :=
      (hwork.symm.append_right _).append_left _
    refine List.Perm.trans (List.Perm.append_left _ ?_) h.conserved
    simpa [owed] using hmove
  ordered := by
    rw [← h.ordered, queue_append, queue_cons_ne (by simp)]
    simp
  data := by
    intro p hp hne
    rcases List.mem_append.mp hp with hp | hp
    · exact h.data p hp hne
    · rw [List.mem_singleton.mp hp]
      rfl
  ran := h.ran
  called := h.called

/-- What the sink takes is delivered. -/
theorem Inv.sink (h : Inv job acts n) (hends : ∀ m ∈ Vent.sinkMsgs acts, m.code ≠ 2)
    {c : Option ι} {m : SinkMsg} {rest : List (Option ι × SinkMsg)} {s : SinkState}
    {out : List SinkCall} {flow : Flow SinkState SinkExit} (hs : n.sink = .next s)
    (ht : Takes n.toSink c m rest) (hb : Sink.body s (Sink.deliver m) = (out, flow)) :
    Inv job acts { n with
      toSink := rest, sink := flow, delivered := n.delivered ++ [m], calls := n.calls ++ out } where
  conserved := by
    have hsink := ht.perm.map Prod.snd
    have hmove : (m :: rest.map Prod.snd ++
        (n.toWorkers.map (fun p => SinkMsg.dataMsg p.2.id (job p.2)) ++ sent job n.vent)).Perm
        (n.owed job) := hsink.symm.append_right _
    have hall := (List.Perm.append_left n.delivered hmove).trans h.conserved
    simpa [owed] using hall
  ordered := by
    rw [← h.ordered, ends_append]
    cases c with
    | none =>
      -- from the vent: an end, the first in its queue
      have hm : m ∈ Vent.sinkMsgs acts := by
        rw [← h.ordered, ht.queue_self]
        simp
      have hend : ends [m] = [m] := by simp [ends, hends m hm]
      rw [hend, ht.queue_self]
      simp
    | some k =>
      -- from a worker: data, which leaves the order of the ends alone
      have hm : ((some k, m) : Option ι × SinkMsg) ∈ n.toSink :=
        ht.perm.mem_iff.mpr (List.mem_cons_self ..)
      have hcode : m.code = 2 := h.data _ hm (by simp)
      have hend : ends [m] = [] := by simp [ends, hcode]
      rw [hend, ht.queue_ne (by simp), List.append_nil]
  data := fun p hp => h.data p (ht.perm.mem_iff.mpr (List.mem_cons_of_mem _ hp))
  ran := by
    have hrun : run Sink.body Sink.init (n.delivered.map Sink.deliver) = (_, .next s) :=
      Prod.ext rfl (h.ran.trans hs)
    rw [Sink.process, List.map_append, List.map_singleton, run_snoc hrun, hb]
  called := by
    have hrun : run Sink.body Sink.init (n.delivered.map Sink.deliver) = (_, .next s) :=
      Prod.ext rfl (h.ran.trans hs)
    rw [Sink.workerCalls, List.map_append, List.map_singleton, calls_snoc hrun, hb, ← h.called]
    rfl

/-- What one step of any party preserves. -/
theorem Inv.step (h : Inv job acts n) (hends : ∀ m ∈ Vent.sinkMsgs acts, m.code ≠ 2)
    (hstep : Step job n n') : Inv job acts n' := by
  cases hstep with
  | tellSink hv => exact h.tellSink hv
  | send k hv => exact h.send k hv
  | sleep hv =>
    refine ⟨?_, ?_, h.data, h.ran, h.called⟩
    · have := h.conserved
      rwa [owed, hv] at this
    · rw [← h.ordered, hv]
      rfl
  | work ht hb =>
    rw [Work.body_deliver, Prod.mk.injEq] at hb
    obtain ⟨rfl, -⟩ := hb
    exact h.work ht
  | sink hs ht hb => exact h.sink hends hs ht hb

/-- **The invariant holds in every state of every run.** -/
theorem inv_run (hends : ∀ m ∈ Vent.sinkMsgs acts, m.code ≠ 2)
    (hrun : ReflTransGen (Step job) (start acts) n) : Inv job acts n := by
  induction hrun with
  | refl => exact inv_start
  | tail _ hstep ih => exact ih.step hends hstep

end Net

end Skweltch
