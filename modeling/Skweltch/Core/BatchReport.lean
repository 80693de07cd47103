import Skweltch.Core.BatchOnce
import Skweltch.Core.SinkWorker

/-!
# Skweltch — what a machine reports

What the worker of a sink has been told when a run of vent, workers and sink is over: with the first
message delivered first, one `process` for each message of the vent, in the order in which the
workers happened to deliver them, and then `results` (`calls_of_first`). Nothing is left over, so that
the next vent finds the machine as it was at the start, and `Rounds` follow each other. A worker that
does nothing for the ends of a batch, like all of `sink/`, reports what it makes of that
(`Rounds.run_eq`).
-/

namespace Skweltch

open EventLoop Fifo Relation

namespace ISinkWorker

variable {σ ρ : Type} {w : ISinkWorker σ ρ}

/-- `first` and `last` have empty bodies. -/
def SkipsEnds (w : ISinkWorker σ ρ) : Prop :=
  ∀ s id, w s (.first id) = .ok (s, []) ∧ w s (.last id) = .ok (s, [])

def isEnd : SinkCall → Bool
  | .first _ => true
  | .last _ => true
  | .process _ _ => false
  | .results => false

/-- A call that is answered with nothing may be left out. -/
theorem run_cons_skip {s : σ} {c : SinkCall} (h : w s c = .ok (s, [])) (cs : List SinkCall) :
    w.run s (c :: cs) = w.run s cs := by
  rw [run, h]
  cases hrest : w.run s cs with
  | error f => simp only [hrest]
  | ok r => simp only [hrest, List.nil_append]

theorem run_cons_congr {cs ds : List SinkCall} (h : ∀ s, w.run s cs = w.run s ds) (s : σ)
    (c : SinkCall) : w.run s (c :: cs) = w.run s (c :: ds) := by
  simp only [run, h]

/-- Two parts may be replaced by others that are answered alike. -/
theorem run_append_congr {cs cs' ds ds' : List SinkCall} (hcs : ∀ s, w.run s cs = w.run s cs')
    (hds : ∀ s, w.run s ds = w.run s ds') (s : σ) :
    w.run s (cs ++ ds) = w.run s (cs' ++ ds') := by
  have hsplit : ∀ (cs ds : List SinkCall) (s : σ), w.run s (cs ++ ds) =
      (w.run s cs).bind fun q => (w.run q.1 ds).map fun r => (r.1, q.2 ++ r.2) := by
    intro cs ds
    induction cs with
    | nil =>
      intro s
      cases h : w.run s ds with
      | error f => simp [h, Except.map, Except.bind, run]
      | ok r => simp [h, Except.map, Except.bind, run]
    | cons c cs ih =>
      intro s
      rw [List.cons_append, run, run]
      cases hc : w s c with
      | error f => rfl
      | ok r =>
        simp only [ih]
        cases w.run r.1 cs with
        | error f => rfl
        | ok q =>
          simp only [Except.bind]
          cases w.run q.1 ds with
          | error f => rfl
          | ok q' => simp [Except.map]
  rw [hsplit, hsplit, hcs]
  simp only [hds]

/-- A worker that skips the ends does not see whether they are there. -/
theorem run_skipping (hw : w.SkipsEnds) (s : σ) (cs : List SinkCall) :
    w.run s (cs.filter fun c => !isEnd c) = w.run s cs := by
  induction cs generalizing s with
  | nil => rfl
  | cons c cs ih =>
    cases c with
    | first id => exact (ih s).trans (run_cons_skip (hw s id).1 cs).symm
    | last id => exact (ih s).trans (run_cons_skip (hw s id).2 cs).symm
    | process id data => exact run_cons_congr ih s (.process id data)
    | results => exact run_cons_congr ih s .results

end ISinkWorker

variable {ι α : Type} {job : DataMsg α → List Str} {acts : List (VentAct α)} {k : Nat}
  {n : Net ι α}

/-- The messages for the sink that a worker's `processMsg` puts on the socket; one that throws puts
nothing there. -/
def jobOf (processMsg : DataMsg α → Except Fault SinkMsg) (m : DataMsg α) : List Str :=
  match processMsg m with
  | .ok s => s.data
  | .error _ => []

/-- The calls for a batch, the data messages in this order. -/
def batchCalls (job : DataMsg α → List Str) (ms : List (DataMsg α)) : List SinkCall :=
  ms.map (fun m => .process m.id (job m)) ++ [.results]

/-- The calls that are no ends are those of data messages. -/
theorem isEnd_callOf (m : SinkMsg) :
    (!ISinkWorker.isEnd (Batch.callOf m)) = decide (m.code = 2) := by
  unfold Batch.callOf
  by_cases h1 : m.code = 1
  · rw [if_pos h1, h1]
    rfl
  · rw [if_neg h1]
    by_cases h2 : m.code = 2
    · rw [if_pos h2, h2]
      rfl
    · rw [if_neg h2, decide_eq_false h2]
      rfl

namespace SendsBatch

/-- What the workers have sent is the data that the sink gets. -/
theorem data_of_sent (h : SendsBatch acts k) (job : DataMsg α → List Str) :
    ((Net.sent job acts).filter fun m => decide (m.code = 2)).Perm
      ((dataMsgs acts).map fun m => SinkMsg.dataMsg m.id (job m)) := by
  have hperm := (sent_perm job acts).filter fun m => decide (m.code = 2)
  rw [List.filter_append, h.told] at hperm
  have hdata : ((dataMsgs acts).map fun m => SinkMsg.dataMsg m.id (job m)).filter
      (fun m => decide (m.code = 2)) =
      (dataMsgs acts).map fun m => SinkMsg.dataMsg m.id (job m) := by
    rw [List.filter_eq_self]
    intro m hm
    obtain ⟨x, -, rfl⟩ := List.mem_map.mp hm
    rfl
  rw [hdata] at hperm
  exact hperm

end SendsBatch

section Runs

variable [Nonempty ι]

/-- Nothing is on its way and the sink waits for a batch. -/
structure Idle (n : Net ι α) : Prop where
  toWorkers : n.toWorkers = []
  toSink : n.toSink = []
  sink : n.sink = .next Sink.init

/-- **With the first message delivered first**, the calls are those of all messages, in the order of
delivery, and the results; and the machine is idle again. -/
theorem calls_of_first [DecidableEq ι] (h : SendsBatch acts k) (hinv : Net.Inv job acts n)
    (hover : n.Over job) (hfirst : n.delivered.head? = some (.firstMsg 0)) :
    Idle n ∧ n.delivered.Perm (Net.sent job acts) ∧
      n.calls = n.delivered.map Batch.callOf ++ [.results] := by
  obtain ⟨rest, hrest⟩ := List.head?_eq_some_iff.mp hfirst
  have hall : (SinkMsg.firstMsg 0 :: (rest ++ n.owed job)).Perm (Net.sent job acts) := by
    have hconserved := hinv.conserved
    rwa [hrest] at hconserved
  obtain ⟨b, hmsgs, -⟩ := h.exists_batch hall
  obtain ⟨hflow, hcalls⟩ := batch_run b
  have hsplit : b.msgs = n.delivered ++ n.owed job := by
    rw [hmsgs, hrest]
    rfl
  rw [hsplit, List.map_append] at hflow hcalls
  -- the sink has not left its loop, so that nothing is on its way any more
  obtain ⟨s, hs⟩ := next_of_prefix hflow
  have howed : n.owed job = [] := Net.owed_of_over hover (hinv.ran.symm.trans hs)
  rw [howed, List.map_nil, List.append_nil] at hflow hcalls
  refine ⟨?_, ?_, ?_⟩
  · obtain ⟨hsink, hrest⟩ := List.append_eq_nil_iff.mp howed
    exact
      { toWorkers := List.map_eq_nil_iff.mp (List.append_eq_nil_iff.mp hrest).1
        toSink := List.map_eq_nil_iff.mp hsink
        sink := hinv.ran.symm.trans hflow }
  · have hconserved := hinv.conserved
    rwa [howed, List.append_nil] at hconserved
  · rw [hinv.called] at hcalls
    rw [hcalls, List.append_nil]

/-- What a sink's worker makes of a run is what it makes of the messages of the vent, each of them
once, in some order. -/
theorem run_of_first {σ ρ : Type} {w : ISinkWorker σ ρ} (hw : w.SkipsEnds)
    (h : SendsBatch acts k) (hrun : ReflTransGen (Net.Step job) (Net.start acts) n)
    (hover : n.Over job) (hfirst : n.delivered.head? = some (.firstMsg 0)) :
    Idle n ∧ ∃ ms : List (DataMsg α), ms.Perm (dataMsgs acts) ∧
      ∀ s, w.run s n.calls = w.run s (batchCalls job ms) := by
  classical
  obtain ⟨hidle, hperm, hcalls⟩ :=
    calls_of_first h (Net.inv_run h.ends_code hrun) hover hfirst
  have hdata := (hperm.filter fun m => decide (m.code = 2)).trans (h.data_of_sent job)
  -- an order of the messages for the sink is one of the messages of the vent
  have hcomp := congrFun₂ (List.eq_map_comp_perm fun m => SinkMsg.dataMsg m.id (job m))
    (n.delivered.filter fun m => decide (m.code = 2)) (dataMsgs acts)
  obtain ⟨ms, hms, hall⟩ := hcomp.mpr hdata
  refine ⟨hidle, ms, hall, fun s => ?_⟩
  rw [← ISinkWorker.run_skipping hw, hcalls, List.filter_append, List.filter_map]
  have hfilter : (fun c => !ISinkWorker.isEnd c) ∘ Batch.callOf =
      fun m : SinkMsg => decide (m.code = 2) := funext isEnd_callOf
  rw [hfilter, hms, List.map_map]
  rfl

end Runs

/-! ## One batch after another

When a batch is over the machine is as at the beginning, so that the next one runs as if it were the
first. -/

/-- `m`, with what the sink received and did before. -/
def Net.after (n m : Net ι α) : Net ι α :=
  { m with delivered := n.delivered ++ m.delivered, calls := n.calls ++ m.calls }

/-- What happened before makes no difference to what can happen. -/
theorem Net.Step.after (n : Net ι α) {m m' : Net ι α} (h : Net.Step job m m') :
    Net.Step job (n.after m) (n.after m') := by
  cases h with
  | tellSink h => exact .tellSink h
  | send k h => exact .send k h
  | sleep h => exact .sleep h
  | work ht hb => exact .work ht hb
  | sink hs ht hb =>
    have hstep := @Net.Step.sink _ _ job (n.after m) _ _ _ _ _ _ hs ht hb
    simpa [Net.after] using hstep

/-- A step of the next batch is one behind those that are over. -/
theorem Net.step_after {m x : Net ι α} (h : Net.Step job (n.after m) x) :
    ∃ m', Net.Step job m m' ∧ x = n.after m' := by
  cases h with
  | tellSink h => exact ⟨_, .tellSink h, rfl⟩
  | send k h => exact ⟨_, .send k h, rfl⟩
  | sleep h => exact ⟨_, .sleep h, rfl⟩
  | work ht hb => exact ⟨_, .work ht hb, rfl⟩
  | sink hs ht hb =>
    refine ⟨_, .sink hs ht hb, ?_⟩
    simp [Net.after]

theorem Net.run_after {m x : Net ι α} (h : ReflTransGen (Net.Step job) (n.after m) x) :
    ∃ m', ReflTransGen (Net.Step job) m m' ∧ x = n.after m' := by
  induction h with
  | refl => exact ⟨m, .refl, rfl⟩
  | tail _ hstep ih =>
    obtain ⟨m', hrun, rfl⟩ := ih
    obtain ⟨m'', hstep', rfl⟩ := Net.step_after hstep
    exact ⟨m'', hrun.tail hstep', rfl⟩

theorem Idle.eq_after (h : Idle n) (acts : List (VentAct α)) :
    ({ n with vent := acts } : Net ι α) = n.after (Net.start acts) := by
  simp [Net.after, Net.start, h.toWorkers, h.toSink, h.sink]

/-- Rounds of a machine: a vent is started when nothing happens any more, and its first message is
delivered first. -/
inductive Rounds (job : DataMsg α → List Str) : List (List (VentAct α)) → Net ι α → Prop where
  | nil : Rounds job [] (Net.start [])
  | next {rounds : List (List (VentAct α))} {n n' : Net ι α} {acts : List (VentAct α)}
      (h : Rounds job rounds n)
      (hrun : ReflTransGen (Net.Step job) { n with vent := acts } n') (hover : n'.Over job)
      (hfirst : (n'.delivered.drop n.delivered.length).head? = some (.firstMsg 0)) :
      Rounds job (rounds ++ [acts]) n'

/-- **What a sink's worker makes of rounds**: what it makes of their messages, each of them once,
round by round. -/
theorem Rounds.run_eq [Nonempty ι] {σ ρ : Type} {w : ISinkWorker σ ρ} (hw : w.SkipsEnds)
    {rounds : List (List (VentAct α))} (hrounds : ∀ acts ∈ rounds, ∃ k, SendsBatch acts k)
    (h : Rounds job rounds n) :
    Idle n ∧ ∃ mss : List (List (DataMsg α)),
      List.Forall₂ (fun ms acts => ms.Perm (dataMsgs acts)) mss rounds ∧
      ∀ s, w.run s n.calls = w.run s (mss.flatMap (batchCalls job)) := by
  induction h with
  | nil => exact ⟨⟨rfl, rfl, rfl⟩, [], .nil, fun s => rfl⟩
  | @next rounds n n' acts _ hrun hover hfirst ih =>
    obtain ⟨hbefore, hone⟩ := List.forall_mem_append.mp hrounds
    obtain ⟨k, hbatch⟩ := hone acts (List.mem_singleton_self acts)
    obtain ⟨hidle, mss, hmss, hcalls⟩ := ih hbefore
    rw [hidle.eq_after] at hrun
    obtain ⟨m, hm, rfl⟩ := Net.run_after hrun
    have hoverm : m.Over job := fun m' hstep => hover _ (hstep.after n)
    have hfirstm : m.delivered.head? = some (.firstMsg 0) := by
      rw [show (n.after m).delivered = n.delivered ++ m.delivered from rfl,
        List.drop_left] at hfirst
      exact hfirst
    obtain ⟨hidlem, ms, hms, hcallsm⟩ := run_of_first hw hbatch hm hoverm hfirstm
    refine ⟨⟨hidlem.toWorkers, hidlem.toSink, hidlem.sink⟩, mss ++ [ms], ?_, fun s => ?_⟩
    · exact List.rel_append hmss (.cons hms .nil)
    · rw [List.flatMap_append, List.flatMap_singleton]
      exact ISinkWorker.run_append_congr hcalls hcallsm s

/-- A vent's first message can be delivered before all others, and the run carried on to its end. -/
theorem exists_first (job : DataMsg α → List Str) (first : SinkMsg) (acts : List (VentAct α)) :
    ∃ n : Net ι α, ReflTransGen (Net.Step job) (Net.start (.sink first :: acts)) n ∧
      n.Over job ∧ n.delivered.head? = some first := by
  obtain ⟨n₁, hfirst, hdelivered, -⟩ := Net.run_first (ι := ι) job first acts
  obtain ⟨n, hrun, hover⟩ := Net.exists_over job n₁
  obtain ⟨rest, hrest⟩ := delivered_prefix hrun
  refine ⟨n, hfirst.trans hrun, hover, ?_⟩
  rw [← hrest, hdelivered]
  rfl

/-- There are rounds of any vents that begin with the first message. -/
theorem exists_rounds [Nonempty ι] (job : DataMsg α → List Str) {rounds : List (List (VentAct α))}
    (hbatch : ∀ acts ∈ rounds, ∃ k, SendsBatch acts k)
    (hfirst : ∀ acts ∈ rounds, ∃ rest, acts = .sink (.firstMsg 0) :: rest) :
    ∃ n : Net ι α, Rounds job rounds n := by
  induction rounds using List.reverseRecOn with
  | nil => exact ⟨_, .nil⟩
  | append_singleton rounds acts ih =>
    obtain ⟨hbefore, -⟩ := List.forall_mem_append.mp hbatch
    obtain ⟨hfirstbefore, hone⟩ := List.forall_mem_append.mp hfirst
    obtain ⟨rest, rfl⟩ := hone acts (List.mem_singleton_self acts)
    obtain ⟨n, hn⟩ := ih hbefore hfirstbefore
    -- behind the rounds before, the machine is idle
    obtain ⟨hidle, -⟩ := hn.run_eq (w := fun (s : Unit) _ => .ok (s, ([] : List Unit)))
      (fun _ _ => ⟨rfl, rfl⟩) hbefore
    -- a round of its own, which is then run behind them
    obtain ⟨m, hm, hover, hhead⟩ := exists_first (ι := ι) job (.firstMsg 0) rest
    have hrun : ReflTransGen (Net.Step job) (n.after (Net.start (.sink (.firstMsg 0) :: rest)))
        (n.after m) := by
      clear hover hhead
      induction hm with
      | refl => exact .refl
      | tail _ hstep ih => exact ih.tail (hstep.after n)
    rw [← hidle.eq_after] at hrun
    refine ⟨n.after m, hn.next hrun (fun x hstep => ?_) ?_⟩
    · obtain ⟨m', hstep', -⟩ := Net.step_after hstep
      exact hover m' hstep'
    · rw [show (n.after m).delivered = n.delivered ++ m.delivered from rfl, List.drop_left]
      exact hhead

end Skweltch
