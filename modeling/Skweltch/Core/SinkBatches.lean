import Skweltch.Core.Batch

/-!
# Skweltch — a sink fed with batches

When every batch is led by its `First`, the sink does what it is for. A `Delivery` is a batch
together with what the sink sees in between: before each message a `Gap` of poll timeouts (fewer
than seven) and control messages with a non-zero value. `process_batches` gives the calls of every
iteration of `Sink::process` over any list of deliveries: nothing in the gaps, the message's own
call when it arrives, and the results right after the last missing message of each batch.

The runs compose as the batches do: `quiet_run` for a gap, `rest_run` for what follows `First` (by
induction on the messages still to come, with `Batch.Progress` as the invariant), `delivery_run`
for one batch and `deliveries_run` for all of them.
-/

namespace Skweltch

open EventLoop

/-- What may come between two messages without being noticed. -/
def Quiet (e : SinkEvent) : Prop := e = .timeout ∨ ∃ v ≠ 0, e = .control (.ok v)

structure Gap where
  events : List SinkEvent
  quiet : ∀ e ∈ events, Quiet e
  few : events.count .timeout < 7

structure Delivery where
  batch : Batch
  steps : List (Gap × SinkMsg)
  msgs : steps.map Prod.snd = batch.msgs

def stepEvents (p : Gap × SinkMsg) : List SinkEvent := p.1.events ++ [Sink.deliver p.2]

def stepsEvents (steps : List (Gap × SinkMsg)) : List SinkEvent := steps.flatMap stepEvents

def stepCalls (p : Gap × SinkMsg) (out : List SinkCall) : List (List SinkCall) :=
  List.replicate p.1.events.length [] ++ [out]

def stepsCalls : List (Gap × SinkMsg) → List (List SinkCall)
  | [] => []
  | [p] => stepCalls p [Batch.callOf p.2, .results]
  | p :: q :: rest => stepCalls p [Batch.callOf p.2] ++ stepsCalls (q :: rest)

namespace Sink

/-- Up to six quiet turns in a row change nothing but the retries. -/
theorem quiet_run {es : List SinkEvent} (hq : ∀ e ∈ es, Quiet e) {s : SinkState}
    (hr : s.retries + es.count .timeout ≤ 6) :
    run body s es =
      (List.replicate es.length [], .next { s with retries := s.retries + es.count .timeout }) := by
  induction es generalizing s with
  | nil => simp
  | cons e es ih =>
    have hq' : ∀ e ∈ es, Quiet e := fun e he => hq e (List.mem_cons_of_mem _ he)
    rcases hq e List.mem_cons_self with rfl | ⟨v, hv, rfl⟩
    · rw [List.count_cons_self] at hr ⊢
      have hstep : body s .timeout = ([], .next { s with retries := s.retries + 1 }) := by
        show idle s = _
        rw [idle, if_neg (by unfold maxretries; omega)]
      rw [run_cons_next hstep, ih hq' (by show s.retries + 1 + _ ≤ 6; omega)]
      show _ = ([] :: List.replicate es.length [], _)
      rw [show s.retries + ((es.count .timeout + 1 : Nat) : Int)
        = s.retries + 1 + es.count .timeout from by omega]
    · have hcount : (SinkEvent.control (.ok v) :: es).count .timeout = es.count .timeout :=
        List.count_cons_of_ne (by simp)
      rw [hcount] at hr ⊢
      have hstep : body s (.control (.ok v)) = ([], .next s) := if_neg hv
      rw [run_cons_next hstep, ih hq' hr]
      rfl

/-- A message behind a gap: the retries are forgotten. -/
theorem step_run (p : Gap × SinkMsg) {s : SinkState} (hr : s.retries = 0) {out : List SinkCall}
    {s' : SinkState}
    (h : ∀ r, body { s with retries := r } (deliver p.2) = (out, .next s')) :
    run body s (stepEvents p) = (stepCalls p out, .next s') := by
  have hfew := p.1.few
  exact run_append (quiet_run p.1.quiet (by omega)) (run_singleton (h _))

/-- What follows the first message of a batch, by induction on the steps. -/
theorem rest_run (b : Batch) (steps : List (Gap × SinkMsg)) (hne : steps ≠ [])
    {got : List SinkMsg} (hrest : got ++ steps.map Prod.snd = b.rest) {s : SinkState}
    (hs : b.Progress got s.tracker) (hr : s.retries = 0) :
    run body s (stepsEvents steps) = (stepsCalls steps, .next init) := by
  induction steps generalizing got s with
  | nil => exact absurd rfl hne
  | cons p steps ih =>
    have hrest' : (got ++ [p.2]) ++ steps.map Prod.snd = b.rest := by simpa using hrest
    have hmem : p.2 ∈ b.rest := by rw [← hrest]; simp
    have hdeliver := fun r => Batch.deliver_rest (s := { s with retries := r }) hs hmem
    cases steps with
    | nil =>
      -- nothing is left to come, so nothing is missing
      have hall : ∀ m ∈ b.rest, m ∈ got ++ [p.2] := by
        rw [← hrest']; simp
      have hlast : ∀ r, body { s with retries := r } (deliver p.2) =
          ([Batch.callOf p.2, .results], .next init) := by
        intro r
        rcases hdeliver r with ⟨_, h⟩ | ⟨⟨m, hm, hnot⟩, _⟩
        · exact h
        · exact absurd (hall m hm) hnot
      have hrun := step_run p hr hlast
      simpa [stepsEvents, stepsCalls] using hrun
    | cons q steps =>
      -- the message of `q` is still missing
      have hmiss : q.2 ∈ b.rest ∧ q.2 ∉ got ++ [p.2] := by
        have hnodup := b.rest_nodup
        rw [← hrest'] at hnodup ⊢
        refine ⟨by simp, fun hq => ?_⟩
        exact (List.nodup_append.mp hnodup).2.2 _ hq _ (by simp) rfl
      have hopen : ∀ r, ∃ t, body { s with retries := r } (deliver p.2) =
          ([Batch.callOf p.2], .next { tracker := t, retries := 0 }) ∧
            b.Progress (got ++ [p.2]) t := by
        intro r
        rcases hdeliver r with ⟨hall, _⟩ | ⟨_, h⟩
        · exact absurd (hall _ hmiss.1) hmiss.2
        · exact h
      obtain ⟨t, ht, hprog⟩ := hopen 0
      -- the counter does not influence what a message does
      have hstep : ∀ r, body { s with retries := r } (deliver p.2) =
          ([Batch.callOf p.2], .next { tracker := t, retries := 0 }) := fun r => ht
      have hrun := step_run p hr hstep
      have hih := ih (by simp) hrest' (s := { tracker := t, retries := 0 }) hprog rfl
      exact run_append hrun hih

/-- A whole batch: the sink ends as it began. -/
theorem delivery_run (d : Delivery) :
    run body init (stepsEvents d.steps) = (stepsCalls d.steps, .next init) := by
  obtain ⟨b, steps, hmsgs⟩ := d
  cases steps with
  | nil => exact absurd hmsgs (by simp [Batch.msgs])
  | cons p steps =>
    have hp : p.2 = .firstMsg b.first := (List.cons.inj hmsgs).1
    have hrest : [] ++ steps.map Prod.snd = b.rest := (List.cons.inj hmsgs).2
    have hprog := b.progress_first
    have hfirst : ∀ r, body { init with retries := r } (deliver p.2) =
        ([Batch.callOf p.2], .next { tracker := MsgTracker.init.setFirst b.first, retries := 0 }) := by
      intro r
      have hopen : ¬(MsgTracker.init.setFirst b.first).complete = true := by
        rw [MsgTracker.not_complete_of_last_unset hprog.opened.first_ne rfl]; decide
      rw [hp, body_firstMsg]
      exact if_neg hopen
    have hne : steps ≠ [] := by
      rintro rfl
      exact b.rest_ne_nil hrest.symm
    have hrun := step_run p rfl hfirst
    have htail := rest_run b steps hne hrest
      (s := { tracker := MsgTracker.init.setFirst b.first, retries := 0 }) hprog rfl
    cases steps with
    | nil => exact absurd rfl hne
    | cons q steps => exact run_append hrun htail

theorem deliveries_run (ds : List Delivery) :
    run body init (ds.flatMap fun d => stepsEvents d.steps) =
      (ds.flatMap fun d => stepsCalls d.steps, .next init) := by
  induction ds with
  | nil => rfl
  | cons d ds ih => exact run_append (delivery_run d) ih

/-! ## What the calls amount to

The calls of a batch are those of its messages in the order of delivery, with the results at the
end. -/

/-- The ids and data of the data messages, in the order of delivery. -/
def dataOf (m : SinkMsg) : Option (Int × List Str) :=
  if m.code = 2 then some (m.id, m.data) else none

def processed : SinkCall → Option (Int × List Str)
  | .process id d => some (id, d)
  | _ => none

theorem processed_callOf (m : SinkMsg) : processed (Batch.callOf m) = dataOf m := by
  unfold Batch.callOf dataOf
  by_cases h1 : m.code = 1
  · rw [if_pos h1, if_neg (by omega)]; rfl
  · by_cases h2 : m.code = 2
    · rw [if_neg h1, if_pos h2, if_pos h2]; rfl
    · rw [if_neg h1, if_neg h2, if_neg h2]; rfl

theorem callOf_ne_results (m : SinkMsg) : Batch.callOf m ≠ .results := by
  unfold Batch.callOf
  split
  · simp
  · split <;> simp

theorem flatten_stepCalls (p : Gap × SinkMsg) (out : List SinkCall) :
    (stepCalls p out).flatten = out := by
  simp [stepCalls]

/-- The steps of a batch make its calls, and the results at the end. -/
theorem flatten_stepsCalls {steps : List (Gap × SinkMsg)} (hne : steps ≠ []) :
    (stepsCalls steps).flatten = (steps.map Prod.snd).map Batch.callOf ++ [.results] := by
  induction steps with
  | nil => exact absurd rfl hne
  | cons p steps ih =>
    cases steps with
    | nil => simp [stepsCalls, flatten_stepCalls]
    | cons q steps =>
      rw [stepsCalls, List.flatten_append, flatten_stepCalls, ih (by simp)]
      rfl

theorem flatten_delivery (d : Delivery) :
    (stepsCalls d.steps).flatten = d.batch.msgs.map Batch.callOf ++ [.results] := by
  rw [← d.msgs]
  refine flatten_stepsCalls fun h => ?_
  have hmsgs := d.msgs
  rw [h] at hmsgs
  exact absurd hmsgs (by simp [Batch.msgs])

theorem deliveries_calls (ds : List Delivery) :
    workerCalls (ds.flatMap fun d => stepsEvents d.steps) =
      ds.flatMap fun d => d.batch.msgs.map Batch.callOf ++ [.results] := by
  rw [workerCalls, calls, deliveries_run, List.flatMap_def, List.flatten_flatten, List.map_map]
  simp only [Function.comp_def, flatten_delivery, List.flatMap_def]

/-- **A sink fed with batches.** Over any list of batches, each led by its `First`, with gaps
before every message: the calls of each iteration are the message's own call and, exactly at the
last missing message of each batch, the results; the sink is back in its initial state after each
batch; the results are fetched once for each batch; and the data messages are processed once each
in the order of delivery. A gap after the last batch changes none of this. -/
theorem process_batches (ds : List Delivery) :
    (∀ k, process ((ds.take k).flatMap fun d => stepsEvents d.steps) =
      ((ds.take k).flatMap fun d => stepsCalls d.steps, .next init)) ∧
    (workerCalls (ds.flatMap fun d => stepsEvents d.steps)).count .results = ds.length ∧
    (workerCalls (ds.flatMap fun d => stepsEvents d.steps)).filterMap processed =
      (ds.flatMap fun d => d.batch.msgs).filterMap dataOf ∧
    ∀ g : Gap, workerCalls ((ds.flatMap fun d => stepsEvents d.steps) ++ g.events) =
      workerCalls (ds.flatMap fun d => stepsEvents d.steps) := by
  refine ⟨fun k => deliveries_run (ds.take k), ?_, ?_, fun g => ?_⟩
  · rw [deliveries_calls]
    induction ds with
    | nil => rfl
    | cons d ds ih =>
      have hzero : (d.batch.msgs.map Batch.callOf).count .results = 0 :=
        List.count_eq_zero.mpr fun h => by
          obtain ⟨m, _, hm⟩ := List.mem_map.mp h
          exact callOf_ne_results m hm
      rw [List.flatMap_cons, List.count_append, List.count_append, hzero, ih, List.length_cons]
      simp [Nat.add_comm]
  · rw [deliveries_calls]
    induction ds with
    | nil => rfl
    | cons d ds ih =>
      have hdata : processed ∘ Batch.callOf = dataOf := funext processed_callOf
      rw [List.flatMap_cons, List.flatMap_cons, List.filterMap_append, List.filterMap_append, ih,
        List.filterMap_append, List.filterMap_map, hdata]
      simp [processed]
  · have hfew := g.few
    have hgap := quiet_run g.quiet (s := init) (by show (0 : Int) + _ ≤ 6; omega)
    rw [workerCalls, workerCalls, calls, calls, run_append (deliveries_run ds) hgap,
      deliveries_run ds]
    simp

/-- Two batches, the second one with `Last` before its data and a control message and timeouts in
between. -/
def restart : List Delivery :=
  let nothing : Gap := { events := [], quiet := by simp, few := by decide }
  let late : Gap :=
    { events := [.timeout, .control (.ok 1), .timeout]
      quiet := by simp [Quiet]
      few := by decide }
  let short : Batch :=
    { first := 20, last := 20, payload := fun _ => [], rest := [.dataMsg 20 [], .lastMsg 20]
      nonneg := by decide, le := by decide, isInt := by decide, perm := by decide }
  let shuffled : Batch :=
    { first := 21, last := 22, payload := fun _ => []
      rest := [.lastMsg 22, .dataMsg 22 [], .dataMsg 21 []]
      nonneg := by decide, le := by decide, isInt := by decide, perm := by decide }
  [{ batch := short
     steps := [(nothing, .firstMsg 20), (nothing, .dataMsg 20 []), (late, .lastMsg 20)]
     msgs := rfl },
   { batch := shuffled
     steps := [(late, .firstMsg 21), (nothing, .lastMsg 22), (late, .dataMsg 22 []),
       (nothing, .dataMsg 21 [])]
     msgs := rfl }]

theorem process_batches_restart :
    (workerCalls (restart.flatMap fun d => stepsEvents d.steps)).count .results = 2 :=
  (process_batches restart).2.1

end Sink

end Skweltch
