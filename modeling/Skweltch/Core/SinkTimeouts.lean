import Skweltch.Core.Sink

/-!
# Skweltch — results and timeouts

How often `Sink::process` fetches results when poll timeouts come between the messages. After
`maxretries` the timeout branch fetches the results and resets the tracker, but it neither looks
whether a batch is open nor sets `retries` back, and `MsgTracker::complete` holds of a tracker
that has seen neither end. So an idle sink goes on fetching results, and so does a late data
message. `Guarded` excludes exactly these two kinds of iteration; in a run of guarded iterations
no batch gets more than one set of results (`results_le_firsts`).
-/

namespace Skweltch

open EventLoop

/-- Messages of one batch as far as they arrive: after `First f`, some of the data messages with
ids from `f` to `l` and perhaps `Last l`, none of them twice. -/
structure PartialBatch where
  first : Int
  last : Int
  rest : List SinkMsg
  nonneg : 0 ≤ first
  inRange : ∀ m ∈ rest, m = .lastMsg last ∨ ∃ i d, first ≤ i ∧ i ≤ last ∧ m = .dataMsg i d
  once : (rest.map fun m => (m.code, m.id)).Nodup

def PartialBatch.msgs (b : PartialBatch) : List SinkMsg := .firstMsg b.first :: b.rest

def received (es : List SinkEvent) : List SinkMsg :=
  es.filterMap fun
    | .msg (.ok m) _ => some m
    | _ => none

/-- The batches come one after the other, each led by its `First`. -/
def WellOrdered (es : List SinkEvent) : Prop :=
  ∃ bs : List PartialBatch, received es = bs.flatMap PartialBatch.msgs

def firsts (es : List SinkEvent) : Nat := (received es).countP fun m => m.code = 1

/-- While no batch is open, no timeout finds the retries used up, no data message finds a tracker
that has seen neither end, and no `Last` carries the value that stands for "unset". -/
def Guarded (s : SinkState) (e : SinkEvent) : Prop :=
  s.tracker.first = -1 →
    (e = .timeout ∨ e = .pollFailed → s.retries ≤ Sink.maxretries) ∧
    ∀ m quit, e = .msg (.ok m) quit →
      (m.code = 2 → s.tracker.last ≠ -1) ∧ (m.code = 3 → m.id ≠ -1)

def GuardedRun (es : List SinkEvent) : Prop :=
  ∀ pre e post, es = pre ++ e :: post → ∀ outs s, Sink.process pre = (outs, .next s) → Guarded s e

theorem received_append (es es' : List SinkEvent) :
    received (es ++ es') = received es ++ received es' :=
  List.filterMap_append

theorem firsts_append (es es' : List SinkEvent) :
    firsts (es ++ es') = firsts es + firsts es' := by
  rw [firsts, received_append, List.countP_append]
  rfl

/-- A first message of a well ordered stretch sets a first id. -/
theorem WellOrdered.first_ne {es : List SinkEvent} (h : WellOrdered es) {m : SinkMsg}
    (hm : m ∈ received es) (hcode : m.code = 1) : m.id ≠ -1 := by
  obtain ⟨bs, hbs⟩ := h
  rw [hbs] at hm
  obtain ⟨b, _, hmb⟩ := List.mem_flatMap.mp hm
  rcases List.mem_cons.mp hmb with rfl | hrest
  · have hnonneg := b.nonneg
    show b.first ≠ -1
    omega
  · rcases b.inRange m hrest with rfl | ⟨i, d, _, _, rfl⟩
    · exact absurd hcode (by show ¬(3 : Int) = 1; decide)
    · exact absurd hcode (by show ¬(2 : Int) = 1; decide)

/-! ## The ledger of results

`Ledger firsts results t`: there are at most as many results as `First` messages, and while a
batch is open one more batch has been announced than finished. -/

structure Ledger (firsts results : Nat) (t : MsgTracker) : Prop where
  le : results ≤ firsts
  opened : t.first ≠ -1 → results < firsts

theorem ledger_reset {firsts results : Nat} (h : results ≤ firsts) :
    Ledger firsts results MsgTracker.init :=
  ⟨h, fun hne => absurd rfl hne⟩

/-- The completion test keeps the ledger when it only succeeds for an open batch. -/
theorem ledger_checkComplete {f r : Nat} {s : SinkState} {done : List SinkCall}
    (h : Ledger f r s.tracker) (hdone : done.count .results = 0)
    (hopen : s.tracker.complete = true → s.tracker.first ≠ -1) {out : List SinkCall}
    {s' : SinkState} (hstep : Sink.checkComplete s done = (out, .next s')) :
    Ledger f (r + out.count .results) s'.tracker := by
  unfold Sink.checkComplete at hstep
  by_cases hc : s.tracker.complete = true
  · rw [if_pos hc] at hstep
    cases hstep
    rw [List.count_append, hdone]
    exact ledger_reset (h.opened (hopen hc))
  · rw [if_neg hc] at hstep
    cases hstep
    rw [hdone]
    exact h

/-- A tracker with no first id is complete only if it has no last id either. -/
theorem first_ne_of_complete {t : MsgTracker} (hl : t.first = -1 → t.last ≠ -1)
    (hc : t.complete = true) : t.first ≠ -1 := by
  intro hf
  rw [MsgTracker.not_complete_of_first_unset hf (hl hf)] at hc
  exact absurd hc (by decide)

/-- What a message does to the ledger. -/
theorem ledger_dispatch {f r : Nat} {s : SinkState} {m : SinkMsg} (h : Ledger f r s.tracker)
    (hfirst : m.code = 1 → m.id ≠ -1)
    (hg : s.tracker.first = -1 →
      (m.code = 2 → s.tracker.last ≠ -1) ∧ (m.code = 3 → m.id ≠ -1))
    {out : List SinkCall} {s' : SinkState} (hstep : Sink.dispatch s m = (out, .next s')) :
    Ledger (f + if m.code = 1 then 1 else 0) (r + out.count .results) s'.tracker := by
  unfold Sink.dispatch at hstep
  -- a first message opens a batch and owes its results
  by_cases h1 : m.code = 1
  · rw [if_pos h1] at hstep ⊢
    refine ledger_checkComplete (s := { s with tracker := s.tracker.setFirst m.id })
      ⟨?_, fun _ => ?_⟩ rfl (fun _ => hfirst h1) hstep
    · exact h.le.trans (Nat.le_succ f)
    · exact Nat.lt_succ_of_le h.le
  -- data without a first message complete a batch only if Last has come
  by_cases h2 : m.code = 2
  · rw [if_neg h1, if_pos h2] at hstep
    rw [if_neg h1]
    cases ht : s.tracker.track m.id with
    | none =>
      rw [ht] at hstep
      exact absurd (congrArg Prod.snd hstep) (by simp)
    | some t =>
      rw [ht] at hstep
      have hends := MsgTracker.track_first ht
      have hlast := MsgTracker.track_last ht
      refine ledger_checkComplete (s := { s with tracker := t }) ⟨h.le, fun hne => ?_⟩ rfl
        (first_ne_of_complete fun hf => ?_) hstep
      · exact h.opened (hends ▸ hne)
      · show t.last ≠ -1
        rw [hlast]
        exact (hg (hends ▸ hf)).1 h2
  by_cases h3 : m.code = 3
  · rw [if_neg h1, if_neg h2, if_pos h3] at hstep
    rw [if_neg h1]
    refine ledger_checkComplete (s := { s with tracker := s.tracker.setLast m.id })
      ⟨h.le, fun hne => ?_⟩ rfl (first_ne_of_complete fun hf => ?_) hstep
    · exact h.opened (by simpa using hne)
    · show (s.tracker.setLast m.id).last ≠ -1
      rw [MsgTracker.setLast_last]
      exact (hg (by simpa using hf)).2 h3
  · rw [if_neg h1, if_neg h2, if_neg h3] at hstep
    exact absurd (congrArg Prod.snd hstep) (by simp)

/-- What a turn without a message does to it. -/
theorem ledger_idle {f r : Nat} {s : SinkState} (h : Ledger f r s.tracker)
    (hg : s.tracker.first = -1 → s.retries ≤ Sink.maxretries) {out : List SinkCall}
    {s' : SinkState} (hstep : Sink.idle s = (out, .next s')) :
    Ledger f (r + out.count .results) s'.tracker := by
  unfold Sink.idle at hstep
  by_cases hr : s.retries > Sink.maxretries
  · rw [if_pos hr] at hstep
    cases hstep
    exact ledger_reset (h.opened fun hf => absurd (hg hf) (not_le.mpr hr))
  · rw [if_neg hr] at hstep
    cases hstep
    exact h

/-- **One guarded iteration.** -/
theorem ledger_body {f r : Nat} {s : SinkState} {e : SinkEvent} (h : Ledger f r s.tracker)
    (hg : Guarded s e) (hfirst : ∀ m ∈ received [e], m.code = 1 → m.id ≠ -1)
    {out : List SinkCall} {s' : SinkState} (hstep : Sink.body s e = (out, .next s')) :
    Ledger (f + firsts [e]) (r + out.count .results) s'.tracker := by
  cases e with
  | quit => exact absurd (congrArg Prod.snd hstep) (by simp [Sink.body])
  | pollFailed => exact ledger_idle h (fun hf => (hg hf).1 (.inr rfl)) hstep
  | timeout => exact ledger_idle h (fun hf => (hg hf).1 (.inl rfl)) hstep
  | control recv =>
    -- a control message calls nothing and leaves the state alone
    have hsame : (out, Flow.next s') =
        (([] : List SinkCall), (Flow.next s : Flow SinkState SinkExit)) := by
      rw [← hstep]
      cases recv with
      | failed => rfl
      | garbage => exact absurd (congrArg Prod.snd hstep) (by simp [Sink.body])
      | ok v =>
        by_cases hv : v = 0
        · exact absurd (congrArg Prod.snd hstep) (by simp [Sink.body, hv])
        · exact if_neg hv
    cases hsame
    exact h
  | msg recv quit =>
    cases quit with
    | true => exact absurd (congrArg Prod.snd hstep) (by simp [Sink.body])
    | false =>
      cases recv with
      | failed => exact absurd (congrArg Prod.snd hstep) (by simp [Sink.body, Received.unpack])
      | garbage => exact absurd (congrArg Prod.snd hstep) (by simp [Sink.body, Received.unpack])
      | ok m =>
        have hcount : firsts [.msg (.ok m) false] = if m.code = 1 then 1 else 0 := by
          simp [firsts, received, List.countP_cons]
        rw [hcount]
        exact ledger_dispatch (s := { s with retries := 0 }) h (hfirst m List.mem_cons_self)
          (fun hf => (hg hf).2 m false rfl) hstep

theorem checkComplete_ne_exit (s : SinkState) (done out : List SinkCall) (r : SinkExit) :
    Sink.checkComplete s done ≠ (out, .exit r) := by
  intro h
  unfold Sink.checkComplete at h
  split at h
  · exact absurd (congrArg Prod.snd h) (by simp)
  · exact absurd (congrArg Prod.snd h) (by simp)

theorem idle_ne_exit (s : SinkState) (out : List SinkCall) (r : SinkExit) :
    Sink.idle s ≠ (out, .exit r) := by
  intro h
  unfold Sink.idle at h
  split at h
  · exact absurd (congrArg Prod.snd h) (by simp)
  · exact absurd (congrArg Prod.snd h) (by simp)

/-- The turn that ends the loop reports nothing. -/
theorem no_results_of_exit {s : SinkState} {e : SinkEvent} {out : List SinkCall} {r : SinkExit}
    (hstep : Sink.body s e = (out, .exit r)) : out.count .results = 0 := by
  cases e with
  | quit => cases hstep; rfl
  | pollFailed => exact absurd hstep (idle_ne_exit s _ _)
  | timeout => exact absurd hstep (idle_ne_exit s _ _)
  | control recv =>
    cases recv with
    | failed => exact absurd (congrArg Prod.snd hstep) (by simp [Sink.body])
    | garbage => cases hstep; rfl
    | ok v =>
      by_cases hv : v = 0
      · rw [show Sink.body s (.control (.ok v)) = ([], .exit (.returned true)) from if_pos hv] at hstep
        cases hstep; rfl
      · rw [show Sink.body s (.control (.ok v)) = ([], .next s) from if_neg hv] at hstep
        exact absurd (congrArg Prod.snd hstep) (by simp)
  | msg recv quit =>
    cases quit with
    | true => cases hstep; rfl
    | false =>
      cases recv with
      | failed => cases hstep; rfl
      | garbage => cases hstep; rfl
      | ok m =>
        -- a message leaves the loop only undefined or unknown, before any results
        rw [Sink.body_deliver, Sink.dispatch] at hstep
        split at hstep
        · exact absurd hstep (checkComplete_ne_exit _ _ _ _)
        · split at hstep
          · split at hstep
            · exact absurd hstep (checkComplete_ne_exit _ _ _ _)
            · cases hstep; rfl
          · split at hstep
            · exact absurd hstep (checkComplete_ne_exit _ _ _ _)
            · cases hstep; rfl

/-- The ledger along a run, and what remains of it once the loop has been left. -/
theorem ledger_run {es : List SinkEvent} (hw : WellOrdered es) (hg : GuardedRun es) :
    ∀ pre, pre <+: es → (Sink.workerCalls pre).count .results ≤ firsts pre ∧
      ∀ outs s, Sink.process pre = (outs, .next s) →
        Ledger (firsts pre) ((Sink.workerCalls pre).count .results) s.tracker := by
  intro pre
  induction pre using List.reverseRecOn with
  | nil =>
    refine fun _ => ⟨Nat.zero_le _, fun outs s hrun => ?_⟩
    cases hrun
    exact ledger_reset (Nat.le_refl 0)
  | append_singleton pre e ih =>
    rintro ⟨post, hpost⟩
    have hsplit : es = pre ++ e :: post := by rw [← hpost]; simp
    obtain ⟨hle, hledger⟩ := ih ⟨e :: post, hsplit.symm⟩
    have hfirst : ∀ m ∈ received [e], m.code = 1 → m.id ≠ -1 := by
      intro m hm hcode
      refine hw.first_ne ?_ hcode
      rw [hsplit, ← List.singleton_append, received_append, received_append]
      exact List.mem_append_right _ (List.mem_append_left _ hm)
    rw [firsts_append]
    rcases hrun : Sink.process pre with ⟨outs, s | r⟩
    · -- the sink is still in its loop: the step lemma, or an exit that calls no results
      have hcalls : Sink.workerCalls (pre ++ [e]) = Sink.workerCalls pre ++ (Sink.body s e).1 :=
        calls_snoc hrun e
      rw [hcalls, List.count_append]
      rcases hbody : Sink.body s e with ⟨out, s' | r⟩
      · have hnext := ledger_body (hledger outs s hrun) (hg pre e post hsplit outs s hrun) hfirst hbody
        refine ⟨hnext.le, fun outs' s'' hrun' => ?_⟩
        rw [Sink.process, run_snoc hrun, hbody] at hrun'
        cases hrun'
        exact hnext
      · rw [no_results_of_exit hbody]
        refine ⟨Nat.le_trans hle (Nat.le_add_right _ _), fun outs' s'' hrun' => ?_⟩
        rw [Sink.process, run_snoc hrun, hbody] at hrun'
        exact absurd (congrArg Prod.snd hrun') (by simp)
    · -- it has left its loop, and nothing is counted any more
      have hsame : Sink.process (pre ++ [e]) = (outs, .exit r) := run_append_exit hrun [e]
      have hcalls : Sink.workerCalls (pre ++ [e]) = Sink.workerCalls pre :=
        calls_append_exit hrun [e]
      rw [hcalls]
      refine ⟨Nat.le_trans hle (Nat.le_add_right _ _), fun outs' s'' hrun' => ?_⟩
      rw [hsame] at hrun'
      exact absurd (congrArg Prod.snd hrun') (by simp)

/-- **At most one set of results per batch.** In a run of guarded iterations over well-ordered
batches, with timeouts and control messages in any number and order, the results fetched so far
are at every point no more than the `First` messages received so far. -/
theorem results_le_firsts (es : List SinkEvent) (hw : WellOrdered es) (hg : GuardedRun es) :
    ∀ pre, pre <+: es → (Sink.workerCalls pre).count .results ≤ firsts pre :=
  fun pre hpre => (ledger_run hw hg pre hpre).1

/-- A batch interrupted by a timeout is guarded: it is open at every later iteration. -/
theorem results_le_firsts_interrupted :
    (Sink.workerCalls [Sink.deliver (.firstMsg 0), .timeout, Sink.deliver (.dataMsg 0 [])]).count
      .results ≤ 1 := by
  have h1 : Sink.process [Sink.deliver (.firstMsg 0)] =
      ([[.first 0]], .next { tracker := { first := 0, last := -1, bits := [] }, retries := 0 }) := by
    decide +kernel
  have h2 : Sink.process [Sink.deliver (.firstMsg 0), .timeout] =
      ([[.first 0], []],
        .next { tracker := { first := 0, last := -1, bits := [] }, retries := 1 }) := by
    decide +kernel
  refine results_le_firsts _ ⟨[{
    first := 0, last := 0, rest := [.dataMsg 0 []], nonneg := by decide, once := by decide
    inRange := fun m hm => .inr ⟨0, [], by decide, by decide, by simpa using hm⟩ }], rfl⟩ ?_ _
    (List.prefix_rfl)
  -- the guard, turn by turn
  intro pre e post hsplit outs s hrun
  match pre, hsplit with
  | [], hsplit =>
    cases hsplit
    cases hrun
    refine fun _ => ⟨fun h => by simp at h, fun m quit hm => ?_⟩
    cases hm
    exact ⟨fun h => absurd h (by decide), fun h => absurd h (by decide)⟩
  | [_], hsplit =>
    cases hsplit
    rw [h1] at hrun
    cases hrun
    exact fun h => absurd h (by decide)
  | [_, _], hsplit =>
    cases hsplit
    rw [h2] at hrun
    cases hrun
    exact fun h => absurd h (by decide)
  | _ :: _ :: _ :: pre, hsplit => simp at hsplit

/-- A batch times out before its only data message arrives. -/
def lateData : List SinkEvent :=
  Sink.deliver (.firstMsg 0) :: (List.replicate 7 .timeout ++ [Sink.deliver (.dataMsg 0 [])])

/-- **An idle sink fetches results.** Seven timeouts and no message at all; and a data message
that comes after its batch has timed out brings a second set of results for one `First`. -/
theorem idle_and_late_results :
    (WellOrdered (List.replicate 7 .timeout) ∧ firsts (List.replicate 7 .timeout) <
      (Sink.workerCalls (List.replicate 7 .timeout)).count .results) ∧
    (WellOrdered lateData ∧ firsts lateData < (Sink.workerCalls lateData).count .results) := by
  refine ⟨⟨⟨[], rfl⟩, by decide +kernel⟩, ⟨[{
    first := 0, last := 0, rest := [.dataMsg 0 []], nonneg := by decide, once := by decide
    inRange := fun m hm => .inr ⟨0, [], by decide, by decide, by simpa using hm⟩ }], rfl⟩,
    by decide +kernel⟩

end Skweltch
