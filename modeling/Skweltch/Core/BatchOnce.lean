import Skweltch.Core.BatchProtocol
import Skweltch.Vent.Vents

/-!
# Skweltch — results once for each batch, over all interleavings

Whether the sink fetches the results of a batch once and after all its messages depends on one
thing: which message reaches it first. While neither end of the batch is known the tracker counts
as complete, so that a data message that overtakes the first message ends the batch.
-/

namespace Skweltch

open EventLoop Fifo Relation

variable {ι α : Type}

/-- `results` is called once, and only after `process` has been called for all of `n` ids. -/
def OnceAfterAll (n : Nat) (calls : List SinkCall) : Prop :=
  calls.count .results = 1 ∧ ∀ pre post, calls = pre ++ .results :: post →
    ∀ i < n, ∃ d, SinkCall.process (i : Int) d ∈ pre

/-- Two ways to write a list around one element: the part before its first occurrence is the
shorter. -/
theorem prefix_of_append_cons {β : Type} {x : β} {as bs cs ds : List β} (hx : x ∉ as)
    (h : as ++ x :: bs = cs ++ x :: ds) : as <+: cs := by
  induction as generalizing cs with
  | nil => exact List.nil_prefix
  | cons a as ih =>
    cases cs with
    | nil =>
      have : a = x := (List.cons.inj h).1
      exact absurd (this ▸ List.mem_cons_self ..) hx
    | cons c cs =>
      obtain ⟨rfl, htail⟩ := List.cons.inj h
      rw [List.cons_prefix_cons]
      exact ⟨rfl, ih (fun hmem => hx (List.mem_cons_of_mem _ hmem)) htail⟩

/-- Results once, with all messages of the batch before it. -/
theorem onceAfterAll_of {n : Nat} {before after : List SinkCall} (hb : SinkCall.results ∉ before)
    (ha : SinkCall.results ∉ after)
    (hall : ∀ i < n, ∃ d, SinkCall.process (i : Int) d ∈ before) :
    OnceAfterAll n (before ++ .results :: after) := by
  refine ⟨?_, fun pre post h i hi => ?_⟩
  · rw [List.count_append, List.count_cons_self, List.count_eq_zero.mpr hb,
      List.count_eq_zero.mpr ha]
  · obtain ⟨d, hd⟩ := hall i hi
    exact ⟨d, (prefix_of_append_cons hb h).subset hd⟩

/-! ## The messages of a batch

What the sink will have been sent by the end of a run, from the vent and from the workers, whatever
the order. -/

def dataMsgs (acts : List (VentAct α)) : List (DataMsg α) :=
  acts.filterMap fun
    | .send m => some m
    | _ => none

theorem dataIds_eq_map (acts : List (VentAct α)) :
    Vent.dataIds acts = (dataMsgs acts).map DataMsg.id := by
  induction acts with
  | nil => rfl
  | cons a acts ih => cases a <;> simp_all [Vent.dataIds, dataMsgs]

/-- What arrives at the sink is what the vent and the workers have sent it. -/
theorem sent_perm (job : DataMsg α → List Str) (acts : List (VentAct α)) :
    (Net.sent job acts).Perm (Vent.sinkMsgs acts ++
      (dataMsgs acts).map fun m => SinkMsg.dataMsg m.id (job m)) := by
  induction acts with
  | nil => exact List.Perm.refl _
  | cons a acts ih =>
    cases a with
    | sink m => exact ih.cons m
    | send m => exact (ih.cons _).trans List.perm_middle.symm
    | sleep ms => exact ih

/-- The acts of a vent that sends one batch: the ids `0` to `k`, and both ends told to the sink. -/
structure SendsBatch (acts : List (VentAct α)) (k : Nat) : Prop where
  ids : Vent.dataIds acts = (List.range (k + 1)).map (fun i : Nat => (i : Int))
  told : Vent.sinkMsgs acts = [.firstMsg 0, .lastMsg k]
  fits : k ≤ 2147483647

namespace SendsBatch

variable {acts : List (VentAct α)} {k : Nat}

def payload (job : DataMsg α → List Str) (acts : List (VentAct α)) (i : Int) : List Str :=
  ((dataMsgs acts)[i.toNat]?.map job).getD []

/-- What the workers send: a message for each id of the batch. -/
theorem data_eq (h : SendsBatch acts k) (job : DataMsg α → List Str) :
    ((dataMsgs acts).map fun m => SinkMsg.dataMsg m.id (job m)) =
      (List.range (k + 1)).map fun i : Nat => SinkMsg.dataMsg i (payload job acts i) := by
  have hids := h.ids
  rw [dataIds_eq_map] at hids
  have hlen : (dataMsgs acts).length = k + 1 := by simpa using congrArg List.length hids
  apply List.ext_getElem
  · simp [hlen]
  · intro i h₁ h₂
    have hi : i < (dataMsgs acts).length := by simpa using h₁
    have hid : (dataMsgs acts)[i].id = (i : Int) := by
      have := congrArg (fun l => l[i]?) hids
      simpa [hi, hlen ▸ hi] using this
    simp [payload, hid, hi]

theorem ends_code (h : SendsBatch acts k) : ∀ m ∈ Vent.sinkMsgs acts, m.code ≠ 2 := by
  intro m hm
  rw [h.told] at hm
  rcases List.mem_pair.mp hm with rfl | rfl
  · exact (by decide : (1 : Int) ≠ 2)
  · exact (by decide : (3 : Int) ≠ 2)

theorem sent_eq (h : SendsBatch acts k) (job : DataMsg α → List Str) :
    (Net.sent job acts).Perm (.firstMsg 0 :: .lastMsg k ::
      (List.range (k + 1)).map fun i : Nat => SinkMsg.dataMsg i (payload job acts i)) := by
  have := sent_perm job acts
  rwa [h.told, h.data_eq job] at this

/-- The messages in an order in which the first comes first are a batch. -/
theorem exists_batch (h : SendsBatch acts k) {job : DataMsg α → List Str} {rest : List SinkMsg}
    (hp : (.firstMsg 0 :: rest).Perm (Net.sent job acts)) :
    ∃ b : Batch, b.msgs = .firstMsg 0 :: rest ∧ b.span = k := by
  have hrest := (hp.trans (h.sent_eq job)).cons_inv
  have hfits := h.fits
  let b : Batch :=
    { first := 0
      last := k
      payload := payload job acts
      rest := rest
      nonneg := le_rfl
      le := Int.natCast_nonneg k
      isInt := by omega
      perm := by simpa using hrest }
  exact ⟨b, rfl, by simp [b, Batch.span]⟩

/-- A message of a batch is First, Last, or the data message of one of the ids. -/
theorem mem_sent (h : SendsBatch acts k) {job : DataMsg α → List Str} {m : SinkMsg}
    (hm : m ∈ Net.sent job acts) :
    m = .firstMsg 0 ∨ m = .lastMsg k ∨ ∃ i ≤ k, ∃ d, m = .dataMsg (i : Nat) d := by
  rw [(h.sent_eq job).mem_iff] at hm
  rcases List.mem_cons.mp hm with rfl | hm
  · exact .inl rfl
  · rcases List.mem_cons.mp hm with rfl | hm
    · exact .inr (.inl rfl)
    · obtain ⟨i, hi, rfl⟩ := List.mem_map.mp hm
      exact .inr (.inr ⟨i, by have := List.mem_range.mp hi; omega, _, rfl⟩)

end SendsBatch

/-! ## The first message arrives first

Then the tracker has its first id from the beginning, and the batch is a delivery like any other. -/

/-- A run that ends in the loop never left it. -/
theorem next_of_prefix {σ ε ω ρ : Type} {body : Body σ ε ω ρ} {s s' : σ} {es es' : List ε}
    (h : (run body s (es ++ es')).2 = .next s') : ∃ s'', (run body s es).2 = .next s'' := by
  rcases hrun : run body s es with ⟨outs, s'' | r⟩
  · exact ⟨s'', rfl⟩
  · rw [run_append_exit hrun] at h
    cases h

/-- A batch whose first message arrives first is reported at its end. -/
theorem batch_run (b : Batch) :
    (Sink.process (b.msgs.map Sink.deliver)).2 = .next Sink.init ∧
      Sink.workerCalls (b.msgs.map Sink.deliver) =
        b.msgs.map Batch.callOf ++ [.results] := by
  let nothing : Gap := { events := [], quiet := by simp, few := by decide }
  let d : Delivery :=
    { batch := b, steps := b.msgs.map fun m => (nothing, m), msgs := by simp [Function.comp_def] }
  have hsteps : ∀ ms : List SinkMsg,
      stepsEvents (ms.map fun m => (nothing, m)) = ms.map Sink.deliver := by
    intro ms
    induction ms with
    | nil => rfl
    | cons m ms ih =>
      show [Sink.deliver m] ++ stepsEvents (ms.map fun m => (nothing, m)) = _
      rw [ih]
      rfl
  have hrun := Sink.delivery_run d
  rw [show stepsEvents d.steps = _ from hsteps b.msgs] at hrun
  refine ⟨congrArg Prod.snd hrun, ?_⟩
  rw [Sink.workerCalls, calls, hrun, Sink.flatten_delivery]

/-- Every id of a batch is processed before its results. -/
theorem mem_process (b : Batch) {i : Nat} (hi : i ≤ b.span) :
    ∃ d, SinkCall.process (b.first + i) d ∈ b.msgs.map Batch.callOf := by
  refine ⟨b.payload (b.first + i), List.mem_map.mpr ⟨b.data i, ?_, rfl⟩⟩
  exact List.mem_cons_of_mem _ (Batch.mem_rest.mpr (.inr ⟨i, hi, rfl⟩))

section Runs

variable [DecidableEq ι] {job : DataMsg α → List Str} {acts : List (VentAct α)} {k : Nat}
  {n : Net ι α}

/-- **First things first.** With the first message delivered first, the results are fetched once
and after everything else. -/
theorem onceAfterAll_of_first [Nonempty ι] (h : SendsBatch acts k) (hinv : Net.Inv job acts n)
    (hover : n.Over job) (hfirst : n.delivered.head? = some (.firstMsg 0)) :
    OnceAfterAll (k + 1) n.calls := by
  obtain ⟨rest, hrest⟩ : ∃ rest, n.delivered = .firstMsg 0 :: rest :=
    ⟨n.delivered.tail, (List.cons_head?_tail hfirst).symm⟩
  have hall : (SinkMsg.firstMsg 0 :: (rest ++ n.owed job)).Perm (Net.sent job acts) := by
    have := hinv.conserved
    rwa [hrest] at this
  obtain ⟨b, hmsgs, hspan⟩ := h.exists_batch hall
  obtain ⟨hflow, hcalls⟩ := batch_run b
  -- what has been delivered is the beginning of the batch, so that the sink is still in its loop
  have hsplit : b.msgs.map Sink.deliver =
      n.delivered.map Sink.deliver ++ (n.owed job).map Sink.deliver := by
    rw [hmsgs, hrest]
    simp
  rw [hsplit] at hflow
  obtain ⟨s, hs⟩ := next_of_prefix hflow
  have howed := Net.owed_of_over hover (hinv.ran.symm.trans hs)
  rw [hsplit, howed, List.map_nil, List.append_nil, hinv.called] at hcalls
  have hfirst0 : b.first = 0 := by
    have := congrArg SinkMsg.id (List.cons.inj hmsgs).1
    exact this
  rw [hcalls]
  refine onceAfterAll_of ?_ List.not_mem_nil fun i hi => ?_
  · intro hmem
    obtain ⟨m, _, hm⟩ := List.mem_map.mp hmem
    exact Sink.callOf_ne_results m hm
  · have := mem_process b (i := i) (by omega)
    rwa [hfirst0, zero_add] at this

/-! ## A data message arrives first

Then the tracker has no first id, and takes the message for the end of a batch that never was. -/

/-- A data message that arrives first is taken for a whole batch, or is undefined. -/
theorem body_init_dataMsg (id : Int) (d : List Str) :
    Sink.body Sink.init (Sink.deliver (.dataMsg id d)) =
        ([.process id d, .results], .next Sink.init) ∨
      Sink.body Sink.init (Sink.deliver (.dataMsg id d)) =
        ([.process id d], .exit .undefined) := by
  cases ht : Sink.init.tracker.track id with
  | none => exact .inr (Sink.body_dataMsg_undefined ht d)
  | some t =>
    left
    have hfirst : t.first = -1 := MsgTracker.track_first ht
    have hlast : t.last = -1 := MsgTracker.track_last ht
    rw [Sink.body_dataMsg ht, Sink.checkComplete,
      if_pos (MsgTracker.complete_of_unset hfirst hlast)]
    rfl

omit [DecidableEq ι] in
/-- With more than one id the others are missing then. -/
theorem not_onceAfterAll_of_data {id : Int} {d : List Str} {rest : List SinkMsg} (hk : 0 < k)
    (hdelivered : n.delivered = .dataMsg id d :: rest)
    (hcalled : Sink.workerCalls (n.delivered.map Sink.deliver) = n.calls) :
    ¬ OnceAfterAll (k + 1) n.calls := by
  rintro ⟨hcount, hall⟩
  rw [hdelivered, List.map_cons, Sink.workerCalls] at hcalled
  rcases body_init_dataMsg id d with hbody | hbody
  · rw [calls_cons_next hbody] at hcalled
    -- one of the ids 0 and 1 is not the one that has arrived
    obtain ⟨i, hi, hne⟩ : ∃ i < k + 1, (i : Int) ≠ id := by
      by_cases h0 : id = 0
      · exact ⟨1, by omega, by omega⟩
      · exact ⟨0, by omega, by omega⟩
    obtain ⟨d', hd'⟩ := hall [.process id d] _ hcalled.symm i hi
    have heq := List.mem_singleton.mp hd'
    exact hne (SinkCall.process.inj heq).1
  · rw [calls_cons_exit hbody] at hcalled
    rw [← hcalled] at hcount
    exact absurd hcount (by simp)

/-- The run in which it is: one message, reported before it is complete. -/
theorem single_run (d : List Str) :
    ∃ s, Sink.process ([.dataMsg 0 d, .firstMsg 0, .lastMsg 0].map Sink.deliver) =
      ([[.process 0 d, .results], [.first 0], [.last 0]], .next s) := by
  let b : Batch :=
    { first := 0
      last := 0
      payload := fun _ => d
      rest := [.lastMsg 0, .dataMsg 0 d]
      nonneg := le_rfl
      le := le_rfl
      isInt := by decide
      perm := List.Perm.refl _ }
  have hdata : Sink.body Sink.init (Sink.deliver (.dataMsg 0 d)) =
      ([.process 0 d, .results], .next Sink.init) := by
    rcases body_init_dataMsg 0 d with h | h
    · exact h
    · have hsome : (MsgTracker.init.track 0).isSome = true := by decide +kernel
      cases ht : Sink.init.tracker.track 0 with
      | none =>
        have hnone : MsgTracker.init.track 0 = none := ht
        rw [hnone] at hsome
        cases hsome
      | some t =>
        rw [Sink.body_dataMsg ht] at h
        have hflow := congrArg Prod.snd h
        unfold Sink.checkComplete at hflow
        split at hflow <;> cases hflow
  have hprog := b.progress_first
  have hfirst : Sink.body Sink.init (Sink.deliver (.firstMsg 0)) =
      ([.first 0], .next { tracker := MsgTracker.init.setFirst 0, retries := 0 }) := by
    rw [Sink.body_firstMsg, Sink.checkComplete]
    exact if_neg (by decide)
  -- the data message is not seen again, so that the batch stays open
  have hlast : ∃ t, Sink.body { tracker := MsgTracker.init.setFirst 0, retries := 0 }
      (Sink.deliver (.lastMsg 0)) = ([.last 0], .next { tracker := t, retries := 0 }) := by
    have hmem : b.lastMsg ∈ b.rest := List.mem_cons_self ..
    have hdeliver := Batch.deliver_rest
      (s := { tracker := MsgTracker.init.setFirst 0, retries := 0 }) hprog hmem
    rcases hdeliver with ⟨hall, -⟩ | ⟨-, t, ht, -⟩
    · have hgot := hall (b.data 0) (Batch.mem_rest.mpr (.inr ⟨0, le_rfl, rfl⟩))
      exact absurd (List.mem_singleton.mp hgot) (b.data_ne_lastMsg 0)
    · exact ⟨t, ht⟩
  obtain ⟨t, ht⟩ := hlast
  refine ⟨{ tracker := t, retries := 0 }, ?_⟩
  show run Sink.body Sink.init [Sink.deliver (.dataMsg 0 d), Sink.deliver (.firstMsg 0),
    Sink.deliver (.lastMsg 0)] = _
  rw [run_cons_next hdata, run_cons_next hfirst, run_cons_next ht]
  rfl

/-- With a single id nothing is missing: the first and the last message come too late to count. -/
theorem onceAfterAll_of_single [Nonempty ι] (h : SendsBatch acts 0) (hinv : Net.Inv job acts n)
    (hover : n.Over job) {id : Int} {d : List Str} {rest : List SinkMsg}
    (hdelivered : n.delivered = .dataMsg id d :: rest) : OnceAfterAll 1 n.calls := by
  have hall : (SinkMsg.dataMsg id d :: (rest ++ n.owed job)).Perm
      [.firstMsg 0, .lastMsg 0, .dataMsg 0 (SendsBatch.payload job acts 0)] := by
    have := hinv.conserved.trans (h.sent_eq job)
    rwa [hdelivered] at this
  have hdata : SinkMsg.dataMsg id d = .dataMsg 0 (SendsBatch.payload job acts 0) := by
    have hmem := hall.mem_iff.mp (List.mem_cons_self ..)
    rcases List.mem_cons.mp hmem with hc | hmem
    · exact absurd (congrArg SinkMsg.code hc) (by decide : (2 : Int) ≠ 1)
    · rcases List.mem_cons.mp hmem with hc | hmem
      · exact absurd (congrArg SinkMsg.code hc) (by decide : (2 : Int) ≠ 3)
      · exact List.mem_singleton.mp hmem
  have hid : id = 0 := congrArg SinkMsg.id hdata
  subst hid
  rw [← hdata] at hall
  have hmiddle : ([SinkMsg.firstMsg 0, SinkMsg.lastMsg 0] ++ [SinkMsg.dataMsg 0 d]).Perm
      ([SinkMsg.dataMsg 0 d] ++ [SinkMsg.firstMsg 0, SinkMsg.lastMsg 0]) :=
    List.perm_append_comm
  have hrest : (rest ++ n.owed job).Perm [.firstMsg 0, .lastMsg 0] :=
    (hall.trans hmiddle).cons_inv
  -- the two ends come in the order in which the vent sends them
  have hends : Net.ends rest = rest := by
    refine List.filter_eq_self.mpr fun m hm => ?_
    have hmem := hrest.mem_iff.mp (List.mem_append_left _ hm)
    rcases List.mem_pair.mp hmem with rfl | rfl <;> rfl
  have hordered := hinv.ordered
  rw [h.told, hdelivered] at hordered
  have hpre : rest <+: [.firstMsg 0, .lastMsg 0] := by
    have hdrop : Net.ends (.dataMsg 0 d :: rest) = Net.ends rest := rfl
    rw [hdrop, hends] at hordered
    exact ⟨_, hordered⟩
  obtain ⟨s, hs⟩ := single_run d
  obtain ⟨more, hmore⟩ := hpre
  have hsplit : [SinkMsg.dataMsg 0 d, .firstMsg 0, .lastMsg 0].map Sink.deliver =
      n.delivered.map Sink.deliver ++ more.map Sink.deliver := by
    rw [← List.map_append, hdelivered, List.cons_append, hmore]
  rw [hsplit] at hs
  obtain ⟨s', hs'⟩ := next_of_prefix (congrArg Prod.snd hs)
  have howed := Net.owed_of_over hover (hinv.ran.symm.trans hs')
  have hnone : more = [] := by
    have hlen := hrest.length_eq
    rw [howed, List.append_nil, ← hmore, List.length_append] at hlen
    exact List.length_eq_zero_iff.mp (by omega)
  rw [hnone, List.map_nil, List.append_nil] at hs
  have hcalls : n.calls = [.process 0 d] ++ .results :: [.first 0, .last 0] := by
    rw [← hinv.called, Sink.workerCalls, calls, show run Sink.body Sink.init _ = _ from hs]
    rfl
  rw [hcalls]
  refine onceAfterAll_of (by simp) (by simp) fun i hi => ?_
  have hzero : i = 0 := by omega
  subst hzero
  exact ⟨d, List.mem_singleton_self _⟩

end Runs

/-- **Results once and after all, over every interleaving** of a vent's batch through any number of
workers: exactly when the first message reaches the sink before any data message, or there is only
one data message. -/
theorem results_once_iff [Nonempty ι] (job : DataMsg α → List Str) (env : VentEnv)
    (sendAll : VentState α → VentState α × Int) (k : Nat)
    (h : SendsBatch (Vent.process env sendAll).1.acts k) {n : Net ι α}
    (hrun : ReflTransGen (Net.Step job) (Net.start (Vent.process env sendAll).1.acts) n)
    (hover : n.Over job) :
    OnceAfterAll (k + 1) n.calls ↔ n.delivered.head? = some (.firstMsg 0) ∨ k = 0 := by
  classical
  have hinv := Net.inv_run h.ends_code hrun
  cases hd : n.delivered with
  | nil =>
    -- something is always on its way at the start, so that a run that is over has delivered it
    have hs : n.sink = .next Sink.init := by
      rw [← hinv.ran, hd]
      rfl
    have hnothing := hinv.conserved
    rw [hd, Net.owed_of_over hover hs, List.nil_append] at hnothing
    have hlen := (hnothing.trans (h.sent_eq job)).length_eq
    simp at hlen
  | cons m rest =>
    have hmem : m ∈ Net.sent job (Vent.process env sendAll).1.acts := by
      rw [← hinv.conserved.mem_iff, hd]
      exact List.mem_cons_self ..
    rcases h.mem_sent hmem with rfl | rfl | ⟨i, hi, d, rfl⟩
    · have hfirst : n.delivered.head? = some (.firstMsg 0) := by rw [hd]; rfl
      exact ⟨fun _ => .inl rfl, fun _ => onceAfterAll_of_first h hinv hover hfirst⟩
    · -- the vent's own connection keeps the last message behind the first
      have hordered := hinv.ordered
      rw [hd, h.told] at hordered
      exact absurd (congrArg SinkMsg.code (List.cons.inj hordered).1) (by decide : (3 : Int) ≠ 1)
    · constructor
      · intro honce
        by_contra hcontra
        have hk : 0 < k := by omega
        exact not_onceAfterAll_of_data hk hd hinv.called honce
      · rintro (hhead | rfl)
        · exact absurd (congrArg SinkMsg.code (Option.some.inj hhead)) (by decide : (2 : Int) ≠ 1)
        · exact onceAfterAll_of_single h hinv hover hd

def numberActs (count : Int) : List (VentAct Int) :=
  (VentRandomNum.run undisturbed count 0 fun _ => 7).1.acts

theorem delivered_prefix {job : DataMsg α → List Str} {n n' : Net ι α}
    (hrun : ReflTransGen (Net.Step job) n n') : n.delivered <+: n'.delivered := by
  induction hrun with
  | refl => exact List.prefix_rfl
  | tail _ hstep ih =>
    cases hstep with
    | sink hs ht hb => exact ih.trans (List.prefix_append _ _)
    | _ => exact ih

/-- A vent's first message can be delivered before the vent does anything else. -/
theorem Net.run_first (job : DataMsg α → List Str) (first : SinkMsg) (acts : List (VentAct α)) :
    ∃ n : Net ι α, ReflTransGen (Net.Step job) (Net.start (.sink first :: acts)) n ∧
      n.delivered = [first] ∧ n.vent = acts := by
  let told : Net ι α :=
    { vent := acts, toWorkers := [], toSink := [(none, first)], sink := .next Sink.init,
      delivered := [], calls := [] }
  have htell : Net.Step job (Net.start (.sink first :: acts)) told := .tellSink rfl
  have htakes : Takes told.toSink none first [] := ⟨[], [], rfl, by simp, rfl⟩
  rcases hb : Sink.body Sink.init (Sink.deliver first) with ⟨out, flow⟩
  have hsink := @Net.Step.sink _ _ job told _ _ _ _ _ _ rfl htakes hb
  exact ⟨_, (ReflTransGen.single htell).tail hsink, rfl, rfl⟩

/-- Two numbers, each handed to a worker of its own behind the first message. -/
theorem results_once_twoWorkers :
    ∃ n : Net Bool Int, ReflTransGen (Net.Step fun _ => []) (Net.start (numberActs 2)) n ∧
      n.Over (fun _ => []) ∧ OnceAfterAll 2 n.calls := by
  have hacts : numberActs 2 =
      [.sink (.firstMsg 0), .send ⟨0, 7⟩, .send ⟨1, 7⟩, .sink (.lastMsg 1)] := by decide +kernel
  have h : SendsBatch (numberActs 2) 1 := ⟨by decide +kernel, by decide +kernel, by decide⟩
  obtain ⟨n₁, hfirst, hdelivered, hvent⟩ := Net.run_first (ι := Bool) (fun _ : DataMsg Int => [])
    (.firstMsg 0) [.send ⟨0, 7⟩, .send ⟨1, 7⟩, .sink (.lastMsg 1)]
  rw [← hacts] at hfirst
  have hsent := (hfirst.tail (.send true hvent)).tail (.send false rfl)
  obtain ⟨n, hrun, hover⟩ := Net.exists_over (fun _ => []) _
  have hall := hsent.trans hrun
  obtain ⟨rest, hrest⟩ := delivered_prefix hrun
  have hhead : n.delivered.head? = some (.firstMsg 0) := by
    rw [← hrest, hdelivered]
    rfl
  exact ⟨n, hall, hover, (results_once_iff (fun _ => []) undisturbed
    (VentRandomNum.sendAll undisturbed 2 0 fun _ => 7) 1 h hall hover).mpr (.inl hhead)⟩

/-- The data message after the first message can be worked on and delivered while the first message
is still on its way. -/
theorem overtake (job : DataMsg α → List Str) (k : ι) (first : SinkMsg) (m : DataMsg α)
    (acts : List (VentAct α)) :
    ∃ n : Net ι α,
      ReflTransGen (Net.Step job) (Net.start (.sink first :: .send m :: acts)) n ∧
      n.delivered = [.dataMsg m.id (job m)] := by
  let told : Net ι α :=
    { vent := .send m :: acts, toWorkers := [], toSink := [(none, first)],
      sink := .next Sink.init, delivered := [], calls := [] }
  let handed : Net ι α := { told with vent := acts, toWorkers := [(k, m)] }
  let worked : Net ι α :=
    { told with
      vent := acts
      toSink := [(none, first), (some k, .dataMsg m.id (job m))] }
  have htell : Net.Step job (Net.start (.sink first :: .send m :: acts)) told := .tellSink rfl
  have hsend : Net.Step job told handed := .send k rfl
  have hwork : Net.Step job handed worked :=
    .work ⟨[], [], rfl, by simp, rfl⟩ (Work.body_deliver m)
  have htakes : Takes worked.toSink (some k) (.dataMsg m.id (job m)) [(none, first)] :=
    ⟨[(none, first)], [], rfl, by simp, rfl⟩
  rcases hb : Sink.body Sink.init (Sink.deliver (.dataMsg m.id (job m))) with ⟨out, flow⟩
  have hsink := @Net.Step.sink _ _ job worked _ _ _ _ _ _ rfl htakes hb
  exact ⟨_, (((ReflTransGen.single htell).tail hsend).tail hwork).tail hsink, rfl⟩

/-- Two numbers through one worker, the first of them overtaking the first message. -/
theorem results_before_all :
    ∃ n : Net Unit Int, ReflTransGen (Net.Step fun _ => []) (Net.start (numberActs 2)) n ∧
      n.Over (fun _ => []) ∧ ¬ OnceAfterAll 2 n.calls := by
  have hacts : numberActs 2 =
      [.sink (.firstMsg 0), .send ⟨0, 7⟩, .send ⟨1, 7⟩, .sink (.lastMsg 1)] := by decide +kernel
  have h : SendsBatch (numberActs 2) 1 := ⟨by decide +kernel, by decide +kernel, by decide⟩
  obtain ⟨n₁, hrun₁, hdelivered⟩ := overtake (fun _ : DataMsg Int => []) () (.firstMsg 0) ⟨0, 7⟩
    [.send ⟨1, 7⟩, .sink (.lastMsg 1)]
  rw [← hacts] at hrun₁
  obtain ⟨n, hrun, hover⟩ := Net.exists_over (fun _ => []) n₁
  have hall := hrun₁.trans hrun
  obtain ⟨rest, hrest⟩ := delivered_prefix hrun
  rw [hdelivered] at hrest
  exact ⟨n, hall, hover, not_onceAfterAll_of_data (by decide) hrest.symm
    (Net.inv_run h.ends_code hall).called⟩

end Skweltch
