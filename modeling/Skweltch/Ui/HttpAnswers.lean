import Skweltch.Ui.HttpServer

/-!
# Skweltch — what the server answers

What a connection is owed depends on the bytes that it has sent and on nothing else: not on how they
were cut into reads, and not on what comes in between on other connections (`answers_run`). The
requests are handled one after the other, each with what the one before it has left, as if there
were one connection (`served`). The loop is left only by what a handler throws (`left_run`), and
after a signal it ends by itself, with every connection closed that was started (`shutdown_run`).
-/

namespace Skweltch

open EventLoop

namespace Http

def received (i : ℕ) (es : List Event) : Str := es.flatMap (Event.input i)

def repliesTo (i : ℕ) (out : List Call) : List (Option Request × Reply) :=
  out.flatMap (Call.replies i)

def handledBy (out : List Call) : List (Request × Reply) := out.flatMap Call.handled

/-- What the bytes of a connection are answered with. -/
structure Answered (input : Str) (replies : List (Option Request × Reply)) : Prop where
  request : ∀ r : RequestText, r.wire <+: input → ∃ rep, replies = [(some r.request, rep)]
  refused : (∀ r : RequestText, ¬ r.wire <+: input ∧ ¬ input <+: r.wire) →
    replies = [(none, .stockReply .badRequest)]
  waits : ∀ r : RequestText, input <+: r.wire → input ≠ r.wire → replies = []

/-- Requests that are handled one after the other. -/
def served {κ : Type} (handle : κ → Request → Option (Reply × κ)) : Body κ Request Reply Unit :=
  fun context req =>
    match handle context req with
    | some (rep, context') => ([rep], .next context')
    | none => ([], .exit ())

theorem received_snoc (i : ℕ) (es : List Event) (e : Event) :
    received i (es ++ [e]) = received i es ++ e.input i := by
  simp [received]

theorem repliesTo_append (i : ℕ) (out out' : List Call) :
    repliesTo i (out ++ out') = repliesTo i out ++ repliesTo i out' := by
  simp [repliesTo]

/-! ## What a connection is owed

What a connection has received decides what it is owed: nothing yet, a refusal, or the answer to its
one request. -/

/-- What was replied, by the verdict of the parser on the bytes. -/
def Owed (p : Recogniser.Parsed RequestParser Char Bool)
    (replies : List (Option Request × Reply)) : Prop :=
  match p.verdict with
  | none => replies = []
  | some false => replies = [(none, .stockReply .badRequest)]
  | some true => ∃ rep, replies = [(some p.state.req, rep)]

/-- A connection that has been given what it is owed is answered. -/
theorem Owed.answered {input : Str} {replies : List (Option Request × Reply)}
    (h : Owed (RequestParser.parse .new input) replies) : Answered input replies where
  request := by
    rintro r ⟨rest, rfl⟩
    have hr : RequestParser.parse .new (r.wire ++ rest) =
        ⟨⟨.expectingNewline3, r.request⟩, some true, rest⟩ := r.accepts_wire rest
    rw [hr] at h
    exact h
  refused := by
    intro hno
    have hverdict := (RequestText.verdict_no_iff input).mpr hno
    rw [Owed, hverdict] at h
    exact h
  waits := by
    intro r hr hne
    have hverdict := (RequestText.verdict_more_iff input).mpr ⟨r, hr, hne⟩
    rw [Owed, hverdict] at h
    exact h

/-- Where a connection is, if there is one yet, by the bytes that it has sent. -/
structure Heard (input : Str) (replies : List (Option Request × Reply))
    (c? : Option Connection) : Prop where
  owed : Owed (RequestParser.parse .new input) replies
  none : c? = none → input = []
  parser : ∀ c, c? = some c → c.parser = (RequestParser.parse .new input).state
  /-- it reads on only while the parser wants more -/
  reading : ∀ c b, c? = some c → c.begun = some ⟨.read, b⟩ →
    (RequestParser.parse .new input).verdict = Option.none

namespace Server

variable {κ : Type} {handle : κ → Request → Option (Reply × κ)} {s s' : Server κ} {e : Event}
  {out : List Call} {input : Str} {replies : List (Option Request × Reply)}

/-- A connection that is not heard, and begins no read. -/
theorem heard_map {c? : Option Connection} {f : Connection → Connection}
    (hf : ∀ c, (f c).parser = c.parser ∧ ((f c).begun = c.begun ∨ (f c).begun = none))
    (h : Heard input replies c?) : Heard input replies (c?.map f) where
  owed := h.owed
  none := fun hnone => h.none (Option.map_eq_none_iff.mp hnone)
  parser := by
    intro c hc
    obtain ⟨c₀, hc₀, rfl⟩ := Option.map_eq_some_iff.mp hc
    rw [(hf c₀).1]
    exact h.parser c₀ hc₀
  reading := by
    intro c b hc hbegun
    obtain ⟨c₀, hc₀, rfl⟩ := Option.map_eq_some_iff.mp hc
    rcases (hf c₀).2 with hkept | hended
    · exact h.reading c₀ b hc₀ (hkept ▸ hbegun)
    · rw [hended] at hbegun
      cases hbegun

/-- Accepting a connection does not touch the others, and the new one has received nothing. -/
theorem heard_accepted {j : ℕ} (e : Completion Unit)
    (h : Heard input replies s.connections[j]?) :
    Heard input replies (s.handleAccept e).connections[j]? := by
  rw [handleAccept.eq_def]
  by_cases hclosed : s.acceptorOpen = false
  · rw [if_pos hclosed]
    exact h
  · rw [if_neg hclosed]
    cases e with
    | aborted => exact h
    | failed => exact h
    | ok _ =>
      show Heard input replies s.manage.connections[j]?
      rw [lookup_manage]
      by_cases hj : j = s.connections.length
      · rw [if_pos hj]
        -- it is new, and has sent nothing
        obtain rfl : input = [] := h.none (List.getElem?_eq_none (Nat.le_of_eq hj.symm))
        exact
          { owed := h.owed
            none := fun hnone => by cases hnone
            parser := fun c hc => by
              obtain rfl := Option.some.inj hc
              rfl
            reading := fun _ _ _ _ => rfl }
      · rw [if_neg hj]
        exact h

theorem parse_append (hnone : (RequestParser.parse .new input).verdict = none) (more : Str) :
    RequestParser.parse .new (input ++ more) =
      (RequestParser.parse .new input).state.parse more :=
  Recogniser.parse_append_of_none hnone more

/-- The replies behind a read are what the connection is owed for all that it has sent. -/
theorem Answer.owed {i : ℕ} {context context' : κ} {p : Recogniser.Parsed RequestParser Char Bool}
    {operation : Operation} (h : Answer handle i context p operation out context') :
    Owed p (repliesTo i out) ∧ (∀ j, j ≠ i → repliesTo j out = []) ∧
      (operation = .read → p.verdict = none) := by
  cases h with
  | more h =>
    refine ⟨?_, fun _ _ => rfl, fun _ => h⟩
    rw [Owed, h]
    rfl
  | refused h =>
    refine ⟨?_, fun j hj => ?_, nofun⟩
    · rw [Owed, h]
      simp [repliesTo, Call.replies]
    · simp [repliesTo, Call.replies, Ne.symm hj]
  | handled rep context' h hhandle =>
    refine ⟨?_, fun j hj => ?_, nofun⟩
    · rw [Owed, h]
      exact ⟨rep, by simp [repliesTo, Call.replies]⟩
    · simp [repliesTo, Call.replies, Ne.symm hj]

/-- Reading from one connection: it is given what it is owed, and the others hear nothing. -/
theorem heard_read {i : ℕ} {c : Connection} {more : Str} {operation : Operation} {context : κ}
    (hc : s.connections[i]? = some c) (hbegun : c.begun = some ⟨.read, true⟩)
    (hanswer : Answer handle i s.context (c.parser.parse more) operation out context)
    {ins : ℕ → Str} {reps : ℕ → List (Option Request × Reply)}
    (h : ∀ j, Heard (ins j) (reps j) s.connections[j]?) (j : ℕ) :
    Heard (ins j ++ (Event.read i (.ok more)).input j) (reps j ++ repliesTo j out)
      (s.goOn i (c.parser.parse more).state operation context).connections[j]? := by
  obtain ⟨howed, hothers, hreading⟩ := hanswer.owed
  rw [lookup_goOn]
  by_cases hij : i = j
  · subst hij
    have hi := h i
    have hverdict := hi.reading c true hc hbegun
    -- a connection that still reads has not been answered
    have hreps : reps i = [] := by
      have := hi.owed
      rwa [Owed, hverdict] at this
    have hparse : RequestParser.parse .new (ins i ++ more) = c.parser.parse more := by
      rw [parse_append hverdict, hi.parser c hc]
    simp only [Event.input, if_pos, hreps, List.nil_append, hc, Option.map_some]
    exact
      { owed := by rw [hparse]; exact howed
        none := fun hnone => by cases hnone
        parser := fun c' hc' => by
          obtain rfl := Option.some.inj hc'
          rw [hparse]
          rfl
        reading := fun c' b hc' hbegun' => by
          obtain rfl := Option.some.inj hc'
          rw [hparse]
          exact hreading (congrArg Begun.operation (Option.some.inj hbegun')) }
  · have hin : (Event.read i (.ok more)).input j = [] := if_neg hij
    rw [hin, List.append_nil, hothers j (Ne.symm hij), List.append_nil]
    refine heard_map (fun c => ?_) (h j)
    rw [if_neg hij]
    exact ⟨rfl, Or.inl rfl⟩

/-- What one step preserves: each connection has been given what it is owed for the bytes it
received. -/
theorem Step.heard (hstep : Step handle s e out s') {ins : ℕ → Str}
    {reps : ℕ → List (Option Request × Reply)} (h : ∀ j, Heard (ins j) (reps j) s.connections[j]?)
    (j : ℕ) : Heard (ins j ++ e.input j) (reps j ++ repliesTo j out) s'.connections[j]? := by
  cases hstep with
  | stopped =>
    rw [lookup_handleStop]
    have hsame := heard_map (f := fun c => if j ∈ s.managed then c.stop else c)
      (fun c => by split <;> exact ⟨rfl, Or.inl rfl⟩) (h j)
    simpa [Event.input, repliesTo] using hsame
  | arrived => simpa [Event.input, repliesTo] using h j
  | accepted e =>
    have hsame := heard_accepted e (h j)
    simpa [Event.input, repliesTo] using hsame
  | read hc hbegun hanswer => exact heard_read hc hbegun hanswer h j
  | @aborted _ i c hc hbegun hclosed hinput =>
    rw [lookup_update, hinput, List.append_nil]
    have hsame := heard_map (f := fun c => if i = j then c.ended else c)
      (fun c => by split; exacts [⟨rfl, Or.inr rfl⟩, ⟨rfl, Or.inl rfl⟩]) (h j)
    simpa [repliesTo] using hsame
  | @ended _ i c _ hc hbegun hinput hout =>
    rw [lookup_stop, hinput, List.append_nil]
    have hnone : repliesTo j out = [] := by
      rcases hout with rfl | rfl <;> rfl
    rw [hnone, List.append_nil]
    exact heard_map (f := fun c => if i = j then c.ended.stop else c)
      (fun c => by split; exacts [⟨rfl, Or.inr rfl⟩, ⟨rfl, Or.inl rfl⟩]) (h j)

/-! ## The order of the requests

The handler is called for the requests in the order in which they are complete, with the context
that it has left before. -/

/-- What one step preserves: the requests that were handled, in their order, explain the context. -/
theorem Step.context (hstep : Step handle s e out s') {k : κ} {done : List (Request × Reply)}
    (h : run (served handle) k (done.map Prod.fst) =
      (done.map fun p => [p.2], .next s.context)) :
    run (served handle) k ((done ++ handledBy out).map Prod.fst) =
      ((done ++ handledBy out).map fun p => [p.2], .next s'.context) := by
  -- only a reply asks the handler, and the context is left alone elsewhere
  have hsame : ∀ {s'' : Server κ}, s''.context = s.context → handledBy out = [] →
      run (served handle) k ((done ++ handledBy out).map Prod.fst) =
        ((done ++ handledBy out).map fun p => [p.2], .next s''.context) := by
    intro s'' hcontext hnone
    rw [hnone, List.append_nil, hcontext]
    exact h
  cases hstep with
  | stopped => exact hsame rfl rfl
  | arrived => exact hsame rfl rfl
  | accepted e =>
    refine hsame ?_ rfl
    rw [handleAccept.eq_def]
    split
    · rfl
    · cases e <;> rfl
  | aborted hc hbegun hclosed hinput => exact hsame rfl rfl
  | ended hc hbegun hinput hout =>
    refine hsame rfl ?_
    rcases hout with rfl | rfl <;> rfl
  | read hc hbegun hanswer =>
    cases hanswer with
    | more hverdict => exact hsame rfl rfl
    | refused hverdict => exact hsame rfl rfl
    | handled rep context hverdict hhandle =>
      simp only [handledBy, List.flatMap_cons, Call.handled, List.flatMap_nil, List.append_nil,
        List.map_append, List.map_cons, List.map_nil]
      rw [run_snoc h]
      simp only [served, hhandle]
      rfl

/-! ## Runs -/

structure History (handle : κ → Request → Option (Reply × κ)) (context : κ) (es : List Event)
    (out : List Call) (s : Server κ) : Prop where
  heard : ∀ i, Heard (received i es) (repliesTo i out) s.connections[i]?
  order : run (served handle) context ((handledBy out).map Prod.fst) =
    ((handledBy out).map fun p => [p.2], .next s.context)

/-- Before the first event there is nothing to explain. -/
theorem history_new (context : κ) : History handle context [] [] (new context) where
  heard := fun i =>
    { owed := rfl
      none := fun _ => rfl
      parser := fun c hc => by simp [new] at hc
      reading := fun _ _ _ _ => rfl }
  order := rfl

/-- What one step preserves of the whole history. -/
theorem Step.history (hstep : Step handle s e out s') {context : κ} {es : List Event}
    {calls : List Call} (h : History handle context es calls s) :
    History handle context (es ++ [e]) (calls ++ out) s' where
  heard := by
    intro i
    rw [received_snoc, repliesTo_append]
    exact hstep.heard h.heard i
  order := by
    have hcontext := hstep.context h.order
    rw [handledBy, List.flatMap_append]
    exact hcontext

/-- What every run preserves, by induction on the events. -/
theorem history_run {context : κ} {es : List Event} {outs : List (List Call)}
    (hallowed : AtEvery (body handle) (new context) es Allowed)
    (h : run (body handle) (new context) es = (outs, .next s)) :
    History handle context es outs.flatten s :=
  run_invariant_guarded (I := History handle context) (G := Allowed) (history_new context)
    (fun _ _ _ _ _ _ hs hallowed hbody => (step_of_body hallowed hbody).history hs) hallowed h

/-- What is handled behind a read was sent in full. -/
theorem History.sent {context : κ} {es : List Event} {out : List Call}
    (h : History handle context es out s) {i : ℕ} {c : Connection} {more : Str}
    (hc : s.connections[i]? = some c) (hbegun : c.begun = some ⟨.read, true⟩)
    (hverdict : (c.parser.parse more).verdict = some true) :
    ∃ r : RequestText, r.wire <+: received i (es ++ [.read i (.ok more)]) ∧
      r.request = (c.parser.parse more).state.req := by
  have hheard := h.heard i
  have hparse : RequestParser.parse .new (received i es ++ more) = c.parser.parse more := by
    rw [parse_append (hheard.reading c true hc hbegun), hheard.parser c hc]
  obtain ⟨r, rest, hr⟩ := (RequestText.verdict_yes_iff _).mp (by rw [hparse]; exact hverdict)
  refine ⟨r, ?_, ?_⟩
  · have hin : (Event.read i (.ok more)).input i = more := if_pos rfl
    rw [received_snoc, hin, ← hr]
    exact List.prefix_append _ _
  · have hwire : RequestParser.parse .new (r.wire ++ rest) =
        ⟨⟨.expectingNewline3, r.request⟩, some true, rest⟩ := r.accepts_wire rest
    rw [← hparse, ← hr, hwire]

/-- **Every connection is answered for its own bytes.** In every run each connection has what it is
owed for the bytes that it has sent, however they were cut and whatever came in between, and the
requests were handled one after the other. -/
theorem answers_run {context : κ} {es : List Event} {outs : List (List Call)}
    (hallowed : AtEvery (body handle) (new context) es Allowed)
    (h : run (body handle) (new context) es = (outs, .next s)) :
    (∀ i, Answered (received i es) (repliesTo i outs.flatten)) ∧
      run (served handle) context ((handledBy outs.flatten).map Prod.fst) =
        ((handledBy outs.flatten).map fun p => [p.2], .next s.context) :=
  ⟨fun i => ((history_run hallowed h).heard i).owed.answered, (history_run hallowed h).order⟩

/-- Two connections that send their requests in turns. -/
theorem answers_run_twoConnections :
    ∃ outs s, run (body echo) (new 0) twoConnections = (outs, .next s) ∧
      (∀ i, Answered (received i twoConnections) (repliesTo i outs.flatten)) ∧
      run (served echo) 0 ((handledBy outs.flatten).map Prod.fst) =
        ((handledBy outs.flatten).map fun p => [p.2], .next s.context) :=
  have hallowed : AtEvery (body echo) (new 0) twoConnections Allowed := by decide +kernel
  ⟨_, _, rfl, answers_run hallowed rfl⟩

/-! ## How the loop is left

The loop is left when the handler throws, which no one catches. -/

/-- The loop is left by a complete request for which the handler throws, and by nothing else. -/
theorem exit_of_body {req : Request} (hallowed : s.Allowed e)
    (h : body handle s e = (out, .exit req)) :
    out = [] ∧ handle s.context req = none ∧ ∃ i c input, e = .read i (.ok input) ∧
      s.connections[i]? = some c ∧ c.begun = some ⟨.read, true⟩ ∧
      (c.parser.parse input).verdict = some true ∧ req = (c.parser.parse input).state.req := by
  cases e with
  | signal => cases (Prod.mk.inj h).2
  | arrived => cases (Prod.mk.inj h).2
  | accept e => cases (Prod.mk.inj h).2
  | write i e => cases e <;> cases (Prod.mk.inj h).2
  | read i e =>
    obtain ⟨c, hc, onOpen, hbegun, he⟩ := hallowed
    simp only [body, hc] at h
    cases e with
    | aborted => cases (Prod.mk.inj h).2
    | failed => cases (Prod.mk.inj h).2
    | ok input =>
      obtain rfl : onOpen = true := he
      -- data that complete a request are all that the handler is called for
      simp only [handleRead] at h
      split at h
      · rename_i hverdict
        split at h
        · cases (Prod.mk.inj h).2
        · rename_i hhandle
          obtain ⟨rfl, hreq⟩ := Prod.mk.inj h
          obtain rfl := Flow.exit.inj hreq
          exact ⟨rfl, hhandle, i, c, input, rfl, hc, hbegun, hverdict, rfl⟩
      · cases (Prod.mk.inj h).2
      · cases (Prod.mk.inj h).2

/-- **Only a handler ends the loop early**: it throws for a request that a connection has sent, as
it would behind the same requests one after the other. -/
theorem left_run {context : κ} {es : List Event} {outs : List (List Call)} {req : Request}
    (hallowed : AtEvery (body handle) (new context) es Allowed)
    (h : run (body handle) (new context) es = (outs, .exit req)) :
    (∃ i, ∃ r : RequestText, r.wire <+: received i es ∧ r.request = req) ∧
      (run (served handle) context ((handledBy outs.flatten).map Prod.fst ++ [req])).2 =
        .exit () := by
  obtain ⟨pre, e, outs', s, hpre, hrun, hexit⟩ := exists_of_run_exit (by rw [h])
  have hhistory := history_run
    (fun pre' e' hp => hallowed pre' e' (hp.trans ((List.prefix_append pre [e]).trans hpre))) hrun
  obtain ⟨hout, hthrows, i, c, input, rfl, hc, hbegun, hverdict, rfl⟩ :=
    exit_of_body (hallowed pre e hpre outs' s hrun) (Prod.ext rfl hexit)
  constructor
  · obtain ⟨r, hr, hreq⟩ := hhistory.sent hc hbegun hverdict
    obtain ⟨more, rfl⟩ := hpre
    refine ⟨i, r, hr.trans ?_, hreq⟩
    exact ⟨received i more, List.flatMap_append.symm⟩
  · obtain ⟨more, rfl⟩ := hpre
    -- the iteration that leaves the loop sends nothing
    have hall : outs = outs' ++ [[]] := by
      have hlast := run_snoc hrun (Event.read i (.ok input))
      rw [hexit] at hlast
      rw [run_append_exit hlast] at h
      rw [← (Prod.mk.inj h).1]
      exact congrArg (fun out => outs' ++ [out]) hout
    have hflat : outs.flatten = outs'.flatten := by simp [hall]
    rw [hflat, run_snoc hhistory.order]
    simp only [served, hthrows]

/-- A step asks the handler only for a request that is complete. -/
theorem body_congr {handle' : κ → Request → Option (Reply × κ)}
    (h : ∀ i c input, e = .read i (.ok input) → s.connections[i]? = some c →
      (c.parser.parse input).verdict = some true →
      handle s.context (c.parser.parse input).state.req =
        handle' s.context (c.parser.parse input).state.req) :
    body handle s e = body handle' s e := by
  cases e with
  | signal => rfl
  | arrived => rfl
  | accept e => rfl
  | write i e => rfl
  | read i e =>
    cases hc : s.connections[i]? with
    | none => simp only [body, hc]
    | some c =>
      simp only [body, hc]
      cases e with
      | aborted => rfl
      | failed => rfl
      | ok input =>
        simp only [handleRead]
        cases hverdict : (c.parser.parse input).verdict with
        | none => rfl
        | some accepted =>
          cases accepted with
          | false => rfl
          | true => rw [h i c input rfl hc hverdict]

/-- **Only what is sent is handled**: two handlers that agree on the requests that the connections
send answer alike in every run. -/
theorem run_congr {handle' : κ → Request → Option (Reply × κ)} {context : κ} {es : List Event}
    (hallowed : AtEvery (body handle) (new context) es Allowed)
    (h : ∀ i, ∀ r : RequestText, r.wire <+: received i es →
      ∀ context, handle context r.request = handle' context r.request) :
    run (body handle) (new context) es = run (body handle') (new context) es := by
  induction es using List.reverseRecOn with
  | nil => rfl
  | append_singleton es e ih =>
    -- what was received before the last event is the beginning of what is received
    have hsame := ih
      (fun pre e' hp => hallowed pre e' (hp.trans (List.prefix_append es [e])))
      (fun i r hr => h i r (by
        rw [received_snoc]
        exact hr.trans (List.prefix_append _ _)))
    rcases hrun : run (body handle) (new context) es with ⟨outs, s | req⟩
    · have hhistory := history_run
        (fun pre e' hp => hallowed pre e' (hp.trans (List.prefix_append es [e]))) hrun
      have hstep : body handle s e = body handle' s e := by
        refine body_congr fun i c input he hc hverdict => ?_
        subst he
        obtain ⟨c', hc', onOpen, hbegun, hopen⟩ := hallowed es _ List.prefix_rfl outs s hrun
        obtain rfl := Option.some.inj (hc.symm.trans hc')
        obtain rfl : onOpen = true := hopen
        -- the request that is handled here was sent on its connection
        obtain ⟨r, hr, hreq⟩ := hhistory.sent hc hbegun hverdict
        rw [← hreq]
        exact h i r hr s.context
      rw [run_snoc hrun, run_snoc (hsame.symm.trans hrun), hstep]
    · rw [run_append_exit hrun, run_append_exit (hsame.symm.trans hrun)]

/-- A handler that throws. -/
def throws (_ : ℕ) (_ : Request) : Option (Reply × ℕ) := none

/-- The first of the two requests ends the loop when the handler throws. -/
theorem left_run_twoConnections :
    ∃ outs req, run (body throws) (new 0) twoConnections = (outs, .exit req) ∧
      (∃ i, ∃ r : RequestText, r.wire <+: received i twoConnections ∧ r.request = req) ∧
      (run (served throws) 0 ((handledBy outs.flatten).map Prod.fst ++ [req])).2 = .exit () :=
  have hallowed : AtEvery (body throws) (new 0) twoConnections Allowed := by decide +kernel
  ⟨_, _, rfl, left_run hallowed rfl⟩

/-! ## Behind a signal

A signal closes the acceptor and all connections that are managed. What is still called are handlers
of operations that were begun, which a measure counts down. -/

/-- How many more handlers are called for a connection that is closed. -/
def pendingOf (c : Connection) : ℕ :=
  match c.begun with
  | none => 0
  | some b => if b.onOpen then 2 else 1

def pending (s : Server κ) : ℕ :=
  (if s.accepting then 1 else 0) + (s.connections.map pendingOf).sum

theorem pendingOf_le (c : Connection) : pendingOf c ≤ 2 := by
  rw [pendingOf]
  split
  · exact Nat.zero_le 2
  · split <;> decide

/-- How many handlers can be called at most behind a signal. -/
theorem pending_le (s : Server κ) : s.pending ≤ 1 + 2 * s.connections.length := by
  have hsum : (s.connections.map pendingOf).sum ≤ s.connections.length * 2 := by
    have hle := List.sum_le_card_nsmul (s.connections.map pendingOf) 2 (by
      intro n hn
      obtain ⟨c, -, rfl⟩ := List.mem_map.mp hn
      exact pendingOf_le c)
    simpa using hle
  rw [pending]
  split <;> omega

/-- Changing one connection changes its part of the sum only. -/
theorem sum_modify {cs : List Connection} {i : ℕ} {c : Connection} (hc : cs[i]? = some c)
    (f : Connection → Connection) :
    ((cs.modify i f).map pendingOf).sum + pendingOf c =
      (cs.map pendingOf).sum + pendingOf (f c) := by
  induction cs generalizing i with
  | nil => cases hc
  | cons c₀ cs ih =>
    cases i with
    | zero =>
      obtain rfl := Option.some.inj hc
      simp only [List.modify_zero_cons, List.map_cons, List.sum_cons]
      omega
    | succ i =>
      have hrest := ih hc
      simp only [List.modify_succ_cons, List.map_cons, List.sum_cons]
      omega

/-- The server has been stopped. -/
structure Stopped (s : Server κ) : Prop where
  acceptor : s.acceptorOpen = false
  closed : ∀ (i : ℕ) (c : Connection), s.connections[i]? = some c → c.isOpen = false

/-- Once the acceptor is closed, so is every connection that is managed. -/
theorem Consistent.stopped_of (h : s.Consistent) (hclosed : s.acceptorOpen = false) :
    s.Stopped where
  acceptor := hclosed
  closed := by
    intro i c hc
    by_contra hopen
    have hmem := (h.managed i).mpr ⟨c, hc, by simpa using hopen⟩
    rw [h.stopped hclosed] at hmem
    cases hmem

/-- Once the acceptor is closed it stays so, and `new_connection_` is left as it is. -/
theorem Step.acceptor (hstep : Step handle s e out s') (hallowed : s.Allowed e)
    (hclosed : s.acceptorOpen = false) : s'.acceptorOpen = false ∧ s'.newOpen = s.newOpen := by
  cases hstep with
  | accepted e =>
    rw [handleAccept.eq_def, if_pos hclosed]
    exact ⟨hclosed, rfl⟩
  | arrived =>
    have hopen : s.acceptorOpen = true := hallowed.1
    exact absurd (hopen.symm.trans hclosed) (by decide)
  | stopped => exact ⟨rfl, rfl⟩
  | read hc hbegun hanswer => exact ⟨hclosed, rfl⟩
  | aborted hc hbegun hc' hinput => exact ⟨hclosed, rfl⟩
  | ended hc hbegun hinput hout => exact ⟨hclosed, rfl⟩

/-- **Each handler that is called behind a signal is one less**, and no connection is added. -/
theorem Step.pending_lt (hstep : Step handle s e out s') (hallowed : s.Allowed e)
    (hs : s.Stopped) (hwaits : s.waiting = s.acceptorOpen) :
    s'.pending < s.pending ∧ s'.connections.length = s.connections.length := by
  -- a connection that begins nothing more is one handler less, or two
  have hends : ∀ {i : ℕ} {c : Connection}, s.connections[i]? = some c → c.begun ≠ none →
      ∀ f : Connection → Connection, (f c).begun = none →
      (s.update i f).pending < s.pending := by
    intro i c hc hbegun f hf
    have hsum := sum_modify hc f
    have hzero : pendingOf (f c) = 0 := by rw [pendingOf, hf]
    have hpos : 0 < pendingOf c := by
      rw [pendingOf]
      split
      · rename_i hnone
        exact absurd hnone hbegun
      · split <;> decide
    show (if s.accepting then 1 else 0) + ((s.connections.modify i f).map pendingOf).sum < _
    rw [pending]
    omega
  cases hstep with
  | stopped =>
    -- a second signal is not waited for
    have hwaiting : s.waiting = true := hallowed
    rw [hwaits, hs.acceptor] at hwaiting
    cases hwaiting
  | arrived =>
    have hopen : s.acceptorOpen = true := hallowed.1
    exact absurd (hopen.symm.trans hs.acceptor) (by decide)
  | accepted e =>
    have haccepting : s.accepting = true := hallowed.1
    rw [handleAccept.eq_def, if_pos hs.acceptor]
    refine ⟨?_, rfl⟩
    simp [pending, haccepting]
  | @read i c input operation _ context hc hbegun hanswer =>
    refine ⟨?_, List.length_modify _ _ _⟩
    have hsum := sum_modify hc
      fun c' => { c' with parser := (c.parser.parse input).state }.begin operation
    have hone : pendingOf ({ c with parser := (c.parser.parse input).state }.begin operation) = 1 := by
      simp [pendingOf, Connection.begin, hs.closed i c hc]
    -- the socket is closed, so its next operation is aborted at once
    have htwo : pendingOf c = 2 := by simp [pendingOf, hbegun]
    show (if s.accepting then 1 else 0) + ((s.connections.modify i _).map pendingOf).sum < _
    rw [pending]
    omega
  | aborted hc hbegun hclosed hinput =>
    exact ⟨hends hc hbegun Connection.ended rfl, List.length_modify _ _ _⟩
  | @ended _ i c _ hc hbegun hinput hout =>
    have hstop : (s.update i Connection.ended).stop i =
        { s.update i (Connection.stop ∘ Connection.ended) with
          managed := s.managed.filter (· ≠ i) } := by
      rw [stop, update_update]
      rfl
    rw [hstop]
    exact ⟨hends hc hbegun (Connection.stop ∘ Connection.ended) rfl, List.length_modify _ _ _⟩

/-- What is left behind a signal, after some events. -/
structure Winding (n : ℕ) (connections : ℕ) (newOpen : Bool) (s : Server κ) : Prop where
  consistent : s.Consistent
  acceptor : s.acceptorOpen = false
  new : s.newOpen = newOpen
  pending : n + s.pending ≤ 1 + 2 * connections
  connections : s.connections.length = connections

/-- Stopping removes no connection from the list. -/
theorem length_handleStop (s : Server κ) :
    s.handleStop.connections.length = s.connections.length := by
  have hfold : ∀ (is : List ℕ) (cs : List Connection),
      (is.foldl (fun cs i => cs.modify i Connection.stop) cs).length = cs.length := by
    intro is
    induction is with
    | nil => exact fun _ => rfl
    | cons i is ih => exact fun cs => (ih _).trans (List.length_modify _ _ _)
  exact hfold s.managed s.connections

/-- A signal is where winding up begins. -/
theorem winding_handleStop (h : s.Consistent) :
    Winding 0 s.connections.length s.newOpen s.handleStop where
  consistent := h.handleStop
  acceptor := rfl
  new := rfl
  pending := by
    have hle := pending_le s.handleStop
    rw [length_handleStop] at hle
    omega
  connections := length_handleStop s

/-- What one step preserves behind a signal; each handler that is called brings the end nearer. -/
theorem Step.winding (hstep : Step handle s e out s') (hallowed : s.Allowed e) {n connections : ℕ}
    {newOpen : Bool} (h : Winding n connections newOpen s) :
    Winding (n + 1) connections newOpen s' := by
  obtain ⟨hclosed, hnew⟩ := hstep.acceptor hallowed h.acceptor
  have hlt := hstep.pending_lt hallowed (h.consistent.stopped_of h.acceptor) h.consistent.waits
  exact
    { consistent := hstep.consistent h.consistent
      acceptor := hclosed
      new := hnew.trans h.new
      pending := by
        have := h.pending
        omega
      connections := hlt.2.trans h.connections }

/-- There is nothing left to wait for once every operation has ended. -/
theorem Stopped.idle_iff (hs : s.Stopped) (hwaits : s.waiting = s.acceptorOpen) :
    (∀ e, ¬ s.Allowed e) ↔ s.accepting = false ∧ ∀ c ∈ s.connections, c.begun = none := by
  constructor
  · intro h
    refine ⟨?_, fun c hc => ?_⟩
    · -- an accept ends with success if its connection is there, and without if not
      by_contra haccepting
      have haccepting : s.accepting = true := by simpa using haccepting
      cases hnew : s.newOpen with
      | true => exact h (.accept (.ok ())) ⟨haccepting, by simp [hnew]⟩
      | false => exact h (.accept .failed) ⟨haccepting, by simp [hnew]⟩
    obtain ⟨i, hi⟩ := List.mem_iff_getElem?.mp hc
    by_contra hne
    obtain ⟨⟨operation, onOpen⟩, hbegun⟩ := Option.ne_none_iff_exists'.mp hne
    cases operation with
    -- an operation that was begun can always fail
    | read => exact h (.read i .failed) ⟨c, hi, onOpen, hbegun, trivial⟩
    | write => exact h (.write i .failed) ⟨c, hi, onOpen, hbegun, trivial⟩
  · rintro ⟨haccepting, hbegun⟩ e hallowed
    cases e with
    | signal =>
      have hwaiting : s.waiting = true := hallowed
      rw [hwaits, hs.acceptor] at hwaiting
      cases hwaiting
    | arrived =>
      have htrue : s.accepting = true := hallowed.2.1
      rw [haccepting] at htrue
      cases htrue
    | accept e =>
      have htrue : s.accepting = true := hallowed.1
      rw [haccepting] at htrue
      cases htrue
    | read i e =>
      obtain ⟨c, hc, onOpen, hsome, -⟩ := hallowed
      rw [hbegun c (List.mem_of_getElem? hc)] at hsome
      cases hsome
    | write i e =>
      obtain ⟨c, hc, onOpen, hsome, -⟩ := hallowed
      rw [hbegun c (List.mem_of_getElem? hc)] at hsome
      cases hsome

/-- **A signal ends the server.** Behind it no connection is started and all that were are closed; the
one that was accepted just before, and not started, is dropped and stays open. At most two more
handlers are called for each connection and one for the acceptor, and the loop has nothing left to
wait for exactly if every operation has ended. -/
theorem shutdown_run {context : κ} {before after : List Event} {outs₁ outs : List (List Call)}
    {s₁ : Server κ}
    (hallowed : AtEvery (body handle) (new context) (before ++ .signal :: after) Allowed)
    (h₁ : run (body handle) (new context) before = (outs₁, .next s₁))
    (h : run (body handle) (new context) (before ++ .signal :: after) = (outs, .next s)) :
    after.length ≤ 1 + 2 * s₁.connections.length ∧
      s.connections.length = s₁.connections.length ∧ s.managed = [] ∧
      (∀ c ∈ s.connections, c.isOpen = false) ∧ s.newOpen = s₁.newOpen ∧
      ((∀ e, ¬ s.Allowed e) ↔ s.accepting = false ∧ ∀ c ∈ s.connections, c.begun = none) := by
  have hbefore : s₁.Consistent :=
    consistent_run (fun pre e hp => hallowed pre e (hp.trans (List.prefix_append _ _))) h₁
  have hsignal : body handle s₁ .signal = ([], .next s₁.handleStop) := rfl
  have hrest : ∀ (es : List Event) (outs' : List (List Call)) (s' : Server κ),
      run (body handle) s₁.handleStop es = (outs', .next s') →
      run (body handle) (new context) (before ++ .signal :: es) =
        (outs₁ ++ [] :: outs', .next s') := by
    intro es outs' s' hrun
    rw [run_append_next h₁, run_cons_next hsignal, hrun]
  -- what is allowed behind the signal was allowed in the whole run
  have hguard : AtEvery (body handle) s₁.handleStop after Allowed := by
    intro pre e hpre outs' s' hrun
    refine hallowed (before ++ .signal :: pre) e ?_ _ s' (hrest pre outs' s' hrun)
    obtain ⟨more, rfl⟩ := hpre
    exact ⟨more, by simp⟩
  have hafter : ∃ outs', run (body handle) s₁.handleStop after = (outs', .next s) := by
    rw [run_append_next h₁, run_cons_next hsignal] at h
    exact ⟨_, Prod.ext rfl (Prod.mk.inj h).2⟩
  obtain ⟨outs', hafter⟩ := hafter
  -- each handler that is called winds the server up further
  have hwinding : Winding after.length s₁.connections.length s₁.newOpen s :=
    run_invariant_guarded
      (I := fun es _ s => Winding es.length s₁.connections.length s₁.newOpen s)
      (G := Allowed) (winding_handleStop hbefore)
      (fun es _ _ _ _ _ hs hallowed hbody => by
        rw [List.length_append]
        exact (step_of_body hallowed hbody).winding hallowed hs) hguard hafter
  have hstopped := hwinding.consistent.stopped_of hwinding.acceptor
  refine ⟨?_, hwinding.connections, hwinding.consistent.stopped hwinding.acceptor, fun c hc => ?_,
    hwinding.new, hstopped.idle_iff hwinding.consistent.waits⟩
  · have := hwinding.pending
    omega
  · obtain ⟨i, hi⟩ := List.mem_iff_getElem?.mp hc
    exact hstopped.closed i c hi

/-- The two connections, a third that is accepted just before the signal, and what is called behind
it. -/
def stoppedBefore : List Event := twoConnections.take 6 ++ [.arrived]

def stoppedAfter : List Event :=
  [.read 0 (.ok "TP/1.0\r\n\r\n".toList), .accept (.ok ()), .write 0 .failed, .write 1 .aborted]

/-- A signal comes while two connections wait for data. -/
theorem shutdown_run_twoConnections :
    ∃ outs₁ outs, ∃ s₁ s : Server ℕ,
      run (body echo) (new 0) stoppedBefore = (outs₁, .next s₁) ∧
      run (body echo) (new 0) (stoppedBefore ++ .signal :: stoppedAfter) = (outs, .next s) ∧
      (4 ≤ 1 + 2 * s₁.connections.length ∧
        s.connections.length = s₁.connections.length ∧ s.managed = [] ∧
        (∀ c ∈ s.connections, c.isOpen = false) ∧ s.newOpen = s₁.newOpen ∧
        ((∀ e, ¬ s.Allowed e) ↔
          s.accepting = false ∧ ∀ c ∈ s.connections, c.begun = none)) :=
  have hallowed : AtEvery (body echo) (new 0) (stoppedBefore ++ .signal :: stoppedAfter) Allowed := by
    decide +kernel
  ⟨_, _, _, _, rfl, rfl, shutdown_run hallowed rfl rfl⟩

end Server

end Http

end Skweltch
