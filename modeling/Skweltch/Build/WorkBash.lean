import Skweltch.Build.MakeAnalyser
import Skweltch.Core.SinkWorker
import Skweltch.Core.Work
import Skweltch.Lib.Positions

/-!
# Skweltch — the build worker

`WWorker` of `build/workbash.cpp` waits until no message has come for a while and then builds once.
It keeps the id of one message, so that every message is answered exactly if none comes directly
behind another (`answered_iff`).
-/

namespace Skweltch

open EventLoop Positions

/-- What comes in and what the worker does. -/
inductive BashAct where
  | received (id : Int)
  /-- the command is run until it ends, and its log is read -/
  | built
  | replied (m : DataMsg Str)
deriving DecidableEq, Repr

/-- What the environment answers, by the number of builds before. -/
structure BashEnv where
  /-- the lines of the log file after a build -/
  log : Nat → List Str
  /-- `send` throws -/
  senderFails : Nat → Bool

structure BashState where
  msgid : Int
  builds : Nat
deriving DecidableEq, Repr

namespace WorkBash

def init : BashState := { msgid := -1, builds := 0 }

def reply (log : List Str) : Str :=
  let stat := MakeAnalyser.analyse log
  if stat.workDone && stat.success then "success".toList else "failed".toList

variable (env : BashEnv)

/-- `WWorker::processMsg` and `WWorker::timeout`. -/
def handle (s : BashState) : WorkCall (DataMsg Str) → Except Fault (BashState × List BashAct)
  | .processMsg recv =>
    match recv.unpack with
    | none => .error (.threw "unpack")
    | some m => .ok ({ s with msgid := m.id }, [.received m.id])
  | .timeout =>
    if s.msgid ≥ 0 then
      let sent : List BashAct :=
        -- a failed send is logged
        if env.senderFails s.builds then []
        else [.replied { id := s.msgid, payload := reply (env.log s.builds) }]
      .ok ({ msgid := -1, builds := s.builds + 1 }, .built :: sent)
    else .ok (s, [])

def handleAll : BashState → List (WorkCall (DataMsg Str)) → Except Fault (BashState × List BashAct)
  | s, [] => .ok (s, [])
  | s, c :: cs => do
    let (s', acts) ← handle env s c
    let (s'', rest) ← handleAll s' cs
    .ok (s'', acts ++ rest)

/-- `Work::process` with this worker: what has happened, in order. -/
def process (es : List (WorkEvent (DataMsg Str))) : Except Fault (BashState × List BashAct) :=
  handleAll env init (calls Work.body () es)

/-- A message, or a poll that times out. -/
def event : Option (DataMsg Str) → WorkEvent (DataMsg Str)
  | some m => Work.deliver m
  | none => .polled .none false false

def isReceived : BashAct → Bool
  | .received _ => true
  | _ => false

def isReply : BashAct → Bool
  | .replied _ => true
  | _ => false

/-- The messages that came in are paired off with the replies. A reply has the id of its message,
and there was a build in between. -/
def Answered (h : List BashAct) : Prop :=
  ∃ f : Nat → Nat, Set.BijOn f (positions isReceived h) (positions isReply h) ∧
    ∀ i id, h[i]? = some (.received id) →
      (∃ m, h[f i]? = some (.replied m) ∧ m.id = id) ∧
        ∃ k, i < k ∧ k < f i ∧ h[k]? = some .built

/-- No message comes directly behind another. -/
def Apart (arrivals : List (Option (DataMsg Str))) : Prop :=
  arrivals.IsChain fun a b => a = none ∨ b = none

instance (arrivals : List (Option (DataMsg Str))) : Decidable (Apart arrivals) := by
  unfold Apart
  infer_instance

/-! ## Runs

What the worker does is said turn by turn. A run of the loop makes one call for every arrival, and a
call is a turn. -/

/-- One arrival. -/
def turn (s : BashState) : Option (DataMsg Str) → BashState × List BashAct
  | some m => ({ s with msgid := m.id }, [.received m.id])
  | none =>
    if s.msgid ≥ 0 then
      ({ msgid := -1, builds := s.builds + 1 },
        [.built, .replied { id := s.msgid, payload := reply (env.log s.builds) }])
    else (s, [])

def acts : BashState → List (Option (DataMsg Str)) → List BashAct
  | _, [] => []
  | s, a :: as => (turn env s a).2 ++ acts (turn env s a).1 as

def callOf : Option (DataMsg Str) → WorkCall (DataMsg Str)
  | some m => .processMsg (.ok m)
  | none => .timeout

/-- The loop of `Work` calls the worker once for every arrival. -/
theorem calls_events (arrivals : List (Option (DataMsg Str))) :
    calls Work.body () (arrivals.map event) = arrivals.map callOf := by
  induction arrivals with
  | nil => rfl
  | cons a arrivals ih =>
    have hbody : Work.body () (event a) = ([callOf a], .next ()) := by
      cases a <;> rfl
    rw [List.map_cons, calls_cons_next hbody, ih]
    rfl

variable {env}

/-- One call, while the socket to the sink works: what the worker does is its turn. -/
theorem handle_callOf (hsend : ∀ n, env.senderFails n = false) (s : BashState)
    (a : Option (DataMsg Str)) : handle env s (callOf a) = .ok (turn env s a) := by
  cases a with
  | some m => rfl
  | none =>
    rw [callOf, handle, turn, hsend]
    split
    · rfl
    · rfl

/-- The calls of a run, by induction on the arrivals. -/
theorem handleAll_arrivals (hsend : ∀ n, env.senderFails n = false)
    (arrivals : List (Option (DataMsg Str))) (s : BashState) :
    ∃ s', handleAll env s (arrivals.map callOf) = .ok (s', acts env s arrivals) := by
  induction arrivals generalizing s with
  | nil => exact ⟨s, rfl⟩
  | cons a arrivals ih =>
    obtain ⟨s', hrest⟩ := ih (turn env s a).1
    refine ⟨s', ?_⟩
    rw [List.map_cons, handleAll, handle_callOf hsend]
    simp only [bind, Except.bind, hrest]
    rfl

theorem process_events (hsend : ∀ n, env.senderFails n = false)
    (arrivals : List (Option (DataMsg Str))) :
    ∃ s, process env (arrivals.map event) = .ok (s, acts env init arrivals) := by
  rw [process, calls_events]
  exact handleAll_arrivals hsend arrivals init

/-! ## Counting

A message that comes before the last one is answered overwrites it. How many do is how many replies
are missing. -/

/-- The messages that come while another one waits. -/
def overtaking : Bool → List (Option (DataMsg Str)) → Nat
  | _, [] => 0
  | pending, some _ :: as => (if pending then 1 else 0) + overtaking true as
  | _, none :: as => overtaking false as

/-- Every message that arrives is received. -/
theorem countP_received (arrivals : List (Option (DataMsg Str))) (s : BashState) :
    (acts env s arrivals).countP isReceived = arrivals.countP Option.isSome := by
  induction arrivals generalizing s with
  | nil => rfl
  | cons a arrivals ih =>
    rw [acts, List.countP_append, ih, List.countP_cons, Nat.add_comm]
    congr 1
    cases a with
    | some m => rfl
    | none =>
      rw [turn]
      split
      · rfl
      · rfl

/-- One reply for every message but those that are overtaken. -/
theorem countP_reply {arrivals : List (Option (DataMsg Str))}
    (hids : ∀ m, some m ∈ arrivals → 0 ≤ m.id) (s : BashState) :
    (acts env s (arrivals ++ [none])).countP isReply + overtaking (decide (0 ≤ s.msgid)) arrivals =
      arrivals.countP Option.isSome + if 0 ≤ s.msgid then 1 else 0 := by
  induction arrivals generalizing s with
  | nil =>
    rw [List.nil_append, acts, acts, turn, overtaking]
    -- a pause answers what is waited with
    by_cases hs : 0 ≤ s.msgid
    · simp [hs, isReply]
    · simp [hs]
  | cons a arrivals ih =>
    have hrest := ih (fun m hm => hids m (List.mem_cons_of_mem _ hm)) (turn env s a).1
    rw [List.cons_append, acts, List.countP_append, List.countP_cons]
    cases a with
    -- a message is waited with, and overtakes one that is
    | some m =>
      have hm : 0 ≤ m.id := hids m List.mem_cons_self
      simp only [turn, hm, decide_true, if_true] at hrest
      simp only [turn, List.countP_cons, List.countP_nil, isReply, overtaking, Option.isSome_some,
        decide_eq_true_eq, Bool.false_eq_true, if_true, if_false]
      omega
    | none =>
      by_cases hs : 0 ≤ s.msgid
      · simp only [turn, ge_iff_le, if_pos hs] at hrest ⊢
        simp only [show ¬ (0 : Int) ≤ -1 by decide, decide_false, if_false] at hrest
        simp only [List.countP_cons, List.countP_nil, isReply, overtaking, Option.isSome_none,
          Bool.false_eq_true, if_true, if_false]
        omega
      · have hfalse : decide (0 ≤ s.msgid) = false := decide_eq_false hs
        simp only [turn, ge_iff_le, if_neg hs, hfalse] at hrest ⊢
        simp only [List.countP_nil, overtaking, Option.isSome_none, Bool.false_eq_true, if_false]
        omega

/-- No message overtakes another if no two come without a pause between them. -/
theorem overtaking_eq_zero_iff (pending : Bool) (arrivals : List (Option (DataMsg Str))) :
    overtaking pending arrivals = 0 ↔
      Apart arrivals ∧ (pending = true → ∀ m, arrivals.head? ≠ some (some m)) := by
  induction arrivals generalizing pending with
  | nil => simp [overtaking, Apart]
  | cons a arrivals ih =>
    rw [Apart, List.isChain_cons, ← Apart]
    cases a with
    | some m =>
      rw [overtaking, Nat.add_eq_zero_iff, ih]
      cases pending with
      | true => simp
      | false =>
        simp only [Bool.false_eq_true, if_false, reduceCtorEq, false_or, true_and, false_implies,
          and_true, true_implies]
        rw [and_comm]
        refine and_congr_left fun _ => ?_
        constructor
        · intro h b hb
          cases b with
          | none => rfl
          | some m' => exact absurd hb (h m')
        · intro h m' hm'
          cases h _ hm'
    | none =>
      rw [overtaking, ih]
      simp

/-! ## Prompt replies

When a pause comes behind each message, it is built and answered in that pause. -/

/-- Every message is built for and answered at once, and nothing else is answered. -/
structure Prompt (h : List BashAct) : Prop where
  asked : ∀ i id, h[i]? = some (.received id) →
    h[i + 1]? = some .built ∧ ∃ m, h[i + 2]? = some (.replied m) ∧ m.id = id
  replied : ∀ j m, h[j]? = some (.replied m) → ∃ i id, j = i + 2 ∧ h[i]? = some (.received id)

theorem prompt_nil : Prompt [] := ⟨fun i id h => by simp at h, fun j m h => by simp at h⟩

/-- A message that is built and replied to at once. -/
theorem Prompt.cons {h : List BashAct} (hh : Prompt h) (m : DataMsg Str) :
    Prompt (.received m.id :: .built :: .replied m :: h) := by
  constructor
  · intro i id hi
    match i with
    | 0 =>
      obtain rfl : m.id = id := by simpa using hi
      exact ⟨rfl, m, rfl, rfl⟩
    | 1 => simp at hi
    | 2 => simp at hi
    | i + 3 => exact hh.asked i id hi
  · intro j m' hj
    match j with
    | 0 => simp at hj
    | 1 => simp at hj
    | 2 => exact ⟨0, m.id, rfl, rfl⟩
    | j + 3 =>
      obtain ⟨i, id, hji, hi⟩ := hh.replied j m' hj
      exact ⟨i + 3, id, by omega, hi⟩

/-- Where every reply is prompt, every message has one. -/
theorem Prompt.answered {h : List BashAct} (hh : Prompt h) : Answered h := by
  refine ⟨(· + 2), ⟨?_, fun i _ j _ hij => Nat.add_right_cancel hij, ?_⟩, fun i id hi => ?_⟩
  · rintro i ⟨a, ha, hreceived⟩
    cases a with
    | received id =>
      obtain ⟨-, m, hm, -⟩ := hh.asked i id ha
      exact ⟨_, hm, rfl⟩
    | _ => cases hreceived
  · rintro j ⟨a, ha, hreply⟩
    cases a with
    | replied m =>
      obtain ⟨i, id, rfl, hi⟩ := hh.replied j m ha
      exact ⟨i, ⟨_, hi, rfl⟩, rfl⟩
    | _ => cases hreply
  · obtain ⟨hbuilt, hm⟩ := hh.asked i id hi
    exact ⟨hm, i + 1, by simp, by simp, hbuilt⟩

/-- What a run preserves when messages come apart: all replies are prompt. -/
theorem prompt_acts {arrivals : List (Option (DataMsg Str))}
    (hids : ∀ m, some m ∈ arrivals → 0 ≤ m.id) (hapart : Apart arrivals) {s : BashState}
    (hs : s.msgid < 0) : Prompt (acts env s (arrivals ++ [none])) := by
  match arrivals with
  | [] =>
    rw [List.nil_append, acts, acts, turn, if_neg (not_le.mpr hs)]
    exact prompt_nil
  | none :: arrivals =>
    rw [List.cons_append, acts, turn, if_neg (not_le.mpr hs)]
    exact prompt_acts (fun m hm => hids m (List.mem_cons_of_mem _ hm)) hapart.tail hs
  | some m :: arrivals =>
    have hm : m.id ≥ 0 := hids m List.mem_cons_self
    -- the next arrival is a poll that times out, if only the last one
    have hbuild : ∀ rest, acts env s (some m :: none :: rest) =
        .received m.id :: .built ::
          .replied { id := m.id, payload := reply (env.log s.builds) } ::
            acts env { msgid := -1, builds := s.builds + 1 } rest := by
      intro rest
      have hturn : turn env { s with msgid := m.id } none =
          ({ msgid := -1, builds := s.builds + 1 },
            [.built, .replied { id := m.id, payload := reply (env.log s.builds) }]) := if_pos hm
      rw [acts, turn, acts, hturn]
      rfl
    match arrivals with
    | [] =>
      rw [List.singleton_append, hbuild]
      exact prompt_nil.cons { id := m.id, payload := reply (env.log s.builds) }
    | some m' :: arrivals =>
      rw [Apart, List.isChain_cons_cons] at hapart
      rcases hapart.1 with h | h
      · cases h
      · cases h
    | none :: arrivals =>
      rw [List.cons_append, List.cons_append, hbuild]
      have hrest : Prompt (acts env { msgid := -1, builds := s.builds + 1 } (arrivals ++ [none])) :=
        prompt_acts
          (fun m hm => hids m (List.mem_cons_of_mem _ (List.mem_cons_of_mem _ hm)))
          hapart.tail.tail (show (-1 : Int) < 0 by decide)
      exact hrest.cons { id := m.id, payload := reply (env.log s.builds) }

/-- **When every request is answered.** In every run that ends with a poll that times out and in
which nothing fails to be sent, the messages are answered exactly if none comes directly behind
another. -/
theorem answered_iff (hsend : ∀ n, env.senderFails n = false)
    (arrivals : List (Option (DataMsg Str))) (hids : ∀ m, some m ∈ arrivals → 0 ≤ m.id) :
    ∃ s h, process env ((arrivals ++ [none]).map event) = .ok (s, h) ∧
      (Answered h ↔ Apart arrivals) := by
  obtain ⟨s, hs⟩ := process_events hsend (arrivals ++ [none])
  refine ⟨s, _, hs, fun hanswered => ?_, fun hapart => ?_⟩
  · obtain ⟨f, hf, -⟩ := hanswered
    have hcount := countP_eq_of_bijOn hf
    have hreplies := @countP_reply env arrivals hids init
    rw [countP_received, List.countP_append] at hcount
    simp only [init, show ¬ (0 : Int) ≤ -1 by decide, decide_false, if_false] at hreplies hcount
    have hnone : overtaking false arrivals = 0 := by
      simp only [List.countP_cons, List.countP_nil, Option.isSome_none] at hcount
      simp at hcount
      omega
    exact ((overtaking_eq_zero_iff false arrivals).mp hnone).1
  · exact (prompt_acts hids hapart (by decide)).answered

/-- Builds that leave an empty log. -/
def emptyEnv : BashEnv := { log := fun _ => [], senderFails := fun _ => false }

/-- A message with an id. -/
def request (id : Int) : Option (DataMsg Str) := some { id := id, payload := [] }

/-- Two messages with a pause between them. -/
theorem answered_two_apart :
    ∃ s h, process emptyEnv (([request 0, none, request 1] ++ [none]).map event) = .ok (s, h) ∧
      (Answered h ↔ Apart [request 0, none, request 1]) :=
  answered_iff (fun _ => rfl) [request 0, none, request 1] (by
    intro m hm
    simp only [request, List.mem_cons, Option.some.injEq, reduceCtorEq, List.not_mem_nil,
      false_or, or_false] at hm
    rcases hm with rfl | rfl
    · decide
    · decide)

/-- Two messages, then a poll that times out: one build, and the first message has no reply. -/
theorem second_overtakes_first :
    ∃ s h, process emptyEnv (([request 0, request 1] ++ [none]).map event) = .ok (s, h) ∧
      h = [.received 0, .received 1, .built, .replied ⟨1, "failed".toList⟩] ∧ ¬ Answered h := by
  refine ⟨{ msgid := -1, builds := 1 }, _, by rfl, rfl, ?_⟩
  rintro ⟨f, hf, -⟩
  have := countP_eq_of_bijOn hf
  revert this
  decide

end WorkBash

end Skweltch
