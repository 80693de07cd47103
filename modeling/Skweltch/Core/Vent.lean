import Skweltch.Lib.Callbacks
import Skweltch.Lib.FixedWidth
import Skweltch.Msg

/-!
# Skweltch — the vent

`Vent::process` and `Vent::sendOne` (`core/Vent.cpp`). A `VentEnv` is what the environment answers:
`shouldQuit`, asked once for each message, and the sockets. The acts of a vent are kept in order. A
worker's `sendAll` is a parameter of `process`; `sendNext` is the callback that the workers share.
-/

namespace Skweltch

open Callbacks FixedWidth

/-- What the environment answers, by the number of messages before. -/
structure VentEnv where
  /-- the answer of `shouldQuit` after a message -/
  quit : Nat → Bool
  /-- `send` throws for a message -/
  senderFails : Nat → Bool
  /-- `send` to the sink throws for the first and for the last message -/
  firstFails : Bool
  lastFails : Bool

def VentEnv.Works (env : VentEnv) : Prop :=
  (∀ i, env.senderFails i = false) ∧ env.firstFails = false ∧ env.lastFails = false

inductive VentAct (α : Type) where
  | sink (m : SinkMsg)
  | send (m : DataMsg α)
  | sleep (ms : Int)
deriving DecidableEq, Repr

/-- The vent's counter, how often `shouldQuit` has been asked, what the vent has done, and whether
it was killed by a division by zero. -/
structure VentState (α : Type) where
  count : Int
  asked : Nat
  acts : List (VentAct α)
  killed : Bool
deriving DecidableEq, Repr

namespace Vent

variable {α : Type}

def init : VentState α := { count := 0, asked := 0, acts := [], killed := false }

@[simp] theorem init_asked : (init : VentState α).asked = 0 := rfl

/-- `Vent::sendOne`. -/
def sendOne (env : VentEnv) (v : VentState α) (message : DataMsg α) (sleeptime sleepevery : Int) :
    VentState α × Bool :=
  -- a failed send is logged and the message is lost
  let acts := if env.senderFails v.asked then v.acts else v.acts ++ [.send message]
  if env.quit v.asked then ({ v with asked := v.asked + 1, acts := acts }, false)
  else
    let count := int32 (v.count + 1)
    let v' : VentState α := { v with count := count, asked := v.asked + 1, acts := acts }
    if sleeptime > 0 then
      if sleepevery = 0 then ({ v' with killed := true }, false)
      else if count.tmod sleepevery = 0 then ({ v' with acts := acts ++ [.sleep sleeptime] }, true)
      else (v', true)
    else (v', true)

/-- `Vent::process`, for a worker's `sendAll`: the value returned, or `none` if the vent is killed
on the way. -/
def process (env : VentEnv) (sendAll : VentState α → VentState α × Int) :
    VentState α × Option Bool :=
  if env.firstFails then (init, some false)
  else
    let r := sendAll { (init : VentState α) with acts := [.sink (.firstMsg 0)] }
    if r.1.killed then (r.1, none)
    else if env.lastFails then (r.1, some false)
    else ({ r.1 with acts := r.1.acts ++ [.sink (.lastMsg r.2)] }, some true)

/-- Send the next message: the callback of the workers, with their next id. -/
def sendNext (env : VentEnv) (sleeptime sleepevery : Int) : Handler (VentState α × Int) α :=
  fun w payload =>
    let r := sendOne env w.1 { id := w.2, payload := payload } sleeptime sleepevery
    ((r.1, int32 (w.2 + 1)), r.2)

/-! ## What a vent puts on its sockets

The acts of a vent seen from its two sockets: the ids of the data, and the messages to the sink. -/

def dataIds (acts : List (VentAct α)) : List Int :=
  acts.filterMap fun
    | .send m => some m.id
    | _ => none

def sinkMsgs (acts : List (VentAct α)) : List SinkMsg :=
  acts.filterMap fun
    | .sink m => some m
    | _ => none

@[simp] theorem dataIds_append (as bs : List (VentAct α)) :
    dataIds (as ++ bs) = dataIds as ++ dataIds bs := List.filterMap_append

@[simp] theorem sinkMsgs_append (as bs : List (VentAct α)) :
    sinkMsgs (as ++ bs) = sinkMsgs as ++ sinkMsgs bs := List.filterMap_append

@[simp] theorem dataIds_nil : dataIds ([] : List (VentAct α)) = [] := rfl

@[simp] theorem sinkMsgs_nil : sinkMsgs ([] : List (VentAct α)) = [] := rfl

@[simp] theorem dataIds_send (m : DataMsg α) (as : List (VentAct α)) :
    dataIds (.send m :: as) = m.id :: dataIds as := rfl

@[simp] theorem sinkMsgs_send (m : DataMsg α) (as : List (VentAct α)) :
    sinkMsgs (.send m :: as) = sinkMsgs as := rfl

@[simp] theorem dataIds_sink (m : SinkMsg) (as : List (VentAct α)) :
    dataIds (.sink m :: as) = dataIds as := rfl

@[simp] theorem sinkMsgs_sink (m : SinkMsg) (as : List (VentAct α)) :
    sinkMsgs (.sink m :: as) = m :: sinkMsgs as := rfl

@[simp] theorem dataIds_sleep (ms : Int) (as : List (VentAct α)) :
    dataIds (.sleep ms :: as) = dataIds as := rfl

@[simp] theorem sinkMsgs_sleep (ms : Int) (as : List (VentAct α)) :
    sinkMsgs (.sleep ms :: as) = sinkMsgs as := rfl

/-! ## One message

A message is sent and the vent asks whether to quit. If it is not to, it may pause, which it does
behind every `sleepevery` messages. -/

/-- A vent that would divide by zero: it is to sleep, every zero messages. -/
def Divides (sleeptime sleepevery : Int) : Prop := 0 < sleeptime ∧ sleepevery = 0

instance (sleeptime sleepevery : Int) : Decidable (Divides sleeptime sleepevery) := by
  unfold Divides; infer_instance

variable {env : VentEnv}

/-- **One message**: its id goes out, nothing goes to the sink, and the vent goes on unless it is
to quit or is killed. -/
theorem sendOne_spec (h : env.Works) (v : VentState α) (m : DataMsg α)
    (sleeptime sleepevery : Int) :
    let r := sendOne env v m sleeptime sleepevery
    dataIds r.1.acts = dataIds v.acts ++ [m.id] ∧ sinkMsgs r.1.acts = sinkMsgs v.acts ∧
      r.1.asked = v.asked + 1 ∧
      (r.2 = true ↔ env.quit v.asked = false ∧ ¬ Divides sleeptime sleepevery) ∧
      (r.1.killed = true ↔
        v.killed = true ∨ (env.quit v.asked = false ∧ Divides sleeptime sleepevery)) := by
  have hsent : env.senderFails v.asked = false := h.1 v.asked
  intro r
  simp only [r, sendOne, hsent, Bool.false_eq_true, if_false, Divides]
  cases hq : env.quit v.asked with
  | true => simp
  | false =>
    by_cases hs : sleeptime > 0
    · by_cases he : sleepevery = 0
      · simp [hs, he]
      · by_cases hz : (int32 (v.count + 1)).tmod sleepevery = 0
        · simp [hs, he, hz]
        · simp [hs, he, hz]
    · simp [hs]

/-! ## All messages

The messages of a batch, by induction on the items. How many go out is decided by the first question
that is answered with a yes. -/

/-- How many messages a vent sends that has `n` of them to send: up to the first one after which
it is to quit. -/
def reach (quit : Nat → Bool) : Nat → Nat → Nat
  | _, 0 => 0
  | i, n + 1 => if quit i then 1 else reach quit (i + 1) n + 1

/-- A batch stops at the first question that is answered with a yes, or when all are sent. -/
theorem reach_le_iff (quit : Nat → Bool) (i n b : Nat) :
    reach quit i n ≤ b ↔ n ≤ b ∨ ∃ j < b, quit (i + j) = true := by
  induction n generalizing i b with
  | zero => simp [reach]
  | succ n ih =>
    cases b with
    | zero =>
      rw [reach]
      split <;> simp
    | succ b =>
      rw [reach]
      cases hq : quit i with
      | true =>
        rw [if_pos rfl]
        exact ⟨fun _ => .inr ⟨0, by omega, hq⟩, fun _ => by omega⟩
      | false =>
        rw [if_neg (by decide), Nat.succ_le_succ_iff, ih, Nat.succ_le_succ_iff]
        -- the questions behind the next item are counted from there on
        refine or_congr_right ⟨?_, ?_⟩
        · rintro ⟨j, hj, h⟩
          exact ⟨j + 1, by omega, by rwa [show i + (j + 1) = i + 1 + j by omega]⟩
        · rintro ⟨j, hj, h⟩
          cases j with
          | zero =>
            rw [Nat.add_zero, hq] at h
            cases h
          | succ j => exact ⟨j, by omega, by rwa [show i + 1 + j = i + (j + 1) by omega]⟩

theorem reach_pos (quit : Nat → Bool) (i : Nat) {n : Nat} (hn : 0 < n) : 0 < reach quit i n := by
  cases n with
  | zero => omega
  | succ n =>
    rw [reach]
    split <;> omega

/-- The value of an `int id` that starts at zero after `k` increments. -/
@[irreducible] def idAt (k : Nat) : Int := int32 (k : Int)

theorem idAt_zero : idAt 0 = 0 := by
  unfold idAt
  exact int32_of_nonneg (by decide) (by decide)

theorem idAt_succ (k : Nat) : int32 (idAt k + 1) = idAt (k + 1) := by
  unfold idAt
  rw [int32_add_left, Nat.cast_succ]

theorem idAt_eq_iff (k : Nat) : idAt k = (k : Int) ↔ k ≤ 2147483647 := by
  unfold idAt
  rw [int32_eq_self_iff]
  unfold IsInt
  omega

/-- The ids of `m` messages in a row, the first of them the one after `k` increments. -/
def idsFrom (k m : Nat) : List Int := (List.range m).map fun i : Nat => idAt (k + i)

theorem idAt_comp_succ (k : Nat) :
    (fun i : Nat => idAt (k + i)) ∘ Nat.succ = fun i : Nat => idAt (k + 1 + i) := by
  funext i
  have h : k + Nat.succ i = k + 1 + i := by omega
  rw [Function.comp_apply, h]

theorem idsFrom_succ (k m : Nat) : idsFrom k (m + 1) = idAt k :: idsFrom (k + 1) m := by
  rw [idsFrom, idsFrom, List.range_succ_eq_map, List.map_cons, List.map_map, idAt_comp_succ,
    Nat.add_zero]

theorem idsFrom_zero (k : Nat) : idsFrom k 0 = [] := rfl

/-- What a vent has done that was handed items while its next id was `k`. -/
structure Sent (v v' : VentState α) (k m : Nat) : Prop where
  dataIds_eq : dataIds v'.acts = dataIds v.acts ++ idsFrom k m
  sinkMsgs_eq : sinkMsgs v'.acts = sinkMsgs v.acts

/-- A vent that does not divide by zero survives the message and goes on unless it is to quit. -/
theorem sendNext_alive (h : env.Works) {sleeptime sleepevery : Int} {v : VentState α} (id : Int)
    (p : α) (hdiv : Divides sleeptime sleepevery → env.quit v.asked = true)
    (hv : v.killed = false) :
    (sendNext env sleeptime sleepevery (v, id) p).1.1.killed = false ∧
      (sendNext env sleeptime sleepevery (v, id) p).2 = !env.quit v.asked := by
  obtain ⟨-, -, -, hgo, hkilled⟩ := sendOne_spec h v { id := id, payload := p } sleeptime sleepevery
  constructor
  -- only a division by 0 kills the vent
  · show (sendOne env v _ _ _).1.killed = false
    rw [Bool.eq_false_iff]
    intro hcontra
    rcases hkilled.mp hcontra with hk | ⟨hq, hd⟩
    · rw [hv] at hk
      cases hk
    · rw [hdiv hd] at hq
      cases hq
  · show (sendOne env v _ _ _).2 = _
    cases hq : env.quit v.asked with
    | true =>
      rw [Bool.not_true, Bool.eq_false_iff]
      intro hcontra
      have := (hgo.mp hcontra).1
      rw [hq] at this
      cases this
    | false =>
      apply hgo.mpr
      refine ⟨hq, fun hd => ?_⟩
      have := hdiv hd
      rw [hq] at this
      cases this

/-- No question is answered with a yes: neither the first nor one of the others. -/
theorem quit_succ_iff (quit : Nat → Bool) (i n : Nat) :
    (∀ j < n + 1, quit (i + j) = false) ↔
      quit i = false ∧ ∀ j < n, quit (i + 1 + j) = false := by
  constructor
  · intro hall
    refine ⟨hall 0 (by omega), fun j hj => ?_⟩
    rw [show i + 1 + j = i + (j + 1) by omega]
    exact hall (j + 1) (by omega)
  · intro hall j hj
    cases j with
    | zero => exact hall.1
    | succ j =>
      rw [show i + (j + 1) = i + 1 + j by omega]
      exact hall.2 j (by omega)

/-- **Sending items without dividing by zero**: the ids go up by one, up to the message after which
the vent is to quit. -/
theorem feed_sendNext (h : env.Works) {sleeptime sleepevery : Int} (items : List α)
    (v : VentState α) (k : Nat) (hdiv : Divides sleeptime sleepevery → env.quit v.asked = true)
    (hv : v.killed = false) :
    let r := feed (sendNext env sleeptime sleepevery) (v, idAt k) items
    let m := reach env.quit v.asked items.length
    Sent v r.1.1 k m ∧ r.1.1.killed = false ∧ r.1.2 = idAt (k + m) ∧
      (r.2 = true ↔ ∀ j < items.length, env.quit (v.asked + j) = false) := by
  induction items generalizing v k with
  | nil =>
    intro r m
    refine ⟨⟨?_, rfl⟩, hv, ?_, by simp [r]⟩
    · simp [r, m, idsFrom, reach]
    · simp [r, m, reach]
  | cons p ps ih =>
    intro r m
    obtain ⟨hids, hsink, hasked, -, -⟩ :=
      sendOne_spec h v { id := idAt k, payload := p } sleeptime sleepevery
    obtain ⟨hlive, hgo⟩ := sendNext_alive h (idAt k) p hdiv hv
    rw [List.length_cons, quit_succ_iff]
    cases hq : env.quit v.asked with
    -- the question behind this message stops the vent: it was the last one
    | true =>
      rw [hq] at hgo
      have hr : r = ((sendNext env sleeptime sleepevery (v, idAt k) p).1, false) :=
        feed_cons_false hgo ps
      have hm : m = 1 := by simp [m, reach, hq]
      rw [hr, hm]
      refine ⟨⟨?_, hsink⟩, hlive, idAt_succ k, by simp⟩
      rw [idsFrom_succ, idsFrom_zero]
      exact hids
    | false =>
      rw [hq] at hgo
      -- a vent that goes on has not divided by 0
      have hdiv : ¬ Divides sleeptime sleepevery := by
        intro hd
        have := hdiv hd
        rw [hq] at this
        cases this
      have hr : r = feed (sendNext env sleeptime sleepevery)
          ((sendOne env v { id := idAt k, payload := p } sleeptime sleepevery).1,
            idAt (k + 1)) ps := by
        refine (feed_cons_true hgo ps).trans ?_
        congr 1
        exact congrArg _ (idAt_succ k)
      have hm : m = reach env.quit (v.asked + 1) ps.length + 1 := by
        simp [m, reach, hq]
      -- the others are sent with the next id, one question further
      obtain ⟨⟨ihids, ihsink⟩, ihkilled, ihid, ihgo⟩ :=
        ih (sendOne env v { id := idAt k, payload := p } sleeptime sleepevery).1 (k + 1)
          (fun hd => absurd hd hdiv) hlive
      rw [hasked] at ihids ihid ihgo
      rw [hr, hm]
      refine ⟨⟨?_, ihsink.trans hsink⟩, ihkilled, ?_, ?_⟩
      · rw [ihids, hids, idsFrom_succ, List.append_assoc]
        rfl
      · rw [ihid]
        congr 1
        omega
      · rw [ihgo]
        simp

/-- Sending the items sends nothing to the sink. -/
theorem feed_sendNext_sinkMsgs (h : env.Works) (sleeptime sleepevery : Int) (items : List α)
    (v : VentState α) (id : Int) :
    sinkMsgs (feed (sendNext env sleeptime sleepevery) (v, id) items).1.1.acts =
      sinkMsgs v.acts := by
  induction items generalizing v id with
  | nil => rfl
  | cons p ps ih =>
    have hsink := (sendOne_spec h v { id := id, payload := p } sleeptime sleepevery).2.1
    cases hs : (sendNext env sleeptime sleepevery (v, id) p).2 with
    | true =>
      rw [feed_cons_true hs]
      exact (ih _ _).trans hsink
    | false =>
      rw [feed_cons_false hs]
      exact hsink

/-- A vent that divides by zero gets no further than its first message. -/
theorem feed_sendNext_killed (h : env.Works) {sleeptime sleepevery : Int}
    (hdiv : Divides sleeptime sleepevery) {items : List α} (hne : items ≠ []) (v : VentState α)
    (id : Int) (hq : env.quit v.asked = false) :
    (feed (sendNext env sleeptime sleepevery) (v, id) items).1.1.killed = true := by
  cases items with
  | nil => exact absurd rfl hne
  | cons p ps =>
    obtain ⟨-, -, -, hgo, hkilled⟩ :=
      sendOne_spec h v { id := id, payload := p } sleeptime sleepevery
    have hstop : (sendNext env sleeptime sleepevery (v, id) p).2 = false := by
      rw [Bool.eq_false_iff]
      intro hcontra
      exact (hgo.mp hcontra).2 hdiv
    rw [feed_cons_false hstop]
    exact hkilled.mpr (.inr ⟨hq, hdiv⟩)

end Vent

end Skweltch
