import Skweltch.Core.BatchReport
import Skweltch.Vent.WordTokens

/-!
# Skweltch — the items a vent sends

The payloads on a vent's sender socket: what its `sendAll` has to offer, in order, up to the message
after which it is told to quit. A vent that tells the truth about its last message sends a batch.
-/

namespace Skweltch

open Callbacks FixedWidth

section Payloads

variable {α : Type}

def payloads (acts : List (VentAct α)) : List α := (dataMsgs acts).map DataMsg.payload

@[simp] theorem payloads_append (as bs : List (VentAct α)) :
    payloads (as ++ bs) = payloads as ++ payloads bs := by
  simp [payloads, dataMsgs]

@[simp] theorem payloads_nil : payloads ([] : List (VentAct α)) = [] := rfl

@[simp] theorem payloads_send (m : DataMsg α) (as : List (VentAct α)) :
    payloads (.send m :: as) = m.payload :: payloads as := rfl

@[simp] theorem payloads_sink (m : SinkMsg) (as : List (VentAct α)) :
    payloads (.sink m :: as) = payloads as := rfl

@[simp] theorem payloads_sleep (ms : Int) (as : List (VentAct α)) :
    payloads (.sleep ms :: as) = payloads as := rfl

/-- The messages of several runs, those of each run in any order, carry its items. -/
theorem payloads_perm {β : Type} {acts : β → List (VentAct α)} {items : β → List α} {xs : List β}
    (h : ∀ x ∈ xs, payloads (acts x) = items x) {mss : List (List (DataMsg α))}
    (hmss : List.Forall₂ (fun ms acts => ms.Perm (dataMsgs acts)) mss (xs.map acts)) :
    List.Forall₂ (fun ms x => (ms.map DataMsg.payload).Perm (items x)) mss xs := by
  induction xs generalizing mss with
  | nil =>
    cases hmss
    exact .nil
  | cons x xs ih =>
    obtain ⟨hx, hxs⟩ := List.forall_mem_cons.mp h
    rw [List.map_cons] at hmss
    cases hmss with
    | cons hms hrest =>
      refine .cons ?_ (ih hxs hrest)
      exact hx ▸ hms.map DataMsg.payload

end Payloads

namespace Vent

variable {α : Type} {env : VentEnv}

/-- Sending a message adds its payload, whether the vent pauses or not. -/
theorem payloads_sendOne (h : env.Works) (v : VentState α) (m : DataMsg α)
    (sleeptime sleepevery : Int) :
    payloads (sendOne env v m sleeptime sleepevery).1.acts = payloads v.acts ++ [m.payload] := by
  have hsent : env.senderFails v.asked = false := h.1 v.asked
  simp only [sendOne, hsent, Bool.false_eq_true, if_false]
  split
  · simp
  · split
    · split
      · simp
      · split
        · simp
        · simp
    · simp

/-- The items up to the message after which the vent is to quit. -/
theorem payloads_feed (h : env.Works) {sleeptime sleepevery : Int} (items : List α)
    (v : VentState α) (id : Int) (hdiv : Divides sleeptime sleepevery → env.quit v.asked = true)
    (hv : v.killed = false) :
    payloads (feed (sendNext env sleeptime sleepevery) (v, id) items).1.1.acts =
      payloads v.acts ++ items.take (reach env.quit v.asked items.length) := by
  induction items generalizing v id with
  | nil => simp
  | cons p ps ih =>
    have hpayload := payloads_sendOne h v { id := id, payload := p } sleeptime sleepevery
    have hasked := (sendOne_spec h v { id := id, payload := p } sleeptime sleepevery).2.2.1
    obtain ⟨hlive, hgo⟩ := sendNext_alive h id p hdiv hv
    rw [List.length_cons, reach]
    cases hq : env.quit v.asked with
    -- the question behind this item stops the vent
    | true =>
      rw [hq] at hgo
      rw [feed_cons_false hgo, if_pos rfl, List.take_succ_cons, List.take_zero]
      exact hpayload
    | false =>
      rw [hq] at hgo
      have hdiv' : ¬ Divides sleeptime sleepevery := by
        intro hd
        have := hdiv hd
        rw [hq] at this
        cases this
      rw [feed_cons_true hgo, if_neg (by decide), List.take_succ_cons]
      have hrest := ih (sendOne env v { id := id, payload := p } sleeptime sleepevery).1
        (int32 (id + 1)) (fun hd => absurd hd hdiv') hlive
      rw [hpayload, hasked, List.append_assoc] at hrest
      exact hrest

/-- `Vent::process` itself sends no items. -/
theorem payloads_process (h : env.Works) {sendAll : VentState α → VentState α × Int}
    (hlive : (sendAll begun).1.killed = false) :
    payloads (process env sendAll).1.acts = payloads (sendAll begun).1.acts := by
  simp only [process, h.2.1, h.2.2, hlive, Bool.false_eq_true, if_false, payloads_append,
    payloads_sink, payloads_nil, List.append_nil]

theorem payloads_begun (h : env.Works) {sleeptime sleepevery : Int} (items : List α)
    (hdiv : Divides sleeptime sleepevery → env.quit 0 = true) :
    payloads (feed (sendNext env sleeptime sleepevery) (begun, 0) items).1.1.acts =
      items.take (reach env.quit 0 items.length) :=
  payloads_feed h items begun 0 hdiv rfl

/-- Without being stopped, all of them. -/
theorem take_reach {items : List α} (h : Uninterrupted env items.length) :
    items.take (reach env.quit 0 items.length) = items := by
  apply List.take_of_length_le
  by_contra hlt
  have hle : reach env.quit 0 items.length ≤ items.length - 1 := by omega
  rcases (reach_le_iff env.quit 0 items.length _).mp hle with hn | ⟨j, hj, hquit⟩
  · omega
  · rw [Nat.zero_add, h j (by omega)] at hquit
    cases hquit

/-! ## The first message goes out first

Whatever a vent sends, it tells the sink the first id before it sends any data. What arrives first
is another matter, as the two go along different ways. -/

/-- Sending a message only adds to what was sent. -/
theorem acts_sendOne (env : VentEnv) (v : VentState α) (m : DataMsg α)
    (sleeptime sleepevery : Int) :
    v.acts <+: (sendOne env v m sleeptime sleepevery).1.acts := by
  have hsend : v.acts <+: (if env.senderFails v.asked then v.acts else v.acts ++ [.send m]) := by
    split
    · exact List.prefix_rfl
    · exact List.prefix_append ..
  simp only [sendOne]
  split
  · exact hsend
  · split
    · split
      · exact hsend
      · split
        · exact hsend.trans (List.prefix_append ..)
        · exact hsend
    · exact hsend

/-- Any number of messages only add to what was sent. -/
theorem acts_feed (env : VentEnv) (sleeptime sleepevery : Int) (items : List α)
    (v : VentState α) (id : Int) :
    v.acts <+: (feed (sendNext env sleeptime sleepevery) (v, id) items).1.1.acts := by
  induction items generalizing v id with
  | nil => exact List.prefix_rfl
  | cons p ps ih =>
    have hone := acts_sendOne env v { id := id, payload := p } sleeptime sleepevery
    cases hs : (sendNext env sleeptime sleepevery (v, id) p).2 with
    | true =>
      rw [feed_cons_true hs]
      exact hone.trans (ih _ _)
    | false =>
      rw [feed_cons_false hs]
      exact hone

/-- Whatever a vent sends, the message that says First goes out before. -/
theorem exists_acts_process (h : env.Works) {sendAll : VentState α → VentState α × Int}
    (hsends : (begun : VentState α).acts <+: (sendAll begun).1.acts) :
    ∃ acts, (process env sendAll).1.acts = .sink (.firstMsg 0) :: acts := by
  obtain ⟨acts, hacts⟩ := hsends
  simp only [process, h.2.1, h.2.2, Bool.false_eq_true, if_false]
  split
  · exact ⟨acts, hacts.symm⟩
  · refine ⟨acts ++ [.sink (.lastMsg (sendAll begun).2)], ?_⟩
    show (sendAll begun).1.acts ++ _ = _
    rw [← hacts]
    rfl

end Vent

open Vent

/-- A vent that tells the truth sends a batch, as far as an `int` counts its messages. -/
theorem sendsBatch_of_truthful {α : Type} {acts : List (VentAct α)} (h : Truthful acts)
    (hfit : (payloads acts).length ≤ 2147483648) :
    ∃ k, SendsBatch acts k := by
  obtain ⟨k, hids, htold⟩ := h
  have hlen := congrArg List.length hids
  rw [dataIds_eq_map, List.length_map, List.length_map, List.length_range] at hlen
  rw [payloads, List.length_map, hlen] at hfit
  exact ⟨k, hids, htold, by omega⟩

namespace VentWords

/-- The words of the text, up to where the vent is stopped. -/
theorem payloads_run {env : VentEnv} (h : env.Works) (input : Str) :
    payloads (run env input).1.acts =
      (WordSplitter.words input).take (reach env.quit 0 (WordSplitter.words input).length) := by
  have hdiv : Divides 0 0 → env.quit 0 = true := fun hd => absurd hd (by decide)
  have hlive := (feed_begun h (WordSplitter.words input) hdiv).2.1
  rw [run, payloads_process h hlive]
  exact payloads_begun h _ hdiv

theorem exists_acts {env : VentEnv} (h : env.Works) (input : Str) :
    ∃ acts, (run env input).1.acts = .sink (.firstMsg 0) :: acts :=
  exists_acts_process h (acts_feed env 0 0 (WordSplitter.words input) begun 0)

theorem sendsBatch {env : VentEnv} (h : env.Works) {input : Str}
    (hrange : InRange env (WordSplitter.words input).length) :
    ∃ k, SendsBatch (run env input).1.acts k := by
  apply sendsBatch_of_truthful ((truthful_words_iff h input).mpr hrange)
  rw [payloads_run h, List.length_take]
  exact (min_le_left _ _).trans ((inRange_iff env _).mpr hrange)

/-- Runs over whole texts: the words of each text. -/
theorem payloads_texts {env : VentEnv} (h : env.Works) {texts : List Str}
    (hall : ∀ text ∈ texts, Uninterrupted env (WordSplitter.words text).length) :
    ∀ text ∈ texts, payloads (run env text).1.acts = WordSplitter.words text := by
  intro text htext
  rw [payloads_run h, take_reach (hall text htext)]

theorem sendsBatch_texts {env : VentEnv} (h : env.Works) {texts : List Str}
    (hsize : ∀ text ∈ texts, text.length ≤ 2147483647) :
    ∀ acts ∈ texts.map fun text => (run env text).1.acts, ∃ k, SendsBatch acts k := by
  intro acts hacts
  obtain ⟨text, htext, rfl⟩ := List.mem_map.mp hacts
  have hlen := WordSplitter.length_words_le text
  have hbound := hsize text htext
  exact sendsBatch h (.inl (by omega))

/-- There are runs in which the batches are delivered round by round. -/
theorem exists_rounds {ι : Type} [Nonempty ι] {env : VentEnv} (h : env.Works)
    (job : DataMsg Str → List Str) {texts : List Str}
    (hsize : ∀ text ∈ texts, text.length ≤ 2147483647) :
    ∃ n : Net ι Str, Rounds job (texts.map fun text => (run env text).1.acts) n := by
  apply Skweltch.exists_rounds job (sendsBatch_texts h hsize)
  intro acts hacts
  obtain ⟨text, -, rfl⟩ := List.mem_map.mp hacts
  exact exists_acts h text

end VentWords

namespace VentXml

/-- The chunks of the document, up to where the vent is stopped. -/
theorem payloads_run {env : VentEnv} (h : env.Works) {sleeptime sleepevery : Int} (xpath input : Str)
    (hdiv : ¬ Divides sleeptime sleepevery) :
    payloads (run env sleeptime sleepevery xpath input).1.acts =
      (XPathSplitter.chunks xpath input).take
        (reach env.quit 0 (XPathSplitter.chunks xpath input).length) := by
  have hdiv' : Divides sleeptime sleepevery → env.quit 0 = true := fun hd => absurd hd hdiv
  have hsend : (sendAll env sleeptime sleepevery xpath input begun).1 =
      (feed (sendNext env sleeptime sleepevery) (begun, 0) (XPathSplitter.chunks xpath input)).1.1 := by
    simp only [sendAll, XPathSplitter.process_eq_feed]
    split <;> rfl
  have hlive := (feed_begun h (XPathSplitter.chunks xpath input) hdiv').2.1
  rw [← hsend] at hlive
  rw [run, payloads_process h hlive, hsend]
  exact payloads_begun h _ hdiv'

/-- The message that says First goes out first. -/
theorem exists_acts {env : VentEnv} (h : env.Works) (sleeptime sleepevery : Int)
    (xpath input : Str) :
    ∃ acts, (run env sleeptime sleepevery xpath input).1.acts = .sink (.firstMsg 0) :: acts := by
  apply exists_acts_process h
  have hfeed := acts_feed env sleeptime sleepevery (XPathSplitter.chunks xpath input) begun 0
  simp only [sendAll, XPathSplitter.process_eq_feed]
  split
  · exact hfeed
  · exact hfeed

/-- A document that is read to its end, has something to send and is sent as a whole. -/
structure Sends (env : VentEnv) (xpath input : Str) : Prop where
  accepts : XmlParser.accepts input = true
  nonempty : XPathSplitter.chunks xpath input ≠ []
  all : Uninterrupted env (XPathSplitter.chunks xpath input).length
  few : (XPathSplitter.chunks xpath input).length ≤ 2147483648

/-- A vent that sends all of its chunks sends a batch. -/
theorem sendsBatch {env : VentEnv} (h : env.Works) {sleeptime sleepevery : Int} {xpath input : Str}
    (hdiv : ¬ Divides sleeptime sleepevery) (hsends : Sends env xpath input) :
    ∃ k, SendsBatch (run env sleeptime sleepevery xpath input).1.acts k := by
  apply sendsBatch_of_truthful
  · rw [truthful_xml_iff h sleeptime sleepevery hsends.nonempty]
    exact ⟨fun hd => absurd hd hdiv, .inl hsends.few, .inl ⟨hsends.all, hsends.accepts⟩⟩
  · rw [payloads_run h xpath input hdiv, take_reach hsends.all]
    exact hsends.few

end VentXml

end Skweltch
