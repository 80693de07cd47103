import Skweltch.Core.Vent
import Skweltch.Vent.WordSplitter
import Skweltch.Vent.XPathSplitter

/-!
# Skweltch — the three vents

`sendAll` of ventwords, ventxml and ventrandomnum (`vent/`), and what their runs under
`Vent::process` put on the two sockets. The id that `Vent::process` gives the sink as the last one
is what `sendAll` returns.
-/

namespace Skweltch

open Callbacks FixedWidth

namespace VentWords

/-- `SendWord::word`. -/
def word (env : VentEnv) : IWord (VentState Str × Int) := Vent.sendNext env 0 0

def sendAll (env : VentEnv) (input : Str) (v : VentState Str) : VentState Str × Int :=
  let r := WordSplitter.process (word env) (v, 0) input
  -- the splitter's answer is not looked at
  (r.1.1, int32 (r.1.2 - 1))

def run (env : VentEnv) (input : Str) : VentState Str × Option Bool :=
  Vent.process env (sendAll env input)

end VentWords

namespace VentXml

/-- `SendChunk::chunk`. -/
def chunk (env : VentEnv) (sleeptime sleepevery : Int) : IChunk (VentState Str × Int) :=
  Vent.sendNext env sleeptime sleepevery

def sendAll (env : VentEnv) (sleeptime sleepevery : Int) (xpath input : Str) (v : VentState Str) :
    VentState Str × Int :=
  let r := XPathSplitter.process (chunk env sleeptime sleepevery) (v, 0) xpath input
  if r.2 then (r.1.1, int32 (r.1.2 - 1)) else (r.1.1, 0)

def run (env : VentEnv) (sleeptime sleepevery : Int) (xpath input : Str) :
    VentState Str × Option Bool :=
  Vent.process env (sendAll env sleeptime sleepevery xpath input)

end VentXml

namespace VentRandomNum

/-- The loop of `sendAll` with `n` rounds to go; `num i` is the number drawn in round `i`. -/
def loop (env : VentEnv) (sleeptime : Int) (num : Nat → Int) :
    Nat → Nat → Int → VentState Int → VentState Int × Int
  | 0, _, id, v => (v, int32 (id - 1))
  | n + 1, i, id, v =>
    let r := Vent.sendOne env v { id := id, payload := num i } sleeptime 1
    if r.2 then loop env sleeptime num n (i + 1) (int32 (id + 1)) r.1 else (r.1, 0)

def sendAll (env : VentEnv) (count sleeptime : Int) (num : Nat → Int) (v : VentState Int) :
    VentState Int × Int :=
  loop env sleeptime num count.toNat 0 0 v

def run (env : VentEnv) (count sleeptime : Int) (num : Nat → Int) :
    VentState Int × Option Bool :=
  Vent.process env (sendAll env count sleeptime num)

/-- The loop sends its numbers like the other vents their items. -/
theorem loop_eq (env : VentEnv) (sleeptime : Int) (num : Nat → Int) (n i : Nat) (id : Int)
    (v : VentState Int) :
    loop env sleeptime num n i id v =
      let r := feed (Vent.sendNext env sleeptime 1) (v, id) ((List.range' i n).map num)
      if r.2 then (r.1.1, int32 (r.1.2 - 1)) else (r.1.1, 0) := by
  induction n generalizing i id v with
  | zero => rfl
  | succ n ih =>
    rw [loop, List.range'_succ, List.map_cons]
    cases hs : (Vent.sendNext env sleeptime 1 (v, id) (num i)).2 with
    | true =>
      rw [feed_cons_true hs]
      have hgo : (Vent.sendOne env v { id := id, payload := num i } sleeptime 1).2 = true := hs
      simp only [hgo, if_true]
      exact ih (i + 1) (int32 (id + 1)) _
    | false =>
      rw [feed_cons_false hs]
      have hstop : (Vent.sendOne env v { id := id, payload := num i } sleeptime 1).2 = false := hs
      simp only [hstop, Bool.false_eq_true, if_false]
      rfl

end VentRandomNum

/-! ## The last message

A vent numbers its messages from 0 and tells the sink the number of the last. Whether that is true
depends on how far it came and on what `sendAll` returns. -/

/-- The ids on the sender socket are `0, 1, …, k` and the sink is told `k`. -/
def Truthful {α : Type} (acts : List (VentAct α)) : Prop :=
  ∃ k : Nat, Vent.dataIds acts = (List.range (k + 1)).map (fun i : Nat => (i : Int)) ∧
    Vent.sinkMsgs acts = [.firstMsg 0, .lastMsg k]

/-- A vent with `n` messages to send sends so few that their ids stay apart. -/
def InRange (env : VentEnv) (n : Nat) : Prop :=
  n ≤ 2147483648 ∨ ∃ j < 2147483648, env.quit j = true

/-- A vent with `n` messages to send sends all of them without being told to quit. -/
def Uninterrupted (env : VentEnv) (n : Nat) : Prop := ∀ j < n, env.quit j = false

instance (env : VentEnv) (n : Nat) : Decidable (Uninterrupted env n) := by
  unfold Uninterrupted; infer_instance

/-- A vent with `n` messages to send sends only the first. -/
def OnlyOne (env : VentEnv) (n : Nat) : Prop := n = 1 ∨ env.quit 0 = true

namespace Vent

variable {α : Type} {env : VentEnv}

/-- The state `Vent::process` hands to `sendAll`. -/
abbrev begun : VentState α := { (init : VentState α) with acts := [.sink (.firstMsg 0)] }

/-- **`Vent::process` around a `sendAll` that sends `m` messages and returns `last`.** -/
theorem process_sent (h : env.Works) {sendAll : VentState α → VentState α × Int} {m : Nat}
    (hsent : Sent begun (sendAll begun).1 0 m) (hlive : (sendAll begun).1.killed = false) :
    dataIds (process env sendAll).1.acts = idsFrom 0 m ∧
      sinkMsgs (process env sendAll).1.acts = [.firstMsg 0, .lastMsg (sendAll begun).2] := by
  simp only [process, h.2.1, h.2.2, hlive, Bool.false_eq_true, if_false, dataIds_append,
    sinkMsgs_append, hsent.dataIds_eq, hsent.sinkMsgs_eq]
  refine ⟨?_, rfl⟩
  rw [dataIds_sink, dataIds_nil, List.nil_append]
  exact List.append_nil _

theorem process_killed (h : env.Works) {sendAll : VentState α → VentState α × Int}
    (hkilled : (sendAll begun).1.killed = true) :
    (process env sendAll).1 = (sendAll begun).1 := by
  simp only [process, h.2.1, hkilled, Bool.false_eq_true, if_false, if_true]

/-- The ids are those of a batch as long as they can be counted. -/
theorem idsFrom_eq_iff (m k : Nat) :
    idsFrom 0 m = (List.range (k + 1)).map (fun i : Nat => (i : Int)) ↔
      m = k + 1 ∧ m ≤ 2147483648 := by
  constructor
  · intro h
    have hlen : m = k + 1 := by simpa [idsFrom] using congrArg List.length h
    subst hlen
    have hlast := List.map_inj_left.mp h k (List.mem_range.mpr (Nat.lt_succ_self k))
    rw [Nat.zero_add, idAt_eq_iff] at hlast
    exact ⟨rfl, by omega⟩
  · rintro ⟨rfl, hm⟩
    unfold idsFrom
    apply List.map_congr_left
    intro i hi
    have := List.mem_range.mp hi
    rw [Nat.zero_add, idAt_eq_iff]
    omega

/-- The sink is told the truth exactly when the ids stay apart and `sendAll` returns the last. -/
theorem truthful_iff (h : env.Works) {sendAll : VentState α → VentState α × Int} {m : Nat}
    (hm : 0 < m) (hsent : Sent begun (sendAll begun).1 0 m)
    (hlive : (sendAll begun).1.killed = false) :
    Truthful (process env sendAll).1.acts ↔
      m ≤ 2147483648 ∧ (sendAll begun).2 = (m : Int) - 1 := by
  obtain ⟨hids, hsink⟩ := process_sent h hsent hlive
  unfold Truthful
  rw [hids, hsink]
  constructor
  · rintro ⟨k, hk, hlast⟩
    obtain ⟨rfl, hle⟩ := (idsFrom_eq_iff m k).mp hk
    refine ⟨hle, ?_⟩
    have : (SinkMsg.lastMsg (sendAll begun).2).id = (SinkMsg.lastMsg k).id := by
      rw [(List.cons.inj (List.cons.inj hlast).2).1]
    have hid : (sendAll begun).2 = (k : Int) := this
    rw [hid]
    push_cast
    omega
  · rintro ⟨hle, hlast⟩
    refine ⟨m - 1, (idsFrom_eq_iff m (m - 1)).mpr ⟨by omega, hle⟩, ?_⟩
    rw [hlast, Nat.cast_sub hm]
    rfl

theorem idAt_pred {m : Nat} (hm : 0 < m) (hle : m ≤ 2147483648) :
    int32 (idAt m - 1) = (m : Int) - 1 := by
  unfold idAt
  rw [int32_sub_left]
  exact int32_of_nonneg (by omega) (by omega)

/-- What the callbacks of the vents do from the beginning. -/
theorem feed_begun (h : env.Works) {sleeptime sleepevery : Int} (items : List α)
    (hdiv : Divides sleeptime sleepevery → env.quit 0 = true) :
    let r := feed (sendNext env sleeptime sleepevery) (begun, 0) items
    let m := reach env.quit 0 items.length
    Sent begun r.1.1 0 m ∧ r.1.1.killed = false ∧ r.1.2 = idAt m ∧
      (r.2 = true ↔ Uninterrupted env items.length) := by
  have hfeed := feed_sendNext h items (begun : VentState α) 0 hdiv rfl
  rw [idAt_zero] at hfeed
  simpa [Uninterrupted] using hfeed

theorem inRange_iff (env : VentEnv) (n : Nat) :
    reach env.quit 0 n ≤ 2147483648 ↔ InRange env n := by
  simpa [InRange] using reach_le_iff env.quit 0 n 2147483648

/-- One message goes out exactly if the vent is stopped behind the first or has no other. -/
theorem onlyOne_iff (env : VentEnv) {n : Nat} (hn : 0 < n) :
    reach env.quit 0 n = 1 ↔ OnlyOne env n := by
  have hpos := reach_pos env.quit 0 hn
  have hle := reach_le_iff env.quit 0 n 1
  simp only [Nat.lt_one_iff, exists_eq_left, Nat.add_zero] at hle
  unfold OnlyOne
  constructor
  · intro h
    rcases hle.mp h.le with h | h
    · exact .inl (by omega)
    · exact .inr h
  · intro h
    have := hle.mpr (h.imp (by omega) id)
    omega

end Vent

open Vent

/-- The vents that return `0` when they are stopped: the last id is right when nothing stopped
them, or when there is no other. -/
theorem truthful_of_stopped_zero {α : Type} {env : VentEnv} (h : env.Works)
    {sleeptime sleepevery : Int} {items : List α} (hne : items ≠ []) (accepted : Bool)
    (hdiv : Divides sleeptime sleepevery → env.quit 0 = true)
    {sendAll : VentState α → VentState α × Int}
    (hsend : sendAll begun =
      let r := feed (sendNext env sleeptime sleepevery) (begun, 0) items
      if r.2 && accepted then (r.1.1, int32 (r.1.2 - 1)) else (r.1.1, 0)) :
    Truthful (process env sendAll).1.acts ↔
      InRange env items.length ∧
        ((Uninterrupted env items.length ∧ accepted = true) ∨ OnlyOne env items.length) := by
  have hn : 0 < items.length := List.length_pos_iff.mpr hne
  obtain ⟨hsent, hlive, hid, hgo⟩ := feed_begun h items hdiv
  have hm := reach_pos env.quit 0 hn
  have hstate : (sendAll begun).1 =
      (feed (sendNext env sleeptime sleepevery) (begun, 0) items).1.1 := by
    rw [hsend]
    dsimp only
    split <;> rfl
  -- Last is the last id, or 0 when the vent was stopped
  have hlast : (sendAll begun).2 =
      if Uninterrupted env items.length ∧ accepted = true then
        int32 (idAt (reach env.quit 0 items.length) - 1) else 0 := by
    rw [hsend, ← hid]
    dsimp only
    by_cases hall : Uninterrupted env items.length ∧ accepted = true
    · rw [if_pos hall, if_pos (by rw [Bool.and_eq_true, hgo]; exact hall)]
    · rw [if_neg hall, if_neg (by rw [Bool.and_eq_true, hgo]; exact hall)]
  rw [truthful_iff h hm (hstate ▸ hsent) (hstate ▸ hlive), inRange_iff, hlast,
    ← onlyOne_iff env hn]
  refine and_congr_right fun hrange => ?_
  by_cases hall : Uninterrupted env items.length ∧ accepted = true
  · rw [if_pos hall, idAt_pred hm ((inRange_iff env _).mpr hrange)]
    exact ⟨fun _ => .inl hall, fun _ => rfl⟩
  · rw [if_neg hall]
    constructor
    · intro hzero
      exact .inr (by omega)
    · intro hone
      have := hone.resolve_left hall
      omega

/-- The words are sent truthfully as long as there are not too many. -/
theorem truthful_words_iff {env : VentEnv} (h : env.Works) (input : List Char) :
    Truthful (VentWords.run env input).1.acts ↔
      InRange env (WordSplitter.words input).length := by
  have hn : 0 < (WordSplitter.words input).length :=
    List.length_pos_iff.mpr (WordSplitter.words_ne_nil input)
  have hdiv : Divides 0 0 → env.quit 0 = true := fun hd => absurd hd (by decide)
  obtain ⟨hsent, hlive, hid, -⟩ := feed_begun h (WordSplitter.words input) hdiv
  have hm := reach_pos env.quit 0 hn
  have hlast : (VentWords.sendAll env input begun).2 =
      int32 (idAt (reach env.quit 0 (WordSplitter.words input).length) - 1) := by
    rw [← hid]
    rfl
  rw [VentWords.run, truthful_iff h hm hsent hlive, inRange_iff, hlast]
  exact ⟨fun hr => hr.1, fun hr => ⟨hr, idAt_pred hm ((inRange_iff env _).mpr hr)⟩⟩

/-- A vent that is killed over its first message has announced no last one. -/
theorem not_truthful_xml {env : VentEnv} (h : env.Works) {sleeptime sleepevery : Int} {xpath input}
    (hne : XPathSplitter.chunks xpath input ≠ []) (hd : Divides sleeptime sleepevery)
    (hq : env.quit 0 = false) :
    ¬ Truthful (VentXml.run env sleeptime sleepevery xpath input).1.acts := by
  have hkilled : (VentXml.sendAll env sleeptime sleepevery xpath input begun).1.killed = true := by
    have hfeed := feed_sendNext_killed h hd hne begun 0 hq
    simp only [VentXml.sendAll, XPathSplitter.process_eq_feed]
    split <;> exact hfeed
  have hsink : sinkMsgs (VentXml.sendAll env sleeptime sleepevery xpath input begun).1.acts =
      [.firstMsg 0] := by
    have hfeed := feed_sendNext_sinkMsgs h sleeptime sleepevery
      (XPathSplitter.chunks xpath input) begun 0
    simp only [VentXml.sendAll, XPathSplitter.process_eq_feed]
    split <;> exact hfeed
  intro ⟨k, _, hk⟩
  rw [VentXml.run, process_killed h hkilled, hsink] at hk
  cases hk

/-- The chunks are, as long as the vent is not stopped among them. -/
theorem truthful_xml_iff {env : VentEnv} (h : env.Works) (sleeptime sleepevery : Int) {xpath input}
    (hne : XPathSplitter.chunks xpath input ≠ []) :
    Truthful (VentXml.run env sleeptime sleepevery xpath input).1.acts ↔
      (Divides sleeptime sleepevery → env.quit 0 = true) ∧
      InRange env (XPathSplitter.chunks xpath input).length ∧
      ((Uninterrupted env (XPathSplitter.chunks xpath input).length ∧
          XmlParser.accepts input = true) ∨
        OnlyOne env (XPathSplitter.chunks xpath input).length) := by
  by_cases hdiv : Divides sleeptime sleepevery → env.quit 0 = true
  · have hsend : VentXml.sendAll env sleeptime sleepevery xpath input begun =
        let r := feed (sendNext env sleeptime sleepevery) (begun, 0)
          (XPathSplitter.chunks xpath input)
        if r.2 && XmlParser.accepts input then (r.1.1, int32 (r.1.2 - 1)) else (r.1.1, 0) := by
      simp only [VentXml.sendAll, XPathSplitter.process_eq_feed]
      rfl
    rw [VentXml.run, truthful_of_stopped_zero h hne _ hdiv hsend]
    exact ⟨fun hr => ⟨hdiv, hr⟩, fun hr => hr.2⟩
  · obtain ⟨hd, hq⟩ := Classical.not_imp.mp hdiv
    have hnot := not_truthful_xml h hne hd (Bool.eq_false_iff.mpr hq)
    exact iff_of_false hnot fun hr => hdiv hr.1

/-- The numbers are sent truthfully as long as the vent is not stopped among them. -/
theorem truthful_randomNum_iff {env : VentEnv} (h : env.Works) {count : Int} (sleeptime : Int)
    (num : Nat → Int) (hpos : 0 < count) (hint : IsInt count) :
    Truthful (VentRandomNum.run env count sleeptime num).1.acts ↔
      Uninterrupted env count.toNat ∨ OnlyOne env count.toNat := by
  have hne : (List.range' 0 count.toNat).map num ≠ [] := by
    rw [Ne, List.map_eq_nil_iff, List.range'_eq_nil_iff]
    omega
  -- it asks to sleep behind every message, so that it never divides by zero
  have hdiv : Divides sleeptime 1 → env.quit 0 = true := fun hd => absurd hd.2 (by decide)
  have hsend : VentRandomNum.sendAll env count sleeptime num begun =
      let r := feed (sendNext env sleeptime 1) (begun, 0) ((List.range' 0 count.toNat).map num)
      if r.2 && true then (r.1.1, int32 (r.1.2 - 1)) else (r.1.1, 0) := by
    rw [VentRandomNum.sendAll, VentRandomNum.loop_eq]
    simp only [Bool.and_true]
  have hlen : ((List.range' 0 count.toNat).map num).length = count.toNat := by simp
  rw [VentRandomNum.run, truthful_of_stopped_zero h hne true hdiv hsend, hlen]
  have hrange : InRange env count.toNat := by
    unfold IsInt at hint
    exact .inl (by omega)
  simp [hrange]

/-- **When the last message tells the truth.** For ventwords always (as far as the ids stay apart);
for ventxml and ventrandomnum, which return `0` when they are stopped, when they are not stopped or
have sent a single message; and ventxml must not divide by zero before it gets there. -/
theorem last_truthful_iff (env : VentEnv) (h : env.Works) :
    (∀ input, Truthful (VentWords.run env input).1.acts ↔
      InRange env (WordSplitter.words input).length) ∧
    (∀ sleeptime sleepevery xpath input, XPathSplitter.chunks xpath input ≠ [] →
      (Truthful (VentXml.run env sleeptime sleepevery xpath input).1.acts ↔
        (Divides sleeptime sleepevery → env.quit 0 = true) ∧
        InRange env (XPathSplitter.chunks xpath input).length ∧
        ((Uninterrupted env (XPathSplitter.chunks xpath input).length ∧
            XmlParser.accepts input = true) ∨
          OnlyOne env (XPathSplitter.chunks xpath input).length))) ∧
    (∀ count sleeptime num, 0 < count → IsInt count →
      (Truthful (VentRandomNum.run env count sleeptime num).1.acts ↔
        Uninterrupted env count.toNat ∨ OnlyOne env count.toNat)) := by
  refine ⟨fun input => ?_, fun sleeptime sleepevery xpath input hne => ?_,
    fun count sleeptime num hpos hint => ?_⟩
  · exact truthful_words_iff h input
  · exact truthful_xml_iff h sleeptime sleepevery hne
  · exact truthful_randomNum_iff h sleeptime num hpos hint

def undisturbed : VentEnv :=
  { quit := fun _ => false, senderFails := fun _ => false, firstFails := false, lastFails := false }

/-- Sockets that work and an interrupt after the second message. -/
def interrupted : VentEnv := { undisturbed with quit := fun i => decide (1 ≤ i) }

/-- Three numbers, sent without being stopped. -/
theorem last_truthful_three :
    Truthful (VentRandomNum.run undisturbed 3 0 (fun _ => 7)).1.acts :=
  ((last_truthful_iff undisturbed ⟨fun _ => rfl, rfl, rfl⟩).2.2 3 0 (fun _ => 7) (by decide)
    (by decide)).mpr (.inl (by decide))

/-- Two messages went out, and Last says that there was one. -/
theorem not_truthful {α : Type} {acts : List (VentAct α)} (hids : dataIds acts = [0, 1])
    (hsink : sinkMsgs acts = [.firstMsg 0, .lastMsg 0]) : ¬ Truthful acts := by
  rintro ⟨k, hk, hlast⟩
  have hone : k = 1 := by
    rw [hids] at hk
    simpa using (congrArg List.length hk).symm
  subst hone
  rw [hsink] at hlast
  exact absurd hlast (by decide)

/-- Stopped after the ids 0 and 1, by an interrupt or by a `>` outside a tag, the two vents name 0
as the last. -/
theorem last_after_stop :
    ¬ Truthful (VentRandomNum.run interrupted 3 0 (fun _ => 7)).1.acts ∧
    ¬ Truthful (VentXml.run undisturbed 0 0 "a".toList "<a>x</a><a>y</a>>".toList).1.acts :=
  ⟨not_truthful (by decide +kernel) (by decide +kernel),
    not_truthful (by decide +kernel) (by decide +kernel)⟩

end Skweltch
