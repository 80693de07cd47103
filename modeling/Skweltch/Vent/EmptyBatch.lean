import Skweltch.Core.Sink
import Skweltch.Vent.Vents

/-!
# Skweltch — a vent with nothing to send

ventxml without a matching element and ventrandomnum with a count of zero or less tell the sink the
last id `-1`, the value that stands for "not set" in the tracker.
-/

namespace Skweltch

open Callbacks EventLoop FixedWidth Vent

def emptyBatch : List SinkMsg := [.firstMsg 0, .lastMsg (-1)]

/-- Delivered to a fresh sink, the messages make it call `results` once, and the tracker never has
more than one bucket on the way. -/
def CompletesSmall (msgs : List SinkMsg) : Prop :=
  (Sink.workerCalls (msgs.map Sink.deliver)).count .results = 1 ∧
    ∀ n s, (Sink.process ((msgs.take n).map Sink.deliver)).2 = .next s →
      s.tracker.bits.length ≤ 1

/-! ## The vents

Without any item a vent still tells the sink First and Last, and Last has the id -1. -/

/-- A document without chunks makes an empty batch. -/
theorem ventXml_empty {env : VentEnv} (h : env.Works) (sleeptime sleepevery : Int)
    {xpath input : Str} (haccepts : XmlParser.accepts input = true)
    (hnone : XPathSplitter.chunks xpath input = []) :
    sinkMsgs (VentXml.run env sleeptime sleepevery xpath input).1.acts = emptyBatch := by
  have hsend : VentXml.sendAll env sleeptime sleepevery xpath input begun = (begun, -1) := by
    simp only [VentXml.sendAll, XPathSplitter.process_eq_feed, hnone, haccepts]
    show (begun, int32 (0 - 1)) = _
    rw [int32_of_isInt (by decide)]
    rfl
  simp only [VentXml.run, Vent.process, h.2.1, h.2.2, hsend]
  rfl

/-- A count of no numbers makes an empty batch. -/
theorem ventRandomNum_empty {env : VentEnv} (h : env.Works) {count : Int} (hcount : count ≤ 0)
    (sleeptime : Int) (num : Nat → Int) :
    sinkMsgs (VentRandomNum.run env count sleeptime num).1.acts = emptyBatch := by
  have hsend : VentRandomNum.sendAll env count sleeptime num begun = (begun, -1) := by
    rw [VentRandomNum.sendAll, show count.toNat = 0 by omega]
    show (begun, int32 (0 - 1)) = _
    rw [int32_of_isInt (by decide)]
    rfl
  simp only [VentRandomNum.run, Vent.process, h.2.1, h.2.2, hsend]
  rfl

/-! ## The sink

The id -1 is the one that the tracker takes for none. So the sink waits for a Last that has come
already. -/

def emptyTracker : MsgTracker := (MsgTracker.init.setFirst 0).setLast (-1)

/-- How far the tracker grows for the last id -1. -/
theorem emptyTracker_buckets : emptyTracker.bits.length = 1271310320 := by
  have hbucket : ({ MsgTracker.init.setFirst 0 with last := -1 } : MsgTracker).bucketOf (-1) =
      1271310319 := by decide +kernel
  have hgrow : int32 (int32 (1271310319 + 1) - (0 : Nat)) = 1271310320 := by decide +kernel
  unfold emptyTracker MsgTracker.setLast
  dsimp only
  rw [hbucket, MsgTracker.grow]
  dsimp only
  rw [MsgTracker.setFirst_bits, show MsgTracker.init.bits = [] from rfl, List.length_nil, hgrow,
    if_pos (by decide), Buckets.length_grow]
  rfl

/-- What the sink does with an empty batch: nothing more. -/
theorem process_emptyBatch :
    Sink.process (emptyBatch.map Sink.deliver) =
      ([[.first 0], [.last (-1)]], .next { tracker := emptyTracker, retries := 0 }) := by
  have hfirst : Sink.body Sink.init (Sink.deliver (.firstMsg 0)) =
      ([.first 0], .next { tracker := MsgTracker.init.setFirst 0, retries := 0 }) := by
    rw [Sink.body_firstMsg, Sink.checkComplete]
    exact if_neg (by decide)
  have hincomplete : emptyTracker.complete = false :=
    MsgTracker.not_complete_of_last_unset
      (by rw [emptyTracker, MsgTracker.setLast_first]; decide)
      (by rw [emptyTracker, MsgTracker.setLast_last])
  have hlast : Sink.body { tracker := MsgTracker.init.setFirst 0, retries := 0 }
      (Sink.deliver (.lastMsg (-1))) =
        ([.last (-1)], .next { tracker := emptyTracker, retries := 0 }) := by
    rw [Sink.body_lastMsg, Sink.checkComplete]
    exact if_neg (by rw [← emptyTracker, hincomplete]; decide)
  show run Sink.body Sink.init [Sink.deliver (.firstMsg 0), Sink.deliver (.lastMsg (-1))] = _
  rw [run_cons_next hfirst, run_cons_next hlast]
  rfl

theorem emptyBatch_not_completes : ¬ CompletesSmall emptyBatch := by
  rintro ⟨hcount, -⟩
  rw [Sink.workerCalls, calls, show run Sink.body Sink.init _ = Sink.process _ from rfl,
    process_emptyBatch] at hcount
  exact absurd hcount (by decide)

/-- **An empty batch never completes**, for any document and path without a match and for any count
of zero or less. -/
theorem empty_batch_never_completes (env : VentEnv) (h : env.Works) :
    (∀ sleeptime sleepevery xpath input, XmlParser.accepts input = true →
      XPathSplitter.chunks xpath input = [] →
      ¬ CompletesSmall (sinkMsgs (VentXml.run env sleeptime sleepevery xpath input).1.acts)) ∧
    (∀ count sleeptime num, count ≤ 0 →
      ¬ CompletesSmall (sinkMsgs (VentRandomNum.run env count sleeptime num).1.acts)) := by
  refine ⟨fun sleeptime sleepevery xpath input haccepts hnone => ?_,
    fun count sleeptime num hcount => ?_⟩
  · rw [ventXml_empty h sleeptime sleepevery haccepts hnone]
    exact emptyBatch_not_completes
  · rw [ventRandomNum_empty h hcount]
    exact emptyBatch_not_completes

/-- A document without the element that the path names. -/
theorem empty_batch_never_completes_catalog :
    ¬ CompletesSmall
      (sinkMsgs (VentXml.run undisturbed 0 0 "book".toList "<catalog></catalog>".toList).1.acts) :=
  (empty_batch_never_completes undisturbed ⟨fun _ => rfl, rfl, rfl⟩).1 0 0 "book".toList
    "<catalog></catalog>".toList (by decide) (by decide)

/-- No numbers to send: the sink is told `0` and `-1`, never fetches results, and the tracker has
1271310320 buckets. -/
theorem count_zero :
    sinkMsgs (VentRandomNum.run undisturbed 0 0 (fun _ => 7)).1.acts = emptyBatch ∧
    (Sink.workerCalls (emptyBatch.map Sink.deliver)).count .results = 0 ∧
    ∃ s, (Sink.process (emptyBatch.map Sink.deliver)).2 = .next s ∧
      s.tracker.bits.length = 1271310320 := by
  refine ⟨ventRandomNum_empty ⟨fun _ => rfl, rfl, rfl⟩ (by decide) 0 _, ?_, ?_⟩
  · rw [Sink.workerCalls, calls, show run Sink.body Sink.init _ = Sink.process _ from rfl,
      process_emptyBatch]
    decide
  · rw [process_emptyBatch]
    exact ⟨_, rfl, emptyTracker_buckets⟩

end Skweltch
