import Skweltch.Sink.Avg
import Skweltch.Vent.SentItems

/-!
# Skweltch — the avgwordsize machine

`machineconf/avgwordsize.json`: ventwords, any number of workcharcount (`work/workcharcount.cpp`) and
sinkavg. The words that count are the tokens of the text, and once more an empty one where the text
does not end in a token.
-/

namespace Skweltch

open EventLoop FixedWidth NumText Relation Vent WordSplitter

namespace WorkCharCount

/-- The message for the sink that `WWorker::processMsg` hands to `sendSinkMsg`. -/
def processMsg (msg : DataMsg Str) : Except Fault SinkMsg :=
  let length : Int := int32 msg.payload.length
  .ok (.dataMsg msg.id [decText length])

theorem reads_decText (x : Int) : [decText (int32 x)].head?.bind readInt = some (int32 x) := by
  rw [List.head?_cons, Option.bind_some]
  exact readInt_decText (isInt_int32 x)

/-- What the sink makes of a message that has been worked on. -/
def sample (msg : DataMsg Str) : SinkAvg.Sample :=
  { id := msg.id
    data := [decText (int32 msg.payload.length)]
    value := int32 msg.payload.length
    reads := reads_decText msg.payload.length }

end WorkCharCount

namespace SinkAvg

theorem skipsEnds : ISinkWorker.SkipsEnds worker := fun _ _ => ⟨rfl, rfl⟩

theorem batchCalls_sample (ms : List (DataMsg Str)) :
    Skweltch.batchCalls (jobOf WorkCharCount.processMsg) ms =
      batchCalls (ms.map WorkCharCount.sample) := by
  rw [Skweltch.batchCalls, batchCalls, List.map_map]
  rfl

/-- The values of messages whose payloads are not too long are the lengths. -/
theorem sum_sample {ms : List (DataMsg Str)} {b : Nat} (hb : b ≤ 2147483647)
    (h : ((ms.map DataMsg.payload).map List.length).sum ≤ b) :
    sum (ms.map WorkCharCount.sample) = ((ms.map DataMsg.payload).map List.length).sum := by
  induction ms with
  | nil => rfl
  | cons m ms ih =>
    simp only [List.map_cons, List.sum_cons] at h ⊢
    have hrest := ih (by omega)
    have hm : int32 (m.payload.length : Int) = m.payload.length :=
      int32_of_nonneg (by omega) (by omega)
    rw [sum, List.map_cons, List.sum_cons]
    rw [sum] at hrest
    rw [hrest, Nat.cast_add]
    exact congrArg (· + _) hm

end SinkAvg

namespace AvgWordSize

/-- The bytes of the words that are handed over. -/
def size (text : Str) : Nat := ((tokens text).map fun s => (clean s).length).sum

/-- How many words are handed over. -/
def count (text : Str) : Nat := (tokens text).length + if EndsInToken text then 0 else 1

/-- The average over texts. -/
def average (texts : List Str) : ℚ :=
  ((texts.map size).sum : ℚ) / ((texts.map count).sum : ℚ)

theorem length_words (text : Str) : (words text).length = count text := by
  rw [words_eq, List.length_map, reads_eq, List.length_append, count]
  congr 1
  split
  · rfl
  · rfl

/-- Their sum is the size of the text. -/
theorem sum_length_words (text : Str) : ((words text).map List.length).sum = size text := by
  rw [words_eq, List.map_map, reads_eq, List.map_append, List.sum_append, size]
  have hempty : ((if EndsInToken text then [] else [[]] : List Str).map
      (List.length ∘ clean)).sum = 0 := by
    split
    · rfl
    · rfl
  rw [hempty, Nat.add_zero]
  rfl

theorem size_le (text : Str) : size text ≤ text.length := by
  rw [← sum_length_words]
  exact sum_length_words_le text

theorem count_le (text : Str) : count text ≤ text.length + 1 := by
  rw [← length_words]
  exact length_words_le text

/-- The samples that the sink gets for texts, message by message and text by text. -/
abbrev samples (mss : List (List (DataMsg Str))) : List (List SinkAvg.Sample) :=
  mss.map fun ms => ms.map WorkCharCount.sample

theorem samples_cons (ms : List (DataMsg Str)) (mss : List (List (DataMsg Str))) :
    (samples (ms :: mss)).flatten = ms.map WorkCharCount.sample ++ (samples mss).flatten := rfl

section Texts

variable {texts : List Str} {mss : List (List (DataMsg Str))}

/-- How many samples there are of some texts. -/
theorem length_samples
    (hmss : List.Forall₂ (fun ms text => (ms.map DataMsg.payload).Perm (words text)) mss texts) :
    (samples mss).flatten.length = (texts.map count).sum := by
  induction hmss with
  | nil => rfl
  | @cons ms text mss texts hms _ ih =>
    have hlen := hms.length_eq
    rw [List.length_map, length_words] at hlen
    rw [samples_cons, List.length_append, List.length_map, ih, hlen]
    rfl

/-- What the samples of some texts add up to, without overflow. -/
theorem sum_samples
    (hmss : List.Forall₂ (fun ms text => (ms.map DataMsg.payload).Perm (words text)) mss texts)
    (hsize : ∀ text ∈ texts, text.length ≤ 2147483647) :
    SinkAvg.sum (samples mss).flatten = ((texts.map size).sum : Nat) := by
  induction hmss with
  | nil => rfl
  | @cons ms text mss texts hms _ ih =>
    obtain ⟨htext, htexts⟩ := List.forall_mem_cons.mp hsize
    have hlengths : ((ms.map DataMsg.payload).map List.length).sum = size text := by
      rw [(hms.map List.length).sum_eq, sum_length_words]
    have hone : SinkAvg.sum (ms.map WorkCharCount.sample) = (size text : Nat) := by
      rw [SinkAvg.sum_sample htext, hlengths]
      rw [hlengths]
      exact size_le text
    have hrest := ih htexts
    rw [SinkAvg.sum] at hone hrest ⊢
    rw [samples_cons, List.map_append, List.sum_append, hone, hrest, List.map_cons, List.sum_cons,
      Nat.cast_add]

/-- As long as all bytes can be counted, neither the total nor the count of the sink leaves the range
of an `int`. -/
theorem average_samples
    (hmss : List.Forall₂ (fun ms text => (ms.map DataMsg.payload).Perm (words text)) mss texts)
    (hsize : (texts.map fun text => text.length + 1).sum ≤ 2147483647) :
    SinkAvg.average (SinkAvg.accumulated (samples mss)) = average texts := by
  have hone : ∀ text ∈ texts, text.length ≤ 2147483647 := by
    intro text htext
    have hle := List.le_sum_of_mem (List.mem_map_of_mem (f := fun t : Str => t.length + 1) htext)
    omega
  have hsum : (texts.map size).sum ≤ (texts.map fun text => text.length + 1).sum :=
    List.sum_le_sum fun text _ => (size_le text).trans (Nat.le_succ _)
  have hcount : (texts.map count).sum ≤ (texts.map fun text => text.length + 1).sum :=
    List.sum_le_sum fun text _ => count_le text
  rw [SinkAvg.accumulated, length_samples hmss, sum_samples hmss hone, SinkAvg.average,
    int32_of_nonneg (by omega) (by omega), int32_of_nonneg (by omega) (by omega), average]
  simp only [Int.cast_natCast]

end Texts

theorem sum_take_le (f : Str → Nat) (texts : List Str) (k : Nat) :
    ((texts.take k).map f).sum ≤ (texts.map f).sum := by
  conv_rhs => rw [← List.take_append_drop k texts]
  rw [List.map_append, List.sum_append]
  exact Nat.le_add_right _ _

end AvgWordSize

end Skweltch
