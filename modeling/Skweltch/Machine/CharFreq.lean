import Skweltch.Sink.CharFreq
import Skweltch.Vent.SentItems
import Skweltch.Work.CharFreqWords

/-!
# Skweltch — the charfreq machine

`machineconf/charfreq.json`: ventwords, any number of workcharfreq and sinkcharfreq. What the machine
is for is `letterCount`, how often each letter occurs in a text, in either case; the words in between
do not show in it.
-/

namespace Skweltch

open EventLoop FixedWidth Relation Vent WordSplitter WorkCharFreq

namespace WordSplitter

/-- The letters of a text are those of its first word and of the rest. -/
theorem letterCount_extract (input : Str) (i : Fin 26) :
    letterCount (extract input).1 i + letterCount (extract input).2 i = letterCount input i := by
  have hblank : letterCount (input.takeWhile isSpace) i = 0 := by
    apply letterCount_eq_zero
    intro c hc
    exact isLetter_of_isSpace (List.all_eq_true.mp List.all_takeWhile c hc)
  conv_rhs => rw [← List.takeWhile_append_dropWhile (p := isSpace) (l := input)]
  rw [← letterCount_append, extract_append, letterCount_append, hblank, Nat.zero_add]

/-- **The words of a text have its letters**, however the text is split. -/
theorem sum_count_words (input : Str) (i : Fin 26) :
    ((words input).map fun s => s.count (letter i)).sum = letterCount input i := by
  induction input using words.induct with
  | case1 input h =>
    have hsplit := letterCount_extract input i
    rw [h] at hsplit
    rw [words, dif_pos h, List.map_singleton, List.sum_singleton, count_clean]
    exact hsplit
  | case2 input h ih =>
    rw [words, dif_neg h, List.map_cons, List.sum_cons, ih, count_clean]
    exact letterCount_extract input i

end WordSplitter

namespace SinkCharFreq

theorem skipsEnds : ISinkWorker.SkipsEnds worker := fun _ _ => ⟨rfl, rfl⟩

theorem occurrences_eq (ms : List (DataMsg Str)) (i : Fin 26) :
    occurrences ms i = ((ms.map DataMsg.payload).map fun s => s.count (letter i)).sum := by
  rw [occurrences, List.map_map]
  rfl

/-- The calls for words that the workers accept. -/
theorem batchCalls_jobOf {ms : List (DataMsg Str)}
    (h : ∀ m ∈ ms, Lower m.payload ∧ Few m.payload) :
    batchCalls (jobOf WorkCharFreq.processMsg) ms = ms.map callFor ++ [.results] := by
  unfold batchCalls
  congr 1
  apply List.map_congr_left
  intro m hm
  obtain ⟨hlower, hfew⟩ := h m hm
  rw [jobOf, processMsg_eq hlower hfew]
  rfl

end SinkCharFreq

namespace CharFreq

open SinkCharFreq

/-- What the machine is for. -/
def letters (text : Str) : Counts := fun i => (letterCount text i : Int)

section Text

variable {text : Str} {ms : List (DataMsg Str)}

/-- The messages of a fit and sparse text are ones that the workers accept. -/
theorem accepted_of_fit (hperm : (ms.map DataMsg.payload).Perm (words text)) (hfit : Fit text)
    (hsparse : Sparse text) : ∀ m ∈ ms, Lower m.payload ∧ Few m.payload := by
  intro m hm
  have hword : m.payload ∈ words text := hperm.subset (List.mem_map_of_mem hm)
  exact ⟨(lower_words_iff text).mpr hfit m.payload hword,
    (few_words_iff text).mpr hsparse m.payload hword⟩

theorem occurrences_perm (hperm : (ms.map DataMsg.payload).Perm (words text)) (i : Fin 26) :
    occurrences ms i = letterCount text i := by
  rw [occurrences_eq, (hperm.map fun s => s.count (letter i)).sum_eq, sum_count_words]

/-- What the sink makes of the words of a text, in whatever order their strings come. -/
theorem run_text (hperm : (ms.map DataMsg.payload).Perm (words text)) (hfit : Fit text)
    (hsparse : Sparse text) (hsize : text.length ≤ 2147483647) :
    worker.run init (batchCalls (jobOf WorkCharFreq.processMsg) ms) =
      .ok (init, [report (letters text)]) := by
  have haccepted := accepted_of_fit hperm hfit hsparse
  have htotal : (fun i => int32 (occurrences ms i)) = letters text := by
    funext i
    have hle := letterCount_le text i
    rw [occurrences_perm hperm, letters]
    exact int32_of_nonneg (by omega) (by omega)
  rw [batchCalls_jobOf haccepted, worker_batch fun m hm => (haccepted m hm).2, htotal]

end Text

/-- What the sink makes of the words of several texts: each report starts from zero. -/
theorem run_texts {texts : List Str} {mss : List (List (DataMsg Str))}
    (hmss : List.Forall₂ (fun ms text => (ms.map DataMsg.payload).Perm (words text)) mss texts)
    (hfit : ∀ text ∈ texts, Fit text) (hsparse : ∀ text ∈ texts, Sparse text)
    (hsize : ∀ text ∈ texts, text.length ≤ 2147483647) :
    worker.run init (mss.flatMap (batchCalls (jobOf WorkCharFreq.processMsg))) =
      .ok (init, texts.map fun text => report (letters text)) := by
  induction hmss with
  | nil => rfl
  | cons hms _ ih =>
    obtain ⟨hfit, hfits⟩ := List.forall_mem_cons.mp hfit
    obtain ⟨hsparse, hsparses⟩ := List.forall_mem_cons.mp hsparse
    obtain ⟨hsize, hsizes⟩ := List.forall_mem_cons.mp hsize
    rw [List.flatMap_cons]
    exact ISinkWorker.run_append (run_text hms hfit hsparse hsize) (ih hfits hsparses hsizes)

end CharFreq

end Skweltch
