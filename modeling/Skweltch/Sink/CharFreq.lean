import Skweltch.Work.CharFreq

/-!
# Skweltch — sinkcharfreq

`SWorker` of `sink/sinkcharfreq.cpp` adds up the digits of the strings that workcharfreq sends.
The pipeline theorem follows a list of words through both programs.
-/

namespace Skweltch

open FixedWidth NumText

namespace SinkCharFreq

/-- `int counts[26]`. -/
abbrev Counts := Fin 26 → Int

def init : Counts := fun _ => 0

def addDigit (s : Str) (counts : Counts) (i : Fin 26) : Except Fault Counts :=
  match hexVal (s.getD i '\x00') with
  -- `c` is still uninitialised
  | none => .error .undefined
  | some c => .ok (Function.update counts i (int32 (counts i + c)))

def process (counts : Counts) (data : List Str) : Except Fault Counts :=
  match data with
  | [] => .error .undefined
  | s :: _ =>
    if s.length > 26 then .error (.threw "ony handle up to 26 letters.")
    else (List.finRange 26).foldlM (addDigit s) counts

/-- The letters and their counts as `results` writes them. -/
def report (counts : Counts) : List (Str × Int) :=
  (List.finRange 26).map fun i => ([WorkCharFreq.letter i], counts i)

/-- The calls the sink makes: `results` reports and then starts from zero again. -/
def worker : ISinkWorker Counts (List (Str × Int))
  | counts, .first _ => .ok (counts, [])
  | counts, .last _ => .ok (counts, [])
  | counts, .process _ data => (process counts data).map fun c => (c, [])
  | counts, .results => .ok (init, [report counts])

/-! ## Following words through the pipeline

A word becomes twenty-six digits and the digits are added to the counts. As long as no letter occurs
sixteen times in a word, the sum is that of the occurrences. -/

/-- Encode each word and accumulate what the sink receives for it. -/
def pipeline (words : List (DataMsg Str)) : Except Fault Counts :=
  words.foldlM
    (fun counts msg => (WorkCharFreq.processMsg msg).bind fun m => process counts m.data) init

def occurrences (words : List (DataMsg Str)) (i : Fin 26) : Nat :=
  (words.map fun msg => msg.payload.count (WorkCharFreq.letter i)).sum

/-- Adding some digits, by induction on the letters. -/
theorem foldlM_addDigit {s : Str} {d : Fin 26 → Nat} {is : List (Fin 26)} (hnd : is.Nodup)
    (hd : ∀ i ∈ is, hexVal (s.getD i '\x00') = some (d i)) (counts : Counts) :
    is.foldlM (addDigit s) counts =
      .ok fun i => if i ∈ is then int32 (counts i + d i) else counts i := by
  induction is generalizing counts with
  | nil => simp [pure, Except.pure]
  | cons i is ih =>
    obtain ⟨hi, hnd⟩ := List.nodup_cons.mp hnd
    obtain ⟨hdi, hd⟩ := List.forall_mem_cons.mp hd
    have step : addDigit s counts i =
        .ok (Function.update counts i (int32 (counts i + d i))) := by
      rw [addDigit, hdi]
    rw [List.foldlM_cons, step]
    refine (ih hnd hd _).trans ?_
    congr 1
    funext j
    rw [Function.update_apply]
    by_cases hj : j = i
    · subst hj
      simp [hi]
    · simp [hj]

theorem process_digits {s : Str} {d : Fin 26 → Nat} (hlen : s.length = 26)
    (hd : ∀ i : Fin 26, hexVal (s.getD i '\x00') = some (d i)) (rest : List Str)
    (counts : Counts) :
    process counts (s :: rest) = .ok fun i => int32 (counts i + d i) := by
  simp only [process]
  rw [if_neg (by omega), foldlM_addDigit (List.nodup_finRange 26) fun i _ => hd i]
  simp

/-- Counting a string of the worker's adds what it counted. -/
theorem process_tally (counts : Counts) {f : Fin 26 → Nat} (hf : ∀ i, f i ≤ 15) :
    process counts [WorkCharFreq.tally f] = .ok fun i => int32 (counts i + f i) := by
  refine process_digits (by simp [WorkCharFreq.tally]) (fun i => ?_) [] counts
  have hi := hf i
  rw [WorkCharFreq.tally_getD, hexVal_digitChar (by omega)]

/-- One more word in the pipeline. -/
theorem pipeline_concat (words : List (DataMsg Str)) (msg : DataMsg Str) :
    pipeline (words ++ [msg]) =
      (pipeline words).bind fun counts =>
        (WorkCharFreq.processMsg msg).bind fun m => process counts m.data := by
  rw [pipeline, List.foldlM_append]
  change (pipeline words >>= _) = _
  cases pipeline words with
  | error f => rfl
  | ok counts =>
    show ((WorkCharFreq.processMsg msg).bind fun m => process counts m.data) >>= pure =
      (WorkCharFreq.processMsg msg).bind fun m => process counts m.data
    exact bind_pure _

theorem occurrences_concat (words : List (DataMsg Str)) (msg : DataMsg Str) (i : Fin 26) :
    occurrences (words ++ [msg]) i =
      occurrences words i + msg.payload.count (WorkCharFreq.letter i) := by
  simp [occurrences]

/-- **The pipeline counts letters, or is undefined** from the first word on that has one letter too
often. -/
theorem pipeline_eq {words : List (DataMsg Str)} (h : ∀ msg ∈ words, WorkCharFreq.Lower msg.payload) :
    pipeline words =
      if ∀ msg ∈ words, WorkCharFreq.Few msg.payload
      then .ok fun i => int32 (occurrences words i) else .error .undefined := by
  induction words using List.reverseRecOn with
  | nil =>
    have hinit : init = fun i => int32 (occurrences [] i) := by
      funext i
      simp [init, occurrences, int32_of_nonneg]
    rw [if_pos (by simp), ← hinit]
    rfl
  | append_singleton words msg ih =>
    have hwords : ∀ m ∈ words, WorkCharFreq.Lower m.payload :=
      fun m hm => h m (List.mem_append_left _ hm)
    have hmsg : WorkCharFreq.Lower msg.payload :=
      h msg (List.mem_append_right _ (List.mem_singleton_self msg))
    -- the last word fits or does not, and so do those before
    have hsplit : (∀ m ∈ words ++ [msg], WorkCharFreq.Few m.payload) ↔
        (∀ m ∈ words, WorkCharFreq.Few m.payload) ∧ WorkCharFreq.Few msg.payload := by
      rw [List.forall_mem_append, List.forall_mem_singleton]
    rw [pipeline_concat, ih hwords]
    by_cases hall : ∀ m ∈ words, WorkCharFreq.Few m.payload
    · rw [if_pos hall]
      by_cases hfew : WorkCharFreq.Few msg.payload
      · rw [if_pos (hsplit.mpr ⟨hall, hfew⟩), WorkCharFreq.processMsg_eq hmsg hfew]
        show process _ [WorkCharFreq.tally _] = _
        rw [process_tally _ hfew]
        simp only [occurrences_concat, int32_add_left, Nat.cast_add]
      · rw [if_neg fun hnext => hfew (hsplit.mp hnext).2, WorkCharFreq.processMsg_of_many hmsg hfew]
        rfl
    · rw [if_neg hall, if_neg fun hnext => hall (hsplit.mp hnext).1]
      rfl

def callFor (msg : DataMsg Str) : SinkCall :=
  .process msg.id [WorkCharFreq.tally fun i => msg.payload.count (WorkCharFreq.letter i)]

/-- **One batch, one report, and nothing is left over for the next batch.** The calls are those
of the messages that workcharfreq sends for the words (`WorkCharFreq.processMsg_eq`). -/
theorem worker_batch {words : List (DataMsg Str)}
    (hfew : ∀ msg ∈ words, WorkCharFreq.Few msg.payload) :
    worker.run init (words.map callFor ++ [.results]) =
      .ok (init, [report fun i => int32 (occurrences words i)]) := by
  -- by induction on the words, from any counts
  have processes : ∀ ws : List (DataMsg Str), (∀ msg ∈ ws, WorkCharFreq.Few msg.payload) →
      ∀ counts : Counts, worker.run (fun i => int32 (counts i)) (ws.map callFor) =
        .ok ((fun i => int32 (counts i + occurrences ws i)), []) := by
    intro ws
    induction ws with
    | nil => intro _ counts; simp [occurrences]
    | cons msg ws ih =>
      intro hws counts
      obtain ⟨hmsg, hws⟩ := List.forall_mem_cons.mp hws
      have step : worker (fun i => int32 (counts i)) (callFor msg) =
          .ok ((fun i => int32 (counts i + msg.payload.count (WorkCharFreq.letter i))), []) := by
        simp only [worker, callFor, process_tally _ hmsg, int32_add_left]
        rfl
      refine (ISinkWorker.run_cons step (ih hws _)).trans ?_
      simp [occurrences, add_assoc]
  have hinit : init = fun i => int32 (init i) := by
    funext i
    rw [init, int32_of_nonneg (by omega) (by omega)]
  have hwords : worker.run init (words.map callFor) =
      .ok ((fun i => int32 (occurrences words i)), []) := by
    have h := processes words hfew init
    rw [← hinit] at h
    simpa [init] using h
  have hresults : worker.run (fun i => int32 (occurrences words i)) [.results] =
      .ok (init, [report fun i => int32 (occurrences words i)]) := rfl
  exact ISinkWorker.run_append hwords hresults

/-- **The pipeline counts letters exactly as long as no word repeats a letter more than fifteen
times.** The words are over `'a'..'z'` and the totals fit an `int`; that the worker throws on none
of them needs no hypothesis. -/
theorem pipeline_counts_iff (words : List (DataMsg Str))
    (hlower : ∀ msg ∈ words, WorkCharFreq.Lower msg.payload)
    (hfit : ∀ i, occurrences words i ≤ 2147483647) :
    pipeline words = .ok (fun i => (occurrences words i : Int)) ↔
      ∀ msg ∈ words, ∀ i, msg.payload.count (WorkCharFreq.letter i) ≤ 15 := by
  have htotal : ∀ i, int32 (occurrences words i) = (occurrences words i : Int) := fun i =>
    int32_of_nonneg (by omega) (by have := hfit i; omega)
  rw [pipeline_eq hlower]
  constructor
  · intro h
    by_contra hmany
    have hmany : ¬ ∀ msg ∈ words, WorkCharFreq.Few msg.payload := hmany
    rw [if_neg hmany] at h
    cases h
  · intro h
    have hfew : ∀ msg ∈ words, WorkCharFreq.Few msg.payload := h
    rw [if_pos hfew]
    simp only [htotal]

/-- Two words of the tests' kind, one with a letter fifteen times. -/
theorem pipeline_counts_fifteen :
    pipeline [⟨0, List.replicate 15 'a'⟩, ⟨1, ['a', 'b']⟩] =
      .ok (fun i => (occurrences [⟨0, List.replicate 15 'a'⟩, ⟨1, ['a', 'b']⟩] i : Int)) :=
  (pipeline_counts_iff _ (by decide +kernel) (by decide +kernel)).mpr (by decide +kernel)

/-- A word with sixteen times the same letter: no check throws, and what the worker does with it is
not defined. -/
theorem pipeline_sixteen :
    WorkCharFreq.Lower (List.replicate 16 'a') ∧
    (∀ what, WorkCharFreq.processMsg ⟨0, List.replicate 16 'a'⟩ ≠ .error (.threw what)) ∧
    pipeline [⟨0, List.replicate 16 'a'⟩] = .error .undefined ∧
    occurrences [⟨0, List.replicate 16 'a'⟩] 0 = 16 := by
  have hlower : WorkCharFreq.Lower (List.replicate 16 'a') := by decide +kernel
  have hmany : ¬ WorkCharFreq.Few (List.replicate 16 'a') := by decide +kernel
  refine ⟨hlower, fun what => ?_, ?_, by decide +kernel⟩
  · rw [WorkCharFreq.processMsg_of_many hlower hmany]
    simp
  · let word : DataMsg Str := ⟨0, List.replicate 16 'a'⟩
    have hword : ∀ msg ∈ [word], WorkCharFreq.Lower msg.payload :=
      List.forall_mem_singleton.mpr hlower
    have hnot : ¬ ∀ msg ∈ [word], WorkCharFreq.Few msg.payload :=
      fun h => hmany (h word (List.mem_singleton_self word))
    rw [pipeline_eq hword, if_neg hnot]

end SinkCharFreq

end Skweltch
