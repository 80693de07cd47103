import Mathlib.Data.Rat.Lemmas
import Skweltch.Core.SinkWorker
import Skweltch.Lib.NumText

/-!
# Skweltch — sinkavg

`SWorker` of `sink/sinkavg.cpp` adds the numbers it is handed to `total` and counts them; neither
is set back by `results`. The average is held as the exact quotient that the `double` division
rounds.
-/

namespace Skweltch

open FixedWidth NumText

namespace SinkAvg

/-- The members of `SWorker`. -/
structure SWorker where
  count : Int
  total : Int
deriving DecidableEq, Repr

def init : SWorker := { count := 0, total := 0 }

def process (w : SWorker) (data : List Str) : Except Fault SWorker :=
  match data with
  | [] => .error .undefined
  | s :: _ =>
    match readInt s with
    | none => .error (.threw "bad lexical cast: source type value could not be interpreted as target")
    | some n => .ok { total := int32 (w.total + n), count := int32 (w.count + 1) }

def average (w : SWorker) : ℚ := (w.total : ℚ) / (w.count : ℚ)

/-- The calls the sink makes: `results` reports the average and leaves both members as they are. -/
def worker : ISinkWorker SWorker ℚ
  | w, .first _ => .ok (w, [])
  | w, .last _ => .ok (w, [])
  | w, .process _ data => (process w data).map fun w' => (w', [])
  | w, .results => .ok (w, [average w])

/-! ## Batches

The sink's totals are never reset. So the average that it reports at the end of a batch is that of
all samples so far. -/

/-- A data message of a batch and the number its first string stands for. -/
structure Sample where
  id : Int
  data : List Str
  value : Int
  reads : data.head?.bind readInt = some value

def batchCalls (b : List Sample) : List SinkCall :=
  b.map (fun x => .process x.id x.data) ++ [.results]

def sum (b : List Sample) : Int := (b.map Sample.value).sum

def mean (b : List Sample) : ℚ := (sum b : ℚ) / (b.length : ℚ)

def accumulated (bs : List (List Sample)) : SWorker :=
  { count := int32 (bs.flatten.length), total := int32 (sum bs.flatten) }

def reported (bs : List (List Sample)) : Except Fault (List ℚ) :=
  (worker.run init (bs.flatMap batchCalls)).map Prod.snd

theorem process_sample (w : SWorker) (x : Sample) :
    process w x.data = .ok { total := int32 (w.total + x.value), count := int32 (w.count + 1) } := by
  obtain ⟨id, data, value, reads⟩ := x
  cases data with
  | nil => simp at reads
  | cons s rest =>
    have hs : readInt s = some value := by simpa using reads
    simp only [process, hs]

/-- The samples of a batch, by induction on the list. -/
theorem run_samples (b : List Sample) (w : SWorker) :
    worker.run { count := int32 w.count, total := int32 w.total }
        (b.map fun x => .process x.id x.data) =
      .ok ({ count := int32 (w.count + b.length), total := int32 (w.total + sum b) }, []) := by
  induction b generalizing w with
  | nil => simp [sum]
  | cons x b ih =>
    have step : worker { count := int32 w.count, total := int32 w.total } (.process x.id x.data) =
        .ok ({ count := int32 (w.count + 1), total := int32 (w.total + x.value) }, []) := by
      simp only [worker, process_sample, int32_add_left]
      rfl
    have rest := ih { count := w.count + 1, total := w.total + x.value }
    rw [List.map_cons, ISinkWorker.run_cons step rest]
    simp [sum, add_assoc, add_comm, add_left_comm]

theorem accumulated_append (bs : List (List Sample)) (b : List Sample) :
    accumulated (bs ++ [b]) =
      { count := int32 (bs.flatten.length + b.length), total := int32 (sum bs.flatten + sum b) } := by
  simp [accumulated, sum]

def running (bs : List (List Sample)) : List ℚ :=
  (List.range bs.length).map fun k => average (accumulated (bs.take (k + 1)))

/-- One more batch is reported with the average of all so far. -/
theorem running_append (bs : List (List Sample)) (b : List Sample) :
    running (bs ++ [b]) = running bs ++ [average (accumulated (bs ++ [b]))] := by
  unfold running
  rw [List.length_append, List.length_singleton, List.range_succ, List.map_append,
    List.map_singleton, List.take_of_length_le (show (bs ++ [b]).length ≤ _ by simp)]
  congr 1
  apply List.map_congr_left
  intro k hk
  have := List.mem_range.mp hk
  rw [List.take_append_of_le_length (by omega)]

/-- **After each batch the worker reports the average of everything since it started.** -/
theorem run_batches (bs : List (List Sample)) :
    worker.run init (bs.flatMap batchCalls) = .ok (accumulated bs, running bs) := by
  induction bs using List.reverseRecOn with
  | nil => simp [accumulated, running, init, sum, int32_of_nonneg]
  | append_singleton bs b ih =>
    have hsamples := run_samples b { count := bs.flatten.length, total := sum bs.flatten }
    have hresults : worker.run (accumulated (bs ++ [b])) [.results] =
        .ok (accumulated (bs ++ [b]), [average (accumulated (bs ++ [b]))]) := rfl
    rw [accumulated_append] at hresults
    have hbatch : worker.run (accumulated bs) (batchCalls b) = _ :=
      ISinkWorker.run_append hsamples hresults
    rw [List.flatMap_append, List.flatMap_singleton, ISinkWorker.run_append ih hbatch,
      running_append, ← accumulated_append, List.nil_append]

theorem reported_eq (bs : List (List Sample)) : reported bs = .ok (running bs) := by
  rw [reported, run_batches]
  rfl

/-- The last batch is reported right if the average so far is its own. -/
theorem reported_append_iff (bs : List (List Sample)) (b : List Sample) :
    reported (bs ++ [b]) = .ok ((bs ++ [b]).map mean) ↔
      reported bs = .ok (bs.map mean) ∧ average (accumulated (bs ++ [b])) = mean b := by
  simp only [reported_eq, Except.ok.injEq, running_append, List.map_append, List.map_singleton]
  constructor
  · intro h
    obtain ⟨hbs, hb⟩ := List.append_inj h (by simp [running])
    exact ⟨hbs, List.singleton_inj.mp hb⟩
  · rintro ⟨hbs, hb⟩
    rw [hbs, hb]

/-! ## When the running average is each batch's own

The averages agree up to each batch exactly if all batches have the same mean, as long as the totals
fit into an `int`. -/

theorem length_pos_of_ne_nil {b : List Sample} (h : b ≠ []) : (0 : ℚ) < b.length := by
  exact_mod_cast List.length_pos_iff.mpr h

/-- Batches that agree on their average have it together too. -/
theorem sum_flatten_eq {bs : List (List Sample)} {a : ℚ} (hne : ∀ b ∈ bs, b ≠ [])
    (h : ∀ b ∈ bs, mean b = a) : (sum bs.flatten : ℚ) = a * bs.flatten.length := by
  induction bs with
  | nil => simp [sum]
  | cons b bs ih =>
    have hb : (sum b : ℚ) = a * b.length := by
      rw [← h b (List.mem_cons_self ..), mean,
        div_mul_cancel₀ _ (length_pos_of_ne_nil (hne b (List.mem_cons_self ..))).ne']
    have hbs := ih (fun x hx => hne x (List.mem_cons_of_mem _ hx))
      fun x hx => h x (List.mem_cons_of_mem _ hx)
    have hsum : sum (b :: bs).flatten = sum b + sum bs.flatten := by simp [sum]
    rw [hsum, List.flatten_cons, List.length_append]
    push_cast
    rw [hb, hbs]
    ring

/-- A running total that leaves the range of `int` never gives the new batch's average: the wrapped
total has the opposite sign. -/
theorem wrapped_total_iff {S s N n : Int} (hS : IsInt S) (hs : IsInt s) (hN : 0 < N) (hn : 0 < n) :
    int32 (S + s) * n = s * (N + n) ↔ IsInt (S + s) ∧ S * n = s * N := by
  constructor
  · intro h
    -- a total that wraps around changes its sign, and the average does too
    have hfit : IsInt (S + s) := by
      unfold IsInt at hS hs
      by_contra hout
      rcases lt_or_ge (S + s) 0 with hneg | hpos
      · have hwrap : 0 ≤ int32 (S + s) := by
          unfold IsInt at hout
          unfold int32
          omega
        have hs0 : s < 0 := by
          unfold IsInt at hout
          omega
        nlinarith [mul_nonneg hwrap hn.le, mul_pos_of_neg_of_neg hs0 (show -(N + n) < 0 by omega)]
      · have hwrap : int32 (S + s) < 0 := by
          unfold IsInt at hout
          unfold int32
          omega
        have hs0 : 0 < s := by
          unfold IsInt at hout
          omega
        nlinarith [mul_pos hs0 (show 0 < N + n by omega), mul_pos_of_neg_of_neg hwrap
          (show -n < 0 by omega)]
    refine ⟨hfit, ?_⟩
    rw [int32_of_isInt hfit] at h
    linarith [add_mul S s n, mul_add s N n]
  · rintro ⟨hfit, h⟩
    rw [int32_of_isInt hfit]
    linarith [add_mul S s n, mul_add s N n]

theorem mean_eq_iff {b : List Sample} {S N : Int} (hb : b ≠ []) (hN : 0 < N) :
    (S : ℚ) / N = mean b ↔ S * b.length = sum b * N := by
  have hN' : (N : ℚ) ≠ 0 := by exact_mod_cast hN.ne'
  rw [mean, div_eq_div_iff hN' (length_pos_of_ne_nil hb).ne']
  exact_mod_cast Iff.rfl

/-- The step of the induction: the report after one batch more is that batch's average exactly when
it is the average the batches had so far and the total still fits. -/
theorem average_append_iff {bs : List (List Sample)} {b : List Sample} {a : ℚ} (hbs : bs ≠ [])
    (hne : ∀ x ∈ bs, x ≠ []) (hmean : ∀ x ∈ bs, mean x = a) (hb : b ≠ [])
    (hS : IsInt (sum bs.flatten)) (hs : IsInt (sum b))
    (hcount : (bs ++ [b]).flatten.length ≤ 2147483647) :
    average (accumulated (bs ++ [b])) = mean b ↔
      IsInt (sum (bs ++ [b]).flatten) ∧ mean b = a := by
  have hn : 0 < (b.length : Int) := by exact_mod_cast List.length_pos_iff.mpr hb
  have hN : 0 < (bs.flatten.length : Int) := by
    obtain ⟨x, rest, rfl⟩ := List.exists_cons_of_ne_nil hbs
    have := List.length_pos_iff.mpr (hne x (List.mem_cons_self ..))
    rw [List.flatten_cons, List.length_append]
    omega
  have hlen : (bs.flatten.length : Int) + b.length ≤ 2147483647 := by
    rw [List.flatten_append, List.length_append, List.flatten_singleton] at hcount
    omega
  have hsum : sum (bs ++ [b]).flatten = sum bs.flatten + sum b := by simp [sum]
  -- so far the average is that of each batch
  have hold : (sum bs.flatten : ℚ) / (bs.flatten.length : Int) = a := by
    rw [sum_flatten_eq hne hmean]
    have : ((bs.flatten.length : Int) : ℚ) ≠ 0 := by exact_mod_cast hN.ne'
    field_simp
    push_cast
    ring
  rw [accumulated_append, average, int32_of_nonneg (by omega) hlen,
    mean_eq_iff hb (show 0 < (bs.flatten.length : Int) + b.length by omega),
    wrapped_total_iff hS hs hN hn, ← mean_eq_iff hb hN, hold, hsum]
  exact and_congr_right fun _ => eq_comm

/-- The running total fits an `int` after every batch. -/
def TotalsFit (bs : List (List Sample)) : Prop :=
  ∀ k ≤ bs.length, IsInt (sum (bs.take k).flatten)

instance (bs : List (List Sample)) : Decidable (TotalsFit bs) := by
  unfold TotalsFit
  infer_instance

theorem TotalsFit.all {bs : List (List Sample)} (h : TotalsFit bs) : IsInt (sum bs.flatten) := by
  have := h bs.length le_rfl
  rwa [List.take_length] at this

/-- The totals fit if they did before and the last one does. -/
theorem totalsFit_append (bs : List (List Sample)) (b : List Sample) :
    TotalsFit (bs ++ [b]) ↔ TotalsFit bs ∧ IsInt (sum (bs ++ [b]).flatten) := by
  constructor
  · intro h
    refine ⟨fun k hk => ?_, h.all⟩
    have := h k (by rw [List.length_append]; omega)
    rwa [List.take_append_of_le_length hk] at this
  · rintro ⟨hbs, hall⟩ k hk
    by_cases hle : k ≤ bs.length
    · rw [List.take_append_of_le_length hle]
      exact hbs k hle
    · rw [List.take_of_length_le (by rw [List.length_append, List.length_singleton]; omega)]
      exact hall

/-- **The averages are each batch's own exactly when all batches have the same average** (and the
running totals, which are never set back, still fit an `int`). -/
theorem reported_means_iff (bs : List (List Sample)) (hne : ∀ b ∈ bs, b ≠ [])
    (hsum : ∀ b ∈ bs, IsInt (sum b)) (hcount : bs.flatten.length ≤ 2147483647) :
    reported bs = .ok (bs.map mean) ↔
      (∀ b ∈ bs, ∀ b' ∈ bs, mean b = mean b') ∧ TotalsFit bs := by
  induction bs using List.reverseRecOn with
  | nil => simp [reported, Except.map, TotalsFit, sum, IsInt]
  | append_singleton bs b ih =>
    obtain ⟨hne, hb⟩ := List.forall_mem_append.mp hne
    obtain ⟨hsum, hsb⟩ := List.forall_mem_append.mp hsum
    have hb : b ≠ [] := hb b (List.mem_singleton_self b)
    have hsb : IsInt (sum b) := hsb b (List.mem_singleton_self b)
    have hcount' : bs.flatten.length ≤ 2147483647 := by
      rw [List.flatten_append, List.length_append] at hcount
      omega
    rw [reported_append_iff, ih hne hsum hcount']
    rw [totalsFit_append]
    cases bs with
    | nil =>
      -- the first batch: what has been accumulated is that batch
      have hn : (b.length : Int) ≤ 2147483647 := by simpa using hcount
      have hfirst : average (accumulated [b]) = mean b := by
        simp only [accumulated, average, mean, List.flatten_singleton]
        rw [int32_of_nonneg (by omega) hn, int32_of_isInt hsb]
        push_cast
        rfl
      simp [hfirst, hsb]
    | cons x rest =>
      constructor
      · rintro ⟨⟨hmean, hint⟩, havg⟩
        have hstep := (average_append_iff (a := mean x) (by simp) hne
          (fun y hy => hmean y hy x (List.mem_cons_self ..)) hb hint.all hsb
          hcount).mp havg
        refine ⟨fun y hy z hz => ?_, hint, hstep.1⟩
        have key : ∀ y ∈ x :: rest ++ [b], mean y = mean x := by
          intro y hy
          rcases List.mem_append.mp hy with hy | hy
          · exact hmean y hy x (List.mem_cons_self ..)
          · rw [List.mem_singleton.mp hy]
            exact hstep.2
        rw [key y hy, key z hz]
      · rintro ⟨hmean, hint, hlast⟩
        have hmean' : ∀ y ∈ x :: rest, ∀ z ∈ x :: rest, mean y = mean z := fun y hy z hz =>
          hmean y (List.mem_append_left _ hy) z (List.mem_append_left _ hz)
        refine ⟨⟨hmean', hint⟩, ?_⟩
        exact (average_append_iff (a := mean x) (by simp) hne
          (fun y hy => hmean' y hy x (List.mem_cons_self ..)) hb hint.all hsb
          hcount).mpr ⟨hlast, hmean b (by simp) x (by simp)⟩

def one : Sample := ⟨0, [['1']], 1, by decide⟩

def two : Sample := ⟨0, [['2']], 2, by decide⟩

def three : Sample := ⟨0, [['3']], 3, by decide⟩

theorem reported_means_same : reported [[one, three], [two]] = .ok ([[one, three], [two]].map mean) :=
  (reported_means_iff [[one, three], [two]] (by decide) (by decide) (by decide)).mpr
    ⟨by decide +kernel, by decide +kernel⟩

/-- Two batches of one number each: the second report is the average over both. -/
theorem reported_means_differ :
    reported [[one], [three]] = .ok [1, 2] ∧ [[one], [three]].map mean = [1, 3] := by
  rw [reported_eq]
  decide +kernel

end SinkAvg

end Skweltch
