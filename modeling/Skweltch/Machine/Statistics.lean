import Skweltch.Machine.MachineRunner
import Skweltch.Machine.Results

/-!
# Skweltch — the statistics of a run

`MachineRunner::runOne` (`machine/MachineRunner.cpp`) adds up its iterations and
`StreamResults::write` (`machine/Results.cpp`) makes a row of the sums. What an iteration comes to
is an `Outcome`; the row is compared with the statistics of the outcomes. The average is the one
that goes wrong: it is taken over the iterations that were planned.
-/

namespace Skweltch

open EventLoop FixedWidth Json JsonObject NumText

namespace MachineRunner

inductive Outcome where
  | success (elapsed : Int)
  | wrong
  | noResult
deriving DecidableEq, Repr

namespace Outcome

def elapsed? : Outcome → Option Int
  | .success elapsed => some elapsed
  | _ => none

def isFailure (o : Outcome) : Bool := o.elapsed?.isNone

end Outcome

variable (env : RunnerEnv)

/-- What the results make of an iteration; nothing if `runOne` is left with them. -/
def judged (success results : Json) : Option Outcome :=
  if results.isNull then some .noResult
  else
    match check env.text success results with
    | .error _ => none
    | .ok true => some .wrong
    | .ok false =>
      match getInt results "elapsed".toList (-1) with
      | .error _ => none
      | .ok elapsed => some (.success elapsed)

/-- What an iteration comes to; nothing if the loop is left before it counts. -/
def outcome (r success : Json) (e : Iteration) : Option Outcome :=
  if e.stop then none
  else
    match (TaskMonitor.doVent (monitor env e.run) r).2 with
    | .returned true =>
      if e.interrupted then none
      else
        match e.reply.unpack with
        | none => none
        | some text => judged env success (readResults text)
    | _ => none

/-- The outcomes in order, up to where the loop is left. -/
def outcomes (r success : Json) : List Iteration → List Outcome
  | [] => []
  | e :: es =>
    match outcome env r success e with
    | none => []
    | some o =>
      o :: if o.isFailure = true ∧ env.failonerror = true then [] else outcomes r success es

/-- The times of the successful iterations. -/
def times (os : List Outcome) : List Int := os.filterMap Outcome.elapsed?

def failures (os : List Outcome) : Nat := os.countP Outcome.isFailure

/-- **The statistics of the successful iterations.** -/
structure Statistics (os : List Outcome) (row : Row) : Prop where
  low : IsLeast {e | e ∈ times os} row.low
  high : IsGreatest {e | e ∈ times os} row.high
  fail : row.fail = failures os
  avg : row.avg = ((times os).sum : ℚ) / (times os).length

/-! ## The tally

Five variables stand for the outcomes so far. The invariant says what each of them is: counts and
sums as `int`s, and the least and the greatest time once there is one. -/

/-- What the local variables of the loop hold behind these outcomes. -/
structure Tallied (os : List Outcome) (t : Tally) : Prop where
  fail : t.fail = int32 (failures os)
  sum : t.sum = int32 (times os).sum
  low : if times os = [] then t.low = -1 else IsLeast {e | e ∈ times os} t.low
  high : if times os = [] then t.high = -1 else IsGreatest {e | e ∈ times os} t.high

theorem tallied_init : Tallied [] init where
  fail := by decide +kernel
  sum := by decide +kernel
  low := rfl
  high := rfl

theorem times_append (os os' : List Outcome) : times (os ++ os') = times os ++ times os' :=
  List.filterMap_append

theorem times_success (os : List Outcome) (elapsed : Int) :
    times (os ++ [.success elapsed]) = times os ++ [elapsed] := times_append os _

theorem times_failure (os : List Outcome) {o : Outcome} (ho : o.isFailure = true) :
    times (os ++ [o]) = times os := by
  have ho : o.elapsed? = none := Option.isNone_iff_eq_none.mp ho
  rw [times_append]
  simp [times, ho]

/-- `-1` is below every time, so that the first one replaces it. -/
theorem tallied_passed {os : List Outcome} {t : Tally} (h : Tallied os t)
    (hpos : ∀ e ∈ times os, 0 ≤ e) (elapsed : Int) :
    Tallied (os ++ [.success elapsed]) (passed t elapsed) := by
  obtain ⟨hfail, hsum, hlow, hhigh⟩ := h
  have hne : times (os ++ [.success elapsed]) ≠ [] := by
    rw [times_success]
    exact List.append_ne_nil_of_right_ne_nil _ (List.cons_ne_nil _ _)
  -- least and greatest are those of the times with one more
  have hset : {e | e ∈ times (os ++ [.success elapsed])} = insert elapsed {e | e ∈ times os} := by
    rw [times_success]
    ext e
    simp [or_comm]
  constructor
  · have hfailures : failures (os ++ [.success elapsed]) = failures os := by
      simp [failures, Outcome.isFailure, Outcome.elapsed?]
    rw [hfailures]
    exact hfail
  · have hadd : (times (os ++ [.success elapsed])).sum = (times os).sum + elapsed := by
      rw [times_success, List.sum_append, List.sum_singleton]
    rw [hadd, passed, hsum]
    exact int32_add_left _ _
  · rw [if_neg hne, hset]
    by_cases hnil : times os = []
    · rw [if_pos hnil] at hlow
      have hfirst : (passed t elapsed).low = elapsed := if_pos (Or.inl (by omega))
      rw [hfirst, hnil]
      simp
    · rw [if_neg hnil] at hlow
      have hleast := hlow.insert elapsed
      have hlow0 : 0 ≤ t.low := hpos _ hlow.1
      -- below 0 `low` would count as not set, which no time is
      have hmin : (passed t elapsed).low = min elapsed t.low := by
        simp only [passed]
        split_ifs with hlt
        · omega
        · omega
      rwa [hmin]
  · rw [if_neg hne, hset]
    by_cases hnil : times os = []
    · rw [if_pos hnil] at hhigh
      have hfirst : (passed t elapsed).high = elapsed := if_pos (Or.inl (by omega))
      rw [hfirst, hnil]
      simp
    · rw [if_neg hnil] at hhigh
      have hgreatest := hhigh.insert elapsed
      have hhigh0 : 0 ≤ t.high := hpos _ hhigh.1
      have hmax : (passed t elapsed).high = max elapsed t.high := by
        simp only [passed]
        split_ifs with hlt
        · omega
        · omega
      rwa [hmax]

/-- What a failure does to the tally. -/
theorem tallied_failed {os : List Outcome} {t : Tally} (h : Tallied os t) {o : Outcome}
    (ho : o.isFailure = true) : Tallied (os ++ [o]) { t with fail := int32 (t.fail + 1) } := by
  obtain ⟨hfail, hsum, hlow, hhigh⟩ := h
  have hfailures : (failures (os ++ [o]) : Int) = failures os + 1 := by
    simp [failures, List.countP_append, ho]
  refine ⟨?_, ?_, ?_, ?_⟩
  · rw [hfailures, hfail]
    exact int32_add_left _ _
  · rw [times_failure os ho]
    exact hsum
  · rw [times_failure os ho]
    exact hlow
  · rw [times_failure os ho]
    exact hhigh

/-! ## The loop

An iteration adds its outcome to the tally or ends the loop. So the tally at the end is that of the
outcomes that the loop came to. -/

/-- How an iteration ends the loop or goes on. -/
theorem body_cases (r success : Json) (t : Tally) (e : Iteration) :
    (outcome env r success e = none ∧ ((body env r success t e).2 = .exit (.broke t) ∨
      ∃ x, (body env r success t e).2 = .exit (.left x))) ∨
    (∃ elapsed, outcome env r success e = some (.success elapsed) ∧
      (body env r success t e).2 = .next (passed t elapsed)) ∨
    ∃ o, outcome env r success e = some o ∧ o.isFailure = true ∧
      (body env r success t e).2 = failed env t := by
  -- whatever escapes leaves the loop
  have hescape : ∀ f, ∃ x, (Flow.exit (escape f) : Flow Tally LoopExit) = .exit (.left x) := by
    intro f
    cases f with
    | undefined => exact ⟨_, rfl⟩
    | _ => exact ⟨_, rfl⟩
  obtain ⟨stop, run, reply, interrupted⟩ := e
  cases stop with
  | true => exact Or.inl ⟨rfl, Or.inl rfl⟩
  | false =>
    simp only [outcome, body, iterate, Bool.false_eq_true, if_false]
    cases (TaskMonitor.doVent (monitor env run) r).2 with
    | escaped f => exact Or.inl ⟨rfl, Or.inr (hescape f)⟩
    | returned b =>
      cases b with
      | false => exact Or.inl ⟨rfl, Or.inr ⟨_, rfl⟩⟩
      | true =>
        simp only
        cases interrupted with
        | true => exact Or.inl ⟨rfl, Or.inl rfl⟩
        | false =>
          simp only [Bool.false_eq_true, if_false]
          -- a message that cannot be unpacked throws
          cases reply.unpack with
          | none => exact Or.inl ⟨rfl, Or.inr ⟨_, rfl⟩⟩
          | some text =>
            simp only [evaluate, judged]
            cases (readResults text).isNull with
            | true => exact Or.inr (Or.inr ⟨.noResult, rfl, rfl, rfl⟩)
            | false =>
              simp only [Bool.false_eq_true, if_false]
              cases check env.text success (readResults text) with
              | error f => exact Or.inl ⟨rfl, Or.inr (hescape f)⟩
              | ok bad =>
                cases bad with
                | true => exact Or.inr (Or.inr ⟨.wrong, rfl, rfl, rfl⟩)
                | false =>
                  simp only
                  cases getInt (readResults text) "elapsed".toList (-1) with
                  | error f => exact Or.inl ⟨rfl, Or.inr (hescape f)⟩
                  | ok elapsed => exact Or.inr (Or.inl ⟨elapsed, rfl, rfl⟩)

/-- Where the loop leaves its local variables to what is behind it. -/
def Ends (flow : Flow Tally LoopExit) (t : Tally) : Prop :=
  flow = .next t ∨ flow = .exit (.broke t)

/-- The outcomes begin with that of the first iteration, unless it ends the loop. -/
theorem times_outcomes_cons {r success : Json} {e : Iteration} {o : Outcome}
    (ho : outcome env r success e = some o)
    (hgo : ¬ (o.isFailure = true ∧ env.failonerror = true)) (es : List Iteration) :
    outcomes env r success (e :: es) = o :: outcomes env r success es := by
  rw [outcomes, ho]
  simp only [if_neg hgo]

/-- **The loop tallies the outcomes**, wherever it is left. -/
theorem run_tallied {r success : Json} {before : List Outcome} {t t' : Tally}
    {es : List Iteration} (h : Tallied before t)
    (hpos : ∀ e ∈ times (before ++ outcomes env r success es), 0 ≤ e)
    (hrun : Ends (run (body env r success) t es).2 t') :
    Tallied (before ++ outcomes env r success es) t' := by
  induction es generalizing before t with
  | nil =>
    rcases hrun with hrun | hrun
    · obtain rfl := Flow.next.inj hrun
      rw [outcomes, List.append_nil]
      exact h
    · cases hrun
  | cons e es ih =>
    rcases hbody : body env r success t e with ⟨out, flow⟩
    -- what an iteration can do: not count, end the run, succeed or fail
    rcases body_cases env r success t e with
      ⟨hnone, hflow | ⟨x, hflow⟩⟩ | ⟨elapsed, ho, hflow⟩ | ⟨o, ho, hbad, hflow⟩
    all_goals rw [hbody] at hflow; simp only at hflow; subst hflow
    · -- stopped: this iteration does not count
      rw [run_cons_exit hbody] at hrun
      rcases hrun with hrun | hrun
      · cases hrun
      · obtain rfl := LoopExit.broke.inj (Flow.exit.inj hrun)
        rw [outcomes, hnone, List.append_nil]
        exact h
    · rw [run_cons_exit hbody] at hrun
      rcases hrun with hrun | hrun
      · cases hrun
      · cases Flow.exit.inj hrun
    · rw [run_cons_next hbody] at hrun
      rw [times_outcomes_cons env ho (by simp [Outcome.isFailure, Outcome.elapsed?]),
        List.append_cons] at hpos ⊢
      -- the times so far are among those of the whole run
      have hbefore : ∀ e ∈ times before, 0 ≤ e := by
        intro e he
        apply hpos
        rw [List.append_assoc, times_append]
        exact List.mem_append_left _ he
      exact ih (tallied_passed h hbefore elapsed) hpos hrun
    · by_cases herror : env.failonerror = true
      · -- the first failure ends the loop, and counts
        have hfailed : failed env t = .exit (.broke { t with fail := int32 (t.fail + 1) }) :=
          if_pos herror
        rw [hfailed] at hbody
        rw [run_cons_exit hbody] at hrun
        rcases hrun with hrun | hrun
        · cases hrun
        · obtain rfl := LoopExit.broke.inj (Flow.exit.inj hrun)
          have hos : outcomes env r success (e :: es) = [o] := by
            rw [outcomes, ho]
            simp only [if_pos (show o.isFailure = true ∧ _ from ⟨hbad, herror⟩)]
          rw [hos]
          exact tallied_failed h hbad
      · have hfailed : failed env t = .next { t with fail := int32 (t.fail + 1) } :=
          if_neg herror
        rw [hfailed] at hbody
        rw [run_cons_next hbody] at hrun
        rw [times_outcomes_cons env ho fun hand => herror hand.2, List.append_cons] at hpos ⊢
        exact ih (tallied_failed h hbad) hpos hrun

/-! ## The row

The row is written once, behind the loop, from the tally. -/

/-- The iterations that were planned. -/
def planned (iterations : Int) (es : Nat → Iteration) : List Iteration :=
  (List.range iterations.toNat).map es

/-- There are no more outcomes than iterations. -/
theorem outcomes_length_le (r success : Json) (es : List Iteration) :
    (outcomes env r success es).length ≤ es.length := by
  induction es with
  | nil => exact le_rfl
  | cons e es ih =>
    rw [outcomes]
    cases outcome env r success e with
    | none => exact Nat.zero_le _
    | some o =>
      simp only [List.length_cons]
      split_ifs
      · simp
      · omega

/-- Nothing is written while the machine runs. -/
theorem write_not_mem_body (r success : Json) (t : Tally) (e : Iteration) :
    ∀ a ∈ (body env r success t e).1, ∀ n low high fail sum, a ≠ .write n low high fail sum := by
  have hvented : ∀ (tasks : List Task) a,
      a ∈ [RunnerAct.doVent tasks, .waitFinish (tasks.map Task.pid)] →
      ∀ n low high fail sum, a ≠ .write n low high fail sum := by
    intro tasks a ha n low high fail sum heq
    rcases List.mem_cons.mp ha with rfl | ha
    · cases heq
    · rw [List.mem_singleton.mp ha] at heq
      cases heq
  intro a ha
  obtain ⟨stop, run, reply, interrupted⟩ := e
  cases stop with
  | true => cases ha
  | false =>
    simp only [body, iterate, Bool.false_eq_true, if_false] at ha
    split at ha
    · exact hvented _ a (List.mem_cons.mpr (Or.inl (List.mem_singleton.mp ha)))
    · exact hvented _ a (List.mem_cons.mpr (Or.inl (List.mem_singleton.mp ha)))
    · split_ifs at ha
      · exact hvented _ a ha
      · split at ha
        · exact hvented _ a ha
        · exact hvented _ a ha

variable {env}

/-- A row is written from the local variables that the loop leaves. -/
theorem ends_of_write {r success : Json} {bound killSent : Bool} {startRun : Nat → Nat}
    {iterations : Int} {es : Nat → Iteration} {n low high fail sum : Int}
    (h : RunnerAct.write n low high fail sum ∈
      (runOne env (.parsed r) bound startRun success killSent iterations es).1) :
    ∃ t, Ends (run (body env r success) init (planned iterations es)).2 t ∧
      (n, low, high, fail, sum) = (iterations, t.low, t.high, t.fail, t.sum) := by
  -- the row is written by `finish` only, neither in the loop nor before it
  have hloop : ∀ out, out ∈ (run (body env r success) init (planned iterations es)).1.flatten →
      out ≠ RunnerAct.write n low high fail sum := fun out hout =>
    forall_mem_run (P := fun a => ∀ n low high fail sum, a ≠ .write n low high fail sum)
      (write_not_mem_body env r success) init _ out hout n low high fail sum
  have hfinish : ∀ pids t, RunnerAct.write n low high fail sum ∈
      (finish killSent iterations pids t).1 →
      (n, low, high, fail, sum) = (iterations, t.low, t.high, t.fail, t.sum) := by
    intro pids t hmem
    unfold finish at hmem
    split_ifs at hmem
    · simpa using hmem
    · cases hmem
  have hstarted : ∀ pids, RunnerAct.write n low high fail sum ∈
      (runStarted env r success killSent iterations es pids).1 →
      ∃ t, Ends (run (body env r success) init (planned iterations es)).2 t ∧
        (n, low, high, fail, sum) = (iterations, t.low, t.high, t.fail, t.sum) := by
    intro pids hmem
    unfold runStarted at hmem
    simp only at hmem
    rw [← planned] at hmem
    split at hmem
    · next t hflow =>
      rcases List.mem_append.mp hmem with hmem | hmem
      · exact absurd rfl (hloop _ hmem)
      · exact ⟨t, Or.inl hflow, hfinish pids t hmem⟩
    · next t hflow =>
      rcases List.mem_append.mp hmem with hmem | hmem
      · exact absurd rfl (hloop _ hmem)
      · exact ⟨t, Or.inr hflow, hfinish pids t hmem⟩
    · exact absurd rfl (hloop _ hmem)
  -- a run that does not get as far as the loop writes none
  have hstart : ∀ tasks : List Task,
      RunnerAct.write n low high fail sum ∉ [RunnerAct.start tasks] := by
    intro tasks hmem
    cases List.mem_singleton.mp hmem
  simp only [runOne] at h
  split_ifs at h
  · split at h
    · rcases List.mem_cons.mp h with h | h
      · cases h
      · exact hstarted _ h
    · exact absurd h (hstart _)
    · exact absurd h (hstart _)
    · exact absurd h (hstart _)
  · cases h

/-- The average over the planned iterations is that over the successful ones if all of them were
successful, or all took no time, and the sum has not wrapped around. -/
theorem average_eq_iff {sum n : Int} {k : Nat} (hsum : 0 ≤ sum) (hk : 0 < k) (hkn : (k : Int) ≤ n) :
    ((int32 sum : Int) : ℚ) / n = (sum : ℚ) / k ↔ (k = n ∨ sum = 0) ∧ sum ≤ 2147483647 := by
  have hk0 : (0 : ℚ) < k := by exact_mod_cast hk
  have hn0 : (0 : ℚ) < n := by exact_mod_cast (show (0 : Int) < n by omega)
  rw [div_eq_div_iff hn0.ne' hk0.ne']
  by_cases hfits : sum ≤ 2147483647
  · rw [int32_of_nonneg hsum hfits, and_iff_left hfits]
    constructor
    · intro h
      rcases eq_or_ne sum 0 with h0 | h0
      · exact Or.inr h0
      · have hne : (sum : ℚ) ≠ 0 := by exact_mod_cast h0
        exact Or.inl (by exact_mod_cast mul_left_cancel₀ hne h)
    · rintro (h | h)
      · rw [← h]
        push_cast
        ring
      · rw [h]
        simp
  · -- a sum that has wrapped around is smaller than the sum, and divided by more
    refine iff_of_false (fun h => ?_) fun h => hfits h.2
    have hlt : int32 sum < sum := by
      have := (isInt_int32 sum).2
      omega
    have h : int32 sum * (k : Int) = sum * n := by exact_mod_cast h
    have hle : sum * (k : Int) ≤ sum * n := mul_le_mul_of_nonneg_left hkn hsum
    have hlt : int32 sum * (k : Int) < sum * k :=
      mul_lt_mul_of_pos_right hlt (by exact_mod_cast hk)
    omega

/-- A row of what a tally holds is right about everything but the average. -/
theorem statistics_of_tallied {os : List Outcome} {t : Tally} (h : Tallied os t) {iterations : Int}
    (hint : IsInt iterations) (hlength : os.length ≤ iterations.toNat) (hsome : times os ≠ [])
    (hpos : ∀ e ∈ times os, 0 ≤ e) (group iter : Int) (vars : Str) :
    Statistics os (StreamResults.row group iter vars iterations t.low t.high t.fail t.sum) ↔
      ((times os).length = iterations ∨ (times os).sum = 0) ∧ (times os).sum ≤ 2147483647 := by
  obtain ⟨hfail, hsum, hlow, hhigh⟩ := h
  rw [if_neg hsome] at hlow hhigh
  have hk : 0 < (times os).length := List.length_pos_iff.mpr hsome
  have hle : (times os).length ≤ os.length := List.length_filterMap_le _ _
  have hkn : ((times os).length : Int) ≤ iterations := by omega
  have hfailures : failures os ≤ os.length := List.countP_le_length
  have hfits : int32 (failures os) = failures os := by
    have := hint.2
    exact int32_of_nonneg (by omega) (by omega)
  have hsum0 : 0 ≤ (times os).sum := List.sum_nonneg hpos
  rw [← average_eq_iff hsum0 hk hkn, ← hsum]
  exact ⟨fun hstat => hstat.avg, fun havg => ⟨hlow, hhigh, hfail.trans hfits, havg⟩⟩

/-- **The row of a run** holds the statistics of the successful iterations exactly if all the
iterations that were planned succeeded, or took no time, and the times add up within an `int`. -/
theorem runOne_statistics_iff (r success : Json) (bound killSent : Bool) (startRun : Nat → Nat)
    {iterations : Int} (hint : IsInt iterations) (es : Nat → Iteration) {n low high fail sum : Int}
    (hwrite : RunnerAct.write n low high fail sum ∈
      (runOne env (.parsed r) bound startRun success killSent iterations es).1)
    (hsome : times (outcomes env r success (planned iterations es)) ≠ [])
    (hpos : ∀ e ∈ times (outcomes env r success (planned iterations es)), 0 ≤ e)
    (group iter : Int) (vars : Str) :
    Statistics (outcomes env r success (planned iterations es))
        (StreamResults.row group iter vars n low high fail sum) ↔
      ((times (outcomes env r success (planned iterations es))).length = iterations ∨
          (times (outcomes env r success (planned iterations es))).sum = 0) ∧
        (times (outcomes env r success (planned iterations es))).sum ≤ 2147483647 := by
  obtain ⟨t, hends, hrow⟩ := ends_of_write hwrite
  simp only [Prod.mk.injEq] at hrow
  obtain ⟨hn, hlow, hhigh, hfail, hsum⟩ := hrow
  rw [hn, hlow, hhigh, hfail, hsum]
  have htallied := run_tallied env tallied_init (by rwa [List.nil_append]) hends
  rw [List.nil_append] at htallied
  have hlength := outcomes_length_le env r success (planned iterations es)
  have hplanned : (planned iterations es).length = iterations.toNat := by simp [planned]
  rw [hplanned] at hlength
  exact statistics_of_tallied htallied hint hlength hsome hpos group iter vars

/-! ## A machine of a vent alone

A run of two iterations that take ten and eleven. -/

def loneVent : Json :=
  .obj [("name".toList, .str "v".toList), ("exe".toList, .str "x".toList),
    ("connections".toList, .obj [])]

def ventOnly : Json := .obj [("vent".toList, .str "v".toList), ("blocks".toList, .arr [loneVent])]

def sampleRunner : RunnerEnv :=
  { real := fun _ => [], text := fun _ => [], control := 7000, failonerror := false }

def vented (reply : ReadJson) : Iteration :=
  { stop := false, run := fun _ => 1, reply := .ok reply, interrupted := false }

/-- The vent of the machine is started. -/
theorem ventOnly_vents :
    (TaskMonitor.doVent (monitor sampleRunner fun _ => 1) ventOnly).2 = .returned true := by
  have hcollect : PipeBuilder.collect ventOnly loneVent 7000 =
      .ok (PipeBuilder.withControl .null 7000) :=
    PipeBuilder.collect_unconnected ventOnly rfl 7000
  have hcmd : ∃ cmd, TaskMonitor.oneCommand (monitor sampleRunner fun _ => 1) ventOnly loneVent =
      .ok cmd := by
    have hcontrol : (monitor sampleRunner fun _ => 1).control = 7000 := rfl
    rw [TaskMonitor.oneCommand, hcontrol, hcollect]
    exact ⟨_, rfl⟩
  obtain ⟨cmd, hcmd⟩ := hcmd
  have hone : TaskMonitor.doVent (monitor sampleRunner fun _ => 1) ventOnly =
      TaskMonitor.runOne (monitor sampleRunner fun _ => 1) ventOnly loneVent := rfl
  rw [hone, TaskMonitor.runOne, hcmd]
  rfl

theorem outcome_vented (reply : ReadJson) :
    outcome sampleRunner ventOnly .null (vented reply) =
      judged sampleRunner .null (readResults reply) := by
  have hvent : (TaskMonitor.doVent (monitor sampleRunner (vented reply).run) ventOnly).2 =
      .returned true := ventOnly_vents
  rw [outcome, hvent]
  rfl

/-- With the vent started, the results decide what an iteration comes to. -/
theorem body_vented (t : Tally) (reply : ReadJson) :
    ∃ out, body sampleRunner ventOnly .null t (vented reply) =
      (out, evaluate sampleRunner .null t (readResults reply)) := by
  have hvent : (TaskMonitor.doVent (monitor sampleRunner (vented reply).run) ventOnly).2 =
      .returned true := ventOnly_vents
  have hbody : body sampleRunner ventOnly .null t (vented reply) =
      iterate sampleRunner ventOnly .null t (vented reply) := rfl
  rw [hbody, iterate, hvent]
  exact ⟨_, rfl⟩

/-- Two iterations, and the row of what they come to. -/
theorem write_mem_runOne (first second : ReadJson) {t t' : Tally}
    (h : evaluate sampleRunner .null init (readResults first) = .next t)
    (h' : evaluate sampleRunner .null t (readResults second) = .next t') :
    RunnerAct.write 2 t'.low t'.high t'.fail t'.sum ∈
      (runOne sampleRunner (.parsed ventOnly) true (fun _ => 1) .null true 2
        fun i => vented (if i = 0 then first else second)).1 := by
  obtain ⟨out, hbody⟩ := body_vented init first
  obtain ⟨out', hbody'⟩ := body_vented t second
  rw [h] at hbody
  rw [h'] at hbody'
  have hrun : run (body sampleRunner ventOnly .null) init
      (planned 2 fun i => vented (if i = 0 then first else second)) =
        ([out, out'], .next t') := by
    have hplanned : planned 2 (fun i => vented (if i = 0 then first else second)) =
        [vented first, vented second] := rfl
    rw [hplanned, run_cons_next hbody, run_singleton hbody']
  have hstart : TaskMonitor.start (monitor sampleRunner fun _ => 1) ventOnly =
      ([], .returned true) := rfl
  simp only [runOne, if_true, hstart]
  refine List.mem_cons_of_mem _ ?_
  simp only [runStarted]
  rw [← planned, hrun]
  exact List.mem_append_right _ (List.mem_cons_of_mem _
    (List.mem_cons_of_mem _ (List.mem_singleton_self _)))

def elapsed (n : Int) : ReadJson := .parsed (.obj [("elapsed".toList, .int n)])

theorem sample_first :
    evaluate sampleRunner .null init (readResults (elapsed 10)) = .next ⟨0, 10, 10, 10⟩ := by
  decide +kernel

theorem sample_second : evaluate sampleRunner .null ⟨0, 10, 10, 10⟩ (readResults (elapsed 11)) =
    .next ⟨0, 10, 11, 21⟩ := by
  decide +kernel

theorem sample_none : evaluate sampleRunner .null ⟨0, 10, 10, 10⟩ (readResults (.failed .null)) =
    .next ⟨1, 10, 10, 10⟩ := by
  decide +kernel

/-- Both iterations take their time, and the row is right. -/
theorem answered_statistics :
    Statistics (outcomes sampleRunner ventOnly .null
        (planned 2 fun i => vented (if i = 0 then elapsed 10 else elapsed 11)))
      (StreamResults.row 1 0 [] 2 10 11 0 21) := by
  have htimes : times (outcomes sampleRunner ventOnly .null
      (planned 2 fun i => vented (if i = 0 then elapsed 10 else elapsed 11))) = [10, 11] := by
    have hplanned : planned 2 (fun i => vented (if i = 0 then elapsed 10 else elapsed 11)) =
        [vented (elapsed 10), vented (elapsed 11)] := rfl
    rw [hplanned, outcomes, outcome_vented, outcomes, outcome_vented]
    decide +kernel
  refine (runOne_statistics_iff ventOnly .null true true (fun _ => 1) (by decide) _
    (write_mem_runOne (elapsed 10) (elapsed 11) sample_first sample_second) ?_ ?_ 1 0 []).mpr ?_
  · rw [htimes]
    decide
  · rw [htimes]
    decide
  · rw [htimes]
    decide

/-- One success in ten, one iteration without results: the average is said to be five. -/
theorem half_answered_average :
    RunnerAct.write 2 10 10 1 10 ∈
        (runOne sampleRunner (.parsed ventOnly) true (fun _ => 1) .null true 2
          fun i => vented (if i = 0 then elapsed 10 else .failed .null)).1 ∧
      ¬ Statistics (outcomes sampleRunner ventOnly .null
          (planned 2 fun i => vented (if i = 0 then elapsed 10 else .failed .null)))
        (StreamResults.row 1 0 [] 2 10 10 1 10) := by
  refine ⟨write_mem_runOne (elapsed 10) (.failed .null) sample_first sample_none, fun hstat => ?_⟩
  have havg := hstat.avg
  have htimes : times (outcomes sampleRunner ventOnly .null
      (planned 2 fun i => vented (if i = 0 then elapsed 10 else .failed .null))) = [10] := by
    have hplanned : planned 2 (fun i => vented (if i = 0 then elapsed 10 else .failed .null)) =
        [vented (elapsed 10), vented (.failed .null)] := rfl
    rw [hplanned, outcomes, outcome_vented, outcomes, outcome_vented]
    decide +kernel
  rw [htimes] at havg
  revert havg
  decide +kernel

end MachineRunner

end Skweltch
