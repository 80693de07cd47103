import Skweltch.Lib.Regex
import Skweltch.Msg

/-!
# Skweltch — the log of a build

`MakeAnalyser::analyse` (`build/MakeAnalyser.cpp`) reads the log of a make build line by line. That
something was built is noted on the line behind the first one that says so, so that the answer is
right for every log but those that end there (`analyse_verdict_iff`).
-/

namespace Skweltch

open Regex

structure BuildStatus where
  workDone : Bool
  success : Bool
deriving DecidableEq, Repr

namespace MakeAnalyser

inductive State where
  | start
  | building
  | installing
  | testing
  | finished
deriving DecidableEq, Repr

def reBuilding : List Item := lits " Built target "

def reInstalling : List Item := lits "Install the project" ++ [.any, .any, .any]

def reTesting : List Item := lits "Running tests" ++ [.any, .any, .any]

def reGood : List Item := lits "100% tests passed, 0 tests failed out of " ++ [.many]

def reBad : List Item :=
  [.many] ++ lits " tests passed, " ++ [.many] ++ lits " tests failed out of " ++ [.many]

def matchOne (l : Str) (re : List Item) (state next : State) : State × Bool :=
  if search re l then (next, true) else (state, false)

/-- The `switch` on the state, for one line. -/
def line (state : State) (status : BuildStatus) (l : Str) : State × BuildStatus :=
  match state with
  | .start => ((matchOne l reBuilding state .building).1, status)
  | .building => ((matchOne l reInstalling state .installing).1, { status with workDone := true })
  | .installing => ((matchOne l reTesting state .testing).1, status)
  | .testing =>
    match matchOne l reGood state .finished with
    | (state', true) => (state', { status with success := true })
    | (_, false) => ((matchOne l reBad state .finished).1, status)
  | .finished => (state, status)

/-- The loop over the lines, which ends with them or when the state is `FINISHED`. -/
def loop : State → BuildStatus → List Str → BuildStatus
  | _, status, [] => status
  | .finished, status, _ :: _ => status
  | state, status, l :: ls => loop (line state status l).1 (line state status l).2 ls

def analyse (log : List Str) : BuildStatus :=
  loop .start { workDone := false, success := false } log

/-! ## What is looked for

What it is for a log to have passed, said without the stages of the analyser. -/

/-- What is behind the first line with the pattern. -/
def behind (re : List Item) : List Str → Option (List Str)
  | [] => none
  | l :: ls => if search re l then some ls else behind re ls

/-- Some line says that a target was built. -/
def Built (log : List Str) : Prop := ∃ l ∈ log, " Built target ".toList <:+: l

def isSummary (l : Str) : Bool := search reGood l || search reBad l

/-- Behind the first target that was built is an installation, behind the first of these the tests
are run, and the first summary behind that is a good one. -/
def Passed (log : List Str) : Prop :=
  ∃ built installed tested l, behind reBuilding log = some built ∧
    behind reInstalling built = some installed ∧ behind reTesting installed = some tested ∧
      tested.find? isSummary = some l ∧ search reGood l = true

/-- A line with none of the five patterns. -/
def Other (l : Str) : Prop :=
  ∀ re ∈ [reBuilding, reInstalling, reTesting, reGood, reBad], search re l = false

/-- The answer is right, and does not depend on other lines. -/
structure Verdict (log : List Str) : Prop where
  workDone : (analyse log).workDone = true ↔ Built log
  success : (analyse log).success = true ↔ Passed log
  others : ∀ pre post extra, log = pre ++ post → (∀ l ∈ extra, Other l) →
    analyse (pre ++ extra ++ post) = analyse log

/-! ## The stages

Each stage waits for a line, so that the analyser looks for one line behind another. -/

/-- A stage that waits for a line passes over those before it. -/
theorem loop_stage {re : List Item} {state next : State} {status : BuildStatus}
    (hstate : state ≠ .finished)
    (hline : ∀ l, line state status l = ((matchOne l re state next).1, status)) (ls : List Str) :
    loop state status ls =
      match behind re ls with
      | none => status
      | some ls' => loop next status ls' := by
  induction ls with
  | nil =>
    rw [behind]
    cases state <;> rfl
  | cons l ls ih =>
    have hstep : loop state status (l :: ls) =
        loop (line state status l).1 (line state status l).2 ls := by
      cases state with
      | finished => exact absurd rfl hstate
      | _ => rfl
    rw [hstep, hline, behind, matchOne]
    by_cases hl : search re l = true
    · rw [if_pos hl, if_pos hl]
    · rw [if_neg hl, if_neg hl]
      exact ih

theorem loop_finished (status : BuildStatus) (ls : List Str) : loop .finished status ls = status := by
  cases ls <;> rfl

/-- While testing, the first summary decides. -/
theorem loop_testing (status : BuildStatus) (ls : List Str) :
    loop .testing status ls =
      match ls.find? isSummary with
      | none => status
      | some l => { status with success := status.success || search reGood l } := by
  induction ls with
  | nil => rfl
  | cons l ls ih =>
    have hstep : loop .testing status (l :: ls) =
        loop (line .testing status l).1 (line .testing status l).2 ls := rfl
    rw [hstep, line, List.find?_cons, isSummary]
    by_cases hgood : search reGood l = true
    · simp [matchOne, hgood, loop_finished]
    · by_cases hbad : search reBad l = true
      · simp [matchOne, hgood, hbad, loop_finished]
      · simp [matchOne, hgood, hbad, ih]

theorem loop_installing (status : BuildStatus) (ls : List Str) :
    loop .installing status ls =
      match behind reTesting ls with
      | none => status
      | some ls' => loop .testing status ls' :=
  loop_stage (by decide) (fun _ => rfl) ls

/-- The flag is set with the first line that is read while building. -/
theorem loop_building_cons (status : BuildStatus) (l : Str) (ls : List Str) :
    loop .building status (l :: ls) =
      match behind reInstalling (l :: ls) with
      | none => { status with workDone := true }
      | some ls' => loop .installing { status with workDone := true } ls' := by
  have hflag : loop .building status (l :: ls) =
      loop .building { status with workDone := true } (l :: ls) := rfl
  rw [hflag]
  exact loop_stage (by decide) (fun _ => rfl) (l :: ls)

theorem loop_start (status : BuildStatus) (ls : List Str) :
    loop .start status ls =
      match behind reBuilding ls with
      | none => status
      | some ls' => loop .building status ls' :=
  loop_stage (by decide) (fun _ => rfl) ls

/-- The line that decides. -/
def summary (log : List Str) : Option Str :=
  (behind reBuilding log).bind fun built =>
    (behind reInstalling built).bind fun installed =>
      (behind reTesting installed).bind fun tested => tested.find? isSummary

theorem passed_iff_summary {log : List Str} :
    Passed log ↔ ∃ l, summary log = some l ∧ search reGood l = true := by
  simp only [Passed, summary, Option.bind_eq_some_iff]
  constructor
  · rintro ⟨built, installed, tested, l, hbuilt, hinstalled, htested, hl, hgood⟩
    exact ⟨l, ⟨built, hbuilt, installed, hinstalled, tested, htested, hl⟩, hgood⟩
  · rintro ⟨l, ⟨built, hbuilt, installed, hinstalled, tested, htested, hl⟩, hgood⟩
    exact ⟨built, installed, tested, l, hbuilt, hinstalled, htested, hl, hgood⟩

/-- **The answer.** -/
theorem analyse_eq (log : List Str) :
    analyse log =
      { workDone := (behind reBuilding log).any (· ≠ [])
        success := (summary log).any (search reGood) } := by
  rw [analyse, loop_start, summary]
  cases hbuilt : behind reBuilding log with
  | none => rfl
  | some built =>
    cases built with
    | nil => rfl
    | cons l built =>
      simp only [Option.bind_some]
      rw [loop_building_cons]
      cases hinstalled : behind reInstalling (l :: built) with
      | none => rfl
      | some installed =>
        simp only [Option.bind_some, loop_installing]
        cases htested : behind reTesting installed with
        | none => rfl
        | some tested =>
          simp only [Option.bind_some, loop_testing]
          cases tested.find? isSummary with
          | none => rfl
          | some l => simp

/-! ## Lines in between

Lines with none of the patterns may stand anywhere, and change nothing. -/

theorem behind_eq_none {re : List Item} {log : List Str} (h : ∀ l ∈ log, search re l = false) :
    behind re log = none := by
  induction log with
  | nil => rfl
  | cons l log ih =>
    obtain ⟨hl, hlog⟩ := List.forall_mem_cons.mp h
    rw [behind, hl, ih hlog]
    rfl

/-- A line is looked for in the first part before the second. -/
theorem behind_append (re : List Item) (pre post : List Str) :
    behind re (pre ++ post) =
      match behind re pre with
      | none => behind re post
      | some rest => some (rest ++ post) := by
  induction pre with
  | nil => rfl
  | cons l pre ih =>
    rw [List.cons_append, behind, behind]
    by_cases hl : search re l = true
    · rw [if_pos hl, if_pos hl]
    · rw [if_neg hl, if_neg hl, ih]

/-- A log that has come to the build. -/
theorem behind_isSome_iff {log : List Str} :
    (behind reBuilding log).isSome = true ↔ Built log := by
  induction log with
  | nil => simp [behind, Built]
  | cons l log ih =>
    rw [behind]
    by_cases hl : search reBuilding l = true
    · rw [if_pos hl]
      exact iff_of_true rfl ⟨l, List.mem_cons_self, (search_lits_iff _ _).mp hl⟩
    · rw [if_neg hl, ih]
      simp only [Built, List.exists_mem_cons_iff, ← search_lits_iff]
      exact (or_iff_right hl).symm

/-- The second log is the first with other lines in one place. -/
def Padded (log log' : List Str) : Prop :=
  ∃ pre extra post, log = pre ++ post ∧ log' = pre ++ extra ++ post ∧ ∀ l ∈ extra, Other l

theorem Padded.ne_nil {log log' : List Str} (h : Padded log log') (hne : log ≠ []) : log' ≠ [] := by
  obtain ⟨pre, extra, post, rfl, rfl, -⟩ := h
  rintro hnil
  simp only [List.append_eq_nil_iff] at hnil
  simp [hnil.1.1, hnil.2] at hne

/-- Padding does not change whether a line is found, and what follows stays padded. -/
theorem Padded.behind {log log' : List Str} (h : Padded log log') (re : List Item)
    (hre : re ∈ [reBuilding, reInstalling, reTesting, reGood, reBad]) :
    (behind re log = none ∧ behind re log' = none) ∨
      ∃ rest rest', behind re log = some rest ∧ behind re log' = some rest' ∧
        Padded rest rest' := by
  obtain ⟨pre, extra, post, rfl, rfl, hextra⟩ := h
  have hnone : MakeAnalyser.behind re extra = none :=
    behind_eq_none fun l hl => hextra l hl re hre
  rw [List.append_assoc, behind_append, behind_append re pre (extra ++ post), behind_append, hnone]
  cases hpre : MakeAnalyser.behind re pre with
  | some rest =>
    refine Or.inr ⟨_, _, rfl, rfl, rest, extra, post, rfl, ?_, hextra⟩
    rw [List.append_assoc]
  | none =>
    cases hpost : MakeAnalyser.behind re post with
    | none => exact Or.inl ⟨rfl, rfl⟩
    | some rest => exact Or.inr ⟨rest, rest, rfl, rfl, [], [], rest, rfl, rfl, by simp⟩

/-- Padding does not change the first summary. -/
theorem Padded.find_eq {log log' : List Str} (h : Padded log log') :
    log'.find? isSummary = log.find? isSummary := by
  obtain ⟨pre, extra, post, rfl, rfl, hextra⟩ := h
  have hnone : extra.find? isSummary = none := by
    rw [List.find?_eq_none]
    intro l hl
    rw [isSummary, hextra l hl reGood (by simp), hextra l hl reBad (by simp)]
    exact Bool.false_ne_true
  rw [List.find?_append, List.find?_append, List.find?_append, hnone, Option.or_none]

/-- Padding does not change what the log says in the end. -/
theorem Padded.summary_eq {log log' : List Str} (h : Padded log log') :
    summary log' = summary log := by
  rw [summary, summary]
  rcases h.behind reBuilding (by simp) with
    ⟨hlog, hlog'⟩ | ⟨built, built', hlog, hlog', hbuilt⟩
  · rw [hlog, hlog']
  · rw [hlog, hlog', Option.bind_some, Option.bind_some]
    rcases hbuilt.behind reInstalling (by simp) with
      ⟨hlog, hlog'⟩ | ⟨installed, installed', hlog, hlog', hinstalled⟩
    · rw [hlog, hlog']
    · rw [hlog, hlog', Option.bind_some, Option.bind_some]
      rcases hinstalled.behind reTesting (by simp) with
        ⟨hlog, hlog'⟩ | ⟨tested, tested', hlog, hlog', htested⟩
      · rw [hlog, hlog']
      · rw [hlog, hlog', Option.bind_some, Option.bind_some, htested.find_eq]

/-- **Which logs are answered right.** Every log but one that ends with the first line that says
that a target was built. -/
theorem analyse_verdict_iff (log : List Str) : Verdict log ↔ behind reBuilding log ≠ some [] := by
  constructor
  · rintro ⟨hdone, -, -⟩ hend
    have hbuilt : Built log := by
      rw [← behind_isSome_iff, hend]
      rfl
    have := hdone.mpr hbuilt
    rw [analyse_eq, hend] at this
    cases this
  · intro hend
    refine ⟨?_, ?_, fun pre post extra hlog hextra => ?_⟩
    · rw [analyse_eq, ← behind_isSome_iff]
      cases hlog : behind reBuilding log with
      | none => simp
      | some rest =>
        have hne : rest ≠ [] := fun h => hend (h ▸ hlog)
        simp [hne]
    · rw [analyse_eq, passed_iff_summary]
      simp only [Option.any_eq_true]
    · have hpad : Padded log (pre ++ extra ++ post) := ⟨pre, extra, post, hlog, rfl, hextra⟩
      rw [analyse_eq, analyse_eq, hpad.summary_eq]
      rcases hpad.behind reBuilding (by simp) with
        ⟨hlog, hlog'⟩ | ⟨rest, rest', hlog, hlog', hrest⟩
      · rw [hlog, hlog']
      · have hne : rest ≠ [] := fun h => hend (h ▸ hlog)
        rw [hlog, hlog', Option.any_some, Option.any_some, decide_eq_true hne,
          decide_eq_true (hrest.ne_nil hne)]

/-- A build that installs nothing: its only target is built on the last line. -/
theorem lastTarget_not_verdict : ¬ Verdict ["[100%] Built target configLib".toList] := by
  rintro ⟨hdone, -, -⟩
  have hbuilt : Built ["[100%] Built target configLib".toList] :=
    ⟨_, List.mem_cons_self, by decide⟩
  have hno : (analyse ["[100%] Built target configLib".toList]).workDone = false := by decide
  rw [hdone.mpr hbuilt] at hno
  cases hno

end MakeAnalyser

end Skweltch
