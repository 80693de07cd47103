import Skweltch.Config.JsonReader
import Skweltch.Lib.EventLoop

/-!
# Skweltch — loading a machine

`loadHandler` (`ui/rest/loadHandler.cpp`) has the context (`ui/RestContext.cpp`) read a machine
file in the place of the machine that is loaded. The flag that `load` returns stays up once it is
up, so that a file that cannot be read is answered like one that can as soon as another was read
before. A run of requests keeps what was loaded exactly if every file that cannot be read comes
before the first that can, and has nothing in it that begins a value (`loads_atomic_iff`).
-/

namespace Skweltch

open EventLoop JsonGrammar

structure RestContext where
  loaded : Bool
  root : Json

namespace RestContext

def new : RestContext := { loaded := false, root := .null }

/-- `RestContext::load`, for what the stream reads from the file. -/
def load (L : Scanner) (c : RestContext) (text : Str) : Bool × RestContext :=
  let loaded := (JsonObject.read L text c.root).2 || c.loaded
  (loaded, { loaded := loaded, root := (JsonObject.read L text c.root).1 })

/-- `makeHeaders` -/
def makeHeaders (size : Nat) (mimetype : Str) : List (Str × Str) :=
  [("Content-Length".toList, NumText.decText size), ("Content-Type".toList, mimetype)]

end RestContext

/-- A request: its arguments, and what the files hold when it comes. -/
structure LoadRequest where
  args : Str
  files : Str → Option Str

inductive LoadReply where
  | badRequest
  | ok (headers : List (Str × Str)) (content : Str)
deriving DecidableEq, Repr

namespace Load

/-- The file that the first argument names. -/
def fileOf (args : Str) : Option Str :=
  match ((args.splitOn '&').headD []).splitOn '=' with
  | [name, fn] => if name = "file".toList then some fn else none
  | _ => none

/-- What is read for a request, if anything is: a file that cannot be opened has no characters. -/
def textOf (r : LoadRequest) : Option Str := (fileOf r.args).map fun fn => (r.files fn).getD []

/-- `loadHandler` -/
def loadHandler (L : Scanner) (c : RestContext) (r : LoadRequest) : LoadReply × RestContext :=
  match fileOf r.args with
  | none => (.badRequest, c)
  | some fn =>
    let (ok, c') := c.load L ((r.files fn).getD [])
    (if ok then .ok (RestContext.makeHeaders fn.length "text/text".toList) fn else .badRequest, c')

/-- The server answers one request after the other. -/
def body (L : Scanner) : Body RestContext LoadRequest LoadReply Empty := fun c r =>
  ([(loadHandler L c r).1], .next (loadHandler L c r).2)

variable {L : Scanner}

/-- What a load request leaves behind is what loading its file does. -/
theorem loadHandler_context (L : Scanner) (c : RestContext) (r : LoadRequest) :
    (loadHandler L c r).2 = ((textOf r).map fun text => (c.load L text).2).getD c := by
  unfold loadHandler textOf
  cases fileOf r.args with
  | none => rfl
  | some fn => rfl

/-- What a load is to do: it says whether the file was read, and changes nothing if it was not. -/
def Atomic (L : Scanner) (c : RestContext) (r : LoadRequest) : Prop :=
  ∀ text, textOf r = some text →
    ((c.load L text).1 = true ↔ Parses L text) ∧ (¬ Parses L text → (c.load L text).2 = c)

def Reads (L : Scanner) (r : LoadRequest) : Prop := ∃ text, textOf r = some text ∧ Parses L text

/-- A configuration counts as loaded once one has parsed, even if a later one does not. -/
theorem load_loaded (c : RestContext) {text : Str} :
    (c.load L text).1 = true ↔ Parses L text ∨ c.loaded = true := by
  simp only [RestContext.load, Bool.or_eq_true]
  rcases read_cases L text c.root with ⟨hparses, hread⟩ | ⟨hno, -, hread⟩ | ⟨hno, -, hread, -⟩
  · simp [hparses, hread]
  · simp [hno, hread]
  · simp [hno, hread]

theorem load_loaded_eq (c : RestContext) (text : Str) :
    (c.load L text).2.loaded = (c.load L text).1 := rfl

/-- A context that has nothing loaded is left alone by a text that cannot be read, exactly if the
text begins no value. -/
theorem load_new_iff {text : Str} (h : ¬ Parses L text) :
    (RestContext.new.load L text).2 = RestContext.new ↔ ¬ Begins L text := by
  rcases read_cases L text .null with
    ⟨hparses, -⟩ | ⟨-, hbegins, hread⟩ | ⟨-, hbegins, hread, hroot⟩
  · exact absurd hparses h
  · refine iff_of_true ?_ hbegins
    simp [RestContext.load, RestContext.new, hread]
  · refine iff_of_false (fun heq => ?_) (not_not.mpr hbegins)
    have hnull := congrArg RestContext.root heq
    simp only [RestContext.load, RestContext.new] at hnull
    rw [hnull] at hroot
    cases hroot

/-- A text in which nothing begins leaves the context alone. -/
theorem load_fails {c : RestContext} (hloaded : c.loaded = false) {text : Str}
    (h : ¬ Parses L text) (hbegins : ¬ Begins L text) : (c.load L text).2 = c := by
  rcases read_cases L text c.root with ⟨hparses, -⟩ | ⟨-, -, hread⟩ | ⟨-, hyes, -⟩
  · exact absurd hparses h
  · obtain ⟨loaded, root⟩ := c
    simp only at hloaded hread
    simp [RestContext.load, hread, hloaded]
  · exact absurd hyes hbegins

/-! ## Runs -/

/-- No request ends the loop. -/
theorem run_next (L : Scanner) (c : RestContext) (rs : List LoadRequest) :
    ∃ outs c', run (body L) c rs = (outs, .next c') := by
  induction rs generalizing c with
  | nil => exact ⟨[], c, rfl⟩
  | cons r rs ih =>
    obtain ⟨outs, c', hrun⟩ := ih (loadHandler L c r).2
    have hr : body L c r = ([(loadHandler L c r).1], .next (loadHandler L c r).2) := rfl
    refine ⟨[(loadHandler L c r).1] :: outs, c', ?_⟩
    rw [run_cons_next hr, hrun]

theorem run_snoc_context {c c' : RestContext} {rs : List LoadRequest} {outs : List (List LoadReply)}
    (h : run (body L) c rs = (outs, .next c')) (r : LoadRequest) :
    run (body L) c (rs ++ [r]) =
      (outs ++ [[(loadHandler L c' r).1]], .next (loadHandler L c' r).2) := run_snoc h r

/-- The flag is up once a file was read. -/
theorem run_loaded {rs : List LoadRequest} {outs : List (List LoadReply)} {c : RestContext}
    (h : run (body L) .new rs = (outs, .next c)) : c.loaded = true ↔ ∃ r ∈ rs, Reads L r := by
  induction rs using List.reverseRecOn generalizing outs c with
  | nil =>
    obtain ⟨-, hc⟩ := Prod.mk.inj h
    obtain rfl := Flow.next.inj hc
    simp [RestContext.new]
  | append_singleton rs r ih =>
    obtain ⟨outs₁, c₁, hrun⟩ := run_next L .new rs
    rw [run_snoc_context hrun, Prod.mk.injEq] at h
    obtain rfl := Flow.next.inj h.2
    rw [loadHandler_context]
    have hlast : (∃ q ∈ rs ++ [r], Reads L q) ↔ (∃ q ∈ rs, Reads L q) ∨ Reads L r := by
      simp [or_and_right, exists_or]
    rw [hlast, ← ih hrun, Reads]
    cases textOf r with
    | none => simp
    | some text => simp [load_loaded_eq, load_loaded, or_comm]

/-- As long as every load was as it is to be and none has read its file, nothing is loaded. -/
theorem run_unchanged {rs : List LoadRequest} {outs : List (List LoadReply)} {c : RestContext}
    (h : run (body L) .new rs = (outs, .next c)) (hatomic : AtEvery (body L) .new rs (Atomic L))
    (hno : ∀ r ∈ rs, ¬ Reads L r) : c = .new := by
  induction rs using List.reverseRecOn generalizing outs c with
  | nil =>
    obtain ⟨-, hc⟩ := Prod.mk.inj h
    exact (Flow.next.inj hc).symm
  | append_singleton rs r ih =>
    obtain ⟨outs₁, c₁, hrun⟩ := run_next L .new rs
    rw [run_snoc_context hrun, Prod.mk.injEq] at h
    obtain rfl := Flow.next.inj h.2
    have hatomic' : AtEvery (body L) .new rs (Atomic L) := fun pre e hpre =>
      hatomic pre e (hpre.trans (List.prefix_append rs [r]))
    -- nothing was loaded before the last request, which its own atomicity says leaves it so
    obtain rfl := ih hrun hatomic' fun q hq => hno q (List.mem_append_left _ hq)
    have hr := hatomic rs r List.prefix_rfl outs₁ _ hrun
    rw [loadHandler_context]
    cases htext : textOf r with
    | none => rfl
    | some text =>
      have hfails : ¬ Parses L text := fun hp => hno r (by simp) ⟨text, htext, hp⟩
      exact (hr text htext).2 hfails

/-- **Failed loads.** In a run of load requests every call says whether its file was read, and
leaves the machine alone if it was not, exactly if each file that cannot be read comes before
every one that can and begins no object or array. -/
theorem loads_atomic_iff (L : Scanner) (rs : List LoadRequest) :
    AtEvery (body L) .new rs (Atomic L) ↔
      ∀ pre r, pre ++ [r] <+: rs → ∀ text, textOf r = some text → ¬ Parses L text →
        (∀ q ∈ pre, ¬ Reads L q) ∧ ¬ Begins L text := by
  constructor
  · intro hatomic pre r hpre text htext hfails
    obtain ⟨outs, c, hrun⟩ := run_next L .new pre
    obtain ⟨hreplies, hkeeps⟩ := hatomic pre r hpre outs c hrun text htext
    have hno : ∀ q ∈ pre, ¬ Reads L q := by
      intro q hq hreads
      -- the flag of an earlier success is what the call returns
      have hloaded := (run_loaded hrun).mpr ⟨q, hq, hreads⟩
      exact hfails (hreplies.mp ((load_loaded c).mpr (Or.inr hloaded)))
    -- so nothing is loaded yet, and the text decides by itself
    have hatomic' : AtEvery (body L) .new pre (Atomic L) := fun pre' e hpre' =>
      hatomic pre' e (hpre'.trans ((List.prefix_append pre [r]).trans hpre))
    obtain rfl := run_unchanged hrun hatomic' hno
    exact ⟨hno, (load_new_iff hfails).mp (hkeeps hfails)⟩
  · intro h pre r hpre outs c hrun text htext
    by_cases hparses : Parses L text
    · exact ⟨iff_of_true ((load_loaded c).mpr (Or.inl hparses)) hparses,
        fun hno => absurd hparses hno⟩
    · obtain ⟨hno, hbegins⟩ := h pre r hpre text htext hparses
      have hloaded : c.loaded = false := by
        rw [Bool.eq_false_iff]
        intro htrue
        obtain ⟨q, hq, hreads⟩ := (run_loaded hrun).mp htrue
        exact hno q hq hreads
      refine ⟨iff_of_false (fun htrue => ?_) hparses, fun _ => load_fails hloaded hparses hbegins⟩
      rcases (load_loaded c).mp htrue with hyes | hyes
      · exact hparses hyes
      · rw [hloaded] at hyes
        cases hyes

/-- A scanner for texts with neither strings nor numbers. -/
def bracketScanner : Scanner where
  skip s := s.dropWhile Char.isWhitespace
  string _ := none
  real _ := none
  int64 _ := none
  uint64 _ := none
  skip_le s := (List.dropWhile_sublist (l := s) Char.isWhitespace).length_le
  string_lt _ _ _ h := by cases h
  real_lt _ _ _ h := by cases h
  int64_lt _ _ _ h := by cases h
  uint64_lt _ _ _ h := by cases h

/-- An empty machine is loaded, then a file with an open bracket: the answer is still yes, and the
machine has become an array. -/
theorem openBracket_not_atomic :
    let c := (RestContext.new.load bracketScanner "{}".toList).2
    c.root = .obj [] ∧ c.loaded = true ∧ ¬ Parses bracketScanner "[".toList ∧
      (c.load bracketScanner "[".toList).1 = true ∧
      (c.load bracketScanner "[".toList).2.root = .arr [] := by
  refine ⟨rfl, rfl, ?_, rfl, rfl⟩
  rintro ⟨rest, hhit⟩
  cases hhit

end Load

end Skweltch
