import Skweltch.Core.Sink
import Skweltch.Core.Work

/-!
# Skweltch — when a socket fails

`Work::process` (`core/Work.cpp`) and `Sink::process` (`core/Sink.cpp`) catch what `poll` and
`recv` throw and go on. Only the control socket is read inside the `try`: a `poll` that throws
leaves `recved` at `NONE`, so that it counts as a timeout, and a `recv` that throws leaves an empty
message, which is handed on all the same.
-/

namespace Skweltch

open EventLoop

/-- What `poller->poll` does. -/
inductive WorkPoll (μ : Type) where
  | threw
  | returned (p : WorkPolled μ)
deriving DecidableEq, Repr

/-- What the environment does in one iteration of `Work::process`, with a `poll` that may throw. -/
inductive WorkAnswer (μ : Type) where
  | quit
  | poll (p : WorkPoll μ) (quitAfterPoll quitAtEnd : Bool)
deriving DecidableEq, Repr

namespace Work

variable {μ : Type}

/-- `recved` behind the `try` block: it starts out as `Poller::NONE`. -/
def recved : WorkPoll μ → WorkPolled μ
  | .threw => .none
  | .returned p => p

def event : WorkAnswer μ → WorkEvent μ
  | .quit => .quit
  | .poll p quitAfterPoll quitAtEnd => .polled (recved p) quitAfterPoll quitAtEnd

/-- One iteration of `Work::process`. -/
def step : Body Unit (WorkAnswer μ) (WorkCall μ) WorkExit := fun s a => body s (event a)

theorem run_step (as : List (WorkAnswer μ)) : run step () as = run body () (as.map event) :=
  run_map event () as

/-- `poll` or a `recv` throws. -/
def Failed (a : WorkAnswer μ) : Prop :=
  ∃ p quitAfterPoll quitAtEnd, a = .poll p quitAfterPoll quitAtEnd ∧
    (p = .threw ∨ p = .returned (.msg .failed) ∨ p = .returned (.control .failed))

/-- `shouldQuit` is true behind `poll` or at the end. -/
def Interrupted (a : WorkAnswer μ) : Prop :=
  ∃ p, a = .poll p true false ∨ a = .poll p false true ∨ a = .poll p true true

/-- An iteration in which a socket error has no effect. -/
structure Honest (a : WorkAnswer μ) : Prop where
  received : ∀ m, .processMsg m ∈ (step () a).1 →
    m ≠ .failed ∧ ∃ quitAfterPoll quitAtEnd, a = .poll (.returned (.msg m)) quitAfterPoll quitAtEnd
  timedOut : .timeout ∈ (step () a).1 →
    ∃ quitAfterPoll quitAtEnd, a = .poll (.returned .none) quitAfterPoll quitAtEnd
  noOp : Failed a → (step () a).1 = [] ∧
    ((step () a).2 = .next () ∨ (step () a).2 = .exit .returned ∧ Interrupted a)

/-- With no interrupt behind it, `poll` throws, or a `recv` on the data socket does. -/
def Unlucky (a : WorkAnswer μ) : Prop :=
  ∃ quitAtEnd, a = .poll .threw false quitAtEnd ∨
    a = .poll (.returned (.msg .failed)) false quitAtEnd

/-- A turn without a call that says nothing of an error is honest. -/
theorem honest_of_quiet {a : WorkAnswer μ} (h : (step () a).1 = [])
    (hnoOp : Failed a →
      (step () a).2 = .next () ∨ (step () a).2 = .exit .returned ∧ Interrupted a) :
    Honest a where
  received m hm := by
    rw [h] at hm
    cases hm
  timedOut ht := by
    rw [h] at ht
    cases ht
  noOp hf := ⟨h, hnoOp hf⟩

/-- A turn that has received something is honest. -/
theorem honest_of_received {m : Received μ} (hm : m ≠ .failed) (quitAtEnd : Bool) :
    Honest (.poll (.returned (.msg m)) false quitAtEnd) := by
  have hcalls : (step () (.poll (.returned (.msg m)) false quitAtEnd)).1 = [.processMsg m] := by
    cases quitAtEnd with
    | true => rfl
    | false => rfl
  refine ⟨fun m' hm' => ?_, fun ht => ?_, ?_⟩
  · rw [hcalls] at hm'
    cases List.mem_singleton.mp hm'
    exact ⟨hm, false, quitAtEnd, rfl⟩
  · rw [hcalls] at ht
    cases List.mem_singleton.mp ht
  · rintro ⟨p, q, q', heq, hp⟩
    cases heq
    rcases hp with hp | hp | hp
    · cases hp
    · cases hp
      exact absurd rfl hm
    · cases hp

/-- A timeout is honest. -/
theorem honest_of_timeout (quitAtEnd : Bool) :
    Honest (.poll (.returned .none) false quitAtEnd : WorkAnswer μ) := by
  have hcalls : (step () (.poll (.returned .none) false quitAtEnd : WorkAnswer μ)).1 =
      [.timeout] := by
    cases quitAtEnd with
    | true => rfl
    | false => rfl
  refine ⟨fun m' hm' => ?_, fun _ => ⟨false, quitAtEnd, rfl⟩, ?_⟩
  · rw [hcalls] at hm'
    cases List.mem_singleton.mp hm'
  · rintro ⟨p, q, q', heq, hp⟩
    cases heq
    rcases hp with hp | hp | hp
    · cases hp
    · cases hp
    · cases hp

/-- The control socket is read in the `try` block, so that an error there does nothing. -/
theorem honest_of_control (recv : Received Int) (quitAtEnd : Bool) :
    Honest (.poll (.returned (.control recv)) false quitAtEnd : WorkAnswer μ) := by
  cases recv with
  | failed =>
    cases quitAtEnd with
    | true => exact honest_of_quiet rfl fun _ => Or.inr ⟨rfl, _, Or.inr (Or.inl rfl)⟩
    | false => exact honest_of_quiet rfl fun _ => Or.inl rfl
  | garbage =>
    refine honest_of_quiet rfl ?_
    rintro ⟨p, q, q', heq, hp⟩
    cases heq
    simp at hp
  | ok v =>
    refine honest_of_quiet ?_ ?_
    -- `exit` ends the loop at once, everything else is skipped
    · show (if v = 0 then _ else _ : List (WorkCall μ) × Flow Unit WorkExit).1 = []
      split
      · rfl
      · cases quitAtEnd with
        | true => rfl
        | false => rfl
    · rintro ⟨p, q, q', heq, hp⟩
      cases heq
      simp at hp

/-- The turns of `Work` that are not honest. -/
theorem honest_iff (a : WorkAnswer μ) : Honest a ↔ ¬ Unlucky a := by
  constructor
  · rintro h ⟨quitAtEnd, rfl | rfl⟩
    · have hcall : .timeout ∈ (step () (.poll .threw false quitAtEnd : WorkAnswer μ)).1 := by
        cases quitAtEnd with
        | true => exact List.mem_singleton_self _
        | false => exact List.mem_singleton_self _
      obtain ⟨q, q', heq⟩ := h.timedOut hcall
      cases heq
    · have hcall : .processMsg .failed ∈
          (step () (.poll (.returned (.msg .failed)) false quitAtEnd : WorkAnswer μ)).1 := by
        cases quitAtEnd with
        | true => exact List.mem_singleton_self _
        | false => exact List.mem_singleton_self _
      exact (h.received _ hcall).1 rfl
  · intro h
    -- in the order of the loop: the condition, `shouldQuit` behind `poll`, what came
    cases a with
    | quit =>
      refine honest_of_quiet rfl ?_
      rintro ⟨p, q, q', heq, -⟩
      cases heq
    | poll p quitAfterPoll quitAtEnd =>
      cases quitAfterPoll with
      | true =>
        refine honest_of_quiet rfl fun _ => Or.inr ⟨rfl, p, ?_⟩
        cases quitAtEnd with
        | true => exact Or.inr (Or.inr rfl)
        | false => exact Or.inl rfl
      | false =>
        cases p with
        | threw => exact absurd ⟨quitAtEnd, Or.inl rfl⟩ h
        | returned p =>
          cases p with
          | msg m =>
            refine honest_of_received (fun hm => h ⟨quitAtEnd, Or.inr ?_⟩) quitAtEnd
            rw [hm]
          | control recv => exact honest_of_control recv quitAtEnd
          | none => exact honest_of_timeout quitAtEnd

end Work

namespace Sink

/-- `poll` or a `recv` throws. -/
def Failed (e : SinkEvent) : Prop :=
  e = .pollFailed ∨ (∃ quit, e = .msg .failed quit) ∨ e = .control .failed

/-- An iteration in which a socket error dispatches nothing, to the worker or the tracker, and does
not count as a retry; the loop may be left because of an interrupt. -/
def Honest (s : SinkState) (e : SinkEvent) : Prop :=
  Failed e → body s e = ([], .next s) ∨
    (body s e = ([], .exit (.returned true)) ∧ e = .msg .failed true)

/-- `poll` throws, or a `recv` on the data socket does with no interrupt behind it. -/
def Unlucky (e : SinkEvent) : Prop := e = .pollFailed ∨ e = .msg .failed false

/-- An idle turn leaves a trace, if only in the retries. -/
theorem idle_ne (s : SinkState) : idle s ≠ ([], .next s) := by
  unfold idle
  split
  · simp
  · intro h
    simp only [Prod.mk.injEq, Flow.next.injEq, true_and] at h
    have hretries : s.retries + 1 = s.retries := congrArg SinkState.retries h
    omega

/-- The turns of `Sink` that are not honest. -/
theorem honest_iff (s : SinkState) (e : SinkEvent) : Honest s e ↔ ¬ Unlucky e := by
  constructor
  -- what is counted as a retry or dispatched changes the state or leaves the loop
  · rintro h (rfl | rfl)
    · rcases h (Or.inl rfl) with hbody | ⟨-, heq⟩
      · exact idle_ne s hbody
      · cases heq
    · rcases h (Or.inr (Or.inl ⟨false, rfl⟩)) with hbody | ⟨hbody, -⟩
      · cases hbody
      · cases hbody
  · rintro h (rfl | ⟨quit, rfl⟩ | rfl)
    · exact absurd (Or.inl rfl) h
    · cases quit with
      | true => exact Or.inr ⟨rfl, rfl⟩
      | false => exact absurd (Or.inr rfl) h
    · exact Or.inl rfl

end Sink

/-- **When socket errors are no-ops.** In every iteration of a run, of a worker or of a sink, they
have no effect exactly if no iteration of the run is unlucky. -/
theorem socketErrors_iff {μ : Type} (as : List (WorkAnswer μ)) (es : List SinkEvent) :
    (AtEvery Work.step () as (fun _ a => Work.Honest a) ↔
      AtEvery Work.step () as fun _ a => ¬ Work.Unlucky a) ∧
    (AtEvery Sink.body Sink.init es Sink.Honest ↔
      AtEvery Sink.body Sink.init es fun _ e => ¬ Sink.Unlucky e) :=
  ⟨atEvery_congr (fun _ a => Work.honest_iff a) () as, atEvery_congr Sink.honest_iff Sink.init es⟩

/-- An interrupted `poll` is a timeout to the worker, and another retry to the sink. -/
theorem interruptedPoll_not_honest :
    ¬ ((∀ (μ : Type) (as : List (WorkAnswer μ)),
        AtEvery Work.step () as fun _ a => Work.Honest a) ∧
      ∀ es : List SinkEvent, AtEvery Sink.body Sink.init es Sink.Honest) := by
  rintro ⟨hwork, -⟩
  have hfirst := (hwork Nat [.poll .threw false false]).first
  obtain ⟨q, q', heq⟩ := hfirst.timedOut (List.mem_singleton_self _)
  cases heq

end Skweltch
