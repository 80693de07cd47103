import Skweltch.Core.Sink

/-!
# Skweltch — sink workers

What a sink does with the calls `Sink::process` makes on it: an `ISinkWorker` handles one call in
its own state and may report something on its results socket. `run` handles the calls of a whole
run, batches one after the other, and keeps the reports in order.
-/

namespace Skweltch

/-- How a function ends that does not return. -/
inductive Fault where
  /-- an exception with this text escapes -/
  | threw (what : String)
  /-- the language does not define what happens -/
  | undefined
deriving DecidableEq, Repr

/-- A handler of the sink's calls: the new state and what is sent to the results socket. -/
abbrev ISinkWorker (σ ρ : Type) := σ → SinkCall → Except Fault (σ × List ρ)

namespace ISinkWorker

variable {σ ρ : Type} (w : ISinkWorker σ ρ)

def run : σ → List SinkCall → Except Fault (σ × List ρ)
  | s, [] => .ok (s, [])
  | s, c :: cs =>
    match w s c with
    | .error f => .error f
    | .ok (s', out) =>
      match run s' cs with
      | .error f => .error f
      | .ok (s'', rest) => .ok (s'', out ++ rest)

variable {w}

@[simp] theorem run_nil (s : σ) : run w s [] = .ok (s, []) := rfl

theorem run_cons {s s' s'' : σ} {c : SinkCall} {cs : List SinkCall} {out rest : List ρ}
    (h : w s c = .ok (s', out)) (hr : run w s' cs = .ok (s'', rest)) :
    run w s (c :: cs) = .ok (s'', out ++ rest) := by
  simp [run, h, hr]

/-- The answers to calls in two parts. -/
theorem run_append {s s' s'' : σ} {cs ds : List SinkCall} {out rest : List ρ}
    (hc : run w s cs = .ok (s', out)) (hd : run w s' ds = .ok (s'', rest)) :
    run w s (cs ++ ds) = .ok (s'', out ++ rest) := by
  induction cs generalizing s out with
  | nil =>
    cases hc
    simpa using hd
  | cons c cs ih =>
    rw [run] at hc
    split at hc
    · cases hc
    · next s₁ out₁ h₁ =>
      split at hc
      · cases hc
      · next s₂ out₂ h₂ =>
        cases hc
        rw [List.cons_append, run_cons h₁ (ih h₂), List.append_assoc]

end ISinkWorker

end Skweltch
