import Skweltch.Sink.CharFreq

/-!
# Skweltch — what sinkcharfreq checks

`SWorker::process` (`sink/sinkcharfreq.cpp`) with the counts it leaves behind, however it ends. It
checks that the string is not too long; that there is a string, that it is long enough and that it
is made of digits is left to who sends it (`validated_iff`).
-/

namespace Skweltch

open FixedWidth NumText

namespace SinkCharFreq

/-- The loop, with the counts that are left behind. -/
def countDigits (s : Str) : List (Fin 26) → Counts → Counts × Option Fault
  | [], counts => (counts, none)
  | i :: is, counts =>
    match addDigit s counts i with
    | .ok counts' => countDigits s is counts'
    | .error f => (counts, some f)

def processKeeping (counts : Counts) (data : List Str) : Counts × Option Fault :=
  match data with
  | [] => (counts, some .undefined)
  | s :: _ =>
    if s.length > 26 then (counts, some (.threw "ony handle up to 26 letters."))
    else countDigits s (List.finRange 26) counts

/-- The digits of a string. -/
def Digits (s : Str) (d : Fin 26 → Nat) : Prop :=
  s.length = 26 ∧ ∀ i : Fin 26, hexVal (s.getD i '\x00') = some (d i)

/-- The message holds 26 digits, which are added to the counts, or `process` throws and the counts
stay as they are. -/
def Validated (counts : Counts) (data : List Str) : Prop :=
  (∃ s rest d, data = s :: rest ∧ Digits s d ∧
      processKeeping counts data = ((fun i => counts i + d i), none)) ∨
    ∃ what, processKeeping counts data = (counts, some (.threw what))

/-- What `process` relies on: there is a string, and if it is not too long, it has 26 digits and
the counts have room for them. -/
def Trusted (counts : Counts) (data : List Str) : Prop :=
  ∃ s rest, data = s :: rest ∧
    (26 < s.length ∨ ∃ d, Digits s d ∧ ∀ i, counts i + d i ≤ 2147483647)

/-- It is the function that forgets the counts where it does not return. -/
theorem process_eq_keeping (counts : Counts) (data : List Str) :
    process counts data =
      match processKeeping counts data with
      | (counts', none) => .ok counts'
      | (_, some f) => .error f := by
  -- the loop over the digits, by induction on them
  have hloop : ∀ (s : Str) (is : List (Fin 26)) (counts : Counts),
      is.foldlM (addDigit s) counts =
        match countDigits s is counts with
        | (counts', none) => .ok counts'
        | (_, some f) => .error f := by
    intro s is
    induction is with
    | nil => exact fun _ => rfl
    | cons i is ih =>
      intro counts
      rw [List.foldlM_cons, countDigits]
      cases addDigit s counts i with
      | ok counts' => exact ih counts'
      | error f => rfl
  cases data with
  | nil => rfl
  | cons s rest =>
    simp only [process, processKeeping]
    split
    · rfl
    · exact hloop s _ counts

/-- The validation throws nothing by itself. -/
theorem countDigits_ne_threw (s : Str) (is : List (Fin 26)) (counts : Counts) (what : String) :
    (countDigits s is counts).2 ≠ some (.threw what) := by
  induction is generalizing counts with
  | nil => simp [countDigits]
  | cons i is ih =>
    rw [countDigits, addDigit]
    cases hexVal (s.getD i '\x00') with
    | none => simp
    | some c => exact ih _

/-- Digits that are all valid are all added. -/
theorem processKeeping_digits {s : Str} {d : Fin 26 → Nat} (hs : Digits s d) (rest : List Str)
    (counts : Counts) :
    processKeeping counts (s :: rest) = ((fun i => int32 (counts i + d i)), none) := by
  have hkeeping := process_eq_keeping counts (s :: rest)
  rw [process_digits hs.1 hs.2] at hkeeping
  rcases h : processKeeping counts (s :: rest) with ⟨counts', _ | f⟩
  · rw [h] at hkeeping
    rw [Except.ok.inj hkeeping]
  · rw [h] at hkeeping
    cases hkeeping

/-- **When a message is validated.** `process` checks nothing else, so that the message has to be
one that it can trust, unless it is refused for its length. -/
theorem validated_iff {counts : Counts} (hcounts : ∀ i, IsInt (counts i)) (data : List Str) :
    Validated counts data ↔ Trusted counts data := by
  constructor
  · rintro (⟨s, rest, d, rfl, hs, hkeeping⟩ | ⟨what, hkeeping⟩)
    · refine ⟨s, rest, rfl, Or.inr ⟨d, hs, fun i => ?_⟩⟩
      rw [processKeeping_digits hs, Prod.mk.injEq] at hkeeping
      have hint := isInt_int32 (counts i + d i)
      rw [congrFun hkeeping.1 i] at hint
      exact hint.2
    · cases data with
      | nil => cases (Prod.mk.inj hkeeping).2
      | cons s rest =>
        refine ⟨s, rest, rfl, Or.inl ?_⟩
        by_contra hlen
        rw [processKeeping, if_neg hlen] at hkeeping
        exact countDigits_ne_threw s _ counts what (congrArg Prod.snd hkeeping)
  · rintro ⟨s, rest, rfl, hlen | ⟨d, hs, hroom⟩⟩
    · exact Or.inr ⟨_, if_pos hlen⟩
    · refine Or.inl ⟨s, rest, d, rfl, hs, ?_⟩
      rw [processKeeping_digits hs]
      congr 1
      funext i
      have := (hcounts i).1
      exact int32_of_isInt ⟨by omega, hroom i⟩

/-- A string of the worker's with no digit zero, on counts that are not zero. -/
theorem validated_tally :
    Validated (fun _ => 40) [WorkCharFreq.tally fun i => i.val % 15 + 1] := by
  have hdigits : Digits (WorkCharFreq.tally fun i => i.val % 15 + 1) fun i => i.val % 15 + 1 := by
    refine ⟨by simp [WorkCharFreq.tally], fun i => ?_⟩
    rw [WorkCharFreq.tally_getD, hexVal_digitChar (by omega)]
  have hroom : ∀ i : Fin 26, (40 : Int) + (i.val % 15 + 1 : Nat) ≤ 2147483647 := by
    intro i
    omega
  exact (validated_iff (fun _ => (by decide : IsInt 40)) _).mpr
    ⟨_, [], rfl, Or.inr ⟨_, hdigits, hroom⟩⟩

end SinkCharFreq

namespace WorkSleep

/-- `WWorker::processMsg` (`work/WorkSleep.cpp`): the milliseconds it sleeps, and what it sends. -/
def processMsg (msg : DataMsg Int) : Int × SinkMsg := (msg.payload, .dataMsg msg.id [])

end WorkSleep

namespace SinkCharFreq

/-- What worksleep sends has no string at all, and a string of 25 digits and a string of other
characters are read as well. -/
theorem not_validated :
    ¬ Validated init (WorkSleep.processMsg ⟨0, 1⟩).2.data ∧
      ¬ Validated init [List.replicate 25 '0'] ∧ ¬ Validated init [List.replicate 26 'x'] := by
  have hfault : ∀ data, (processKeeping init data).2 = some .undefined → ¬ Validated init data := by
    rintro data hfault (⟨s, rest, d, -, -, hkeeping⟩ | ⟨what, hkeeping⟩)
    · rw [hkeeping] at hfault
      cases hfault
    · rw [hkeeping] at hfault
      cases hfault
  exact ⟨hfault _ (by decide), hfault _ (by decide +kernel), hfault _ (by decide +kernel)⟩

end SinkCharFreq

end Skweltch
