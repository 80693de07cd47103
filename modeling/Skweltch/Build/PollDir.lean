import Mathlib.Data.List.Destutter
import Skweltch.Config.Json
import Skweltch.Core.Poll

/-!
# Skweltch — polling a directory

`PWorker` of `build/polldir.cpp`: it waits until the digest of a directory is another one than the
last time. `FileModChecker::getCrc` returns a `long`, and so is `lastCrc`, but the constructor takes
the first digest as an `int` (`firesOnChange_iff`).
-/

namespace Skweltch

open EventLoop FixedWidth Json JsonObject

namespace PollDir

/-- `PWorker`, whose only member that changes is `lastCrc`. -/
def worker (dir : Str) (sleeptime : Int) : IPollWorker Int Int where
  check := fun lastCrc crc => if crc = lastCrc then (lastCrc, none) else (crc, some true)
  payload := dir
  sleeptime := sleeptime

/-- `main`: the digest taken at the start goes through the constructor's `int crc`. -/
def main (root : Object) (crc : Int) (es : List (PollEvent Int)) :
    Except JsonFault (List (List PollAct) × Flow (PollState Int) Bool) := do
  let dir ← getString (.obj root) "dir".toList
  let sleeptime := intAt root "sleeptime".toList 1000
  .ok (Poll.process (worker dir sleeptime) (int32 crc) es)

/-- How often a digest is another one than the one before it. -/
def changes : List Int → Nat
  | crc :: crc' :: crcs => (if crc = crc' then 0 else 1) + changes (crc' :: crcs)
  | _ => 0

/-- Each wait ends at another digest than the one before, and for every change a message is sent. -/
def FiresOnChange (crc : Int) (es : List (PollEvent Int)) (outs : List (List PollAct)) : Prop :=
  (crc :: Poll.fired es outs).IsChain (· ≠ ·) ∧
    Poll.sends outs.flatten = changes (crc :: Poll.looked es outs)

/-! ## The remembered digest

The worker sends when the digest differs from the one it has seen last. So what it sends for are the
changes. -/

/-- What is left of the digests without repetitions are the changes. -/
theorem length_destutter' (crc : Int) (crcs : List Int) :
    (crcs.destutter' (· ≠ ·) crc).length = changes (crc :: crcs) + 1 := by
  induction crcs generalizing crc with
  | nil => rfl
  | cons crc' crcs ih =>
    rw [changes]
    by_cases h : crc = crc'
    · subst h
      rw [List.destutter'_cons_neg _ (by simp), ih, if_pos rfl, Nat.zero_add]
    · rw [List.destutter'_cons_pos _ h, List.length_cons, ih, if_neg h, Nat.add_comm 1]

theorem head?_destutter' (crc : Int) (crcs : List Int) :
    (crcs.destutter' (· ≠ ·) crc).head? = some crc := by
  induction crcs generalizing crc with
  | nil => rfl
  | cons crc' crcs ih =>
    by_cases h : crc = crc'
    · rw [List.destutter'_cons_neg _ (by simp [h]), ih]
    · rw [List.destutter'_cons_pos _ h, List.head?_cons]

variable {dir : Str} {sleeptime : Int}

theorem body_same {s : PollState Int} {e : PollEvent Int} (h : e.seen = s.worker) :
    Poll.body (worker dir sleeptime) s e = ([.sleep sleeptime], .next s) :=
  Poll.body_sleeps (w := worker dir sleeptime) (if_pos h)

/-- Another one sends the directory and is remembered, whether the send fails or not. -/
theorem body_changed {s : PollState Int} {e : PollEvent Int} (h : e.seen ≠ s.worker) :
    ∃ flow, Poll.body (worker dir sleeptime) s e =
        ([.send { id := s.msgNum, payload := dir } e.sendFails], flow) ∧
      ((e.quitAfterSend = true ∧ flow = .exit false) ∨
        ∃ t : PollState Int, flow = .next t ∧ t.worker = e.seen ∧
          t.msgNum = int32 (s.msgNum + 1)) :=
  Poll.body_fires (w := worker dir sleeptime) (if_neg h)

/-- **A run that remembers a digest** waits for the digests that follow it when all repetitions
are left out. -/
theorem fired_run (s : PollState Int) (es : List (PollEvent Int)) {outs : List (List PollAct)}
    (houts : (run (Poll.body (worker dir sleeptime)) s es).1 = outs) :
    s.worker :: Poll.fired es outs = (Poll.looked es outs).destutter' (· ≠ ·) s.worker := by
  induction es generalizing s outs with
  | nil =>
    subst houts
    rfl
  | cons e es ih =>
    by_cases h : e.seen = s.worker
    · rw [run_cons_next (body_same h)] at houts
      subst houts
      -- the remembered digest stays, and a repetition of it is left out
      have hrest := ih s rfl
      generalize (run (Poll.body (worker dir sleeptime)) s es).1 = outs at hrest
      show s.worker :: Poll.fired es outs =
        (e.seen :: Poll.looked es outs).destutter' (· ≠ ·) s.worker
      rw [List.destutter'_cons_neg _ (by simp [h]), hrest]
    · have hne : s.worker ≠ e.seen := Ne.symm h
      obtain ⟨flow, hbody, ⟨-, rfl⟩ | ⟨t, rfl, ht, -⟩⟩ := body_changed h
      -- the poll is to quit: this was the last look
      · rw [run_cons_exit hbody] at houts
        subst houts
        have hlooked : Poll.looked (e :: es)
            [[.send { id := s.msgNum, payload := dir } e.sendFails]] = [e.seen] := rfl
        rw [hlooked, List.destutter'_cons_pos _ hne]
        cases es <;> rfl
      · rw [run_cons_next hbody] at houts
        subst houts
        have hrest := ih t rfl
        rw [ht] at hrest
        generalize (run (Poll.body (worker dir sleeptime)) t es).1 = outs at hrest
        show s.worker :: e.seen :: Poll.fired es outs =
          (e.seen :: Poll.looked es outs).destutter' (· ≠ ·) s.worker
        rw [List.destutter'_cons_pos _ hne, hrest]

/-- A run sends once for every change that it has looked at. -/
theorem sends_run (s : PollState Int) (es : List (PollEvent Int)) {outs : List (List PollAct)}
    (houts : (run (Poll.body (worker dir sleeptime)) s es).1 = outs) :
    Poll.sends outs.flatten = changes (s.worker :: Poll.looked es outs) := by
  have hlen := congrArg List.length (fired_run s es houts)
  rw [length_destutter', List.length_cons] at hlen
  rw [← houts, Poll.sends_run, houts]
  omega

/-- The first digest is always looked at. -/
theorem looked_run_cons (s : PollState Int) (e : PollEvent Int) (es : List (PollEvent Int))
    {outs : List (List PollAct)}
    (houts : (run (Poll.body (worker dir sleeptime)) s (e :: es)).1 = outs) :
    ∃ crcs, Poll.looked (e :: es) outs = e.seen :: crcs := by
  subst houts
  rcases hb : Poll.body (worker dir sleeptime) s e with ⟨out, s' | r⟩
  · rw [run_cons_next hb]
    exact ⟨_, rfl⟩
  · rw [run_cons_exit hb]
    exact ⟨_, rfl⟩

/-- Waits that start from `kept` in place of `crc`. -/
theorem isChain_fired_iff {kept crc crc' : Int} {crcs fired : List Int} (hkept : crc' ≠ kept)
    (hfired : kept :: fired = (crc' :: crcs).destutter' (· ≠ ·) kept) :
    (crc :: fired).IsChain (· ≠ ·) ↔ crc' ≠ crc := by
  rw [List.destutter'_cons_pos _ (Ne.symm hkept)] at hfired
  obtain rfl := (List.cons.inj hfired).2
  rw [List.isChain_cons, head?_destutter']
  simp only [Option.mem_def, Option.some.injEq, forall_eq', List.isChain_destutter', and_true]
  exact ne_comm

/-- What the loop comes to, for any digest that it begins with. -/
theorem process_firesOnChange_iff (dir : Str) (sleeptime crc : Int) (es : List (PollEvent Int)) :
    FiresOnChange crc es (Poll.process (worker dir sleeptime) (int32 crc) es).1 ↔
      ∀ e, es.head? = some e → IsInt crc ∨ (e.seen ≠ crc ∧ e.seen ≠ int32 crc) := by
  generalize houts : (Poll.process (worker dir sleeptime) (int32 crc) es).1 = outs
  have hfired := fired_run (Poll.init (int32 crc)) es houts
  have hsends := sends_run (Poll.init (int32 crc)) es houts
  rw [show (Poll.init (int32 crc)).worker = int32 crc from rfl] at hfired hsends
  rw [FiresOnChange, hsends]
  cases es with
  | nil =>
    subst houts
    simp [Poll.process, Poll.fired, Poll.looked, changes]
  | cons e es =>
    obtain ⟨crcs, hlooked⟩ := looked_run_cons (Poll.init (int32 crc)) e es houts
    rw [hlooked] at hfired ⊢
    simp only [List.head?_cons, Option.some.injEq, forall_eq', changes]
    by_cases hfit : IsInt crc
    -- the constructor's `int` holds the digest, so that the first wait is like every other
    · have hchain : (crc :: Poll.fired (e :: es) outs).IsChain (· ≠ ·) := by
        rw [int32_of_isInt hfit] at hfired
        rw [hfired]
        exact List.isChain_destutter' _ _ _
      rw [int32_of_isInt hfit]
      exact ⟨fun _ => Or.inl hfit, fun _ => ⟨hchain, rfl⟩⟩
    · have hne : int32 crc ≠ crc := fun h => hfit (int32_eq_self_iff.mp h)
      simp only [hfit, false_or]
      by_cases hkept : e.seen = int32 crc
      · -- the first check sees what was remembered: a change that is not noticed
        have hcount : ¬ (0 + changes (e.seen :: crcs) = 1 + changes (e.seen :: crcs)) := by omega
        rw [hkept] at hcount ⊢
        rw [if_pos rfl, if_neg (Ne.symm hne)]
        exact iff_of_false (fun h => hcount h.2) (fun h => h.2 rfl)
      · rw [isChain_fired_iff hkept hfired, if_neg (Ne.symm hkept)]
        by_cases hcrc : e.seen = crc
        · exact iff_of_false (fun h => h.1 hcrc) (fun h => h.1 hcrc)
        · rw [if_neg (Ne.symm hcrc)]
          exact iff_of_true ⟨hcrc, rfl⟩ ⟨hcrc, hkept⟩

/-- **When polling fires on changes only.** If the digest at the start is an `int`, if there is no
check, or if the first check sees neither that digest nor what is left of it in an `int`. -/
theorem firesOnChange_iff {root : Object} {dir : Str}
    (hdir : getString (.obj root) "dir".toList = .ok dir) (crc : Int) (es : List (PollEvent Int)) :
    ∃ r, main root crc es = .ok r ∧
      (FiresOnChange crc es r.1 ↔
        ∀ e, es.head? = some e → IsInt crc ∨ (e.seen ≠ crc ∧ e.seen ≠ int32 crc)) := by
  refine ⟨_, ?_, process_firesOnChange_iff dir (intAt root "sleeptime".toList 1000) crc es⟩
  rw [main, hdir]
  rfl

/-- A check that sees a digest, with nothing to stop for. -/
def sees (crc : Int) : PollEvent Int :=
  { seen := crc, sendFails := false, quitInSend := false, quitAfterSend := false }

def exampleRoot : Object := [("dir".toList, .str "src".toList)]

/-- A directory that changes once. -/
theorem firesOnChange_exampleRoot :
    ∃ r, main exampleRoot 5 [sees 5, sees 7] = .ok r ∧
      (FiresOnChange 5 [sees 5, sees 7] r.1 ↔
        ∀ e, [sees 5, sees 7].head? = some e → IsInt 5 ∨ (e.seen ≠ 5 ∧ e.seen ≠ int32 5)) :=
  firesOnChange_iff rfl 5 [sees 5, sees 7]

/-- A directory that never changes, with a digest that is no `int`: a message is sent at once. -/
theorem firstCheck_fires :
    ∃ r, main exampleRoot 4294967296 [sees 4294967296] = .ok r ∧
      ¬ FiresOnChange 4294967296 [sees 4294967296] r.1 := by
  refine ⟨_, rfl, ?_⟩
  rintro ⟨-, hsends⟩
  revert hsends
  decide +kernel

end PollDir

end Skweltch
