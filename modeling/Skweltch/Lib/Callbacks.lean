import Mathlib.Tactic

/-!
# Callbacks — a producer hands items to a handler until it answers false

A producer that calls back for every item and stops at the first `false` is a list of items fed to
a handler. `given` are the items that reach the handler, a prefix of what the producer has to
offer. `relay` puts a transducer between producer and handler.
-/

namespace Callbacks

variable {σ τ α β : Type}

/-- A callback with its own state: the new state and whether to go on. -/
abbrev Handler (σ α : Type) := σ → α → σ × Bool

/-- Hand over the items in order, up to and including the first one answered with `false`. -/
def feed (h : Handler σ α) : σ → List α → σ × Bool
  | s, [] => (s, true)
  | s, a :: as => if (h s a).2 then feed h (h s a).1 as else ((h s a).1, false)

def given (h : Handler σ α) : σ → List α → List α
  | _, [] => []
  | s, a :: as => a :: if (h s a).2 then given h (h s a).1 as else []

variable {h : Handler σ α}

@[simp] theorem feed_nil (s : σ) : feed h s [] = (s, true) := rfl

theorem feed_cons_true {s : σ} {a : α} (ha : (h s a).2 = true) (as : List α) :
    feed h s (a :: as) = feed h (h s a).1 as := by
  rw [feed, if_pos ha]

theorem feed_cons_false {s : σ} {a : α} (ha : (h s a).2 = false) (as : List α) :
    feed h s (a :: as) = ((h s a).1, false) := by
  rw [feed, ha]
  rfl

/-- What comes second is handed over only if all of what comes first was wanted. -/
theorem feed_append (s : σ) (as bs : List α) :
    feed h s (as ++ bs) =
      if (feed h s as).2 then feed h (feed h s as).1 bs else feed h s as := by
  induction as generalizing s with
  | nil => simp
  | cons a as ih =>
    cases ha : (h s a).2 with
    | true =>
      rw [List.cons_append, feed_cons_true ha, feed_cons_true ha, ih]
    | false =>
      rw [List.cons_append, feed_cons_false ha, feed_cons_false ha]
      rfl

/-- What reaches the handler is a beginning of what there is. -/
theorem given_prefix (s : σ) (as : List α) : given h s as <+: as := by
  induction as generalizing s with
  | nil => exact List.prefix_rfl
  | cons a as ih =>
    rw [given, List.cons_prefix_cons]
    refine ⟨rfl, ?_⟩
    split
    · exact ih _
    · exact List.nil_prefix

/-- A handler that never says no gets everything. -/
theorem given_eq {s : σ} {as : List α} (hok : (feed h s as).2 = true) : given h s as = as := by
  induction as generalizing s with
  | nil => rfl
  | cons a as ih =>
    cases ha : (h s a).2 with
    | true =>
      rw [feed_cons_true ha] at hok
      rw [given, if_pos ha, ih hok]
    | false =>
      rw [feed_cons_false ha] at hok
      cases hok

theorem feed_snd_true (hall : ∀ s a, (h s a).2 = true) (s : σ) (as : List α) :
    (feed h s as).2 = true := by
  induction as generalizing s with
  | nil => rfl
  | cons a as ih =>
    rw [feed_cons_true (hall s a)]
    exact ih _

/-- A handler that also keeps the items it was given. -/
def recorded (h : Handler σ α) : Handler (σ × List α) α :=
  fun s a => (((h s.1 a).1, s.2 ++ [a]), (h s.1 a).2)

/-- A handler that keeps a record answers as it did without, and has recorded what it was given. -/
theorem feed_recorded (s : σ) (log as : List α) :
    feed (recorded h) (s, log) as =
      (((feed h s as).1, log ++ given h s as), (feed h s as).2) := by
  induction as generalizing s log with
  | nil => simp [given]
  | cons a as ih =>
    cases ha : (h s a).2 with
    | true =>
      rw [feed_cons_true (h := recorded h) (show (recorded h (s, log) a).2 = true from ha),
        feed_cons_true ha, given, if_pos ha]
      refine (ih _ _).trans ?_
      simp
    | false =>
      rw [feed_cons_false (h := recorded h) (show (recorded h (s, log) a).2 = false from ha),
        feed_cons_false ha, given, ha]
      rfl

/-! ## Answers

What a consumer answers is kept beside what it is given. It is asked for the items in order, and no
more after it has said no. -/

/-- The items that reach the handler, each with its answer. -/
def exchange (h : Handler σ α) : σ → List α → List (α × Bool)
  | _, [] => []
  | s, a :: as => (a, (h s a).2) :: if (h s a).2 then exchange h (h s a).1 as else []

/-- A handler that also keeps the items it was given, with its answers. -/
def answered (h : Handler σ α) : Handler (σ × List (α × Bool)) α :=
  fun s a => (((h s.1 a).1, s.2 ++ [(a, (h s.1 a).2)]), (h s.1 a).2)

/-- The items of an exchange are those that were given. -/
theorem exchange_fst (s : σ) (as : List α) : (exchange h s as).map Prod.fst = given h s as := by
  induction as generalizing s with
  | nil => rfl
  | cons a as ih =>
    rw [exchange, given, List.map_cons]
    split
    · rw [ih]
    · rfl

/-- A handler that keeps a record of its answers as well. -/
theorem feed_answered (s : σ) (log : List (α × Bool)) (as : List α) :
    feed (answered h) (s, log) as =
      (((feed h s as).1, log ++ exchange h s as), (feed h s as).2) := by
  induction as generalizing s log with
  | nil => simp [exchange]
  | cons a as ih =>
    cases ha : (h s a).2 with
    | true =>
      rw [feed_cons_true (h := answered h) (show (answered h (s, log) a).2 = true from ha),
        feed_cons_true ha, exchange, if_pos ha, ha]
      refine (ih _ _).trans ?_
      simp [ha]
    | false =>
      rw [feed_cons_false (h := answered h) (show (answered h (s, log) a).2 = false from ha),
        feed_cons_false ha, exchange, ha]
      simp [answered, ha]

/-- An answer `false` is the last one, and the answer of the whole. -/
theorem exchange_false {s : σ} {as : List α} {before after : List (α × Bool)} {a : α}
    (hlog : exchange h s as = before ++ (a, false) :: after) :
    after = [] ∧ (feed h s as).2 = false := by
  induction as generalizing s before with
  | nil => exact absurd hlog (by simp [exchange])
  | cons b as ih =>
    rw [exchange] at hlog
    cases hb : (h s b).2 with
    | true =>
      rw [hb, if_pos rfl] at hlog
      rw [feed_cons_true hb]
      cases before with
      | nil => cases (List.cons.inj hlog).1
      | cons c before => exact ih (List.cons.inj hlog).2
    | false =>
      rw [hb, if_neg Bool.false_ne_true] at hlog
      rw [feed_cons_false hb]
      cases before with
      | nil => exact ⟨(List.cons.inj hlog).2.symm, rfl⟩
      | cons c before => exact absurd (List.cons.inj hlog).2 (by simp)

/-! ## Relays

A transducer between a producer and a consumer: it stops the producer when the consumer stops it. -/

/-- What a transducer makes of the items, from its state `t`. -/
def emitted (δ : τ → α → τ × List β) : τ → List α → List β
  | _, [] => []
  | t, a :: as => (δ t a).2 ++ emitted δ (δ t a).1 as

/-- The state the transducer is in after the items. -/
def reached (δ : τ → α → τ × List β) : τ → List α → τ
  | t, [] => t
  | t, a :: as => reached δ (δ t a).1 as

theorem emitted_append (δ : τ → α → τ × List β) (t : τ) (as bs : List α) :
    emitted δ t (as ++ bs) = emitted δ t as ++ emitted δ (reached δ t as) bs := by
  induction as generalizing t with
  | nil => rfl
  | cons a as ih => rw [List.cons_append, emitted, emitted, ih, List.append_assoc, reached]

theorem reached_append (δ : τ → α → τ × List β) (t : τ) (as bs : List α) :
    reached δ t (as ++ bs) = reached δ (reached δ t as) bs := by
  induction as generalizing t with
  | nil => rfl
  | cons a as ih => rw [List.cons_append, reached, reached, ih]

/-- A handler `r` in front of `h` that works like the transducer `δ`: it hands on what `δ` emits,
and goes on in `δ`'s next state unless it was stopped. -/
structure Relays (r : Handler (τ × σ) α) (δ : τ → α → τ × List β) (h : Handler σ β) : Prop where
  inner : ∀ t s a, (r (t, s) a).1.2 = (feed h s (δ t a).2).1
  answer : ∀ t s a, (r (t, s) a).2 = (feed h s (δ t a).2).2
  outer : ∀ t s a, (r (t, s) a).2 = true → (r (t, s) a).1.1 = (δ t a).1

/-- **Feeding a relay is feeding what its transducer emits.** -/
theorem Relays.feed_eq {r : Handler (τ × σ) α} {δ : τ → α → τ × List β} {h : Handler σ β}
    (hr : Relays r δ h) (t : τ) (s : σ) (as : List α) :
    (feed r (t, s) as).1.2 = (feed h s (emitted δ t as)).1 ∧
      (feed r (t, s) as).2 = (feed h s (emitted δ t as)).2 := by
  induction as generalizing t s with
  | nil => exact ⟨rfl, rfl⟩
  | cons a as ih =>
    rw [emitted, feed_append, ← hr.answer]
    cases ha : (r (t, s) a).2 with
    | true =>
      have hout := hr.outer t s a ha
      rw [feed_cons_true ha, if_pos rfl, ← hr.inner, ← hout]
      exact ih (r (t, s) a).1.1 (r (t, s) a).1.2
    | false =>
      rw [feed_cons_false ha, if_neg Bool.false_ne_true]
      exact ⟨hr.inner t s a, ha.symm.trans (hr.answer t s a)⟩

end Callbacks
