import Mathlib.Tactic

/-!
# Event loops

A server loop repeats a body: in each iteration the environment answers (what was polled, what
was received) and the body makes some calls and either goes on in a new state or leaves the loop.
`run` feeds a list of answers to the body and keeps the calls of each iteration apart, so that a
statement can say in which iteration a call is made.

The rules below compose runs (`run_append_next`, `run_append_exit`), extend a run by one iteration
(`run_snoc`) and carry an invariant of the state, the answers so far and the calls so far along
every run whose iterations meet a guard (`run_invariant_guarded`).
-/

namespace EventLoop

variable {σ ε ω ρ : Type}

/-- How an iteration ends: the loop goes on in a state, or it is left with a result. -/
inductive Flow (σ ρ : Type) where
  | next (s : σ)
  | exit (r : ρ)
deriving DecidableEq, Repr

/-- The calls one iteration makes and how it ends. -/
abbrev Body (σ ε ω ρ : Type) := σ → ε → List ω × Flow σ ρ

/-- Run the body on the answers in order, until they run out or the loop is left. -/
def run (body : Body σ ε ω ρ) : σ → List ε → List (List ω) × Flow σ ρ
  | s, [] => ([], .next s)
  | s, e :: es =>
    match body s e with
    | (out, .exit r) => ([out], .exit r)
    | (out, .next s') => (out :: (run body s' es).1, (run body s' es).2)

def calls (body : Body σ ε ω ρ) (s : σ) (es : List ε) : List ω :=
  (run body s es).1.flatten

variable {body : Body σ ε ω ρ}

@[simp] theorem run_nil (s : σ) : run body s [] = ([], .next s) := rfl

@[simp] theorem calls_nil (s : σ) : calls body s [] = [] := rfl

theorem run_cons_next {s s' : σ} {e : ε} {out : List ω} (h : body s e = (out, .next s'))
    (es : List ε) : run body s (e :: es) = (out :: (run body s' es).1, (run body s' es).2) := by
  simp [run, h]

theorem run_cons_exit {s : σ} {e : ε} {out : List ω} {r : ρ} (h : body s e = (out, .exit r))
    (es : List ε) : run body s (e :: es) = ([out], .exit r) := by
  simp [run, h]

theorem calls_cons_next {s s' : σ} {e : ε} {out : List ω} (h : body s e = (out, .next s'))
    (es : List ε) : calls body s (e :: es) = out ++ calls body s' es := by
  simp [calls, run_cons_next h]

theorem calls_cons_exit {s : σ} {e : ε} {out : List ω} {r : ρ} (h : body s e = (out, .exit r))
    (es : List ε) : calls body s (e :: es) = out := by
  simp [calls, run_cons_exit h]

/-- A run that is still in the loop goes on from the state that it has reached. -/
theorem run_append_next {s s' : σ} {es : List ε} {outs : List (List ω)}
    (h : run body s es = (outs, .next s')) (es' : List ε) :
    run body s (es ++ es') = (outs ++ (run body s' es').1, (run body s' es').2) := by
  induction es generalizing s outs with
  | nil =>
    simp only [run_nil, Prod.mk.injEq, Flow.next.injEq] at h
    obtain ⟨rfl, rfl⟩ := h
    rfl
  | cons e es ih =>
    rcases hb : body s e with ⟨out, s₁ | r⟩
    · rw [run_cons_next hb, Prod.mk.injEq] at h
      obtain ⟨rfl, hflow⟩ := h
      rw [List.cons_append, run_cons_next hb, ih (Prod.ext rfl hflow)]
      rfl
    · rw [run_cons_exit hb] at h
      exact absurd (congrArg Prod.snd h) (by simp)

/-- A run that has left the loop is not changed by further answers. -/
theorem run_append_exit {s : σ} {es : List ε} {outs : List (List ω)} {r : ρ}
    (h : run body s es = (outs, .exit r)) (es' : List ε) :
    run body s (es ++ es') = (outs, .exit r) := by
  induction es generalizing s outs with
  | nil => exact absurd (congrArg Prod.snd h) (by simp)
  | cons e es ih =>
    rcases hb : body s e with ⟨out, s₁ | r'⟩
    · rw [run_cons_next hb, Prod.mk.injEq] at h
      obtain ⟨rfl, hflow⟩ := h
      rw [List.cons_append, run_cons_next hb, ih (Prod.ext rfl hflow)]
    · rw [List.cons_append, run_cons_exit hb, ← h, run_cons_exit hb]

/-- One more iteration behind a run that is still in the loop. -/
theorem run_snoc {s s' : σ} {es : List ε} {outs : List (List ω)}
    (h : run body s es = (outs, .next s')) (e : ε) :
    run body s (es ++ [e]) = (outs ++ [(body s' e).1], (body s' e).2) := by
  rw [run_append_next h]
  rcases hb : body s' e with ⟨out, s₁ | r⟩
  · rw [run_cons_next hb]; rfl
  · rw [run_cons_exit hb]

theorem run_append {s s' s'' : σ} {es es' : List ε} {outs outs' : List (List ω)}
    (h : run body s es = (outs, .next s')) (h' : run body s' es' = (outs', .next s'')) :
    run body s (es ++ es') = (outs ++ outs', .next s'') := by
  rw [run_append_next h, h']

theorem run_singleton {s s' : σ} {e : ε} {out : List ω} (h : body s e = (out, .next s')) :
    run body s [e] = ([out], .next s') := by
  rw [run_cons_next h]; rfl

theorem calls_snoc {s s' : σ} {es : List ε} {outs : List (List ω)}
    (h : run body s es = (outs, .next s')) (e : ε) :
    calls body s (es ++ [e]) = calls body s es ++ (body s' e).1 := by
  rw [calls, calls, run_snoc h, h, List.flatten_append]
  simp

theorem calls_append_exit {s : σ} {es : List ε} {outs : List (List ω)} {r : ρ}
    (h : run body s es = (outs, .exit r)) (es' : List ε) :
    calls body s (es ++ es') = calls body s es := by
  rw [calls, calls, run_append_exit h, h]

/-- A run that is left has an iteration that leaves it, and reaches that one in the loop. -/
theorem exists_of_run_exit {s : σ} {es : List ε} {r : ρ} (h : (run body s es).2 = .exit r) :
    ∃ pre e outs s', pre ++ [e] <+: es ∧ run body s pre = (outs, .next s') ∧
      (body s' e).2 = .exit r := by
  induction es using List.reverseRecOn with
  | nil => cases h
  | append_singleton es e ih =>
    rcases hpre : run body s es with ⟨outs, s' | r'⟩
    · rw [run_snoc hpre] at h
      exact ⟨es, e, outs, s', List.prefix_rfl, hpre, h⟩
    · rw [run_append_exit hpre] at h
      obtain ⟨pre, e', outs', s', hp, hrun⟩ := ih (by rw [hpre]; exact h)
      exact ⟨pre, e', outs', s', hp.trans (List.prefix_append es [e]), hrun⟩

/-- The converse: once an iteration leaves the loop, the run is left that way. -/
theorem run_exit_of_stop {s s' : σ} {pre es : List ε} {e : ε} {outs : List (List ω)} {r : ρ}
    (hp : pre ++ [e] <+: es) (h : run body s pre = (outs, .next s'))
    (hexit : (body s' e).2 = .exit r) : (run body s es).2 = .exit r := by
  obtain ⟨rest, rfl⟩ := hp
  have hsnoc := run_snoc h e
  rw [hexit] at hsnoc
  rw [run_append_exit hsnoc]

/-- What every iteration's calls have in common, whatever the state, all calls of a run have. -/
theorem forall_mem_run {P : ω → Prop} (h : ∀ s e, ∀ o ∈ (body s e).1, P o) (s : σ)
    (es : List ε) : ∀ o ∈ (run body s es).1.flatten, P o := by
  induction es generalizing s with
  | nil => intro o ho; cases ho
  | cons e es ih =>
    rcases hb : body s e with ⟨out, s' | r⟩
    · rw [run_cons_next hb, List.flatten_cons]
      intro o ho
      rcases List.mem_append.mp ho with ho | ho
      · exact h s e o (by rw [hb]; exact ho)
      · exact ih s' o ho
    · rw [run_cons_exit hb]
      intro o ho
      exact h s e o (by rw [hb]; simpa using ho)

/-- What holds of every iteration's answer and calls, whatever the state. -/
theorem forall_mem_zip_run {P : ε → List ω → Prop} (h : ∀ s e, P e (body s e).1) (s : σ)
    (es : List ε) : ∀ p ∈ es.zip (run body s es).1, P p.1 p.2 := by
  induction es generalizing s with
  | nil =>
    intro p hp
    cases hp
  | cons e es ih =>
    have hfirst := h s e
    rcases hb : body s e with ⟨out, s' | r⟩
    · rw [hb] at hfirst
      rw [run_cons_next hb, List.zip_cons_cons]
      intro p hp
      rcases List.mem_cons.mp hp with rfl | hp
      · exact hfirst
      · exact ih s' p hp
    · rw [hb] at hfirst
      -- the loop is left, so that no further answer has calls
      rw [run_cons_exit hb, List.zip_cons_cons, List.zip_nil_right]
      intro p hp
      obtain rfl := List.mem_singleton.mp hp
      exact hfirst

/-- Answers in another form: the body may translate them, or they are translated before. -/
theorem run_map {α : Type} (f : α → ε) (s : σ) (as : List α) :
    run (fun s a => body s (f a)) s as = run body s (as.map f) := by
  induction as generalizing s with
  | nil => rfl
  | cons a as ih =>
    rw [List.map_cons]
    rcases hb : body s (f a) with ⟨out, s' | r⟩
    · rw [run_cons_next hb, @run_cons_next _ _ _ _ (fun s a => body s (f a)) _ _ _ _ hb, ih]
    · rw [run_cons_exit hb, @run_cons_exit _ _ _ _ (fun s a => body s (f a)) _ _ _ _ hb]

/-- A property of every iteration a run comes to. -/
def AtEvery (body : Body σ ε ω ρ) (s : σ) (es : List ε) (P : σ → ε → Prop) : Prop :=
  ∀ pre e, pre ++ [e] <+: es → ∀ outs s', run body s pre = (outs, .next s') → P s' e

theorem atEvery_congr {P Q : σ → ε → Prop} (h : ∀ s e, P s e ↔ Q s e) (s : σ) (es : List ε) :
    AtEvery body s es P ↔ AtEvery body s es Q :=
  ⟨fun hP pre e hpre outs s' hrun => (h s' e).mp (hP pre e hpre outs s' hrun),
    fun hQ pre e hpre outs s' hrun => (h s' e).mpr (hQ pre e hpre outs s' hrun)⟩

theorem AtEvery.first {P : σ → ε → Prop} {s : σ} {e : ε} {es : List ε}
    (h : AtEvery body s (e :: es) P) : P s e :=
  h [] e (List.prefix_append [e] es) [] s rfl

theorem atEvery_nil (P : σ → ε → Prop) (s : σ) : AtEvery body s [] P := by
  intro pre e hpre
  exact absurd (List.prefix_nil.mp hpre) (List.append_ne_nil_of_right_ne_nil pre (by simp))

theorem atEvery_singleton {P : σ → ε → Prop} {s : σ} {e : ε} :
    AtEvery body s [e] P ↔ P s e := by
  refine ⟨AtEvery.first, fun hfirst pre e' hpre outs s' hrun => ?_⟩
  cases pre with
  | nil =>
    obtain ⟨rfl, -⟩ := List.cons_prefix_cons.mp hpre
    obtain rfl := Flow.next.inj (Prod.mk.inj hrun).2
    exact hfirst
  | cons e₁ pre =>
    have hlen := hpre.length_le
    simp at hlen

/-- The rule for an iteration that stays in the loop: it has the property, and the rest has it from
the new state. -/
theorem atEvery_cons_next {P : σ → ε → Prop} {s s' : σ} {e : ε} {out : List ω}
    (h : body s e = (out, .next s')) (es : List ε) :
    AtEvery body s (e :: es) P ↔ P s e ∧ AtEvery body s' es P := by
  constructor
  · intro hP
    refine ⟨hP.first, fun pre e' hpre outs s'' hrun => ?_⟩
    refine hP (e :: pre) e' (List.cons_prefix_cons.mpr ⟨rfl, hpre⟩) (out :: outs) s'' ?_
    rw [run_cons_next h, hrun]
  · rintro ⟨hfirst, hrest⟩ pre e' hpre outs s'' hrun
    cases pre with
    | nil =>
      obtain ⟨rfl, -⟩ := List.cons_prefix_cons.mp hpre
      obtain rfl := Flow.next.inj (Prod.mk.inj hrun).2
      exact hfirst
    | cons e₁ pre =>
      obtain ⟨rfl, htail⟩ := List.cons_prefix_cons.mp hpre
      rw [run_cons_next h] at hrun
      exact hrest pre e' htail _ s'' (Prod.ext rfl (Prod.mk.inj hrun).2)

/-- Behind an iteration that leaves the loop nothing is asked. -/
theorem atEvery_cons_exit {P : σ → ε → Prop} {s : σ} {e : ε} {out : List ω} {r : ρ}
    (h : body s e = (out, .exit r)) (es : List ε) :
    AtEvery body s (e :: es) P ↔ P s e := by
  refine ⟨AtEvery.first, fun hfirst pre e' hpre outs s'' hrun => ?_⟩
  cases pre with
  | nil =>
    obtain ⟨rfl, -⟩ := List.cons_prefix_cons.mp hpre
    obtain rfl := Flow.next.inj (Prod.mk.inj hrun).2
    exact hfirst
  | cons e₁ pre =>
    -- the loop is left at the first answer
    obtain ⟨rfl, -⟩ := List.cons_prefix_cons.mp hpre
    rw [run_cons_exit h] at hrun
    cases (Prod.mk.inj hrun).2

instance decidableAtEvery {P : σ → ε → Prop} [∀ s e, Decidable (P s e)] :
    (s : σ) → (es : List ε) → Decidable (AtEvery body s es P)
  | s, [] => .isTrue (atEvery_nil P s)
  | s, e :: es =>
    match h : body s e with
    | (_, .next s') =>
      haveI := decidableAtEvery (P := P) s' es
      decidable_of_iff _ (atEvery_cons_next h es).symm
    | (_, .exit _) => decidable_of_iff _ (atEvery_cons_exit h es).symm

/-- **The exit rule.** A run is left as it may be exactly if every iteration it comes to is. -/
theorem run_exit_iff_atEvery (Good : ρ → Prop) (s : σ) (es : List ε) :
    (∀ r, (run body s es).2 = .exit r → Good r) ↔
      AtEvery body s es fun s e => ∀ r, (body s e).2 = .exit r → Good r := by
  constructor
  · intro h pre e hpre outs s' hrun r hexit
    exact h r (run_exit_of_stop hpre hrun hexit)
  · intro h r hexit
    obtain ⟨pre, e, outs, s', hpre, hrun, hlast⟩ := exists_of_run_exit hexit
    exact h pre e hpre outs s' hrun r hlast

/-- Every exit of the body with what is known of it in the iteration that makes it. -/
def tagged {κ : Type} (body : Body σ ε ω ρ) (tag : σ → ε → κ) : Body σ ε ω (ρ × κ) := fun s e =>
  match body s e with
  | (out, .next s') => (out, .next s')
  | (out, .exit r) => (out, .exit (r, tag s e))

theorem tagged_next {κ : Type} (tag : σ → ε → κ) {s s' : σ} {e : ε} {out : List ω}
    (h : body s e = (out, .next s')) : tagged body tag s e = (out, .next s') := by
  rw [tagged, h]

theorem tagged_exit {κ : Type} (tag : σ → ε → κ) {s : σ} {e : ε} {out : List ω} {r : ρ}
    (h : body s e = (out, .exit r)) : tagged body tag s e = (out, .exit (r, tag s e)) := by
  rw [tagged, h]

/-- What is asked of an exit with its tag can be asked of the exit alone. -/
theorem tagged_exit_iff {κ : Type} (tag : σ → ε → κ) (P : ρ × κ → Prop) (s : σ) (e : ε) :
    (∀ y, (tagged body tag s e).2 = .exit y → P y) ↔
      ∀ r, (body s e).2 = .exit r → P (r, tag s e) := by
  rcases h : body s e with ⟨out, s' | r⟩
  · rw [tagged_next tag h]
    simp
  · rw [tagged_exit tag h]
    simp

/-- A tagged run is the run, with a tag at its exit. -/
theorem run_tagged (body : Body σ ε ω ρ) {κ : Type} (tag : σ → ε → κ) (s : σ) (es : List ε) :
    (∃ outs s', run body s es = (outs, .next s') ∧
      run (tagged body tag) s es = (outs, .next s')) ∨
    ∃ outs r k, run body s es = (outs, .exit r) ∧
      run (tagged body tag) s es = (outs, .exit (r, k)) := by
  induction es generalizing s with
  | nil => exact Or.inl ⟨[], s, rfl, rfl⟩
  | cons e es ih =>
    rcases hb : body s e with ⟨out, s₁ | r⟩
    · rw [run_cons_next hb, run_cons_next (tagged_next tag hb)]
      rcases ih s₁ with ⟨outs, s', hrun, htag⟩ | ⟨outs, r, k, hrun, htag⟩
      · exact Or.inl ⟨out :: outs, s', by rw [hrun], by rw [htag]⟩
      · exact Or.inr ⟨out :: outs, r, k, by rw [hrun], by rw [htag]⟩
    · exact Or.inr ⟨[out], r, tag s e, run_cons_exit hb es, run_cons_exit (tagged_exit tag hb) es⟩

/-- Tagging changes no iteration that is come to. -/
theorem atEvery_tagged {κ : Type} (tag : σ → ε → κ) (s : σ) (es : List ε) (P : σ → ε → Prop) :
    AtEvery (tagged body tag) s es P ↔ AtEvery body s es P := by
  constructor
  · intro h pre e hpre outs s' hrun
    rcases run_tagged body tag s pre with ⟨outs₁, s₁, hrun₁, htag⟩ | ⟨_, _, _, hrun₁, -⟩
    · rw [hrun₁, Prod.mk.injEq] at hrun
      obtain rfl := Flow.next.inj hrun.2
      exact h pre e hpre outs₁ s₁ htag
    · rw [hrun₁] at hrun
      exact absurd (congrArg Prod.snd hrun) (by simp)
  · intro h pre e hpre outs s' hrun
    rcases run_tagged body tag s pre with ⟨outs₁, s₁, hrun₁, htag⟩ | ⟨_, _, _, -, htag⟩
    · rw [htag, Prod.mk.injEq] at hrun
      obtain rfl := Flow.next.inj hrun.2
      exact h pre e hpre outs₁ s₁ hrun₁
    · rw [htag] at hrun
      exact absurd (congrArg Prod.snd hrun) (by simp)

/-- **The invariant rule for guarded runs.** A relation between the answers so far, the calls so
far and the state that every iteration whose guard is met preserves holds after every run that is
still in the loop and has met the guard all along. -/
theorem run_invariant_guarded {I : List ε → List ω → σ → Prop} {G : σ → ε → Prop} {s₀ : σ}
    (h₀ : I [] [] s₀)
    (hstep : ∀ es out s e o s', I es out s → G s e → body s e = (o, .next s') →
      I (es ++ [e]) (out ++ o) s') {es : List ε}
    (hguard : ∀ pre e, pre ++ [e] <+: es → ∀ outs s, run body s₀ pre = (outs, .next s) → G s e)
    {outs : List (List ω)} {s : σ} (h : run body s₀ es = (outs, .next s)) :
    I es outs.flatten s := by
  induction es using List.reverseRecOn generalizing outs s with
  | nil =>
    simp only [run_nil, Prod.mk.injEq, Flow.next.injEq] at h
    obtain ⟨rfl, rfl⟩ := h
    exact h₀
  | append_singleton es e ih =>
    rcases hpre : run body s₀ es with ⟨outs₁, s₁ | r⟩
    · rw [run_snoc hpre, Prod.mk.injEq] at h
      obtain ⟨rfl, hflow⟩ := h
      have hinv := ih (fun pre e' hp => hguard pre e' (hp.trans (List.prefix_append es [e]))) hpre
      have hmet := hguard es e List.prefix_rfl outs₁ s₁ hpre
      have := hstep es outs₁.flatten s₁ e _ s hinv hmet (Prod.ext rfl hflow)
      simpa using this
    · rw [run_append_exit hpre] at h
      exact absurd (congrArg Prod.snd h) (by simp)

end EventLoop
