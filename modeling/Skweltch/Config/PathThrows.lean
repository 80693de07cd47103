import Skweltch.Config.Lookups
import Skweltch.Config.PathUpdate

/-!
# Skweltch — what a path throws

Most of what `getPath` throws is a `runtime_error`. `Strays` says when it is something else: an
index that is no `int` or out of range, a number that is compared with something that is no `int`,
and the null pointers of `FollowsNull` (`getPath_strays_iff`). Once a path leads to a value,
setting a member behind it throws nothing but a `runtime_error`.
-/

namespace Skweltch

open FixedWidth JsonObject NumText Subtrees

namespace JsonPath

open Json

/-- The fault is a `runtime_error`. -/
def Runtime (f : JsonFault) : Prop := ∃ what, f = .runtimeError what

/-! ## Through a `do` block

A function that calls others throws what one of them throws. For the faults that nobody catches the
calls are gone through one by one. -/

variable {α β : Type}

/-- The call throws something that is no `runtime_error`. -/
def Uncaught (x : Except JsonFault α) : Prop := ∃ f, x = .error f ∧ ¬ Runtime f

@[simp] theorem not_uncaught_ok (a : α) : ¬ Uncaught (.ok a : Except JsonFault α) := by
  rintro ⟨f, hf, -⟩
  cases hf

@[simp] theorem uncaught_error {f : JsonFault} :
    Uncaught (.error f : Except JsonFault α) ↔ ¬ Runtime f := by
  simp [Uncaught]

theorem runtime_of_error {x : Except JsonFault α} (h : ¬ Uncaught x) {f : JsonFault}
    (hf : x = .error f) : Runtime f := by
  by_contra hno
  exact h ⟨f, hf, hno⟩

theorem uncaught_bind {x : Except JsonFault α} {f : α → Except JsonFault β} :
    Uncaught (x >>= f) ↔ Uncaught x ∨ ∃ a, x = .ok a ∧ Uncaught (f a) := by
  cases x with
  | error e => simp [bind, Except.bind]
  | ok a => simp [bind, Except.bind]

theorem not_uncaught_wrongType (expected : String) (v : Json) :
    ¬ Uncaught (wrongType expected v : Except JsonFault α) := by
  rw [wrongType, uncaught_error, not_not]
  exact ⟨_, rfl⟩

theorem not_uncaught_getObj (v : Json) : ¬ Uncaught v.getObj := by
  cases v with
  | obj m => exact not_uncaught_ok m
  | _ => exact not_uncaught_wrongType _ _

theorem not_uncaught_getStr (v : Json) : ¬ Uncaught v.getStr := by
  cases v with
  | str s => exact not_uncaught_ok s
  | _ => exact not_uncaught_wrongType _ _

theorem not_uncaught_getReal (v : Json) : ¬ Uncaught v.getReal := by
  cases v with
  | int n => exact not_uncaught_ok _
  | real q => exact not_uncaught_ok _
  | _ => exact not_uncaught_wrongType _ _

theorem not_uncaught_getString (v : Json) (key : Str) : ¬ Uncaught (getString v key) := by
  rw [getString, uncaught_bind]
  rintro (h | ⟨o, -, h⟩)
  · exact not_uncaught_getObj v h
  · exact not_uncaught_getStr _ h

theorem not_uncaught_getInt (v : Json) (key : Str) (dflt : Int) :
    ¬ Uncaught (JsonObject.getInt v key dflt) := by
  rw [JsonObject.getInt, uncaught_bind]
  rintro (h | ⟨o, -, h⟩)
  · exact not_uncaught_getObj v h
  · split at h
    · exact not_uncaught_ok _ h
    · exact not_uncaught_ok _ h

theorem not_uncaught_getDouble (v : Json) (key : Str) : ¬ Uncaught (getDouble v key) := by
  rw [getDouble, uncaught_bind]
  rintro (h | ⟨o, -, h⟩)
  · exact not_uncaught_getObj v h
  · exact not_uncaught_getReal _ h

theorem not_uncaught_getChild (v : Json) (key : Str) : ¬ Uncaught (getChild v key) := by
  rw [getChild, uncaught_bind]
  rintro (h | ⟨o, -, h⟩)
  · exact not_uncaught_getObj v h
  · exact not_uncaught_ok _ h

/-- Asking a value for its name throws runtime errors only. -/
theorem not_uncaught_matches (name : Str) (v : Json) :
    ¬ Uncaught (JsonNamePredicate.matches name v) := by
  unfold JsonNamePredicate.matches
  split
  · rw [uncaught_bind]
    rintro (h | ⟨s, -, h⟩)
    · exact not_uncaught_getString v _ h
    · exact not_uncaught_ok _ h
  · exact not_uncaught_ok _

/-- Asking values for their names one after the other throws runtime errors only. -/
theorem not_uncaught_search (name : Str) (vs : List Json) :
    ¬ Uncaught (search (JsonNamePredicate.matches name) vs) := by
  induction vs with
  | nil => exact not_uncaught_ok _
  | cons v vs ih =>
    rw [search, uncaught_bind]
    rintro (h | ⟨b, -, h⟩)
    · exact not_uncaught_matches name v h
    · split at h
      · exact not_uncaught_ok _ h
      · exact ih h

theorem not_uncaught_findObj (v : Json) (name : Str) :
    ¬ Uncaught (findObj v (JsonNamePredicate.matches name)) := by
  rw [findObj, uncaught_bind]
  rintro (h | ⟨o, -, h⟩)
  · exact not_uncaught_getObj v h
  · exact not_uncaught_search name _ h

/-! ## Along a path

Of the steps of a path only an index and a selection can throw what nobody catches. When they do is
said about the value, without running them. -/

def conditionValue (condition : Str) : Str :=
  ((condition.dropWhile (· ≠ '=')).drop 1).takeWhile (· ≠ '=')

/-- The step throws something that is no `runtime_error`. -/
def Step.Strays : Step → Json → Prop
  | .index text, v =>
    ∃ es, v = .arr es ∧ ∀ i, readInt text = some i → ¬ (0 ≤ i ∧ i.toNat < es.length)
  | .select condition, v =>
    ∃ pre name o n post, v = .obj (pre ++ (name, .obj o) :: post) ∧
      (∀ p ∈ pre, childMatches p.2 condition = .ok false) ∧
      get o (conditionKey condition) = some (.int n) ∧ readInt (conditionValue condition) = none
  | _, _ => False

/-- The walk leaves by something that is no `runtime_error`. -/
def Strays (v : Json) (ss : List Step) : Prop :=
  FollowsNull v ss ∨ ∃ pre s post u, ss = pre ++ s :: post ∧ Addresses v pre u ∧ s.Strays u

/-- The one comparison whose throw nobody catches: a number against a text that is none. -/
theorem childMatches_uncaught_iff {w : Json} {condition : Str} :
    Uncaught (childMatches w condition) ↔
      ∃ o n, w = .obj o ∧ get o (conditionKey condition) = some (.int n) ∧
        readInt (conditionValue condition) = none := by
  cases w with
  | obj o =>
    have hmatch : childMatches (.obj o) condition =
        valueMatches (.obj o) (conditionKey condition) (conditionValue condition) := rfl
    simp only [hmatch, valueMatches_obj, Json.obj.injEq, exists_and_left, exists_eq_left']
    cases get o (conditionKey condition) with
    | none => simp
    | some x =>
      cases x with
      | int n =>
        cases hread : readInt (conditionValue condition) with
        | none => simp [toInt, hread, Except.bind, Runtime]
        | some i => simp [toInt, hread, Except.bind]
      | _ => simp
  | _ =>
    refine iff_of_false ?_ (by simp)
    rintro ⟨f, hf, hno⟩
    exact hno ⟨_, (Except.error.inj hf).symm⟩

/-- The steps that throw what nobody catches, said without taking them. -/
theorem Step.strays_iff {s : Step} {v : Json} :
    Uncaught (s.take (some v)) ↔ s.Strays v := by
  cases s with
  | name token =>
    -- a name throws the `runtime_error` of `getObj`, and nothing else
    refine iff_of_false ?_ id
    rintro ⟨f, hf, hno⟩
    cases v with
    | obj m => cases hf
    | _ => exact hno ⟨_, (Except.error.inj hf).symm⟩
  | member token =>
    refine iff_of_false ?_ id
    rintro ⟨f, hf, hno⟩
    cases v with
    | obj m =>
      rw [Step.take_member] at hf
      split at hf
      · cases hf
      · exact hno ⟨_, (Except.error.inj hf).symm⟩
    | _ => exact hno ⟨_, (Except.error.inj hf).symm⟩
  -- an index that is no number, or one that the array does not have
  | index text =>
    cases v with
    | arr es =>
      simp only [Step.take, element, toInt, Step.Strays, Json.arr.injEq, exists_eq_left']
      cases hread : readInt text with
      | none => simp [bind, Except.bind, Runtime]
      | some i =>
        simp only [bind, Except.bind, Option.some.injEq, forall_eq']
        by_cases h0 : 0 ≤ i
        · rw [if_pos h0]
          by_cases hlt : i.toNat < es.length
          · simp [h0, hlt]
          · simp [hlt, Runtime]
        · simp [h0, Runtime]
    | _ =>
      refine iff_of_false ?_ (by simp [Step.Strays])
      rintro ⟨f, hf, hno⟩
      exact hno ⟨_, (Except.error.inj hf).symm⟩
  | select condition =>
    cases v with
    | obj m =>
      rw [Step.take_select]
      constructor
      -- the child that throws is the first that is not passed over
      · rintro ⟨f, hf, hno⟩
        rcases getChildWithCondition_cases condition m with
          ⟨-, hm⟩ | ⟨pre, name, w, post, rfl, hpre, ⟨-, hm⟩ | ⟨f', hw, hm⟩⟩
        · rw [hm] at hf
          cases hf
        · rw [hm] at hf
          cases hf
        · obtain rfl := Except.error.inj (hm.symm.trans hf)
          obtain ⟨o, n, rfl, hget, hread⟩ := childMatches_uncaught_iff.mp ⟨f', hw, hno⟩
          exact ⟨pre, name, o, n, post, rfl, hpre, hget, hread⟩
      · rintro ⟨pre, name, o, n, post, heq, hpre, hget, hread⟩
        obtain rfl := Json.obj.inj heq
        obtain ⟨f, hf, hno⟩ := childMatches_uncaught_iff.mpr ⟨o, n, rfl, hget, hread⟩
        refine ⟨f, ?_, hno⟩
        rw [getChildWithCondition_append hpre, getChildWithCondition, hf]
        rfl
    | _ =>
      refine iff_of_false ?_ (by simp [Step.Strays])
      rintro ⟨f, hf, hno⟩
      exact hno ⟨_, (Except.error.inj hf).symm⟩
  | unclosed =>
    refine iff_of_false ?_ id
    rintro ⟨f, hf, hno⟩
    exact hno ⟨_, (Except.error.inj hf).symm⟩

/-- A step that comes to something, or to null, does not. -/
theorem Step.not_strays_of_take {s : Step} {v : Json} {o : Option Json}
    (h : s.take (some v) = .ok o) : ¬ s.Strays v := by
  intro hstrays
  obtain ⟨f, hf, -⟩ := Step.strays_iff.mpr hstrays
  rw [hf] at h
  cases h

/-- Behind a step that hits, the rest decides. -/
theorem strays_cons_hit {s : Step} {v w : Json} (h : s.Hits v w) (ss : List Step) :
    Strays v (s :: ss) ↔ Strays w ss := by
  constructor
  · rintro (hnull | ⟨pre, s', post, u, heq, haddr, hs'⟩)
    · rcases followsNull_cons_iff.mp hnull with ⟨hm, -⟩ | ⟨w', h', hrest⟩
      · exact absurd hm h.not_misses
      · obtain rfl := h.unique h'
        exact Or.inl hrest
    · cases haddr with
      | nil =>
        obtain ⟨rfl, rfl⟩ := List.cons.inj heq
        exact absurd hs' (Step.not_strays_of_take (Step.take_eq_some_iff.mpr h))
      | @cons _ w' _ _ _ hit rest =>
        obtain ⟨rfl, rfl⟩ := List.cons.inj heq
        obtain rfl := h.unique hit
        exact Or.inr ⟨_, s', post, u, rfl, rest, hs'⟩
  · rintro (hnull | ⟨pre, s', post, u, rfl, haddr, hs'⟩)
    · exact Or.inl (followsNull_cons_iff.mpr (Or.inr ⟨w, h, hnull⟩))
    · exact Or.inr ⟨s :: pre, s', post, u, rfl, .cons h haddr, hs'⟩

/-- Where a step leads to no value, whether the walk strays is decided there. -/
theorem strays_cons_stop {s : Step} {v : Json} {ss : List Step}
    (h : ∀ w, s.take (some v) ≠ .ok (some w)) :
    Strays v (s :: ss) ↔ (s.Misses v ∧ ss.head? ≠ some .unclosed) ∨ s.Strays v := by
  constructor
  · rintro (hnull | ⟨pre, s', post, u, heq, haddr, hs'⟩)
    · rcases followsNull_cons_iff.mp hnull with hmiss | ⟨w, hit, -⟩
      · exact Or.inl hmiss
      · exact absurd (Step.take_eq_some_iff.mpr hit) (h w)
    · cases haddr with
      | nil =>
        obtain ⟨rfl, rfl⟩ := List.cons.inj heq
        exact Or.inr hs'
      | cons hit rest =>
        obtain ⟨rfl, rfl⟩ := List.cons.inj heq
        exact absurd (Step.take_eq_some_iff.mpr hit) (h _)
  · rintro (hmiss | hstray)
    · exact Or.inl (followsNull_cons_iff.mpr (Or.inl hmiss))
    · exact Or.inr ⟨[], s, ss, v, rfl, .nil v, hstray⟩

/-- The rule for whole paths, by induction on the steps. -/
theorem follow_strays_iff (v : Json) (ss : List Step) :
    (follow v ss = .ok none ∨ Uncaught (follow v ss)) ↔ Strays v ss := by
  induction ss generalizing v with
  | nil =>
    refine iff_of_false ?_ ?_
    · rintro (h | ⟨f, h, -⟩)
      · cases h
      · cases h
    · rintro (⟨pre, s, post, u, heq, -⟩ | ⟨pre, s, post, u, heq, -⟩)
      · simp at heq
      · simp at heq
  | cons s ss ih =>
    cases htake : s.take (some v) with
    | error f =>
      have hmiss := Step.not_misses_of_throws htake
      rw [strays_cons_stop (by simp [htake]), follow_throws htake, ← Step.strays_iff, htake]
      simp [hmiss]
    | ok o =>
      cases o with
      | none =>
        have hmiss := Step.take_eq_none_iff.mp htake
        have hstray := Step.not_strays_of_take htake
        -- the pointer is null from here on, and only an open bracket does not follow it
        rw [strays_cons_stop (by simp [htake]), follow_miss hmiss, or_iff_left hstray]
        cases ss with
        | nil => simp [hmiss]
        | cons s' ss =>
          by_cases hs : s' = .unclosed
          · simp [hs, Runtime]
          · simp [hs, hmiss, Runtime]
      | some w =>
        have hit := Step.take_eq_some_iff.mp htake
        rw [strays_cons_hit hit, follow_hit hit]
        exact ih w

/-- **What a path throws.** Something that is no `runtime_error`, exactly if the walk strays. -/
theorem getPath_strays_iff (v : Json) (path : Str) :
    Uncaught (getPath v path) ↔ Strays v (steps path) := by
  rw [← follow_strays_iff, ← walk_eq_follow, getPath]
  cases walk (some v) path with
  | error f => simp [bind, Except.bind]
  | ok o =>
    cases o with
    | none => simp [bind, Except.bind, Runtime]
    | some u => simp [bind, Except.bind]

/-- Behind a path that leads to a value, setting throws nothing but a `runtime_error`. -/
theorem setPathInt_runtime {doc w : Json} {path : Str} (h : getPath doc path = .ok w) (var : Str)
    (n : Int) {f : JsonFault} (hf : setPathInt doc path var n = .error f) : Runtime f := by
  rcases locate_eq doc path with ⟨p, w', hloc, hlead, -⟩ | ⟨-, hwalk⟩ | ⟨f', -, hwalk⟩
  · rw [setPathInt_of_leads hloc hlead] at hf
    cases hobj : w'.getObj with
    | error f' =>
      rw [hobj] at hf
      obtain rfl := Except.error.inj hf
      exact runtime_of_error (not_uncaught_getObj w') hobj
    | ok o =>
      rw [hobj] at hf
      cases hf
  · rw [getPath, hwalk] at h
    cases h
  · rw [getPath, hwalk] at h
    cases h

end JsonPath

end Skweltch
