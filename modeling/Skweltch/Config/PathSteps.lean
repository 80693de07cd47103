import Skweltch.Config.JsonPath

/-!
# Skweltch — the steps of a path

The loop of `JsonPath::getPath` (`config/JsonPath.cpp`) cuts a path into tokens while it walks.
Where it cuts does not depend on the value, so a path is a list of steps and the walk takes them
in order (`walk_eq_foldlM`). `Hits` and `Misses` say what a step finds, for a value that is there;
a step that neither hits nor misses throws.
-/

namespace Skweltch

open FixedWidth NumText

namespace JsonPath

open Json

/-- What one turn of the loop in `getPath` does. -/
inductive Step where
  /-- a name with nothing in front of it -/
  | name (token : Str)
  | member (token : Str)
  | index (text : Str)
  | select (condition : Str)
  /-- a bracket that is not closed -/
  | unclosed
deriving DecidableEq, Repr

/-- The steps of a path. -/
def steps : Str → List Step
  | [] => []
  | c :: rest =>
    if c = '.' then .member (nextToken rest).1 :: steps (nextToken rest).2
    else if c = '[' then
      match _h : getCondition rest with
      | .error _ => [.unclosed]
      | .ok (cond, rest') => (if '=' ∈ cond then .select cond else .index cond) :: steps rest'
    else .name (nextToken (c :: rest)).1 :: steps (nextToken (c :: rest)).2
termination_by path => path.length
decreasing_by
  · have := (List.dropWhile_sublist (l := rest) fun c => !isMark c).length_le
    simp only [nextToken, List.length_cons]
    omega
  · have := getCondition_length _h
    simp only [List.length_cons]
    omega
  · next h₁ h₂ =>
    have hc : isMark c = false := by simp [isMark, h₁, h₂]
    have := (List.dropWhile_sublist (l := rest) fun c => !isMark c).length_le
    simp only [nextToken, List.dropWhile_cons, hc, Bool.not_false, if_true, List.length_cons]
    omega

/-- One turn of the loop, from where the pointer is. -/
def Step.take : Step → Option Json → Except JsonFault (Option Json)
  | .name token, o => do
    let m ← objOf o
    .ok (get m token)
  | .member token, o => JsonPath.member o token
  | .index text, o => JsonPath.element o text
  | .select condition, o => do
    let m ← objOf o
    getChildWithCondition condition m
  | .unclosed, _ => .error (.runtimeError "no end for condition")

/-- The only way in which a condition throws: nothing closes it. -/
theorem getCondition_error {remain : Str} {f : JsonFault} (h : getCondition remain = .error f) :
    f = .runtimeError "no end for condition" := by
  unfold getCondition at h
  split at h
  · cases h
  · exact (Except.error.inj h).symm

/-- A dot, in the words of the steps: the member that the next token names. -/
theorem walk_dot (o : Option Json) (rest : Str) :
    walk o ('.' :: rest) =
      (member o (nextToken rest).1).bind fun o' => walk o' (nextToken rest).2 := by
  rw [walk, if_pos rfl]
  cases member o (nextToken rest).1 with
  | error f => rfl
  | ok o' => rfl

/-- A bracket that nothing closes ends the walk, whatever the value is. -/
theorem walk_unclosed (o : Option Json) {rest : Str} {f : JsonFault}
    (h : getCondition rest = .error f) : walk o ('[' :: rest) = .error f := by
  rw [walk, if_neg (by decide), if_pos rfl]
  split
  · next f' h' => rw [Except.error.inj (h'.symm.trans h)]
  · next h' => rw [h] at h'; cases h'

/-- A bracket, in the words of the steps: an `=` in the condition makes it a selection. -/
theorem walk_bracket (o : Option Json) {rest cond rest' : Str}
    (h : getCondition rest = .ok (cond, rest')) :
    walk o ('[' :: rest) =
      (Step.take (if '=' ∈ cond then .select cond else .index cond) o).bind
        fun o' => walk o' rest' := by
  rw [walk, if_neg (by decide), if_pos rfl]
  split
  · next h' => rw [h] at h'; cases h'
  · next cond₁ rest₁ h' =>
    obtain ⟨rfl, rfl⟩ := Prod.mk.inj (Except.ok.inj (h.symm.trans h'))
    split
    · simp only [Step.take]
      cases objOf o with
      | error f => rfl
      | ok m =>
        simp only [bind, Except.bind]
        cases getChildWithCondition cond m with
        | error f => rfl
        | ok o' => rfl
    · simp only [Step.take]
      cases element o cond with
      | error f => rfl
      | ok o' => rfl

/-- A token without a dot before it, which only the beginning of a path can be. -/
theorem walk_token (o : Option Json) {c : Char} (hdot : c ≠ '.') (hopen : c ≠ '[') (rest : Str) :
    walk o (c :: rest) =
      (objOf o).bind fun m => walk (get m (nextToken (c :: rest)).1) (nextToken (c :: rest)).2 := by
  rw [walk, if_neg hdot, if_neg hopen]
  cases objOf o with
  | error f => rfl
  | ok m => rfl

theorem steps_dot (rest : Str) :
    steps ('.' :: rest) = .member (nextToken rest).1 :: steps (nextToken rest).2 := by
  rw [steps, if_pos rfl]

theorem steps_unclosed {rest : Str} {f : JsonFault} (h : getCondition rest = .error f) :
    steps ('[' :: rest) = [.unclosed] := by
  rw [steps, if_neg (by decide), if_pos rfl]
  split
  · rfl
  · next h' => rw [h] at h'; cases h'

/-- What is read of a path that begins with a condition. -/
theorem steps_bracket {rest cond rest' : Str} (h : getCondition rest = .ok (cond, rest')) :
    steps ('[' :: rest) = (if '=' ∈ cond then .select cond else .index cond) :: steps rest' := by
  rw [steps, if_neg (by decide), if_pos rfl]
  split
  · next h' => rw [h] at h'; cases h'
  · next cond₁ rest₁ h' =>
    obtain ⟨rfl, rfl⟩ := Prod.mk.inj (Except.ok.inj (h.symm.trans h'))
    rfl

theorem steps_token {c : Char} (hdot : c ≠ '.') (hopen : c ≠ '[') (rest : Str) :
    steps (c :: rest) = .name (nextToken (c :: rest)).1 :: steps (nextToken (c :: rest)).2 := by
  rw [steps, if_neg hdot, if_neg hopen]

/-- A path that is one name. -/
theorem steps_plain {s : Str} (hs : Plain s) (hne : s ≠ []) : steps s = [.name s] := by
  obtain ⟨c, s, rfl⟩ := List.exists_cons_of_ne_nil hne
  rw [steps_token hs.head.1 hs.head.2, nextToken_plain hs, steps]

/-- The loop takes the steps in order. -/
theorem walk_eq_foldlM (o : Option Json) (path : Str) :
    walk o path = (steps path).foldlM (fun o s => s.take o) o := by
  -- the cases of the loop: no more path, a dot, a bracket left open, a bracket, a name
  induction path using steps.induct generalizing o with
  | case1 =>
    rw [walk, steps]
    rfl
  | case2 rest ih =>
    rw [walk_dot, steps_dot, List.foldlM_cons]
    exact congrArg _ (funext fun o' => ih o')
  | case3 rest f h =>
    rw [walk_unclosed o h, steps_unclosed h, getCondition_error h]
    rfl
  | case4 rest cond rest' h _ ih =>
    rw [walk_bracket o h, steps_bracket h, List.foldlM_cons]
    exact congrArg _ (funext fun o' => ih o')
  | case5 c rest hdot hopen ih =>
    rw [walk_token o hdot hopen, steps_token hdot hopen, List.foldlM_cons, Step.take]
    cases objOf o with
    | error f => rfl
    | ok m => exact ih _

/-! ## What a step finds

A selection can throw before it comes to the child that matches. So what it finds is said with the
members before: none of them matches, and each of them can be asked. -/

/-- The step leads from a value to a value. -/
def Step.Hits : Step → Json → Json → Prop
  | .name token, v, w => ∃ m, v = .obj m ∧ get m token = some w
  | .member token, v, w => ∃ m m', v = .obj m ∧ get m token = some (.obj m') ∧ w = .obj m'
  | .index text, v, w =>
    ∃ es i, v = .arr es ∧ readInt text = some i ∧ 0 ≤ i ∧ es[i.toNat]? = some w
  | .select condition, v, w => ∃ pre name post, v = .obj (pre ++ (name, w) :: post) ∧
      (∀ p ∈ pre, childMatches p.2 condition = .ok false) ∧ childMatches w condition = .ok true
  | .unclosed, _, _ => False

/-- The step finds nothing and does not say so. -/
def Step.Misses : Step → Json → Prop
  | .name token, v => ∃ m, v = .obj m ∧ get m token = none
  | .select condition, v => ∃ m, v = .obj m ∧ ∀ p ∈ m, childMatches p.2 condition = .ok false
  | _, _ => False

/-- Members that do not match are passed over. -/
theorem getChildWithCondition_append {condition : Str} {pre : Object}
    (h : ∀ p ∈ pre, childMatches p.2 condition = .ok false) (m : Object) :
    getChildWithCondition condition (pre ++ m) = getChildWithCondition condition m := by
  induction pre with
  | nil => rfl
  | cons p pre ih =>
    obtain ⟨hp, hpre⟩ := List.forall_mem_cons.mp h
    obtain ⟨name, v⟩ := p
    rw [List.cons_append, getChildWithCondition, hp, ← ih hpre]
    rfl

/-- The search, from the first member that it does not pass over. -/
theorem getChildWithCondition_cases (condition : Str) (m : Object) :
    ((∀ p ∈ m, childMatches p.2 condition = .ok false) ∧
      getChildWithCondition condition m = .ok none) ∨
    ∃ pre name w post, m = pre ++ (name, w) :: post ∧
      (∀ p ∈ pre, childMatches p.2 condition = .ok false) ∧
      ((childMatches w condition = .ok true ∧ getChildWithCondition condition m = .ok (some w)) ∨
        ∃ f, childMatches w condition = .error f ∧
          getChildWithCondition condition m = .error f) := by
  induction m with
  | nil => exact Or.inl ⟨by simp, rfl⟩
  | cons p m ih =>
    obtain ⟨name, v⟩ := p
    cases hv : childMatches v condition with
    | error f =>
      refine Or.inr ⟨[], name, v, m, rfl, by simp, Or.inr ⟨f, hv, ?_⟩⟩
      rw [getChildWithCondition, hv]
      rfl
    | ok b =>
      cases b with
      | true =>
        refine Or.inr ⟨[], name, v, m, rfl, by simp, Or.inl ⟨hv, ?_⟩⟩
        rw [getChildWithCondition, hv]
        rfl
      | false =>
        -- this child does not match, so that the rest decides
        have hskip : getChildWithCondition condition ((name, v) :: m) =
            getChildWithCondition condition m := by
          rw [getChildWithCondition, hv]
          rfl
        rw [hskip]
        rcases ih with ⟨hall, hm⟩ | ⟨pre, name', w, post, rfl, hpre, hw⟩
        · exact Or.inl ⟨List.forall_mem_cons.mpr ⟨hv, hall⟩, hm⟩
        · exact Or.inr ⟨(name, v) :: pre, name', w, post, rfl,
            List.forall_mem_cons.mpr ⟨hv, hpre⟩, hw⟩

/-- The child that is selected is the first that matches, and none before it throws. -/
theorem getChildWithCondition_eq_some_iff {condition : Str} {m : Object} {w : Json} :
    getChildWithCondition condition m = .ok (some w) ↔
      ∃ pre name post, m = pre ++ (name, w) :: post ∧
      (∀ p ∈ pre, childMatches p.2 condition = .ok false) ∧
      childMatches w condition = .ok true := by
  constructor
  · intro h
    rcases getChildWithCondition_cases condition m with
      ⟨-, hm⟩ | ⟨pre, name, w', post, rfl, hpre, ⟨hw, hm⟩ | ⟨f, -, hm⟩⟩
    · rw [hm] at h
      cases h
    · rw [hm] at h
      obtain rfl := Option.some.inj (Except.ok.inj h)
      exact ⟨pre, name, post, rfl, hpre, hw⟩
    · rw [hm] at h
      cases h
  · rintro ⟨pre, name, post, rfl, hpre, hw⟩
    rw [getChildWithCondition_append hpre, getChildWithCondition, hw]
    rfl

/-- Nothing is selected when every child has been asked and none matches. -/
theorem getChildWithCondition_eq_none_iff {condition : Str} {m : Object} :
    getChildWithCondition condition m = .ok none ↔
      ∀ p ∈ m, childMatches p.2 condition = .ok false := by
  constructor
  · intro h
    rcases getChildWithCondition_cases condition m with
      ⟨hall, -⟩ | ⟨pre, name, w', post, rfl, hpre, ⟨hw, hm⟩ | ⟨f, -, hm⟩⟩
    · exact hall
    · rw [hm] at h
      cases h
    · rw [hm] at h
      cases h
  · intro h
    rw [← List.append_nil m, getChildWithCondition_append h]
    rfl

theorem getObj_ne_undefined (v : Json) : v.getObj ≠ .error .undefined := by
  cases v with
  | obj m => simp
  | _ => simp [getObj, wrongType]

/-- Comparing a member with a value follows no null pointer. -/
theorem valueMatches_ne_undefined (v : Json) (key value : Str) :
    valueMatches v key value ≠ .error .undefined := by
  unfold valueMatches
  cases v with
  | obj m =>
    simp only [getObj_obj, bind, Except.bind]
    split
    · unfold toInt
      cases readInt value with
      | none => simp
      | some n => simp
    · simp
    · simp
  | _ => simp [getObj, wrongType, bind, Except.bind]

/-- A selection among the members of an object follows no null pointer. -/
theorem getChildWithCondition_ne_undefined (condition : Str) (m : Object) :
    getChildWithCondition condition m ≠ .error .undefined := by
  rcases getChildWithCondition_cases condition m with
    ⟨-, hm⟩ | ⟨pre, name, w', post, rfl, hpre, ⟨hw, hm⟩ | ⟨f, hf, hm⟩⟩
  · rw [hm]
    simp
  · rw [hm]
    simp
  · rw [hm]
    intro h
    rw [Except.error.inj h] at hf
    exact valueMatches_ne_undefined _ _ _ hf

/-! ## The step from a value that is there

For each kind of step: what it comes to (`Hits`), when it comes to null (`Misses`), and that it
throws in all other cases. The two are said about the value and the step alone, without running it.
-/

theorem Step.take_name (token : Str) (m : Object) :
    (Step.name token).take (some (.obj m)) = .ok (get m token) := rfl

theorem Step.take_select (condition : Str) (m : Object) :
    (Step.select condition).take (some (.obj m)) = getChildWithCondition condition m := rfl

/-- Behind a dot the member that is found has to be an object. -/
theorem Step.take_member (token : Str) (m : Object) :
    (Step.member token).take (some (.obj m)) =
      match get m token with
      | some (.obj m') => .ok (some (.obj m'))
      | _ => .error (.runtimeError
          ("token returned a non-object '" ++ String.ofList token ++ "'")) := rfl

/-- What a step comes to, said without running it. -/
theorem Step.take_eq_some_iff {s : Step} {v w : Json} :
    s.take (some v) = .ok (some w) ↔ s.Hits v w := by
  cases s with
  | name token =>
    cases v with
    | obj m =>
      rw [Step.take_name, Except.ok.injEq]
      simp [Step.Hits]
    | _ => simp [Step.Hits, Step.take, objOf, getObj, wrongType, bind, Except.bind]
  | member token =>
    cases v with
    | obj m =>
      rw [Step.take_member]
      split
      · next m' h => simp [Step.Hits, h, eq_comm]
      · next h =>
        -- a member that is no object throws, so nothing is hit
        simp only [Step.Hits, reduceCtorEq, false_iff]
        rintro ⟨m₁, m', heq, hget, -⟩
        cases heq
        exact h m' hget
    | _ =>
      simp [Step.Hits, Step.take, JsonPath.member, objOf, getObj, wrongType, bind, Except.bind]
  | index text =>
    cases v with
    | arr es =>
      simp only [Step.take, element, toInt, Step.Hits]
      cases hi : readInt text with
      | none => simp [bind, Except.bind]
      | some i =>
        simp only [bind, Except.bind]
        by_cases h0 : 0 ≤ i
        · rw [if_pos h0]
          cases hget : es[i.toNat]? with
          | none => simp [hget]
          | some u => simp [hget, h0]
        · rw [if_neg h0]
          simp [h0]
    | _ => simp [Step.Hits, Step.take, element]
  | select condition =>
    cases v with
    | obj m =>
      rw [Step.take_select, getChildWithCondition_eq_some_iff]
      simp [Step.Hits]
    | _ => simp [Step.Hits, Step.take, objOf, getObj, wrongType, bind, Except.bind]
  | unclosed => simp [Step.Hits, Step.take]

/-- When a step comes to null, said without running it. -/
theorem Step.take_eq_none_iff {s : Step} {v : Json} :
    s.take (some v) = .ok none ↔ s.Misses v := by
  cases s with
  | name token =>
    cases v with
    | obj m =>
      rw [Step.take_name, Except.ok.injEq]
      simp [Step.Misses]
    | _ => simp [Step.Misses, Step.take, objOf, getObj, wrongType, bind, Except.bind]
  | member token =>
    cases v with
    | obj m =>
      rw [Step.take_member]
      split
      · simp [Step.Misses]
      · simp [Step.Misses]
    | _ =>
      simp [Step.Misses, Step.take, JsonPath.member, objOf, getObj, wrongType, bind, Except.bind]
  | index text =>
    cases v with
    | arr es =>
      -- an index comes to an element or throws, and never to null
      simp only [Step.take, element, toInt, Step.Misses, iff_false]
      cases hi : readInt text with
      | none => simp [bind, Except.bind]
      | some i =>
        simp only [bind, Except.bind]
        split
        · split
          · simp
          · simp
        · simp
    | _ => simp [Step.Misses, Step.take, element]
  | select condition =>
    cases v with
    | obj m =>
      rw [Step.take_select, getChildWithCondition_eq_none_iff]
      simp [Step.Misses]
    | _ => simp [Step.Misses, Step.take, objOf, getObj, wrongType, bind, Except.bind]
  | unclosed => simp [Step.Misses, Step.take]

/-! A step finds one value, or nothing, or throws. -/

section

variable {s : Step} {v w : Json}

theorem Step.Hits.unique {w' : Json} (h : s.Hits v w) (h' : s.Hits v w') : w' = w := by
  have htake := Step.take_eq_some_iff.mpr h
  rw [Step.take_eq_some_iff.mpr h'] at htake
  exact Option.some.inj (Except.ok.inj htake)

theorem Step.Hits.not_misses (h : s.Hits v w) : ¬ s.Misses v := by
  intro hmiss
  have htake := Step.take_eq_some_iff.mpr h
  rw [Step.take_eq_none_iff.mpr hmiss] at htake
  cases htake

theorem Step.not_hits_of_throws {f : JsonFault} (h : s.take (some v) = .error f) :
    ¬ s.Hits v w := by
  intro hit
  rw [Step.take_eq_some_iff.mpr hit] at h
  cases h

theorem Step.not_misses_of_throws {f : JsonFault} (h : s.take (some v) = .error f) :
    ¬ s.Misses v := by
  intro hmiss
  rw [Step.take_eq_none_iff.mpr hmiss] at h
  cases h

end

/-- From a value that is there no step is undefined: only the step after a null pointer is. -/
theorem Step.take_ne_undefined (s : Step) (v : Json) : s.take (some v) ≠ .error .undefined := by
  cases s with
  | name token =>
    cases v with
    | obj m => simp [Step.take_name]
    | _ => simp [Step.take, objOf, getObj, wrongType, bind, Except.bind]
  | member token =>
    cases v with
    | obj m =>
      rw [Step.take_member]
      split
      · simp
      · simp
    | _ => simp [Step.take, JsonPath.member, objOf, getObj, wrongType, bind, Except.bind]
  | index text =>
    cases v with
    | arr es =>
      simp only [Step.take, element, toInt]
      cases hi : readInt text with
      | none => simp [bind, Except.bind]
      | some i =>
        simp only [bind, Except.bind]
        split
        · split
          · simp
          · simp
        · simp
    | _ => simp [Step.take, element]
  | select condition =>
    cases v with
    | obj m =>
      rw [Step.take_select]
      -- a selection passes a null member over
      exact getChildWithCondition_ne_undefined condition m
    | _ => simp [Step.take, objOf, getObj, wrongType, bind, Except.bind]
  | unclosed => simp [Step.take]

/-- Behind a null pointer every step follows it, but a bracket that is not closed throws first. -/
theorem Step.take_null (s : Step) :
    s.take none = .error
      (if s = .unclosed then .runtimeError "no end for condition" else .undefined) := by
  cases s with
  | unclosed => rfl
  | _ => rfl

/-! ## What a path addresses

A path is followed step by step. It addresses the value at its end, it comes to null, which may be
followed further, or one of its steps throws. -/

/-- The value that the steps lead to. -/
inductive Addresses : Json → List Step → Json → Prop where
  | nil (v : Json) : Addresses v [] v
  | cons {v w u : Json} {s : Step} {ss : List Step} (hit : s.Hits v w) (rest : Addresses w ss u) :
      Addresses v (s :: ss) u

/-- Some step finds nothing and the path ends there or goes on with a step that looks at what was
found. -/
def FollowsNull (v : Json) (ss : List Step) : Prop :=
  ∃ pre s post u, ss = pre ++ s :: post ∧ Addresses v pre u ∧ s.Misses u ∧
    post.head? ≠ some .unclosed

/-- A null pointer is followed when the first step misses and another comes behind it, or later on.
-/
theorem followsNull_cons_iff {v : Json} {s : Step} {ss : List Step} :
    FollowsNull v (s :: ss) ↔
      (s.Misses v ∧ ss.head? ≠ some .unclosed) ∨ ∃ w, s.Hits v w ∧ FollowsNull w ss := by
  constructor
  · rintro ⟨pre, s', post, u, heq, haddr, hmiss, hpost⟩
    cases haddr with
    | nil =>
      obtain ⟨rfl, rfl⟩ := List.cons.inj heq
      exact Or.inl ⟨hmiss, hpost⟩
    | cons hit rest =>
      obtain ⟨rfl, rfl⟩ := List.cons.inj heq
      exact Or.inr ⟨_, hit, _, s', post, u, rfl, rest, hmiss, hpost⟩
  · rintro (⟨hmiss, hpost⟩ | ⟨w, hit, pre, s', post, u, rfl, haddr, hmiss, hpost⟩)
    · exact ⟨[], s, ss, v, rfl, .nil v, hmiss, hpost⟩
    · exact ⟨s :: pre, s', post, u, rfl, .cons hit haddr, hmiss, hpost⟩

/-- Taking the steps, from a value that is there. -/
def follow (v : Json) (ss : List Step) : Except JsonFault (Option Json) :=
  ss.foldlM (fun o s => s.take o) (some v)

theorem walk_eq_follow (v : Json) (path : Str) : walk (some v) path = follow v (steps path) :=
  walk_eq_foldlM (some v) path

theorem follow_hit {s : Step} {v w : Json} (h : s.Hits v w) (ss : List Step) :
    follow v (s :: ss) = follow w ss := by
  rw [follow, List.foldlM_cons, Step.take_eq_some_iff.mpr h]
  rfl

/-- Behind a step that misses, whatever comes next follows a null pointer, unless it throws before.
-/
theorem follow_miss {s : Step} {v : Json} (h : s.Misses v) (ss : List Step) :
    follow v (s :: ss) =
      match ss with
      | [] => .ok none
      | s' :: _ => .error (if s' = .unclosed then .runtimeError "no end for condition"
          else .undefined) := by
  rw [follow, List.foldlM_cons, Step.take_eq_none_iff.mpr h]
  cases ss with
  | nil => rfl
  | cons s' ss =>
    simp only [bind, Except.bind]
    rw [List.foldlM_cons, Step.take_null]
    rfl

theorem follow_throws {s : Step} {v : Json} {f : JsonFault} (h : s.take (some v) = .error f)
    (ss : List Step) : follow v (s :: ss) = .error f := by
  rw [follow, List.foldlM_cons, h]
  rfl

/-- The walk ends at the values that the steps address. -/
theorem follow_eq_some_iff {v w : Json} {ss : List Step} :
    follow v ss = .ok (some w) ↔ Addresses v ss w := by
  constructor
  · intro h
    induction ss generalizing v with
    | nil =>
      obtain rfl := Option.some.inj (Except.ok.inj h)
      exact .nil v
    | cons s ss ih =>
      cases htake : s.take (some v) with
      | error f =>
        rw [follow_throws htake] at h
        cases h
      | ok o =>
        cases o with
        | none =>
          rw [follow_miss (Step.take_eq_none_iff.mp htake)] at h
          cases ss with
          | nil => cases h
          | cons s' ss => cases h
        | some u =>
          have hit := Step.take_eq_some_iff.mp htake
          rw [follow_hit hit] at h
          -- a step that hits is the first of those that address the value
          exact .cons hit (ih h)
  · intro h
    induction h with
    | nil v => rfl
    | cons hit _ ih => rw [follow_hit hit, ih]

/-- **Null pointers.** The walk ends at one, or follows one, exactly if a step finds nothing and no
unclosed bracket comes right behind it. -/
theorem follow_null_iff (v : Json) (ss : List Step) :
    (follow v ss = .ok none ∨ follow v ss = .error .undefined) ↔ FollowsNull v ss := by
  induction ss generalizing v with
  | nil =>
    refine iff_of_false ?_ ?_
    · rintro (h | h)
      · cases h
      · cases h
    · rintro ⟨pre, s, post, u, heq, -⟩
      simp at heq
  | cons s ss ih =>
    rw [followsNull_cons_iff]
    cases htake : s.take (some v) with
    | error f =>
      have hne : f ≠ .undefined := fun hf => Step.take_ne_undefined s v (hf ▸ htake)
      -- what a step throws is never the null pointer, and the walk ends with it
      rw [follow_throws htake]
      refine iff_of_false (by simpa using hne) ?_
      rintro (⟨hmiss, -⟩ | ⟨w, hit, -⟩)
      · exact Step.not_misses_of_throws htake hmiss
      · exact Step.not_hits_of_throws htake hit
    | ok o =>
      cases o with
      | none =>
        have hmiss := Step.take_eq_none_iff.mp htake
        have hno : ¬ ∃ w, s.Hits v w ∧ FollowsNull w ss := by
          rintro ⟨w, hit, -⟩
          exact hit.not_misses hmiss
        -- the pointer is null from here on, and only an open bracket does not follow it
        rw [follow_miss hmiss, or_iff_left hno]
        cases ss with
        | nil => simp [hmiss]
        | cons s' ss =>
          by_cases hs : s' = .unclosed
          · simp [hs]
          · simp [hs, hmiss]
      | some w =>
        have hit := Step.take_eq_some_iff.mp htake
        have hno : ¬ (s.Misses v ∧ ss.head? ≠ some .unclosed) := fun h => hit.not_misses h.1
        rw [follow_hit hit, or_iff_right hno, ih w]
        constructor
        · exact fun h => ⟨w, hit, h⟩
        · rintro ⟨w', hit', h⟩
          obtain rfl := hit.unique hit'
          exact h

/-- The pointer that the loop ends with is followed. -/
theorem getPath_eq_ok_iff_walk {v w : Json} {path : Str} :
    getPath v path = .ok w ↔ walk (some v) path = .ok (some w) := by
  rw [getPath]
  cases walk (some v) path with
  | error f => simp [bind, Except.bind]
  | ok o => cases o <;> simp [bind, Except.bind]

theorem getPath_eq_ok_iff {v w : Json} {path : Str} :
    getPath v path = .ok w ↔ Addresses v (steps path) w := by
  rw [← follow_eq_some_iff, ← walk_eq_follow, getPath_eq_ok_iff_walk]

theorem getPath_eq_undefined_iff {v : Json} {path : Str} :
    getPath v path = .error .undefined ↔ FollowsNull v (steps path) := by
  rw [← follow_null_iff, ← walk_eq_follow, getPath]
  cases walk (some v) path with
  | error f => simp [bind, Except.bind]
  | ok o => cases o <;> simp [bind, Except.bind]

end JsonPath

end Skweltch
