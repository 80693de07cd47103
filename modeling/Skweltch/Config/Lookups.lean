import Skweltch.Config.PathSteps
import Skweltch.Lib.FirstMatch

/-!
# Skweltch — lookups among siblings

A `[key=value]` step of a path (`getChildWithCondition`, `config/JsonPath.cpp`) and `findObj` with
a `JsonNamePredicate` (`config/JsonObject.cpp`) look for the first value with a property. The test
that each of them uses throws on some of the values that have not got the property, so that what
is found depends on what comes before it (`selection_iff`, `findObj_named_iff`).
-/

namespace Skweltch

open FixedWidth NumText FirstMatch

namespace JsonPath

open Json

/-! ## Selection by a key

A selection asks the values of the members one after the other and stops at the first that matches,
or throws. The rule for such searches is the library's. -/

/-- What a `[key=value]` step is for: an object with this member, as a number or as a string. -/
def Matches (k v : Str) (x : Json) : Prop :=
  ∃ m, x = .obj m ∧
    ((∃ n, get m k = some (.int n) ∧ decimal v = some n) ∨ get m k = some (.str v))

/-- What the test of the step can compare: an object, and if the member is a number, an `int` to
compare it with that is not equal to it by truncation alone. -/
def Comparable (k v : Str) (x : Json) : Prop :=
  ∃ m, x = .obj m ∧
    ∀ n, get m k = some (.int n) → ∃ i, readInt v = some i ∧ (int32 n = i → n = i)

/-- How the member of an object is compared, by its kind. -/
theorem valueMatches_obj (m : Object) (k v : Str) :
    valueMatches (.obj m) k v =
      match get m k with
      | some (.int n) => (toInt v).bind fun val => .ok (int32 n = val)
      | some (.str s) => .ok (s = v)
      | _ => .ok false := rfl

/-- What the condition means for an object, a number or a string. -/
theorem matches_obj {m : Object} {k v : Str} :
    Matches k v (.obj m) ↔
      (∃ n, get m k = some (.int n) ∧ decimal v = some n) ∨ get m k = some (.str v) := by
  constructor
  · rintro ⟨m', heq, h⟩
    cases heq
    exact h
  · exact fun h => ⟨m, rfl, h⟩

/-- When the comparison decides that: the value reads as a number, and no wrapped one is taken for
it. -/
theorem comparable_obj {m : Object} {k v : Str} :
    Comparable k v (.obj m) ↔
      ∀ n, get m k = some (.int n) → ∃ i, readInt v = some i ∧ (int32 n = i → n = i) := by
  constructor
  · rintro ⟨m', heq, h⟩
    cases heq
    exact h
  · exact fun h => ⟨m, rfl, h⟩

/-- The comparison decides its condition for exactly the comparable values. -/
theorem valueMatches_decides_iff (k v : Str) (x : Json) :
    Decides (fun x => valueMatches x k v) (Matches k v) x ↔ Comparable k v x := by
  cases x with
  | obj m =>
    rw [Decides, valueMatches_obj, comparable_obj]
    simp only [matches_obj]
    cases hget : get m k with
    | none => simp
    | some y =>
      cases y with
      | int n =>
        simp only [toInt, Option.some.injEq, Json.int.injEq, forall_eq', exists_eq_left',
          reduceCtorEq, or_false]
        cases hread : readInt v with
        | none => simp [Except.bind]
        | some i =>
          -- the member is truncated to an `int` before it is compared
          have hint : IsInt i := of_decide_eq_true (Option.filter_eq_some_iff.mp hread).2
          simp only [Except.bind, decimal_of_readInt hread, Except.ok.injEq, exists_eq_left',
            decide_eq_true_eq, Option.some.injEq]
          constructor
          · exact fun h hn => (h.mp hn).symm
          · exact fun h => ⟨fun hn => (h hn).symm, fun hn => hn ▸ int32_of_isInt hint⟩
      | str s => simp
      | _ => simp
  | _ =>
    refine iff_of_false ?_ ?_
    · rintro ⟨b, hb, -⟩
      cases hb
    · rintro ⟨m, hm, -⟩
      cases hm

/-- No character that has a meaning in a condition. -/
def Bare (s : Str) : Prop := '=' ∉ s ∧ ']' ∉ s ∧ '"' ∉ s

instance (s : Str) : Decidable (Bare s) := inferInstanceAs (Decidable (_ ∧ _))

/-- `k=v` or `"k"=v`. -/
def conditionText (quoted : Bool) (k v : Str) : Str :=
  (if quoted then '"' :: (k ++ ['"']) else k) ++ '=' :: v

def stepText (quoted : Bool) (k v : Str) : Str := '[' :: (conditionText quoted k v ++ [']'])

/-- A text is cut at the first occurrence of a character. -/
theorem takeWhile_ne {c : Char} {s : Str} (h : c ∉ s) (rest : Str) :
    (s ++ c :: rest).takeWhile (· ≠ c) = s ∧ (s ++ c :: rest).dropWhile (· ≠ c) = c :: rest := by
  have hs : ∀ d ∈ s, decide (d ≠ c) = true := by
    rintro d hd
    exact decide_eq_true fun heq => h (heq ▸ hd)
  rw [List.takeWhile_append_of_pos hs, List.dropWhile_append_of_pos hs]
  simp

/-- The condition of a plain key and value is read back as these two, with quotes or without. -/
theorem childMatches_conditionText {k v : Str} (hk : Bare k) (hv : Bare v) (quoted : Bool)
    (x : Json) : childMatches x (conditionText quoted k v) = valueMatches x k v := by
  have hkey : '=' ∉ (if quoted then '"' :: (k ++ ['"']) else k) := by
    cases quoted with
    | true => simp [hk.1]
    | false => exact hk.1
  have hvalue : v.takeWhile (· ≠ '=') = v :=
    List.takeWhile_eq_self_iff.mpr fun d hd => decide_eq_true fun heq => hv.1 (heq ▸ hd)
  have hunquote : unquote (if quoted then '"' :: (k ++ ['"']) else k) = k := by
    cases quoted with
    | true => simp [unquote]
    | false =>
      have hhead : k.head? ≠ some '"' := fun h => hk.2.2 (List.mem_of_mem_head? h)
      simp [unquote, hhead]
  obtain ⟨htake, hdrop⟩ := takeWhile_ne hkey v
  rw [childMatches, conditionText, htake, hdrop, hunquote, List.drop_one, List.tail_cons, hvalue]

/-- A selection is a search for the first that matches. -/
theorem getChildWithCondition_eq_findM? (condition : Str) (m : Object) :
    getChildWithCondition condition m =
      (m.map Prod.snd).findM? fun x => childMatches x condition := by
  induction m with
  | nil => rfl
  | cons p m ih =>
    obtain ⟨name, x⟩ := p
    rw [getChildWithCondition, ih, List.map_cons, List.findM?]
    cases childMatches x condition with
    | error f => rfl
    | ok b => cases b <;> rfl

/-- A path that is one selection is a search for the first that matches. -/
theorem walk_stepText {k v : Str} (hk : Bare k) (hv : Bare v) (quoted : Bool) (o : Object) :
    walk (some (.obj o)) (stepText quoted k v) =
      (o.map Prod.snd).findM? fun x => valueMatches x k v := by
  have hclose : ']' ∉ conditionText quoted k v := by
    cases quoted with
    | true => simp [conditionText, hk.2.1, hv.2.1]
    | false => simp [conditionText, hk.2.1, hv.2.1]
  have hequals : '=' ∈ conditionText quoted k v := by simp [conditionText]
  have hcut : getCondition (conditionText quoted k v ++ [']']) =
      .ok (conditionText quoted k v, []) := by
    obtain ⟨htake, hdrop⟩ := takeWhile_ne hclose []
    rw [getCondition, if_pos (by simp), htake, hdrop, List.tail_cons]
  rw [stepText, walk_bracket _ hcut, if_pos hequals, Step.take_select,
    getChildWithCondition_eq_findM?]
  simp only [childMatches_conditionText hk hv]
  cases (o.map Prod.snd).findM? fun x => valueMatches x k v with
  | error f => rfl
  | ok r => rw [Except.bind, walk]

/-- **Conditional selection.** The step finds the first member that it is for, or nothing if there
is none, exactly if its test can compare every member up to that one. -/
theorem selection_iff (o : Object) {k v : Str} (hk : Bare k) (hv : Bare v) (quoted : Bool) :
    (∃ r, walk (some (.obj o)) (stepText quoted k v) = .ok r ∧
        IsFirst (Matches k v) (o.map Prod.snd) r) ↔
      ∀ pre x post, o.map Prod.snd = pre ++ x :: post → (∀ y ∈ pre, ¬ Matches k v y) →
        Comparable k v x := by
  rw [walk_stepText hk hv, findM?_isFirst_iff]
  simp only [valueMatches_decides_iff]

/-- A member that the step is for, between two that it is not for. -/
theorem selection_iff_siblings :
    ∃ r, walk (some (.obj [("x".toList, .obj [("h".toList, .int 4)]),
        ("y".toList, .obj [("h".toList, .int 3)]), ("z".toList, .obj [("h".toList, .int 5)])]))
        (stepText true "h".toList "3".toList) = .ok r ∧
      IsFirst (Matches "h".toList "3".toList) [.obj [("h".toList, .int 4)],
        .obj [("h".toList, .int 3)], .obj [("h".toList, .int 5)]] r := by
  refine (selection_iff [("x".toList, .obj [("h".toList, .int 4)]),
    ("y".toList, .obj [("h".toList, .int 3)]), ("z".toList, .obj [("h".toList, .int 5)])]
    (by decide) (by decide) true).mpr ?_
  intro pre x post heq _
  have hmem : x ∈ [4, 3, 5].map fun n => Json.obj [("h".toList, .int n)] := by
    rw [show [4, 3, 5].map (fun n => Json.obj [("h".toList, .int n)]) = pre ++ x :: post from heq]
    exact List.mem_append_right _ List.mem_cons_self
  obtain ⟨m, hm, rfl⟩ := List.mem_map.mp hmem
  -- a number that fits an `int` can be compared with the value
  have hint : FixedWidth.IsInt m := by
    simp only [List.mem_cons, List.not_mem_nil, or_false] at hm
    rcases hm with rfl | rfl | rfl <;> decide
  refine comparable_obj.mpr fun n hn => ⟨3, by decide, fun hwrap => ?_⟩
  obtain rfl : m = n := Json.int.inj (Option.some.inj hn)
  rwa [FixedWidth.int32_of_isInt hint] at hwrap

/-- A number in front of the match: its members are asked for. -/
theorem scalarSibling_throws :
    Matches "h".toList "3".toList (.obj [("h".toList, .int 3)]) ∧
      walk (some (.obj [("x".toList, .int 1), ("y".toList, .obj [("h".toList, .int 3)])]))
          (stepText true "h".toList "3".toList) =
        .error (.runtimeError "get_value< Object > called on integer Value") := by
  constructor
  · exact matches_obj.mpr (Or.inl ⟨3, rfl, by decide⟩)
  · rw [walk_stepText (by decide) (by decide)]
    exact @findM?_of_error _ _ (fun x => valueMatches x "h".toList "3".toList) (.int 1) _ rfl _

end JsonPath

namespace JsonObject

open Json

/-! ## Lookup by name

The lookup by name asks what is below the members, and throws at the first value without a name. -/

/-- What `findObj` with a `JsonNamePredicate` is for. -/
def Named (name : Str) (x : Json) : Prop := ∃ m, x = .obj m ∧ get m "name".toList = .str name

/-- What the predicate can look at: an object has to have a string `name`. -/
def Nameable (x : Json) : Prop := ∀ m, x = .obj m → ∃ s, get m "name".toList = .str s

/-- Asking for a name decides whether it is the name, for exactly the values that can be asked. -/
theorem matches_decides_iff (name : Str) (x : Json) :
    Decides (JsonNamePredicate.matches name) (Named name) x ↔ Nameable x := by
  cases x with
  | obj m =>
    have hmatch : JsonNamePredicate.matches name (.obj m) =
        (get m "name".toList).getStr.bind fun s => .ok (decide (s = name)) := rfl
    have hnamed : Named name (.obj m) ↔ get m "name".toList = .str name := by simp [Named]
    have hnameable : Nameable (.obj m) ↔ ∃ s, get m "name".toList = .str s := by simp [Nameable]
    rw [Decides, hmatch, hnamed, hnameable]
    cases get m "name".toList with
    | str s => simp [Except.bind]
    | _ => simp [getStr, wrongType, Except.bind]
  | _ => simp [Decides, JsonNamePredicate.matches, isObj, Named, Nameable]

/-- The lookup by name is a search for the first as well, with null where nothing is found. -/
theorem search_eq_findM? (pred : Json → Except JsonFault Bool) (xs : List Json) :
    search pred xs = (xs.findM? pred).map fun r => r.getD .null := by
  induction xs with
  | nil => rfl
  | cons x xs ih =>
    rw [search, ih, List.findM?]
    cases pred x with
    | error f => rfl
    | ok b => cases b <;> rfl

/-- Null stands for nothing found, since it has no name. -/
theorem findObj_eq_ok_iff {o : Object} {name : Str} {r : Option Json} (hr : r ≠ some .null) :
    findObj (.obj o) (JsonNamePredicate.matches name) = .ok (r.getD .null) ↔
      (o.flatMap fun p => candidates p.2).findM? (JsonNamePredicate.matches name) = .ok r := by
  rw [findObj_obj, search_eq_findM?]
  cases hfind : (o.flatMap fun p => candidates p.2).findM? (JsonNamePredicate.matches name) with
  | error f => simp [Except.map]
  | ok r' =>
    have hr' : r' ≠ some .null := by
      rintro rfl
      have := findM?_accepts hfind
      simp [JsonNamePredicate.matches, isObj] at this
    simp only [Except.map, Except.ok.injEq]
    constructor
    · intro h
      cases r with
      | none =>
        cases r' with
        | none => rfl
        | some x => exact absurd (congrArg some h) hr'
      | some y =>
        cases r' with
        | none => exact absurd (congrArg some h.symm) hr
        | some x => exact congrArg some h
    · rintro rfl
      rfl

/-- **Lookup by name.** The first object with the name is found, or nothing if there is none,
exactly if every object up to that one has a string for a name. -/
theorem findObj_named_iff (o : Object) (name : Str) :
    (∃ r, findObj (.obj o) (JsonNamePredicate.matches name) = .ok (r.getD .null) ∧
        IsFirst (Named name) (o.flatMap fun p => candidates p.2) r) ↔
      ∀ pre x post, (o.flatMap fun p => candidates p.2) = pre ++ x :: post →
        (∀ y ∈ pre, ¬ Named name y) → Nameable x := by
  have hsearch := findM?_isFirst_iff (JsonNamePredicate.matches name) (Named name)
    (o.flatMap fun p => candidates p.2)
  simp only [matches_decides_iff] at hsearch
  rw [← hsearch]
  refine exists_congr fun r => and_congr_left fun hfirst => findObj_eq_ok_iff ?_
  rintro rfl
  obtain ⟨-, -, -, -, m, hm, -⟩ := hfirst
  cases hm

/-- An object without a name in front of the one that is looked for. -/
theorem namelessSibling_throws :
    Named "a".toList (.obj [("name".toList, .str "a".toList)]) ∧
      findObj (.obj [("x".toList, .obj []), ("y".toList, .obj [("name".toList, .str "a".toList)])])
          (JsonNamePredicate.matches "a".toList) =
        .error (.runtimeError "get_value< string > called on null Value") := by
  constructor
  · exact ⟨_, rfl, get_cons_self ..⟩
  · rfl

end JsonObject

end Skweltch
