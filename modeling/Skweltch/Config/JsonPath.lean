import Mathlib.Data.List.TakeWhile
import Skweltch.Config.Json

/-!
# Skweltch — paths into a JSON value

`JsonPath::getPath` (`config/JsonPath.cpp`) takes a path apart while it walks down a value. The
pointer it walks with is `none` where the code holds `NULL`; only the `.` step checks for that.
-/

namespace Skweltch

open FixedWidth NumText

namespace JsonPath

open Json

def isMark (c : Char) : Bool := c = '.' || c = '['

/-- `nextToken`: the token and what remains. -/
def nextToken (remain : Str) : Str × Str :=
  (remain.takeWhile fun c => !isMark c, remain.dropWhile fun c => !isMark c)

/-- `getCondition`: the text before the first `]` and what remains behind it. -/
def getCondition (remain : Str) : Except JsonFault (Str × Str) :=
  if ']' ∈ remain then
    .ok (remain.takeWhile (· ≠ ']'), (remain.dropWhile (· ≠ ']')).tail)
  else .error (.runtimeError "no end for condition")

/-- `get`: a pointer to the value of the first member with the name. -/
def get (o : Object) (name : Str) : Option Json :=
  (o.find? fun p => name = p.1).map Prod.snd

/-- `lexical_cast<int>`. -/
def toInt (s : Str) : Except JsonFault Int :=
  match readInt s with
  | some n => .ok n
  | none => .error .badLexicalCast

def valueMatches (v : Json) (key value : Str) : Except JsonFault Bool := do
  let o ← v.getObj
  match get o key with
  | some (.int n) => do
    let val ← toInt value
    .ok (int32 n = val)
  | some (.str s) => .ok (s = value)
  | _ => .ok false

/-- The key of a condition, without its quotes. -/
def unquote (s : Str) : Str :=
  if s.head? = some '"' then (s.drop 1).take (s.length - 2) else s

def childMatches (v : Json) (condition : Str) : Except JsonFault Bool :=
  valueMatches v (unquote (condition.takeWhile (· ≠ '=')))
    (((condition.dropWhile (· ≠ '=')).drop 1).takeWhile (· ≠ '='))

def getChildWithCondition (condition : Str) : Object → Except JsonFault (Option Json)
  | [] => .ok none
  | (_, v) :: o => do
    if ← childMatches v condition then .ok (some v) else getChildWithCondition condition o

/-- `&o->get_obj()`. -/
def objOf : Option Json → Except JsonFault Object
  | none => .error .undefined
  | some v => v.getObj

def member (o : Option Json) (token : Str) : Except JsonFault (Option Json) := do
  let m ← objOf o
  match get m token with
  | some (.obj m') => .ok (some (.obj m'))
  | _ => .error (.runtimeError
      ("token returned a non-object '" ++ String.ofList token ++ "'"))

def element (o : Option Json) (condition : Str) : Except JsonFault (Option Json) :=
  match o with
  | none => .error .undefined
  | some (.arr es) => do
    let index ← toInt condition
    if 0 ≤ index then
      match es[index.toNat]? with
      | some v => .ok (some v)
      | none => .error .outOfRange
    else .error .outOfRange
  | some _ => .error (.runtimeError "tried to take index of non-array")

/-- A condition takes what it takes. -/
theorem getCondition_length {remain cond rest : Str}
    (h : getCondition remain = .ok (cond, rest)) : rest.length ≤ remain.length := by
  unfold getCondition at h
  split at h
  · simp only [Except.ok.injEq, Prod.mk.injEq] at h
    rw [← h.2, List.length_tail]
    have := (List.dropWhile_sublist (l := remain) (· ≠ ']')).length_le
    omega
  · cases h

/-- The loop of `getPath`. -/
def walk (o : Option Json) (remain : Str) : Except JsonFault (Option Json) :=
  match remain with
  | [] => .ok o
  | c :: rest =>
    if c = '.' then
      match member o (nextToken rest).1 with
      | .error f => .error f
      | .ok o' => walk o' (nextToken rest).2
    else if c = '[' then
      match _h : getCondition rest with
      | .error f => .error f
      | .ok (cond, rest') =>
        if '=' ∈ cond then
          match objOf o with
          | .error f => .error f
          | .ok m =>
            match getChildWithCondition cond m with
            | .error f => .error f
            | .ok o' => walk o' rest'
        else
          match element o cond with
          | .error f => .error f
          | .ok o' => walk o' rest'
    else
      match objOf o with
      | .error f => .error f
      | .ok m => walk (get m (nextToken (c :: rest)).1) (nextToken (c :: rest)).2
termination_by remain.length
decreasing_by
  · have := (List.dropWhile_sublist (l := rest) fun c => !isMark c).length_le
    simp only [nextToken, List.length_cons]
    omega
  · have := getCondition_length _h
    simp only [List.length_cons]
    omega
  · have := getCondition_length _h
    simp only [List.length_cons]
    omega
  · next h₁ h₂ =>
    have hc : isMark c = false := by simp [isMark, h₁, h₂]
    have := (List.dropWhile_sublist (l := rest) fun c => !isMark c).length_le
    simp only [nextToken, List.dropWhile_cons, hc, Bool.not_false, if_true, List.length_cons]
    omega

/-- `JsonPath::getPath`. -/
def getPath (v : Json) (path : Str) : Except JsonFault Json := do
  match ← walk (some v) path with
  | some v => .ok v
  | none => .error .undefined

/-! ## Plain tokens

Names without a dot or a bracket in them, which a path can be made of without being read as
something else. -/

/-- A token that no step mark ends. -/
def Plain (s : Str) : Prop := ∀ c ∈ s, isMark c = false

theorem plain_of_all {s : Str} (h : s.all (fun c => !isMark c) = true) : Plain s := by
  intro c hc
  simpa using List.all_eq_true.mp h c hc

theorem plain_connections : Plain "connections".toList := plain_of_all (by decide)

theorem nextToken_plain {s : Str} (hs : Plain s) : nextToken s = (s, []) := by
  unfold nextToken
  rw [List.takeWhile_eq_self_iff.mpr fun c hc => by simp [hs c hc],
    List.dropWhile_eq_nil_iff.mpr fun c hc => by simp [hs c hc]]

/-- A plain text is the token up to the dot behind it. -/
theorem nextToken_append {s : Str} (hs : Plain s) (rest : Str) :
    nextToken (s ++ '.' :: rest) = (s, '.' :: rest) := by
  unfold nextToken
  rw [List.takeWhile_append_of_pos fun c hc => by simp [hs c hc],
    List.dropWhile_append_of_pos fun c hc => by simp [hs c hc]]
  simp [isMark]

theorem Plain.head {c : Char} {s : Str} (hs : Plain (c :: s)) : c ≠ '.' ∧ c ≠ '[' := by
  have hc : isMark c = false := hs c List.mem_cons_self
  simpa only [isMark, Bool.or_eq_false_iff, decide_eq_false_iff_not] using hc

theorem walk_name {m : Object} {s : Str} (hs : Plain s) (hne : s ≠ []) (rest : Str) :
    walk (some (.obj m)) (s ++ '.' :: rest) = walk (get m s) ('.' :: rest) := by
  obtain ⟨c, s', rfl⟩ := List.exists_cons_of_ne_nil hne
  have hc := hs.head
  rw [List.cons_append, walk]
  simp only [if_neg hc.1, if_neg hc.2, objOf, getObj_obj]
  rw [← List.cons_append, nextToken_append hs]

/-- A plain name at the end of a path is looked up. -/
theorem walk_last {s : Str} (hs : Plain s) (hne : s ≠ []) (o : Option Json) :
    walk o s = (objOf o).map fun m => get m s := by
  obtain ⟨c, s', rfl⟩ := List.exists_cons_of_ne_nil hne
  have hc := hs.head
  rw [walk]
  simp only [if_neg hc.1, if_neg hc.2, nextToken_plain hs]
  cases objOf o with
  | error f => rfl
  | ok m =>
    simp only
    rw [walk]
    rfl

theorem walk_member {m : Object} {s : Str} (hs : Plain s) {m' : Object}
    (h : get m s = some (.obj m')) :
    walk (some (.obj m)) ('.' :: s) = .ok (some (.obj m')) := by
  rw [walk, if_pos rfl]
  simp only [nextToken_plain hs, member, objOf, getObj_obj, bind, Except.bind, h]
  rw [walk]

theorem getD_get (m : Object) (s : Str) : (get m s).getD .null = JsonObject.get m s := rfl

/-- A value that is found is not behind a null pointer. -/
theorem get_eq_some {m : Object} {s : Str} {v : Json} (h : JsonObject.get m s = v)
    (hv : v ≠ .null) : get m s = some v := by
  rw [← getD_get] at h
  cases hget : get m s with
  | none =>
    rw [hget] at h
    exact absurd h.symm hv
  | some w =>
    rw [hget] at h
    exact congrArg some h

theorem getPath_name {m : Object} {s : Str} (hs : Plain s) (hne : s ≠ []) {v : Json}
    (h : JsonObject.get m s = v) (hv : v ≠ .null) : getPath (.obj m) s = .ok v := by
  rw [getPath, walk_last hs hne]
  simp only [objOf, getObj_obj, Except.map, bind, Except.bind, get_eq_some h hv]

/-- A path of two plain names reads an object in an object. -/
theorem getPath_member {m m' m'' : Object} {s t : Str} (hs : Plain s) (hne : s ≠ [])
    (ht : Plain t) (h : JsonObject.get m s = .obj m') (h' : JsonObject.get m' t = .obj m'') :
    getPath (.obj m) (s ++ '.' :: t) = .ok (.obj m'') := by
  rw [getPath, walk_name hs hne, get_eq_some h (by simp),
    walk_member ht (get_eq_some h' (by simp))]
  rfl

end JsonPath

end Skweltch
