import Skweltch.Lib.NumText
import Skweltch.Msg

/-!
# Skweltch — JSON values

`json_spirit::Value`, and the part of `JsonObject` and `JsonArray` (`config/JsonObject.cpp`,
`config/JsonArray.cpp`) that reads configurations, results and machine files. The members of an
object keep their order and may repeat a key; a lookup takes the first one. An integer is the
number it stands for, whether it is held as `int64_t` or `uint64_t`, and a real is a rational.
-/

namespace Skweltch

open FixedWidth NumText

/-- How reading a value ends that does not return. -/
inductive JsonFault where
  | runtimeError (what : String)
  /-- `boost::bad_lexical_cast`, which is no `runtime_error` -/
  | badLexicalCast
  /-- `std::out_of_range`, which is no `runtime_error` -/
  | outOfRange
  /-- a null pointer is followed -/
  | undefined
deriving DecidableEq, Repr

/-- `json_spirit::Value`. -/
inductive Json where
  | obj (members : List (Str × Json))
  | arr (elements : List Json)
  | str (s : Str)
  | bool (b : Bool)
  | int (n : Int)
  | real (q : ℚ)
  | null
deriving Repr

namespace Json

/-- `json_spirit::Object`. -/
abbrev Object := List (Str × Json)

/-- `value_type_to_string`. -/
def typeName : Json → String
  | .obj _ => "Object"
  | .arr _ => "Array"
  | .str _ => "string"
  | .bool _ => "boolean"
  | .int _ => "integer"
  | .real _ => "real"
  | .null => "null"

/-- What `check_type` throws. -/
def wrongType {α : Type} (expected : String) (v : Json) : Except JsonFault α :=
  .error (.runtimeError
    ("get_value< " ++ expected ++ " > called on " ++ v.typeName ++ " Value"))

def getObj : Json → Except JsonFault Object
  | .obj o => .ok o
  | v => wrongType "Object" v

def getArr : Json → Except JsonFault (List Json)
  | .arr es => .ok es
  | v => wrongType "Array" v

def getStr : Json → Except JsonFault Str
  | .str s => .ok s
  | v => wrongType "string" v

/-- `get_int`: the 64-bit value is cast down. -/
def getInt : Json → Except JsonFault Int
  | .int n => .ok (int32 n)
  | v => wrongType "integer" v

/-- `get_real`: an integer is converted. -/
def getReal : Json → Except JsonFault ℚ
  | .int n => .ok n
  | .real q => .ok q
  | v => wrongType "real" v

def isObj : Json → Bool
  | .obj _ => true
  | _ => false

def isArr : Json → Bool
  | .arr _ => true
  | _ => false

def isNull : Json → Bool
  | .null => true
  | _ => false

@[simp] theorem getObj_obj (o : Object) : (Json.obj o).getObj = .ok o := rfl

@[simp] theorem getStr_str (s : Str) : (Json.str s).getStr = .ok s := rfl

@[simp] theorem getInt_int (n : Int) : (Json.int n).getInt = .ok (int32 n) := rfl

end Json

namespace JsonObject

open Json

/-- The value of the first member with the name, or null. -/
def get (o : Object) (name : Str) : Json :=
  ((o.find? fun p => name = p.1).map Prod.snd).getD .null

/-- What `getInt` reads from the members. -/
def intAt (o : Object) (key : Str) (dflt : Int) : Int :=
  match get o key with
  | .int n => int32 n
  | _ => dflt

/-- `JsonObject::has`, on the members. -/
def has (o : Object) (key : Str) : Bool := o.any fun p => key = p.1

def getString (v : Json) (key : Str) : Except JsonFault Str := do
  let o ← v.getObj
  (get o key).getStr

def getInt (v : Json) (key : Str) (dflt : Int) : Except JsonFault Int := do
  let o ← v.getObj
  match get o key with
  | .int n => .ok (int32 n)
  | _ => .ok dflt

def getDouble (v : Json) (key : Str) : Except JsonFault ℚ := do
  let o ← v.getObj
  (get o key).getReal

def getChild (v : Json) (key : Str) : Except JsonFault Json := do
  let o ← v.getObj
  .ok (get o key)

/-- `getArray`: what is not an array counts as an empty one. -/
def getArray (v : Json) (key : Str) : Except JsonFault (List Json) := do
  let o ← v.getObj
  match get o key with
  | .arr es => .ok es
  | _ => .ok []

/-- `add`: a member behind the others; what is not an object becomes an empty one first. -/
def add (v : Json) (name : Str) (x : Json) : Json :=
  match v with
  | .obj o => .obj (o ++ [(name, x)])
  | _ => .obj [(name, x)]

def search (pred : Json → Except JsonFault Bool) : List Json → Except JsonFault Json
  | [] => .ok .null
  | v :: vs => do
    if ← pred v then .ok v else search pred vs

def candidates : Json → List Json
  | .arr es => es
  | v => [v]

/-- `findObj`: the first value that matches, with the elements of an array in its place. -/
def findObj (v : Json) (pred : Json → Except JsonFault Bool) : Except JsonFault Json := do
  let o ← v.getObj
  search pred (o.flatMap fun p => candidates p.2)

end JsonObject

/-- `JsonNamePredicate::match`. -/
def JsonNamePredicate.matches (name : Str) (v : Json) : Except JsonFault Bool :=
  if v.isObj then do
    let s ← JsonObject.getString v "name".toList
    .ok (s = name)
  else .ok false

namespace JsonArray

/-- `JsonArray::getString`: null counts as the empty string. -/
def getString (it : Json) (name : Str) : Except JsonFault Str := do
  let o ← it.getObj
  match JsonObject.get o name with
  | .null => .ok []
  | v => v.getStr

/-- `JsonArray::getInt`: null counts as zero. -/
def getInt (it : Json) (name : Str) : Except JsonFault Int := do
  let o ← it.getObj
  match JsonObject.get o name with
  | .null => .ok 0
  | v => v.getInt

def has (it : Json) (name : Str) : Except JsonFault Bool := do
  let o ← it.getObj
  .ok (JsonObject.has o name)

end JsonArray

/-! ## Lookups

The accessors of `JsonObject`, which throw `runtime_error` for a value of another kind. -/

/-- What returns after two steps returned after each. -/
theorem bind_eq_ok {ε α β : Type} {x : Except ε α} {f : α → Except ε β} {b : β} :
    (x >>= f) = .ok b ↔ ∃ a, x = .ok a ∧ f a = .ok b := by
  cases x with
  | error e => simp [bind, Except.bind]
  | ok a => simp [bind, Except.bind]

namespace JsonObject

open Json

/-- A string member is returned exactly where there is one. -/
theorem getString_eq_ok_iff {v : Json} {key s : Str} :
    getString v key = .ok s ↔ ∃ o, v = .obj o ∧ get o key = .str s := by
  cases v with
  | obj o =>
    have hget : getString (.obj o) key = (get o key).getStr := rfl
    simp only [hget, Json.obj.injEq, exists_eq_left']
    cases get o key with
    | str t => simp
    | _ => simp [getStr, wrongType]
  | _ => simp [getString, getObj, wrongType, bind, Except.bind]

theorem getString_obj (o : Object) (key : Str) : getString (.obj o) key = (get o key).getStr := rfl

theorem getString_eq {o : Object} {key s : Str} (h : get o key = .str s) :
    getString (.obj o) key = .ok s := by
  rw [getString_obj, h]
  rfl

theorem get_of_getString {o : Object} {key s : Str} (h : getString (.obj o) key = .ok s) :
    get o key = .str s := by
  obtain ⟨o', heq, hget⟩ := getString_eq_ok_iff.mp h
  rw [Json.obj.inj heq, hget]

theorem getInt_eq {o : Object} {key : Str} {n : Int} (h : get o key = .int n) (dflt : Int) :
    getInt (.obj o) key dflt = .ok (int32 n) := by
  simp only [getInt, getObj_obj, bind, Except.bind, h]

/-- From an object an integer is always returned, the default if there is none. -/
theorem getInt_obj (o : Object) (key : Str) (dflt : Int) :
    getInt (.obj o) key dflt = .ok (intAt o key dflt) := by
  simp only [getInt, getObj_obj, bind, Except.bind, intAt]
  cases get o key with
  | int n => rfl
  | _ => rfl

theorem getChild_obj (o : Object) (key : Str) : getChild (.obj o) key = .ok (get o key) := rfl

theorem findObj_obj (o : Object) (pred : Json → Except JsonFault Bool) :
    findObj (.obj o) pred = search pred (o.flatMap fun p => candidates p.2) := rfl

@[simp] theorem get_nil (name : Str) : get [] name = .null := rfl

@[simp] theorem get_cons_self (name : Str) (v : Json) (o : Object) :
    get ((name, v) :: o) name = v := by
  simp [get]

theorem get_cons_ne {name key : Str} (h : name ≠ key) (v : Json) (o : Object) :
    get ((key, v) :: o) name = get o name := by
  simp [get, h]

theorem get_cons (name key : Str) (v : Json) (o : Object) :
    get ((key, v) :: o) name = if name = key then v else get o name := by
  split
  · next h => rw [h, get_cons_self]
  · next h => rw [get_cons_ne h]

/-- What is found is a member. -/
theorem get_mem {o : Object} {name : Str} (h : get o name ≠ .null) :
    (name, get o name) ∈ o := by
  induction o with
  | nil => exact absurd rfl h
  | cons p o ih =>
    obtain ⟨key, v⟩ := p
    rw [get_cons] at h ⊢
    split
    · next heq =>
      rw [heq]
      exact List.mem_cons_self ..
    · next hne =>
      rw [if_neg hne] at h
      exact List.mem_cons_of_mem _ (ih h)

/-- Members behind one of the name do not change what is found. -/
theorem get_append_of_mem {o : Object} {name : Str} (h : name ∈ o.map Prod.fst) (o' : Object) :
    get (o ++ o') name = get o name := by
  induction o with
  | nil => exact absurd h (List.not_mem_nil)
  | cons p o ih =>
    obtain ⟨key, v⟩ := p
    rw [List.cons_append, get_cons, get_cons]
    split
    · rfl
    · next hne =>
      rw [List.map_cons, List.mem_cons] at h
      exact ih (h.resolve_left hne)

/-- Values changed one by one are looked up changed, as long as a member has the name. -/
theorem get_map {o : Object} {name : Str} (f : Str × Json → Json)
    (h : name ∈ o.map Prod.fst) :
    ∃ v, (name, v) ∈ o ∧ get o name = v ∧
      get (o.map fun p => (p.1, f p)) name = f (name, v) := by
  induction o with
  | nil => exact absurd h (List.not_mem_nil)
  | cons p o ih =>
    obtain ⟨key, v⟩ := p
    rw [List.map_cons]
    by_cases heq : name = key
    · subst heq
      exact ⟨v, List.mem_cons_self .., get_cons_self .., get_cons_self ..⟩
    · have hrest : name ∈ o.map Prod.fst := by
        rw [List.map_cons, List.mem_cons] at h
        exact h.resolve_left heq
      obtain ⟨w, hmem, hget, hmap⟩ := ih hrest
      refine ⟨w, List.mem_cons_of_mem _ hmem, ?_, ?_⟩
      · rw [get_cons_ne heq, hget]
      · rw [get_cons_ne heq, hmap]

end JsonObject

end Skweltch
