import Skweltch.Config.PathSteps
import Skweltch.Lib.Subtrees

/-!
# Skweltch — changing a value behind a path

`JsonPath::setPathInt` (`config/JsonPath.cpp`) writes through the pointer that the other overload
of `getPath` returns. A pointer into a document is a position in it. What the path leads to is
changed in the members with the name and nowhere else, and the path leads there afterwards as it
did before, unless its last step selects by the member that was changed
(`setPathInt_spec`).
-/

namespace Skweltch

open FixedWidth NumText Subtrees

namespace Json

/-- The values right below a value, in order. -/
def children : Json → List Json
  | .obj o => o.map Prod.snd
  | .arr es => es
  | _ => []

def withChildren : Json → List Json → Json
  | .obj o, vs => .obj (List.zipWith (fun p v => (p.1, v)) o vs)
  | .arr _, vs => .arr vs
  | v, _ => v

/-- The kind of a value with its names, its length or its scalar. -/
def outline : Json → Json
  | .obj o => .obj (o.map fun p => (p.1, .null))
  | .arr es => .arr (es.map fun _ => .null)
  | v => v

/-- Giving the members of an object new values keeps their names. -/
theorem zipWith_names (o : Object) (vs : List Json) (h : vs.length = o.length) :
    (List.zipWith (fun p v => (p.1, v)) o vs).map Prod.snd = vs ∧
      (List.zipWith (fun p v => (p.1, v)) o vs).map Prod.fst = o.map Prod.fst := by
  induction o generalizing vs with
  | nil =>
    obtain rfl := List.length_eq_zero_iff.mp h
    exact ⟨rfl, rfl⟩
  | cons p o ih =>
    obtain ⟨v, vs, rfl⟩ := List.exists_cons_of_length_eq_add_one h
    obtain ⟨h₁, h₂⟩ := ih vs (by simpa using h)
    simp [h₁, h₂]

instance : Branching Json Json where
  kids := children
  graft := withChildren
  top := outline
  kids_graft t ts h := by
    cases t with
    | obj o => exact (zipWith_names o ts (by simpa [children] using h)).1
    | arr es => rfl
    | _ => exact (List.length_eq_zero_iff.mp h).symm
  graft_kids t := by
    cases t with
    | obj o => simp [withChildren, children, List.zipWith_map_right]
    | _ => rfl
  top_graft t ts h := by
    cases t with
    | obj o =>
      have hnames := (zipWith_names o ts (by simpa [children] using h)).2
      have hout : ∀ o' : Object,
          outline (.obj o') = .obj ((o'.map Prod.fst).map fun k => (k, .null)) := by
        intro o'
        rw [outline, List.map_map]
        rfl
      rw [withChildren, hout, hout, hnames]
    | arr es =>
      have hlen : ts.length = es.length := h
      rw [withChildren, outline, outline, List.map_const', List.map_const', hlen]
    | _ => rfl

theorem children_obj (o : Object) (i : Nat) : (children (.obj o))[i]? = (o[i]?).map Prod.snd :=
  List.getElem?_map ..

theorem sub_obj (o : Object) (i : Nat) : sub (Json.obj o) [i] = (o[i]?).map Prod.snd := by
  rw [sub_singleton]
  exact children_obj o i

/-- Changing one of the values is changing one of the members. -/
theorem zipWith_modify (o : Object) (i : Nat) (f : Json → Json) :
    List.zipWith (fun p v => (p.1, v)) o ((o.map Prod.snd).modify i f) =
      o.modify i fun q => (q.1, f q.2) := by
  induction o generalizing i with
  | nil => cases i <;> rfl
  | cons p o ih =>
    cases i with
    | zero => simp [List.zipWith_map_right]
    | succ i => simp [ih]

theorem put_obj (o : Object) (i : Nat) (p : Position) (u : Json) :
    put (.obj o) (i :: p) u = .obj (o.modify i fun q => (q.1, put q.2 p u)) := by
  exact congrArg Json.obj (zipWith_modify o i fun v => put v p u)

theorem put_arr (es : List Json) (i : Nat) (p : Position) (u : Json) :
    put (.arr es) (i :: p) u = .arr (es.modify i fun v => put v p u) := rfl

end Json

namespace JsonPath

open Json

/-! ## Pointers

A pointer into a document is a position, or null. -/

/-- Where `get` points to, in the members. -/
def findName (m : Object) (name : Str) : Option Nat := m.findIdx? fun p => name = p.1

/-- Where `getChildWithCondition` points to, in the members from the `i`-th one on. -/
def findChild (condition : Str) : Object → Nat → Except JsonFault (Option Nat)
  | [], _ => .ok none
  | (_, v) :: m, i => do
    if ← childMatches v condition then .ok (some i) else findChild condition m (i + 1)

/-- Which child of a value a step leads to. -/
def Step.find : Step → Json → Except JsonFault (Option Nat)
  | .name token, v => do
    let m ← v.getObj
    .ok (findName m token)
  | .member token, v => do
    let m ← v.getObj
    match get m token with
    | some (.obj _) => .ok (findName m token)
    | _ => .error (.runtimeError
        ("token returned a non-object '" ++ String.ofList token ++ "'"))
  | .index text, .arr es => do
    let index ← toInt text
    if 0 ≤ index ∧ index.toNat < es.length then .ok (some index.toNat) else .error .outOfRange
  | .index _, _ => .error (.runtimeError "tried to take index of non-array")
  | .select condition, v => do
    let m ← v.getObj
    findChild condition m 0
  | .unclosed, _ => .error (.runtimeError "no end for condition")

/-- One turn of the loop of `getPath`, on the pointer. -/
def Step.move (doc : Json) (s : Step) : Option Position → Except JsonFault (Option Position)
  | none => if s = .unclosed then .error (.runtimeError "no end for condition")
    else .error .undefined
  | some p =>
    match sub doc p with
    | none => .error .undefined
    | some v => (s.find v).map fun i => i.map fun i => p ++ [i]

/-- `JsonPath::getPath` on a pointer. -/
def locate (doc : Json) (path : Str) : Except JsonFault (Option Position) :=
  (steps path).foldlM (fun p s => s.move doc p) (some [])

/-- The loop of `setPathInt`: every member with the name. -/
def setMembers (o : Object) (var : Str) (n : Int) : Object :=
  o.map fun p => if var = p.1 then (p.1, .int n) else p

/-- `JsonPath::setPathInt`: the document behind it. -/
def setPathInt (doc : Json) (path var : Str) (n : Int) : Except JsonFault Json := do
  match ← locate doc path with
  | none => .error .undefined
  | some p =>
    match sub doc p with
    | none => .error .undefined
    | some v => do
      let o ← v.getObj
      .ok (put doc p (.obj (setMembers o var n)))

/-! ## Pointers and values

`setPathInt` follows the path to a pointer, and `getPath` to a value. Step by step the two go the
same way: the value is the one at the pointer, and they fail together. -/

/-- A name is found where its member is, and `get` reads that member. -/
theorem findName_cases (m : Object) (name : Str) :
    (findName m name = none ∧ get m name = none) ∨
    ∃ i v, findName m name = some i ∧ m[i]? = some (name, v) ∧ get m name = some v := by
  induction m with
  | nil => exact Or.inl ⟨rfl, rfl⟩
  | cons p m ih =>
    obtain ⟨key, v⟩ := p
    by_cases h : name = key
    · subst h
      exact Or.inr ⟨0, v, by simp [findName, List.findIdx?_cons], rfl, by simp [get]⟩
    · have hfind : findName ((key, v) :: m) name = (findName m name).map (· + 1) := by
        simp [findName, List.findIdx?_cons, h]
      have hget : get ((key, v) :: m) name = get m name := by simp [get, h]
      rw [hfind, hget]
      rcases ih with ⟨hnone, hm⟩ | ⟨i, w, hi, hmi, hm⟩
      · exact Or.inl ⟨by rw [hnone]; rfl, hm⟩
      · exact Or.inr ⟨i + 1, w, by rw [hi]; rfl, by simpa using hmi, hm⟩

/-- What is found under a name is there, with that name. -/
theorem exists_of_findName {m : Object} {name : Str} {i : Nat} (h : findName m name = some i) :
    ∃ v, m[i]? = some (name, v) ∧ get m name = some v := by
  rcases findName_cases m name with ⟨hnone, -⟩ | ⟨j, v, hj, hmj, hv⟩
  · rw [hnone] at h
    cases h
  · obtain rfl := Option.some.inj (hj.symm.trans h)
    exact ⟨v, hmj, hv⟩

theorem findName_of_get {m : Object} {name : Str} {v : Json} (h : get m name = some v) :
    ∃ i, findName m name = some i ∧ m[i]? = some (name, v) := by
  rcases findName_cases m name with ⟨-, hnone⟩ | ⟨i, w, hi, hmi, hw⟩
  · rw [hnone] at h
    cases h
  · obtain rfl := Option.some.inj (hw.symm.trans h)
    exact ⟨i, hi, hmi⟩

/-- Behind a dot only members that are objects are found. -/
theorem find_member_iff {m : Object} {token : Str} {i : Nat} :
    (Step.member token).find (.obj m) = .ok (some i) ↔
      findName m token = some i ∧ ∃ o, m[i]? = some (token, .obj o) := by
  simp only [Step.find, getObj_obj, bind, Except.bind]
  constructor
  · intro h
    split at h
    · next o hget =>
      have hname : findName m token = some i := Except.ok.inj h
      obtain ⟨v, hmi, hv⟩ := exists_of_findName hname
      obtain rfl := Option.some.inj (hv.symm.trans hget)
      exact ⟨hname, o, hmi⟩
    · cases h
  · rintro ⟨hname, o, hmi⟩
    obtain ⟨v, hmi', hv⟩ := exists_of_findName hname
    obtain rfl := (Prod.mk.inj (Option.some.inj (hmi'.symm.trans hmi))).2
    rw [hv]
    exact congrArg Except.ok hname

/-- The pointer that a selection finds and the value that it returns belong together. -/
theorem findChild_cases (condition : Str) (m : Object) (k : Nat) :
    (findChild condition m k = .ok none ∧ getChildWithCondition condition m = .ok none) ∨
    (∃ i w, findChild condition m k = .ok (some (k + i)) ∧ (m.map Prod.snd)[i]? = some w ∧
      getChildWithCondition condition m = .ok (some w)) ∨
    ∃ f, findChild condition m k = .error f ∧ getChildWithCondition condition m = .error f := by
  induction m generalizing k with
  | nil => exact Or.inl ⟨rfl, rfl⟩
  | cons p m ih =>
    obtain ⟨key, v⟩ := p
    rw [findChild, getChildWithCondition]
    cases childMatches v condition with
    | error f => exact Or.inr (Or.inr ⟨f, rfl, rfl⟩)
    | ok b =>
      cases b with
      | true => exact Or.inr (Or.inl ⟨0, v, rfl, rfl, rfl⟩)
      | false =>
        rcases ih (k + 1) with ⟨hf, hm⟩ | ⟨i, w, hf, hi, hm⟩ | ⟨f, hf, hm⟩
        · exact Or.inl ⟨hf, hm⟩
        · refine Or.inr (Or.inl ⟨i + 1, w, ?_, hi, hm⟩)
          rw [show k + (i + 1) = k + 1 + i by omega]
          exact hf
        · exact Or.inr (Or.inr ⟨f, hf, hm⟩)

/-- A step finds the child it leads to. -/
theorem Step.find_cases (s : Step) (v : Json) :
    (∃ i w, s.find v = .ok (some i) ∧ (children v)[i]? = some w ∧ s.take (some v) = .ok (some w)) ∨
    (s.find v = .ok none ∧ s.take (some v) = .ok none) ∨
    ∃ f, s.find v = .error f ∧ s.take (some v) = .error f := by
  cases s with
  | name token =>
    cases v with
    | obj m =>
      rw [Step.take_name]
      rcases findName_cases m token with ⟨hfind, hget⟩ | ⟨i, w, hfind, hi, hget⟩
      · exact Or.inr (Or.inl ⟨congrArg Except.ok hfind, congrArg Except.ok hget⟩)
      · refine Or.inl ⟨i, w, congrArg Except.ok hfind, ?_, congrArg Except.ok hget⟩
        rw [children_obj, hi]
        rfl
    | _ => exact Or.inr (Or.inr ⟨_, rfl, rfl⟩)
  | member token =>
    cases v with
    | obj m =>
      rw [Step.take_member]
      rcases findName_cases m token with ⟨hfind, hget⟩ | ⟨i, w, hfind, hi, hget⟩
      · refine Or.inr (Or.inr ⟨_, ?_, by rw [hget]⟩)
        simp only [Step.find, getObj_obj, bind, Except.bind, hget]
      · cases w with
        | obj m' =>
          refine Or.inl ⟨i, .obj m', ?_, ?_, by rw [hget]⟩
          · simp only [Step.find, getObj_obj, bind, Except.bind, hget, hfind]
          · rw [children_obj, hi]
            rfl
        | _ =>
          refine Or.inr (Or.inr ⟨_, ?_, by rw [hget]⟩)
          simp only [Step.find, getObj_obj, bind, Except.bind, hget]
    | _ => exact Or.inr (Or.inr ⟨_, rfl, rfl⟩)
  | index text =>
    cases v with
    | arr es =>
      simp only [Step.find, Step.take, element, toInt]
      cases readInt text with
      | none => exact Or.inr (Or.inr ⟨_, rfl, rfl⟩)
      | some i =>
        simp only [bind, Except.bind]
        -- `find` checks both bounds at once, `take` one after the other
        by_cases h : 0 ≤ i ∧ i.toNat < es.length
        · have hget : es[i.toNat]? = some es[i.toNat] := List.getElem?_eq_getElem h.2
          rw [if_pos h, if_pos h.1, hget]
          exact Or.inl ⟨i.toNat, es[i.toNat], rfl, hget, rfl⟩
        · rw [if_neg h]
          by_cases h0 : 0 ≤ i
          · have hget : es[i.toNat]? = none := List.getElem?_eq_none (by omega)
            rw [if_pos h0, hget]
            exact Or.inr (Or.inr ⟨_, rfl, rfl⟩)
          · rw [if_neg h0]
            exact Or.inr (Or.inr ⟨_, rfl, rfl⟩)
    | _ => exact Or.inr (Or.inr ⟨_, rfl, rfl⟩)
  | select condition =>
    cases v with
    | obj m =>
      rw [Step.take_select]
      rcases findChild_cases condition m 0 with ⟨hf, hm⟩ | ⟨i, w, hf, hi, hm⟩ | ⟨f, hf, hm⟩
      · exact Or.inr (Or.inl ⟨hf, hm⟩)
      · rw [Nat.zero_add] at hf
        exact Or.inl ⟨i, w, hf, hi, hm⟩
      · exact Or.inr (Or.inr ⟨f, hf, hm⟩)
    | _ => exact Or.inr (Or.inr ⟨_, rfl, rfl⟩)
  | unclosed => exact Or.inr (Or.inr ⟨_, rfl, rfl⟩)

/-- The steps lead from a value to the one at a position below it. -/
inductive Leads : Json → List Step → Position → Json → Prop where
  | nil (v : Json) : Leads v [] [] v
  | cons {v w u : Json} {s : Step} {ss : List Step} {i : Nat} {p : Position}
      (found : s.find v = .ok (some i)) (child : (children v)[i]? = some w)
      (rest : Leads w ss p u) : Leads v (s :: ss) (i :: p) u

theorem Leads.sub_eq {v u : Json} {ss : List Step} {p : Position} (h : Leads v ss p u) :
    sub v p = some u := by
  induction h with
  | nil v => rfl
  | cons _ child _ ih => rw [sub_cons child, ih]

/-- The pointer goes where the value is read, or nowhere, or the same error is thrown. -/
theorem locate_cases (doc v : Json) (ss : List Step) (p : Position) (hp : sub doc p = some v) :
    (∃ q w, ss.foldlM (fun p s => s.move doc p) (some p) = .ok (some (p ++ q)) ∧ Leads v ss q w ∧
      follow v ss = .ok (some w)) ∨
    (ss.foldlM (fun p s => s.move doc p) (some p) = .ok none ∧ follow v ss = .ok none) ∨
    ∃ f, ss.foldlM (fun p s => s.move doc p) (some p) = .error f ∧ follow v ss = .error f := by
  induction ss generalizing v p with
  | nil =>
    refine Or.inl ⟨[], v, ?_, .nil v, rfl⟩
    rw [List.append_nil]
    rfl
  | cons s ss ih =>
    have hmove : s.move doc (some p) = (s.find v).map fun i => i.map fun i => p ++ [i] := by
      rw [Step.move, hp]
    rw [List.foldlM_cons, hmove]
    rcases s.find_cases v with ⟨i, w, hfind, hchild, htake⟩ | ⟨hfind, htake⟩ | ⟨f, hfind, htake⟩
    · rw [hfind, follow_hit (Step.take_eq_some_iff.mp htake)]
      have hpi : sub doc (p ++ [i]) = some w := by
        rw [sub_append, hp]
        exact (sub_singleton v i).trans hchild
      rcases ih w (p ++ [i]) hpi with ⟨q, u, hq, hlead, hu⟩ | hnone | herror
      · refine Or.inl ⟨i :: q, u, ?_, .cons hfind hchild hlead, hu⟩
        rw [List.append_assoc] at hq
        exact hq
      · exact Or.inr (Or.inl hnone)
      · exact Or.inr (Or.inr herror)
    -- a null pointer is returned at the end of the path and followed anywhere else
    · rw [hfind, follow_miss (Step.take_eq_none_iff.mp htake)]
      cases ss with
      | nil => exact Or.inr (Or.inl ⟨rfl, rfl⟩)
      | cons s' ss =>
        refine Or.inr (Or.inr ⟨_, ?_, rfl⟩)
        simp only [Except.map, Option.map_none, bind, Except.bind]
        rw [List.foldlM_cons, Step.move]
        split
        · rfl
        · rfl
    · rw [hfind, follow_throws htake]
      exact Or.inr (Or.inr ⟨f, rfl, rfl⟩)

/-- Finding the place and finding the value go wrong at the same step, in the same way. -/
theorem locate_eq (doc : Json) (path : Str) :
    (∃ p w, locate doc path = .ok (some p) ∧ Leads doc (steps path) p w ∧
      walk (some doc) path = .ok (some w)) ∨
    (locate doc path = .ok none ∧ walk (some doc) path = .ok none) ∨
    ∃ f, locate doc path = .error f ∧ walk (some doc) path = .error f := by
  rw [walk_eq_follow]
  exact locate_cases doc doc (steps path) [] rfl

/-- Where the place is found, the object there is written back with its member set. -/
theorem setPathInt_of_leads {doc v : Json} {path : Str} {p : Position}
    (hloc : locate doc path = .ok (some p)) (hlead : Leads doc (steps path) p v) (var : Str)
    (n : Int) :
    setPathInt doc path var n =
      v.getObj.map fun o => put doc p (.obj (setMembers o var n)) := by
  rw [setPathInt, hloc]
  simp only [bind, Except.bind, hlead.sub_eq]
  cases v.getObj with
  | error f => rfl
  | ok o => rfl

/-- Writing through a pointer follows a null pointer exactly where reading does. -/
theorem setPathInt_eq_undefined_iff (doc : Json) (path var : Str) (n : Int) :
    setPathInt doc path var n = .error .undefined ↔ FollowsNull doc (steps path) := by
  rw [← getPath_eq_undefined_iff, getPath]
  rcases locate_eq doc path with ⟨p, w, hloc, hlead, hwalk⟩ | ⟨hloc, hwalk⟩ | ⟨f, hloc, hwalk⟩
  · rw [setPathInt_of_leads hloc hlead, hwalk]
    have hne := getObj_ne_undefined w
    cases hobj : w.getObj with
    | error f =>
      rw [hobj] at hne
      refine iff_of_false (fun h => hne ?_) (by simp [bind, Except.bind])
      rw [Except.error.inj h]
    | ok o => simp [Except.map, bind, Except.bind]
  · rw [hwalk, setPathInt, hloc]
    exact iff_of_true rfl rfl
  · rw [hwalk, setPathInt, hloc]
    exact Iff.rfl

/-- **Null pointers.** Reading gives the value that the path addresses or throws, and writing
returns or throws, except where the path finds nothing and the walk does not say so. -/
theorem nullSafe_iff (doc : Json) (path : Str) :
    (((∃ w, getPath doc path = .ok w ∧ Addresses doc (steps path) w) ∨
        ∃ f, f ≠ .undefined ∧ getPath doc path = .error f) ∧
      ∀ var n, setPathInt doc path var n ≠ .error .undefined) ↔ ¬ FollowsNull doc (steps path) := by
  constructor
  · rintro ⟨hget | ⟨f, hf, hget⟩, -⟩ hnull
    · obtain ⟨w, hw, -⟩ := hget
      rw [getPath_eq_undefined_iff.mpr hnull] at hw
      cases hw
    · rw [getPath_eq_undefined_iff.mpr hnull] at hget
      exact hf (Except.error.inj hget).symm
  · intro hnull
    refine ⟨?_, fun var n h => hnull ((setPathInt_eq_undefined_iff ..).mp h)⟩
    cases hget : getPath doc path with
    | ok w => exact Or.inl ⟨w, rfl, getPath_eq_ok_iff.mp hget⟩
    | error f =>
      refine Or.inr ⟨f, ?_, rfl⟩
      rintro rfl
      exact hnull (getPath_eq_undefined_iff.mp hget)

/-- A name that no member has: the null pointer is turned into a `JsonObject`. -/
theorem missingName_not_nullSafe :
    getPath (.obj []) "a".toList = .error .undefined ∧
      ∀ var n, setPathInt (.obj []) "a".toList var n = .error .undefined := by
  have hwalk : walk (some (.obj [])) "a".toList = .ok none :=
    walk_last (plain_of_all (by decide)) (by decide) _
  have hget : getPath (.obj []) "a".toList = .error .undefined := by
    rw [getPath, hwalk]
    rfl
  exact ⟨hget, fun var n => (setPathInt_eq_undefined_iff ..).mpr
    (getPath_eq_undefined_iff.mp hget)⟩

/-! ## The same path afterwards

Setting a member does not lead the path elsewhere: names and lengths stay, and a child that was
selected by its key is still selected, unless that key was set. -/

theorem get_cons (name key : Str) (v : Json) (o : Object) :
    get ((key, v) :: o) name = if name = key then some v else get o name := by
  by_cases h : name = key
  · simp [get, h]
  · simp [get, h]

/-- Setting one member leaves the members of other names. -/
theorem get_setMembers {o : Object} {var k : Str} (h : k ≠ var) (n : Int) :
    get (setMembers o var n) k = get o k := by
  induction o with
  | nil => rfl
  | cons p o ih =>
    obtain ⟨key, v⟩ := p
    rw [setMembers] at ih
    rw [setMembers, List.map_cons, get_cons]
    by_cases hvar : var = key
    · subst hvar
      rw [if_pos rfl, get_cons, if_neg h, if_neg h, ih]
    · rw [if_neg hvar, get_cons, ih]

/-- The member that is set reads back as the number. -/
theorem get_setMembers_self {o : Object} {var : Str} (h : var ∈ o.map Prod.fst) (n : Int) :
    JsonObject.get (setMembers o var n) var = .int n := by
  have hset : setMembers o var n = o.map fun p => (p.1, if var = p.1 then .int n else p.2) := by
    refine List.map_congr_left fun p _ => ?_
    split
    · rfl
    · rfl
  obtain ⟨v, -, -, hget⟩ := JsonObject.get_map
    (fun p => if var = p.1 then Json.int n else p.2) h
  rw [hset, hget, if_pos rfl]

/-- No member is added: without one of that name nothing is set. -/
theorem setMembers_of_not_mem {o : Object} {var : Str} (h : var ∉ o.map Prod.fst) (n : Int) :
    setMembers o var n = o := by
  refine (List.map_congr_left fun p hp => ?_).trans (List.map_id o)
  have hne : var ≠ p.1 := by
    rintro rfl
    exact h (List.mem_map_of_mem hp)
  rw [if_neg hne]
  rfl

/-- Changing a value does not move the members. -/
theorem findName_modify (m : Object) (i : Nat) (f : Json → Json) (name : Str) :
    findName (m.modify i fun q => (q.1, f q.2)) name = findName m name := by
  induction m generalizing i with
  | nil => cases i <;> rfl
  | cons p m ih =>
    cases i with
    | zero => simp [findName, List.findIdx?_cons]
    | succ i =>
      have := ih i
      simp only [findName] at this
      simp [findName, List.findIdx?_cons, this]

/-- Only the name of the changed member reads differently. -/
theorem get_modify (m : Object) (i : Nat) (f : Json → Json) (name : Str) :
    get (m.modify i fun q => (q.1, f q.2)) name =
      if findName m name = some i then (get m name).map f else get m name := by
  induction m generalizing i with
  | nil => cases i <;> rfl
  | cons p m ih =>
    obtain ⟨key, v⟩ := p
    by_cases hkey : name = key
    · subst hkey
      cases i with
      | zero => simp [get, findName, List.findIdx?_cons]
      | succ i => simp [get, findName, List.findIdx?_cons]
    · cases i with
      | zero => simp [get, findName, List.findIdx?_cons, hkey]
      | succ i =>
        have := ih i
        simp only [get, findName] at this
        simp [get, findName, List.findIdx?_cons, hkey, this]

/-- A child that still matches after a change below it is still the first to match. -/
theorem findChild_modify {condition : Str} {m : Object} {k i : Nat} {w : Json} {f : Json → Json}
    (found : findChild condition m k = .ok (some (k + i))) (child : (m.map Prod.snd)[i]? = some w)
    (hmatch : childMatches (f w) condition = .ok true) :
    findChild condition (m.modify i fun q => (q.1, f q.2)) k = .ok (some (k + i)) := by
  induction m generalizing k i with
  | nil => cases child
  | cons p m ih =>
    obtain ⟨key, v⟩ := p
    rw [findChild] at found
    cases hv : childMatches v condition with
    | error f' =>
      rw [hv] at found
      cases found
    | ok b =>
      rw [hv] at found
      cases b with
      | true =>
        have hi : k = k + i := Option.some.inj (Except.ok.inj found)
        obtain rfl : i = 0 := by omega
        obtain rfl := Option.some.inj child
        rw [List.modify_zero_cons, findChild, hmatch]
        rfl
      | false =>
        have hrest : findChild condition m (k + 1) = .ok (some (k + i)) := found
        cases i with
        | zero =>
          -- what is found in the rest lies behind this member
          rcases findChild_cases condition m (k + 1) with ⟨hf, -⟩ | ⟨j, w', hf, -⟩ | ⟨f', hf, -⟩
          · rw [hf] at hrest
            cases hrest
          · have := Option.some.inj (Except.ok.inj (hf.symm.trans hrest))
            omega
          · rw [hf] at hrest
            cases hrest
        | succ i =>
          have hki : k + (i + 1) = k + 1 + i := by omega
          rw [hki] at hrest ⊢
          rw [List.modify_succ_cons, findChild, hv]
          exact ih hrest child

/-- A step goes to the same child when the child is replaced by one that looks the same to it. -/
theorem Step.find_put {s : Step} {v w u : Json} {i : Nat} {p : Position}
    (found : s.find v = .ok (some i)) (child : (children v)[i]? = some w)
    (hobj : w.isObj = true → (put w p u).isObj = true)
    (hmatch : ∀ condition, s = .select condition → childMatches w condition = .ok true →
      childMatches (put w p u) condition = .ok true) :
    s.find (put v (i :: p) u) = .ok (some i) := by
  cases s with
  | name token =>
    cases v with
    | obj m =>
      -- names are not touched by what is put below
      have hname : findName m token = some i := Except.ok.inj found
      rw [put_obj]
      exact congrArg Except.ok ((findName_modify m i (fun v => put v p u) token).trans hname)
    | _ => cases found
  | member token =>
    cases v with
    | obj m =>
      obtain ⟨hname, m', hmi⟩ := find_member_iff.mp found
      rw [children_obj, hmi] at child
      obtain rfl := Option.some.inj child
      -- behind a dot the member has to be an object afterwards too
      obtain ⟨m₁, hm₁⟩ : ∃ m₁, put (.obj m') p u = .obj m₁ := by
        have := hobj rfl
        cases hput : put (.obj m') p u with
        | obj m₁ => exact ⟨m₁, rfl⟩
        | _ =>
          rw [hput] at this
          cases this
      rw [put_obj]
      refine find_member_iff.mpr
        ⟨(findName_modify m i (fun v => put v p u) token).trans hname, m₁, ?_⟩
      rw [List.getElem?_modify, hmi, ← hm₁]
      simp
    | _ => cases found
  | index text =>
    cases v with
    | arr es =>
      rw [put_arr]
      simpa only [Step.find, List.length_modify] using found
    | _ => cases found
  | select condition =>
    cases v with
    | obj m =>
      have hfound : findChild condition m 0 = .ok (some (0 + i)) := by
        rw [Nat.zero_add]
        exact found
      -- the child that was found had matched before
      have hw : childMatches w condition = .ok true := by
        rcases Step.find_cases (.select condition) (.obj m) with
          ⟨j, w', hfind, hchild, htake⟩ | ⟨hfind, -⟩ | ⟨f, hfind, -⟩
        · obtain rfl := Option.some.inj (Except.ok.inj (hfind.symm.trans found))
          obtain rfl := Option.some.inj (hchild.symm.trans child)
          obtain ⟨pre, name, post, -, -, hmatch'⟩ := getChildWithCondition_eq_some_iff.mp htake
          exact hmatch'
        · rw [hfind] at found
          cases found
        · rw [hfind] at found
          cases found
      have := findChild_modify hfound child (f := fun v => put v p u)
        (hmatch condition rfl hw)
      rw [Nat.zero_add] at this
      rw [put_obj]
      exact this
    | _ => cases found
  | unclosed => cases found

/-- The key that a condition compares. -/
def conditionKey (condition : Str) : Str := unquote (condition.takeWhile (· ≠ '='))

/-- The step is a `[key=value]` selection by this key. -/
def Step.SelectsBy (var : Str) : Step → Prop
  | .select condition => conditionKey condition = var
  | _ => False

theorem childMatches_congr {m m' : Object} {condition : Str}
    (h : get m (conditionKey condition) = get m' (conditionKey condition)) :
    childMatches (.obj m) condition = childMatches (.obj m') condition := by
  rw [conditionKey] at h
  simp only [childMatches, valueMatches, getObj_obj, bind, Except.bind, h]

/-- What is compared has no children. -/
theorem childMatches_scalar {m : Object} {condition : Str}
    (h : childMatches (.obj m) condition = .ok true) :
    ∃ x, get m (conditionKey condition) = some x ∧ children x = [] ∧ x.isObj = false := by
  simp only [childMatches, valueMatches, getObj_obj, bind, Except.bind] at h
  rw [conditionKey]
  split at h
  · next n hget => exact ⟨_, hget, rfl, rfl⟩
  · next t hget => exact ⟨_, hget, rfl, rfl⟩
  · cases h

/-- A replacement further down, where an object is, leaves what is compared alone. -/
theorem childMatches_put {w : Json} {condition : Str} {j : Nat} {p : Position} {o : Object}
    (h : childMatches w condition = .ok true) (hsub : sub w (j :: p) = some (.obj o)) (u : Json) :
    childMatches (put w (j :: p) u) condition = .ok true := by
  cases w with
  | obj m =>
    -- the member that is compared is a scalar, so that no object is at or below it
    obtain ⟨x, hget, hkids, hobj⟩ := childMatches_scalar h
    rw [put_obj, ← childMatches_congr (m := m), h]
    rw [get_modify m j (fun v => put v p u)]
    obtain ⟨k, hk, hmk⟩ := findName_of_get hget
    have hkj : k ≠ j := by
      rintro rfl
      have hchild : (children (.obj m))[k]? = some x := by
        rw [children_obj, hmk]
        rfl
      rw [sub_cons hchild] at hsub
      cases p with
      | nil =>
        obtain rfl := Option.some.inj hsub
        cases hobj
      | cons l p =>
        have hno : (children x)[l]? = none := by
          rw [hkids]
          rfl
        rw [sub] at hsub
        rw [show Branching.kids x = children x from rfl, hno] at hsub
        cases hsub
    rw [hk, if_neg fun h => hkj (Option.some.inj h)]
  | _ => cases h

/-- What is put further down leaves an object an object. -/
theorem isObj_put (w : Json) (j : Nat) (p : Position) (u : Json) :
    (put w (j :: p) u).isObj = w.isObj := by
  cases w with
  | obj m => rw [put_obj]; rfl
  | arr es => rfl
  | _ => rfl

/-- **The path leads to the changed object.** -/
theorem Leads.put {v : Json} {ss : List Step} {p : Position} {o : Object}
    (h : Leads v ss p (.obj o)) {var : Str} (n : Int)
    (hlast : ∀ s, ss.getLast? = some s → ¬ s.SelectsBy var) :
    Leads (Subtrees.put v p (.obj (setMembers o var n))) ss p (.obj (setMembers o var n)) := by
  -- by induction on the walk: every step above the target finds the same child again
  generalize htarget : Json.obj o = target at h
  induction h with
  | nil v => exact .nil _
  | @cons v w x s ss i p found child rest ih =>
    subst htarget
    have hsub := rest.sub_eq
    refine .cons (w := Subtrees.put w p (.obj (setMembers o var n))) (s.find_put found child ?_ ?_)
      ?_ (ih (fun s' hs' => hlast s' ?_) rfl)
    · intro hw
      cases p with
      | nil => rfl
      | cons j p => rw [isObj_put, hw]
    · rintro condition rfl hmatch
      cases p with
      | nil =>
        obtain rfl := Option.some.inj hsub
        cases rest with
        | nil =>
          have hkey : conditionKey condition ≠ var := hlast _ rfl
          rw [put_nil, childMatches_congr (get_setMembers hkey n), hmatch]
      | cons j p => exact childMatches_put hmatch hsub _
    · rw [show children (Subtrees.put v (i :: p) _) =
        (children v).modify i fun c => Subtrees.put c p _ from kids_put v _ i p]
      rw [List.getElem?_modify, child]
      simp
    · rw [List.getLast?_cons, hs']
      rfl

/-- A path that leads to a value addresses it. -/
theorem Leads.addresses {v u : Json} {ss : List Step} {p : Position} (h : Leads v ss p u) :
    Addresses v ss u := by
  induction h with
  | nil v => exact .nil v
  | @cons v w x s ss i p found child _ ih =>
    rcases s.find_cases v with ⟨j, w', hfind, hchild, htake⟩ | ⟨hfind, -⟩ | ⟨f, hfind, -⟩
    · obtain rfl := Option.some.inj (Except.ok.inj (hfind.symm.trans found))
      obtain rfl := Option.some.inj (hchild.symm.trans child)
      exact .cons (Step.take_eq_some_iff.mp htake) ih
    · rw [hfind] at found
      cases found
    · rw [hfind] at found
      cases found

/-- A change of an object's members with one name is seen at and below these members only. -/
theorem top_sub_setMembers {doc : Json} {p q : Position} {o : Object} {var : Str}
    (h : sub doc p = some (.obj o)) (n : Int)
    (hq : ∀ i v, o[i]? = some (var, v) → ¬ p ++ [i] <+: q) :
    (sub (put doc p (.obj (setMembers o var n))) q).map outline = (sub doc q).map outline := by
  by_cases hpq : p <+: q
  · obtain ⟨r, rfl⟩ := hpq
    rw [sub_put_below h, sub_append, h, Option.bind_some]
    -- at the object itself only values change, below it only those of the name
    cases r with
    | nil =>
      have hnames : ((setMembers o var n).map fun p => (p.1, Json.null)) =
          o.map fun p => (p.1, Json.null) := by
        rw [setMembers, List.map_map]
        refine List.map_congr_left fun p _ => ?_
        rw [Function.comp_apply]
        split
        · rfl
        · rfl
      rw [sub_nil, sub_nil, Option.map_some, Option.map_some, outline, outline, hnames]
    | cons i r =>
      have hsame : (children (.obj (setMembers o var n)))[i]? = (children (.obj o))[i]? := by
        rw [children_obj, children_obj, setMembers, List.getElem?_map]
        cases hi : o[i]? with
        | none => rfl
        | some m =>
          obtain ⟨key, v⟩ := m
          have hne : var ≠ key := by
            rintro rfl
            exact hq i v hi ⟨r, by simp⟩
          simp [hne]
      rw [sub, sub]
      exact congrArg (fun c => Option.map outline (Option.bind c fun c => sub c r)) hsame
  · exact top_sub_put hpq

/-- **Setting behind a path.** Nothing changes but the members with the name in the object that the
path leads to; without such a member nothing changes at all. The path leads to the new number
afterwards, unless its last step selects by what was set. -/
theorem setPathInt_spec {doc : Json} {path : Str} {o : Object}
    (h : getPath doc path = .ok (.obj o)) (var : Str) {n : Int} (hn : IsInt n) :
    ∃ p doc', locate doc path = .ok (some p) ∧ sub doc p = some (.obj o) ∧
      setPathInt doc path var n = .ok doc' ∧
      (∀ q, (∀ i v, o[i]? = some (var, v) → ¬ p ++ [i] <+: q) →
        (sub doc' q).map outline = (sub doc q).map outline) ∧
      (var ∉ o.map Prod.fst → doc' = doc) ∧
      (var ∈ o.map Prod.fst → (∀ s, (steps path).getLast? = some s → ¬ s.SelectsBy var) →
        ∃ v, getPath doc' path = .ok v ∧ ∀ d, JsonObject.getInt v var d = .ok n) := by
  rcases locate_eq doc path with ⟨p, w, hloc, hlead, hwalk⟩ | ⟨-, hwalk⟩ | ⟨f, -, hwalk⟩
  · rw [getPath, hwalk] at h
    obtain rfl : w = .obj o := Except.ok.inj h
    have hset := setPathInt_of_leads hloc hlead var n
    refine ⟨p, put doc p (.obj (setMembers o var n)), hloc, hlead.sub_eq, hset,
      fun q hq => top_sub_setMembers hlead.sub_eq n hq, fun hvar => ?_,
      fun hvar hlast => ⟨.obj (setMembers o var n), ?_, fun d => ?_⟩⟩
    · rw [setMembers_of_not_mem hvar, put_self hlead.sub_eq]
    · exact getPath_eq_ok_iff.mpr (hlead.put n hlast).addresses
    · rw [JsonObject.getInt_eq (get_setMembers_self hvar n), int32_of_isInt hn]
  · rw [getPath, hwalk] at h
    cases h
  · rw [getPath, hwalk] at h
    cases h

/-- A tuned argument, in a document with one block. -/
theorem setPathInt_spec_block :
    ∃ doc', setPathInt (.obj [("a".toList, .obj [("x".toList, .int 2), ("y".toList, .null)])])
        "a".toList "x".toList 5 = .ok doc' ∧
      ∃ v, getPath doc' "a".toList = .ok v ∧ JsonObject.getInt v "x".toList 0 = .ok 5 := by
  have hplain : Plain "a".toList := plain_of_all (by decide)
  have hget : getPath (.obj [("a".toList, .obj [("x".toList, .int 2), ("y".toList, .null)])])
      "a".toList = .ok (.obj [("x".toList, .int 2), ("y".toList, .null)]) :=
    getPath_name hplain (by decide) (JsonObject.get_cons_self ..) (by simp)
  obtain ⟨p, doc', -, -, hset, -, -, hafter⟩ :=
    setPathInt_spec hget "x".toList (n := 5) (by decide)
  obtain ⟨v, hv, hint⟩ := hafter (by decide) (by
    intro s hs
    rw [steps_plain hplain (by decide)] at hs
    obtain rfl := Option.some.inj hs
    exact id)
  exact ⟨doc', hset, v, hv, hint 0⟩

end JsonPath

end Skweltch
