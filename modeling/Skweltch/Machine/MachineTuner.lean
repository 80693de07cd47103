import Skweltch.Config.PathThrows
import Skweltch.Lib.EventLoop

/-!
# Skweltch — tuning a machine

`MachineTuner` (`machine/MachineTuner.cpp`) changes the members of a machine configuration that
the targets of a tuner configuration name. A target is a path into the configuration with what to
set behind it. `Hazard` are the targets at which `tune` throws something that a handler of
`runtime_error &` does not catch (`applyTarget_hazard_iff`).
-/

namespace Skweltch

open EventLoop FixedWidth Json JsonObject NumText

/-- What is thrown. -/
inductive Thrown where
  | runtimeError (what : String)
  /-- `throw new runtime_error`: a pointer -/
  | pointer (what : Str)
  | badLexicalCast
  | outOfRange
  /-- `zmq::error_t` -/
  | socket
  /-- `msgpack::type_error` -/
  | typeError
  /-- nothing is: a null pointer is followed, or a precondition of a library is not met -/
  | undefined
deriving DecidableEq, Repr

namespace Thrown

def ofFault : JsonFault → Thrown
  | .runtimeError what => .runtimeError what
  | .badLexicalCast => .badLexicalCast
  | .outOfRange => .outOfRange
  | .undefined => .undefined

/-- `catch (runtime_error &e)` -/
def caught : Thrown → Bool
  | .runtimeError _ => true
  | _ => false

theorem caught_ofFault (f : JsonFault) : (ofFault f).caught = true ↔ JsonPath.Runtime f := by
  cases f with
  | runtimeError what => simp [ofFault, caught, JsonPath.Runtime]
  | _ => simp [ofFault, caught, JsonPath.Runtime]

/-- What a function of the configuration throws is thrown on. -/
def lift {α : Type} : Except JsonFault α → Except Thrown α
  | .ok a => .ok a
  | .error f => .error (ofFault f)

end Thrown

/-- `JsonObject::getBool` -/
def JsonObject.getBool (v : Json) (key : Str) : Except JsonFault Bool := do
  let o ← v.getObj
  match get o key with
  | .bool b => .ok b
  | _ => .ok false

/-- What the tuner computes with: the value of a `hightolow` target, in floating point, and a draw
of its generator. -/
structure TunerEnv (γ : Type) where
  hightolow : (low high mutations mutation : Int) → Int
  draw : (low high : Int) → γ → Int × γ

/-- The tuner with the configuration it changes, and the local variables of `tune`. -/
structure Tuning (γ : Type) where
  config : Json
  failonerror : Bool
  gen : γ
  vars : Int
  varstring : Str

namespace MachineTuner

open Thrown

variable {γ : Type} (env : TunerEnv γ)

/-- One turn of the loop of `varCount`. -/
def countTarget (group vars : Int) (p : Str × Json) : Except JsonFault Int := do
  if p.2.isObj ∧ p.1 ≠ "success".toList then do
    let enabled ← getBool p.2 "enabled".toList
    if enabled then do
      let g ← getInt p.2 "group".toList (-1)
      .ok (if g = group then int32 (vars + 1) else vars)
    else .ok vars
  else .ok vars

/-- `MachineTuner::varCount` -/
def varCount (tunerconfig : Json) (group : Int) : Except JsonFault Int := do
  let members ← tunerconfig.getObj
  members.foldlM (countTarget group) 0

/-- The value is set, counted and noted. -/
def setVar (key var : Str) (val : Int) (s : Tuning γ) : Except Thrown (Tuning γ) := do
  let config ← lift (JsonPath.setPathInt s.config key var val)
  .ok { s with
    config := config
    vars := int32 (s.vars + 1)
    varstring := if s.varstring = [] then decText val else s.varstring ++ '\t' :: decText val }

/-- The target is enabled and of the group. -/
def applySelected (mutations mutation : Int) (key : Str) (target : Json) (s : Tuning γ) :
    Except Thrown (Tuning γ) := do
  let type ← lift (getString target "type".toList)
  let fail ← lift (getBool target "fail".toList)
  let s := { s with failonerror := fail }
  if type = "int".toList then do
    let low ← lift (getInt target "low".toList (-1))
    if low < 0 then .error (.pointer ("invalid low value for ".toList ++ key))
    else do
      let high ← lift (getInt target "high".toList (-1))
      if high < 0 then .error (.pointer ("invalid high value for ".toList ++ key))
      else do
        let var ← lift (getString target "var".toList)
        let select ← lift (getString target "select".toList)
        let _ ← lift (JsonPath.getPath s.config key)
        if select = "hightolow".toList then
          setVar key var (env.hightolow low high mutations mutation) s
        else if select = "random".toList then
          -- `uniform_int_distribution` asks for this
          if low ≤ high then
            setVar key var (env.draw low high s.gen).1 { s with gen := (env.draw low high s.gen).2 }
          else .error .undefined
        else .error (.pointer "don't know how to select".toList)
  else .error (.pointer "don't know the type".toList)

def applyTarget (group mutations mutation : Int) (s : Tuning γ) (p : Str × Json) :
    Except Thrown (Tuning γ) := do
  if p.2.isObj ∧ p.1 ≠ "success".toList then do
    let enabled ← lift (getBool p.2 "enabled".toList)
    if enabled then do
      let g ← lift (getInt p.2 "group".toList (-1))
      if g = group then applySelected env mutations mutation p.1 p.2 s else .ok s
    else .ok s
  else .ok s

/-- The loop of `tune` over the tuner configuration. -/
def body (group mutations mutation : Int) : Body (Tuning γ) (Str × Json) Empty Thrown :=
  fun s p =>
    match applyTarget env group mutations mutation s p with
    | .ok s' => ([], .next s')
    | .error t => ([], .exit t)

theorem body_of_ok {group mutations mutation : Int} {s s' : Tuning γ} {p : Str × Json}
    (h : applyTarget env group mutations mutation s p = .ok s') :
    body env group mutations mutation s p = ([], .next s') := by
  rw [body, h]

theorem body_of_error {group mutations mutation : Int} {s : Tuning γ} {p : Str × Json} {t : Thrown}
    (h : applyTarget env group mutations mutation s p = .error t) :
    body env group mutations mutation s p = ([], .exit t) := by
  rw [body, h]

def begun (s : Tuning γ) : Tuning γ := { s with vars := 0, varstring := [] }

/-- `MachineTuner::tune` -/
def tune (tunerconfig : Json) (group mutation : Int) (s : Tuning γ) :
    Except Thrown (Bool × Tuning γ) := do
  let mutations ← lift (getInt tunerconfig "mutations".toList (-1))
  if mutations < 0 then .error (.pointer "invalid mutations".toList)
  else do
    let members ← lift tunerconfig.getObj
    match (run (body env group mutations mutation) (begun s) members).2 with
    | .next s' => .ok (s'.vars > 0, s')
    | .exit t => .error t

/-! ## What is not caught

The program catches `runtime_error`, and the texts that `tune` throws are none. What escapes a pass
is said about its targets and the configuration as they are come to. -/

/-- The target is an object that `tune` looks at for this group. -/
def Selected (group : Int) (p : Str × Json) (o : Object) : Prop :=
  p.2 = .obj o ∧ p.1 ≠ "success".toList ∧ get o "enabled".toList = .bool true ∧
    intAt o "group".toList (-1) = group

/-- The target has what is read before its path is followed. -/
def Ranged (o : Object) (select : Str) : Prop :=
  get o "type".toList = .str "int".toList ∧ 0 ≤ intAt o "low".toList (-1) ∧
    0 ≤ intAt o "high".toList (-1) ∧ (∃ var, get o "var".toList = .str var) ∧
    get o "select".toList = .str select

/-- A target of the group at which something is thrown that is no `runtime_error`. -/
inductive Hazard (config : Json) (key : Str) (o : Object) : Prop where
  | type {type : Str} (has : get o "type".toList = .str type) (unknown : type ≠ "int".toList)
  | low (type : get o "type".toList = .str "int".toList) (low : intAt o "low".toList (-1) < 0)
  | high (type : get o "type".toList = .str "int".toList) (low : 0 ≤ intAt o "low".toList (-1))
      (high : intAt o "high".toList (-1) < 0)
  | path {select : Str} (ranged : Ranged o select)
      (strays : JsonPath.Strays config (JsonPath.steps key))
  | select {select : Str} {w : Json} (ranged : Ranged o select)
      (leads : JsonPath.Addresses config (JsonPath.steps key) w)
      (unknown : select ≠ "hightolow".toList ∧ select ≠ "random".toList)
  | range {w : Json} (ranged : Ranged o "random".toList)
      (leads : JsonPath.Addresses config (JsonPath.steps key) w)
      (empty : intAt o "high".toList (-1) < intAt o "low".toList (-1))

/-- The call throws, and not a `runtime_error`. -/
def Escapes {α : Type} (x : Except Thrown α) : Prop := ∃ t, x = .error t ∧ t.caught = false

theorem not_escapes_ok {α : Type} (a : α) : ¬ Escapes (.ok a : Except Thrown α) := by
  rintro ⟨t, ht, -⟩
  cases ht

theorem escapes_error {α : Type} {t : Thrown} :
    Escapes (.error t : Except Thrown α) ↔ t.caught = false := by
  simp [Escapes]

/-- A string is read, and any other value throws what is caught. -/
theorem getStr_cases (v : Json) :
    (∃ s, v = .str s ∧ lift v.getStr = .ok s) ∨
      (∀ s, v ≠ .str s) ∧ ∃ what, lift v.getStr = .error (.runtimeError what) := by
  cases v with
  | str s => exact Or.inl ⟨s, rfl, rfl⟩
  | _ => exact Or.inr ⟨fun s => Json.noConfusion, _, rfl⟩

/-- A flag is always read, and only `true` sets it. -/
theorem getBool_obj (o : Object) (key : Str) :
    ∃ b, lift (getBool (.obj o) key) = .ok b ∧ (b = true ↔ get o key = .bool true) := by
  have hget : getBool (.obj o) key =
      match get o key with
      | .bool b => .ok b
      | _ => .ok false := rfl
  rw [hget]
  cases get o key with
  | bool b => exact ⟨b, rfl, by simp⟩
  | _ => exact ⟨false, rfl, by simp⟩

theorem lift_getString (o : Object) (key : Str) :
    lift (getString (.obj o) key) = lift (get o key).getStr := rfl

theorem lift_getString_str {o : Object} {key t : Str} (h : get o key = .str t) :
    lift (getString (.obj o) key) = .ok t := by
  rw [lift_getString, h]
  rfl

theorem lift_getInt (o : Object) (key : Str) :
    lift (getInt (.obj o) key (-1)) = .ok (intAt o key (-1)) := by
  rw [getInt_obj]
  rfl

variable {env}

/-- A value can be set behind a path that leads somewhere, or a `runtime_error` is thrown. -/
theorem not_escapes_setVar {key : Str} {s : Tuning γ} {w : Json}
    (h : JsonPath.getPath s.config key = .ok w) (var : Str) (val : Int) :
    ¬ Escapes (setVar key var val s) := by
  unfold setVar
  cases hset : JsonPath.setPathInt s.config key var val with
  | ok config => exact not_escapes_ok _
  | error f =>
    rintro ⟨t, ht, hcaught⟩
    obtain rfl := Except.error.inj ht
    rw [(caught_ofFault f).mpr (JsonPath.setPathInt_runtime h var val hset)] at hcaught
    cases hcaught

/-- Behind what is read first, the path and the selection decide. -/
theorem applySelected_ranged {o : Object} {select : Str} (h : Ranged o select)
    (mutations mutation : Int) (key : Str) (s : Tuning γ) :
    Escapes (applySelected env mutations mutation key (.obj o) s) ↔
      JsonPath.Strays s.config (JsonPath.steps key) ∨
      ∃ w, JsonPath.Addresses s.config (JsonPath.steps key) w ∧
        ((select ≠ "hightolow".toList ∧ select ≠ "random".toList) ∨
          (select = "random".toList ∧
            intAt o "high".toList (-1) < intAt o "low".toList (-1))) := by
  obtain ⟨htype, hlow, hhigh, ⟨var, hvar⟩, hselect⟩ := h
  obtain ⟨fail, hfail, -⟩ := getBool_obj o "fail".toList
  rw [← JsonPath.getPath_strays_iff]
  simp only [applySelected, lift_getString_str htype, hfail, lift_getInt, if_neg (not_lt.mpr hlow),
    if_neg (not_lt.mpr hhigh), lift_getString_str hvar, lift_getString_str hselect, bind,
    Except.bind, if_true]
  simp only [← JsonPath.getPath_eq_ok_iff]
  cases hpath : JsonPath.getPath s.config key with
  | error f =>
    simp only [lift, escapes_error, ← Bool.not_eq_true, caught_ofFault]
    simp
  | ok w =>
    simp only [lift, JsonPath.not_uncaught_ok, false_or, Except.ok.injEq, exists_eq_left']
    by_cases hhightolow : select = "hightolow".toList
    · rw [if_pos hhightolow]
      -- the path was followed once already, so that setting behind it cannot stray
      refine iff_of_false (not_escapes_setVar (w := w) (by exact hpath) _ _) ?_
      rintro (⟨hno, -⟩ | ⟨hrandom, -⟩)
      · exact hno hhightolow
      · exact absurd (hhightolow.symm.trans hrandom) (by decide)
    · rw [if_neg hhightolow]
      by_cases hrandom : select = "random".toList
      · rw [if_pos hrandom]
        by_cases hle : intAt o "low".toList (-1) ≤ intAt o "high".toList (-1)
        · rw [if_pos hle]
          refine iff_of_false (not_escapes_setVar (w := w) (by exact hpath) _ _) ?_
          rintro (⟨-, hno⟩ | ⟨-, hlt⟩)
          · exact hno hrandom
          · omega
        · rw [if_neg hle]
          exact iff_of_true (escapes_error.mpr rfl) (Or.inr ⟨hrandom, not_le.mp hle⟩)
      · rw [if_neg hrandom]
        exact iff_of_true (escapes_error.mpr rfl) (Or.inl ⟨hhightolow, hrandom⟩)

theorem Ranged.unique {o : Object} {select select' : Str} (h : Ranged o select)
    (h' : Ranged o select') : select = select' :=
  Json.str.inj (h.2.2.2.2.symm.trans h'.2.2.2.2)

/-- The hazards of a target with a range: its path, or a way of selection that is none. -/
theorem hazard_ranged {o : Object} {select : Str} (h : Ranged o select) (config : Json)
    (key : Str) :
    Hazard config key o ↔
      JsonPath.Strays config (JsonPath.steps key) ∨
      ∃ w, JsonPath.Addresses config (JsonPath.steps key) w ∧
        ((select ≠ "hightolow".toList ∧ select ≠ "random".toList) ∨
          (select = "random".toList ∧
            intAt o "high".toList (-1) < intAt o "low".toList (-1))) := by
  constructor
  · intro hazard
    cases hazard with
    | type has unknown => exact absurd (Json.str.inj (has.symm.trans h.1)) unknown
    | low _ low => exact absurd h.2.1 (not_le.mpr low)
    | high _ _ high => exact absurd h.2.2.1 (not_le.mpr high)
    | path _ strays => exact Or.inl strays
    | select ranged leads unknown =>
      obtain rfl := h.unique ranged
      exact Or.inr ⟨_, leads, Or.inl unknown⟩
    | range ranged leads empty => exact Or.inr ⟨_, leads, Or.inr ⟨h.unique ranged, empty⟩⟩
  · rintro (strays | ⟨w, leads, unknown | ⟨rfl, empty⟩⟩)
    · exact .path h strays
    · exact .select h leads unknown
    · exact .range h leads empty

/-- **One target.** Something escapes exactly at a hazard. -/
theorem applySelected_hazard_iff (o : Object) (mutations mutation : Int) (key : Str)
    (s : Tuning γ) :
    Escapes (applySelected env mutations mutation key (.obj o) s) ↔ Hazard s.config key o := by
  -- once everything is read the path and the selection decide; before that, what is missing
  by_cases hranged : ∃ select, Ranged o select
  · obtain ⟨select, hselect⟩ := hranged
    rw [applySelected_ranged hselect, hazard_ranged hselect]
  · obtain ⟨fail, hfail, -⟩ := getBool_obj o "fail".toList
    simp only [applySelected, lift_getString, hfail, lift_getInt, bind, Except.bind]
    -- what is missing is looked for in the order of the source
    rcases getStr_cases (get o "type".toList) with ⟨type, htype, hlift⟩ | ⟨hno, what, hlift⟩
    · rw [hlift]
      simp only
      by_cases hint : type = "int".toList
      · subst hint
        rw [if_pos rfl]
        by_cases hlow : intAt o "low".toList (-1) < 0
        · rw [if_pos hlow]
          exact iff_of_true (escapes_error.mpr rfl) (.low htype hlow)
        · rw [if_neg hlow]
          have hlow := not_lt.mp hlow
          by_cases hhigh : intAt o "high".toList (-1) < 0
          · rw [if_pos hhigh]
            exact iff_of_true (escapes_error.mpr rfl) (.high htype hlow hhigh)
          · rw [if_neg hhigh]
            have hhigh := not_lt.mp hhigh
            have hhazard : ¬ Hazard s.config key o := by
              intro hazard
              cases hazard with
              | type has unknown => exact unknown (Json.str.inj (has.symm.trans htype))
              | low _ low => omega
              | high _ _ high => omega
              | path ranged | select ranged | range ranged => exact hranged ⟨_, ranged⟩
            refine iff_of_false ?_ hhazard
            rcases getStr_cases (get o "var".toList) with ⟨var, hvar, hlift⟩ | ⟨-, what, hlift⟩
            · rw [hlift]
              rcases getStr_cases (get o "select".toList) with
                ⟨select, hselect, -⟩ | ⟨-, what, hlift⟩
              · exact absurd ⟨select, htype, hlow, hhigh, ⟨var, hvar⟩, hselect⟩ hranged
              · simp only [hlift, escapes_error]
                simp [caught]
            · simp only [hlift, escapes_error]
              simp [caught]
      · rw [if_neg hint]
        exact iff_of_true (escapes_error.mpr rfl) (.type htype hint)
    · rw [hlift]
      refine iff_of_false (by simp [escapes_error, caught]) fun hazard => ?_
      cases hazard with
      | type has => exact hno _ has
      | low type | high type => exact hno _ type
      | path ranged | select ranged | range ranged => exact hranged ⟨_, ranged⟩

theorem not_isObj {v : Json} (h : ¬ ∃ o, v = .obj o) : v.isObj = false := by
  cases v with
  | obj o => exact absurd ⟨o, rfl⟩ h
  | _ => rfl

/-- The rule for one target: what escapes are its hazards, if it is selected. -/
theorem applyTarget_hazard_iff (env : TunerEnv γ) (group mutations mutation : Int) (s : Tuning γ)
    (p : Str × Json) :
    Escapes (applyTarget env group mutations mutation s p) ↔
      ∃ o, Selected group p o ∧ Hazard s.config p.1 o := by
  obtain ⟨key, v⟩ := p
  by_cases hobj : ∃ o, v = .obj o
  · obtain ⟨o, rfl⟩ := hobj
    obtain ⟨enabled, henabled, hiff⟩ := getBool_obj o "enabled".toList
    -- the conditions in the order in which they are looked at
    have hselected : (∃ o', Selected group (key, .obj o) o' ∧ Hazard s.config key o') ↔
        (key ≠ "success".toList ∧ get o "enabled".toList = .bool true ∧
          intAt o "group".toList (-1) = group) ∧ Hazard s.config key o := by
      simp [Selected]
    rw [hselected, ← hiff]
    simp only [applyTarget, isObj, true_and, henabled, lift_getInt, bind, Except.bind]
    by_cases hkey : key = "success".toList
    · rw [if_neg (not_not.mpr hkey)]
      exact iff_of_false (not_escapes_ok _) fun h => h.1.1 hkey
    · rw [if_pos hkey]
      cases enabled with
      | false => exact iff_of_false (not_escapes_ok _) fun h => Bool.false_ne_true h.1.2.1
      | true =>
        rw [if_pos rfl]
        by_cases hgroup : intAt o "group".toList (-1) = group
        · rw [if_pos hgroup, applySelected_hazard_iff]
          exact (and_iff_right ⟨hkey, rfl, hgroup⟩).symm
        · rw [if_neg hgroup]
          exact iff_of_false (not_escapes_ok _) fun h => hgroup h.1.2.2
  · have hno : applyTarget env group mutations mutation s (key, v) = .ok s := by
      simp [applyTarget, not_isObj hobj]
    rw [hno]
    refine iff_of_false (not_escapes_ok _) ?_
    rintro ⟨o, ⟨heq, -⟩, -⟩
    exact hobj ⟨o, heq⟩

/-- The configuration, as the targets before have left it, is one at which this target throws
nothing that is not caught. -/
def Harmless (group : Int) (s : Tuning γ) (p : Str × Json) : Prop :=
  ∀ o, Selected group p o → ¬ Hazard s.config p.1 o

/-- A pass is left by what is not caught only at a harmful target. -/
theorem body_exit_iff (group mutations mutation : Int) (s : Tuning γ) (p : Str × Json) :
    (∀ t, (body env group mutations mutation s p).2 = .exit t → t.caught = true) ↔
      Harmless group s p := by
  have hharmless : Harmless group s p ↔ ¬ ∃ o, Selected group p o ∧ Hazard s.config p.1 o := by
    simp [Harmless]
  rw [hharmless, ← applyTarget_hazard_iff env group mutations mutation s p, body]
  cases applyTarget env group mutations mutation s p with
  | ok s' => exact iff_of_true (fun t h => by cases h) (not_escapes_ok _)
  | error t =>
    rw [escapes_error, Bool.not_eq_false]
    simp

/-- **One pass.** Tuning throws nothing that is not caught exactly if every target it comes to is
harmless where it stands. -/
theorem tune_escapes_iff (env : TunerEnv γ) {members : Object}
    (h : 0 ≤ intAt members "mutations".toList (-1)) (group mutation : Int) (s : Tuning γ) :
    ¬ Escapes (tune env (.obj members) group mutation s) ↔
      AtEvery (body env group (intAt members "mutations".toList (-1)) mutation) (begun s) members
        (Harmless group) := by
  rw [← atEvery_congr (body_exit_iff group _ mutation), ← run_exit_iff_atEvery]
  simp only [tune, lift_getInt, bind, Except.bind, if_neg (not_lt.mpr h), getObj_obj]
  have hmembers : lift (.ok members : Except JsonFault Object) = .ok members := rfl
  rw [hmembers]
  simp only
  cases (run (body env group (intAt members "mutations".toList (-1)) mutation) (begun s)
      members).2 with
  | next s' => exact iff_of_true (not_escapes_ok _) fun t h => by cases h
  | exit t =>
    rw [escapes_error, Bool.not_eq_false]
    simp

/-- Counting the targets throws nothing. -/
theorem countTarget_ok (group vars : Int) (p : Str × Json) :
    ∃ n, countTarget group vars p = .ok n := by
  obtain ⟨key, v⟩ := p
  unfold countTarget
  split
  · next h =>
    obtain ⟨o, rfl⟩ : ∃ o, v = .obj o := by
      by_contra hno
      have := not_isObj hno
      simp [this] at h
    have hbool : ∃ b, getBool (.obj o) "enabled".toList = .ok b := by
      simp only [getBool, getObj_obj, bind, Except.bind]
      split
      · exact ⟨_, rfl⟩
      · exact ⟨_, rfl⟩
    obtain ⟨b, hb⟩ := hbool
    simp only [hb, getInt_obj, bind, Except.bind]
    cases b with
    | true => exact ⟨_, rfl⟩
    | false => exact ⟨_, rfl⟩
  · exact ⟨_, rfl⟩

/-- Counting throws nothing. -/
theorem varCount_ok (members : Object) (group : Int) :
    ∃ n, varCount (.obj members) group = .ok n := by
  have hfold : ∀ (ms : Object) (n : Int), ∃ m, ms.foldlM (countTarget group) n = .ok m := by
    intro ms
    induction ms with
    | nil => exact fun n => ⟨n, rfl⟩
    | cons p ms ih =>
      intro n
      obtain ⟨n', hn⟩ := countTarget_ok group n p
      obtain ⟨m, hm⟩ := ih n'
      exact ⟨m, by rw [List.foldlM_cons, hn]; exact hm⟩
  exact hfold members 0

end MachineTuner

end Skweltch
