import Skweltch.Machine.Sweep

/-!
# Skweltch — what a pass of the tuner sets

A call of `MachineTuner::tune` (`machine/MachineTuner.cpp`) that returns has gone through the
selected targets in order and written one value for each: `tune_settles` lists them. What is
proved of a pass is proved of this list.
-/

namespace Skweltch

open EventLoop FixedWidth Json JsonObject NumText

/-- A value that is written behind a path. -/
structure Setting where
  key : Str
  var : Str
  val : Int
deriving DecidableEq, Repr

namespace MachineTuner

open Thrown

variable {γ : Type}

/-- The filter that `varCount` and `tune` write out, each for itself. -/
def isSelected (group : Int) (p : Str × Json) : Bool :=
  match p.2 with
  | .obj o =>
    match get o "enabled".toList with
    | .bool true => decide (p.1 ≠ "success".toList) && decide (intAt o "group".toList (-1) = group)
    | _ => false
  | _ => false

/-- Whether a target is selected can be computed. -/
theorem isSelected_iff {group : Int} {p : Str × Json} :
    isSelected group p = true ↔ ∃ o, Selected group p o := by
  obtain ⟨key, v⟩ := p
  unfold isSelected Selected
  cases v with
  | obj o =>
    simp only [Json.obj.injEq, exists_eq_left']
    split
    · next h =>
      rw [h, Bool.and_eq_true, decide_eq_true_iff, decide_eq_true_iff]
      exact ⟨fun hand => ⟨hand.1, rfl, hand.2⟩, fun hand => ⟨hand.1, hand.2.2⟩⟩
    · next h => exact iff_of_false Bool.false_ne_true fun hand => h hand.2.1
  | _ =>
    refine iff_of_false Bool.false_ne_true ?_
    rintro ⟨o, ho, -⟩
    cases ho

/-- The targets of a tuner configuration that a group selects, in order. -/
def selectedTargets (group : Int) (members : Object) : Object := members.filter (isSelected group)

theorem selectedTargets_append (group : Int) (members members' : Object) :
    selectedTargets group (members ++ members') =
      selectedTargets group members ++ selectedTargets group members' := List.filter_append ..

theorem selectedTargets_cons_of_selected {group : Int} {p : Str × Json} {o : Object}
    (h : Selected group p o) (members : Object) :
    selectedTargets group (p :: members) = p :: selectedTargets group members :=
  List.filter_cons_of_pos (isSelected_iff.mpr ⟨o, h⟩)

theorem selectedTargets_cons_of_not {group : Int} {p : Str × Json}
    (h : isSelected group p = false) (members : Object) :
    selectedTargets group (p :: members) = selectedTargets group members :=
  List.filter_cons_of_neg (by simp [h])

/-- The note that is taken of a value. -/
def noted (varstring : Str) (val : Int) : Str :=
  if varstring = [] then decText val else varstring ++ '\t' :: decText val

/-- All the values in order, each in what the ones before have left. -/
def applySettings (config : Json) (ws : List Setting) : Except JsonFault Json :=
  ws.foldlM (fun config w => JsonPath.setPathInt config w.key w.var w.val) config

/-- The value of a setting is what its target selects. -/
def Selects (env : TunerEnv γ) (mutations mutation : Int) (o : Object) (val : Int) : Prop :=
  (Ranged o "hightolow".toList ∧ val = env.hightolow (intAt o "low".toList (-1))
      (intAt o "high".toList (-1)) mutations mutation) ∨
    (Ranged o "random".toList ∧ ∃ gen : γ, val = (env.draw (intAt o "low".toList (-1))
      (intAt o "high".toList (-1)) gen).1)

/-- What is written for a target. -/
def Settles (env : TunerEnv γ) (mutations mutation : Int) (p : Str × Json) (w : Setting) : Prop :=
  ∃ o, p.2 = .obj o ∧ w.key = p.1 ∧ get o "var".toList = .str w.var ∧
    Selects env mutations mutation o w.val

theorem lift_eq_ok {α : Type} {x : Except JsonFault α} {a : α} : lift x = .ok a ↔ x = .ok a := by
  cases x with
  | ok b => simp [lift]
  | error f => simp [lift]

/-- Counting adds one for each target that is selected. -/
theorem countTarget_eq (group vars : Int) (p : Str × Json) :
    countTarget group vars p = .ok (if isSelected group p then int32 (vars + 1) else vars) := by
  obtain ⟨key, v⟩ := p
  by_cases hobj : ∃ o, v = .obj o
  · obtain ⟨o, rfl⟩ := hobj
    have hbool : ∀ b, get o "enabled".toList = .bool b →
        getBool (.obj o) "enabled".toList = .ok b := by
      intro b hb
      simp only [getBool, getObj_obj, bind, Except.bind, hb]
    unfold countTarget isSelected
    -- the criteria stand among the targets under a name of their own
    by_cases hkey : key = "success".toList
    · rw [if_neg fun h => h.2 hkey]
      simp only [hkey, ne_eq, not_true_eq_false, decide_false, Bool.false_and]
      split
      · rfl
      · rfl
    · rw [if_pos ⟨rfl, hkey⟩]
      simp only [ne_eq, hkey, not_false_eq_true, decide_true, Bool.true_and]
      split
      · next he =>
        simp only [hbool true he, getInt_obj, bind, Except.bind, if_true, decide_eq_true_eq]
      · next he =>
        have hfalse : getBool (.obj o) "enabled".toList = .ok false := by
          obtain ⟨b, hb, hiff⟩ := getBool_obj o "enabled".toList
          rw [lift_eq_ok] at hb
          cases b with
          | true => exact absurd (hiff.mp rfl) he
          | false => exact hb
        simp only [hfalse, bind, Except.bind, Bool.false_eq_true, if_false]
  · have hno : isSelected group (key, v) = false := by
      cases v with
      | obj o => exact absurd ⟨o, rfl⟩ hobj
      | _ => rfl
    rw [hno]
    simp [countTarget, not_isObj hobj]

/-- What `setVar` has done when it returns. -/
theorem setVar_ok {key var : Str} {val : Int} {s s' : Tuning γ}
    (h : setVar key var val s = .ok s') :
    ∃ config, JsonPath.setPathInt s.config key var val = .ok config ∧
      s' = { s with config := config, vars := int32 (s.vars + 1),
                    varstring := noted s.varstring val } := by
  obtain ⟨config, hconfig, h⟩ := bind_eq_ok.mp h
  exact ⟨config, lift_eq_ok.mp hconfig, (Except.ok.inj h).symm⟩

/-- What a target has done when nothing is thrown. -/
structure Stepped (env : TunerEnv γ) (mutations mutation : Int) (key : Str) (o : Object)
    (s s' : Tuning γ) (w : Setting) : Prop where
  settles : Settles env mutations mutation (key, .obj o) w
  leads : ∃ v, JsonPath.getPath s.config key = .ok v
  sets : JsonPath.setPathInt s.config w.key w.var w.val = .ok s'.config
  vars : s'.vars = int32 (s.vars + 1)
  varstring : s'.varstring = noted s.varstring w.val

/-- A target that is applied has taken its step, which says all that it does. -/
theorem applySelected_ok {env : TunerEnv γ} {mutations mutation : Int} {key : Str} {o : Object}
    {s s' : Tuning γ} (h : applySelected env mutations mutation key (.obj o) s = .ok s') :
    ∃ w, Stepped env mutations mutation key o s s' w := by
  -- bind by bind: whatever is read, the step has it on record
  have hstr : ∀ {k t : Str}, lift (getString (.obj o) k) = .ok t → get o k = .str t :=
    fun h => get_of_getString (lift_eq_ok.mp h)
  obtain ⟨type, htype, h⟩ := bind_eq_ok.mp h
  obtain ⟨fail, -, h⟩ := bind_eq_ok.mp h
  simp only at h
  by_cases hint : type = "int".toList
  swap
  · rw [if_neg hint] at h
    cases h
  rw [if_pos hint, lift_getInt] at h
  obtain ⟨low, hlow, h⟩ := bind_eq_ok.mp h
  obtain rfl := Except.ok.inj hlow
  by_cases hlow : intAt o "low".toList (-1) < 0
  · rw [if_pos hlow] at h
    cases h
  rw [if_neg hlow, lift_getInt] at h
  obtain ⟨high, hhigh, h⟩ := bind_eq_ok.mp h
  obtain rfl := Except.ok.inj hhigh
  by_cases hhigh : intAt o "high".toList (-1) < 0
  · rw [if_pos hhigh] at h
    cases h
  rw [if_neg hhigh] at h
  obtain ⟨var, hvar, h⟩ := bind_eq_ok.mp h
  obtain ⟨select, hselect, h⟩ := bind_eq_ok.mp h
  obtain ⟨v, hpath, h⟩ := bind_eq_ok.mp h
  -- all the checks are passed, and it is the way of selection that is left
  have hranged : Ranged o select := ⟨by rw [hstr htype, hint], not_lt.mp hlow, not_lt.mp hhigh,
    ⟨var, hstr hvar⟩, hstr hselect⟩
  have hleads : ∃ v, JsonPath.getPath s.config key = .ok v := ⟨v, lift_eq_ok.mp hpath⟩
  by_cases hsel : select = "hightolow".toList
  · rw [if_pos hsel] at h
    obtain ⟨config, hset, rfl⟩ := setVar_ok h
    refine ⟨⟨key, var, _⟩, ⟨o, rfl, rfl, hstr hvar, Or.inl ⟨hsel ▸ hranged, rfl⟩⟩, hleads, hset,
      rfl, rfl⟩
  rw [if_neg hsel] at h
  by_cases hrandom : select = "random".toList
  swap
  · rw [if_neg hrandom] at h
    cases h
  rw [if_pos hrandom] at h
  by_cases hle : intAt o "low".toList (-1) ≤ intAt o "high".toList (-1)
  swap
  · rw [if_neg hle] at h
    cases h
  rw [if_pos hle] at h
  obtain ⟨config, hset, rfl⟩ := setVar_ok h
  exact ⟨⟨key, var, _⟩, ⟨o, rfl, rfl, hstr hvar, Or.inr ⟨hrandom ▸ hranged, _, rfl⟩⟩, hleads,
    hset, rfl, rfl⟩

/-- A target of the group is applied. -/
theorem applyTarget_of_selected (env : TunerEnv γ) {group : Int} {p : Str × Json} {o : Object}
    (h : Selected group p o) (mutations mutation : Int) (s : Tuning γ) :
    applyTarget env group mutations mutation s p =
      applySelected env mutations mutation p.1 (.obj o) s := by
  obtain ⟨key, v⟩ := p
  obtain ⟨hv, hkey, henabled, hgroup⟩ := h
  obtain rfl : v = .obj o := hv
  obtain ⟨b, hb, hiff⟩ := getBool_obj o "enabled".toList
  obtain rfl : b = true := hiff.mpr henabled
  rw [applyTarget, if_pos ⟨rfl, hkey⟩]
  simp only [hb, lift_getInt, bind, Except.bind, if_true, if_pos hgroup]

/-- All other members are passed over. -/
theorem applyTarget_of_not_selected (env : TunerEnv γ) {group : Int} {p : Str × Json}
    (h : isSelected group p = false) (mutations mutation : Int) (s : Tuning γ) :
    applyTarget env group mutations mutation s p = .ok s := by
  obtain ⟨key, v⟩ := p
  by_cases hobj : ∃ o, v = .obj o
  swap
  · simp [applyTarget, not_isObj hobj]
  obtain ⟨o, rfl⟩ := hobj
  rw [applyTarget]
  by_cases hkey : key = "success".toList
  · rw [if_neg fun hand => hand.2 hkey]
  rw [if_pos ⟨rfl, hkey⟩]
  obtain ⟨b, hb, hiff⟩ := getBool_obj o "enabled".toList
  simp only [hb, lift_getInt, bind, Except.bind]
  cases b with
  | false => rfl
  | true =>
    rw [if_pos rfl, if_neg]
    intro hgroup
    rw [isSelected_iff.mpr ⟨o, rfl, hkey, hiff.mp rfl, hgroup⟩] at h
    cases h

/-- **One target**, passed over or settled. -/
theorem applyTarget_ok {env : TunerEnv γ} {group mutations mutation : Int} {p : Str × Json}
    {s s' : Tuning γ} (h : applyTarget env group mutations mutation s p = .ok s') :
    (isSelected group p = false ∧ s' = s) ∨
      ∃ o w, Selected group p o ∧ Stepped env mutations mutation p.1 o s s' w := by
  cases hsel : isSelected group p with
  | false =>
    rw [applyTarget_of_not_selected env hsel] at h
    exact Or.inl ⟨rfl, (Except.ok.inj h).symm⟩
  | true =>
    obtain ⟨o, ho⟩ := isSelected_iff.mp hsel
    rw [applyTarget_of_selected env ho] at h
    obtain ⟨w, hw⟩ := applySelected_ok h
    exact Or.inr ⟨o, w, ho, hw⟩

/-! ## A whole pass

A pass goes through the members in order, and takes a step for each that is selected. -/

/-- What stands on the left has a partner. -/
theorem exists_of_mem_left {α β : Type} {R : α → β → Prop} {xs : List α} {ys : List β}
    (h : List.Forall₂ R xs ys) {x : α} (hx : x ∈ xs) : ∃ y ∈ ys, R x y := by
  induction h with
  | nil => cases hx
  | cons hxy _ ih =>
    rcases List.mem_cons.mp hx with rfl | hx
    · exact ⟨_, List.mem_cons_self, hxy⟩
    · obtain ⟨y, hy, hR⟩ := ih hx
      exact ⟨y, List.mem_cons_of_mem _ hy, hR⟩

theorem exists_of_mem_right {α β : Type} {R : α → β → Prop} {xs : List α} {ys : List β}
    (h : List.Forall₂ R xs ys) {y : β} (hy : y ∈ ys) : ∃ x ∈ xs, R x y :=
  exists_of_mem_left h.flip hy

/-- What a pass over some targets has done. -/
structure Passed (env : TunerEnv γ) (group mutations mutation : Int) (members : Object)
    (s s' : Tuning γ) (ws : List Setting) : Prop where
  settles : List.Forall₂ (Settles env mutations mutation) (selectedTargets group members) ws
  sets : applySettings s.config ws = .ok s'.config
  vars : IsInt s.vars → s'.vars = int32 (s.vars + ws.length)
  varstring : s'.varstring = (ws.map Setting.val).foldl noted s.varstring

/-- A pass that returns has taken a step for every target, by induction on the members. -/
theorem run_passed {env : TunerEnv γ} {group mutations mutation : Int} {members : Object}
    {s s' : Tuning γ}
    (h : (run (body env group mutations mutation) s members).2 = .next s') :
    ∃ ws, Passed env group mutations mutation members s s' ws := by
  induction members generalizing s with
  | nil =>
    obtain rfl := Flow.next.inj h
    refine ⟨[], .nil, rfl, fun hint => ?_, rfl⟩
    rw [List.length_nil, Int.natCast_zero, Int.add_zero, int32_of_isInt hint]
  | cons p members ih =>
    cases happly : applyTarget env group mutations mutation s p with
    | error t =>
      rw [run_cons_exit (body_of_error env happly)] at h
      cases h
    | ok s₁ =>
      rw [run_cons_next (body_of_ok env happly)] at h
      obtain ⟨ws, hsettles, hsets, hvars, hvarstring⟩ := ih h
      rcases applyTarget_ok happly with ⟨hno, rfl⟩ | ⟨o, w, hselected, hstep⟩
      · have htargets := selectedTargets_cons_of_not hno members
        exact ⟨ws, htargets ▸ hsettles, hsets, hvars, hvarstring⟩
      -- its setting comes before those of the other targets
      · have htargets := selectedTargets_cons_of_selected hselected members
        have hp : p = (p.1, .obj o) := Prod.ext rfl hselected.1
        refine ⟨w :: ws, ?_, ?_, fun hint => ?_, ?_⟩
        · rw [htargets]
          refine .cons ?_ hsettles
          rw [hp]
          exact hstep.settles
        · rw [applySettings, List.foldlM_cons, hstep.sets]
          exact hsets
        · rw [hvars (hstep.vars ▸ isInt_int32 _), hstep.vars, int32_add_left, List.length_cons]
          congr 1
          push_cast
          ring
        · rw [hvarstring, hstep.varstring]
          rfl

/-- One target more. -/
theorem Passed.snoc {env : TunerEnv γ} {group mutations mutation : Int} {members : Object}
    {s s₁ s₂ : Tuning γ} {ws : List Setting}
    (h : Passed env group mutations mutation members s s₁ ws) {p : Str × Json}
    (hp : applyTarget env group mutations mutation s₁ p = .ok s₂) :
    (isSelected group p = false ∧ s₂ = s₁ ∧
        Passed env group mutations mutation (members ++ [p]) s s₁ ws) ∨
      ∃ o w, Selected group p o ∧ Stepped env mutations mutation p.1 o s₁ s₂ w ∧
        Passed env group mutations mutation (members ++ [p]) s s₂ (ws ++ [w]) := by
  rcases applyTarget_ok hp with ⟨hno, rfl⟩ | ⟨o, w, ho, hstep⟩
  · have htargets : selectedTargets group (members ++ [p]) = selectedTargets group members := by
      rw [selectedTargets_append, selectedTargets_cons_of_not hno]
      exact List.append_nil _
    exact Or.inl ⟨hno, rfl, htargets ▸ h.settles, h.sets, h.vars, h.varstring⟩
  · have htargets : selectedTargets group (members ++ [p]) =
        selectedTargets group members ++ [(p.1, .obj o)] := by
      rw [selectedTargets_append, selectedTargets_cons_of_selected ho]
      exact congrArg (fun q => _ ++ [q]) (Prod.ext rfl ho.1)
    -- one more setting, one more to count and one more field
    refine Or.inr ⟨o, w, ho, hstep, ?_, ?_, fun hint => ?_, ?_⟩
    · rw [htargets]
      exact List.rel_append h.settles (.cons hstep.settles .nil)
    · rw [applySettings, List.foldlM_append]
      have hsets : List.foldlM (fun config w => JsonPath.setPathInt config w.key w.var w.val)
          s.config ws = .ok s₁.config := h.sets
      rw [hsets]
      exact bind_eq_ok.mpr ⟨_, rfl, bind_eq_ok.mpr ⟨_, hstep.sets, rfl⟩⟩
    · rw [hstep.vars, h.vars hint, int32_add_left, List.length_append, List.length_singleton]
      congr 1
      push_cast
      ring
    · rw [hstep.varstring, h.varstring, List.map_append, List.foldl_append]
      rfl

/-- A call that returns has run to the end of the configuration. -/
theorem tune_run {env : TunerEnv γ} {tunerconfig : Json} {group mutation : Int}
    {s s' : Tuning γ} {b : Bool} (h : tune env tunerconfig group mutation s = .ok (b, s')) :
    ∃ members, tunerconfig = .obj members ∧ 0 ≤ intAt members "mutations".toList (-1) ∧
      (run (body env group (intAt members "mutations".toList (-1)) mutation) (begun s) members).2 =
        .next s' ∧ (b = true ↔ s'.vars > 0) := by
  obtain ⟨mutations, hmutations, h⟩ := bind_eq_ok.mp h
  rw [lift_eq_ok] at hmutations
  obtain ⟨members, rfl⟩ : ∃ members, tunerconfig = .obj members := by
    obtain ⟨members, hmembers, -⟩ := bind_eq_ok.mp hmutations
    cases tunerconfig with
    | obj members => exact ⟨members, rfl⟩
    | _ => cases hmembers
  rw [getInt_obj] at hmutations
  obtain rfl := Except.ok.inj hmutations
  by_cases hneg : intAt members "mutations".toList (-1) < 0
  · rw [if_pos hneg] at h
    cases h
  rw [if_neg hneg] at h
  obtain ⟨members', hmembers, h⟩ := bind_eq_ok.mp h
  obtain rfl := Except.ok.inj hmembers
  split at h
  · next s₁ hrun =>
    have hbs := Except.ok.inj h
    simp only [Prod.mk.injEq] at hbs
    obtain ⟨hb, rfl⟩ := hbs
    exact ⟨members, rfl, not_lt.mp hneg, hrun, by rw [← hb]; exact decide_eq_true_iff⟩
  · cases h

/-- **A pass of `tune`** that returns: the values in the order of the selected targets. -/
theorem tune_settles {env : TunerEnv γ} {tunerconfig : Json} {group mutation : Int}
    {s s' : Tuning γ} {b : Bool} (h : tune env tunerconfig group mutation s = .ok (b, s')) :
    ∃ members ws, tunerconfig = .obj members ∧ 0 ≤ intAt members "mutations".toList (-1) ∧
      Passed env group (intAt members "mutations".toList (-1)) mutation members (begun s) s' ws ∧
      (b = true ↔ s'.vars > 0) := by
  obtain ⟨members, rfl, hmutations, hrun, hb⟩ := tune_run h
  obtain ⟨ws, hpassed⟩ := run_passed hrun
  exact ⟨members, ws, rfl, hmutations, hpassed, hb⟩

/-! ## Passes that return

A pass over targets with ranges returns as long as the paths lead to objects, which setting numbers
does not change. -/

/-- A `hightolow` target returns where its path leads to something that a value can be set in. -/
theorem applySelected_hightolow {env : TunerEnv γ} {mutations mutation : Int} {key var : Str}
    {o : Object} {s : Tuning γ} {v config : Json} (h : Ranged o "hightolow".toList)
    (hvar : get o "var".toList = .str var) (hpath : JsonPath.getPath s.config key = .ok v)
    (hset : JsonPath.setPathInt s.config key var (env.hightolow (intAt o "low".toList (-1))
      (intAt o "high".toList (-1)) mutations mutation) = .ok config) :
    ∃ s', applySelected env mutations mutation key (.obj o) s = .ok s' ∧ s'.config = config := by
  obtain ⟨htype, hlow, hhigh, -, hselect⟩ := h
  obtain ⟨fail, hfail, -⟩ := getBool_obj o "fail".toList
  have hpath : lift (JsonPath.getPath s.config key) = .ok v := lift_eq_ok.mpr hpath
  have hset := lift_eq_ok.mpr hset
  simp only [applySelected, setVar, lift_getString_str htype, hfail, lift_getInt,
    if_neg (not_lt.mpr hlow), if_neg (not_lt.mpr hhigh), lift_getString_str hvar,
    lift_getString_str hselect, hpath, hset, bind, Except.bind, if_true]
  exact ⟨_, rfl, rfl⟩

/-- A pass returns, with what every target keeps, if every target does. -/
theorem tune_returns {env : TunerEnv γ} {members : Object} {group mutation : Int}
    {I : Tuning γ → Prop} (hmutations : 0 ≤ intAt members "mutations".toList (-1))
    (step : ∀ s, ∀ p ∈ members, I s → ∃ s', applyTarget env group
      (intAt members "mutations".toList (-1)) mutation s p = .ok s' ∧ I s')
    {s : Tuning γ} (hs : I (begun s)) :
    ∃ b s', tune env (.obj members) group mutation s = .ok (b, s') ∧ I s' := by
  have hrun : ∀ (ms : Object), ms ⊆ members → ∀ s, I s →
      ∃ s', (run (body env group (intAt members "mutations".toList (-1)) mutation) s ms).2 =
        .next s' ∧ I s' := by
    intro ms
    induction ms with
    | nil => exact fun _ s hs => ⟨s, rfl, hs⟩
    | cons p ms ih =>
      intro hsub s hs
      obtain ⟨s₁, happly, hs₁⟩ := step s p (hsub List.mem_cons_self) hs
      rw [run_cons_next (body_of_ok env happly)]
      exact ih (fun q hq => hsub (List.mem_cons_of_mem p hq)) s₁ hs₁
  obtain ⟨s', hnext, hs'⟩ := hrun members (fun _ h => h) (begun s) hs
  refine ⟨decide (s'.vars > 0), s', ?_, hs'⟩
  have hmembers : lift (.ok members : Except JsonFault Object) = .ok members := rfl
  simp only [tune, lift_getInt, bind, Except.bind, if_neg (not_lt.mpr hmutations), getObj_obj,
    hmembers, hnext]

/-- `varCount` counts the selected targets, in an `int`. -/
theorem varCount_eq (group : Int) (members : Object) :
    varCount (.obj members) group = .ok (int32 (selectedTargets group members).length) := by
  have hfold : ∀ (ms : Object) (n : Int), IsInt n → ms.foldlM (countTarget group) n =
      .ok (int32 (n + (selectedTargets group ms).length)) := by
    intro ms
    induction ms with
    | nil =>
      intro n hn
      rw [selectedTargets, List.filter_nil, List.length_nil, Int.natCast_zero, Int.add_zero,
        int32_of_isInt hn]
      rfl
    | cons p ms ih =>
      intro n hn
      rw [List.foldlM_cons, countTarget_eq]
      simp only [bind, Except.bind]
      by_cases hp : isSelected group p = true
      · obtain ⟨o, ho⟩ := isSelected_iff.mp hp
        rw [if_pos hp, ih _ (isInt_int32 _), int32_add_left, selectedTargets_cons_of_selected ho,
          List.length_cons]
        congr 2
        push_cast
        ring
      · rw [if_neg hp, ih _ hn, selectedTargets_cons_of_not (Bool.not_eq_true _ ▸ hp)]
  have := hfold members 0 (by decide)
  rwa [Int.zero_add] at this

/-! ## A target

A target with a range from 0 to 5 that is swept. -/

/-- The tuner with values that are computed exactly. -/
def exactEnv : TunerEnv Unit :=
  { hightolow := fun low high mutations mutation =>
      (hightolow low high mutations mutation).getD 0
    draw := fun low _ gen => (low, gen) }

def sampleTarget : Object :=
  [("enabled".toList, .bool true), ("group".toList, .int 1), ("type".toList, .str "int".toList),
    ("low".toList, .int 0), ("high".toList, .int 5), ("var".toList, .str "x".toList),
    ("select".toList, .str "hightolow".toList)]

theorem selected_sampleTarget (key : Str) (h : key ≠ "success".toList) :
    Selected 1 (key, .obj sampleTarget) sampleTarget := ⟨rfl, h, rfl, by decide +kernel⟩

theorem ranged_sampleTarget : Ranged sampleTarget "hightolow".toList :=
  ⟨rfl, by decide +kernel, by decide +kernel, ⟨_, rfl⟩, rfl⟩

/-- What it selects, in the first of `mutations`. -/
theorem high_sampleTarget (mutations : Int) (h : mutations = 1) :
    exactEnv.hightolow (intAt sampleTarget "low".toList (-1))
      (intAt sampleTarget "high".toList (-1)) mutations 0 = 5 := by
  subst h
  decide +kernel

end MachineTuner

end Skweltch
