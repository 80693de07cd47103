import Skweltch.Machine.TuneColumns
import Skweltch.Machine.TuneRepeat

/-!
# Skweltch — what is reported and what is set

`MachineTuner::tune` (`machine/MachineTuner.cpp`) notes a value for every target and sets it through
`setPathInt`, which sets nothing where no member has the name. What is reported is what was set if
every target finds its member and leaves alone what the targets before it have set and what their
paths look at (`tune_reports_iff`).
-/

namespace Skweltch

open Columns EventLoop FixedWidth Json JsonObject NumText Subtrees

namespace MachineTuner

variable {γ : Type} {env : TunerEnv γ}

/-- The field of a target is the number that its member has. -/
def Reported (config : Json) (p : Str × Json) (field : Str) : Prop :=
  ∃ o var n, p.2 = .obj o ∧ get o "var".toList = .str var ∧ JsonPath.Holds config p.1 var n ∧
    field = decText n

/-- No two targets address the same member of the same object. -/
def Distinct (config : Json) (targets : Object) : Prop :=
  targets.Pairwise fun p p' => ∀ o var o' var' q v v',
    p.2 = .obj o → get o "var".toList = .str var → p'.2 = .obj o' →
      get o' "var".toList = .str var' → JsonPath.Leads config (JsonPath.steps p.1) q v →
        JsonPath.Leads config (JsonPath.steps p'.1) q v' → var ≠ var'

/-- What has to be true of a configuration when a target comes to it: the member is there, and
setting it does not touch what the path of the target looks at, nor what an earlier target's does,
nor what an earlier target has set. -/
structure Keeps (config : Json) (earlier : Object) (key var : Str) : Prop where
  member : (JsonPath.Tunes config key var).Nonempty
  own : JsonPath.Spares config key var key
  paths : ∀ p ∈ earlier, JsonPath.Spares config key var p.1
  members : ∀ p ∈ earlier, ∀ o var', p.2 = .obj o → get o "var".toList = .str var' →
    ∀ r ∈ JsonPath.Tunes config key var, r ∉ JsonPath.Tunes config p.1 var'

/-- Every target of a pass does. -/
def Undisturbed (env : TunerEnv γ) (group mutations mutation : Int) (s : Tuning γ)
    (members : Object) : Prop :=
  ∀ pre p, pre ++ [p] <+: members → ∀ outs s₁,
    run (body env group mutations mutation) s pre = (outs, .next s₁) →
      ∀ o var, Selected group p o → get o "var".toList = .str var →
        Keeps s₁.config (selectedTargets group pre) p.1 var

variable {group mutations mutation : Int} {members : Object} {s s' : Tuning γ}

/-- A run to the end of some targets that start with this one has gone over it. -/
theorem run_cons_of_next {p : Str × Json} {post : Object}
    (h : (run (body env group mutations mutation) s (p :: post)).2 = .next s') :
    ∃ s₁, applyTarget env group mutations mutation s p = .ok s₁ ∧
      (run (body env group mutations mutation) s₁ post).2 = .next s' := by
  cases happly : applyTarget env group mutations mutation s p with
  | ok s₁ =>
    rw [run_cons_next (body_of_ok env happly)] at h
    exact ⟨s₁, rfl, h⟩
  | error t =>
    rw [run_cons_exit (body_of_error env happly)] at h
    cases h

/-- A run to the end of some targets and one more is a run to their end. -/
theorem run_snoc_of_next {pre : Object} {p : Str × Json}
    (h : (run (body env group mutations mutation) s (pre ++ [p])).2 = .next s') :
    ∃ outs s₁, run (body env group mutations mutation) s pre = (outs, .next s₁) ∧
      applyTarget env group mutations mutation s₁ p = .ok s' := by
  rcases hrun : run (body env group mutations mutation) s pre with ⟨outs, s₁ | t⟩
  · rw [run_append_next hrun] at h
    obtain ⟨s₂, hp, hnext⟩ := run_cons_of_next h
    obtain rfl := Flow.next.inj hnext
    exact ⟨outs, s₁, rfl, hp⟩
  · rw [run_append_exit hrun] at h
    cases h

/-! ## Undisturbed passes report what they set -/

/-- **Every prefix of an undisturbed pass** leaves what its targets have set to be read. -/
theorem Undisturbed.holds (h : Undisturbed env group mutations mutation s members) {pre : Object}
    (hpre : pre <+: members) {s₁ : Tuning γ}
    (hrun : (run (body env group mutations mutation) s pre).2 = .next s₁) :
    ∃ ws, Passed env group mutations mutation pre s s₁ ws ∧
      ∀ w ∈ ws, JsonPath.Holds s₁.config w.key w.var w.val := by
  -- by induction from the end of the prefix: what was set before is spared by the last target
  induction pre using List.reverseRecOn generalizing s₁ with
  | nil =>
    obtain ⟨ws, hpassed⟩ := run_passed hrun
    obtain rfl : ws = [] := by
      have := hpassed.settles.length_eq
      exact List.length_eq_zero_iff.mp this.symm
    exact ⟨[], hpassed, fun w hw => by cases hw⟩
  | append_singleton pre p ih =>
    obtain ⟨outs, s₀, hrun₀, hp⟩ := run_snoc_of_next hrun
    obtain ⟨ws, hpassed, hholds⟩ :=
      ih ((List.prefix_append pre [p]).trans hpre) (congrArg Prod.snd hrun₀)
    rcases hpassed.snoc hp with ⟨-, rfl, hpassed'⟩ | ⟨o, w, ho, hstep, hpassed'⟩
    · exact ⟨ws, hpassed', hholds⟩
    · obtain ⟨o', ho', hkey, hvar, -⟩ := hstep.settles
      obtain rfl := Json.obj.inj ho'
      obtain ⟨hmember, hown, hpaths, hmembers⟩ :=
        h pre p hpre outs s₀ hrun₀ o w.var ho hvar
      have hset := hstep.sets
      rw [show w.key = p.1 from hkey] at hset
      refine ⟨ws ++ [w], hpassed', fun x hx => ?_⟩
      rcases List.mem_append.mp hx with hx | hx
      · obtain ⟨p', hp', ox, hox, hkeyx, hvarx, -⟩ := exists_of_mem_right hpassed.settles hx
        have hheld := hholds x hx
        rw [hkeyx] at hheld ⊢
        exact hheld.of_set hset (hpaths p' hp') (hmembers p' hp' ox x.var hox hvarx)
      · obtain rfl := List.mem_singleton.mp hx
        rw [show x.key = p.1 from hkey]
        exact JsonPath.holds_of_set hset hmember hown

/-- What still holds in the end was reported rightly. -/
theorem reported_of_holds {config : Json} {targets : Object} {ws : List Setting}
    (h : List.Forall₂ (Settles env mutations mutation) targets ws)
    (hholds : ∀ w ∈ ws, JsonPath.Holds config w.key w.var w.val) :
    List.Forall₂ (Reported config) targets (ws.map fun w => decText w.val) := by
  induction h with
  | nil => exact .nil
  | @cons p w targets ws hp _ ih =>
    obtain ⟨hw, hholds⟩ := List.forall_mem_cons.mp hholds
    obtain ⟨o, ho, hkey, hvar, -⟩ := hp
    exact .cons ⟨o, w.var, w.val, ho, hvar, hkey ▸ hw, rfl⟩ (ih hholds)

/-! ## Paths by names and indices -/

/-- The path is one of names and indices and leads, when the pass is over, to an object with the
member. -/
structure Ends (config : Json) (key var : Str) (q : Position) : Prop where
  direct : ∀ s ∈ JsonPath.steps key, s.Direct
  leads : ∃ o, JsonPath.Leads config (JsonPath.steps key) q (.obj o) ∧ var ∈ o.map Prod.fst

/-- A target that was reported has its end in the document. -/
theorem Reported.ends {config : Json} {p : Str × Json} {field : Str} (h : Reported config p field)
    (hdirect : ∀ s ∈ JsonPath.steps p.1, s.Direct) :
    ∃ o var q, p.2 = .obj o ∧ get o "var".toList = .str var ∧ Ends config p.1 var q := by
  obtain ⟨o, var, n, ho, hvar, ⟨mo, hpath, hget⟩, -⟩ := h
  obtain ⟨q, hlead⟩ := JsonPath.getPath_iff_leads.mp hpath
  refine ⟨o, var, q, ho, hvar, hdirect, mo, hlead, ?_⟩
  exact List.mem_map.mpr ⟨_, get_mem (by rw [hget]; exact Json.noConfusion), rfl⟩

/-- What a path ends at stood there before each of the settings. -/
theorem Ends.before {config config' : Json} {key var : Str} {q : Position} {w : Setting}
    (h : Ends config' key var q)
    (hset : JsonPath.setPathInt config w.key w.var w.val = .ok config') :
    Ends config key var q ∧ Clear (JsonPath.Tunes config w.key w.var) q := by
  obtain ⟨hdirect, o, hlead, hvar⟩ := h
  obtain ⟨hclear, o', hlead', hnames⟩ := hlead.before hset hdirect
  exact ⟨⟨hdirect, o', hlead', hnames ▸ hvar⟩, hclear⟩

/-- The settings of a pass do not move the ends. -/
theorem Ends.before_all {ws : List Setting} {config config' : Json} {key var : Str} {q : Position}
    (h : Ends config' key var q) (hws : applySettings config ws = .ok config') :
    Ends config key var q := by
  induction ws generalizing config with
  | nil =>
    obtain rfl := Except.ok.inj hws
    exact h
  | cons w ws ih =>
    rw [applySettings, List.foldlM_cons] at hws
    obtain ⟨config₁, hset, hws⟩ := bind_eq_ok.mp hws
    exact ((ih hws).before hset).1

/-- Targets that tune one position have the same end. -/
theorem Ends.unique {config : Json} {key var key' var' : Str} {q q' : Position}
    (h : Ends config key var q) (h' : Ends config key' var' q') {r : Position}
    (hr : r ∈ JsonPath.Tunes config key var) (hr' : r ∈ JsonPath.Tunes config key' var') :
    q = q' ∧ var = var' := by
  obtain ⟨-, o, hlead, -⟩ := h
  obtain ⟨-, o', hlead', -⟩ := h'
  obtain ⟨p, mo, i, v, hp, hi, rfl⟩ := hr
  obtain ⟨p', mo', i', v', hp', hi', heq⟩ := hr'
  obtain ⟨rfl, -⟩ := hp.unique hlead
  obtain ⟨rfl, -⟩ := hp'.unique hlead'
  obtain ⟨rfl, hii⟩ := List.append_inj' heq rfl
  obtain rfl := List.cons.inj hii |>.1
  have hmo := hp.sub_eq.symm.trans hp'.sub_eq
  obtain rfl := Json.obj.inj (Option.some.inj hmo)
  exact ⟨rfl, (Prod.mk.inj (Option.some.inj (hi.symm.trans hi'))).1⟩

theorem Ends.nonempty {config : Json} {key var : Str} {q : Position} (h : Ends config key var q) :
    (JsonPath.Tunes config key var).Nonempty := by
  obtain ⟨-, o, hlead, hvar⟩ := h
  obtain ⟨m, hm, rfl⟩ := List.mem_map.mp hvar
  obtain ⟨i, hi⟩ := List.mem_iff_getElem?.mp hm
  exact ⟨_, q, o, i, m.2, hlead, hi, rfl⟩

/-- It does not look below where it leads to. -/
theorem Ends.spares {config : Json} {key var : Str} {q : Position} (h : Ends config key var q)
    {key' var' : Str} (hclear : Clear (JsonPath.Tunes config key' var') q) :
    JsonPath.Spares config key' var' key := by
  obtain ⟨hdirect, o, hlead, -⟩ := h
  exact fun r hr => hclear.above (hr.of_direct hlead hdirect)

theorem Ends.spares_self {config : Json} {key var : Str} {q : Position}
    (h : Ends config key var q) (var' : Str) : JsonPath.Spares config key var' key := by
  refine h.spares ?_
  rintro r ⟨p, o, i, v, hlead, -, rfl⟩ hprefix
  obtain ⟨-, o', hlead', -⟩ := h
  obtain ⟨rfl, -⟩ := hlead.unique hlead'
  have := hprefix.length_le
  simp at this

/-- A setting disturbs nothing if what its path and those of the targets before it end at is still
there behind it, and no other of these has the same member. -/
theorem keeps_of_ends {config config' : Json} {earlier : Object} {w : Setting} {q : Position}
    (hset : JsonPath.setPathInt config w.key w.var w.val = .ok config')
    (hself : Ends config' w.key w.var q)
    (hearlier : ∀ t ∈ earlier, ∃ o var q, t.2 = .obj o ∧ get o "var".toList = .str var ∧
      Ends config' t.1 var q)
    (hdistinct : ∀ t ∈ earlier, ∀ o var, t.2 = .obj o → get o "var".toList = .str var →
      Ends config t.1 var q → var ≠ w.var) : Keeps config earlier w.key w.var := by
  obtain ⟨hown, -⟩ := hself.before hset
  refine ⟨hown.nonempty, hown.spares_self w.var, fun t ht => ?_,
    fun t ht o var ho hvar r hr hr' => ?_⟩
  · obtain ⟨o, var, q', -, -, hends⟩ := hearlier t ht
    obtain ⟨hends', hclear⟩ := hends.before hset
    exact hends'.spares hclear
  · obtain ⟨o', var', q', ho', hvar', hends⟩ := hearlier t ht
    obtain rfl := Json.obj.inj (ho.symm.trans ho')
    obtain rfl := Json.str.inj (hvar.symm.trans hvar')
    obtain ⟨hends', -⟩ := hends.before hset
    obtain ⟨rfl, hvars⟩ := hown.unique hends' hr hr'
    exact hdistinct t ht o var ho hvar hends' hvars.symm

/-- **A pass that reports what it set was undisturbed**, where paths go by names and indices. -/
theorem undisturbed_of_reported (hdistinct : Distinct s.config (selectedTargets group members))
    (hrun : (run (body env group mutations mutation) s members).2 = .next s')
    (hdirect : ∀ p ∈ selectedTargets group members, ∀ st ∈ JsonPath.steps p.1, st.Direct)
    {fields : List Str}
    (h : List.Forall₂ (Reported s'.config) (selectedTargets group members) fields) :
    Undisturbed env group mutations mutation s members := by
  rintro pre p ⟨post, rfl⟩ outs s₁ hrunpre o var ho hvar
  rw [List.append_assoc, List.singleton_append] at *
  have hsplit : selectedTargets group (pre ++ p :: post) =
      selectedTargets group pre ++ p :: selectedTargets group post := by
    rw [selectedTargets_append, selectedTargets_cons_of_selected ho]
  rw [hsplit] at hdistinct hdirect h
  have hends : ∀ t ∈ selectedTargets group pre ++ p :: selectedTargets group post, ∃ o var q,
      t.2 = .obj o ∧ get o "var".toList = .str var ∧ Ends s'.config t.1 var q := by
    intro t ht
    obtain ⟨field, -, hreported⟩ := exists_of_mem_left h ht
    exact hreported.ends (hdirect t ht)
  -- the pass goes on from here, over this target
  obtain ⟨wspre, hpassedpre⟩ := run_passed (congrArg Prod.snd hrunpre)
  rw [run_append_next hrunpre] at hrun
  obtain ⟨s₂, hp, hrunpost⟩ := run_cons_of_next hrun
  obtain ⟨wspost, hpassedpost⟩ := run_passed hrunpost
  rw [applyTarget_of_selected env ho] at hp
  obtain ⟨w, hstep⟩ := applySelected_ok hp
  obtain ⟨o', ho', hkey, hvar', -⟩ := hstep.settles
  obtain rfl := Json.obj.inj ho'
  obtain rfl := Json.str.inj (hvar.symm.trans hvar')
  obtain ⟨o', var', q, ho', hvar'', hq⟩ := hends p (List.mem_append_right _ List.mem_cons_self)
  obtain rfl := Json.obj.inj (ho.1.symm.trans ho')
  obtain rfl := Json.str.inj (hvar.symm.trans hvar'')
  obtain ⟨hqbefore, -⟩ := (hq.before_all hpassedpost.sets).before hstep.sets
  have hkey : w.key = p.1 := hkey
  rw [← hkey]
  refine keeps_of_ends hstep.sets (hkey ▸ hq.before_all hpassedpost.sets) (fun t ht => ?_)
    fun t ht ot vt hot hvt hends' => ?_
  · obtain ⟨ot, vt, q', hot, hvt, hq'⟩ := hends t (List.mem_append_left _ ht)
    exact ⟨ot, vt, q', hot, hvt, hq'.before_all hpassedpost.sets⟩
  · rw [Distinct, List.pairwise_append] at hdistinct
    obtain ⟨-, mo, hlead, -⟩ := hqbefore.before_all hpassedpre.sets
    obtain ⟨-, mo', hlead', -⟩ := hends'.before_all hpassedpre.sets
    exact hdistinct.2.2 t ht p List.mem_cons_self ot vt o w.var q _ _ hot hvt ho.1 hvar hlead' hlead

/-- **What is reported is what was set.** In every pass in which each target finds its member and
disturbs nothing, the fields are what the members have when it is over; and where the paths go by
names and indices, in no other. -/
theorem tune_reports_iff {b : Bool}
    (h : tune env (.obj members) group mutation s = .ok (b, s'))
    (hdistinct : Distinct s.config (selectedTargets group members)) :
    (Undisturbed env group (intAt members "mutations".toList (-1)) mutation (begun s) members →
      List.Forall₂ (Reported s'.config) (selectedTargets group members)
        (fields '\t' s'.varstring)) ∧
    ((∀ p ∈ selectedTargets group members, ∀ st ∈ JsonPath.steps p.1, st.Direct) →
      List.Forall₂ (Reported s'.config) (selectedTargets group members)
        (fields '\t' s'.varstring) →
      Undisturbed env group (intAt members "mutations".toList (-1)) mutation (begun s) members) := by
  obtain ⟨members', hmembers, -, hrun, -⟩ := tune_run h
  obtain rfl := Json.obj.inj hmembers
  refine ⟨fun hundisturbed => ?_, fun hdirect hreported => ?_⟩
  · obtain ⟨ws, hpassed, hholds⟩ := hundisturbed.holds List.prefix_rfl hrun
    rw [hpassed.fields rfl]
    exact reported_of_holds hpassed.settles hholds
  · exact undisturbed_of_reported hdistinct hrun hdirect hreported

/-- A target of the sample disturbs no other. -/
theorem keeps_sample (m n : Int) {p : Str × Json} (hp : p ∈ sampleTargets) {earlier : Object}
    (h : ∀ t ∈ earlier, t ∈ sampleTargets ∧ ∀ q v v',
      JsonPath.Leads (machineWith m n) (JsonPath.steps t.1) q v →
        ¬ JsonPath.Leads (machineWith m n) (JsonPath.steps p.1) q v') :
    Keeps (machineWith m n) earlier p.1 "x".toList := by
  have hends : ∀ {t : Str × Json}, t ∈ sampleTargets →
      ∃ i, Ends (machineWith m n) t.1 "x".toList [i] := by
    intro t ht
    obtain ⟨-, hdirect, i, o, hlead, hvar⟩ := leads_sample m n ht
    exact ⟨i, hdirect, o, hlead, hvar⟩
  obtain ⟨i, hself⟩ := hends hp
  have hlead := hself.leads
  obtain ⟨o, hlead, -⟩ := hlead
  refine ⟨hself.nonempty, hself.spares_self _, fun t ht => ?_, fun t ht o var ho hvar r hr hr' => ?_⟩
  · obtain ⟨j, hother⟩ := hends (h t ht).1
    refine hother.spares ?_
    rintro r ⟨q, o', k, v, hq, -, rfl⟩ hprefix
    obtain ⟨rfl, -⟩ := hq.unique hlead
    have := hprefix.length_le
    simp at this
  · obtain ⟨q, o', k, v, hq, -, rfl⟩ := hr
    obtain ⟨q', o'', k', v', hq', -, heq⟩ := hr'
    obtain ⟨rfl, -⟩ := List.append_inj' heq rfl
    exact (h t ht).2 _ _ _ hq' hq

/-- The two paths of the sample lead to different places. -/
theorem ne_of_leads_sample (m n : Int) (q : Position) (v v' : Json)
    (ha : JsonPath.Leads (machineWith m n) (JsonPath.steps "a".toList) q v) :
    ¬ JsonPath.Leads (machineWith m n) (JsonPath.steps "b".toList) q v' := by
  intro hb
  obtain ⟨rfl, -⟩ := (leads_a m n).unique ha
  obtain ⟨hq, -⟩ := (leads_b m n).unique hb
  cases hq

theorem distinct_sample : Distinct (machineWith 1 2) (selectedTargets 1 sampleMembers) := by
  rw [selectedTargets_sample]
  refine List.pairwise_pair.mpr ?_
  intro o var o' var' q v v' _ _ _ _ ha hb
  exact absurd hb (ne_of_leads_sample 1 2 q v v' ha)

/-- The pass of the sample is undisturbed. -/
theorem undisturbed_sample : Undisturbed exactEnv 1 (intAt sampleMembers "mutations".toList (-1)) 0
    (begun sampleStart) sampleMembers := by
  rintro pre p ⟨post, hsplit⟩ outs s₁ hrun o var ho hvar
  have hfirst : applyTarget exactEnv 1 (intAt sampleMembers "mutations".toList (-1)) 0
      (begun sampleStart) ("mutations".toList, .int 5) = .ok (begun sampleStart) :=
    applyTarget_of_not_selected exactEnv rfl _ _ _
  cases pre with
  | nil =>
    -- the number of mutations is no target
    obtain ⟨rfl, -⟩ := List.cons.inj hsplit
    cases ho.1
  | cons p₀ pre =>
    obtain ⟨rfl, hrest⟩ := List.cons.inj hsplit
    have hrest : pre ++ [p] ++ post = sampleTargets := hrest
    have hmem : p ∈ sampleTargets := by
      rw [← hrest]
      exact List.mem_append_left _ (List.mem_append_right _ List.mem_cons_self)
    obtain ⟨hp, -⟩ := leads_sample 1 2 hmem
    obtain rfl := Json.obj.inj (hp.symm.trans ho.1)
    obtain rfl : "x".toList = var := Json.str.inj hvar
    rw [run_cons_next (body_of_ok exactEnv hfirst)] at hrun
    cases pre with
    | nil =>
      obtain rfl := Flow.next.inj (Prod.mk.inj hrun).2
      exact keeps_sample 1 2 hmem fun t ht => absurd ht List.not_mem_nil
    | cons p₁ pre =>
      -- the second target, behind what the first has set
      obtain ⟨rfl, htail⟩ := List.cons.inj hrest
      have htail : pre ++ [p] ++ post = [("b".toList, .obj sampleTarget)] := htail
      have hlen := congrArg List.length htail
      simp only [List.length_append, List.length_cons, List.length_nil] at hlen
      obtain rfl : pre = [] := List.length_eq_zero_iff.mp (by omega)
      obtain ⟨rfl, -⟩ := List.cons.inj htail
      obtain ⟨s', n', happly, hconfig⟩ := apply_sample (s := begun sampleStart) (by decide)
        (leads_a 1 2) (intAt sampleMembers "mutations".toList (-1)) 0
      rw [run_singleton (body_of_ok exactEnv happly)] at hrun
      obtain rfl := Flow.next.inj (Prod.mk.inj hrun).2
      have hmachine : s'.config = machineWith n' 2 := hconfig
      rw [hmachine]
      refine keeps_sample n' 2 hmem fun t ht => ?_
      rw [selectedTargets_cons_of_not rfl] at ht
      obtain rfl : t = ("a".toList, .obj sampleTarget) :=
        List.mem_singleton.mp (List.mem_filter.mp ht).1
      exact ⟨List.mem_cons_self, ne_of_leads_sample n' 2⟩

/-- Two targets that find their members. -/
theorem tune_reports_sample :
    ∃ b s', tune exactEnv (.obj sampleMembers) 1 0 sampleStart = .ok (b, s') ∧
      List.Forall₂ (Reported s'.config) sampleTargets (fields '\t' s'.varstring) := by
  obtain ⟨b, s', htune⟩ := tune_sampleMembers 0
  obtain ⟨hreports, -⟩ := tune_reports_iff htune distinct_sample
  rw [selectedTargets_sample] at hreports
  exact ⟨b, s', htune, hreports undisturbed_sample⟩

/-- One target that does not: its value is reported, and nothing is set. -/
theorem absent_not_reported :
    ∃ b s', tune exactEnv (.obj (idleMembers 1)) 1 0 idleStart = .ok (b, s') ∧
      Distinct idleStart.config (selectedTargets 1 (idleMembers 1)) ∧
      (fields '\t' s'.varstring).length = 1 ∧ s'.config = idleStart.config ∧
      ¬ List.Forall₂ (Reported s'.config) (selectedTargets 1 (idleMembers 1))
        (fields '\t' s'.varstring) := by
  obtain ⟨b, s', htune, hconfig⟩ := tune_idle 1
  obtain ⟨members, ws, hmembers, -, hpassed, -⟩ := tune_settles htune
  obtain rfl := Json.obj.inj hmembers
  refine ⟨b, s', htune, ?_, ?_, hconfig, fun h => ?_⟩
  · rw [selectedTargets_idle]
    exact List.pairwise_singleton _ _
  · rw [hpassed.fields rfl, List.length_map, ← hpassed.settles.length_eq, selectedTargets_idle]
    rfl
  · rw [selectedTargets_idle] at h
    obtain ⟨field, -, o, var, n, ho, hvar, ⟨mo, hpath, hget⟩, -⟩ :=
      exists_of_mem_left h (List.mem_singleton.mpr rfl)
    have hpath' : JsonPath.getPath idleStart.config "a".toList = .ok (.obj []) :=
      JsonPath.getPath_name (JsonPath.plain_of_all (by decide)) (by decide) (get_cons_self ..)
        (by simp)
    rw [hconfig, hpath'] at hpath
    obtain rfl := Json.obj.inj (Except.ok.inj hpath)
    cases hget

end MachineTuner

end Skweltch
