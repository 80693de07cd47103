import Skweltch.Config.PathFootprint
import Skweltch.Machine.TuneSteps

/-!
# Skweltch — one mutation after another

`main` of `machine/tune.cpp` tunes one configuration again and again (`machine/MachineTuner.cpp`).
What a mutation leaves does not depend on the mutations before it (`tune_forgets`): both passes
write the same values, wherever a target writes the last one stands, and elsewhere nothing has
changed.
-/

namespace Skweltch

open EventLoop FixedWidth Json JsonObject NumText Subtrees

namespace MachineTuner

variable {γ : Type} {env : TunerEnv γ}

/-- The members that a target sets. -/
def TargetTunes (doc : Json) (p : Str × Json) : Set Position :=
  {r | ∃ o var, p.2 = .obj o ∧ get o "var".toList = .str var ∧ r ∈ JsonPath.Tunes doc p.1 var}

def TunedBy (doc : Json) (targets : Object) : Set Position :=
  {r | ∃ p ∈ targets, r ∈ TargetTunes doc p}

/-- The targets sweep, their paths go by names and indices to objects, and none of the paths goes
through a member that is set. -/
structure Separate (doc : Json) (targets : Object) : Prop where
  sweep : ∀ p ∈ targets, ∃ o, p.2 = .obj o ∧ get o "select".toList = .str "hightolow".toList
  direct : ∀ p ∈ targets, ∀ s ∈ JsonPath.steps p.1, s.Direct
  leads : ∀ p ∈ targets, ∃ q o, JsonPath.Leads doc (JsonPath.steps p.1) q (.obj o)
  clear : ∀ p ∈ targets, ∀ q v, JsonPath.Leads doc (JsonPath.steps p.1) q v →
    Clear (TunedBy doc targets) q

/-! ## Settings at fixed places

A pass sets numbers at places in the document. As long as the places of its targets are separate,
what it sets there does not depend on the order or on what was set before. -/

/-- A setting whose path goes by names and indices to an object, clear of these positions, which
contain what it sets. -/
structure Placed (T : Set Position) (doc : Json) (w : Setting) : Prop where
  direct : ∀ s ∈ JsonPath.steps w.key, s.Direct
  leads : ∃ q o, JsonPath.Leads doc (JsonPath.steps w.key) q (.obj o) ∧ Clear T q
  tunes : JsonPath.Tunes doc w.key w.var ⊆ T

variable {T : Set Position} {doc d : Json} {w : Setting}

/-- The path leads to the same place in a document that agrees. -/
theorem Placed.leads_agree (h : Placed T doc w) (hagree : AgreeOutside T doc d) :
    ∃ q o o', JsonPath.Leads doc (JsonPath.steps w.key) q (.obj o) ∧
      JsonPath.Leads d (JsonPath.steps w.key) q (.obj o') ∧ o'.map Prod.fst = o.map Prod.fst := by
  obtain ⟨q, o, hlead, hclear⟩ := h.leads
  obtain ⟨u, hu, hout⟩ := hlead.congr fun r hr =>
    hagree r (hclear.above (hr.of_direct hlead h.direct))
  obtain ⟨o', rfl, hnames⟩ := outline_eq_obj hout
  exact ⟨q, o, o', hlead, hu, hnames⟩

/-- Whether a member is at an index depends on the names only. -/
theorem exists_named_congr {o o' : Object} (h : o'.map Prod.fst = o.map Prod.fst) (var : Str)
    (i : Nat) : (∃ v, o'[i]? = some (var, v)) ↔ ∃ v, o[i]? = some (var, v) := by
  have hname : ∀ m : Object, (∃ v, m[i]? = some (var, v)) ↔ (m.map Prod.fst)[i]? = some var := by
    intro m
    rw [List.getElem?_map, Option.map_eq_some_iff]
    constructor
    · rintro ⟨v, hv⟩
      exact ⟨_, hv, rfl⟩
    · rintro ⟨⟨key, v⟩, hv, rfl⟩
      exact ⟨v, hv⟩
  rw [hname, hname, h]

/-- It sets the same members there. -/
theorem Placed.tunes_agree (h : Placed T doc w) (hagree : AgreeOutside T doc d) :
    JsonPath.Tunes d w.key w.var = JsonPath.Tunes doc w.key w.var := by
  obtain ⟨q, o, o', hlead, hlead', hnames⟩ := h.leads_agree hagree
  ext r
  constructor
  · rintro ⟨q', m, i, v, hq', hi, rfl⟩
    obtain ⟨rfl, hm⟩ := hlead'.unique hq'
    obtain rfl := Json.obj.inj hm
    obtain ⟨v', hv'⟩ := (exists_named_congr hnames w.var i).mp ⟨v, hi⟩
    exact ⟨q, o, i, v', hlead, hv', rfl⟩
  · rintro ⟨q', m, i, v, hq', hi, rfl⟩
    obtain ⟨rfl, hm⟩ := hlead.unique hq'
    obtain rfl := Json.obj.inj hm
    obtain ⟨v', hv'⟩ := (exists_named_congr hnames w.var i).mpr ⟨v, hi⟩
    exact ⟨q, o', i, v', hlead', hv', rfl⟩

theorem Placed.set_agree (h : Placed T doc w) (hagree : AgreeOutside T doc d) {d' : Json}
    (hset : JsonPath.setPathInt d w.key w.var w.val = .ok d') : AgreeOutside T doc d' := by
  have hset := JsonPath.agree_of_setPathInt hset
  rw [h.tunes_agree hagree] at hset
  exact hagree.trans (hset.symm.mono h.tunes)

theorem applySettings_cons {ws : List Setting} {d d' : Json}
    (h : applySettings d (w :: ws) = .ok d') :
    ∃ d₁, JsonPath.setPathInt d w.key w.var w.val = .ok d₁ ∧ applySettings d₁ ws = .ok d' := by
  rw [applySettings, List.foldlM_cons] at h
  exact bind_eq_ok.mp h

/-- Settings change nothing elsewhere. -/
theorem applySettings_agree {ws : List Setting} (hws : ∀ w ∈ ws, Placed T doc w) {d' : Json}
    (hagree : AgreeOutside T doc d) (h : applySettings d ws = .ok d') : AgreeOutside T doc d' := by
  induction ws generalizing d with
  | nil =>
    obtain rfl := Except.ok.inj h
    exact hagree
  | cons w ws ih =>
    obtain ⟨hw, hws⟩ := List.forall_mem_cons.mp hws
    obtain ⟨d₁, hset, h⟩ := applySettings_cons h
    exact ih hws (hw.set_agree hagree hset) h

/-- **Settings absorb what was there.** Two documents are the same afterwards wherever one of the
settings has set, in addition to where they were the same before. -/
theorem applySettings_absorb {ws : List Setting} (hws : ∀ w ∈ ws, Placed T doc w)
    {S : Set Position} {d e d' e' : Json} (hd : AgreeOutside T doc d) (he : AgreeOutside T doc e)
    (hS : AgreeOutside S d e) (hd' : applySettings d ws = .ok d')
    (he' : applySettings e ws = .ok e') :
    AgreeOutside (S \ {r | ∃ w ∈ ws, r ∈ JsonPath.Tunes doc w.key w.var}) d' e' := by
  induction ws generalizing S d e with
  | nil =>
    obtain rfl := Except.ok.inj hd'
    obtain rfl := Except.ok.inj he'
    exact hS.mono fun r hr => ⟨hr, fun h => by obtain ⟨w, hw, -⟩ := h; cases hw⟩
  | cons w ws ih =>
    obtain ⟨hw, hws⟩ := List.forall_mem_cons.mp hws
    obtain ⟨d₁, hsetd, hd'⟩ := applySettings_cons hd'
    obtain ⟨e₁, hsete, he'⟩ := applySettings_cons he'
    have hd₁ := JsonPath.agree_of_setPathInt hsetd
    have he₁ := JsonPath.agree_of_setPathInt hsete
    have hsubd := fun r => @JsonPath.sub_of_setPathInt _ _ _ _ _ hsetd r
    have hsube := fun r => @JsonPath.sub_of_setPathInt _ _ _ _ _ hsete r
    rw [hw.tunes_agree hd] at hd₁ hsubd
    rw [hw.tunes_agree he] at he₁ hsube
    -- setting the same makes the two documents alike where it is set
    have hstep : AgreeOutside ((S ∪ JsonPath.Tunes doc w.key w.var) \
        JsonPath.Tunes doc w.key w.var) d₁ e₁ := by
      refine (((hd₁.mono Set.subset_union_right).trans (hS.mono Set.subset_union_left)).trans
        (he₁.symm.mono Set.subset_union_right)).diff fun r hr q => ?_
      rw [sub_append, sub_append, hsubd r hr, hsube r hr]
    refine (ih hws (hw.set_agree hd hsetd) (hw.set_agree he hsete) hstep hd' he').mono ?_
    rintro r ⟨⟨hr | hr, hw'⟩, hws'⟩
    · refine ⟨hr, fun h => ?_⟩
      obtain ⟨x, hx, hrx⟩ := h
      rcases List.mem_cons.mp hx with rfl | hx
      · exact hw' hrx
      · exact hws' ⟨x, hx, hrx⟩
    · exact absurd hr hw'

/-! ## Two passes

So a second pass of the same mutation changes nothing, and passes of different mutations leave what
the last one sets. -/

variable {group mutations i j : Int} {targets : Object}

/-- A target that is selected, and sweeps, is settled by one value only. -/
theorem Settles.ranged {p : Str × Json} {w : Setting} (h : Settles env mutations i p w) {o : Object}
    (ho : p.2 = .obj o) (hselect : get o "select".toList = .str "hightolow".toList) :
    Ranged o "hightolow".toList ∧ w = ⟨p.1, w.var, env.hightolow (intAt o "low".toList (-1))
      (intAt o "high".toList (-1)) mutations i⟩ ∧ get o "var".toList = .str w.var := by
  obtain ⟨o', ho', hkey, hvar, hval⟩ := h
  obtain rfl := Json.obj.inj (ho.symm.trans ho')
  rcases hval with ⟨hranged, hval⟩ | ⟨hranged, -⟩
  · refine ⟨hranged, ?_, hvar⟩
    rw [← hkey, ← hval]
  · exact absurd (Json.str.inj (hselect.symm.trans hranged.2.2.2.2)) (by decide)

/-- Two passes of the same mutation make the same settings. -/
theorem settles_unique (hsep : ∀ p ∈ targets, ∃ o, p.2 = .obj o ∧
      get o "select".toList = .str "hightolow".toList) {ws ws' : List Setting}
    (h : List.Forall₂ (Settles env mutations i) targets ws)
    (h' : List.Forall₂ (Settles env mutations i) targets ws') : ws = ws' := by
  induction h generalizing ws' with
  | nil =>
    cases h'
    rfl
  | @cons p w targets ws hp _ ih =>
    cases h' with
    | @cons _ w' _ ws' hp' hrest' =>
      obtain ⟨⟨o, ho, hselect⟩, hsep⟩ := List.forall_mem_cons.mp hsep
      obtain ⟨-, hw, hvar⟩ := hp.ranged ho hselect
      obtain ⟨-, hw', hvar'⟩ := hp'.ranged ho hselect
      have hvars : w.var = w'.var := Json.str.inj (hvar.symm.trans hvar')
      rw [ih hsep hrest', hw, hw', hvars]

/-- The settings of a pass are placed, and set what its targets set. -/
theorem Separate.placed (h : Separate doc targets) {ws : List Setting}
    (hws : List.Forall₂ (Settles env mutations i) targets ws) :
    (∀ w ∈ ws, Placed (TunedBy doc targets) doc w) ∧
      TunedBy doc targets ⊆ {r | ∃ w ∈ ws, r ∈ JsonPath.Tunes doc w.key w.var} := by
  constructor
  · intro w hw
    obtain ⟨p, hp, o, ho, hkey, hvar, -⟩ := exists_of_mem_right hws hw
    obtain ⟨q, mo, hlead⟩ := h.leads p hp
    refine ⟨hkey ▸ h.direct p hp, ⟨q, mo, hkey ▸ hlead, h.clear p hp q _ hlead⟩, fun r hr => ?_⟩
    exact ⟨p, hp, o, w.var, ho, hvar, hkey ▸ hr⟩
  · rintro r ⟨p, hp, o, var, ho, hvar, hr⟩
    obtain ⟨w, hw, o', ho', hkey, hvar', -⟩ := exists_of_mem_left hws hp
    obtain rfl := Json.obj.inj (ho.symm.trans ho')
    obtain rfl := Json.str.inj (hvar.symm.trans hvar')
    exact ⟨w, hw, hkey ▸ hr⟩

/-- A pass returns from a configuration that agrees with one that it has returned from, whatever
the mutation. -/
theorem tune_returns_again {members : Object} {s₀ s₁ s : Tuning γ} {b : Bool}
    (hsep : Separate s₀.config (selectedTargets group members))
    (h : tune env (.obj members) group i s₀ = .ok (b, s₁))
    (hagree : AgreeOutside (TunedBy s₀.config (selectedTargets group members)) s₀.config s.config)
    (j : Int) : ∃ b' s', tune env (.obj members) group j s = .ok (b', s') := by
  obtain ⟨members', ws, hmembers, hmutations, hpassed, -⟩ := tune_settles h
  obtain rfl := Json.obj.inj hmembers
  obtain ⟨hplaced, -⟩ := hsep.placed hpassed.settles
  have hstep : ∀ s : Tuning γ, ∀ p ∈ members,
      AgreeOutside (TunedBy s₀.config (selectedTargets group members)) s₀.config s.config →
      ∃ s', applyTarget env group (intAt members "mutations".toList (-1)) j s p = .ok s' ∧
        AgreeOutside (TunedBy s₀.config (selectedTargets group members)) s₀.config s'.config := by
    intro s p hp hagree
    cases hselected : isSelected group p with
    | false => exact ⟨s, applyTarget_of_not_selected env hselected _ _ s, hagree⟩
    | true =>
      obtain ⟨o, ho⟩ := isSelected_iff.mp hselected
      have htarget : p ∈ selectedTargets group members := List.mem_filter.mpr ⟨hp, hselected⟩
      obtain ⟨w, hw, hsettles⟩ := exists_of_mem_left hpassed.settles htarget
      obtain ⟨o', ho', hselect⟩ := hsep.sweep p htarget
      obtain rfl := Json.obj.inj (ho.1.symm.trans ho')
      obtain ⟨hranged, hw', hvar⟩ := hsettles.ranged ho.1 hselect
      obtain ⟨val, hval⟩ : ∃ val, val = env.hightolow (intAt o "low".toList (-1))
          (intAt o "high".toList (-1)) (intAt members "mutations".toList (-1)) j := ⟨_, rfl⟩
      -- the setting of the other mutation goes to the same place
      have hplaced' : Placed (TunedBy s₀.config (selectedTargets group members)) s₀.config
          ⟨p.1, w.var, val⟩ := by
        obtain ⟨hdirect, hleads, htunes⟩ := hplaced w hw
        rw [hw'] at hdirect hleads htunes
        exact ⟨hdirect, hleads, htunes⟩
      obtain ⟨q, -, mo, -, hlead, -⟩ := hplaced'.leads_agree hagree
      obtain ⟨config, hset⟩ : ∃ config, JsonPath.setPathInt s.config p.1 w.var val = .ok config :=
        ⟨_, JsonPath.setPathInt_eq_ok_iff.mpr ⟨q, mo, hlead, rfl⟩⟩
      rw [applyTarget_of_selected env ho]
      obtain ⟨s', happly, hconfig⟩ := applySelected_hightolow hranged hvar
        (JsonPath.getPath_eq_ok_iff.mpr hlead.addresses) (hval ▸ hset)
      exact ⟨s', happly, hconfig ▸ hplaced'.set_agree hagree hset⟩
  obtain ⟨b', s', htune, -⟩ := tune_returns hmutations hstep (s := s) hagree
  exact ⟨b', s', htune⟩

/-- **A mutation forgets the ones before it.** After any other mutation it leaves the configuration
that it leaves by itself, and neither changes anything but what the targets set. -/
theorem tune_forgets {members : Object} {s s₁ : Tuning γ} {b : Bool}
    (hsep : Separate s.config (selectedTargets group members))
    (h : tune env (.obj members) group i s = .ok (b, s₁)) (j : Int) :
    ∃ b₁₂ b₂ s₁₂ s₂, tune env (.obj members) group j s₁ = .ok (b₁₂, s₁₂) ∧
      tune env (.obj members) group j s = .ok (b₂, s₂) ∧ s₁₂.config = s₂.config ∧
      AgreeOutside (TunedBy s.config (selectedTargets group members)) s.config s₁.config ∧
      AgreeOutside (TunedBy s.config (selectedTargets group members)) s.config s₂.config := by
  obtain ⟨_, ws, hmembers, -, hpassed, -⟩ := tune_settles h
  obtain rfl := Json.obj.inj hmembers
  have hagree : AgreeOutside (TunedBy s.config (selectedTargets group members)) s.config
      s₁.config :=
    applySettings_agree (hsep.placed hpassed.settles).1 (AgreeOutside.refl _ _) hpassed.sets
  obtain ⟨b₁₂, s₁₂, h₁₂⟩ := tune_returns_again hsep h hagree j
  obtain ⟨b₂, s₂, h₂⟩ := tune_returns_again hsep h (AgreeOutside.refl _ s.config) j
  obtain ⟨_, ws₁₂, hmembers₁₂, -, hpassed₁₂, -⟩ := tune_settles h₁₂
  obtain rfl := Json.obj.inj hmembers₁₂
  obtain ⟨_, ws₂, hmembers₂, -, hpassed₂, -⟩ := tune_settles h₂
  obtain rfl := Json.obj.inj hmembers₂
  -- the same mutation of the same targets makes the same settings
  obtain rfl := settles_unique hsep.sweep hpassed₁₂.settles hpassed₂.settles
  obtain ⟨hplaced, htunes⟩ := hsep.placed hpassed₂.settles
  refine ⟨b₁₂, b₂, s₁₂, s₂, h₁₂, h₂, ?_, hagree,
    applySettings_agree hplaced (AgreeOutside.refl _ _) hpassed₂.sets⟩
  -- where the documents differed before, the settings have been made
  have hsame := applySettings_absorb hplaced hagree (AgreeOutside.refl _ s.config) hagree.symm
    hpassed₁₂.sets hpassed₂.sets
  exact eq_of_agree (hsame.mono fun r hr => absurd (htunes hr.1) hr.2)

/-! ## Two targets

Two targets with a range each, in a document of two members. -/

/-- A machine with something to tune in two places, and something else beside it. -/
def machineWith (m n : Int) : Json :=
  .obj [("a".toList, .obj [("x".toList, .int m), ("y".toList, .null)]),
    ("b".toList, .obj [("x".toList, .int n)])]

def sampleStart : Tuning Unit :=
  { config := machineWith 1 2, failonerror := true, gen := (), vars := 0, varstring := [] }

def sampleTargets : Object := [("a".toList, .obj sampleTarget), ("b".toList, .obj sampleTarget)]

def sampleMembers : Object := ("mutations".toList, .int 5) :: sampleTargets

theorem steps_sample {c : Char} (h : c = 'a' ∨ c = 'b') : JsonPath.steps [c] = [.name [c]] := by
  rcases h with rfl | rfl
  · exact JsonPath.steps_plain (JsonPath.plain_of_all (by decide)) (by decide)
  · exact JsonPath.steps_plain (JsonPath.plain_of_all (by decide)) (by decide)

theorem leads_a (m n : Int) : JsonPath.Leads (machineWith m n) (JsonPath.steps "a".toList) [0]
    (.obj [("x".toList, .int m), ("y".toList, .null)]) := by
  rw [show "a".toList = ['a'] from rfl, steps_sample (.inl rfl)]
  exact .cons rfl rfl (.nil _)

theorem leads_b (m n : Int) : JsonPath.Leads (machineWith m n) (JsonPath.steps "b".toList) [1]
    (.obj [("x".toList, .int n)]) := by
  rw [show "b".toList = ['b'] from rfl, steps_sample (.inr rfl)]
  exact .cons rfl rfl (.nil _)

/-- Each target goes by a name to an object with its member. -/
theorem leads_sample (m n : Int) {p : Str × Json} (hp : p ∈ sampleTargets) :
    p.2 = .obj sampleTarget ∧ (∀ s ∈ JsonPath.steps p.1, s.Direct) ∧
      ∃ i o, JsonPath.Leads (machineWith m n) (JsonPath.steps p.1) [i] (.obj o) ∧
        "x".toList ∈ o.map Prod.fst := by
  have hdirect : ∀ {c : Char}, c = 'a' ∨ c = 'b' → ∀ s ∈ JsonPath.steps [c], s.Direct := by
    intro c hc s hs
    rw [steps_sample hc] at hs
    rw [List.mem_singleton.mp hs]
    exact trivial
  rcases List.mem_pair.mp hp with rfl | rfl
  · exact ⟨rfl, hdirect (.inl rfl), _, _, leads_a m n, List.mem_cons_self⟩
  · exact ⟨rfl, hdirect (.inr rfl), _, _, leads_b m n, List.mem_cons_self⟩

theorem selectedTargets_sample : selectedTargets 1 sampleMembers = sampleTargets := by
  have hsample : ∀ p ∈ sampleTargets, isSelected 1 p = true := by
    intro p hp
    rcases List.mem_pair.mp hp with rfl | rfl
    · exact isSelected_iff.mpr ⟨_, selected_sampleTarget _ (by decide)⟩
    · exact isSelected_iff.mpr ⟨_, selected_sampleTarget _ (by decide)⟩
  rw [selectedTargets, sampleMembers, List.filter_cons_of_neg (by exact Bool.false_ne_true)]
  exact List.filter_eq_self.mpr hsample

/-- Neither target of the sample is in the way of the other. -/
theorem separate_sample (m n : Int) :
    Separate (machineWith m n) (selectedTargets 1 sampleMembers) := by
  rw [selectedTargets_sample]
  refine ⟨fun p hp => ?_, fun p hp => ?_, fun p hp => ?_, fun p hp q v hlead => ?_⟩
  · exact ⟨_, (leads_sample m n hp).1, rfl⟩
  · exact (leads_sample m n hp).2.1
  · obtain ⟨-, -, i, o, hlead, -⟩ := leads_sample m n hp
    exact ⟨_, o, hlead⟩
  · -- what is set lies below the positions that the paths lead to
    obtain ⟨-, -, i, o, hp, -⟩ := leads_sample m n hp
    obtain ⟨rfl, -⟩ := hp.unique hlead
    rintro r ⟨p', hp', o', var, -, -, q', o', j, v', hlead', -, rfl⟩ hprefix
    obtain ⟨-, -, i', o', hp', -⟩ := leads_sample m n hp'
    obtain ⟨rfl, -⟩ := hp'.unique hlead'
    have := hprefix.length_le
    simp at this

/-- A target whose path leads to an object sets its member there. -/
theorem apply_sample {key : Str} (hkey : key ≠ "success".toList) {s : Tuning Unit} {q : Position}
    {o : Object} (h : JsonPath.Leads s.config (JsonPath.steps key) q (.obj o))
    (mutations i : Int) :
    ∃ s' n, applyTarget exactEnv 1 mutations i s (key, .obj sampleTarget) = .ok s' ∧
      s'.config = put s.config q (.obj (JsonPath.setMembers o "x".toList n)) := by
  have hpath := JsonPath.getPath_eq_ok_iff.mpr h.addresses
  have hset : JsonPath.setPathInt s.config key "x".toList
      (exactEnv.hightolow (intAt sampleTarget "low".toList (-1))
        (intAt sampleTarget "high".toList (-1)) mutations i) = .ok _ :=
    JsonPath.setPathInt_eq_ok_iff.mpr ⟨q, o, h, rfl⟩
  obtain ⟨s', happly, hconfig⟩ := applySelected_hightolow ranged_sampleTarget rfl hpath hset
  rw [applyTarget_of_selected exactEnv (selected_sampleTarget key hkey)]
  exact ⟨s', _, happly, hconfig⟩

/-- A pass over it returns, whatever else the tuner configuration says. -/
theorem tune_sample {members : Object} (hmutations : 0 ≤ intAt members "mutations".toList (-1))
    (h : ∀ p ∈ members, p ∈ sampleTargets ∨ isSelected 1 p = false) {s : Tuning Unit}
    (hs : ∃ m n, s.config = machineWith m n) (i : Int) :
    ∃ b s', tune exactEnv (.obj members) 1 i s = .ok (b, s') := by
  have hstep : ∀ s : Tuning Unit, ∀ p ∈ members, (∃ m n, s.config = machineWith m n) →
      ∃ s', applyTarget exactEnv 1 (intAt members "mutations".toList (-1)) i s p = .ok s' ∧
        ∃ m n, s'.config = machineWith m n := by
    rintro s p hp ⟨m, n, hs⟩
    have ha := leads_a m n
    have hb := leads_b m n
    rw [← hs] at ha hb
    rcases h p hp with hp | hp
    · rcases List.mem_pair.mp hp with rfl | rfl
      · obtain ⟨s', n', happly, hconfig⟩ := apply_sample (by decide) ha _ i
        exact ⟨s', happly, n', n, by rw [hconfig, hs]; rfl⟩
      · obtain ⟨s', n', happly, hconfig⟩ := apply_sample (by decide) hb _ i
        exact ⟨s', happly, m, n', by rw [hconfig, hs]; rfl⟩
    · exact ⟨s, applyTarget_of_not_selected exactEnv hp _ _ s, m, n, hs⟩
  obtain ⟨b, s', htune, -⟩ := tune_returns hmutations hstep (s := s) hs
  exact ⟨b, s', htune⟩

/-- The passes of the sample return. -/
theorem tune_sampleMembers (i : Int) :
    ∃ b s', tune exactEnv (.obj sampleMembers) 1 i sampleStart = .ok (b, s') := by
  have hmutations : intAt sampleMembers "mutations".toList (-1) = 5 := by
    rw [intAt, sampleMembers, get_cons_self]
    exact int32_of_isInt (by decide)
  refine tune_sample (by rw [hmutations]; decide) (fun p hp => ?_) ⟨1, 2, rfl⟩ i
  rcases List.mem_cons.mp hp with rfl | hp
  · exact .inr rfl
  · exact .inl hp

/-- The first mutation and then the fourth, of two targets. -/
theorem tune_forgets_sample :
    ∃ b b₁₂ b₂ s₁ s₁₂ s₂, tune exactEnv (.obj sampleMembers) 1 0 sampleStart = .ok (b, s₁) ∧
      tune exactEnv (.obj sampleMembers) 1 3 s₁ = .ok (b₁₂, s₁₂) ∧
      tune exactEnv (.obj sampleMembers) 1 3 sampleStart = .ok (b₂, s₂) ∧
      s₁₂.config = s₂.config := by
  obtain ⟨b, s₁, h⟩ := tune_sampleMembers 0
  obtain ⟨b₁₂, b₂, s₁₂, s₂, h₁₂, h₂, hsame, -⟩ := tune_forgets (separate_sample 1 2) h 3
  exact ⟨b, b₁₂, b₂, s₁, s₁₂, s₂, h, h₁₂, h₂, hsame⟩

end MachineTuner

end Skweltch
