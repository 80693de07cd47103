import Skweltch.Lib.Columns
import Skweltch.Machine.Results
import Skweltch.Machine.TuneSteps

/-!
# Skweltch — the columns of the results

`main` of `machine/tune.cpp` writes a line of names above the rows of a group, with one name for
every target that `varCount` counts; a row holds what `tune` has noted of the values. Both go by
the same targets (`tune_columns`), as long as an `int` can count them.
-/

namespace Skweltch

open Columns EventLoop FixedWidth Json JsonObject NumText

/-- The line above the rows of a group, without its end. -/
def Tune.header (varcount : Int) : Str :=
  "group\ti".toList ++ '\t' ::
    ((List.range varcount.toNat).flatMap
        (fun (j : Nat) => ('v' :: decText ((j : Int) + 1)) ++ ['\t']) ++
      "n\tlow\thigh\tfail\tavg\tmed".toList)

example : Tune.header 2 = "group\ti\tv1\tv2\tn\tlow\thigh\tfail\tavg\tmed".toList := by
  decide +kernel

/-! ## What is in a column -/

/-- A number in decimal is a cell. -/
theorem cell_decText (n : Int) : Cell '\t' (decText n) := by
  refine ⟨decText_ne_nil n, fun h => ?_⟩
  rcases mem_decText h with h | h
  · exact absurd h (by decide)
  · exact absurd h (by decide)

/-- The columns of the header. -/
theorem Tune.columns_header (varcount : Int) :
    columns '\t' (Tune.header varcount) = varcount.toNat + 8 := by
  have hnames : ∀ j ∈ List.range varcount.toNat, '\t' ∉ 'v' :: decText ((j : Int) + 1) := by
    intro j _ h
    rcases List.mem_cons.mp h with h | h
    · exact absurd h (by decide)
    · exact (cell_decText _).not_mem h
  have hframe : ∀ front back : Str, columns '\t' front = 2 → columns '\t' back = 6 →
      columns '\t' (front ++ '\t' :: ((List.range varcount.toNat).flatMap
        (fun (j : Nat) => ('v' :: decText ((j : Int) + 1)) ++ ['\t']) ++ back)) =
      varcount.toNat + 8 := by
    intro front back hfront hback
    rw [columns_append, hfront, columns_flatMap hnames, List.length_range, hback]
    omega
  exact hframe "group\ti".toList _ (by decide +kernel) (by decide +kernel)

/-- A row has the columns of its values and eight more. -/
theorem StreamResults.columns_write {real : ℚ → Str} (hreal : ∀ q, '\t' ∉ real q) (r : Row) :
    columns '\t' (StreamResults.write real r) = columns '\t' r.vars + 8 := by
  have hcell : ∀ n : Int, '\t' ∉ decText n := fun n => (cell_decText n).not_mem
  rw [StreamResults.write, columns_cell (hcell _), columns_cell (hcell _), columns_append,
    columns_cell (hcell _), columns_cell (hcell _), columns_cell (hcell _), columns_cell (hcell _),
    columns_cell (hreal _), columns_of_not_mem (hreal _)]

namespace MachineTuner

variable {γ : Type} {env : TunerEnv γ}

/-- The notes that are taken of the values are the fields. -/
theorem fields_noted (vals : List Int) (line : Str) :
    fields '\t' (vals.foldl noted line) = fields '\t' line ++ vals.map decText := by
  have hnoted : ∀ (line : Str) (val : Int), noted line val = extend '\t' line (decText val) :=
    fun _ _ => rfl
  have hfold : vals.foldl noted line = (vals.map decText).foldl (extend '\t') line := by
    rw [List.foldl_map]
    exact congrArg (fun f => vals.foldl f line) (funext fun l => funext fun v => hnoted l v)
  rw [hfold, fields_foldl_extend]
  intro x hx
  obtain ⟨val, -, rfl⟩ := List.mem_map.mp hx
  exact cell_decText val

theorem Passed.fields {group mutations mutation : Int} {members : Object} {s s' : Tuning γ}
    {ws : List Setting} (h : Passed env group mutations mutation members s s' ws)
    (hs : s.varstring = []) : fields '\t' s'.varstring = ws.map fun w => decText w.val := by
  rw [h.varstring, fields_noted, hs, List.map_map]
  rfl

/-- **Header and rows.** What a pass notes has as many fields as there are targets that count, and
the header and any row of the mutation have the same columns. -/
theorem tune_columns {real : ℚ → Str} (hreal : ∀ q, '\t' ∉ real q) {tunerconfig : Json}
    {group mutation : Int} {s s' : Tuning γ} {b : Bool}
    (h : tune env tunerconfig group mutation s = .ok (b, s'))
    (hcount : ∀ members, tunerconfig = .obj members →
      (selectedTargets group members).length ≤ 2147483647) :
    ∃ n, varCount tunerconfig group = .ok n ∧ (b = true ↔ 0 < n) ∧
      ((fields '\t' s'.varstring).length : Int) = n ∧
      (0 < n → ∀ iterations low high fail sum : Int,
        columns '\t' (StreamResults.write real
            (StreamResults.row group mutation s'.varstring iterations low high fail sum)) =
          columns '\t' (Tune.header n)) := by
  obtain ⟨members, ws, rfl, -, hpassed, hb⟩ := tune_settles h
  have hlen : (selectedTargets group members).length = ws.length := hpassed.settles.length_eq
  -- the targets can be counted by an `int`
  have hws : IsInt (ws.length : Int) := by
    have := hcount members rfl
    rw [hlen] at this
    constructor
    · omega
    · omega
  have hvars : s'.vars = (ws.length : Int) := by
    rw [hpassed.vars (show IsInt 0 by decide)]
    exact (congrArg int32 (Int.zero_add _)).trans (int32_of_isInt hws)
  have hfields : (fields '\t' s'.varstring).length = ws.length := by
    rw [hpassed.fields rfl, List.length_map]
  refine ⟨ws.length, ?_, by rw [hb, hvars], by rw [hfields], fun hpos _ _ _ _ _ => ?_⟩
  · rw [varCount_eq, hlen, int32_of_isInt hws]
  -- without a field there is no string, and no target either
  · have hne : s'.varstring ≠ [] := by
      intro hnil
      rw [hnil] at hfields
      have : (0 : Nat) = ws.length := hfields
      omega
    rw [StreamResults.columns_write hreal, Tune.columns_header, ← hfields, Int.toNat_natCast,
      length_fields hne]
    rfl

/-- Targets whose path leads to an object without the member. -/
def idleTargets (n : Nat) : Object := List.replicate n ("a".toList, .obj sampleTarget)

def idleMembers (n : Nat) : Object := ("mutations".toList, .int 1) :: idleTargets n

def idleStart : Tuning Unit :=
  { config := .obj [("a".toList, .obj [])], failonerror := true, gen := (), vars := 0,
    varstring := [] }

theorem selectedTargets_idle (n : Nat) : selectedTargets 1 (idleMembers n) = idleTargets n := by
  have hidle : isSelected 1 ("a".toList, .obj sampleTarget) = true :=
    isSelected_iff.mpr ⟨_, selected_sampleTarget "a".toList (by decide)⟩
  rw [selectedTargets, idleMembers, List.filter_cons_of_neg (by exact Bool.false_ne_true),
    idleTargets, List.filter_replicate, if_pos hidle]

/-- However many of these there are, the configuration stays and the pass returns. -/
theorem tune_idle (n : Nat) :
    ∃ b s', tune exactEnv (.obj (idleMembers n)) 1 0 idleStart = .ok (b, s') ∧
      s'.config = idleStart.config := by
  have hmutations : intAt (idleMembers n) "mutations".toList (-1) = 1 := by
    rw [intAt, idleMembers, get_cons_self]
    exact int32_of_isInt (by decide)
  have hstep : ∀ s : Tuning Unit, ∀ p ∈ idleMembers n, s.config = idleStart.config →
      ∃ s', applyTarget exactEnv 1 (intAt (idleMembers n) "mutations".toList (-1)) 0 s p = .ok s' ∧
        s'.config = idleStart.config := by
    intro s p hp hs
    rcases List.mem_cons.mp hp with rfl | hp
    · exact ⟨s, applyTarget_of_not_selected exactEnv rfl _ _ s, hs⟩
    · obtain rfl := List.eq_of_mem_replicate hp
      have hpath : JsonPath.getPath s.config "a".toList = .ok (.obj []) := by
        rw [hs]
        exact JsonPath.getPath_name (JsonPath.plain_of_all (by decide)) (by decide)
          (get_cons_self ..) (by simp)
      obtain ⟨-, config, -, -, hset, -, hsame, -⟩ :=
        JsonPath.setPathInt_spec hpath "x".toList (n := 5) (by decide)
      rw [← high_sampleTarget _ hmutations] at hset
      obtain ⟨s', happly, hconfig⟩ := applySelected_hightolow ranged_sampleTarget rfl hpath hset
      rw [applyTarget_of_selected exactEnv (selected_sampleTarget "a".toList (by decide))]
      exact ⟨s', happly, by rw [hconfig, hsame (by simp), hs]⟩
  exact tune_returns (by rw [hmutations]; decide) hstep (s := idleStart) rfl

/-- Two targets, and the row of a run that took no time. -/
theorem tune_columns_two :
    ∃ b s', tune exactEnv (.obj (idleMembers 2)) 1 0 idleStart = .ok (b, s') ∧ b = true ∧
      (fields '\t' s'.varstring).length = 2 ∧
      columns '\t' (StreamResults.write (fun _ => ['0'])
          (StreamResults.row 1 0 s'.varstring 1 0 0 0 0)) = columns '\t' (Tune.header 2) := by
  obtain ⟨b, s', htune, -⟩ := tune_idle 2
  have hreal : ∀ q : ℚ, '\t' ∉ (fun _ => ['0'] : ℚ → Str) q := by
    intro q
    show '\t' ∉ ['0']
    decide
  obtain ⟨n, hn, hb, hfields, hcolumns⟩ :=
    tune_columns hreal htune fun members hmembers => by
      obtain rfl := Json.obj.inj hmembers
      rw [selectedTargets_idle, idleTargets, List.length_replicate]
      decide
  obtain rfl : n = 2 := by
    rw [varCount_eq, selectedTargets_idle, idleTargets, List.length_replicate] at hn
    rw [← Except.ok.inj hn]
    exact int32_of_isInt (by decide)
  exact ⟨b, s', htune, hb.mpr (by decide), Int.ofNat.inj hfields, hcolumns (by decide) 1 0 0 0 0⟩

/-- One target more than an `int` can count: the fields are there and the count is negative. -/
theorem countless_columns :
    ∃ b s', tune exactEnv (.obj (idleMembers 2147483648)) 1 0 idleStart = .ok (b, s') ∧
      varCount (.obj (idleMembers 2147483648)) 1 = .ok (-2147483648) ∧
      (fields '\t' s'.varstring).length = 2147483648 := by
  have hlen : (idleTargets 2147483648).length = 2147483648 := List.length_replicate
  obtain ⟨b, s', htune, -⟩ := tune_idle 2147483648
  obtain ⟨members, ws, hmembers, -, hpassed, -⟩ := tune_settles htune
  obtain rfl := Json.obj.inj hmembers
  refine ⟨b, s', htune, ?_, ?_⟩
  · rw [varCount_eq, selectedTargets_idle, hlen]
    decide +kernel
  · rw [hpassed.fields rfl, List.length_map, ← hpassed.settles.length_eq, selectedTargets_idle,
      hlen]

end MachineTuner

end Skweltch
