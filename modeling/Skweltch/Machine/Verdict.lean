import Skweltch.Machine.MachineRunner

/-!
# Skweltch — the verdict on an iteration

`runOne` compares a criterion that is real as a number and any other one as a text. `Met` is what
a criterion asks for; `Telling` says on which results the code's verdict is that of `Met`. What
counts as equal arrays or objects is left open: the code looks into neither.
-/

namespace Skweltch

open EventLoop FixedWidth Json JsonObject NumText

namespace MachineRunner

/-! ## What a criterion asks for

What it is for an iteration to be right: its criteria are met by its results, kind by kind. -/

/-- The value expected is the value found; `same` is equality of arrays and of objects. -/
def Equal (same : Json → Json → Prop) : Json → Json → Prop
  | .real q, v => ∃ x, v.getReal = .ok x ∧ |q - x| ≤ 5 / 1000
  | .int n, v => v.getReal = .ok (n : ℚ)
  | .str s, v => v = .str s
  | .bool b, v => v = .bool b
  | .null, v => v = .null
  | .arr es, v => v.isArr = true ∧ same (.arr es) v
  | .obj o, v => v.isObj = true ∧ same (.obj o) v

/-- The key of the criterion is in the results, with an equal value. -/
def Met (same : Json → Json → Prop) (res : Object) (m : Str × Json) : Prop :=
  has res m.1 = true ∧ Equal same m.2 (get res m.1)

/-- The iteration is counted as successful if every criterion is met, and as failed if not. -/
def Right (env : RunnerEnv) (same : Json → Json → Prop) (o res : Object) (t : Tally) : Prop :=
  ((∀ m ∈ o, Met same res m) ∧
      ∃ elapsed, evaluate env (.obj o) t (.obj res) = .next (passed t elapsed)) ∨
    ((¬ ∀ m ∈ o, Met same res m) ∧ evaluate env (.obj o) t (.obj res) = failed env t)

/-! ## What the code looks at

The code compares texts, except for reals. Where that differs from the values is listed: values of
other kinds that are written alike, and equal values that are not. -/

/-- The comparison of one criterion finds no difference. -/
def passes (text : ℚ → Str) (res : Object) (m : Str × Json) : Bool :=
  match m.2 with
  | .real q =>
    match (get res m.1).getReal with
    | .ok x => |q - x| ≤ 5 / 1000
    | .error _ => false
  | v => asString text v == asString text (get res m.1)

/-- The criterion is real and what is found is no number. -/
def Throws (res : Object) (m : Str × Json) : Prop :=
  ∃ q f, m.2 = .real q ∧ (get res m.1).getReal = .error f

/-- Values of different kinds whose texts are the same: a number and its text, `true` and one,
any two values written as `?`. -/
def SameText (text : ℚ → Str) (v rv : Json) : Prop :=
  v.typeName ≠ rv.typeName ∧ asString text v = asString text rv

/-- The texts are the same and the values are not. -/
def Confused (text : ℚ → Str) (same : Json → Json → Prop) (res : Object) (m : Str × Json) : Prop :=
  match m.2, get res m.1 with
  -- numbers, the criterion being cast down to an `int`
  | .int n, .int n' => n ≠ n' ∧ decText (int32 n) = decText (int32 n')
  | .int n, .real q => (n : ℚ) ≠ q ∧ decText (int32 n) = text q
  | .real _, _ => False
  -- there is no such key
  | .null, .null => has res m.1 = false
  | .arr es, .arr es' => ¬ same (.arr es) (.arr es')
  | .obj o, .obj o' => ¬ same (.obj o) (.obj o')
  | v, rv => SameText text v rv

/-- An integer and a real of the same value whose texts differ. -/
def Estranged (text : ℚ → Str) (res : Object) (m : Str × Json) : Prop :=
  ∃ n : Int, m.2 = .int n ∧ get res m.1 = .real n ∧ decText (int32 n) ≠ text n

/-- The verdict tells whether the criteria are met. Without a difference: no value is confused
with another. With one: it is not where a number is missing for a real criterion, and where it
only sets an integer apart from the equal real, another criterion is not met. -/
def Telling (text : ℚ → Str) (same : Json → Json → Prop) (o res : Object) : Prop :=
  match o.find? fun m => !passes text res m with
  | none => ∀ m ∈ o, ¬ Confused text same res m
  | some m => ¬ Throws res m ∧ (Estranged text res m → ∃ m' ∈ o, ¬ Met same res m')

variable {text : ℚ → Str} {same : Json → Json → Prop} {res : Object}

/-! ## One criterion

For one criterion: what the code finds is what it asks for, unless it is one of those listed. -/

theorem has_of_get {k : Str} (h : get res k ≠ .null) : has res k = true := by
  unfold has
  exact List.any_eq_true.mpr ⟨_, get_mem h, by simp⟩

/-- A criterion without difference is met unless it is confused with something else. -/
theorem met_iff_of_passes {m : Str × Json} (hpass : passes text res m = true) :
    Met same res m ↔ ¬ Confused text same res m := by
  obtain ⟨k, v⟩ := m
  have hhas := @has_of_get res k
  simp only [passes] at hpass
  simp only [Met, Confused]
  generalize get res k = rv at *
  -- kind by kind: equal texts are equal values, except for those in `SameText`
  cases v with
  | real q => cases rv <;> simp_all [Equal, getReal, wrongType]
  | int n =>
    cases rv with
    | int n' =>
      simp_all [Equal, getReal, asString]
      exact eq_comm
    | real q =>
      simp_all [Equal, getReal, asString]
      exact eq_comm
    | _ => simp_all [Equal, getReal, wrongType, SameText, typeName]
  | str s => cases rv <;> simp_all [Equal, SameText, typeName, asString]
  | bool b =>
    cases rv with
    | bool b' => cases b <;> cases b' <;> simp_all [Equal, SameText, typeName, asString]
    | _ => simp_all [Equal, SameText, typeName]
  | null => cases rv <;> simp_all [Equal, SameText, typeName]
  | arr es => cases rv <;> simp_all [Equal, SameText, typeName, isArr]
  | obj o => cases rv <;> simp_all [Equal, SameText, typeName, isObj]

/-- A criterion with a difference that is seen is met only where numbers have different texts. -/
theorem met_iff_of_not_passes {m : Str × Json} (hpass : passes text res m = false)
    (hnum : ¬ Throws res m) : Met same res m ↔ Estranged text res m := by
  obtain ⟨k, v⟩ := m
  have hhas := @has_of_get res k
  simp only [passes] at hpass
  simp only [Throws] at hnum
  simp only [Met, Estranged]
  generalize get res k = rv at *
  -- by the kind of the criterion, and then by that of the result
  cases v with
  | real q => cases rv <;> simp_all [Equal, getReal, wrongType]
  | int n =>
    cases rv with
    | int n' =>
      simp_all [Equal, getReal, asString]
      rintro rfl
      exact hpass rfl
    | real q =>
      simp_all [Equal, getReal, asString]
      rintro rfl
      exact hpass
    | _ => simp_all [Equal, getReal, wrongType]
  | str s =>
    cases rv with
    | str s' =>
      simp_all [Equal, asString]
      exact Ne.symm hpass
    | _ => simp_all [Equal, asString]
  | bool b =>
    cases rv with
    | bool b' =>
      simp_all [Equal, asString]
      rintro rfl
      exact hpass rfl
    | _ => simp_all [Equal, asString]
  | null => cases rv <;> simp_all [Equal, asString]
  | arr es => cases rv <;> simp_all [Equal, asString, isArr]
  | obj o => cases rv <;> simp_all [Equal, asString, isObj]

/-! ## All criteria

The criteria are gone through in order up to the first that is not met or throws. -/

/-- The first criterion, and then the others. -/
theorem checkFrom_cons (k : Str) (v : Json) (o : Object) :
    (passes text res (k, v) = true →
      checkFrom text (.obj res) ((k, v) :: o) = checkFrom text (.obj res) o) ∧
    (passes text res (k, v) = false → ¬ Throws res (k, v) →
      checkFrom text (.obj res) ((k, v) :: o) = .ok true) ∧
    (passes text res (k, v) = false → Throws res (k, v) →
      ∃ f, checkFrom text (.obj res) ((k, v) :: o) = .error f) := by
  have hstring : getAsString text (.obj res) k = .ok (asString text (get res k)) := rfl
  have hdouble : getDouble (.obj res) k = (get res k).getReal := rfl
  cases v with
  | real q =>
    -- reals are compared as numbers, and everything else by its text
    simp only [passes, Throws, checkFrom, hdouble]
    cases hx : (get res k).getReal with
    | ok x =>
      simp only [bind, Except.bind]
      refine ⟨fun hpass => ?_, fun hpass _ => ?_, fun _ hthrows => ?_⟩
      · rw [if_neg (not_lt.mpr (of_decide_eq_true hpass))]
      · rw [if_pos (not_le.mp (of_decide_eq_false hpass))]
      · obtain ⟨q', f, -, hf⟩ := hthrows
        cases hf
    | error f =>
      refine ⟨fun hpass => Bool.noConfusion hpass, fun _ hnum => ?_, fun _ _ => ⟨f, rfl⟩⟩
      exact absurd ⟨q, f, rfl, rfl⟩ hnum
  | _ =>
    simp only [passes, Throws, checkFrom, hstring, bind, Except.bind]
    refine ⟨fun hpass => ?_, fun hpass _ => ?_, fun _ hthrows => ?_⟩
    · rw [if_neg (not_not.mpr (beq_iff_eq.mp hpass))]
    · rw [if_pos (beq_eq_false_iff_ne.mp hpass)]
    · obtain ⟨q, f, hreal, -⟩ := hthrows
      cases hreal

/-- The comparison ends at the first criterion with a difference. -/
theorem checkFrom_eq (text : ℚ → Str) (res o : Object) :
    match o.find? fun m => !passes text res m with
    | none => checkFrom text (.obj res) o = .ok false
    | some m => (¬ Throws res m ∧ checkFrom text (.obj res) o = .ok true) ∨
        (Throws res m ∧ ∃ f, checkFrom text (.obj res) o = .error f) := by
  induction o with
  | nil => rfl
  | cons m o ih =>
    obtain ⟨k, v⟩ := m
    obtain ⟨hsame, hbad, hthrow⟩ := @checkFrom_cons text res k v o
    rw [List.find?_cons]
    cases hpass : passes text res (k, v) with
    | true =>
      rw [hsame hpass]
      exact ih
    | false =>
      simp only [Bool.not_false]
      by_cases hnum : Throws res (k, v)
      · exact Or.inr ⟨hnum, hthrow hpass hnum⟩
      · exact Or.inl ⟨hnum, hbad hpass hnum⟩

variable {env : RunnerEnv} {t : Tally}

theorem failed_ne_passed (elapsed : Int) : failed env t ≠ .next (passed t elapsed) := by
  simp only [failed]
  split
  · simp
  · intro h
    have hfail : int32 (t.fail + 1) = t.fail := congrArg Tally.fail (Flow.next.inj h)
    unfold int32 at hfail
    omega

theorem failed_ne_escape (f : JsonFault) : .exit (escape f) ≠ failed env t := by
  simp only [failed]
  split
  · cases f <;> simp [escape]
  · simp

/-- An elapsed time is always read, -1 if there is none. -/
theorem exists_elapsed (res : Object) :
    ∃ elapsed, getInt (.obj res) "elapsed".toList (-1) = .ok elapsed := by
  simp only [JsonObject.getInt, getObj_obj, bind, Except.bind]
  split
  · exact ⟨_, rfl⟩
  · exact ⟨_, rfl⟩

/-- The verdict on the results is that of the criteria. -/
theorem evaluate_eq (env : RunnerEnv) (t : Tally) (o res : Object) :
    ∃ elapsed, evaluate env (.obj o) t (.obj res) =
      match checkFrom env.text (.obj res) o with
      | .error f => .exit (escape f)
      | .ok true => failed env t
      | .ok false => .next (passed t elapsed) := by
  obtain ⟨elapsed, helapsed⟩ := exists_elapsed res
  have hcheck : check env.text (.obj o) (.obj res) = checkFrom env.text (.obj res) o := rfl
  refine ⟨elapsed, ?_⟩
  simp only [evaluate, isNull, hcheck, helapsed]
  rfl

/-- **When the verdict on an iteration is right.** -/
theorem right_iff (env : RunnerEnv) (same : Json → Json → Prop) (o res : Object) (t : Tally) :
    Right env same o res t ↔ Telling env.text same o res := by
  have hcheck := checkFrom_eq env.text res o
  obtain ⟨elapsed, heval⟩ := evaluate_eq env t o res
  unfold Telling
  cases hfind : o.find? fun m => !passes env.text res m with
  | none =>
    -- the iteration passes: right exactly if no pass was a confusion of texts
    rw [hfind] at hcheck
    have hpass : ∀ m ∈ o, passes env.text res m = true := by
      simpa using List.find?_eq_none.mp hfind
    rw [show checkFrom env.text (.obj res) o = .ok false from hcheck] at heval
    have hall : (∀ m ∈ o, Met same res m) ↔ ∀ m ∈ o, ¬ Confused env.text same res m :=
      forall₂_congr fun m hm => met_iff_of_passes (hpass m hm)
    refine Iff.trans ⟨fun hright => ?_, fun hmet => Or.inl ⟨hmet, _, heval⟩⟩ hall
    rcases hright with ⟨hmet, -⟩ | ⟨-, hfailed⟩
    · exact hmet
    · exact absurd (hfailed.symm.trans heval) (failed_ne_passed _)
  | some m =>
    -- the comparison ends at m, with a failure or with an exception
    rw [hfind] at hcheck
    have hm : m ∈ o := List.mem_of_find?_eq_some hfind
    have hdiff : passes env.text res m = false := by
      simpa using List.find?_some hfind
    rcases hcheck with ⟨hnum, hbad⟩ | ⟨hthrows, f, hf⟩
    · rw [hbad] at heval
      have hmet := @met_iff_of_not_passes env.text same res m hdiff hnum
      refine ⟨fun hright => ⟨hnum, fun hest => ?_⟩, fun htell => Or.inr ⟨fun hall => ?_, heval⟩⟩
      · rcases hright with ⟨-, elapsed', hpassed⟩ | ⟨hnot, -⟩
        · exact absurd (heval.symm.trans hpassed) (failed_ne_passed _)
        · push Not at hnot
          exact hnot
      · obtain ⟨m', hm', hnot⟩ := htell.2 (hmet.mp (hall m hm))
        exact hnot (hall m' hm')
    · rw [hf] at heval
      refine iff_of_false (fun hright => ?_) (fun htell => htell.1 hthrows)
      rcases hright with ⟨-, elapsed', hpassed⟩ | ⟨-, hfailed⟩
      · rw [heval] at hpassed
        cases hpassed
      · exact failed_ne_escape f (heval.symm.trans hfailed)

/-- Results without the array that is asked for count as a success. -/
theorem missing_array_not_right :
    ¬ ∀ (env : RunnerEnv) (o res : Object) (t : Tally), Right env (· = ·) o res t := by
  intro h
  have hright := h ⟨fun _ => [], fun _ => [], 7000, false⟩
    [("items".toList, .arr [.int 1])] [] init
  rcases hright with ⟨hmet, -⟩ | ⟨-, hfailed⟩
  · exact absurd (hmet _ (List.mem_cons_self ..)).1 (by decide)
  · obtain ⟨elapsed, heval⟩ := evaluate_eq ⟨fun _ => [], fun _ => [], 7000, false⟩ init
      [("items".toList, .arr [.int 1])] []
    exact absurd (hfailed.symm.trans heval) (failed_ne_passed _)

end MachineRunner

end Skweltch
