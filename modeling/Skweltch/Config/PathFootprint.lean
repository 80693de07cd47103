import Skweltch.Config.PathUpdate
import Skweltch.Lib.Agreement

/-!
# Skweltch — what a path looks at

The walk of `JsonPath::getPath` (`config/JsonPath.cpp`) looks at the values on its way and, where it
selects, at what it compares. In a document that agrees with another one there the same path leads
to the same place (`Leads.congr`). What `setPathInt` changes are the members that it sets, and what
is below these (`agree_of_setPathInt`).
-/

namespace Skweltch

open FixedWidth NumText Subtrees

namespace Json

theorem outline_eq_obj {v : Json} {o : Object} (h : outline v = outline (.obj o)) :
    ∃ o', v = .obj o' ∧ o'.map Prod.fst = o.map Prod.fst := by
  cases v with
  | obj o' =>
    refine ⟨o', rfl, ?_⟩
    have := congrArg (List.map Prod.fst) (Json.obj.inj h)
    rwa [List.map_map, List.map_map] at this
  | _ => cases h

theorem outline_eq_arr {v : Json} {es : List Json} (h : outline v = outline (.arr es)) :
    ∃ es', v = .arr es' ∧ es'.length = es.length := by
  cases v with
  | arr es' =>
    refine ⟨es', rfl, ?_⟩
    have := congrArg List.length (Json.arr.inj h)
    rwa [List.length_map, List.length_map] at this
  | _ => cases h

/-- Scalars are their outlines. -/
theorem eq_of_outline_scalar {v v' : Json} (h : outline v = outline v') :
    v = v' ∨ (∃ o o', v = .obj o ∧ v' = .obj o') ∨ ∃ es es', v = .arr es ∧ v' = .arr es' := by
  cases v' with
  | obj o' =>
    obtain ⟨o, rfl, -⟩ := outline_eq_obj h
    exact Or.inr (Or.inl ⟨o, o', rfl, rfl⟩)
  | arr es' =>
    obtain ⟨es, rfl, -⟩ := outline_eq_arr h
    exact Or.inr (Or.inr ⟨es, es', rfl, rfl⟩)
  | _ => cases v <;> first | exact Or.inl h | cases h

/-- A value is its outline and its children. -/
theorem eq_of_outline {v v' : Json} (h : outline v = outline v')
    (hkids : children v = children v') : v = v' := by
  rcases eq_of_outline_scalar h with rfl | ⟨o, o', rfl, rfl⟩ | ⟨es, es', rfl, rfl⟩
  · rfl
  · obtain ⟨o₁, ho₁, hnames⟩ := outline_eq_obj h
    obtain rfl := Json.obj.inj ho₁
    rw [← List.zip_unzip o, ← List.zip_unzip o', List.unzip_eq_map, List.unzip_eq_map]
    exact congrArg Json.obj (congrArg₂ List.zip hnames hkids)
  · exact congrArg Json.arr hkids

/-- Children are smaller, which the induction over two values needs. -/
theorem sizeOf_child {v c : Json} (h : c ∈ children v) : sizeOf c < sizeOf v := by
  cases v with
  | obj o =>
    obtain ⟨p, hp, rfl⟩ := List.mem_map.mp h
    have := List.sizeOf_lt_of_mem hp
    obtain ⟨key, v⟩ := p
    simp only [Json.obj.sizeOf_spec, Prod.mk.sizeOf_spec] at *
    omega
  | arr es =>
    have hc : c ∈ es := h
    have := List.sizeOf_lt_of_mem hc
    simp only [Json.arr.sizeOf_spec]
    omega
  | _ => cases h

theorem eq_of_agree {d d' : Json} (h : AgreeOutside ∅ d d') : d = d' :=
  h.eq sizeOf (fun _ _ hc => sizeOf_child hc) fun _ _ => eq_of_outline

end Json

namespace JsonPath

open Json

/-! ## Looking

Two documents may differ where a path does not look. What it looks at are the outlines along it and,
for a selection, the key's member of each child that it passes. -/

/-- The walk looks at the value at a position: it comes by it, or it selects, where it asks every
child up to the one it goes to for a member to compare. -/
inductive Looks : Json → List Step → Position → Prop where
  | here (v : Json) (ss : List Step) : Looks v ss []
  | along {v w : Json} {s : Step} {ss : List Step} {i : Nat} {r : Position}
      (found : s.find v = .ok (some i)) (child : (children v)[i]? = some w)
      (rest : Looks w ss r) : Looks v (s :: ss) (i :: r)
  | child {v : Json} {condition : Str} {ss : List Step} {i j : Nat}
      (found : (Step.select condition).find v = .ok (some i)) (upto : j ≤ i) :
      Looks v (.select condition :: ss) [j]
  | compared {v : Json} {condition : Str} {ss : List Step} {i j k : Nat} {m : Object}
      (found : (Step.select condition).find v = .ok (some i)) (upto : j ≤ i)
      (child : (children v)[j]? = some (.obj m))
      (key : findName m (conditionKey condition) = some k) :
      Looks v (.select condition :: ss) [j, k]

theorem findName_congr {m m' : Object} (h : m'.map Prod.fst = m.map Prod.fst) (name : Str) :
    findName m' name = findName m name := by
  have hnames : ∀ o : Object, findName o name = (o.map Prod.fst).findIdx? fun k => name = k := by
    intro o
    rw [findName, List.findIdx?_map]
    rfl
  rw [hnames, hnames, h]

/-- The same names, and a value of the same outline at the first of them. -/
theorem get_congr {m m' : Object} (h : m'.map Prod.fst = m.map Prod.fst) {name : Str}
    (hkid : ∀ i, findName m name = some i →
      (sub (Json.obj m) [i]).map outline = (sub (Json.obj m') [i]).map outline) :
    (get m name).map outline = (get m' name).map outline := by
  have hfind := findName_congr h name
  rcases findName_cases m name with ⟨hnone, hget⟩ | ⟨i, v, hi, hmi, hget⟩
  · rcases findName_cases m' name with ⟨-, hget'⟩ | ⟨i', v', hi', -⟩
    · rw [hget, hget']
    · rw [hfind, hnone] at hi'
      cases hi'
  · obtain ⟨v', hmi', hget'⟩ := exists_of_findName (hfind.trans hi)
    have := hkid i hi
    rw [sub_obj, sub_obj, hmi, hmi'] at this
    rw [hget, hget']
    exact this

/-- What a condition finds in a value shows in its outline and in that of the compared member. -/
theorem childMatches_looks {w w' : Json} {condition : Str} {b : Bool}
    (hroot : outline w' = outline w)
    (hkey : ∀ m k, w = .obj m → findName m (conditionKey condition) = some k →
      (sub w [k]).map outline = (sub w' [k]).map outline)
    (h : childMatches w condition = .ok b) : childMatches w' condition = .ok b := by
  obtain ⟨m, rfl⟩ : ∃ m, w = .obj m := by
    cases w with
    | obj m => exact ⟨m, rfl⟩
    | _ => cases h
  obtain ⟨m', rfl, hnames⟩ := outline_eq_obj hroot
  have hget := get_congr hnames fun k hk => hkey m k rfl hk
  rw [conditionKey] at hget
  rw [← h]
  simp only [childMatches, valueMatches, getObj_obj, bind, Except.bind]
  cases hm : get m (unquote (condition.takeWhile (· ≠ '='))) with
  | none =>
    rw [hm, Option.map_none] at hget
    rw [Option.map_eq_none_iff.mp hget.symm]
  | some x =>
    rw [hm, Option.map_some] at hget
    obtain ⟨x', hm', hx⟩ := Option.map_eq_some_iff.mp hget.symm
    rw [hm']
    rcases eq_of_outline_scalar hx with rfl | ⟨o, o', rfl, rfl⟩ | ⟨es, es', rfl, rfl⟩
    · rfl
    · rfl
    · rfl

/-- A selection looks at the children up to its own, and at the key's member of each. -/
theorem findChild_looks {condition : Str} {ws ws' : Object} {i k : Nat}
    (hlen : ws'.length = ws.length)
    (hsame : ∀ (j : Nat) (w w' : Json), k + j ≤ i → (ws.map Prod.snd)[j]? = some w →
      (ws'.map Prod.snd)[j]? = some w' → outline w' = outline w ∧
        ∀ m l, w = .obj m → findName m (conditionKey condition) = some l →
          (sub w [l]).map outline = (sub w' [l]).map outline)
    (found : findChild condition ws k = .ok (some i)) :
    findChild condition ws' k = .ok (some i) := by
  induction ws generalizing ws' k with
  | nil => cases found
  | cons p ws ih =>
    obtain ⟨p', ws', rfl⟩ := List.exists_cons_of_length_eq_add_one hlen
    -- what is found is not before the place where the search begins
    have hki : k ≤ i := by
      rcases findChild_cases condition (p :: ws) k with ⟨hf, -⟩ | ⟨i', w, hf, -⟩ | ⟨f, hf, -⟩
      · rw [hf] at found
        cases found
      · have := Option.some.inj (Except.ok.inj (hf.symm.trans found))
        omega
      · rw [hf] at found
        cases found
    rw [findChild] at found ⊢
    obtain ⟨hroot, hkey⟩ := hsame 0 p.2 p'.2 hki rfl rfl
    cases hmatch : childMatches p.2 condition with
    | error f =>
      rw [hmatch] at found
      cases found
    | ok b =>
      rw [hmatch] at found
      rw [childMatches_looks hroot hkey hmatch]
      cases b with
      | true => exact found
      | false =>
        refine ih (Nat.succ.inj hlen) (fun j w w' hj hw hw' => ?_) found
        exact hsame (j + 1) w w' (by omega) hw hw'

/-- A step goes to the same child where what it looks at is the same. -/
theorem Step.find_looks {s : Step} {ss : List Step} {v v' : Json} {i : Nat}
    (hsame : ∀ r, Looks v (s :: ss) r → (sub v r).map outline = (sub v' r).map outline)
    (found : s.find v = .ok (some i)) : s.find v' = .ok (some i) := by
  have hroot : outline v' = outline v := (Option.some.inj (hsame [] (.here v _))).symm
  cases s with
  | name token =>
    cases v with
    | obj m =>
      obtain ⟨m', rfl, hnames⟩ := outline_eq_obj hroot
      have hname : findName m token = some i := Except.ok.inj found
      exact congrArg Except.ok ((findName_congr hnames token).trans hname)
    | _ => cases found
  | member token =>
    cases v with
    | obj m =>
      obtain ⟨m', rfl, hnames⟩ := outline_eq_obj hroot
      obtain ⟨hname, o, hmi⟩ := find_member_iff.mp found
      have hname' := (findName_congr hnames token).trans hname
      obtain ⟨w', hmi', -⟩ := exists_of_findName hname'
      -- the child is looked at as well, so that it is still an object
      have hchild : (children (.obj m))[i]? = some (.obj o) := by
        rw [children_obj, hmi]
        rfl
      have hlook := hsame [i] (.along found hchild (.here _ _))
      rw [sub_obj, sub_obj, hmi, hmi'] at hlook
      obtain ⟨o', rfl, -⟩ : ∃ o', w' = .obj o' ∧ o'.map Prod.fst = o.map Prod.fst :=
        outline_eq_obj (Option.some.inj hlook).symm
      exact find_member_iff.mpr ⟨hname', o', hmi'⟩
    | _ => cases found
  | index text =>
    cases v with
    | arr es =>
      obtain ⟨es', rfl, hlen⟩ := outline_eq_arr hroot
      simpa only [Step.find, hlen] using found
    | _ => cases found
  | select condition =>
    cases v with
    | obj m =>
      obtain ⟨m', rfl, hnames⟩ := outline_eq_obj hroot
      refine findChild_looks (by simpa using congrArg List.length hnames) ?_ found
      intro j w w' hj hw hw'
      rw [Nat.zero_add] at hj
      refine ⟨?_, fun o l ho hl => ?_⟩
      · have hlook := hsame [j] (.child found hj)
        rw [sub_cons hw, sub_cons hw', sub_nil, sub_nil] at hlook
        exact (Option.some.inj hlook).symm
      · subst ho
        have hlook := hsame [j, l] (.compared found hj hw hl)
        have hbelow : sub (Json.obj m) [j, l] = sub (Json.obj o) [l] := sub_cons hw [l]
        have hbelow' : sub (Json.obj m') [j, l] = sub w' [l] := sub_cons hw' [l]
        rwa [hbelow, hbelow'] at hlook
    | _ => cases found
  | unclosed => cases found

/-- **The walk depends on what it looks at.** -/
theorem Leads.congr {v v' u : Json} {ss : List Step} {p : Position} (h : Leads v ss p u)
    (hsame : ∀ r, Looks v ss r → (sub v r).map outline = (sub v' r).map outline) :
    ∃ u', Leads v' ss p u' ∧ outline u' = outline u := by
  induction h generalizing v' with
  | nil v => exact ⟨v', .nil v', (Option.some.inj (hsame [] (.here v _))).symm⟩
  | @cons v w u s ss i p found child rest ih =>
    have hlook := hsame [i] (.along found child (.here w ss))
    rw [sub_singleton, sub_singleton] at hlook
    have hchild : (Branching.kids v)[i]? = some w := child
    rw [hchild, Option.map_some] at hlook
    obtain ⟨w', hw', -⟩ := Option.map_eq_some_iff.mp hlook.symm
    obtain ⟨u', hu', hout⟩ := @ih w' fun r hr => by
      have := hsame (i :: r) (.along found child hr)
      rwa [sub_cons hchild, sub_cons hw'] at this
    exact ⟨u', .cons (s.find_looks hsame found) hw' hu', hout⟩

/-- The walk comes by every position above the one it leads to. -/
theorem Leads.looks {v u : Json} {ss : List Step} {p q : Position} (h : Leads v ss p u)
    (hq : q <+: p) : Looks v ss q := by
  induction h generalizing q with
  | nil v =>
    obtain rfl := List.prefix_nil.mp hq
    exact .here _ _
  | cons found child _ ih =>
    cases q with
    | nil => exact .here _ _
    | cons j q =>
      obtain ⟨rfl, htail⟩ := List.cons_prefix_cons.mp hq
      exact .along found child (ih htail)

/-- A step that selects nothing. -/
def Step.Direct : Step → Prop
  | .select _ => False
  | _ => True

/-- Without a selection it looks at nothing else. -/
theorem Looks.of_direct {v u : Json} {ss : List Step} {p r : Position} (hlead : Leads v ss p u)
    (hdirect : ∀ s ∈ ss, s.Direct) (h : Looks v ss r) : r <+: p := by
  induction hlead generalizing r with
  | nil v =>
    cases h with
    | here => exact List.prefix_rfl
  | @cons v w u s ss i p found child rest ih =>
    cases h with
    | here => exact List.nil_prefix
    | along found' child' rest' =>
      obtain rfl := Option.some.inj (Except.ok.inj (found.symm.trans found'))
      obtain rfl := Option.some.inj (child.symm.trans child')
      exact List.cons_prefix_cons.mpr
        ⟨rfl, ih (fun s hs => hdirect s (List.mem_cons_of_mem _ hs)) rest'⟩
    | child | compared => exact absurd (hdirect _ List.mem_cons_self) id

/-- A path leads to one place. -/
theorem Leads.unique {v u u' : Json} {ss : List Step} {p p' : Position} (h : Leads v ss p u)
    (h' : Leads v ss p' u') : p = p' ∧ u = u' := by
  induction h generalizing p' with
  | nil v =>
    cases h'
    exact ⟨rfl, rfl⟩
  | cons found child _ ih =>
    cases h' with
    | cons found' child' rest' =>
      obtain rfl := Option.some.inj (Except.ok.inj (found.symm.trans found'))
      obtain rfl := Option.some.inj (child.symm.trans child')
      obtain ⟨rfl, rfl⟩ := ih rest'
      exact ⟨rfl, rfl⟩

theorem Leads.walk_eq {doc v : Json} {path : Str} {p : Position}
    (h : Leads doc (steps path) p v) : walk (some doc) path = .ok (some v) :=
  getPath_eq_ok_iff_walk.mp (getPath_eq_ok_iff.mpr h.addresses)

/-- The place that is found is the one that the path leads to. -/
theorem locate_iff_leads {doc : Json} {path : Str} {p : Position} :
    locate doc path = .ok (some p) ↔ ∃ v, Leads doc (steps path) p v := by
  rcases locate_eq doc path with ⟨q, w, hloc, hlead, -⟩ | ⟨hloc, hwalk⟩ | ⟨f, hloc, hwalk⟩
  · constructor
    · intro h
      obtain rfl := Option.some.inj (Except.ok.inj (hloc.symm.trans h))
      exact ⟨w, hlead⟩
    · rintro ⟨v, hv⟩
      obtain ⟨rfl, -⟩ := hlead.unique hv
      exact hloc
  · refine iff_of_false (by rw [hloc]; simp) ?_
    rintro ⟨v, hv⟩
    rw [hv.walk_eq] at hwalk
    cases hwalk
  · refine iff_of_false (by rw [hloc]; simp) ?_
    rintro ⟨v, hv⟩
    rw [hv.walk_eq] at hwalk
    cases hwalk

/-! ## Setting

What is set is a member of the object that the path leads to, and the documents before and after
agree everywhere else. -/

/-- Where `setPathInt` sets: the members with the name, in the object that the path leads to. -/
def Tunes (doc : Json) (path var : Str) : Set Position :=
  {r | ∃ p o i v, Leads doc (steps path) p (.obj o) ∧ o[i]? = some (var, v) ∧ r = p ++ [i]}

/-- What setting comes to, when it returns. -/
theorem setPathInt_eq_ok_iff {doc doc' : Json} {path var : Str} {n : Int} :
    setPathInt doc path var n = .ok doc' ↔
      ∃ p o, Leads doc (steps path) p (.obj o) ∧ doc' = put doc p (.obj (setMembers o var n)) := by
  constructor
  · intro h
    rcases locate_eq doc path with ⟨p, w, hloc, hlead, -⟩ | ⟨hloc, -⟩ | ⟨f, hloc, -⟩
    · rw [setPathInt_of_leads hloc hlead] at h
      cases w with
      | obj o => exact ⟨p, o, hlead, (Except.ok.inj h).symm⟩
      | _ => cases h
    · rw [setPathInt, hloc] at h
      cases h
    · rw [setPathInt, hloc] at h
      cases h
  · rintro ⟨p, o, hlead, rfl⟩
    rw [setPathInt_of_leads (locate_iff_leads.mpr ⟨_, hlead⟩) hlead]
    rfl

/-- Nothing else changes. -/
theorem agree_of_setPathInt {doc doc' : Json} {path var : Str} {n : Int}
    (h : setPathInt doc path var n = .ok doc') : AgreeOutside (Tunes doc path var) doc' doc := by
  obtain ⟨p, o, hlead, rfl⟩ := setPathInt_eq_ok_iff.mp h
  exact fun q hq =>
    top_sub_setMembers hlead.sub_eq n fun i v hi => hq _ ⟨p, o, i, v, hlead, hi, rfl⟩

/-- What was set is the number. -/
theorem sub_of_setPathInt {doc doc' : Json} {path var : Str} {n : Int}
    (h : setPathInt doc path var n = .ok doc') {r : Position} (hr : r ∈ Tunes doc path var) :
    sub doc' r = some (.int n) := by
  obtain ⟨p, o, hlead, rfl⟩ := setPathInt_eq_ok_iff.mp h
  obtain ⟨p', o', i, v, hlead', hi, rfl⟩ := hr
  obtain ⟨rfl, ho⟩ := hlead.unique hlead'
  obtain rfl := Json.obj.inj ho
  rw [sub_put_below hlead.sub_eq, sub_obj, setMembers, List.getElem?_map, hi]
  simp

/-- Nothing that is set lies at or above what the other path looks at. -/
def Spares (doc : Json) (path var path' : Str) : Prop :=
  ∀ q, Looks doc (steps path') q → Clear (Tunes doc path var) q

/-- A path that is spared leads to the same place afterwards. -/
theorem Leads.of_spares {doc doc' u : Json} {path var path' : Str} {n : Int} {p : Position}
    (hset : setPathInt doc path var n = .ok doc') (h : Leads doc (steps path') p u)
    (hspares : Spares doc path var path') :
    ∃ u', Leads doc' (steps path') p u' ∧ outline u' = outline u :=
  h.congr fun r hr => ((agree_of_setPathInt hset) r (hspares r hr)).symm

/-- A path that an object was read by before a member was set somewhere leads to an object that
stood there then. -/
theorem Leads.before {doc doc' : Json} {path var path' : Str} {n : Int} {p : Position} {o : Object}
    (hset : setPathInt doc path var n = .ok doc') (h : Leads doc' (steps path') p (.obj o))
    (hdirect : ∀ s ∈ steps path', s.Direct) :
    Clear (Tunes doc path var) p ∧
      ∃ o', Leads doc (steps path') p (.obj o') ∧ o'.map Prod.fst = o.map Prod.fst := by
  -- an object does not stand where a number was set, nor below it
  have hclear : Clear (Tunes doc path var) p := by
    rintro r hr ⟨q, rfl⟩
    have hsub := h.sub_eq
    rw [sub_append, sub_of_setPathInt hset hr, Option.bind_some] at hsub
    cases q with
    | nil => cases hsub
    | cons i q => cases hsub
  obtain ⟨u, hu, hout⟩ := h.congr fun r hr =>
    (agree_of_setPathInt hset) r (hclear.above (hr.of_direct h hdirect))
  obtain ⟨o', rfl, hnames⟩ := outline_eq_obj hout
  exact ⟨hclear, o', hu, hnames⟩

/-! ## Reading back

A setting holds when reading its path finds the number. It still holds after another setting that
does not touch what it looks at. -/

/-- The member of the object that the path leads to is this number. -/
def Holds (doc : Json) (path var : Str) (n : Int) : Prop :=
  ∃ o, getPath doc path = .ok (.obj o) ∧ JsonObject.get o var = .int n

/-- Reading returns the value at the place that the path leads to. -/
theorem getPath_iff_leads {doc v : Json} {path : Str} :
    getPath doc path = .ok v ↔ ∃ p, Leads doc (steps path) p v := by
  constructor
  · intro h
    rcases locate_eq doc path with ⟨p, w, -, hlead, hwalk⟩ | ⟨-, hwalk⟩ | ⟨f, -, hwalk⟩
    · rw [getPath, hwalk] at h
      obtain rfl : w = v := Except.ok.inj h
      exact ⟨p, hlead⟩
    · rw [getPath, hwalk] at h
      cases h
    · rw [getPath, hwalk] at h
      cases h
  · rintro ⟨p, hlead⟩
    exact getPath_eq_ok_iff.mpr hlead.addresses

/-- Where the first member with the name is, it reads what stands there. -/
theorem holds_iff_sub {doc : Json} {path var : Str} {p : Position} {o : Object} {i : Nat} {n : Int}
    (hlead : Leads doc (steps path) p (.obj o)) (hi : findName o var = some i) :
    Holds doc path var n ↔ sub doc (p ++ [i]) = some (.int n) := by
  have hsub : sub doc (p ++ [i]) = (o[i]?).map Prod.snd := by
    rw [sub_append, hlead.sub_eq, Option.bind_some, sub_obj]
  have hget : Holds doc path var n ↔ JsonObject.get o var = .int n := by
    constructor
    · rintro ⟨o', ho', hget⟩
      obtain ⟨p', hlead'⟩ := getPath_iff_leads.mp ho'
      obtain ⟨-, ho⟩ := hlead.unique hlead'
      obtain rfl := Json.obj.inj ho
      exact hget
    · exact fun hget => ⟨o, getPath_iff_leads.mpr ⟨p, hlead⟩, hget⟩
  obtain ⟨v, hoi, hv⟩ := exists_of_findName hi
  rw [hget, hsub, hoi, ← getD_get, hv]
  simp

/-- A name that is there is found, though perhaps at an earlier member. -/
theorem findName_of_mem {o : Object} {var : Str} {i : Nat} {v : Json}
    (h : o[i]? = some (var, v)) : ∃ k w, findName o var = some k ∧ o[k]? = some (var, w) := by
  rcases findName_cases o var with ⟨hnone, -⟩ | ⟨k, w, hk, how, -⟩
  · rw [findName, List.findIdx?_eq_none_iff] at hnone
    exact absurd (hnone _ (List.mem_of_getElem? h)) (by simp)
  · exact ⟨k, w, hk, how⟩

/-- What is set is read back, if its own path is spared. -/
theorem holds_of_set {doc doc' : Json} {path var : Str} {n : Int}
    (hset : setPathInt doc path var n = .ok doc') (hmember : (Tunes doc path var).Nonempty)
    (hspares : Spares doc path var path) : Holds doc' path var n := by
  obtain ⟨r, p, o, i, v, hlead, hoi, rfl⟩ := hmember
  obtain ⟨k, w, hk, hok⟩ := findName_of_mem hoi
  obtain ⟨u, hlead', hout⟩ := hlead.of_spares hset hspares
  obtain ⟨o', rfl, hnames⟩ := outline_eq_obj hout
  rw [holds_iff_sub hlead' ((findName_congr hnames var).trans hk)]
  exact sub_of_setPathInt hset ⟨p, o, k, w, hlead, hok, rfl⟩

/-- What another path reads stays, if the path is spared and the member is not set again. -/
theorem Holds.of_set {doc doc' : Json} {path var path' var' : Str} {n n' : Int}
    (hset : setPathInt doc path var n = .ok doc') (h : Holds doc path' var' n')
    (hspares : Spares doc path var path')
    (hother : ∀ r ∈ Tunes doc path var, r ∉ Tunes doc path' var') : Holds doc' path' var' n' := by
  have hold := h
  obtain ⟨o, ho, hget⟩ := h
  obtain ⟨p, hlead⟩ := getPath_iff_leads.mp ho
  obtain ⟨k, hk, hok⟩ := findName_of_get (get_eq_some hget Json.noConfusion)
  obtain ⟨u, hlead', hout⟩ := hlead.of_spares hset hspares
  obtain ⟨o', rfl, hnames⟩ := outline_eq_obj hout
  rw [holds_iff_sub hlead' ((findName_congr hnames var').trans hk)]
  rw [holds_iff_sub hlead hk] at hold
  have hclear : Clear (Tunes doc path var) (p ++ [k]) := by
    intro r hr hrp
    rcases List.prefix_concat_iff.mp hrp with rfl | hrp
    · exact hother _ hr ⟨p, o, k, _, hlead, hok, rfl⟩
    · exact hspares p (hlead.looks List.prefix_rfl) r hr hrp
  have hsame := agree_of_setPathInt hset _ hclear
  rw [hold, Option.map_some] at hsame
  obtain ⟨x, hx, hout⟩ := Option.map_eq_some_iff.mp hsame
  rcases eq_of_outline_scalar hout with rfl | ⟨_, _, -, h⟩ | ⟨_, _, -, h⟩
  · exact hx
  · cases h
  · cases h

end JsonPath

end Skweltch
