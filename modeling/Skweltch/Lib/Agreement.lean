import Skweltch.Lib.Subtrees

/-!
# Agreement — trees that differ below some positions only

Two trees agree outside a set of positions if at every position that is not at or below one of
these their nodes are the same. A replacement at a position agrees with what it replaces outside
that position, and where there is nothing outside of which to agree two trees are equal
(`AgreeOutside.eq`).
-/

namespace Subtrees

open Branching

variable {τ κ : Type} [Branching τ κ] {T T' : Set Position} {t t' t'' : τ}

/-- No position of the set is at or above this one. -/
def Clear (T : Set Position) (q : Position) : Prop := ∀ r ∈ T, ¬ r <+: q

theorem Clear.above {p q : Position} (h : Clear T q) (hpq : p <+: q) : Clear T p :=
  fun r hr hrp => h r hr (hrp.trans hpq)

def AgreeOutside (T : Set Position) (t t' : τ) : Prop :=
  ∀ q, Clear T q → (sub t q).map top = (sub t' q).map top

theorem AgreeOutside.refl (T : Set Position) (t : τ) : AgreeOutside T t t := fun _ _ => rfl

theorem AgreeOutside.symm (h : AgreeOutside T t t') : AgreeOutside T t' t :=
  fun q hq => (h q hq).symm

theorem AgreeOutside.trans (h : AgreeOutside T t t') (h' : AgreeOutside T t' t'') :
    AgreeOutside T t t'' :=
  fun q hq => (h q hq).trans (h' q hq)

theorem AgreeOutside.mono (h : AgreeOutside T t t') (hT : T ⊆ T') : AgreeOutside T' t t' :=
  fun q hq => h q fun r hr => hq r (hT hr)

/-- One more position does not matter if the trees are the same there. -/
theorem AgreeOutside.diff {S : Set Position} (h : AgreeOutside T t t')
    (hsame : ∀ r ∈ S, ∀ q, (sub t (r ++ q)).map top = (sub t' (r ++ q)).map top) :
    AgreeOutside (T \ S) t t' := by
  intro q hq
  by_cases hS : ∃ r ∈ S, r <+: q
  · obtain ⟨r, hr, q, rfl⟩ := hS
    exact hsame r hr q
  · refine h q fun r hr hrq => ?_
    exact hq r ⟨hr, fun hrS => hS ⟨r, hrS, hrq⟩⟩ hrq

/-- **Extensionality.** A tree is the nodes at its positions, if its children are smaller than it
and it is what its node and its children are. -/
theorem AgreeOutside.eq (size : τ → Nat) (hsize : ∀ t : τ, ∀ c ∈ kids t, size c < size t)
    (hnode : ∀ t t' : τ, top t = top t' → kids t = kids t' → t = t')
    (h : AgreeOutside ∅ t t') : t = t' := by
  have htops : ∀ q, (sub t q).map top = (sub t' q).map top := fun q => h q fun r hr => hr.elim
  clear h
  induction hn : size t using Nat.strong_induction_on generalizing t t' with
  | _ n ih =>
    refine hnode t t' (Option.some.inj (htops [])) (List.ext_getElem? fun i => ?_)
    have hchild := htops [i]
    rw [sub_singleton, sub_singleton] at hchild
    cases hc : (kids t)[i]? with
    | none =>
      rw [hc, Option.map_none] at hchild
      exact (Option.map_eq_none_iff.mp hchild.symm).symm
    | some c =>
      rw [hc, Option.map_some] at hchild
      obtain ⟨c', hc', -⟩ := Option.map_eq_some_iff.mp hchild.symm
      have hbelow : ∀ q, (sub c q).map top = (sub c' q).map top := by
        intro q
        rw [← sub_cons hc, ← sub_cons hc']
        exact htops (i :: q)
      have hlt : size c < n := hn ▸ hsize t c (List.mem_of_getElem? hc)
      rw [hc', ih (size c) hlt hbelow rfl]

end Subtrees
