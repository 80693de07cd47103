import Mathlib.Tactic

/-!
# Bucketed bit vectors

A set of naturals kept as a growable list of fixed-size bit sets: bit `k` lives in bucket
`k / w` at index `k % w`. `test` reads a bit, `put` sets one, `grow` appends empty buckets, and
`count` is the population count of one bucket. A vector `Represents` a set when its bits are the
members of the set.
-/

namespace Buckets

variable {w : Nat}

def bucket (bs : List (BitVec w)) (b : Nat) : BitVec w :=
  bs.getD b 0#w

def test (bs : List (BitVec w)) (k : Nat) : Bool :=
  (bucket bs (k / w)).getLsbD (k % w)

def put (bs : List (BitVec w)) (b i : Nat) : List (BitVec w) :=
  bs.modify b (· ||| BitVec.twoPow w i)

def grow (bs : List (BitVec w)) (k : Nat) : List (BitVec w) :=
  bs ++ List.replicate k 0#w

def count (b : BitVec w) : Nat :=
  (List.range w).countP b.getLsbD

@[simp] theorem length_put (bs : List (BitVec w)) (b i : Nat) :
    (put bs b i).length = bs.length := by
  simp [put]

@[simp] theorem length_grow (bs : List (BitVec w)) (k : Nat) :
    (grow bs k).length = bs.length + k := by
  simp [grow]

@[simp] theorem test_nil (k : Nat) : test ([] : List (BitVec w)) k = false := by
  simp [test, bucket]

/-- New buckets are empty. -/
@[simp] theorem test_grow (bs : List (BitVec w)) (m k : Nat) :
    test (grow bs m) k = test bs k := by
  unfold test bucket grow
  rw [List.getD_eq_getElem?_getD, List.getD_eq_getElem?_getD]
  by_cases hlt : k / w < bs.length
  · rw [List.getElem?_append_left hlt]
  · rw [List.getElem?_append_right (by omega), List.getElem?_replicate,
      List.getElem?_eq_none (by omega : bs.length ≤ k / w)]
    split <;> rfl

/-- Exactly one bit is set, in a bucket that is there. -/
theorem test_put {bs : List (BitVec w)} {n : Nat} (hw : 0 < w) (hn : n / w < bs.length)
    (k : Nat) : test (put bs (n / w) (n % w)) k = (decide (k = n) || test bs k) := by
  have hidx : n % w < w := Nat.mod_lt n hw
  unfold test bucket put
  rw [List.getD_eq_getElem?_getD, List.getD_eq_getElem?_getD, List.getElem?_modify]
  by_cases hb : n / w = k / w
  · have hlt : k / w < bs.length := by omega
    rw [List.getElem?_eq_getElem hlt]
    have hkn : n % w = k % w ↔ k = n := by
      constructor
      · intro hmod
        rw [← Nat.div_add_mod k w, ← Nat.div_add_mod n w, hb, hmod]
      · intro heq; rw [heq]
    simp only [hb, if_true, Option.map_eq_map, Option.map_some, Option.getD_some,
      BitVec.getLsbD_or, BitVec.getLsbD_twoPow, hidx, decide_true, Bool.true_and]
    rw [Bool.or_comm, decide_eq_decide.mpr hkn]
  · have hne : k ≠ n := by intro heq; rw [heq] at hb; exact hb rfl
    simp [hb, hne]

/-- A bucket is full when every one of its bits is set. -/
theorem count_eq_iff (b : BitVec w) : count b = w ↔ ∀ i < w, b.getLsbD i = true := by
  unfold count
  conv_lhs => rhs; rw [← List.length_range (n := w)]
  rw [List.countP_eq_length]
  simp [List.mem_range]

/-- `bs` holds exactly the members of `S`. -/
def Represents (bs : List (BitVec w)) (S : Nat → Prop) : Prop :=
  ∀ k, test bs k = true ↔ S k

theorem represents_nil : Represents ([] : List (BitVec w)) (fun _ => False) := by
  intro k; simp

theorem Represents.grow {bs : List (BitVec w)} {S : Nat → Prop} (h : Represents bs S) (m : Nat) :
    Represents (grow bs m) S := by
  intro k; rw [test_grow]; exact h k

theorem Represents.put {bs : List (BitVec w)} {S : Nat → Prop} (h : Represents bs S)
    (hw : 0 < w) {n : Nat} (hn : n / w < bs.length) :
    Represents (put bs (n / w) (n % w)) (fun k => k = n ∨ S k) := by
  intro k
  rw [test_put hw hn, Bool.or_eq_true, decide_eq_true_iff, h k]

/-- All buckets below the last are full and the first `i + 1` bits of the last are set exactly
when every bit up to `(length - 1) * w + i` is set. -/
theorem full_prefix_iff {bs : List (BitVec w)} (hw : 0 < w) {i : Nat}
    (hi : i < w) :
    ((∀ b < bs.length - 1, count (bucket bs b) = w) ∧
        ∀ j ≤ i, (bucket bs (bs.length - 1)).getLsbD j = true) ↔
      ∀ k ≤ (bs.length - 1) * w + i, test bs k = true := by
  set m := bs.length - 1 with hm
  constructor
  -- a bit is in a bucket that is full, or in the last one
  · rintro ⟨hlow, hlast⟩ k hk
    unfold test
    rcases Nat.lt_or_ge (k / w) m with hlt | hge
    · exact (count_eq_iff _).mp (hlow _ hlt) _ (Nat.mod_lt k hw)
    · have hdiv := Nat.div_add_mod k w
      have hmul : m * w ≤ w * (k / w) := by rw [Nat.mul_comm]; exact Nat.mul_le_mul_left w hge
      have heq : k / w = m := by
        refine Nat.le_antisymm ?_ hge
        refine Nat.lt_succ_iff.mp (Nat.div_lt_of_lt_mul ?_)
        rw [Nat.mul_succ, Nat.mul_comm w m]; omega
      rw [heq]
      refine hlast _ ?_
      rw [heq, Nat.mul_comm] at hdiv; omega
  · intro hall
    constructor
    · intro b hb
      refine (count_eq_iff _).mpr fun j hj => ?_
      have hk : b * w + j ≤ m * w + i := by
        have : (b + 1) * w ≤ m * w := Nat.mul_le_mul_right w hb
        rw [Nat.succ_mul] at this; omega
      have := hall _ hk
      unfold test at this
      rwa [Nat.mul_comm, Nat.mul_add_div hw, Nat.div_eq_of_lt hj, Nat.add_zero,
        Nat.mul_add_mod, Nat.mod_eq_of_lt hj] at this
    · intro j hj
      have := hall (m * w + j) (by omega)
      unfold test at this
      have hjw : j < w := by omega
      rwa [Nat.mul_comm, Nat.mul_add_div hw, Nat.div_eq_of_lt hjw, Nat.add_zero,
        Nat.mul_add_mod, Nat.mod_eq_of_lt hjw] at this

end Buckets
