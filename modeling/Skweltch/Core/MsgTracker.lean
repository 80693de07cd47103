import Skweltch.Lib.Buckets
import Skweltch.Lib.FixedWidth

/-!
# Skweltch — the message tracker

`MsgTracker` (`core/MsgTracker.cpp`) decides when a sink has seen a whole batch. It keeps the id
of the first message, the id of the last message (both `-1` while unknown) and one bit for each
message received, in buckets of `SIZE` bits counted from the first id.

The definitions below are the C++ member functions with their `int` and `size_t` arithmetic:
`n - first` is an `int`, and dividing it by the `size_t` constant `SIZE` converts it first, so a
negative difference becomes a huge bucket number. `track` is `none` where the C++ writes outside
`bits`.

The second half states what the tracker is for. `Open t f S` says that `t` has its first id `f`
and that the offsets received so far are `S`; each operation has one lemma saying what it does to
that view, and `Open.complete_iff` is the decision `complete` takes.
-/

namespace Skweltch

open FixedWidth

/-- Bits in one bucket (`MsgTracker::SIZE`). -/
abbrev SIZE : Nat := 1000

theorem SIZE_pos : 0 < SIZE := Nat.succ_pos _

structure MsgTracker where
  first : Int
  last : Int
  bits : List (BitVec SIZE)
deriving DecidableEq, Repr

namespace MsgTracker

def init : MsgTracker := { first := -1, last := -1, bits := [] }

def grow (t : MsgTracker) (n : Int) : MsgTracker :=
  -- `n - bits.size()` is computed in `size_t` and narrowed back to `int`
  let k := int32 (n - t.bits.length)
  if k > 0 then { t with bits := Buckets.grow t.bits k.toNat } else t

/-- The bucket that `(n - first) / SIZE` names. -/
def bucketOf (t : MsgTracker) (n : Int) : Int :=
  int32 (size64 (int32 (n - t.first)) / SIZE : Nat)

/-- The index that `(n - first) % SIZE` names. -/
def indexOf (t : MsgTracker) (n : Int) : Nat :=
  size64 (int32 (n - t.first)) % SIZE

/-- `bits[bkt][idx] = true`, where `bkt` is converted to an unsigned index and not checked. -/
def setBit (t : MsgTracker) (bkt : Int) (idx : Nat) : Option MsgTracker :=
  if size64 bkt < t.bits.length then
    some { t with bits := Buckets.put t.bits (size64 bkt) idx }
  else none

def track (t : MsgTracker) (n : Int) : Option MsgTracker :=
  let bkt := t.bucketOf n
  let idx := t.indexOf n
  (t.grow (int32 (bkt + 1))).setBit bkt idx

def reset (_ : MsgTracker) : MsgTracker := init

def setFirst (t : MsgTracker) (f : Int) : MsgTracker := { t with first := f }

def setLast (t : MsgTracker) (l : Int) : MsgTracker :=
  let t := { t with last := l }
  t.grow (int32 (t.bucketOf l + 1))

def complete (t : MsgTracker) : Bool :=
  if t.first = -1 ∧ t.last = -1 then true
  else if t.first = -1 then false
  else if t.last = -1 then false
  else if t.bits.length = 0 then true
  else
    (List.range (t.bits.length - 1)).all (fun i => Buckets.count (Buckets.bucket t.bits i) = SIZE) &&
    (List.range (t.indexOf t.last + 1)).all
      (fun i => (Buckets.bucket t.bits (t.bits.length - 1)).getLsbD i)

/-! ## What each operation leaves alone

The tracker's fields change one at a time, except that tracking an id and setting the last one may
grow it. -/

@[simp] theorem grow_first (t : MsgTracker) (n : Int) : (t.grow n).first = t.first := by
  unfold grow; dsimp only; split <;> rfl

@[simp] theorem grow_last (t : MsgTracker) (n : Int) : (t.grow n).last = t.last := by
  unfold grow; dsimp only; split <;> rfl

@[simp] theorem setFirst_first (t : MsgTracker) (f : Int) : (t.setFirst f).first = f := rfl

@[simp] theorem setFirst_last (t : MsgTracker) (f : Int) : (t.setFirst f).last = t.last := rfl

@[simp] theorem setFirst_bits (t : MsgTracker) (f : Int) : (t.setFirst f).bits = t.bits := rfl

@[simp] theorem setLast_first (t : MsgTracker) (l : Int) : (t.setLast l).first = t.first := by
  simp [setLast]

@[simp] theorem setLast_last (t : MsgTracker) (l : Int) : (t.setLast l).last = l := by
  simp [setLast]

theorem setBit_ends {t t' : MsgTracker} {b : Int} {i : Nat} (h : t.setBit b i = some t') :
    t'.first = t.first ∧ t'.last = t.last := by
  unfold setBit at h
  split at h
  · cases h; exact ⟨rfl, rfl⟩
  · exact absurd h (by simp)

theorem track_first {t t' : MsgTracker} {n : Int} (h : t.track n = some t') :
    t'.first = t.first := by
  rw [(setBit_ends h).1, grow_first]

theorem track_last {t t' : MsgTracker} {n : Int} (h : t.track n = some t') :
    t'.last = t.last := by
  rw [(setBit_ends h).2, grow_last]

/-- The tracker counts as complete while neither sentinel has been replaced. -/
theorem complete_of_unset {t : MsgTracker} (hf : t.first = -1) (hl : t.last = -1) :
    t.complete = true := by
  simp [complete, hf, hl]

theorem not_complete_of_last_unset {t : MsgTracker} (hf : t.first ≠ -1) (hl : t.last = -1) :
    t.complete = false := by
  simp [complete, hf, hl]

theorem not_complete_of_first_unset {t : MsgTracker} (hf : t.first = -1) (hl : t.last ≠ -1) :
    t.complete = false := by
  simp [complete, hf, hl]

/-! ## Growing

Buckets are added at the end until there are as many as asked for; none is taken away. -/

/-- No tracker of `int` ids needs more buckets than this. -/
def maxBuckets : Nat := 2147484

/-- As long as the buckets can be counted, growing is that of the library. -/
theorem grow_bits {t : MsgTracker} {m : Nat} (ht : t.bits.length ≤ maxBuckets)
    (hm : m ≤ maxBuckets) :
    (t.grow m).bits = Buckets.grow t.bits (m - t.bits.length) := by
  unfold maxBuckets at ht hm
  have hk : int32 ((m : Int) - t.bits.length) = (m : Int) - t.bits.length :=
    int32_of_isInt ⟨by omega, by omega⟩
  unfold grow
  rw [hk]
  dsimp only
  split
  · rw [show ((m : Int) - t.bits.length).toNat = m - t.bits.length from by omega]
  · rw [show m - t.bits.length = 0 from by omega]
    simp [Buckets.grow]

theorem grow_length {t : MsgTracker} {m : Nat} (ht : t.bits.length ≤ maxBuckets)
    (hm : m ≤ maxBuckets) : (t.grow m).bits.length = max t.bits.length m := by
  rw [grow_bits ht hm, Buckets.length_grow]; omega

/-! ## The tracker as a set of received offsets

Behind the bits there is a set of offsets from the first id. Each operation is described by what it
does to the set. -/

/-- `t` knows its first id `f` and has received the ids `f + k` for the offsets `k` in `S`. -/
structure Open (t : MsgTracker) (f : Int) (S : Nat → Prop) : Prop where
  first : t.first = f
  nonneg : 0 ≤ f
  isInt : f ≤ 2147483647
  small : t.bits.length ≤ maxBuckets
  bits : Buckets.Represents t.bits S

theorem Open.first_ne {t : MsgTracker} {f : Int} {S : Nat → Prop} (h : t.Open f S) :
    t.first ≠ -1 := by
  have := h.first; have := h.nonneg; omega

/-- An empty tracker that is told the first id is one of a batch in which nothing was received. -/
theorem open_setFirst {t : MsgTracker} {f : Int} (hb : t.bits = []) (h0 : 0 ≤ f)
    (hf : f ≤ 2147483647) : (t.setFirst f).Open f (fun _ => False) where
  first := rfl
  nonneg := h0
  isInt := hf
  small := by simp [hb]
  bits := by simpa [hb] using Buckets.represents_nil

section Offsets

variable {t : MsgTracker} {f n : Int} {S : Nat → Prop}

theorem Open.size64_offset (h : t.Open f S) (hn : f ≤ n) (hi : n ≤ 2147483647) :
    size64 (int32 (n - t.first)) = (n - f).toNat := by
  have := h.nonneg
  rw [h.first, int32_of_nonneg (by omega) (by omega), size64_of_nonneg (by omega) (by omega)]

theorem Open.indexOf_eq (h : t.Open f S) (hn : f ≤ n) (hi : n ≤ 2147483647) :
    t.indexOf n = (n - f).toNat % SIZE := by
  unfold indexOf
  rw [h.size64_offset hn hi]

theorem Open.offset_bucket_lt (h : t.Open f S) (hi : n ≤ 2147483647) :
    (n - f).toNat / SIZE + 1 ≤ maxBuckets := by
  have := h.nonneg
  unfold maxBuckets SIZE
  omega

theorem Open.bucketOf_eq (h : t.Open f S) (hn : f ≤ n) (hi : n ≤ 2147483647) :
    t.bucketOf n = ((n - f).toNat / SIZE : Nat) := by
  have hlt := h.offset_bucket_lt hi
  unfold maxBuckets at hlt
  unfold bucketOf
  rw [h.size64_offset hn hi]
  generalize (n - f).toNat / SIZE = b at hlt ⊢
  exact int32_of_nonneg (by omega) (by omega)

-- `track` and `setLast` both grow to exactly as many buckets as the id needs
/-- The sum that the code grows by does not overflow. -/
theorem Open.grow_offset (h : t.Open f S) (hn : f ≤ n) (hi : n ≤ 2147483647) :
    t.grow (int32 (t.bucketOf n + 1)) = t.grow (((n - f).toNat / SIZE + 1 : Nat) : Int) := by
  have hlt := h.offset_bucket_lt hi
  unfold maxBuckets at hlt
  rw [h.bucketOf_eq hn hi]
  generalize (n - f).toNat / SIZE = b at hlt ⊢
  exact congrArg t.grow (int32_of_nonneg (by omega) (by omega))

end Offsets

theorem Open.grow {t : MsgTracker} {f : Int} {S : Nat → Prop} (h : t.Open f S) {m : Nat}
    (hm : m ≤ maxBuckets) : (t.grow m).Open f S where
  first := by simpa using h.first
  nonneg := h.nonneg
  isInt := h.isInt
  small := by rw [grow_length h.small hm]; exact Nat.max_le.mpr ⟨h.small, hm⟩
  bits := by rw [grow_bits h.small hm]; exact h.bits.grow _

/-- Setting a bit receives the offset that it stands for, and no other. -/
theorem Open.setBit {t : MsgTracker} {f : Int} {S : Nat → Prop} (h : t.Open f S) {bkt : Int}
    {k : Nat} (hb : size64 bkt = k / SIZE) (hk : k / SIZE < t.bits.length) :
    ∃ t', t.setBit bkt (k % SIZE) = some t' ∧ t'.Open f (fun j => j = k ∨ S j) ∧
      t'.last = t.last ∧ t'.bits.length = t.bits.length := by
  have hlen := Buckets.length_put t.bits (k / SIZE) (k % SIZE)
  refine ⟨{ t with bits := Buckets.put t.bits (k / SIZE) (k % SIZE) }, ?_,
    ⟨h.first, h.nonneg, h.isInt, ?_, h.bits.put SIZE_pos hk⟩, rfl, hlen⟩
  · unfold MsgTracker.setBit
    rw [hb, if_pos hk]
  · exact hlen.trans_le h.small

/-- Tracking an id receives its offset, and grows as far as its bucket. -/
theorem Open.track {t : MsgTracker} {f n : Int} {S : Nat → Prop} (h : t.Open f S) (hn : f ≤ n)
    (hi : n ≤ 2147483647) :
    ∃ t', t.track n = some t' ∧ t'.Open f (fun j => j = (n - f).toNat ∨ S j) ∧
      t'.last = t.last ∧
      t'.bits.length = max t.bits.length ((n - f).toNat / SIZE + 1) := by
  have hlt := h.offset_bucket_lt hi
  have hbkt : size64 (t.bucketOf n) = (n - f).toNat / SIZE := by
    rw [h.bucketOf_eq hn hi]
    unfold maxBuckets at hlt
    generalize (n - f).toNat / SIZE = b at hlt ⊢
    rw [size64_of_nonneg (by omega) (by omega), Int.toNat_natCast]
  have hlen := grow_length h.small hlt
  have hmem : (n - f).toNat / SIZE < (t.grow (((n - f).toNat / SIZE + 1 : Nat) : Int)).bits.length := by
    rw [hlen]; exact Nat.lt_of_lt_of_le (Nat.lt_succ_self _) (Nat.le_max_right _ _)
  obtain ⟨t', ht', hopen, hlast, hlen'⟩ := (h.grow hlt).setBit hbkt hmem
  refine ⟨t', ?_, hopen, hlast.trans (grow_last t _), hlen'.trans hlen⟩
  rw [MsgTracker.track, h.grow_offset hn hi, h.indexOf_eq hn hi]
  exact ht'

/-- Setting the last id leaves what was received, and grows as far as the bucket of that id. -/
theorem Open.setLast {t : MsgTracker} {f l : Int} {S : Nat → Prop} (h : t.Open f S) (hl : f ≤ l)
    (hi : l ≤ 2147483647) :
    (t.setLast l).Open f S ∧
      (t.setLast l).bits.length = max t.bits.length ((l - f).toNat / SIZE + 1) := by
  have h' : ({ t with last := l } : MsgTracker).Open f S :=
    ⟨h.first, h.nonneg, h.isInt, h.small, h.bits⟩
  have hlt := h'.offset_bucket_lt hi
  unfold MsgTracker.setLast
  dsimp only
  rw [h'.grow_offset hl hi]
  exact ⟨h'.grow hlt, grow_length h'.small hlt⟩

/-- **The decision.** With both ends known, `complete` looks at every bit up to the position of
`last` in the highest bucket. -/
theorem Open.complete_iff {t : MsgTracker} {f l : Int} {S : Nat → Prop} (h : t.Open f S)
    (hl : t.last = l) (hfl : f ≤ l) (hi : l ≤ 2147483647) (hne : 0 < t.bits.length) :
    t.complete = true ↔
      ∀ k ≤ (t.bits.length - 1) * SIZE + (l - f).toNat % SIZE, S k := by
  have hlast : t.last ≠ -1 := by have := h.nonneg; omega
  have hidx : (l - f).toNat % SIZE < SIZE := Nat.mod_lt _ (by decide)
  have hbits := @Buckets.full_prefix_iff _ t.bits (by decide) _ hidx
  simp only [h.bits _] at hbits
  rw [← hbits]
  unfold complete
  rw [if_neg (fun hc => h.first_ne hc.1), if_neg h.first_ne, if_neg hlast,
    if_neg (Nat.pos_iff_ne_zero.mp hne), hl, h.indexOf_eq hfl hi]
  simp [List.all_eq_true]

/-- When the buckets are exactly those the batch needs, `complete` means every id was received. -/
theorem Open.complete_iff_all {t : MsgTracker} {f l : Int} {S : Nat → Prop} (h : t.Open f S)
    (hl : t.last = l) (hfl : f ≤ l) (hi : l ≤ 2147483647)
    (hlen : t.bits.length = (l - f).toNat / SIZE + 1) :
    t.complete = true ↔ ∀ k ≤ (l - f).toNat, S k := by
  have hpos : 0 < t.bits.length := by rw [hlen]; exact Nat.succ_pos _
  rw [h.complete_iff hl hfl hi hpos, hlen, Nat.add_sub_cancel, Nat.mul_comm, Nat.div_add_mod]

end MsgTracker

end Skweltch
