import Skweltch.Core.MsgTracker

/-!
# Skweltch — runs of the message tracker

What a `MsgTracker` (`core/MsgTracker.cpp`) has after any sequence of operations. A tracker that is
opened with the first id of a batch decides whether the batch is complete (`decides_complete`), also
when ids beyond the last one have made it grow. An id before the first one is another matter: its
offset is negative, becomes a huge number when it is divided by a `size_t`, and comes back as a
bucket number above a thousand million (`track_grows_iff`).
-/

namespace Skweltch

open FixedWidth

inductive TrackerOp where
  | setFirst (f : Int)
  | setLast (l : Int)
  | track (n : Int)
  | reset
deriving DecidableEq, Repr

namespace MsgTracker

def apply (t : MsgTracker) : TrackerOp → Option MsgTracker
  | .setFirst f => some (t.setFirst f)
  | .setLast l => some (t.setLast l)
  | .track n => t.track n
  | .reset => some t.reset

/-- The operations in order, unless one writes outside the buckets. -/
def runOps (t : MsgTracker) (ops : List TrackerOp) : Option MsgTracker := ops.foldlM apply t

theorem runOps_snoc {t t' : MsgTracker} {ops : List TrackerOp} (h : t.runOps ops = some t')
    (op : TrackerOp) : t.runOps (ops ++ [op]) = t'.apply op := by
  have h' : List.foldlM apply t ops = some t' := h
  rw [runOps, List.foldlM_append, h']
  simp [bind, pure]

/-! ## A batch

The operations of a batch in any order: the tracker holds what was tracked, and is complete when all
of it was. -/

/-- What can happen to a tracker between its `setFirst f` and its next reset. -/
def InBatch (f l : Int) (op : TrackerOp) : Prop :=
  op = .setLast l ∨ ∃ n, op = .track n ∧ f ≤ n ∧ n ≤ 2147483647

/-- The tracker after `setFirst f` and the operations of a batch. -/
structure Batched (f l : Int) (ops : List TrackerOp) (t : MsgTracker) : Prop where
  opened : t.Open f fun k => .track (f + k) ∈ ops
  last : t.last = if .setLast l ∈ ops then l else -1
  long : .setLast l ∈ ops → (l - f).toNat / SIZE + 1 ≤ t.bits.length
  short : (∀ n, .track n ∈ ops → n ≤ l) → t.bits.length ≤ (l - f).toNat / SIZE + 1

theorem Open.congr {t : MsgTracker} {f : Int} {S S' : Nat → Prop} (h : t.Open f S)
    (hS : ∀ k, S k ↔ S' k) : t.Open f S' :=
  ⟨h.first, h.nonneg, h.isInt, h.small, fun k => (h.bits k).trans (hS k)⟩

section Batches

variable {f l : Int} {ops : List TrackerOp} {t : MsgTracker}

theorem batched_setFirst (h0 : 0 ≤ f) (hf : f ≤ 2147483647) :
    Batched f l [] (init.setFirst f) where
  opened := (open_setFirst rfl h0 hf).congr fun k => by simp
  last := by simp [init]
  long := fun h => absurd h List.not_mem_nil
  short := fun _ => Nat.zero_le _

theorem Batched.setLast (h : Batched f l ops t) (hl : f ≤ l) (hi : l ≤ 2147483647) :
    Batched f l (ops ++ [.setLast l]) (t.setLast l) := by
  obtain ⟨hopen, hlen⟩ := h.opened.setLast hl hi
  refine ⟨hopen.congr fun k => by simp, by simp, fun _ => ?_, fun hall => ?_⟩
  · rw [hlen]
    exact Nat.le_max_right _ _
  · rw [hlen]
    exact Nat.max_le.mpr ⟨h.short fun n hn => hall n (List.mem_append_left _ hn), le_rfl⟩

/-- Tracking an id of the batch adds to what was received. -/
theorem Batched.track (h : Batched f l ops t) {n : Int} (hn : f ≤ n) (hi : n ≤ 2147483647) :
    ∃ t', t.track n = some t' ∧ Batched f l (ops ++ [.track n]) t' := by
  obtain ⟨t', ht', hopen, hlast, hlen⟩ := h.opened.track hn hi
  refine ⟨t', ht', hopen.congr fun k => ?_, ?_, fun hmem => ?_, fun hall => ?_⟩
  · have hk : k = (n - f).toNat ↔ f + k = n := by omega
    rw [hk, List.mem_append, List.mem_singleton, TrackerOp.track.injEq, or_comm]
  · rw [hlast, h.last]
    simp
  · have hmem' : .setLast l ∈ ops := by simpa using hmem
    rw [hlen]
    exact (h.long hmem').trans (Nat.le_max_left _ _)
  · have hshort := h.short fun m hm => hall m (List.mem_append_left _ hm)
    have hnl : n ≤ l := hall n (by simp)
    have hdiv : (n - f).toNat / SIZE ≤ (l - f).toNat / SIZE := Nat.div_le_div_right (by omega)
    rw [hlen]
    exact Nat.max_le.mpr ⟨hshort, Nat.succ_le_succ hdiv⟩

/-- What every run preserves, by induction on the operations. -/
theorem batched_runOps (h0 : 0 ≤ f) (hl : f ≤ l) (hi : l ≤ 2147483647)
    (hops : ∀ op ∈ ops, InBatch f l op) :
    ∃ t, (init.setFirst f).runOps ops = some t ∧ Batched f l ops t := by
  induction ops using List.reverseRecOn with
  | nil => exact ⟨_, rfl, batched_setFirst h0 (by omega)⟩
  | append_singleton ops op ih =>
    -- the last operation comes to a tracker of which everything before it is known
    obtain ⟨t, ht, hb⟩ := ih fun o ho => hops o (List.mem_append_left _ ho)
    rw [runOps_snoc ht]
    rcases hops op (by simp) with rfl | ⟨n, rfl, hn, hni⟩
    · exact ⟨_, rfl, hb.setLast hl hi⟩
    · exact hb.track hn hni

/-- A batch that counts as complete is: its end has come, and all of its ids. -/
theorem Batched.complete_sound (h : Batched f l ops t) (hl : f ≤ l) (hi : l ≤ 2147483647)
    (hc : t.complete = true) :
    .setLast l ∈ ops ∧ ∀ n, f ≤ n → n ≤ l → .track n ∈ ops := by
  have hset : .setLast l ∈ ops := by
    by_contra hnot
    have hlast : t.last = -1 := by rw [h.last, if_neg hnot]
    rw [not_complete_of_last_unset h.opened.first_ne hlast] at hc
    cases hc
  refine ⟨hset, fun n hn hnl => ?_⟩
  have hlast : t.last = l := by rw [h.last, if_pos hset]
  have hlong := h.long hset
  have hall := (h.opened.complete_iff hlast hl hi ((Nat.succ_pos _).trans_le hlong)).mp hc
  -- more buckets than the batch needs only ask for more bits
  have hreach : (n - f).toNat ≤ (t.bits.length - 1) * SIZE + (l - f).toNat % SIZE := by
    have hdiv := Nat.div_add_mod (l - f).toNat SIZE
    have hmul : SIZE * ((l - f).toNat / SIZE) ≤ (t.bits.length - 1) * SIZE := by
      rw [Nat.mul_comm SIZE]
      exact Nat.mul_le_mul_right SIZE (by omega)
    omega
  have hmem := hall (n - f).toNat hreach
  rwa [show f + ((n - f).toNat : Int) = n by omega] at hmem

/-- The converse: when its end and all ids have come, it counts as complete. -/
theorem Batched.complete_of_all (h : Batched f l ops t) (hl : f ≤ l) (hi : l ≤ 2147483647)
    (hle : ∀ n, .track n ∈ ops → n ≤ l) (hset : .setLast l ∈ ops)
    (hall : ∀ n, f ≤ n → n ≤ l → .track n ∈ ops) : t.complete = true := by
  have hlast : t.last = l := by rw [h.last, if_pos hset]
  have hlen := Nat.le_antisymm (h.short hle) (h.long hset)
  refine (h.opened.complete_iff_all hlast hl hi hlen).mpr fun k hk => ?_
  exact hall _ (by omega) (by omega)

end Batches

/-- **The tracker decides completeness.** After `setFirst f` and any operations of a batch on a
fresh tracker or one that was reset, `complete` holds only if the last id is known and all ids are
tracked, and does hold then when no id beyond the last one was tracked. -/
theorem decides_complete {f l : Int} (h0 : 0 ≤ f) (hl : f ≤ l) (hi : l ≤ 2147483647)
    {t : MsgTracker} (ht : t = init ∨ ∃ u : MsgTracker, t = u.reset) {ops : List TrackerOp}
    (hops : ∀ op ∈ ops, InBatch f l op) :
    ∃ t', t.runOps (.setFirst f :: ops) = some t' ∧
      (t'.complete = true → .setLast l ∈ ops ∧ ∀ n, f ≤ n → n ≤ l → .track n ∈ ops) ∧
      ((∀ n, .track n ∈ ops → n ≤ l) → .setLast l ∈ ops →
        (∀ n, f ≤ n → n ≤ l → .track n ∈ ops) → t'.complete = true) := by
  -- a reset leaves what the constructor makes
  have hinit : t = init := by
    rcases ht with rfl | ⟨u, rfl⟩
    · rfl
    · rfl
  obtain ⟨t', ht', hb⟩ := batched_runOps h0 hl hi hops
  refine ⟨t', ?_, hb.complete_sound hl hi, hb.complete_of_all hl hi⟩
  rw [hinit]
  exact ht'

/-- The ids of a batch that come in another order. -/
theorem decides_complete_outOfOrder :
    ∃ t, init.runOps [.setFirst 5, .track 6, .setLast 6, .track 5] = some t ∧
      t.complete = true := by
  have hops : ∀ op ∈ [TrackerOp.track 6, .setLast 6, .track 5], InBatch 5 6 op := by
    intro op hop
    rcases List.mem_cons.mp hop with rfl | hop
    · exact Or.inr ⟨6, rfl, by decide, by decide⟩
    · rcases List.mem_pair.mp hop with rfl | rfl
      · exact Or.inl rfl
      · exact Or.inr ⟨5, rfl, by decide, by decide⟩
  obtain ⟨t, ht, -, hcomplete⟩ :=
    decides_complete (f := 5) (l := 6) (by decide) (by decide) (by decide) (Or.inl rfl) hops
  refine ⟨t, ht, hcomplete ?_ (by simp) ?_⟩
  · intro n hn
    have hn' : n = 6 ∨ n = 5 := by simpa using hn
    omega
  · intro n hn hnl
    obtain rfl | rfl : n = 5 ∨ n = 6 := by omega
    · simp
    · simp

/-! ## How far it grows

Any `int` may be tracked. The bucket of an id below the first one is computed from an offset that
wraps around. -/

def OnInts : TrackerOp → Prop
  | .setFirst n | .setLast n | .track n => IsInt n
  | .reset => True

/-- What any operations with `int` arguments leave of a fresh tracker. -/
def Reachable (t : MsgTracker) : Prop :=
  ∃ ops : List TrackerOp, (∀ op ∈ ops, OnInts op) ∧ init.runOps ops = some t

/-- The highest bucket number that `(n - first) / SIZE` comes to: that of the offset `-1`. -/
def topBucket : Int := 1271310319

/-- The bucket of an id that lies `d` before the first one. -/
def strayBucket (d : Int) : Int := (18446744073709551616 - d) / 1000 % 4294967296

/-- Whatever the id, its bucket is one that `size_t` can be divided into. -/
theorem bucketOf_range (t : MsgTracker) (n : Int) :
    0 ≤ t.bucketOf n ∧ t.bucketOf n ≤ topBucket := by
  unfold bucketOf topBucket
  have hd := isInt_int32 (n - t.first)
  generalize int32 (n - t.first) = d at hd
  unfold IsInt at hd
  rcases Int.lt_or_le d 0 with hneg | hpos
  · -- a negative offset is a number just below `2 ^ 64`
    have hsize : size64 d = (d + 18446744073709551616).toNat := by
      unfold size64
      omega
    rw [hsize]
    unfold int32 SIZE
    omega
  · rw [size64_of_nonneg hpos hd.2]
    unfold int32 SIZE
    omega

/-- The bucket of an id below the first one, whose offset wraps around. -/
theorem bucketOf_stray {t : MsgTracker} {n : Int} (hn : n < t.first)
    (hi : t.first - n ≤ 2147483648) : t.bucketOf n = strayBucket (t.first - n) := by
  unfold bucketOf strayBucket
  rw [int32_of_isInt (x := n - t.first) ⟨by omega, by omega⟩]
  unfold int32 size64 SIZE
  omega

/-- Growing within that range comes to what is asked for. -/
theorem grow_length_max {t : MsgTracker} {m : Int} (ht : (t.bits.length : Int) ≤ topBucket + 1)
    (h0 : 0 ≤ m) (hm : m ≤ topBucket + 1) :
    (t.grow m).bits.length = max t.bits.length m.toNat := by
  unfold topBucket at ht hm
  have hk : int32 (m - t.bits.length) = m - t.bits.length := int32_of_isInt ⟨by omega, by omega⟩
  unfold grow
  rw [hk]
  dsimp only
  split
  · rw [Buckets.length_grow]
    omega
  · omega

/-- A tracker grows as far as the bucket of any id. -/
theorem grow_bucketOf {t : MsgTracker} (ht : (t.bits.length : Int) ≤ topBucket + 1) (n : Int) :
    (t.grow (int32 (t.bucketOf n + 1))).bits.length =
      max t.bits.length ((t.bucketOf n).toNat + 1) := by
  obtain ⟨h0, hle⟩ := bucketOf_range t n
  have hint : int32 (t.bucketOf n + 1) = t.bucketOf n + 1 := by
    unfold topBucket at hle
    exact int32_of_isInt ⟨by omega, by omega⟩
  rw [hint, grow_length_max ht (by omega) (by omega)]
  congr 1
  omega

/-- Whatever the id, the bucket is there once the tracker has grown. -/
theorem track_length {t : MsgTracker} (ht : (t.bits.length : Int) ≤ topBucket + 1) (n : Int) :
    ∃ t', t.track n = some t' ∧
      t'.bits.length = max t.bits.length ((t.bucketOf n).toNat + 1) := by
  obtain ⟨h0, hle⟩ := bucketOf_range t n
  have hlen := grow_bucketOf ht n
  have hsize : size64 (t.bucketOf n) = (t.bucketOf n).toNat := by
    unfold topBucket at hle
    exact size64_of_nonneg h0 (by omega)
  have hlt : size64 (t.bucketOf n) < (t.grow (int32 (t.bucketOf n + 1))).bits.length := by
    rw [hsize, hlen]
    exact Nat.lt_of_lt_of_le (Nat.lt_succ_self _) (Nat.le_max_right _ _)
  refine ⟨_, if_pos hlt, ?_⟩
  dsimp only
  rw [Buckets.length_put, hlen]

/-- What every operation preserves holds of all reachable trackers. -/
theorem Reachable.preserves {P : MsgTracker → Prop} (h₀ : P init)
    (hstep : ∀ t op t', P t → OnInts op → t.apply op = some t' → P t') {t : MsgTracker}
    (h : Reachable t) : P t := by
  obtain ⟨ops, hops, hrun⟩ := h
  induction ops using List.reverseRecOn generalizing t with
  | nil =>
    obtain rfl := Option.some.inj hrun
    exact h₀
  | append_singleton ops op ih =>
    cases hpre : init.runOps ops with
    | none =>
      have hnone : List.foldlM apply init ops = none := hpre
      rw [runOps, List.foldlM_append, hnone] at hrun
      cases hrun
    | some u =>
      rw [runOps_snoc hpre] at hrun
      exact hstep u op t (ih (fun o ho => hops o (List.mem_append_left _ ho)) hpre)
        (hops op (by simp)) hrun

/-- No tracker has more buckets than there can be. -/
theorem Reachable.length_le {t : MsgTracker} (h : Reachable t) :
    (t.bits.length : Int) ≤ topBucket + 1 := by
  refine h.preserves (P := fun t => (t.bits.length : Int) ≤ topBucket + 1)
    (by simp [init, topBucket]) fun u op t hu _ happly => ?_
  cases op with
  | setFirst f =>
    obtain rfl := Option.some.inj happly
    exact hu
  | setLast l =>
    obtain rfl := Option.some.inj happly
    -- `setLast` grows for the last id, as `track` does for its own
    obtain ⟨-, hle⟩ := bucketOf_range { u with last := l } l
    have hlen := @grow_bucketOf { u with last := l } hu l
    show (((({ u with last := l } : MsgTracker).grow _).bits.length : Nat) : Int) ≤ _
    rw [hlen]
    unfold topBucket at hle hu ⊢
    show ((max u.bits.length _ : Nat) : Int) ≤ _
    omega
  | track n =>
    obtain ⟨t', ht', hlen⟩ := track_length hu n
    obtain rfl := Option.some.inj (ht'.symm.trans happly)
    obtain ⟨-, hle⟩ := bucketOf_range u n
    unfold topBucket at hle hu ⊢
    rw [hlen]
    omega
  | reset =>
    obtain rfl := Option.some.inj happly
    simp [reset, init, topBucket]

/-- The first id of a tracker is an `int`. -/
theorem Reachable.first_isInt {t : MsgTracker} (h : Reachable t) : IsInt t.first := by
  refine h.preserves (P := fun t => IsInt t.first) (by decide) fun u op t hu hop happly => ?_
  cases op with
  | setFirst f =>
    obtain rfl := Option.some.inj happly
    exact hop
  | setLast l =>
    obtain rfl := Option.some.inj happly
    rw [setLast_first]
    exact hu
  | track n =>
    rw [track_first happly]
    exact hu
  | reset =>
    obtain rfl := Option.some.inj happly
    show IsInt (-1)
    decide

theorem bucketOf_offset {t : MsgTracker} {n : Int} (hn : t.first ≤ n)
    (hi : n - t.first ≤ 2147483647) : t.bucketOf n = ((n - t.first).toNat / SIZE : Nat) := by
  unfold bucketOf
  rw [int32_of_nonneg (x := n - t.first) (by omega) hi, size64_of_nonneg (by omega) hi]
  unfold SIZE
  exact int32_of_nonneg (by omega) (by omega)

/-- **How far an id makes the tracker grow.** It stays within the buckets that its offset asks for
exactly if the id is not before the first one, or the stray bucket is there already. -/
theorem track_grows_iff {t : MsgTracker} (h : Reachable t) (hf : 0 ≤ t.first) {n : Int}
    (hn : 0 ≤ n) (hi : n ≤ 2147483647) :
    ∃ t', t.track n = some t' ∧
      (t'.bits.length ≤ max t.bits.length ((max 0 (n - t.first)).toNat / SIZE + 1) ↔
        t.first ≤ n ∨ strayBucket (t.first - n) < t.bits.length) := by
  obtain ⟨t', ht', hlen⟩ := track_length h.length_le n
  refine ⟨t', ht', ?_⟩
  rw [hlen]
  rcases Int.lt_or_le n t.first with hlt | hle
  · -- the bound leaves room for one bucket, the stray one is never the first
    have hint := h.first_isInt.2
    have hstray := bucketOf_stray hlt (by omega)
    have hzero : (max 0 (n - t.first)).toNat / SIZE = 0 := by
      rw [show (max 0 (n - t.first)).toNat = 0 by omega, Nat.zero_div]
    have hlow : 1 ≤ strayBucket (t.first - n) := by
      unfold strayBucket
      omega
    rw [hstray, hzero]
    omega
  · -- the bucket is the one that the bound allows for
    have hoffset := bucketOf_offset hle (by omega)
    rw [hoffset, Int.toNat_natCast, show max 0 (n - t.first) = n - t.first by omega]
    exact iff_of_true le_rfl (Or.inl hle)

theorem reachable_setFirst {f : Int} (h : IsInt f) : Reachable (init.setFirst f) :=
  ⟨[.setFirst f], fun op hop => by rw [List.mem_singleton.mp hop]; exact h, rfl⟩

/-- An id that is a thousand behind the first one takes a second bucket. -/
theorem track_grows_second :
    ∃ t', (init.setFirst 5).track 1005 = some t' ∧ t'.bits.length ≤ 2 := by
  obtain ⟨t', ht', hiff⟩ := track_grows_iff (reachable_setFirst (f := 5) (by decide)) (by decide)
    (n := 1005) (by decide) (by decide)
  exact ⟨t', ht', hiff.mpr (Or.inl (by decide))⟩

/-- The id `0` behind the first id `1` asks for 1271310320 buckets. -/
theorem stray_id_grows :
    ¬ ∀ t : MsgTracker, Reachable t → 0 ≤ t.first → ∀ n : Int, 0 ≤ n → n ≤ 2147483647 →
      ∀ t', t.track n = some t' →
        t'.bits.length ≤ max t.bits.length ((max 0 (n - t.first)).toNat / SIZE + 1) := by
  intro h
  have hreach := reachable_setFirst (f := 1) (by decide)
  obtain ⟨t', ht', hlen⟩ := track_length hreach.length_le 0
  have hbound := h _ hreach (by decide) 0 (by decide) (by decide) t' ht'
  have hbucket : (init.setFirst 1).bucketOf 0 = 1271310319 :=
    bucketOf_stray (by decide) (by decide)
  rw [hlen, hbucket] at hbound
  exact absurd hbound (by decide)

end MsgTracker

end Skweltch
