import Skweltch.Core.Sink

/-!
# Skweltch — one batch through the sink

A `Batch` is what a sink is to receive for one batch: `First f`, then in any order one data
message for each id from `f` to `l` and `Last l`. `Progress b got t` says that the tracker `t` has
seen `First` and the messages `got` of batch `b`; `deliver_rest` shows that each further message
either leaves the batch open or, when it is the last one missing, closes it.
-/

namespace Skweltch

open EventLoop

structure Batch where
  first : Int
  last : Int
  /-- the strings carried by the data message of an id -/
  payload : Int → List Str
  /-- the messages after `First`, in the order of delivery -/
  rest : List SinkMsg
  nonneg : 0 ≤ first
  le : first ≤ last
  isInt : last ≤ 2147483647
  perm : rest.Perm (SinkMsg.lastMsg last ::
    (List.range ((last - first).toNat + 1)).map
      fun k : Nat => SinkMsg.dataMsg (first + k) (payload (first + k)))

namespace Batch

def data (b : Batch) (k : Nat) : SinkMsg := .dataMsg (b.first + k) (b.payload (b.first + k))

def lastMsg (b : Batch) : SinkMsg := .lastMsg b.last

def msgs (b : Batch) : List SinkMsg := .firstMsg b.first :: b.rest

def span (b : Batch) : Nat := (b.last - b.first).toNat

theorem last_eq (b : Batch) : b.last = b.first + b.span := by
  have := b.le; unfold span; omega

theorem data_inj (b : Batch) {j k : Nat} : b.data j = b.data k ↔ j = k := by
  constructor
  · intro h
    have hid : b.first + (j : Int) = b.first + k := congrArg SinkMsg.id h
    omega
  · rintro rfl; rfl

theorem data_ne_lastMsg (b : Batch) (k : Nat) : b.data k ≠ b.lastMsg := by
  intro h
  have hcode : (2 : Int) = 3 := congrArg SinkMsg.code h
  exact absurd hcode (by decide)

theorem perm_data (b : Batch) : b.rest.Perm (b.lastMsg :: (List.range (b.span + 1)).map b.data) :=
  b.perm

/-- What follows the first message is Last or one of the data messages. -/
theorem mem_rest {b : Batch} {m : SinkMsg} :
    m ∈ b.rest ↔ m = b.lastMsg ∨ ∃ k ≤ b.span, m = b.data k := by
  rw [b.perm_data.mem_iff, List.mem_cons, List.mem_map]
  constructor
  · rintro (h | ⟨k, hk, rfl⟩)
    · exact .inl h
    · exact .inr ⟨k, by have := List.mem_range.mp hk; omega, rfl⟩
  · rintro (h | ⟨k, hk, rfl⟩)
    · exact .inl h
    · exact .inr ⟨k, List.mem_range.mpr (by omega), rfl⟩

theorem rest_nodup (b : Batch) : b.rest.Nodup := by
  rw [b.perm_data.nodup_iff, List.nodup_cons]
  constructor
  · intro h
    obtain ⟨k, _, hk⟩ := List.mem_map.mp h
    exact b.data_ne_lastMsg k hk
  · exact List.nodup_range.map fun j k h => b.data_inj.mp h

theorem rest_ne_nil (b : Batch) : b.rest ≠ [] := by
  intro h
  have hmem : b.lastMsg ∈ b.rest := mem_rest.mpr (.inl rfl)
  rw [h] at hmem
  exact absurd hmem List.not_mem_nil

/-- The tracker has seen `First` and the messages `got` of the batch, and no others. -/
structure Progress (b : Batch) (got : List SinkMsg) (t : MsgTracker) : Prop where
  opened : t.Open b.first (fun k => b.data k ∈ got)
  last : t.last = if b.lastMsg ∈ got then b.last else -1
  room : t.bits.length ≤ b.span / SIZE + 1
  full : b.lastMsg ∈ got → t.bits.length = b.span / SIZE + 1

theorem progress_first (b : Batch) : b.Progress [] (MsgTracker.init.setFirst b.first) where
  opened := by
    have h := MsgTracker.open_setFirst (t := .init) rfl b.nonneg (b.le.trans b.isInt)
    exact ⟨h.first, h.nonneg, h.isInt, h.small, by simpa using h.bits⟩
  last := by simp [MsgTracker.init]
  room := Nat.zero_le _
  full := fun h => absurd h List.not_mem_nil

/-- The tracker says that the batch is complete exactly when all of the rest has come. -/
theorem Progress.complete_iff {b : Batch} {got : List SinkMsg} {t : MsgTracker}
    (h : b.Progress got t) : t.complete = true ↔ ∀ m ∈ b.rest, m ∈ got := by
  by_cases hlast : b.lastMsg ∈ got
  · have hl : t.last = b.last := by rw [h.last, if_pos hlast]
    rw [h.opened.complete_iff_all hl b.le b.isInt (h.full hlast)]
    constructor
    · intro hall m hm
      rcases mem_rest.mp hm with rfl | ⟨k, hk, rfl⟩
      · exact hlast
      · exact hall k hk
    · intro hall k hk
      exact hall _ (mem_rest.mpr (.inr ⟨k, hk, rfl⟩))
  · have hl : t.last = -1 := by rw [h.last, if_neg hlast]
    rw [MsgTracker.not_complete_of_last_unset h.opened.first_ne hl]
    constructor
    · exact fun hc => absurd hc (by decide)
    · exact fun hall => absurd (hall _ (mem_rest.mpr (.inl rfl))) hlast

def callOf (m : SinkMsg) : SinkCall :=
  if m.code = 1 then .first m.id else if m.code = 2 then .process m.id m.data else .last m.id

/-- A data message is one step on. -/
theorem Progress.track {b : Batch} {got : List SinkMsg} {t : MsgTracker} (h : b.Progress got t)
    {k : Nat} (hk : k ≤ b.span) :
    ∃ t', t.track (b.first + k) = some t' ∧ b.Progress (got ++ [b.data k]) t' := by
  have hle := b.le
  have hint := b.isInt
  have hspan : b.last = b.first + b.span := b.last_eq
  obtain ⟨t', ht', hopen, hlast, hlen⟩ :=
    h.opened.track (n := b.first + k) (by omega) (by omega)
  have hoff : (b.first + (k : Int) - b.first).toNat = k := by omega
  rw [hoff] at hopen hlen
  have hroom : k / SIZE ≤ b.span / SIZE := Nat.div_le_div_right hk
  -- the offset of the message is its number in the batch
  refine ⟨t', ht', ⟨⟨hopen.first, hopen.nonneg, hopen.isInt, hopen.small, ?_⟩, ?_, ?_, ?_⟩⟩
  · intro j
    show _ ↔ b.data j ∈ got ++ [b.data k]
    rw [hopen.bits j, List.mem_append, List.mem_singleton, b.data_inj]
    exact or_comm
  · rw [hlast, h.last]
    simp [(b.data_ne_lastMsg k).symm]
  · rw [hlen]
    exact Nat.max_le.mpr ⟨h.room, Nat.succ_le_succ hroom⟩
  · intro hmem
    have hgot : b.lastMsg ∈ got := by
      rcases List.mem_append.mp hmem with hm | hm
      · exact hm
      · exact absurd (List.mem_singleton.mp hm).symm (b.data_ne_lastMsg k)
    rw [hlen, h.full hgot]
    exact Nat.max_eq_left (Nat.succ_le_succ hroom)

/-- Last is one step on, like any message of the rest. -/
theorem Progress.setLast {b : Batch} {got : List SinkMsg} {t : MsgTracker}
    (h : b.Progress got t) : b.Progress (got ++ [b.lastMsg]) (t.setLast b.last) := by
  obtain ⟨hopen, hlen⟩ := h.opened.setLast b.le b.isInt
  have hwidth : (t.setLast b.last).bits.length = b.span / SIZE + 1 := by
    rw [hlen]; exact Nat.max_eq_right h.room
  refine ⟨⟨hopen.first, hopen.nonneg, hopen.isInt, hopen.small, ?_⟩, ?_, hwidth.le,
    fun _ => hwidth⟩
  · intro k
    show _ ↔ b.data k ∈ got ++ [b.lastMsg]
    rw [hopen.bits k, List.mem_append, List.mem_singleton]
    exact ⟨.inl, fun hm => hm.resolve_right (b.data_ne_lastMsg k)⟩
  · simp

/-- **One delivery.** The sink makes the call the message stands for; if that was the last
message missing it also fetches the results and starts over, otherwise the batch stays open. -/
theorem deliver_rest {b : Batch} {got : List SinkMsg} {s : SinkState} {m : SinkMsg}
    (h : b.Progress got s.tracker) (hm : m ∈ b.rest) :
    ((∀ m' ∈ b.rest, m' ∈ got ++ [m]) ∧
        Sink.body s (Sink.deliver m) = ([callOf m, .results], .next Sink.init)) ∨
      ((∃ m' ∈ b.rest, m' ∉ got ++ [m]) ∧
        ∃ t, Sink.body s (Sink.deliver m) = ([callOf m], .next { tracker := t, retries := 0 }) ∧
          b.Progress (got ++ [m]) t) := by
  -- both kinds of message end in the same completion test on the new tracker
  have hcheck : ∀ t, b.Progress (got ++ [m]) t →
      Sink.body s (Sink.deliver m) =
        Sink.checkComplete { tracker := t, retries := 0 } [callOf m] →
      ((∀ m' ∈ b.rest, m' ∈ got ++ [m]) ∧
        Sink.body s (Sink.deliver m) = ([callOf m, .results], .next Sink.init)) ∨
      ((∃ m' ∈ b.rest, m' ∉ got ++ [m]) ∧
        ∃ t, Sink.body s (Sink.deliver m) = ([callOf m], .next { tracker := t, retries := 0 }) ∧
          b.Progress (got ++ [m]) t) := by
    intro t ht hbody
    by_cases hc : t.complete = true
    · left
      refine ⟨ht.complete_iff.mp hc, ?_⟩
      rw [hbody, Sink.checkComplete, if_pos hc]
      rfl
    · right
      refine ⟨?_, t, ?_, ht⟩
      · by_contra hall
        push Not at hall
        exact hc (ht.complete_iff.mpr hall)
      · rw [hbody, Sink.checkComplete, if_neg hc]
  rcases mem_rest.mp hm with rfl | ⟨k, hk, rfl⟩
  · exact hcheck _ h.setLast (Sink.body_lastMsg s b.last)
  · obtain ⟨t, ht, hprog⟩ := h.track hk
    exact hcheck t hprog (Sink.body_dataMsg ht _)

end Batch

end Skweltch
