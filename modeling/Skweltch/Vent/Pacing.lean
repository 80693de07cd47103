import Skweltch.Config.Json
import Skweltch.Vent.Vents

/-!
# Skweltch — pauses between messages

`Vent::sendOne` (`core/Vent.cpp`) pauses behind every so many messages. Ventxml reads from its
configuration for how long and how often (`doWork`, `vent/ventxml.cpp`). How often may be zero and
is zero if it is not given, and the messages are counted in an `int` (`paced_iff`).
-/

namespace Skweltch

open Callbacks FixedWidth Json JsonObject

namespace Vent

variable {α : Type} {env : VentEnv}

def isPause : VentAct α → Bool
  | .sleep _ => true
  | _ => false

def pauses (acts : List (VentAct α)) : Nat := acts.countP isPause

/-- The pauses behind the first `n` messages. -/
def pausesOf (sleeptime sleepevery : Int) : Nat → Nat
  | 0 => 0
  | n + 1 => pausesOf sleeptime sleepevery n +
      if 0 < sleeptime ∧ (idAt (n + 1)).tmod sleepevery = 0 then 1 else 0

/-- One message more. -/
theorem sendOne_pauses (hquit : ∀ i, env.quit i = false) {sleeptime sleepevery : Int}
    (hdiv : ¬ Divides sleeptime sleepevery) (v : VentState α) (m : DataMsg α) :
    let r := sendOne env v m sleeptime sleepevery
    r.2 = true ∧ r.1.killed = v.killed ∧ r.1.count = int32 (v.count + 1) ∧
      pauses r.1.acts = pauses v.acts +
        if 0 < sleeptime ∧ (int32 (v.count + 1)).tmod sleepevery = 0 then 1 else 0 := by
  -- whether the message goes out or not, sending is no pause
  have hsent : pauses (if env.senderFails v.asked then v.acts else v.acts ++ [.send m]) =
      pauses v.acts := by
    split
    · rfl
    · simp [pauses, isPause]
  intro r
  simp only [r, sendOne, hquit, Bool.false_eq_true, if_false]
  generalize (if env.senderFails v.asked then v.acts else v.acts ++ [.send m]) = acts at hsent ⊢
  by_cases hs : sleeptime > 0
  · have he : sleepevery ≠ 0 := fun he => hdiv ⟨hs, he⟩
    rw [if_pos hs, if_neg he]
    by_cases hz : (int32 (v.count + 1)).tmod sleepevery = 0
    · have hpause : 0 < sleeptime ∧ (int32 (v.count + 1)).tmod sleepevery = 0 := ⟨hs, hz⟩
      rw [if_pos hz, if_pos hpause]
      refine ⟨rfl, rfl, rfl, ?_⟩
      rw [pauses, List.countP_append, ← pauses, hsent]
      rfl
    · have hgo : ¬ (0 < sleeptime ∧ (int32 (v.count + 1)).tmod sleepevery = 0) := fun h => hz h.2
      rw [if_neg hz, if_neg hgo]
      exact ⟨rfl, rfl, rfl, hsent⟩
  · have hgo : ¬ (0 < sleeptime ∧ (int32 (v.count + 1)).tmod sleepevery = 0) := fun h => hs h.1
    rw [if_neg hs, if_neg hgo]
    exact ⟨rfl, rfl, rfl, hsent⟩

/-- **All messages**, by induction from the last one. -/
theorem feed_pauses (hquit : ∀ i, env.quit i = false) {sleeptime sleepevery : Int}
    (hdiv : ¬ Divides sleeptime sleepevery) (items : List α) :
    let r := feed (sendNext env sleeptime sleepevery) (init, 0) items
    r.2 = true ∧ r.1.1.killed = false ∧ r.1.1.count = idAt items.length ∧
      pauses r.1.1.acts = pausesOf sleeptime sleepevery items.length := by
  induction items using List.reverseRecOn with
  | nil => exact ⟨rfl, rfl, idAt_zero.symm, rfl⟩
  | append_singleton items p ih =>
    obtain ⟨hgo, hkilled, hcount, hpauses⟩ := ih
    intro r
    have hr : r = feed (sendNext env sleeptime sleepevery)
        (feed (sendNext env sleeptime sleepevery) (init, 0) items).1 [p] := by
      have happend := feed_append (h := sendNext env sleeptime sleepevery) (init, 0) items [p]
      rwa [if_pos hgo] at happend
    generalize (feed (sendNext env sleeptime sleepevery) (init, 0) items).1 = w at *
    obtain ⟨v, id⟩ := w
    obtain ⟨hone, hk, hc, hp⟩ :=
      sendOne_pauses hquit hdiv v { id := id, payload := p }
    have hlast : feed (sendNext env sleeptime sleepevery) (v, id) [p] =
        ((sendNext env sleeptime sleepevery (v, id) p).1, true) := feed_cons_true hone []
    rw [hr, hlast, List.length_append, List.length_singleton]
    rw [hcount, idAt_succ] at hc hp
    refine ⟨rfl, hk.trans hkilled, hc, ?_⟩
    rw [pausesOf, ← hpauses]
    exact hp

theorem tmod_eq_zero_iff {x e : Int} : x.tmod e = 0 ↔ e ∣ x :=
  (Int.dvd_iff_tmod_eq_zero).symm

/-- Where no counter has wrapped around, every so many messages. -/
theorem pausesOf_eq {sleeptime : Int} (hs : 0 < sleeptime) {e : Nat} (n : Nat)
    (hdvd : ∀ j, 0 < j → j ≤ n → ((e : Int) ∣ idAt j ↔ e ∣ j)) :
    pausesOf sleeptime e n = n / e := by
  induction n with
  | zero => simp [pausesOf]
  | succ n ih =>
    have hlast := hdvd (n + 1) (by omega) le_rfl
    rw [pausesOf, ih fun j hj hjn => hdvd j hj (by omega), Nat.succ_div]
    simp only [tmod_eq_zero_iff, hlast, hs, true_and]

theorem idAt_dvd_of_le {e j : Nat} (hj : j ≤ 2147483647) : (e : Int) ∣ idAt j ↔ e ∣ j := by
  rw [(idAt_eq_iff j).mpr hj]
  exact Int.natCast_dvd_natCast

/-- The counter wraps around to where the multiples go on. -/
theorem idAt_dvd_of_dvd {e : Nat} (he : e ∣ 4294967296) (j : Nat) :
    (e : Int) ∣ idAt j ↔ e ∣ j := by
  have hwrap : ∃ q : Int, idAt j = j + 4294967296 * q := by
    refine ⟨-((j + 2147483648) / 4294967296), ?_⟩
    unfold idAt int32
    omega
  obtain ⟨q, hq⟩ := hwrap
  have hdvd : (e : Int) ∣ 4294967296 * q :=
    Dvd.dvd.mul_right (by exact_mod_cast he) q
  rw [hq, dvd_add_left hdvd]
  exact Int.natCast_dvd_natCast

theorem idAt_wrapped : idAt 4294967296 = 0 := by
  unfold idAt int32
  decide

/-- At the message at which the counter has come round to zero there is a pause. -/
theorem pausesOf_wrapped {sleeptime : Int} (hs : 0 < sleeptime) {e : Nat}
    (h : ∀ n, pausesOf sleeptime e n = n / e) : e ∣ 4294967296 := by
  by_contra hno
  have hbefore := h 4294967295
  have hafter := h 4294967296
  have hstep : pausesOf sleeptime e 4294967296 = pausesOf sleeptime e 4294967295 + 1 := by
    rw [show (4294967296 : Nat) = 4294967295 + 1 from rfl, pausesOf]
    rw [show (4294967295 + 1 : Nat) = 4294967296 from rfl, idAt_wrapped, Int.zero_tmod]
    simp [hs]
  have hsame : 4294967296 / e = 4294967295 / e := Nat.succ_div_of_not_dvd hno
  omega

end Vent

namespace VentXml

/-- What `doWork` reads. -/
def sleeptime (root : Object) : Int := intAt root "sleep".toList 0

def sleepevery (root : Object) : Int := intAt root "every".toList 0

/-- The pace of `k` messages: nothing is divided by zero, and where both numbers are positive, a
pause is made every so many messages. -/
def Paced (root : Object) (k : Nat) : Prop :=
  ∀ (env : VentEnv) (items : List Str), (∀ i, env.quit i = false) → items.length = k →
    let v := (feed (chunk env (sleeptime root) (sleepevery root)) (Vent.init, 0) items).1.1
    v.killed = false ∧ (0 < sleeptime root → 0 < sleepevery root →
      (Vent.pauses v.acts : Int) = k / sleepevery root)

/-- A vent that is never interrupted. -/
def freeEnv : VentEnv :=
  { quit := fun _ => false, senderFails := fun _ => false, firstFails := false,
    lastFails := false }

theorem paced_zero (root : Object) : Paced root 0 := by
  intro env items _ hlen
  obtain rfl := List.length_eq_zero_iff.mp hlen
  exact ⟨rfl, fun _ _ => by simp [Vent.pauses, Vent.init]⟩

/-- The first message kills a vent that divides by zero. -/
theorem not_paced_of_divides {root : Object} (h : Vent.Divides (sleeptime root) (sleepevery root))
    {k : Nat} (hk : 0 < k) : ¬ Paced root k := by
  intro hpaced
  have hne : List.replicate k ([] : Str) ≠ [] := by
    rw [← List.length_pos_iff, List.length_replicate]
    exact hk
  obtain ⟨hlive, -⟩ := hpaced freeEnv (List.replicate k []) (fun _ => rfl) List.length_replicate
  have hworks : freeEnv.Works := ⟨fun _ => rfl, rfl, rfl⟩
  have hkilled := Vent.feed_sendNext_killed hworks h hne Vent.init 0 rfl
  rw [chunk, hkilled] at hlive
  cases hlive

/-- Pacing is about the number of pauses. -/
theorem paced_iff_pausesOf {root : Object}
    (h : ¬ Vent.Divides (sleeptime root) (sleepevery root)) (k : Nat) :
    Paced root k ↔ (0 < sleeptime root → 0 < sleepevery root →
      (Vent.pausesOf (sleeptime root) (sleepevery root) k : Int) = k / sleepevery root) := by
  constructor
  · intro hpaced hs he
    have hquit : ∀ i, freeEnv.quit i = false := fun _ => rfl
    obtain ⟨-, -, -, hpauses⟩ := Vent.feed_pauses hquit h (List.replicate k ([] : Str))
    obtain ⟨-, hcount⟩ :=
      hpaced freeEnv (List.replicate k []) hquit List.length_replicate
    rw [List.length_replicate] at hpauses
    rw [← hpauses]
    exact hcount hs he
  · rintro hcount env items hquit rfl
    obtain ⟨-, hkilled, -, hpauses⟩ := Vent.feed_pauses hquit h items
    refine ⟨hkilled, fun hs he => ?_⟩
    rw [chunk, hpauses]
    exact hcount hs he

/-- **When the pace is kept.** For as many messages as an `int` can count, unless the vent is to
pause and it is not said how often; for every number of messages, if moreover the counter that
wraps around goes on counting the multiples. -/
theorem paced_iff (root : Object) :
    (∀ k, k ≤ 2147483647 →
      (Paced root k ↔ k = 0 ∨ ¬ Vent.Divides (sleeptime root) (sleepevery root))) ∧
    ((∀ k, Paced root k) ↔ ¬ Vent.Divides (sleeptime root) (sleepevery root) ∧
      (0 < sleeptime root → 0 < sleepevery root → sleepevery root ∣ 4294967296)) := by
  have hnat : ∀ {e : Int}, 0 < e → ∃ n : Nat, e = n := fun he =>
    ⟨_, (Int.toNat_of_nonneg he.le).symm⟩
  constructor
  -- within `int` the ids are the numbers of the messages
  · intro k hk
    constructor
    -- pacing of all batches also asks for those in which the id wraps around
    · intro hpaced
      rcases Nat.eq_zero_or_pos k with h0 | hpos
      · exact Or.inl h0
      · exact Or.inr fun hdiv => not_paced_of_divides hdiv hpos hpaced
    · rintro (rfl | hdiv)
      · exact paced_zero root
      · rw [paced_iff_pausesOf hdiv]
        intro hs he
        obtain ⟨e, he'⟩ := hnat he
        rw [he', Vent.pausesOf_eq hs k fun j _ hjk => Vent.idAt_dvd_of_le (hjk.trans hk)]
        exact Int.natCast_ediv k e
  · constructor
    · intro hpaced
      have hdiv : ¬ Vent.Divides (sleeptime root) (sleepevery root) := fun hdiv =>
        not_paced_of_divides hdiv Nat.one_pos (hpaced 1)
      refine ⟨hdiv, fun hs he => ?_⟩
      obtain ⟨e, he'⟩ := hnat he
      have hcount : ∀ n, Vent.pausesOf (sleeptime root) e n = n / e := by
        intro n
        have := (paced_iff_pausesOf hdiv n).mp (hpaced n) hs he
        rw [he'] at this
        exact_mod_cast this
      rw [he']
      exact_mod_cast Vent.pausesOf_wrapped hs hcount
    · rintro ⟨hdiv, hdvd⟩ k
      rw [paced_iff_pausesOf hdiv]
      intro hs he
      have hdvd := hdvd hs he
      obtain ⟨e, he'⟩ := hnat he
      rw [he'] at hdvd ⊢
      rw [Vent.pausesOf_eq hs k fun j _ _ => Vent.idAt_dvd_of_dvd (by exact_mod_cast hdvd) j]
      exact Int.natCast_ediv k e

/-- A vent that is to pause, and is not told how often: it is killed by its first message. -/
theorem sleep_alone_not_paced : ¬ Paced [("sleep".toList, .int 1)] 1 := by
  intro hpaced
  obtain ⟨hlive, -⟩ := hpaced freeEnv [[]] (fun _ => rfl) rfl
  revert hlive
  decide +kernel

end VentXml

end Skweltch
