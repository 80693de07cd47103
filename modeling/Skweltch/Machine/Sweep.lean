import Skweltch.Lib.Truncation
import Skweltch.Machine.MachineTuner

/-!
# Skweltch — the values of a sweep

The `hightolow` branch of `MachineTuner::tune` (`machine/MachineTuner.cpp`) selects one value for
each mutation. `hightolow` computes it as the source does, with its `double`s taken as exact
fractions; where an `int` operation or the cast would leave the 32 bits nothing is computed.
-/

namespace Skweltch

open FixedWidth Json JsonObject NumText Truncation

namespace MachineTuner

/-- An `int` operation whose result has to fit. -/
def checked (x : Int) : Option Int := if IsInt x then some x else none

/-- The value that `hightolow` selects. -/
def hightolow (low high mutations mutation : Int) : Option Int := do
  let range ← checked (high - low)
  let unit : ℚ := range / mutations
  let sel : ℚ := mutations - mutation
  let val ← checked (trunc (unit * sel))
  checked (val + low)

-- the values of the tests
example : (List.range 4).map (fun (j : Nat) => hightolow 50 2000 10 j) =
    [some 2000, some 1805, some 1610, some 1415] := by decide +kernel
example : hightolow 50 500 6 5 = some 125 := by decide +kernel

/-- The part of the range that is left for a mutation. -/
def share (low high mutations mutation : Int) : ℚ :=
  ((high - low : Int) : ℚ) / mutations * (mutations - mutation)

/-- The value of a mutation: what is left of the range, above `low`. -/
def sweep (low high mutations mutation : Int) : Int := trunc (share low high mutations mutation) + low

/-- **A sweep** from `high` to `low`: where it starts, which way it goes, where it stays and how
far it goes at once. -/
structure Sweeps (low high mutations : Int) (val : Int → Int) : Prop where
  starts : val 0 = high
  descends : low ≤ high → ∀ i j, 0 ≤ i → i ≤ j → j < mutations → val j ≤ val i
  ascends : high ≤ low → ∀ i j, 0 ≤ i → i ≤ j → j < mutations → val i ≤ val j
  within : ∀ j, 0 ≤ j → j < mutations → min low high ≤ val j ∧ val j ≤ max low high
  step : ∀ j, 0 ≤ j → j + 1 < mutations →
    |val j - val (j + 1)| ≤ ⌈|((high - low : Int) : ℚ)| / mutations⌉

variable {low high m : Int}

/-- The other way round the range is negative. -/
theorem share_neg (low high m j : Int) : share low high m j = -share high low m j := by
  unfold share
  push_cast
  ring

/-- Two mutations share what is left for one of them and what is between them. -/
theorem share_sub (low high m i j : Int) :
    share low high m i - share low high m j = ((high - low : Int) : ℚ) / m * (j - i) := by
  unfold share
  ring

theorem share_zero (low high : Int) (hm : 1 ≤ m) : share low high m 0 = (high - low : Int) := by
  have hne : (m : ℚ) ≠ 0 := by
    have : m ≠ 0 := by omega
    exact_mod_cast this
  unfold share
  push_cast
  field_simp
  ring

theorem unit_nonneg (h : low ≤ high) (hm : 1 ≤ m) : (0 : ℚ) ≤ ((high - low : Int) : ℚ) / m := by
  have hrange : (0 : ℚ) ≤ ((high - low : Int) : ℚ) := by exact_mod_cast Int.sub_nonneg.mpr h
  have hpos : (0 : ℚ) ≤ m := by exact_mod_cast (show (0 : Int) ≤ m by omega)
  exact div_nonneg hrange hpos

/-- A later mutation has less left. -/
theorem share_antitone (h : low ≤ high) (hm : 1 ≤ m) {i j : Int} (hij : i ≤ j) :
    share low high m j ≤ share low high m i := by
  have hdist : (0 : ℚ) ≤ (j : ℚ) - i := by exact_mod_cast Int.sub_nonneg.mpr hij
  have hsub := mul_nonneg (unit_nonneg h hm) hdist
  rw [← share_sub] at hsub
  linarith

theorem share_nonneg (h : low ≤ high) (hm : 1 ≤ m) {j : Int} (hj : j ≤ m) :
    0 ≤ share low high m j := by
  have hdist : (0 : ℚ) ≤ (m : ℚ) - j := by exact_mod_cast Int.sub_nonneg.mpr hj
  exact mul_nonneg (unit_nonneg h hm) hdist

/-- What is left never exceeds the range. -/
theorem trunc_share_mem (h : low ≤ high) (hm : 1 ≤ m) {j : Int} (h0 : 0 ≤ j) (hj : j < m) :
    0 ≤ trunc (share low high m j) ∧ trunc (share low high m j) ≤ high - low := by
  refine trunc_mem_range (share_nonneg h hm hj.le) ?_
  rw [← share_zero low high hm]
  exact share_antitone h hm h0

/-- From one mutation to the next the value falls by no more than a share, rounded up. -/
theorem trunc_share_step (h : low ≤ high) (hm : 1 ≤ m) {j : Int} (hj : j + 1 < m) :
    0 ≤ trunc (share low high m j) - trunc (share low high m (j + 1)) ∧
      trunc (share low high m j) - trunc (share low high m (j + 1)) ≤
        ⌈((high - low : Int) : ℚ) / m⌉ := by
  have hle : share low high m (j + 1) ≤ share low high m j := share_antitone h hm (by omega)
  have hdist : share low high m j - share low high m (j + 1) = ((high - low : Int) : ℚ) / m := by
    rw [share_sub]
    push_cast
    ring
  refine ⟨Int.sub_nonneg.mpr (trunc_mono hle), ?_⟩
  rw [← hdist]
  exact trunc_sub_le (share_nonneg h hm hj.le) hle

/-- The part that is truncated stays between zero and the range, whichever way the range goes. -/
theorem trunc_share_between (low high : Int) (hm : 1 ≤ m) {j : Int} (h0 : 0 ≤ j) (hj : j < m) :
    min 0 (high - low) ≤ trunc (share low high m j) ∧
      trunc (share low high m j) ≤ max 0 (high - low) := by
  rcases le_total low high with h | h
  · obtain ⟨hlow, hhigh⟩ := trunc_share_mem h hm h0 hj
    exact ⟨(min_le_left _ _).trans hlow, hhigh.trans (le_max_right _ _)⟩
  · obtain ⟨hlow, hhigh⟩ := trunc_share_mem h hm h0 hj
    rw [share_neg, trunc_neg]
    omega

/-- Where the bounds are `int`s that are not negative, nothing that is computed leaves them. -/
theorem hightolow_eq (hlow : 0 ≤ low) (hhigh : 0 ≤ high) (hlowInt : IsInt low)
    (hhighInt : IsInt high) (hm : 1 ≤ m) {j : Int} (h0 : 0 ≤ j) (hj : j < m) :
    hightolow low high m j = some (sweep low high m j) := by
  obtain ⟨hmin, hmax⟩ := trunc_share_between low high hm h0 hj
  unfold IsInt at hlowInt hhighInt
  have hrange : checked (high - low) = some (high - low) :=
    if_pos (by unfold IsInt; omega)
  have hval : checked (trunc (share low high m j)) = some (trunc (share low high m j)) :=
    if_pos (by unfold IsInt; omega)
  have hsum : checked (trunc (share low high m j) + low) = some (sweep low high m j) :=
    if_pos (by unfold IsInt; omega)
  simp only [hightolow, hrange, Option.bind_eq_bind, Option.bind_some]
  rw [← share, hval]
  exact hsum

/-- The steps of a sweep, upwards or downwards. -/
theorem sweep_step (low high : Int) (hm : 1 ≤ m) {j : Int} (hj : j + 1 < m) :
    |sweep low high m j - sweep low high m (j + 1)| ≤ ⌈|((high - low : Int) : ℚ)| / m⌉ := by
  have hdist : ∀ i, sweep low high m i = trunc (share low high m i) + low := fun _ => rfl
  rcases le_total low high with h | h
  · obtain ⟨hnonneg, hle⟩ := trunc_share_step h hm hj
    have habs : |((high - low : Int) : ℚ)| = ((high - low : Int) : ℚ) :=
      abs_of_nonneg (by exact_mod_cast Int.sub_nonneg.mpr h)
    rw [hdist, hdist, add_sub_add_right_eq_sub, abs_of_nonneg hnonneg, habs]
    exact hle
  · -- upwards the shares are those of the way down, with the sign changed
    obtain ⟨hnonneg, hle⟩ := trunc_share_step h hm hj
    have habs : |((high - low : Int) : ℚ)| = ((low - high : Int) : ℚ) := by
      rw [← abs_neg, ← Int.cast_neg, neg_sub]
      exact abs_of_nonneg (by exact_mod_cast Int.sub_nonneg.mpr h)
    rw [hdist, hdist, add_sub_add_right_eq_sub, share_neg low, share_neg low, trunc_neg, trunc_neg,
      neg_sub_neg, abs_sub_comm, abs_of_nonneg hnonneg, habs]
    exact hle

/-- The values of the mutations are a sweep from `high`. -/
theorem sweep_sweeps (low high : Int) (hm : 1 ≤ m) : Sweeps low high m (sweep low high m) where
  starts := by
    unfold sweep
    rw [share_zero low high hm, trunc_intCast]
    omega
  descends h i j _ hij _ := Int.add_le_add_right (trunc_mono (share_antitone h hm hij)) low
  ascends h i j _ hij _ := by
    unfold sweep
    have hle := trunc_mono (share_antitone h hm hij)
    rw [share_neg low, share_neg low, trunc_neg, trunc_neg]
    omega
  within j h0 hj := by
    obtain ⟨hmin, hmax⟩ := trunc_share_between low high hm h0 hj
    unfold sweep
    omega
  step j _ hj := sweep_step low high hm hj

/-- **Sweep arithmetic.** For all bounds and all mutations that `tune` accepts, the values of a
sweep are computed within 32 bits, and sweep from `high` to `low`. -/
theorem hightolow_sweeps (hlow : 0 ≤ low) (hhigh : 0 ≤ high) (hlowInt : IsInt low)
    (hhighInt : IsInt high) (hm : 1 ≤ m) :
    ∃ val : Int → Int, (∀ j, 0 ≤ j → j < m → hightolow low high m j = some (val j)) ∧
      Sweeps low high m val :=
  ⟨sweep low high m, fun _ h0 hj => hightolow_eq hlow hhigh hlowInt hhighInt hm h0 hj,
    sweep_sweeps low high hm⟩

/-- Upwards, from seven to ten in two mutations. -/
theorem hightolow_sweeps_upwards :
    ∃ val : Int → Int, (∀ j, 0 ≤ j → j < 2 → hightolow 10 7 2 j = some (val j)) ∧
      Sweeps 10 7 2 val :=
  hightolow_sweeps (by decide) (by decide) (by decide) (by decide) (by decide)

end MachineTuner

end Skweltch
