import Mathlib.Tactic
import Mathlib.Data.Rat.Floor

/-!
# Truncation — the whole number a fraction is cast to

A cast from a floating-point type to an integer type drops what stands behind the point. On
exact fractions that is `trunc`: the floor of what is not negative, the ceiling of what is not
positive. Facts about it are proved above zero and reflected at zero (`trunc_neg`).
-/

namespace Truncation

/-- `q` without what stands behind the point. -/
def trunc (q : ℚ) : Int := if 0 ≤ q then ⌊q⌋ else ⌈q⌉

theorem trunc_of_nonneg {q : ℚ} (h : 0 ≤ q) : trunc q = ⌊q⌋ := if_pos h

theorem trunc_of_nonpos {q : ℚ} (h : q ≤ 0) : trunc q = ⌈q⌉ := by
  unfold trunc
  split
  · next hq =>
    obtain rfl : q = 0 := le_antisymm h hq
    simp
  · rfl

@[simp] theorem trunc_intCast (n : Int) : trunc (n : ℚ) = n := by
  unfold trunc
  split
  · exact Int.floor_intCast n
  · exact Int.ceil_intCast n

@[simp] theorem trunc_neg (q : ℚ) : trunc (-q) = -trunc q := by
  rcases le_total 0 q with h | h
  · rw [trunc_of_nonneg h, trunc_of_nonpos (neg_nonpos.mpr h), Int.ceil_neg]
  · rw [trunc_of_nonpos h, trunc_of_nonneg (neg_nonneg.mpr h), Int.floor_neg]

theorem trunc_nonneg {q : ℚ} (h : 0 ≤ q) : 0 ≤ trunc q := by
  rw [trunc_of_nonneg h]
  exact Int.floor_nonneg.mpr h

theorem trunc_nonpos {q : ℚ} (h : q ≤ 0) : trunc q ≤ 0 := by
  have hneg := trunc_nonneg (neg_nonneg.mpr h)
  rw [trunc_neg] at hneg
  exact Int.neg_nonneg.mp hneg

/-- Truncation keeps the order. -/
theorem trunc_mono {q r : ℚ} (h : q ≤ r) : trunc q ≤ trunc r := by
  -- zero stands between two fractions of different signs
  rcases le_total 0 q with hq | hq
  · rw [trunc_of_nonneg hq, trunc_of_nonneg (hq.trans h)]
    exact Int.floor_mono h
  · rcases le_total 0 r with hr | hr
    · exact (trunc_nonpos hq).trans (trunc_nonneg hr)
    · rw [trunc_of_nonpos hq, trunc_of_nonpos hr]
      exact Int.ceil_mono h

/-- Truncating what lies between zero and a whole number does not leave that range. -/
theorem trunc_mem_range {q : ℚ} {n : Int} (h0 : 0 ≤ q) (h : q ≤ n) : 0 ≤ trunc q ∧ trunc q ≤ n := by
  have hle := trunc_mono h
  rw [trunc_intCast] at hle
  exact ⟨trunc_nonneg h0, hle⟩

/-- Above zero truncating moves two fractions no further apart than their distance rounded up. -/
theorem trunc_sub_le {q r : ℚ} (h0 : 0 ≤ q) (h : q ≤ r) : trunc r - trunc q ≤ ⌈r - q⌉ := by
  have hfloor : ⌊r⌋ ≤ ⌊q⌋ + ⌈r - q⌉ := by
    -- `r` is `q` and the distance, and a floor is below what it is the floor of
    have hlt : (⌊r⌋ : ℚ) < ⌊q⌋ + ⌈r - q⌉ + 1 := by
      have hr := Int.floor_le r
      have hq := Int.lt_floor_add_one q
      have hd := Int.le_ceil (r - q)
      linarith
    have hlt : ⌊r⌋ < ⌊q⌋ + ⌈r - q⌉ + 1 := by exact_mod_cast hlt
    omega
  rw [trunc_of_nonneg h0, trunc_of_nonneg (h0.trans h)]
  omega

end Truncation
