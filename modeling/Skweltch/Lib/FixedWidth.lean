import Mathlib.Tactic

/-!
# Fixed-width integers — 32-bit `int` and 64-bit `size_t`

A C `int` is held as the `Int` it denotes. `int32` is the value an `int` holds after an
operation whose mathematical result is `x` (two's-complement wrap-around), and `size64` is the
value of `x` after the implicit conversion to `size_t` that mixed arithmetic performs. Both are
irreducible: unfolding `a + 2147483648` on an open `a` walks through the literal in unary.
-/

namespace FixedWidth

/-- The value a 32-bit `int` holds when the mathematical result is `x`. -/
@[irreducible] def int32 (x : Int) : Int := (x + 2147483648) % 4294967296 - 2147483648

/-- The value of `x` converted to a 64-bit `size_t`. -/
@[irreducible] def size64 (x : Int) : Nat := (x % 18446744073709551616).toNat

/-- `x` is representable as a 32-bit `int`. -/
def IsInt (x : Int) : Prop := -2147483648 ≤ x ∧ x ≤ 2147483647

instance (x : Int) : Decidable (IsInt x) := by unfold IsInt; infer_instance

theorem isInt_int32 (x : Int) : IsInt (int32 x) := by
  unfold IsInt int32; omega

theorem int32_of_isInt {x : Int} (h : IsInt x) : int32 x = x := by
  unfold IsInt at h; unfold int32; omega

theorem int32_eq_self_iff {x : Int} : int32 x = x ↔ IsInt x :=
  ⟨fun h => h ▸ isInt_int32 x, int32_of_isInt⟩

theorem int32_of_nonneg {x : Int} (h0 : 0 ≤ x) (h : x ≤ 2147483647) : int32 x = x :=
  int32_of_isInt ⟨by omega, h⟩

/-- Wrapping an operand first changes nothing: `int` addition is addition modulo `2 ^ 32`. -/
@[simp] theorem int32_add_left (x y : Int) : int32 (int32 x + y) = int32 (x + y) := by
  unfold int32; omega

@[simp] theorem int32_add_right (x y : Int) : int32 (x + int32 y) = int32 (x + y) := by
  unfold int32; omega

@[simp] theorem int32_sub_left (x y : Int) : int32 (int32 x - y) = int32 (x - y) := by
  unfold int32; omega

@[simp] theorem int32_int32 (x : Int) : int32 (int32 x) = int32 x :=
  int32_of_isInt (isInt_int32 x)

theorem size64_of_nonneg {x : Int} (h0 : 0 ≤ x) (h : x ≤ 2147483647) : size64 x = x.toNat := by
  unfold size64; omega

end FixedWidth
