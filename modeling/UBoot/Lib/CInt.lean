import Mathlib.Data.Int.Cast.Lemmas
import Mathlib.Tactic.Common

/-!
# The `int` of C

An `int` has 32 bits and wraps (`int32`); a value that is converted to `unsigned int` or `size_t`
is taken modulo `2 ^ 32` (`uint32`).
-/

namespace UBoot.Lib

/-- The value of an `int` that a result is stored in. -/
def int32 (z : ℤ) : ℤ := z.bmod (2 ^ 32)

/-- The value of an `unsigned int` that a result is stored in. -/
def uint32 (z : ℤ) : ℕ := (z % 2 ^ 32).toNat

theorem int32_of_lt {z : ℤ} (hz : 0 ≤ z) (hlt : z < 2 ^ 31) : int32 z = z :=
  Int.bmod_eq_of_le (by omega) (by omega)

theorem int32_neg {z : ℤ} (hz : 0 ≤ z) (hlt : z < 2 ^ 31) : int32 (-z) = -z :=
  Int.bmod_eq_of_le (by omega) (by omega)

theorem int32_add {a b : ℕ} (hlt : a + b < 2 ^ 31) : int32 (a + b) = (a + b : ℕ) := by
  rw [int32_of_lt (by omega) (by omega), Nat.cast_add]

theorem uint32_natCast {n : ℕ} (hlt : n < 2 ^ 32) : uint32 n = n := by
  rw [uint32, Int.emod_eq_of_lt (by omega) (by omega), Int.toNat_natCast]

end UBoot.Lib
