import Mathlib.Tactic

/-!
# Alignment of addresses

Masking with the complement of `2 ^ k - 1` rounds an address down to a multiple of `2 ^ k`; sizes
are rounded up. What is cut off above an aligned bound stays above it.
-/

namespace UBoot.Lib

theorem and_not_add_and (x m : UInt32) : (x &&& ~~~m) + (x &&& m) = x := by
  have hand : x.toBitVec &&& ~~~m.toBitVec &&& (x.toBitVec &&& m.toBitVec) = 0#32 := by
    ext i hi
    simp only [BitVec.getElem_and, BitVec.getElem_not, BitVec.getElem_zero]
    grind
  have hor : ~~~m.toBitVec ||| m.toBitVec = BitVec.allOnes 32 := BitVec.not_or_self _
  refine UInt32.toBitVec_inj.mp ?_
  rw [UInt32.toBitVec_add, UInt32.toBitVec_and, UInt32.toBitVec_and, UInt32.toBitVec_not,
    BitVec.add_eq_or_of_and_eq_zero _ _ hand, ← BitVec.and_or_distrib_left, hor,
    BitVec.and_allOnes]

theorem toNat_and_not {x m : UInt32} {k : ℕ} (hm : m.toNat = 2 ^ k - 1) :
    (x &&& ~~~m).toNat = x.toNat - x.toNat % 2 ^ k := by
  have hlow : (x &&& m).toNat = x.toNat % 2 ^ k := by
    rw [UInt32.toNat_and, hm, Nat.and_two_pow_sub_one_eq_mod]
  have hle : (x &&& m).toNat ≤ x.toNat := hlow ▸ Nat.mod_le ..
  have heq : x &&& ~~~m = x - (x &&& m) := by
    have hcancel := UInt32.add_sub_cancel (a := x &&& ~~~m) (b := x &&& m)
    rwa [and_not_add_and, eq_comm] at hcancel
  rw [heq, UInt32.toNat_sub_of_le _ _ (UInt32.le_iff_toNat_le.mpr hle), hlow]

/-- A size in whole pages of `p` bytes. -/
def alignUp (p n : ℕ) : ℕ := (n + p - 1) / p * p

variable {p m n : ℕ}

theorem dvd_alignUp : p ∣ alignUp p n := Nat.dvd_mul_left ..

theorem le_alignUp (hp : 0 < p) : n ≤ alignUp p n := by
  have hdiv := Nat.div_add_mod (n + p - 1) p
  have hmod := Nat.mod_lt (n + p - 1) hp
  rw [alignUp, Nat.mul_comm]
  omega

/-- Rounding down does not go below a multiple. -/
theorem le_sub_mod_of_dvd (hd : p ∣ m) (hle : m ≤ n) : m ≤ n - n % p := by
  have hsub : p ∣ n - n % p := Nat.dvd_sub_mod n
  rcases Nat.eq_zero_or_pos p with rfl | hp
  · rw [Nat.mod_zero, Nat.sub_self, Nat.eq_zero_of_zero_dvd hd]
  · by_contra hlt
    have hgap := Nat.mod_lt n hp
    have hdvd : p ∣ m - (n - n % p) := Nat.dvd_sub hd hsub
    exact absurd (Nat.le_of_dvd (by omega) hdvd) (by omega)

end UBoot.Lib
