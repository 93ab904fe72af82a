import Mathlib.Data.BitVec

/-!
# Lanes of a word

A lane is `w` bits of a word, from bit `s` on. `merge` clears one lane and sets the bits of a value
in another one; where both are the same, it replaces the lane.
-/

namespace UBoot.Lib.Lanes

variable {n w s t i : ℕ} {x : BitVec n} {v : BitVec w}

def laneMask (n w s : ℕ) : BitVec n := (BitVec.allOnes w).setWidth n <<< s

/-- The lane at bit `t` cleared, and the bits of a value set at bit `s`. -/
def merge (x : BitVec n) (t s : ℕ) (v : BitVec w) : BitVec n :=
  (x &&& ~~~laneMask n w t) ||| v.setWidth n <<< s

/-- The lane at bit `s` replaced. -/
def setLane (x : BitVec n) (s : ℕ) (v : BitVec w) : BitVec n := merge x s s v

theorem getLsbD_laneMask (hi : i < n) :
    (laneMask n w s).getLsbD i = decide (s ≤ i ∧ i < s + w) := by
  rw [laneMask, BitVec.getLsbD_shiftLeft, BitVec.getLsbD_setWidth, BitVec.getLsbD_allOnes,
    Bool.eq_iff_iff]
  simp only [Bool.and_eq_true, Bool.not_eq_true', decide_eq_true_eq, decide_eq_false_iff_not]
  omega

theorem getLsbD_merge (hi : i < n) : (merge x t s v).getLsbD i =
    ((x.getLsbD i && !decide (t ≤ i ∧ i < t + w)) || (decide (s ≤ i) && v.getLsbD (i - s))) := by
  have hsub : i - s < n := by omega
  rw [merge, BitVec.getLsbD_or, BitVec.getLsbD_and, BitVec.getLsbD_not, getLsbD_laneMask hi,
    BitVec.getLsbD_shiftLeft, BitVec.getLsbD_setWidth, decide_eq_true hi, decide_eq_true hsub,
    Bool.true_and, Bool.true_and, Bool.true_and]
  congr 2
  rw [Bool.eq_iff_iff, Bool.not_eq_true', decide_eq_false_iff_not, decide_eq_true_eq, not_lt]

theorem getLsbD_setLane (hi : i < n) : (setLane x s v).getLsbD i =
    if s ≤ i ∧ i < s + w then v.getLsbD (i - s) else x.getLsbD i := by
  rw [setLane, getLsbD_merge hi]
  split_ifs with h
  · rw [decide_eq_true h, decide_eq_true h.1, Bool.not_true, Bool.and_false, Bool.false_or,
      Bool.true_and]
  · rw [decide_eq_false h, Bool.not_false, Bool.and_true]
    by_cases hs : s ≤ i
    · rw [BitVec.getLsbD_of_ge v (i - s) (by omega), Bool.and_false, Bool.or_false]
    · rw [decide_eq_false hs, Bool.false_and, Bool.or_false]

theorem extractLsb'_setLane (hs : s + w ≤ n) : (setLane x s v).extractLsb' s w = v := by
  refine BitVec.eq_of_getLsbD_eq fun i hi => ?_
  rw [BitVec.getLsbD_extractLsb', decide_eq_true hi, Bool.true_and, getLsbD_setLane (by omega),
    if_pos (by omega), Nat.add_sub_cancel_left]

theorem getLsbD_merge_cleared (hs : s + w ≤ t) (hi : t + i < n) (hw : i < w) :
    (merge x t s v).getLsbD (t + i) = false := by
  rw [getLsbD_merge hi, decide_eq_true ⟨by omega, by omega⟩, Bool.not_true, Bool.and_false,
    Bool.false_or, BitVec.getLsbD_of_ge v (t + i - s) (by omega), Bool.and_false]

theorem getLsbD_merge_kept (hi : i < n) (hne : ¬ (t ≤ i ∧ i < t + w)) :
    (merge x t s v).getLsbD i =
      (x.getLsbD i || (decide (s ≤ i ∧ i < s + w) && v.getLsbD (i - s))) := by
  rw [getLsbD_merge hi, decide_eq_false hne, Bool.not_false, Bool.and_true]
  congr 1
  by_cases hs : s ≤ i ∧ i < s + w
  · rw [decide_eq_true hs, decide_eq_true hs.1]
  · rw [decide_eq_false hs, Bool.false_and]
    by_cases hle : s ≤ i
    · rw [BitVec.getLsbD_of_ge v (i - s) (by omega), Bool.and_false]
    · rw [decide_eq_false hle, Bool.false_and]

/-- Clearing another lane than the one that is set goes wrong unless the one is 0 and the other has
no bits but those of the value. -/
theorem merge_eq_setLane_iff (hs : s + w ≤ t) (ht : t + w ≤ n) :
    merge x t s v = setLane x s v ↔ x.extractLsb' t w = 0 ∧ x.extractLsb' s w ||| v = v := by
  constructor
  · intro h
    have hbit : ∀ i, i < n → (merge x t s v).getLsbD i = (setLane x s v).getLsbD i :=
      fun i _ => by rw [h]
    refine ⟨BitVec.eq_of_getLsbD_eq fun i hi => ?_, BitVec.eq_of_getLsbD_eq fun i hi => ?_⟩
    · have hlt : t + i < n := by omega
      have hclear := hbit (t + i) hlt
      rw [getLsbD_merge_cleared hs hlt hi, getLsbD_setLane hlt, if_neg (by omega)] at hclear
      rw [BitVec.getLsbD_extractLsb', ← hclear, Bool.and_false]
      exact BitVec.getLsbD_zero.symm
    · have hlt : s + i < n := by omega
      have hset := hbit (s + i) hlt
      rw [getLsbD_merge_kept hlt (by omega), getLsbD_setLane hlt, if_pos (by omega),
        decide_eq_true ⟨by omega, by omega⟩, Bool.true_and, Nat.add_sub_cancel_left] at hset
      rw [BitVec.getLsbD_or, BitVec.getLsbD_extractLsb', decide_eq_true hi, Bool.true_and, hset]
  · rintro ⟨hzero, hsub⟩
    refine BitVec.eq_of_getLsbD_eq fun i hi => ?_
    rw [getLsbD_setLane hi]
    by_cases hit : t ≤ i ∧ i < t + w
    · -- the lane that has been cleared was 0
      obtain ⟨k, rfl⟩ := Nat.exists_eq_add_of_le hit.1
      have hbit := congrArg (fun y => BitVec.getLsbD y k) hzero
      simp only [BitVec.getLsbD_extractLsb'] at hbit
      rw [decide_eq_true (by omega), Bool.true_and] at hbit
      rw [getLsbD_merge_cleared hs hi (by omega), if_neg (by omega), hbit]
      exact BitVec.getLsbD_zero.symm
    · rw [getLsbD_merge_kept hi hit]
      split_ifs with his
      · obtain ⟨k, rfl⟩ := Nat.exists_eq_add_of_le his.1
        have hbit := congrArg (fun y => BitVec.getLsbD y k) hsub
        simp only [BitVec.getLsbD_or, BitVec.getLsbD_extractLsb'] at hbit
        rw [decide_eq_true (by omega), Bool.true_and] at hbit
        rw [decide_eq_true his, Bool.true_and, Nat.add_sub_cancel_left, hbit]
      · rw [decide_eq_false his, Bool.false_and, Bool.or_false]

end UBoot.Lib.Lanes
