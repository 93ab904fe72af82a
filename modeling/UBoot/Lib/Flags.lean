import Mathlib.Tactic

/-!
# Flag words

A word some bits of which are flags. `FlagBits` names them; `mask` is the word with the one flag
and `test` reads it. `or`, `and` and `xor` with a mask, or with its complement, are what code does
to a flag word, and one lemma for each says what the flags are then.
-/

namespace UBoot.Lib

structure FlagBits (φ : Type*) (w : Nat) where
  bit : φ → Nat
  bit_lt : ∀ f, bit f < w
  inj : Function.Injective bit

namespace FlagBits

variable {φ : Type*} {w : Nat} (b : FlagBits φ w) (x : BitVec w) (f g : φ)

/-- The word in which only the flag `f` is set. -/
def mask : BitVec w := BitVec.twoPow w (b.bit f)

/-- The flag `f` is set. -/
def test : Bool := x.getLsbD (b.bit f)

variable {b x f g}

theorem test_mask [DecidableEq φ] : b.test (b.mask f) g = decide (f = g) := by
  rw [test, mask, BitVec.getLsbD_twoPow, decide_eq_true (b.bit_lt f), Bool.true_and]
  exact decide_eq_decide.mpr b.inj.eq_iff

theorem mask_ne_zero : b.mask f ≠ 0 := fun h => by
  have hbit := congrArg (BitVec.getLsbD · (b.bit f)) h
  simp [mask, b.bit_lt f] at hbit

theorem and_mask_eq_zero : x &&& b.mask f = 0 ↔ b.test x f = false := by
  rw [mask, test, BitVec.and_twoPow]
  split_ifs with h
  · exact iff_of_false mask_ne_zero fun hf => by rw [h] at hf; cases hf
  · exact iff_of_true rfl (Bool.eq_false_of_not_eq_true h)

theorem and_mask_eq_mask : x &&& b.mask f = b.mask f ↔ b.test x f = true := by
  rw [mask, test, BitVec.and_twoPow]
  split_ifs with h
  · exact iff_of_true rfl h
  · exact iff_of_false (fun hz => mask_ne_zero hz.symm) h

section
variable [DecidableEq φ]

@[simp] theorem test_or : b.test (x ||| b.mask f) g = (b.test x g || decide (f = g)) := by
  rw [← test_mask (b := b) (f := f), test, BitVec.getLsbD_or]
  rfl

@[simp] theorem test_and : b.test (x &&& b.mask f) g = (b.test x g && decide (f = g)) := by
  rw [← test_mask (b := b) (f := f), test, BitVec.getLsbD_and]
  rfl

@[simp] theorem test_xor : b.test (x ^^^ b.mask f) g = (b.test x g ^^ decide (f = g)) := by
  rw [← test_mask (b := b) (f := f), test, BitVec.getLsbD_xor]
  rfl

@[simp] theorem test_and_not : b.test (x &&& ~~~b.mask f) g = (b.test x g && !decide (f = g)) := by
  rw [← test_mask (b := b) (f := f), test, BitVec.getLsbD_and, BitVec.getLsbD_not,
    decide_eq_true (b.bit_lt g), Bool.true_and]
  rfl

end

end FlagBits

end UBoot.Lib
