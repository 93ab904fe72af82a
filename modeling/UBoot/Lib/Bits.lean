import Mathlib.Data.Nat.Bitwise
import Mathlib.Tactic.Ring

/-!
# Bits in serial order

A word on a serial line: its bits, most significant first, and the two shift registers at its
ends.
-/

namespace UBoot.Lib.Bits

variable {α : Type} {w n : ℕ}

/-- The low `w` bits of a number, most significant first. -/
def msb : ℕ → ℕ → List Bool
  | 0, _ => []
  | w + 1, x => x.testBit w :: msb w x

/-- A register that takes bits in at its low end. -/
def shiftIn (acc : ℕ) (bits : List Bool) : ℕ :=
  bits.foldl (fun a b => 2 * a + b.toNat) acc

/-- A register whose top bit is looked at before each of `n` shifts. -/
def shiftOut (top : α → Bool) (shift : α → α) : ℕ → α → List Bool
  | 0, _ => []
  | n + 1, x => top x :: shiftOut top shift n (shift x)

@[simp]
theorem msb_length (w x : ℕ) : (msb w x).length = w := by
  induction w with
  | zero => rfl
  | succ w ih => rw [msb, List.length_cons, ih]

theorem msb_congr {x y : ℕ} (h : ∀ i < w, x.testBit i = y.testBit i) : msb w x = msb w y := by
  induction w with
  | zero => rfl
  | succ w ih => rw [msb, msb, h w (Nat.lt_succ_self w), ih fun i hi => h i (Nat.lt_succ_of_lt hi)]

@[simp]
theorem msb_mod (w x : ℕ) : msb w (x % 2 ^ w) = msb w x :=
  msb_congr fun i hi => by rw [Nat.testBit_mod_two_pow, decide_eq_true hi, Bool.true_and]

@[simp]
theorem shiftIn_nil (acc : ℕ) : shiftIn acc [] = acc := rfl

theorem shiftIn_cons (acc : ℕ) (b : Bool) (bits : List Bool) :
    shiftIn acc (b :: bits) = shiftIn (2 * acc + b.toNat) bits := rfl

theorem shiftIn_append (acc : ℕ) (xs ys : List Bool) :
    shiftIn acc (xs ++ ys) = shiftIn (shiftIn acc xs) ys := List.foldl_append

theorem shiftIn_msb (acc w x : ℕ) : shiftIn acc (msb w x) = acc * 2 ^ w + x % 2 ^ w := by
  induction w generalizing acc with
  | zero => simp [msb, Nat.mod_one]
  | succ w ih =>
    rw [msb, shiftIn_cons, ih, Nat.mod_pow_succ, Nat.toNat_testBit, Nat.pow_succ]
    ring

theorem shiftOut_eq {top : α → Bool} {shift : α → α} (val : α → ℕ)
    (htop : ∀ x, top x = (val x).testBit (w - 1))
    (hshift : ∀ x, val (shift x) % 2 ^ w = 2 * val x % 2 ^ w) (hn : n ≤ w) (x : α) :
    shiftOut top shift n x = msb n (val x / 2 ^ (w - n)) := by
  induction n generalizing x with
  | zero => rfl
  | succ n ih =>
    rw [shiftOut, msb, ih (by omega), htop, Nat.testBit_div_two_pow]
    have hw : n + (w - (n + 1)) = w - 1 := by omega
    rw [hw]
    congr 1
    refine msb_congr fun i hi => ?_
    rw [Nat.testBit_div_two_pow, Nat.testBit_div_two_pow]
    have hlt : i + (w - n) < w := by omega
    have hbit := congrArg (Nat.testBit · (i + (w - n))) (hshift x)
    simp only [Nat.testBit_mod_two_pow, decide_eq_true hlt, Bool.true_and] at hbit
    have hpos : i + (w - n) = i + (w - (n + 1)) + 1 := by omega
    rw [hbit, hpos, Nat.testBit_succ, Nat.mul_div_cancel_left _ Nat.two_pos]

theorem shiftOut_all {top : α → Bool} {shift : α → α} (val : α → ℕ)
    (htop : ∀ x, top x = (val x).testBit (w - 1))
    (hshift : ∀ x, val (shift x) % 2 ^ w = 2 * val x % 2 ^ w) (x : α) :
    shiftOut top shift w x = msb w (val x) := by
  rw [shiftOut_eq val htop hshift (le_refl w), Nat.sub_self, Nat.pow_zero, Nat.div_one]

theorem not_and_two_pow_eq_zero (x k : ℕ) : (!decide (x &&& 2 ^ k = 0)) = x.testBit k := by
  rw [Nat.and_two_pow]
  cases x.testBit k with
  | false => rw [Bool.toNat_false, Nat.zero_mul]; rfl
  | true => rw [Bool.toNat_true, Nat.one_mul, decide_eq_false (Nat.two_pow_pos k).ne']; rfl

end UBoot.Lib.Bits
