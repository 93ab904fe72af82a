import Mathlib.Data.BitVec
import Mathlib.Data.List.GetD
import Mathlib.Tactic

/-!
# Shift registers

A register of `w` bits is shifted towards its lowest bit, and the polynomial `p` is added where a
bit is shifted out. `feed` adds a bit of a message in front of each shift. Where the polynomial has
its highest bit no state is lost (`shift_injective`); as the shifts are linear, two messages that
differ within `w` bits only lead to different states (`feed_ne_of_burst`).
-/

namespace UBoot.Lib.ShiftRegister

variable {w : ℕ} {p s t : BitVec w}

def shift (p s : BitVec w) : BitVec w := if s.getLsbD 0 then p ^^^ (s >>> 1) else s >>> 1

def lowBit (w : ℕ) (b : Bool) : BitVec w := (BitVec.ofBool b).setWidth w

def feed (p s : BitVec w) : List Bool → BitVec w
  | [] => s
  | b :: bs => feed p (shift p (s ^^^ lowBit w b)) bs

/-- The word of some bits, the first one lowest. -/
def word (w : ℕ) : List Bool → BitVec w
  | [] => 0#w
  | b :: bs => (word w bs <<< 1) ^^^ lowBit w b

theorem getLsbD_lowBit (hw : 0 < w) (b : Bool) (i : ℕ) :
    (lowBit w b).getLsbD i = (decide (i = 0) && b) := by
  rw [lowBit, BitVec.getLsbD_setWidth, BitVec.getLsbD_ofBool]
  cases i with
  | zero => simp [hw]
  | succ i => simp

theorem getLsbD_word (bs : List Bool) {i : ℕ} (hi : i < w) :
    (word w bs).getLsbD i = bs.getD i false := by
  induction bs generalizing i with
  | nil => rw [word, List.getD_nil]; exact BitVec.getLsbD_zero
  | cons b bs ih =>
    rw [word, BitVec.getLsbD_xor, BitVec.getLsbD_shiftLeft, getLsbD_lowBit (by omega)]
    cases i with
    | zero => simp [hi]
    | succ i => simp [hi, ih (by omega : i < w)]

theorem getLsbD_shift (i : ℕ) :
    (shift p s).getLsbD i = ((s.getLsbD 0 && p.getLsbD i) ^^ s.getLsbD (i + 1)) := by
  unfold shift
  cases s.getLsbD 0
  · simp [Nat.add_comm]
  · simp [Nat.add_comm]

theorem shift_xor : shift p (s ^^^ t) = shift p s ^^^ shift p t := by
  refine BitVec.eq_of_getLsbD_eq fun i _ => ?_
  rw [BitVec.getLsbD_xor, getLsbD_shift, getLsbD_shift, getLsbD_shift, BitVec.getLsbD_xor,
    BitVec.getLsbD_xor]
  cases s.getLsbD 0 <;> cases t.getLsbD 0 <;> cases p.getLsbD i <;>
    cases s.getLsbD (i + 1) <;> cases t.getLsbD (i + 1) <;> rfl

theorem shift_iterate_xor (n : ℕ) :
    (shift p)^[n] (s ^^^ t) = (shift p)^[n] s ^^^ (shift p)^[n] t := by
  induction n generalizing s t with
  | zero => rfl
  | succ n ih => rw [Function.iterate_succ_apply, shift_xor, ih]; rfl

/-- A word whose lowest bit is clear only moves. -/
theorem shift_shiftLeft (hs : s.getLsbD (w - 1) = false) : shift p (s <<< 1) = s := by
  refine BitVec.eq_of_getLsbD_eq fun i hi => ?_
  rw [getLsbD_shift, BitVec.getLsbD_shiftLeft, BitVec.getLsbD_shiftLeft]
  rcases Nat.lt_or_eq_of_le (Nat.le_sub_one_of_lt hi) with hlt | rfl
  · simp [(by omega : i + 1 < w)]
  · have hout : decide (w - 1 + 1 < w) = false := decide_eq_false (by omega)
    rw [hs, hout]
    simp

theorem shift_iterate_shiftLeft (n : ℕ) (hs : ∀ i, w - n ≤ i → s.getLsbD i = false) :
    (shift p)^[n] (s <<< n) = s := by
  induction n with
  | zero => exact BitVec.shiftLeft_zero s
  | succ n ih =>
    have hhigh : (s <<< n).getLsbD (w - 1) = false := by
      rw [BitVec.getLsbD_shiftLeft, hs _ (by omega), Bool.and_false]
    rw [BitVec.shiftLeft_add, Function.iterate_succ_apply, shift_shiftLeft hhigh]
    exact ih fun i hi => hs i (by omega)

theorem eq_of_xor_eq_zero (h : s ^^^ t = 0#w) : s = t := by
  rw [← BitVec.xor_zero (x := s), ← BitVec.xor_self (x := t), ← BitVec.xor_assoc, h]
  exact BitVec.zero_xor

/-- With the highest bit in the polynomial, the bit that was shifted out can be told. -/
theorem eq_zero_of_shift (hp : p.getLsbD (w - 1) = true) (h : shift p s = 0#w) : s = 0#w := by
  have hw : 0 < w := by
    rcases Nat.eq_zero_or_pos w with rfl | hw
    · exact absurd hp (by rw [BitVec.getLsbD_of_ge p _ (by omega)]; decide)
    · exact hw
  have hbit (i : ℕ) : ((s.getLsbD 0 && p.getLsbD i) ^^ s.getLsbD (i + 1)) = false := by
    rw [← getLsbD_shift, h]
    exact BitVec.getLsbD_zero
  have hlow : s.getLsbD 0 = false := by
    have hhigh := hbit (w - 1)
    rwa [hp, BitVec.getLsbD_of_ge s (w - 1 + 1) (by omega), Bool.and_true, Bool.xor_false] at hhigh
  refine BitVec.eq_of_getLsbD_eq fun i _ => ?_
  cases i with
  | zero => rw [hlow]; exact BitVec.getLsbD_zero.symm
  | succ i =>
    have hthis := hbit i
    rw [hlow, Bool.false_and, Bool.false_xor] at hthis
    rw [hthis]
    exact BitVec.getLsbD_zero.symm

theorem shift_injective (hp : p.getLsbD (w - 1) = true) : Function.Injective (shift p) :=
  fun s t h => eq_of_xor_eq_zero (eq_zero_of_shift hp (by rw [shift_xor, h, BitVec.xor_self]))

/-! ### Messages -/

variable {as bs : List Bool}

theorem feed_append : feed p s (as ++ bs) = feed p (feed p s as) bs := by
  induction as generalizing s with
  | nil => rfl
  | cons a as ih => exact ih

theorem feed_eq_iterate (bs : List Bool) (hbs : bs.length ≤ w) :
    feed p s bs = (shift p)^[bs.length] (s ^^^ word w bs) := by
  induction bs generalizing s with
  | nil => rw [word, BitVec.xor_zero]; rfl
  | cons b bs ih =>
    rw [List.length_cons] at hbs
    have hhigh : (word w bs).getLsbD (w - 1) = false := by
      rw [getLsbD_word bs (by omega), List.getD_eq_default _ _ (by omega)]
    rw [feed, ih (by omega), List.length_cons, Function.iterate_succ_apply, word,
      BitVec.xor_comm (word w bs <<< 1), ← BitVec.xor_assoc, shift_xor (s := s ^^^ lowBit w b),
      shift_shiftLeft hhigh]

/-- Where both messages go on alike, different states stay different. -/
theorem feed_injective (hp : p.getLsbD (w - 1) = true) (bs : List Bool) :
    Function.Injective (feed p · bs) := by
  induction bs with
  | nil => exact fun s t h => h
  | cons b bs ih =>
    intro s t h
    have hstep := shift_injective hp (ih h)
    have hback : s ^^^ lowBit w b ^^^ lowBit w b = t ^^^ lowBit w b ^^^ lowBit w b :=
      congrArg (· ^^^ lowBit w b) hstep
    rwa [BitVec.xor_assoc, BitVec.xor_assoc, BitVec.xor_self, BitVec.xor_zero,
      BitVec.xor_zero] at hback

theorem feed_ne_of_burst (hp : p.getLsbD (w - 1) = true) (hlen : as.length = bs.length)
    (hburst : as.length ≤ w) (hne : as ≠ bs) : feed p s as ≠ feed p s bs := by
  intro h
  rw [feed_eq_iterate as hburst, feed_eq_iterate bs (by omega), ← hlen] at h
  have hword := (shift_injective hp).iterate as.length h
  refine hne (List.ext_getElem hlen fun i hi hi' => ?_)
  have hbit : (s ^^^ word w as).getLsbD i = (s ^^^ word w bs).getLsbD i :=
    congrArg (BitVec.getLsbD · i) hword
  rw [BitVec.getLsbD_xor, BitVec.getLsbD_xor, Bool.xor_right_inj, getLsbD_word as (by omega),
    getLsbD_word bs (by omega)] at hbit
  rwa [List.getD_eq_getElem _ _ hi, List.getD_eq_getElem _ _ hi'] at hbit

end UBoot.Lib.ShiftRegister
