import Mathlib.Data.BitVec
import Mathlib.Tactic

/-!
# Words into which bytes are shifted

`shiftIn` puts a byte below the others of a word, `shiftFrom` the bytes of a memory one after the
other; four of them make a word (`wordOf`), whose bytes they are (`byteOf_wordOf`).
-/

namespace UBoot.Lib.Shifted

abbrev Word := BitVec 32

def shiftIn (data : Word) (b : UInt8) : Word := (data <<< 8) ||| b.toBitVec.setWidth 32

/-- Byte `i` of a word, the most significant one first. -/
def byteOf (v : Word) (i : ℕ) : UInt8 := ⟨v.extractLsb' (8 * (3 - i)) 8⟩

/-- The `n` bytes from `a` on, shifted in. -/
def shiftFrom (f : ℕ → UInt8) (data : Word) : ℕ → ℕ → Word
  | 0, _ => data
  | n + 1, a => shiftFrom f (shiftIn data (f a)) n (a + 1)

/-- The word at `a`. -/
def wordOf (f : ℕ → UInt8) (a : ℕ) : Word := shiftFrom f 0 4 a

variable {f g : ℕ → UInt8} {v w data : Word} {b : UInt8} {a i m n : ℕ}

theorem shiftFrom_add :
    shiftFrom f (shiftFrom f data m a) n (a + m) = shiftFrom f data (m + n) a := by
  induction m generalizing data a with
  | zero => rw [Nat.zero_add]; rfl
  | succ m ih =>
    rw [Nat.succ_add, shiftFrom, shiftFrom, ← ih, Nat.add_right_comm, Nat.add_assoc]

theorem shiftFrom_congr (h : ∀ i < n, f (a + i) = g (a + i)) :
    shiftFrom f data n a = shiftFrom g data n a := by
  induction n generalizing data a with
  | zero => rfl
  | succ n ih =>
    have hfirst : f a = g a := h 0 (Nat.succ_pos n)
    rw [shiftFrom, shiftFrom, hfirst, ih fun i hi => by
      rw [Nat.add_assoc, Nat.add_comm 1 i]
      exact h (i + 1) (by omega)]

theorem wordOf_congr (h : ∀ i < 4, f (a + i) = g (a + i)) : wordOf f a = wordOf g a :=
  shiftFrom_congr h

theorem getLsbD_shiftIn (hi : i < 32) : (shiftIn data b).getLsbD i =
    if i < 8 then b.toBitVec.getLsbD i else data.getLsbD (i - 8) := by
  rw [shiftIn, BitVec.getLsbD_or, BitVec.getLsbD_shiftLeft, BitVec.getLsbD_setWidth,
    decide_eq_true hi, Bool.true_and, Bool.true_and]
  split_ifs with hlow
  · rw [decide_eq_true hlow, Bool.not_true, Bool.false_and, Bool.false_or]
  · rw [decide_eq_false hlow, Bool.not_false, Bool.true_and, BitVec.getLsbD_of_ge _ i (by omega),
      Bool.or_false]

theorem byte_ext {b c : UInt8} (h : ∀ j < 8, b.toBitVec.getLsbD j = c.toBitVec.getLsbD j) :
    b = c :=
  UInt8.eq_of_toBitVec_eq (BitVec.eq_of_getLsbD_eq h)

theorem getLsbD_byteOf {j : ℕ} (hj : j < 8) :
    (byteOf v i).toBitVec.getLsbD j = v.getLsbD (8 * (3 - i) + j) := by
  change (v.extractLsb' (8 * (3 - i)) 8).getLsbD j = _
  rw [BitVec.getLsbD_extractLsb', decide_eq_true hj, Bool.true_and]

theorem byteOf_shiftIn_last : byteOf (shiftIn data b) 3 = b :=
  byte_ext fun j hj => by
    rw [getLsbD_byteOf hj, getLsbD_shiftIn (by omega), if_pos (by omega)]
    congr 1
    omega

theorem byteOf_shiftIn (hi : i < 3) : byteOf (shiftIn data b) i = byteOf data (i + 1) :=
  byte_ext fun j hj => by
    rw [getLsbD_byteOf hj, getLsbD_byteOf hj, getLsbD_shiftIn (by omega), if_neg (by omega)]
    congr 1
    omega

theorem byteOf_wordOf (hi : i < 4) : byteOf (wordOf f a) i = f (a + i) := by
  change byteOf (shiftIn (shiftIn (shiftIn (shiftIn 0 (f a)) (f (a + 1))) (f (a + 1 + 1)))
    (f (a + 1 + 1 + 1))) i = _
  interval_cases i
  · rw [byteOf_shiftIn (by decide), byteOf_shiftIn (by decide), byteOf_shiftIn (by decide),
      byteOf_shiftIn_last]
    rfl
  · rw [byteOf_shiftIn (by decide), byteOf_shiftIn (by decide), byteOf_shiftIn_last]
  · rw [byteOf_shiftIn (by decide), byteOf_shiftIn_last]
  · rw [byteOf_shiftIn_last]

theorem byteOf_and : byteOf (v &&& w) i = byteOf v i &&& byteOf w i :=
  byte_ext fun j hj => by
    rw [getLsbD_byteOf hj, UInt8.toBitVec_and, BitVec.getLsbD_and, BitVec.getLsbD_and,
      getLsbD_byteOf hj, getLsbD_byteOf hj]

theorem word_ext (h : ∀ i < 4, byteOf v i = byteOf w i) : v = w := by
  refine BitVec.eq_of_getLsbD_eq fun k hk => ?_
  have hbit : (byteOf v (3 - k / 8)).toBitVec.getLsbD (k % 8) =
      (byteOf w (3 - k / 8)).toBitVec.getLsbD (k % 8) := by rw [h (3 - k / 8) (by omega)]
  rw [getLsbD_byteOf (by omega), getLsbD_byteOf (by omega),
    (by omega : 8 * (3 - (3 - k / 8)) + k % 8 = k)] at hbit
  exact hbit

/-- A word has all the bits of the memory's word if and only if its bytes do. -/
theorem and_wordOf_iff : wordOf f a &&& wordOf g a = wordOf g a ↔
    ∀ i < 4, f (a + i) &&& g (a + i) = g (a + i) := by
  constructor
  · intro h i hi
    have hbyte : byteOf (wordOf f a &&& wordOf g a) i = byteOf (wordOf g a) i := by rw [h]
    rwa [byteOf_and, byteOf_wordOf hi, byteOf_wordOf hi] at hbyte
  · intro h
    refine word_ext fun i hi => ?_
    rw [byteOf_and, byteOf_wordOf hi, byteOf_wordOf hi, h i hi]

end UBoot.Lib.Shifted
