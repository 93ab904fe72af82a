import Mathlib.Tactic

/-!
# Sums in ones' complement arithmetic

The Internet checksum adds 16-bit words with the carry added back (`onesAdd`). Such a sum
is the ordinary one modulo 65535, with 65535 for the multiples of it but 0. `foldCarry`
computes it from an ordinary sum; the sum of byte-swapped words is the byte-swapped sum, so a
check for 65535 does not depend on the byte order.
-/

namespace UBoot.Lib

/-- The sum of two 16-bit words, its carry added back. -/
def onesAdd (a b : Nat) : Nat := if a + b < 65536 then a + b else a + b - 65535

def onesSum (ws : List Nat) : Nat := ws.foldl onesAdd 0

/-- The carry of a 32-bit sum added to its low half. -/
def foldCarry (n : Nat) : Nat := n % 65536 + n / 65536

def swap16 (w : Nat) : Nat := w % 256 * 256 + w / 256

variable {n : Nat} {ws : List Nat}

/-- A number below 65536 stands for a sum in ones' complement arithmetic. -/
structure OnesRep (r n : Nat) : Prop where
  lt : r < 65536
  mod : r % 65535 = n % 65535
  zero : r = 0 ↔ n = 0

theorem OnesRep.eq_max_iff {r : Nat} (h : OnesRep r n) : r = 65535 ↔ n % 65535 = 0 ∧ n ≠ 0 := by
  obtain ⟨hlt, hmod, hzero⟩ := h
  omega

theorem foldl_onesAdd {a m : Nat} (h : OnesRep a m) (hw : ∀ w ∈ ws, w < 65536) :
    OnesRep (ws.foldl onesAdd a) (m + ws.sum) := by
  induction ws generalizing a m with
  | nil => exact h
  | cons w ws ih =>
    obtain ⟨hlt, hws⟩ := List.forall_mem_cons.mp hw
    obtain ⟨ha, hmod, hzero⟩ := h
    rw [List.foldl_cons, List.sum_cons, ← Nat.add_assoc]
    refine ih ⟨?_, ?_, ?_⟩ hws <;> unfold onesAdd <;> split <;> omega

theorem onesSum_rep (hw : ∀ w ∈ ws, w < 65536) : OnesRep (onesSum ws) ws.sum := by
  have h0 : OnesRep 0 0 := ⟨by decide, rfl, Iff.rfl⟩
  have h := foldl_onesAdd h0 hw
  rwa [Nat.zero_add] at h

theorem foldCarry_rep (hn : n < 2 ^ 32) : OnesRep (foldCarry (foldCarry n)) n := by
  refine ⟨?_, ?_, ?_⟩ <;> unfold foldCarry <;> omega

theorem sum_swap16 (ws : List Nat) : (ws.map swap16).sum % 65535 = 256 * ws.sum % 65535 := by
  induction ws with
  | nil => rfl
  | cons w ws ih =>
    rw [List.map_cons, List.sum_cons, List.sum_cons, Nat.mul_add, Nat.add_mod, ih, ← Nat.add_mod]
    unfold swap16
    omega

/-- The byte order does not matter for a check of the sum. -/
theorem sum_swap16_mod (ws : List Nat) :
    (ws.map swap16).sum % 65535 = 0 ↔ ws.sum % 65535 = 0 := by
  rw [sum_swap16]
  omega

end UBoot.Lib
