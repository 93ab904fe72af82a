import Mathlib.Tactic

/-!
# Memory with 32-bit addresses

A `Mem32` is the bytes at all addresses; address arithmetic wraps at 2^32, so a block that
runs past the top of memory continues at address 0. `store` writes a list of bytes.
`HoldsUpTo m base f n` says that the first `n` bytes of the image `f` lie at `base`.
Storing a part of the image in its place keeps what is there (`store_keeps`) and extends it
(`store_extends`).
-/

namespace UBoot.Lib

abbrev Mem32 := UInt32 → UInt8

namespace Mem32

/-- The bytes `data` written at `addr`. -/
def store (m : Mem32) (addr : UInt32) (data : List UInt8) : Mem32 := fun a =>
  match data[(a - addr).toNat]? with
  | some c => c
  | none => m a

/-- The first `n` bytes of `f` lie at `base`. -/
def HoldsUpTo (m : Mem32) (base : UInt32) (f : List UInt8) (n : Nat) : Prop :=
  ∀ i (h : i < f.length), i < n → m (base + UInt32.ofNat i) = f[i]

variable {m : Mem32} {base : UInt32} {f : List UInt8} {i o k n : Nat}

/-- Byte `i` of an image lies at the byte `i - o` behind its byte `o`, modulo 2^32. -/
theorem sub_toNat (hi : i < 2 ^ 32) (ho : o < 2 ^ 32) :
    ((base + UInt32.ofNat i) - (base + UInt32.ofNat o)).toNat = (2 ^ 32 - o + i) % 2 ^ 32 := by
  have h : (base + UInt32.ofNat i) - (base + UInt32.ofNat o) = UInt32.ofNat i - UInt32.ofNat o := by
    grind
  rw [h, UInt32.toNat_sub, UInt32.toNat_ofNat_of_lt' ho, UInt32.toNat_ofNat_of_lt' hi]

theorem store_slice (hf : f.length < 2 ^ 32) (ho : o ≤ f.length) (hi : i < f.length) :
    m.store (base + UInt32.ofNat o) ((f.drop o).take k) (base + UInt32.ofNat i) =
      if o ≤ i ∧ i < o + k then f[i] else m (base + UInt32.ofNat i) := by
  have hsub := @sub_toNat base i o (by omega) (by omega)
  simp only [store, hsub]
  by_cases hoi : o ≤ i
  · have hmod : (2 ^ 32 - o + i) % 2 ^ 32 = i - o := by omega
    rw [hmod, List.getElem?_take, List.getElem?_drop, Nat.add_sub_cancel' hoi,
      List.getElem?_eq_getElem hi]
    by_cases hk : i < o + k
    · rw [if_pos (by omega), if_pos ⟨hoi, hk⟩]
    · rw [if_neg (by omega), if_neg fun h => hk h.2]
  · have hmod : (2 ^ 32 - o + i) % 2 ^ 32 = 2 ^ 32 - o + i := by omega
    have hlen : ((f.drop o).take k).length ≤ 2 ^ 32 - o + i := by
      rw [List.length_take, List.length_drop]; omega
    rw [hmod, List.getElem?_eq_none hlen, if_neg fun h => hoi h.1]

theorem store_behind_end {a : UInt32} (h : f.length ≤ (a - base).toNat) :
    m.store base f a = m a := by
  rw [store, List.getElem?_eq_none h]

theorem store_keeps (hf : f.length < 2 ^ 32) (ho : o ≤ f.length) (h : m.HoldsUpTo base f n) :
    (m.store (base + UInt32.ofNat o) ((f.drop o).take k)).HoldsUpTo base f n := by
  intro i hi hn
  rw [store_slice hf ho hi]
  split
  · rfl
  · exact h i hi hn

theorem store_extends (hf : f.length < 2 ^ 32) (ho : o ≤ f.length) (h : m.HoldsUpTo base f o) :
    (m.store (base + UInt32.ofNat o) ((f.drop o).take k)).HoldsUpTo base f (o + k) := by
  intro i hi hn
  rw [store_slice hf ho hi]
  split
  · rfl
  · exact h i hi (by omega)

theorem holdsUpTo_store (hf : f.length ≤ 2 ^ 32) : (m.store base f).HoldsUpTo base f n := by
  intro i hi _
  have hsub : (base + UInt32.ofNat i - base).toNat = i := by
    have heq : base + UInt32.ofNat i - base = UInt32.ofNat i := by grind
    rw [heq, UInt32.toNat_ofNat']
    omega
  simp only [store, hsub, List.getElem?_eq_getElem hi]

theorem HoldsUpTo.mono {n' : Nat} (h : m.HoldsUpTo base f n) (hn : n' ≤ n) :
    m.HoldsUpTo base f n' := fun i hi hlt => h i hi (by omega)

theorem store_append {addr : UInt32} {a b : List UInt8} (h : a.length + b.length ≤ 2 ^ 32) :
    (m.store addr a).store (addr + UInt32.ofNat a.length) b = m.store addr (a ++ b) := by
  funext x
  have hx := (x - addr).toNat_lt
  rcases Nat.lt_or_ge (x - addr).toNat a.length with hlt | hge
  · have hsub : b.length ≤ (x - (addr + UInt32.ofNat a.length)).toNat := by
      have heq : x - (addr + UInt32.ofNat a.length) = (x - addr) - UInt32.ofNat a.length := by
        grind
      rw [heq, UInt32.toNat_sub, UInt32.toNat_ofNat']
      omega
    simp only [store, List.getElem?_eq_none hsub, List.getElem?_append_left hlt]
  · have hsub : (x - (addr + UInt32.ofNat a.length)).toNat = (x - addr).toNat - a.length := by
      have heq : x - (addr + UInt32.ofNat a.length) = (x - addr) - UInt32.ofNat a.length := by
        grind
      rw [heq, UInt32.toNat_sub, UInt32.toNat_ofNat']
      omega
    simp only [store, hsub, List.getElem?_append_right hge, List.getElem?_eq_none hge]

end Mem32

end UBoot.Lib
