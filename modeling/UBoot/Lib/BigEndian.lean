import UBoot.Lib.Mem32

/-!
# Big-endian words in memory

`beBytes` is a 32-bit word in network byte order, `beWord` reads it back. `Mem32.read` and
`Mem32.word` are the bytes and the word at an address; where a block of bytes lies in memory they
are a part of the block (`HoldsUpTo.read`, `HoldsUpTo.word_split`).
-/

namespace UBoot.Lib

def beBytes (x : UInt32) : List UInt8 :=
  [(x >>> 24).toUInt8, (x >>> 16).toUInt8, (x >>> 8).toUInt8, x.toUInt8]

def beWord : List UInt8 → UInt32
  | [a, b, c, d] => UInt32.ofNat (((a.toNat * 256 + b.toNat) * 256 + c.toNat) * 256 + d.toNat)
  | _ => 0

@[simp] theorem beBytes_length (x : UInt32) : (beBytes x).length = 4 := rfl

@[simp] theorem beWord_beBytes (x : UInt32) : beWord (beBytes x) = x := by
  have hx := x.toNat_lt
  rw [← UInt32.toNat_inj]
  simp only [beWord, beBytes, UInt32.toNat_ofNat', UInt32.toNat_toUInt8, UInt32.toNat_shiftRight,
    Nat.shiftRight_eq_div_pow, UInt32.reduceToNat, Nat.reduceMod, Nat.reducePow]
  omega

namespace Mem32

variable {m m' : Mem32} {base a : UInt32} {f p q : List UInt8} {n o k : Nat} {x : UInt32}

/-- The `n` bytes at `a`. -/
def read (m : Mem32) (a : UInt32) (n : Nat) : List UInt8 :=
  (List.range n).map fun i => m (a + UInt32.ofNat i)

/-- The word at `a`, in network byte order. -/
def word (m : Mem32) (a : UInt32) : UInt32 := beWord (m.read a 4)

@[simp] theorem read_length : (m.read a n).length = n := by
  rw [read, List.length_map, List.length_range]

theorem getElem_read {i : Nat} (h : i < (m.read a n).length) :
    (m.read a n)[i] = m (a + UInt32.ofNat i) := by
  simp only [read, List.getElem_map, List.getElem_range]

theorem read_congr (h : ∀ i < n, m (a + UInt32.ofNat i) = m' (a + UInt32.ofNat i)) :
    m.read a n = m'.read a n :=
  List.map_congr_left fun i hi => h i (List.mem_range.mp hi)

theorem word_congr (h : ∀ i < 4, m (a + UInt32.ofNat i) = m' (a + UInt32.ofNat i)) :
    m.word a = m'.word a := by rw [word, word, read_congr h]

theorem HoldsUpTo.read (h : m.HoldsUpTo base f n) (hn : n ≤ f.length) (hk : o + k ≤ n) :
    m.read (base + UInt32.ofNat o) k = (f.drop o).take k := by
  have hlen : ((f.drop o).take k).length = k := by
    rw [List.length_take, List.length_drop]
    omega
  refine List.ext_getElem (by rw [read_length, hlen]) fun i hi hi' => ?_
  rw [read_length] at hi
  have haddr : base + UInt32.ofNat o + UInt32.ofNat i = base + UInt32.ofNat (o + i) := by
    rw [UInt32.ofNat_add, UInt32.add_assoc]
  rw [List.getElem_take, List.getElem_drop, getElem_read, haddr]
  exact h (o + i) (by omega) (by omega)

theorem HoldsUpTo.read_split (h : m.HoldsUpTo base (p ++ f ++ q) n)
    (hn : p.length + f.length ≤ n) : m.read (base + UInt32.ofNat p.length) f.length = f := by
  have hsub : m.HoldsUpTo base (p ++ f ++ q) (p.length + f.length) := h.mono hn
  rw [hsub.read (by simp) (Nat.le_refl _), List.append_assoc, List.drop_left, List.take_left]

theorem HoldsUpTo.word_split (h : m.HoldsUpTo base (p ++ beBytes x ++ q) n)
    (hn : p.length + 4 ≤ n) : m.word (base + UInt32.ofNat p.length) = x := by
  have hread : m.read (base + UInt32.ofNat p.length) (beBytes x).length = beBytes x :=
    h.read_split hn
  rw [word, ← beBytes_length x, hread, beWord_beBytes]

theorem HoldsUpTo.behind (h : m.HoldsUpTo base (p ++ q) n) :
    m.HoldsUpTo (base + UInt32.ofNat p.length) q (n - p.length) := by
  intro i hi hlt
  have hlen : p.length + i < (p ++ q).length := by
    rw [List.length_append]
    omega
  rw [UInt32.add_assoc, ← UInt32.ofNat_add, h (p.length + i) hlen (by omega),
    List.getElem_append_right (Nat.le_add_right ..)]
  simp only [Nat.add_sub_cancel_left]

theorem store_outside (h : ∀ i < f.length, a ≠ base + UInt32.ofNat i) : m.store base f a = m a := by
  have hlen : f.length ≤ (a - base).toNat := by
    by_contra hlt
    refine h (a - base).toNat (by omega) ?_
    rw [UInt32.ofNat_toNat]
    grind
  exact store_behind_end hlen

end Mem32

end UBoot.Lib
