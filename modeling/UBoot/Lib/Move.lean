import UBoot.Lib.BigEndian

/-!
# Moving a block of memory in pieces

`move` copies a block as if through a buffer, so source and destination may overlap. `moveChunks`
moves pieces of at most `c` bytes, one after another from the lowest address on. `moveChunks_iff`:
for which blocks that is the same.
-/

namespace UBoot.Lib.Mem32

/-- The `n` bytes at `src`, copied to `dst`. -/
def move (m : Mem32) (dst src : UInt32) (n : ℕ) : Mem32 := m.store dst (m.read src n)

/-- Pieces of at most `c` bytes. -/
def moveChunks (c : ℕ) [NeZero c] (m : Mem32) (dst src : UInt32) (l : ℕ) : Mem32 :=
  if _h : l > 0 then
    let tail := if l > c then c else l
    moveChunks c (m.move dst src tail) (dst + UInt32.ofNat tail) (src + UInt32.ofNat tail)
      (l - tail)
  else m
termination_by l
decreasing_by
  have hc := NeZero.pos c
  split <;> omega

section
variable {m : Mem32} {dst src a : UInt32} {n k l c : ℕ} [NeZero c]

theorem move_apply : m.move dst src n a =
    if (a - dst).toNat < n then m (src + (a - dst)) else m a := by
  simp only [move, store]
  split_ifs with h
  · rw [List.getElem?_eq_getElem (by rwa [read_length]), getElem_read, UInt32.ofNat_toNat]
  · rw [List.getElem?_eq_none (by rw [read_length]; omega)]

@[simp] theorem move_zero : m.move dst src 0 = m := by
  funext a
  rw [move_apply, if_neg (Nat.not_lt_zero _)]

@[simp] theorem move_self : m.move src src n = m := by
  funext a
  have ha : src + (a - src) = a := by grind
  rw [move_apply, ha, ite_self]

theorem moveChunks_of_le (h : l ≤ c) : moveChunks c m dst src l = m.move dst src l := by
  have hzero (m : Mem32) (dst src : UInt32) : moveChunks c m dst src 0 = m := by
    rw [moveChunks, dif_neg (Nat.lt_irrefl 0)]
  by_cases hpos : 0 < l
  · rw [moveChunks, dif_pos hpos, if_neg (Nat.not_lt.mpr h)]
    dsimp only
    rw [Nat.sub_self, hzero]
  · rw [Nat.eq_zero_of_not_pos hpos, hzero, move_zero]

theorem moveChunks_of_gt (h : c < l) : moveChunks c m dst src l =
    moveChunks c (m.move dst src c) (dst + UInt32.ofNat c) (src + UInt32.ofNat c) (l - c) := by
  rw [moveChunks, dif_pos (by omega), if_pos h]

theorem move_const (x : UInt8) : move (fun _ => x) dst src n = fun _ => x := by
  funext a
  rw [move_apply, ite_self]

theorem moveChunks_const (x : UInt8) : moveChunks c (fun _ => x) dst src l = fun _ => x := by
  induction l using Nat.strong_induction_on generalizing dst src with
  | _ l ih =>
    rcases Nat.lt_or_ge c l with hlong | hle
    · have hc := NeZero.pos c
      rw [moveChunks_of_gt hlong, move_const]
      exact ih (l - c) (by omega)
    · rw [moveChunks_of_le hle, move_const]

theorem read_append : m.read src (n + k) = m.read src n ++ m.read (src + UInt32.ofNat n) k := by
  rw [read, List.range_add, List.map_append, List.map_map, read, read]
  congr 1
  refine List.map_congr_left fun i _ => ?_
  rw [Function.comp_apply, UInt32.ofNat_add, UInt32.add_assoc]

/-- Two pieces are one block if the first does not change what the second reads. -/
theorem move_move (hl : n + k < 2 ^ 32) (h : dst = src ∨ n + k ≤ (dst - src).toNat) :
    (m.move dst src n).move (dst + UInt32.ofNat n) (src + UInt32.ofNat n) k =
      m.move dst src (n + k) := by
  obtain rfl | hdist := h
  · rw [move_self, move_self, move_self]
  have hread : (m.move dst src n).read (src + UInt32.ofNat n) k =
      m.read (src + UInt32.ofNat n) k := by
    refine read_congr fun i hi => ?_
    have hsub : src + UInt32.ofNat n + UInt32.ofNat i - dst =
        UInt32.ofNat (n + i) - (dst - src) := by
      rw [UInt32.ofNat_add]
      grind
    have hlt := (dst - src).toNat_lt
    rw [move_apply, hsub, if_neg]
    rw [UInt32.toNat_sub, UInt32.toNat_ofNat']
    omega
  have hstore : (m.store dst (m.read src n)).store (dst + UInt32.ofNat (m.read src n).length)
      (m.read (src + UInt32.ofNat n) k) = _ :=
    store_append (by rw [read_length, read_length]; omega)
  rw [read_length] at hstore
  rw [move, hread, move, move, hstore, read_append]

theorem moveChunks_of_apart (hl : l < 2 ^ 32)
    (h : l ≤ c ∨ dst = src ∨ l ≤ (dst - src).toNat) :
    moveChunks c m dst src l = m.move dst src l := by
  induction l using Nat.strong_induction_on generalizing m dst src with
  | _ l ih =>
    rcases Nat.lt_or_ge c l with hlong | hle
    · have hc := NeZero.pos c
      have hapart : dst = src ∨ l ≤ (dst - src).toNat := h.resolve_left (by omega)
      have hsub : dst + UInt32.ofNat c - (src + UInt32.ofNat c) = dst - src := by grind
      have hrest : l - c ≤ c ∨ dst + UInt32.ofNat c = src + UInt32.ofNat c ∨
          l - c ≤ (dst + UInt32.ofNat c - (src + UInt32.ofNat c)).toNat := by
        rw [hsub]
        exact .inr (hapart.imp (fun h => by rw [h]) (by omega))
      have hsum : c + (l - c) = l := by omega
      rw [moveChunks_of_gt hlong, ih (l - c) (by omega) (by omega) hrest,
        move_move (by omega) (by rwa [hsum]), hsum]
    · exact moveChunks_of_le hle

/-- **A move in pieces** is that of the block exactly for a block of one piece, or if the
destination does not begin inside the source. -/
theorem moveChunks_iff (hl : l < 2 ^ 32) :
    (∀ m : Mem32, moveChunks c m dst src l = m.move dst src l) ↔
      l ≤ c ∨ dst = src ∨ l ≤ (dst - src).toNat := by
  refine ⟨fun h => ?_, fun h m => moveChunks_of_apart hl h⟩
  by_contra hnot
  obtain ⟨hlong, hne, hinside⟩ : c < l ∧ dst ≠ src ∧ (dst - src).toNat < l := by
    simpa only [not_or, not_le] using hnot
  have hd : (dst - src).toNat ≠ 0 := by
    intro h0
    have hsub : dst - src = 0 := UInt32.toNat_inj.mp h0
    exact hne (by grind)
  -- the first piece overwrites byte `j` of the source, which is not in that piece
  obtain ⟨j, hj, hjc, hjd, hjlt⟩ : ∃ j < l, c ≤ j ∧ (dst - src).toNat ≤ j ∧
      j < (dst - src).toNat + c := by
    have hc := NeZero.pos c
    rcases Nat.le_total c (dst - src).toNat with hle | hle
    · exact ⟨(dst - src).toNat, hinside, hle, le_rfl, by omega⟩
    · exact ⟨c, hlong, le_rfl, hle, by omega⟩
  have hjn : (UInt32.ofNat j).toNat = j := UInt32.toNat_ofNat_of_lt' (hj.trans hl)
  let m : Mem32 := fun a => if a = src + UInt32.ofNat j then 1 else 0
  have hzero : m.move dst src c = fun _ => 0 := by
    funext a
    rw [move_apply]
    split_ifs with ha
    · refine if_neg fun heq => ?_
      have hsub : a - dst = UInt32.ofNat j := by grind
      rw [hsub, hjn] at ha
      omega
    · refine if_neg fun heq => ha ?_
      have hsub : a - dst = UInt32.ofNat j - (dst - src) := by grind
      rw [hsub, UInt32.toNat_sub, hjn]
      omega
  have hone : m.move dst src l (dst + UInt32.ofNat j) = 1 := by
    have hsub : dst + UInt32.ofNat j - dst = UInt32.ofNat j := by grind
    rw [move_apply, hsub, hjn, if_pos hj]
    exact if_pos rfl
  rw [← h m, moveChunks_of_gt hlong, hzero, moveChunks_const] at hone
  exact UInt8.zero_ne_one hone

end

end UBoot.Lib.Mem32
