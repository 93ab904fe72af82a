import UBoot.Lib.Area

/-!
# Blocks of memory

A block is the list of its elements. `load` copies a stretch out of it and `store` one into it, at
an offset that may be computed wrongly: both answer `Oob` unless the whole stretch lies in the
block. `move` is the copy of a stretch over another one, which may overlap it. The lemmas state
them at a split of the block.
-/

namespace UBoot.Lib

theorem ok_bind {ε α β : Type} {a : α} {f : α → Except ε β} : (Except.ok a >>= f) = f a := rfl

namespace Bytes

variable {α : Type*}

def load (b : List α) (off : ℤ) (n : ℕ) : Except Oob (List α) :=
  if 0 ≤ off ∧ off + n ≤ b.length then .ok ((b.drop off.toNat).take n) else .error .read

def store (b : List α) (off : ℤ) (l : List α) : Except Oob (List α) :=
  if 0 ≤ off ∧ off + l.length ≤ b.length then
    .ok (b.take off.toNat ++ l ++ b.drop (off.toNat + l.length))
  else .error .write

/-- `memmove` -/
def move (b : List α) (dst src : ℤ) (n : ℕ) : Except Oob (List α) :=
  load b src n >>= store b dst

variable {b p q s l : List α} {off dst src : ℤ} {n : ℕ}

theorem load_split (hb : b = p ++ s ++ q) (hoff : off = p.length) (hn : n = s.length) :
    load b off n = .ok s := by
  subst hb hoff hn
  have hlen : (p ++ s ++ q).length = p.length + s.length + q.length := by
    rw [List.length_append, List.length_append]
  rw [load, if_pos (by omega), Int.toNat_natCast, List.append_assoc, List.drop_left, List.take_left]

theorem store_split (hb : b = p ++ s ++ q) (hoff : off = p.length) (hl : l.length = s.length) :
    store b off l = .ok (p ++ l ++ q) := by
  subst hb hoff
  have hlen : (p ++ s ++ q).length = p.length + s.length + q.length := by
    rw [List.length_append, List.length_append]
  rw [store, if_pos (by omega), Int.toNat_natCast, hl, ← List.length_append, List.drop_left,
    List.append_assoc p s q, List.take_left]

/-- What is stored behind the front `p` of a block leaves the front and the size as they are. -/
theorem store_prefix (hb : p <+: b) (hoff : off = p.length)
    (hlen : p.length + l.length ≤ b.length) :
    ∃ b', store b off l = .ok b' ∧ p ++ l <+: b' ∧ b'.length = b.length := by
  obtain ⟨q, rfl⟩ := hb
  rw [List.length_append] at hlen
  have hq : q = q.take l.length ++ q.drop l.length := (List.take_append_drop l.length q).symm
  have htake : (q.take l.length).length = l.length := by
    rw [List.length_take]
    omega
  refine ⟨p ++ l ++ q.drop l.length, store_split (s := q.take l.length) ?_ hoff htake.symm,
    List.prefix_append _ _, ?_⟩
  · rw [List.append_assoc, ← hq]
  · rw [List.length_append, List.length_append, List.length_append, List.length_drop]
    omega

theorem open_hole (hb : p ++ s <+: b) (hlen : p.length + l.length + s.length ≤ b.length)
    (hdst : dst = p.length + l.length) (hsrc : src = p.length) (hn : n = s.length) :
    ∃ b₁ b₂, move b dst src n = .ok b₁ ∧ store b₁ src l = .ok b₂ ∧ p ++ l ++ s <+: b₂ ∧
      b₂.length = b.length := by
  have hload : load b src n = .ok s := by
    obtain ⟨q, rfl⟩ := hb
    exact load_split rfl hsrc hn
  -- everything up to the end of the hole stays
  have hfront : b.take (p.length + l.length) <+: b := List.take_prefix _ _
  have htake : (b.take (p.length + l.length)).length = p.length + l.length := by
    rw [List.length_take]
    omega
  obtain ⟨hole, hhole⟩ : p <+: b.take (p.length + l.length) :=
    List.prefix_of_prefix_length_le ((List.prefix_append p s).trans hb) hfront (by omega)
  have hholelen : l.length = hole.length := by
    rw [← hhole, List.length_append] at htake
    omega
  have hend : dst = (b.take (p.length + l.length)).length := by omega
  obtain ⟨_, hstore, ⟨rest, rfl⟩, hlen₁⟩ := store_prefix (l := s) hfront hend (by omega)
  rw [← hhole] at hstore hlen₁
  have hstore₂ : store (p ++ hole ++ s ++ rest) src l = .ok (p ++ l ++ (s ++ rest)) :=
    store_split (by rw [List.append_assoc (p ++ hole)]) hsrc hholelen
  refine ⟨p ++ hole ++ s ++ rest, p ++ l ++ (s ++ rest), ?_, hstore₂, ?_, ?_⟩
  · rw [move, hload]
    exact hstore
  · rw [← List.append_assoc]
    exact List.prefix_append _ _
  · rw [← hlen₁]
    simp only [List.length_append]
    omega

theorem close_hole (hb : p ++ l ++ s <+: b) (hdst : dst = p.length)
    (hsrc : src = p.length + l.length) (hn : n = s.length) :
    ∃ b', move b dst src n = .ok b' ∧ p ++ s <+: b' ∧ b'.length = b.length := by
  have hp : p <+: b := by
    rw [List.append_assoc] at hb
    exact (List.prefix_append _ _).trans hb
  have hlen := hb.length_le
  rw [List.length_append, List.length_append] at hlen
  obtain ⟨b', hstore, hpre, hlen'⟩ := store_prefix (l := s) hp hdst (by omega)
  refine ⟨b', ?_, hpre, hlen'⟩
  obtain ⟨q, rfl⟩ := hb
  rw [move, load_split rfl (by rw [List.length_append, hsrc, Nat.cast_add]) hn]
  exact hstore

end Bytes

end UBoot.Lib
