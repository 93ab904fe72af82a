import Mathlib.Tactic

/-!
# Ring buffers

A ring of `n` slots with two indices and no counter. `Ring.next` moves an index on,
`Ring.used` is the number of slots from the one index up to the other, and
`Ring.window` is what `k` slots hold from an index on. Two equal indices have no slot
between them: `n` slots in use cannot be told from none (`used_lt`).
-/

namespace UBoot.Lib.Ring

variable {α : Type*} {buf : Nat → α} {n i k : Nat}

/-- The slot behind slot `i`. -/
def next (n i : Nat) : Nat := if i + 1 = n then 0 else i + 1

/-- The number of slots from `first` up to `last`. -/
def used (n first last : Nat) : Nat :=
  if first ≤ last then last - first else n - (first - last)

/-- What `k` slots hold from slot `i` on. -/
def window (buf : Nat → α) (n i k : Nat) : List α :=
  (List.range k).map fun j => buf ((i + j) % n)

theorem next_eq (hi : i < n) : next n i = (i + 1) % n := by
  rw [next]
  split_ifs with h
  · rw [h, Nat.mod_self]
  · rw [Nat.mod_eq_of_lt (by omega)]

theorem next_lt (hi : i < n) : next n i < n := by
  rw [next_eq hi]
  exact Nat.mod_lt _ (by omega)

theorem next_add (hn : 0 < n) : next n ((i + k) % n) = (i + (k + 1)) % n := by
  rw [next_eq (Nat.mod_lt _ hn), Nat.mod_add_mod, Nat.add_assoc]

theorem used_lt {first last : Nat} (hf : first < n) (hl : last < n) : used n first last < n := by
  rw [used]
  split_ifs <;> omega

theorem used_eq_zero {first last : Nat} (hf : first < n) :
    used n first last = 0 ↔ first = last := by
  rw [used]
  split_ifs <;> omega

theorem add_used {first last : Nat} (hf : first < n) (hl : last < n) :
    (first + used n first last) % n = last := by
  rw [used]
  split_ifs with h
  · rw [Nat.add_sub_cancel' h, Nat.mod_eq_of_lt hl]
  · rw [show first + (n - (first - last)) = last + n by omega, Nat.add_mod_right,
      Nat.mod_eq_of_lt hl]

theorem used_add (hi : i < n) (hk : k < n) : used n i ((i + k) % n) = k := by
  rw [used]
  rcases Nat.lt_or_ge (i + k) n with h | h
  · rw [Nat.mod_eq_of_lt h, if_pos (by omega), Nat.add_sub_cancel_left]
  · have hmod : (i + k) % n = i + k - n := by
      rw [Nat.mod_eq_sub_mod h, Nat.mod_eq_of_lt (by omega)]
    rw [hmod, if_neg (by omega)]
    omega

theorem used_next {first last m : Nat} (hf : first < n) (hl : last < n)
    (h : used n first last = m + 1) : used n (next n first) last = m := by
  rw [used] at h
  rw [used, next]
  split_ifs at h ⊢ <;> omega

theorem add_size (hi : i < n) : (i + n) % n = i := by
  rw [Nat.add_mod_right, Nat.mod_eq_of_lt hi]

theorem slot_ne {j : Nat} (hj : j < k) (hk : k < n) : (i + j) % n ≠ (i + k) % n := fun h => by
  have hmod : j ≡ k [MOD n] := Nat.ModEq.add_left_cancel' i h
  rw [Nat.ModEq, Nat.mod_eq_of_lt (hj.trans hk), Nat.mod_eq_of_lt hk] at hmod
  omega

@[simp] theorem window_zero : window buf n i 0 = [] := rfl

@[simp] theorem window_length : (window buf n i k).length = k := by
  rw [window, List.length_map, List.length_range]

theorem window_succ : window buf n i (k + 1) = window buf n i k ++ [buf ((i + k) % n)] := by
  rw [window, window, List.range_succ, List.map_append, List.map_singleton]

theorem window_cons (hi : i < n) :
    window buf n i (k + 1) = buf i :: window buf n (next n i) k := by
  rw [window, window, List.range_succ_eq_map, List.map_cons, List.map_map, Nat.add_zero,
    Nat.mod_eq_of_lt hi]
  congr 1
  refine List.map_congr_left fun j _ => congrArg buf ?_
  change (i + (j + 1)) % n = (next n i + j) % n
  rw [next_eq hi, Nat.mod_add_mod, Nat.add_assoc, Nat.add_comm j 1]

/-- The slot behind a window is not in it. -/
theorem window_update (hk : k < n) (c : α) :
    window (Function.update buf ((i + k) % n) c) n i k = window buf n i k := by
  refine List.map_congr_left fun j hj => ?_
  rw [Function.update_of_ne (slot_ne (List.mem_range.mp hj) hk)]

theorem window_push (hk : k < n) (c : α) :
    window (Function.update buf ((i + k) % n) c) n i (k + 1) = window buf n i k ++ [c] := by
  rw [window_succ, window_update hk, Function.update_self]

end UBoot.Lib.Ring
