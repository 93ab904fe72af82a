import Mathlib.Order.Bounds.Basic
import Mathlib.Data.List.Induction

/-!
# Running extrema

A loop that keeps the least value so far, from a first one on, ends with the least of all; so does
one that keeps the greatest.
-/

namespace UBoot.Lib

variable {α β : Type*} (f : α → β) (init : β) (xs : List α)

def valuesFrom : Set β := insert init {b | ∃ x ∈ xs, f x = b}

theorem valuesFrom_snoc (x : α) : valuesFrom f init (xs ++ [x]) = valuesFrom f init xs ∪ {f x} := by
  ext b
  simp only [valuesFrom, Set.mem_insert_iff, Set.mem_ofPred_eq, Set.mem_union,
    Set.mem_singleton_iff, List.mem_append, List.mem_singleton, or_and_right, exists_or,
    exists_eq_left, or_assoc,
    eq_comm (a := f x)]

variable [LinearOrder β]

theorem foldl_min_isLeast :
    IsLeast (valuesFrom f init xs) (xs.foldl (fun m x => min m (f x)) init) := by
  induction xs using List.reverseRecOn with
  | nil => simp [valuesFrom]
  | append_singleton xs x ih =>
    rw [List.foldl_append, valuesFrom_snoc]
    exact ih.union isLeast_singleton

theorem foldl_max_isGreatest :
    IsGreatest (valuesFrom f init xs) (xs.foldl (fun m x => max m (f x)) init) := by
  induction xs using List.reverseRecOn with
  | nil => simp [valuesFrom]
  | append_singleton xs x ih =>
    rw [List.foldl_append, valuesFrom_snoc]
    exact ih.union isGreatest_singleton

/-- A first value that one of the others is not above takes no part. -/
theorem isLeast_of_insert {s : Set β} {b m : β} (h : IsLeast (insert init s) m) (hb : b ∈ s)
    (hle : b ≤ init) : IsLeast s m := by
  refine ⟨?_, fun x hx => h.2 (Set.mem_insert_of_mem _ hx)⟩
  rcases h.1 with rfl | hm
  · exact le_antisymm hle (h.2 (Set.mem_insert_of_mem _ hb)) ▸ hb
  · exact hm

theorem isGreatest_of_insert {s : Set β} {b m : β} (h : IsGreatest (insert init s) m) (hb : b ∈ s)
    (hle : init ≤ b) : IsGreatest s m := by
  refine ⟨?_, fun x hx => h.2 (Set.mem_insert_of_mem _ hx)⟩
  rcases h.1 with rfl | hm
  · exact le_antisymm (h.2 (Set.mem_insert_of_mem _ hb)) hle ▸ hb
  · exact hm

end UBoot.Lib
