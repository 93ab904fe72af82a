import Mathlib.Tactic

/-!
# Loops over events

A `do ... while` loop that takes one event a turn: the body gives the new state and whether the
loop goes on. `loop_resume`: a loop left on an event that changes nothing has stopped where it would
have gone on.
-/

namespace UBoot.Lib

variable {σ ε : Type*}

/-- The state in which the loop ends; `none` if it wants another event. -/
def loop (body : σ → ε → σ × Bool) : σ → List ε → Option σ
  | _, [] => none
  | s, e :: es => if (body s e).2 then loop body (body s e).1 es else some (body s e).1

variable {body : σ → ε → σ × Bool} {s : σ} {e : ε} {xs ys : List ε}

theorem loop_append (h : ∀ x ∈ xs, ∀ s, (body s x).2 = true) :
    loop body s (xs ++ ys) = loop body (xs.foldl (fun s x => (body s x).1) s) ys := by
  induction xs generalizing s with
  | nil => rfl
  | cons x xs ih =>
    obtain ⟨hx, hxs⟩ := List.forall_mem_cons.mp h
    rw [List.cons_append, loop, if_pos (hx s), ih hxs, List.foldl_cons]

theorem loop_end (h : body s e = (s, false)) : loop body s (e :: ys) = some s := by
  rw [loop, h]
  rfl

/-- **A loop goes on where it stopped.** -/
theorem loop_resume (h : ∀ x ∈ xs, ∀ s, (body s x).2 = true) (he : ∀ s, body s e = (s, false)) :
    ∃ s', loop body s (xs ++ [e]) = some s' ∧
      ∀ ys, loop body s (xs ++ ys) = loop body s' ys :=
  ⟨_, by rw [loop_append h, loop_end (he _)], fun _ => loop_append h⟩

end UBoot.Lib
