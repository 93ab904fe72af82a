import Mathlib.Logic.Function.Basic
import Mathlib.Tactic.Common

/-!
# Passes over a memory

A pass is a counting loop whose body may return from the function (`upTo`); `Ends` says what holds
where it runs to its end and where it has returned. `fill` is a pass of stores through an address
decoder that may send two addresses to one cell: with distinct values, the word read back at an
address is the stored one exactly where no later store went to its cell (`fill_route_iff`).
-/

namespace UBoot.Lib

section
universe u
variable {ε : Type*} {σ τ : Type u}

/-- `Q` of the value, `E` of the failure. -/
def Ends (x : Except ε σ) (Q : σ → Prop) (E : ε → Prop) : Prop :=
  match x with
  | .ok s => Q s
  | .error e => E e

variable {x : Except ε σ} {Q Q' : σ → Prop} {E E' : ε → Prop} {f : σ → Except ε τ} {R : τ → Prop}
  {s : σ} {e : ε}

@[simp] theorem ends_ok : Ends (.ok s) Q E ↔ Q s := Iff.rfl

@[simp] theorem ends_error : Ends (.error e) Q E ↔ E e := Iff.rfl

theorem Ends.mono (h : Ends x Q E) (hQ : ∀ s, Q s → Q' s) (hE : ∀ e, E e → E' e) :
    Ends x Q' E' := by
  cases x with
  | ok s => exact hQ s h
  | error e => exact hE e h

theorem Ends.bind (h : Ends x Q E) (hf : ∀ s, Q s → Ends (f s) R E) : Ends (x >>= f) R E := by
  cases x with
  | ok s => exact hf s h
  | error e => exact h

theorem Ends.exists_ok (h : Ends x Q fun _ => False) : ∃ s, x = .ok s ∧ Q s := by
  cases x with
  | ok s => exact ⟨s, rfl, h⟩
  | error e => exact h.elim

/-- `for (i = 0; i < n; i++)` around a body that may return. -/
def upTo (step : ℕ → σ → Except ε σ) : ℕ → σ → Except ε σ
  | 0, s => .ok s
  | n + 1, s => upTo step n s >>= step n

/-- An invariant that each turn keeps or returns from. -/
theorem Ends.upTo {step : ℕ → σ → Except ε σ} {I : ℕ → σ → Prop} {n : ℕ} (h0 : I 0 s)
    (hstep : ∀ i < n, ∀ s, I i s → Ends (step i s) (I (i + 1)) E) :
    Ends (upTo step n s) (I n) E := by
  induction n with
  | zero => exact h0
  | succ n ih =>
    exact Ends.bind (ih fun i hi => hstep i (by omega)) (hstep n (Nat.lt_succ_self n))

end

section
variable {κ α : Type*} [DecidableEq κ] {route : ℕ → κ} {f : ℕ → α} {m : κ → α} {c : κ} {i n : ℕ}

/-- The memory after `n` stores, of `f i` into the cell that `route i` selects. -/
def fill (route : ℕ → κ) (f : ℕ → α) (m : κ → α) : ℕ → κ → α
  | 0 => m
  | n + 1 => Function.update (fill route f m n) (route n) (f n)

variable (route f m) in
theorem exists_fill_eq (hi : i < n) : ∃ j < n, route j = route i ∧
    fill route f m n (route i) = f j ∧ ∀ k < n, route k = route i → k ≤ j := by
  induction n with
  | zero => omega
  | succ n ih =>
    by_cases hn : route n = route i
    · refine ⟨n, Nat.lt_succ_self n, hn, ?_, fun k hk _ => by omega⟩
      rw [fill, ← hn, Function.update_self]
    · have hin : i < n := (Nat.lt_succ_iff_lt_or_eq.mp hi).resolve_right fun h => hn (h ▸ rfl)
      obtain ⟨j, hj, hroute, hval, hlast⟩ := ih hin
      refine ⟨j, by omega, hroute, ?_, fun k hk hki => ?_⟩
      · rw [fill, Function.update_of_ne (Ne.symm hn), hval]
      · rcases Nat.lt_succ_iff_lt_or_eq.mp hk with hk' | rfl
        · exact hlast k hk' hki
        · exact absurd hki hn

/-- **A pass of distinct values finds an address whose cell was written later.** -/
theorem fill_route_iff (hf : ∀ i < n, ∀ j < n, f i = f j → i = j) (hi : i < n) :
    fill route f m n (route i) = f i ↔ ∀ k < n, route k = route i → k ≤ i := by
  obtain ⟨j, hj, hroute, hval, hlast⟩ := exists_fill_eq route f m hi
  rw [hval]
  constructor
  · intro hji
    exact hf j hj i hi hji ▸ hlast
  · intro hlast'
    rw [Nat.le_antisymm (hlast' j hj hroute) (hlast i hi rfl)]

end

end UBoot.Lib
