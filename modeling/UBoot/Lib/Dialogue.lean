import Mathlib.Tactic

/-!
# Loops that ask for something each turn

A loop that gets an answer in each turn, from which it goes on or returns. `talk` is how far it has
come after a number of answers; who answers may look at the state. `talk_inv` is the rule for what
holds after each answer, `talk_returns` the one for termination.
-/

namespace UBoot.Lib

variable {σ ε ρ : Type*}

inductive Next (σ ρ : Type*) where
  | more (s : σ)
  | ret (r : ρ)

/-- The loop after some answers, when `answer k` is number `k`. -/
def talk (turn : σ → ε → Next σ ρ) (answer : ℕ → σ → ε) (start : Next σ ρ) : ℕ → Next σ ρ
  | 0 => start
  | k + 1 =>
    match talk turn answer start k with
    | .more s => turn s (answer k s)
    | .ret r => .ret r

variable {turn : σ → ε → Next σ ρ} {answer : ℕ → σ → ε} {start : Next σ ρ} {k n : ℕ} {s : σ} {r : ρ}

theorem talk_succ_of_more (h : talk turn answer start k = .more s) :
    talk turn answer start (k + 1) = turn s (answer k s) := by
  rw [talk, h]

theorem talk_succ_of_ret (h : talk turn answer start k = .ret r) :
    talk turn answer start (k + 1) = .ret r := by
  rw [talk, h]

theorem talk_of_ret (h : talk turn answer start k = .ret r) (n : ℕ) :
    talk turn answer start (k + n) = .ret r := by
  induction n with
  | zero => exact h
  | succ n ih => exact talk_succ_of_ret ih

/-- **The rule for invariants.** -/
theorem talk_inv {I : Next σ ρ → Prop} (hstart : I start)
    (hturn : ∀ k s, talk turn answer start k = .more s → I (.more s) → I (turn s (answer k s)))
    (k : ℕ) : I (talk turn answer start k) := by
  induction k with
  | zero => exact hstart
  | succ k ih =>
    cases hk : talk turn answer start k with
    | more s =>
      rw [hk] at ih
      rw [talk_succ_of_more hk]
      exact hturn k s hk ih
    | ret r =>
      rw [hk] at ih
      rwa [talk_succ_of_ret hk]

/-- **The rule for termination**, from any turn on: a measure gets less with each answer. -/
theorem talk_returns {m : σ → ℕ} (hk : ∀ s, talk turn answer start k = .more s → m s < n)
    (hturn : ∀ j < n, ∀ s s', talk turn answer start (k + j) = .more s →
      turn s (answer (k + j) s) = .more s' → m s' < m s) :
    ∃ r, talk turn answer start (k + n) = .ret r := by
  have hless : ∀ j ≤ n, ∀ s, talk turn answer start (k + j) = .more s → m s + j < n := by
    intro j
    induction j with
    | zero => exact fun _ s hs => hk s hs
    | succ j ih =>
      intro hj s' hs'
      cases hprev : talk turn answer start (k + j) with
      | more s =>
        have hlt := ih (by omega) s hprev
        have hturn' := hturn j (by omega) s s' hprev ((talk_succ_of_more hprev).symm.trans hs')
        omega
      | ret r =>
        have hret := talk_succ_of_ret hprev
        rw [Nat.add_assoc, hs'] at hret
        cases hret
  cases hend : talk turn answer start (k + n) with
  | ret r => exact ⟨r, rfl⟩
  | more s =>
    have := hless n le_rfl s hend
    omega

end UBoot.Lib
