import Mathlib.Logic.Relation
import Mathlib.Order.Basic
import Mathlib.Algebra.Notation.Defs

/-!
# Halving an interval

A search for the place where the sign of `f` changes from positive to negative, in the intervals
`l ≤ i < h` that halving leads to. What has been left out below is positive, and what has been left
out above is negative.
-/

namespace UBoot.Lib.Bisect

variable {α : Type*} [Zero α] [Preorder α] (f : ℕ → α)

/-- The probe of an interval that is not empty. -/
def mid (l h : ℕ) : ℕ := (l + h - 1) / 2

/-- One halving; a probe that is 0 ends the search. -/
inductive Step : ℕ × ℕ → ℕ × ℕ → Prop where
  | left {l h : ℕ} (hlt : l < h) (hf : f (mid l h) < 0) : Step (l, h) (l, mid l h)
  | right {l h : ℕ} (hlt : l < h) (hf : 0 < f (mid l h)) : Step (l, h) (mid l h + 1, h)

/-- The sign of `f` falls. -/
structure Falls (n : ℕ) : Prop where
  pos : ∀ i j, i ≤ j → j < n → 0 < f j → 0 < f i
  neg : ∀ i j, i ≤ j → j < n → f i < 0 → f j < 0

/-- The place of the change, or of the 0s, lies in the interval. -/
structure Brackets (n l h : ℕ) : Prop where
  le : l ≤ h
  bound : h ≤ n
  below : ∀ i < l, 0 < f i
  above : ∀ i, h ≤ i → i < n → f i < 0

variable {f} {n l h : ℕ} {p q r : ℕ × ℕ}

theorem le_mid (hlt : l < h) : l ≤ mid l h := by
  unfold mid
  omega

theorem mid_lt (hlt : l < h) : mid l h < h := by
  unfold mid
  omega

theorem brackets_start (n : ℕ) : Brackets f n 0 n where
  le := Nat.zero_le n
  bound := Nat.le_refl n
  below _ hi := absurd hi (Nat.not_lt_zero _)
  above _ hi hn := absurd hn (Nat.not_lt_of_le hi)

theorem Brackets.left (hb : Brackets f n l h) (hfalls : Falls f n) (hlt : l < h)
    (hf : f (mid l h) < 0) : Brackets f n l (mid l h) where
  le := le_mid hlt
  bound := Nat.le_trans (Nat.le_of_lt (mid_lt hlt)) hb.bound
  below := hb.below
  above i hi hn := hfalls.neg _ i hi hn hf

theorem Brackets.right (hb : Brackets f n l h) (hfalls : Falls f n) (hlt : l < h)
    (hf : 0 < f (mid l h)) : Brackets f n (mid l h + 1) h where
  le := mid_lt hlt
  bound := hb.bound
  below i hi :=
    hfalls.pos i _ (Nat.lt_succ_iff.1 hi) (Nat.lt_of_lt_of_le (mid_lt hlt) hb.bound) hf
  above := hb.above

theorem Step.brackets (hs : Step f p q) (hfalls : Falls f n) (hb : Brackets f n p.1 p.2) :
    Brackets f n q.1 q.2 := by
  cases hs with
  | left hlt hf => exact hb.left hfalls hlt hf
  | right hlt hf => exact hb.right hfalls hlt hf

theorem Step.rightUnique (hq : Step f p q) (hr : Step f p r) : q = r := by
  cases hq with
  | left hlt hf =>
    cases hr with
    | left => rfl
    | right _ hf' => exact absurd hf (not_lt_of_gt hf')
  | right hlt hf =>
    cases hr with
    | left _ hf' => exact absurd hf (not_lt_of_gt hf')
    | right => rfl

/-- The ends of every interval that halving leads to add up to at most `b`. -/
def Within (f : ℕ → α) (b : ℕ) (p : ℕ × ℕ) : Prop :=
  ∀ q, Relation.ReflTransGen (Step f) p q → q.1 < q.2 → q.1 + q.2 ≤ b

variable {b : ℕ}

theorem within_of_le (hle : h ≤ l) : Within f b (l, h) := by
  intro q hq
  rcases Relation.ReflTransGen.cases_head hq with rfl | ⟨r, hr, -⟩
  · exact fun hlt => absurd hlt (Nat.not_lt_of_le hle)
  · cases hr with
    | left hlt => exact absurd hlt (Nat.not_lt_of_le hle)
    | right hlt => exact absurd hlt (Nat.not_lt_of_le hle)

theorem within_of_zero (hf : f (mid l h) = 0) (hb : l + h ≤ b) : Within f b (l, h) := by
  intro q hq
  rcases Relation.ReflTransGen.cases_head hq with rfl | ⟨r, hr, -⟩
  · exact fun _ => hb
  · cases hr with
    | left _ hf' => exact absurd hf hf'.ne
    | right _ hf' => exact absurd hf hf'.ne'

theorem within_iff_of_step (hs : Step f p q) (hb : p.1 + p.2 ≤ b) :
    Within f b p ↔ Within f b q := by
  refine ⟨fun hw r hr => hw r (hr.head hs), fun hw r hr => ?_⟩
  rcases Relation.ReflTransGen.cases_head hr with rfl | ⟨r', hr', htail⟩
  · exact fun _ => hb
  · cases hs.rightUnique hr'
    exact hw r htail

theorem Brackets.within (hb : Brackets f n l h) (hfalls : Falls f n) (hn : 2 * n ≤ b + 1) :
    Within f b (l, h) := by
  intro q hq
  suffices hbrackets : Brackets f n q.1 q.2 by
    intro hlt
    have hbound := hbrackets.bound
    omega
  induction hq with
  | refl => exact hb
  | tail _ hstep ih => exact hstep.brackets hfalls ih

end UBoot.Lib.Bisect
