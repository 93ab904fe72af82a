import Mathlib.Tactic

/-!
# Runs of labelled transition systems

`Run step s es s'` says that the events `es`, taken in order, lead from `s` to
`s'`. `Only P step` keeps the steps taken where `P` holds, so that "every step of
the run meets `P`" is a run of `Only P step`. `Run.invariant` packages the
induction over a run: an invariant that every step preserves holds in every state
reached.
-/

namespace UBoot.Lib

variable {σ ε : Type*}

/-- The events `es` lead from one state to another. -/
inductive Run (step : σ → ε → σ → Prop) : σ → List ε → σ → Prop where
  | nil (s : σ) : Run step s [] s
  | cons {s s' s'' : σ} {e : ε} {es : List ε} :
      step s e s' → Run step s' es s'' → Run step s (e :: es) s''

/-- The steps taken from a state and on an event that meet `P`. -/
def Only (P : σ → ε → Prop) (step : σ → ε → σ → Prop) (s : σ) (e : ε) (s' : σ) : Prop :=
  P s e ∧ step s e s'

variable {step step' : σ → ε → σ → Prop}

theorem Run.single {s s' : σ} {e : ε} (h : step s e s') : Run step s [e] s' := .cons h (.nil _)

theorem Run.mono {s s' : σ} {es : List ε} (hstep : ∀ s e s', step s e s' → step' s e s')
    (h : Run step s es s') : Run step' s es s' := by
  induction h with
  | nil => exact .nil _
  | cons hs _ ih => exact .cons (hstep _ _ _ hs) ih

theorem Run.of_only {P : σ → ε → Prop} {s s' : σ} {es : List ε} (h : Run (Only P step) s es s') :
    Run step s es s' := h.mono fun _ _ _ h => h.2

theorem Run.only {P : σ → ε → Prop} {s s' : σ} {es : List ε} (hP : ∀ e ∈ es, ∀ s, P s e)
    (h : Run step s es s') : Run (Only P step) s es s' := by
  induction h with
  | nil => exact .nil _
  | cons hs _ ih =>
    obtain ⟨he, hP⟩ := List.forall_mem_cons.mp hP
    exact .cons ⟨he _, hs⟩ (ih hP)

/-- **The invariant rule.** What every step preserves holds in every state reached. -/
theorem Run.invariant {I : σ → Prop} {s s' : σ} {es : List ε}
    (hstep : ∀ s e s', I s → step s e s' → I s') (hs : I s) (h : Run step s es s') : I s' := by
  induction h with
  | nil => exact hs
  | cons hs' _ ih => exact ih (hstep _ _ _ hs hs')

theorem Run.invariant_of {I : σ → Prop} {P : ε → Prop} {s s' : σ} {es : List ε}
    (hstep : ∀ s e s', P e → I s → step s e s' → I s') (hP : ∀ e ∈ es, P e) (hs : I s)
    (h : Run step s es s') : I s' := by
  induction h with
  | nil => exact hs
  | cons hs' _ ih =>
    obtain ⟨he, hP⟩ := List.forall_mem_cons.mp hP
    exact ih hP (hstep _ _ _ he hs hs')

/-- Two systems whose steps agree wherever an invariant of the first holds have the same runs. -/
theorem Run.congr_of_invariant {I : σ → Prop} {s s' : σ} {es : List ε}
    (hiff : ∀ s e s', I s → (step s e s' ↔ step' s e s'))
    (hstep : ∀ s e s', I s → step s e s' → I s') (hs : I s) :
    Run step s es s' ↔ Run step' s es s' := by
  constructor
  · intro h
    induction h with
    | nil => exact .nil _
    | cons hs' _ ih => exact .cons ((hiff _ _ _ hs).mp hs') (ih (hstep _ _ _ hs hs'))
  · intro h
    induction h with
    | nil => exact .nil _
    | cons hs' _ ih =>
      have hs' := (hiff _ _ _ hs).mpr hs'
      exact .cons hs' (ih (hstep _ _ _ hs hs'))

theorem Run.of_check {f : σ → ε → Option σ} {check : σ → Bool} {s : σ} {es : List ε}
    (h : (es.foldlM f s).any check = true) :
    ∃ s', Run (fun s e s' => f s e = some s') s es s' ∧ check s' = true := by
  induction es generalizing s with
  | nil => exact ⟨s, .nil s, h⟩
  | cons e es ih =>
    rw [List.foldlM_cons] at h
    cases hf : f s e with
    | none => rw [hf] at h; cases h
    | some s₁ =>
      rw [hf] at h
      obtain ⟨s', hrun, hc⟩ := ih h
      exact ⟨s', .cons hf hrun, hc⟩

/-- `n` steps of a function that gives each event itself, from states that meet `ok`. -/
def follow (f : σ → Option (ε × σ)) (ok : σ → Bool) : Nat → σ → Option σ
  | 0, s => some s
  | n + 1, s => if ok s then (f s).bind fun r => follow f ok n r.2 else none

theorem Run.of_follow {f : σ → Option (ε × σ)} {s : σ} (ok check : σ → Bool) (n : Nat)
    (h : (follow f ok n s).any check = true) :
    ∃ es s', Run (Only (fun s _ => ok s = true) fun s e s' => f s = some (e, s')) s es s' ∧
      check s' = true := by
  induction n generalizing s with
  | zero => exact ⟨[], s, .nil s, h⟩
  | succ n ih =>
    rw [follow] at h
    split_ifs at h with hok
    · cases hf : f s with
      | none => rw [hf] at h; cases h
      | some r =>
        rw [hf] at h
        obtain ⟨es, s', hrun, hc⟩ := ih h
        exact ⟨r.1 :: es, s', .cons ⟨hok, hf⟩ hrun, hc⟩
    · cases h

/-- `P` holds at every step of the run of a total transition function. -/
def Along (f : σ → ε → σ) (P : σ → ε → Prop) : σ → List ε → Prop
  | _, [] => True
  | s, e :: es => P s e ∧ Along f P (f s e) es

section
variable {f : σ → ε → σ} {P : σ → ε → Prop} {s : σ} {es : List ε}

/-- A state predicate that one step keeps exactly when `P` holds there. -/
theorem foldl_iff_along {I : σ → Prop} (h : ∀ s e, I (f s e) ↔ I s ∧ P s e) :
    I (es.foldl f s) ↔ I s ∧ Along f P s es := by
  induction es generalizing s with
  | nil => exact (and_iff_left trivial).symm
  | cons e es ih => rw [List.foldl_cons, ih, h, and_assoc]; rfl

/-- Where steps that meet `P` keep an invariant that implies `Q`, and the others lead out of `Q`,
`Q` holds in every state reached exactly when every step meets `P`. -/
theorem forall_prefix_iff_along {I Q : σ → Prop} (hI : I s) (hQ : ∀ s, I s → Q s)
    (hkeep : ∀ s e, I s → P s e → I (f s e)) (hleave : ∀ s e, I s → ¬ P s e → ¬ Q (f s e)) :
    (∀ es', es' <+: es → Q (es'.foldl f s)) ↔ Along f P s es := by
  induction es generalizing s with
  | nil =>
    refine iff_of_true (fun es' h => ?_) trivial
    rw [List.prefix_nil.mp h]
    exact hQ s hI
  | cons e es ih =>
    constructor
    · intro h
      by_cases hP : P s e
      · refine ⟨hP, (ih (hkeep s e hI hP)).mp fun es' hes' => ?_⟩
        exact h (e :: es') (List.cons_prefix_cons.mpr ⟨rfl, hes'⟩)
      · exact absurd (h [e] (List.cons_prefix_cons.mpr ⟨rfl, List.nil_prefix⟩)) (hleave s e hI hP)
    · rintro ⟨hP, h⟩ es' hes'
      cases es' with
      | nil => exact hQ s hI
      | cons e' es' =>
        obtain ⟨rfl, htail⟩ := List.cons_prefix_cons.mp hes'
        exact (ih (hkeep s _ hI hP)).mpr h es' htail

end

end UBoot.Lib
