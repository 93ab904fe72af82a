import Mathlib.Tactic

/-!
# The first match of a list

`l.eraseP p` as the removal from an ordered collection searched with `find?`: what a
search for something else finds, what order the other elements keep, and when nothing
that matches is left. `findSome?` where the hits agree.
-/

namespace UBoot.Lib

variable {α : Type*} {p q : α → Bool} {l : List α}

/-- A search for something `p` does not match is not affected. -/
theorem find?_eraseP (h : ∀ x, q x = true → p x = false) : (l.eraseP p).find? q = l.find? q := by
  induction l with
  | nil => rfl
  | cons x l ih =>
    cases hp : p x with
    | true =>
      have hq : q x = false := by
        cases hq : q x with
        | false => rfl
        | true => rw [h x hq] at hp; cases hp
      rw [List.eraseP_cons_of_pos hp, List.find?_cons_of_neg (by simp [hq])]
    | false =>
      rw [List.eraseP_cons_of_neg (by simp [hp]), List.find?_cons, List.find?_cons, ih]

/-- The elements `p` does not match stay, in their order. -/
theorem filter_eraseP (h : ∀ x, q x = true → p x = false) :
    (l.eraseP p).filter q = l.filter q := by
  induction l with
  | nil => rfl
  | cons x l ih =>
    cases hp : p x with
    | true =>
      have hq : ¬ q x = true := fun hq => by rw [h x hq] at hp; cases hp
      rw [List.eraseP_cons_of_pos hp, List.filter_cons_of_neg hq]
    | false =>
      rw [List.eraseP_cons_of_neg (by simp [hp]), List.filter_cons, List.filter_cons, ih]

theorem find?_eraseP_self (h : l.countP p ≤ 1) : (l.eraseP p).find? p = none := by
  induction l with
  | nil => rfl
  | cons x l ih =>
    cases hp : p x with
    | true =>
      rw [List.countP_cons_of_pos hp] at h
      have h0 : l.countP p = 0 := by omega
      rw [List.eraseP_cons_of_pos hp, List.find?_eq_none]
      exact List.countP_eq_zero.mp h0
    | false =>
      have hp' : ¬ p x = true := by simp [hp]
      rw [List.countP_cons_of_neg hp'] at h
      rw [List.eraseP_cons_of_neg hp', List.find?_cons_of_neg hp', ih h]

theorem findSome?_eq_some_of_agree {β : Type*} {f : α → Option β} {x : α} {b : β} (hx : x ∈ l)
    (hb : f x = some b) (hagree : ∀ y ∈ l, ∀ c, f y = some c → c = b) :
    l.findSome? f = some b := by
  cases hfind : l.findSome? f with
  | none => rw [List.findSome?_eq_none_iff.mp hfind x hx] at hb; cases hb
  | some c =>
    obtain ⟨y, hy, hc⟩ := List.exists_of_findSome?_eq_some hfind
    rw [hagree y hy c hc]

end UBoot.Lib
