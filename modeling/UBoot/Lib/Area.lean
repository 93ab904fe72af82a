import Mathlib.Tactic

/-!
# C strings and bounded byte areas

A `CStr` is a NUL-terminated string, given by its bytes without the NUL. An
`Area n` is an object of `n` bytes; `rd` and `wr` answer `Oob` for an index outside
it, so a computation that ends in `.ok` touched no byte outside the area. The lemmas
state both at a split `p ++ x :: q` of the bytes, which is how a pointer into the
middle of an area is followed.
-/

namespace UBoot.Lib

/-- A string without NUL bytes. -/
structure CStr where
  bytes : List UInt8
  nonul : (0 : UInt8) ∉ bytes
  deriving DecidableEq

def CStr.terminated (s : CStr) : List UInt8 := s.bytes ++ [0]

inductive Oob where
  | read
  | write
  deriving DecidableEq, Repr

theorem ok_of_bind {ε α β : Type} {x : Except ε α} {f : α → Except ε β} {r : β}
    (h : x >>= f = .ok r) : ∃ a, x = .ok a ∧ f a = .ok r := by
  cases x with
  | error e => cases h
  | ok a => exact ⟨a, rfl, h⟩

/-- A fold whose steps do not fail does not fail. -/
theorem exists_foldlM_ok {ε α β : Type} {f : β → α → Except ε β}
    (hf : ∀ acc x, ∃ r, f acc x = .ok r) (l : List α) (acc : β) :
    ∃ r, l.foldlM f acc = .ok r := by
  induction l generalizing acc with
  | nil => exact ⟨acc, rfl⟩
  | cons x l ih =>
    obtain ⟨r, hr⟩ := hf acc x
    rw [List.foldlM_cons, hr]
    exact ih r

/-- An object of `n` bytes. -/
structure Area (n : Nat) where
  bytes : List UInt8
  size : bytes.length = n
  deriving DecidableEq

namespace Area

variable {n : Nat}

def rd (a : Area n) (i : Nat) : Except Oob UInt8 :=
  match a.bytes[i]? with
  | some c => .ok c
  | none => .error .read

def wr (a : Area n) (i : Nat) (c : UInt8) : Except Oob (Area n) :=
  if i < n then .ok ⟨a.bytes.set i c, by rw [List.length_set, a.size]⟩ else .error .write

@[ext] theorem ext {a b : Area n} (h : a.bytes = b.bytes) : a = b := by
  cases a; cases b; cases h; rfl

variable {a : Area n} {p q : List UInt8} {i : Nat} {c x : UInt8}

theorem rd_split (h : a.bytes = p ++ x :: q) (hi : i = p.length) : a.rd i = .ok x := by
  subst hi
  simp [rd, h]

theorem wr_split (h : a.bytes = p ++ x :: q) (hi : i = p.length) :
    ∃ a', a.wr i c = .ok a' ∧ a'.bytes = p ++ c :: q := by
  subst hi
  have hlt : p.length < n := by rw [← a.size, h]; simp
  exact ⟨_, if_pos hlt, by simp [h]⟩

theorem lt_of_split (h : a.bytes = p ++ x :: q) : p.length < n := by
  rw [← a.size, h]; simp

end Area

end UBoot.Lib
