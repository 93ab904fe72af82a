import Mathlib.Tactic

/-!
# Programs of atomic device operations, and crashes

A `Prog D O α` works on a device in state `D` by atomic operations `O`; between any
two of them it may lose power. `Safe exec Q R p d` is the crash specification of `p`
started on `d`: the crash condition `Q` holds at every point where a crash can fall,
and `R` relates the device and the result when `p` ends. `Safe.crash` and `Safe.step`
are the two uses (a crash now, one step further), `Safe.bind` and `Safe.mono` the rules
for sequencing and consequence.
-/

namespace UBoot.Lib

/-- A program that looks at the device, operates on it, and returns. -/
inductive Prog (D O α : Type) where
  | ret (a : α)
  | look (k : D → Prog D O α)
  | op (o : O) (k : Prog D O α)

namespace Prog

variable {D O α β : Type} (exec : O → D → D)

def bind : Prog D O α → (α → Prog D O β) → Prog D O β
  | ret a, f => f a
  | look k, f => look fun d => (k d).bind f
  | op o k, f => op o (k.bind f)

def opIf (c : Prop) [Decidable c] (o : O) : Prog D O Unit := if c then op o (ret ()) else ret ()

/-- One step: a look at the device, or one atomic operation. -/
def next (d : D) : Prog D O α → Option (D × Prog D O α)
  | ret _ => none
  | look k => some (d, k d)
  | op o k => some (exec o d, k)

/-- With no crash: the device and the result at the end. -/
def run : Prog D O α → D → D × α
  | ret a, d => (d, a)
  | look k, d => (k d).run d
  | op o k, d => k.run (exec o d)

/-- Crash condition `Q` at every point, result condition `R` at the end. -/
def Safe (Q : D → Prop) (R : D → α → Prop) : Prog D O α → D → Prop
  | ret a, d => Q d ∧ R d a
  | look k, d => (k d).Safe Q R d
  | op o k, d => Q d ∧ k.Safe Q R (exec o d)

variable {exec} {Q Q' : D → Prop} {R R' : D → α → Prop} {p p' : Prog D O α} {d d' : D}

theorem Safe.crash (h : p.Safe exec Q R d) : Q d := by
  induction p with
  | ret a => exact h.1
  | look k ih => exact ih d h
  | op o k _ => exact h.1

theorem Safe.step (h : p.Safe exec Q R d) (hs : p.next exec d = some (d', p')) :
    p'.Safe exec Q R d' := by
  cases p with
  | ret a => cases hs
  | look k => cases hs; exact h
  | op o k => cases hs; exact h.2

theorem Safe.run (h : p.Safe exec Q R d) : R (p.run exec d).1 (p.run exec d).2 := by
  induction p generalizing d with
  | ret a => exact h.2
  | look k ih => exact ih d h
  | op o k ih => exact ih h.2

theorem Safe.mono (hQ : ∀ d, Q d → Q' d) (hR : ∀ d a, R d a → R' d a) (h : p.Safe exec Q R d) :
    p.Safe exec Q' R' d := by
  induction p generalizing d with
  | ret a => exact ⟨hQ _ h.1, hR _ _ h.2⟩
  | look k ih => exact ih d h
  | op o k ih => exact ⟨hQ _ h.1, ih h.2⟩

theorem Safe.bind {f : α → Prog D O β} {S : D → β → Prop}
    (h : p.Safe exec Q (fun d a => (f a).Safe exec Q S d) d) : (p.bind f).Safe exec Q S d := by
  induction p generalizing d with
  | ret a => exact h.2
  | look k ih => exact ih d h
  | op o k ih => exact ⟨h.1, ih h.2⟩

theorem Safe.opIf {c : Prop} [Decidable c] {o : O} {S : D → Unit → Prop} (hd : Q d)
    (hpos : c → Q (exec o d) ∧ S (exec o d) ()) (hneg : ¬ c → S d ()) :
    (Prog.opIf c o).Safe exec Q S d := by
  unfold Prog.opIf
  split
  · next h => exact ⟨hd, hpos h⟩
  · next h => exact ⟨hd, hneg h⟩

end Prog

end UBoot.Lib
