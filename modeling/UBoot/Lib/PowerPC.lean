import Mathlib.Data.Nat.Init

/-!
# Branches of the PowerPC

What a branch instruction does to the next address, for the four forms of a 32-bit processor: the
fields of the word, the tests of CTR and CR that BO asks for, and the targets. Bit 0 is the most
significant one, so the field of `n` bits from bit `b` on starts at `32 - b - n` from the right.
-/

namespace UBoot.Lib.PowerPC

abbrev Word := BitVec 32

/-- The registers that a branch reads; `cia` is the address of the instruction. -/
structure Regs where
  cia : Word
  cr : Word
  ctr : Word
  lr : Word

section
variable (i : Word)

def opcd : BitVec 6 := i.extractLsb' 26 6

def bo : BitVec 5 := i.extractLsb' 21 5

def bi : BitVec 5 := i.extractLsb' 16 5

def bd : BitVec 14 := i.extractLsb' 2 14

def li : BitVec 24 := i.extractLsb' 2 24

def xo : BitVec 10 := i.extractLsb' 1 10

def aa : Bool := i.getLsbD 1

def lk : Bool := i.getLsbD 0

inductive Kind where
  | b
  | bc
  | bclr
  | bcctr
  | other
  deriving DecidableEq

def kind : Kind :=
  if opcd i = 18 then .b
  else if opcd i = 16 then .bc
  else if opcd i = 19 ∧ xo i = 16 then .bclr
  else if opcd i = 19 ∧ xo i = 528 then .bcctr
  else .other

theorem kind_eq_b : kind i = .b ↔ opcd i = 18 := by
  unfold kind
  grind

theorem kind_eq_bc : kind i = .bc ↔ opcd i = 16 := by
  unfold kind
  grind

theorem kind_eq_bclr : kind i = .bclr ↔ opcd i = 19 ∧ xo i = 16 := by
  unfold kind
  grind

theorem kind_eq_bcctr : kind i = .bcctr ↔ opcd i = 19 ∧ xo i = 528 := by
  unfold kind
  grind

/-- The bits of BO, from the left: `BO[0]` ignores CR and `BO[1]` is what its bit has to be, `BO[2]`
ignores CTR and `BO[3]` says that it has to become 0. -/
def boBit (n : ℕ) : Bool := (bo i).getLsbD (4 - n)

variable (r : Regs)

def ctrOk : Bool := boBit i 2 || ((r.ctr - 1 != 0) ^^ boBit i 3)

def condOk : Bool := boBit i 0 || (r.cr.getLsbD (31 - (bi i).toNat) == boBit i 1)

def taken : Bool :=
  match kind i with
  | .b => true
  | .other => false
  | _ => ctrOk i r && condOk i r

def target : Word :=
  match kind i with
  | .b => (if aa i then 0 else r.cia) + (li i ++ 0#2).signExtend 32
  | .bc => (if aa i then 0 else r.cia) + (bd i ++ 0#2).signExtend 32
  | .bclr => r.lr &&& ~~~3
  | .bcctr => r.ctr &&& ~~~3
  | .other => r.cia + 4

def next : Word := if taken i r then target i r else r.cia + 4

/-- The form is invalid: a branch to CTR that decrements CTR. -/
def Invalid : Prop := kind i = .bcctr ∧ boBit i 2 = false

def Calls : Prop := kind i ≠ .other ∧ lk i = true

instance decCalls : Decidable (Calls i) := inferInstanceAs (Decidable (_ ∧ _))

instance decInvalid : Decidable (Invalid i) := inferInstanceAs (Decidable (_ ∧ _))

/-- `a` is where the processor goes on, for `stepOver` after what a call calls. Nothing is known of
an invalid form. -/
def GoesOn (stepOver : Bool) (a : Word) : Prop :=
  Invalid i ∨ a = if stepOver = true ∧ Calls i then r.cia + 4 else next i r

instance decGoesOn (stepOver : Bool) (a : Word) : Decidable (GoesOn i r stepOver a) :=
  inferInstanceAs (Decidable (_ ∨ _))

end

end UBoot.Lib.PowerPC
