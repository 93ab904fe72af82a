import UBoot.Lib.Bits

/-!
# The MII management interface

A PHY as clause 22 of IEEE 802.3 has it: what it does at a rising edge of MDC, and when it
drives MDIO. This is our own statement of the other side of the wire, not code of the
repository. A PHY may ask for up to 32 ones before a frame, and counts out the frames that
are for other addresses.
-/

namespace UBoot.Mii

open UBoot.Lib.Bits

/-- There are addresses. -/
scoped instance neZero32 : NeZero 32 := ⟨by decide⟩

/-- What a PHY waits for at the next rising edge of MDC. -/
inductive PhyState
  /-- a preamble, of which it saw `ones` -/
  | preamble (ones : ℕ)
  /-- the one of the start of frame -/
  | start
  /-- `left + 1` more bits of opcode, PHY address and register address -/
  | header (left acc : ℕ)
  /-- `left + 1` more bits of somebody else's frame -/
  | skip (left : ℕ)
  /-- the first turnaround bit of a read -/
  | turn (reg : Fin 32)
  /-- the bits it drives, the first of them now -/
  | send (bits : List Bool)
  /-- `left + 1` more bits of turnaround and data of a write -/
  | recv (reg : Fin 32) (left acc : ℕ)
  deriving DecidableEq, Repr

structure Phy where
  /-- the ones it wants in a preamble -/
  need : ℕ
  need_le : need ≤ 32
  regs : Fin 32 → UInt16
  state : PhyState

namespace Phy

def goto (p : Phy) (s : PhyState) : Phy := { p with state := s }

def set (p : Phy) (reg : Fin 32) (v : UInt16) : Phy :=
  { p with regs := Function.update p.regs reg v }

@[simp] theorem goto_state (p : Phy) (s : PhyState) : (p.goto s).state = s := rfl
@[simp] theorem goto_regs (p : Phy) (s : PhyState) : (p.goto s).regs = p.regs := rfl
@[simp] theorem goto_need (p : Phy) (s : PhyState) : (p.goto s).need = p.need := rfl
@[simp] theorem goto_goto (p : Phy) (s t : PhyState) : (p.goto s).goto t = p.goto t := rfl

/-- The header is in: the PHY at address `a` answers, listens, or counts the frame out. -/
def dispatch (a : Fin 32) (p : Phy) (head : ℕ) : Phy :=
  if a = Fin.ofNat 32 (head / 32) then
    if head / 1024 = 2 then p.goto (.turn (Fin.ofNat 32 head))
    else if head / 1024 = 1 then p.goto (.recv (Fin.ofNat 32 head) 17 0)
    else p.goto (.preamble 0)
  else p.goto (.skip 17)

/-- A rising edge of MDC with MDIO at `b`. -/
def clock (a : Fin 32) (b : Bool) (p : Phy) : Phy :=
  match p.state with
  | .preamble n =>
    if b then p.goto (.preamble (n + 1))
    else if p.need ≤ n then p.goto .start else p.goto (.preamble 0)
  | .start => if b then p.goto (.header 11 0) else p.goto (.preamble 0)
  | .header 0 acc => p.dispatch a (2 * acc + b.toNat)
  | .header (l + 1) acc => p.goto (.header l (2 * acc + b.toNat))
  | .skip 0 => p.goto (.preamble 0)
  | .skip (l + 1) => p.goto (.skip l)
  | .turn r => p.goto (.send (false :: msb 16 (p.regs r).toNat))
  | .send (_ :: c :: cs) => p.goto (.send (c :: cs))
  | .send _ => p.goto (.preamble 0)
  | .recv r 0 acc => (p.set r (UInt16.ofNat (2 * acc + b.toNat))).goto (.preamble 0)
  | .recv r (l + 1) acc => p.goto (.recv r l (2 * acc + b.toNat))

def drive (p : Phy) : Option Bool :=
  match p.state with
  | .send (c :: _) => some c
  | _ => none

def run (a : Fin 32) (bits : List Bool) (p : Phy) : Phy :=
  bits.foldl (fun p b => p.clock a b) p

variable {a : Fin 32} {p : Phy}

theorem run_append (xs ys : List Bool) : run a (xs ++ ys) p = run a ys (run a xs p) :=
  List.foldl_append

theorem run_preamble (n k : ℕ) :
    run a (List.replicate k true) (p.goto (.preamble n)) = p.goto (.preamble (n + k)) := by
  induction k generalizing n with
  | zero => rfl
  | succ k ih =>
    rw [List.replicate_succ, Nat.add_comm k 1, ← Nat.add_assoc]
    exact ih (n + 1)

theorem run_header {l : ℕ} {bits : List Bool} (hlen : bits.length = l + 1) (acc : ℕ) :
    run a bits (p.goto (.header l acc)) = p.dispatch a (shiftIn acc bits) := by
  induction bits generalizing l acc with
  | nil => cases hlen
  | cons c bits ih =>
    cases l with
    | zero =>
      obtain rfl := List.length_eq_zero_iff.mp (Nat.succ.inj hlen)
      rfl
    | succ l => exact ih (Nat.succ.inj hlen) (2 * acc + c.toNat)

theorem run_recv {l : ℕ} {bits : List Bool} (hlen : bits.length = l + 1) (r : Fin 32) (acc : ℕ) :
    run a bits (p.goto (.recv r l acc)) =
      (p.set r (UInt16.ofNat (shiftIn acc bits))).goto (.preamble 0) := by
  induction bits generalizing l acc with
  | nil => cases hlen
  | cons c bits ih =>
    cases l with
    | zero =>
      obtain rfl := List.length_eq_zero_iff.mp (Nat.succ.inj hlen)
      rfl
    | succ l => exact ih (Nat.succ.inj hlen) (2 * acc + c.toNat)

theorem run_skip {l : ℕ} {bits : List Bool} (hlen : bits.length = l + 1) :
    run a bits (p.goto (.skip l)) = p.goto (.preamble 0) := by
  induction bits generalizing l with
  | nil => cases hlen
  | cons c bits ih =>
    cases l with
    | zero =>
      obtain rfl := List.length_eq_zero_iff.mp (Nat.succ.inj hlen)
      rfl
    | succ l => exact ih (Nat.succ.inj hlen)

theorem run_start {n : ℕ} (hn : p.need ≤ n) :
    run a [false, true] (p.goto (.preamble n)) = p.goto (.header 11 0) := by
  show ((p.goto (.preamble n)).clock a false).clock a true = _
  have h : (p.goto (.preamble n)).clock a false = p.goto .start := if_pos hn
  rw [h]
  rfl

end Phy

abbrev Phys := Fin 32 → Option Phy

/-- The registers of the PHYs: what the interface is for. -/
abbrev Files := Fin 32 → Option (Fin 32 → UInt16)

namespace Phys

def clock (P : Phys) (b : Bool) : Phys := fun a => (P a).map (Phy.clock a b)

def run (P : Phys) (bits : List Bool) : Phys := fun a => (P a).map (Phy.run a bits)

/-- MDIO when the station does not drive it: pulled up. -/
def pulled (P : Phys) : Bool := decide (∀ a, (P a).bind Phy.drive ≠ some false)

def files (P : Phys) : Files := fun a => (P a).map Phy.regs

def Idle (P : Phys) : Prop := ∀ a p, P a = some p → ∃ n, p.state = .preamble n

/-- The PHY at address `x` in state `s`, the others in state `t`. -/
def during (P : Phys) (x : Fin 32) (s t : PhyState) : Phys :=
  fun a => (P a).map fun p => p.goto (if a = x then s else t)

end Phys

end UBoot.Mii
