import Mathlib.Data.Nat.Bitwise
import UBoot.Ram.Mtest

/-!
# What `mtest` finds

Address lines that are stuck or shorted make two words of the range one cell, and the pass that
inverts what has been filled in finds every such pair (`failure_cellTest`); a stuck data line is
found with the first pattern. `mtest_good_and_faults` puts this and the test of good RAM together.
-/

namespace UBoot.Mtest

open Lib

def HasFailure (s : Sys) : Prop := ∃ m ∈ s.printed, m.IsFailure

/-- The address line `i` at `v`. -/
def setLine (i : ℕ) (v : Bool) (a : ℕ) : ℕ :=
  if v then a ||| 2 ^ i else (a ||| 2 ^ i) ^^^ 2 ^ i

/-- A fault of one line, or of two; the lines of the word addresses and of the data are counted
from 0. -/
inductive Fault where
  /-- the address line `i` is always `v` -/
  | stuckAddress (i : ℕ) (v : Bool)
  /-- two address lines carry the `and` of both, or the `or` -/
  | shorted (i j : ℕ) (wiredOr : Bool)
  /-- the data line `i` is always `v` -/
  | stuckData (i : ℕ) (v : Bool)

def Fault.ram : Fault → Ram
  | .stuckAddress i v => ⟨setLine i v, id⟩
  | .shorted i j wiredOr =>
    ⟨fun a =>
      let v := if wiredOr then a.testBit i || a.testBit j else a.testBit i && a.testBit j
      setLine j v (setLine i v a), id⟩
  | .stuckData i v =>
    ⟨id, fun w => if v then w ||| BitVec.twoPow 32 i else w &&& ~~~BitVec.twoPow 32 i⟩

/-- The fault is of address lines that the range from the word `b` on covers, or of a data line. -/
def Fault.Covered (b mask : ℕ) : Fault → Prop
  | .stuckAddress i _ => 2 ^ lines mask ∣ b ∧ i < lines mask
  | .shorted i j _ => 2 ^ lines mask ∣ b ∧ i < lines mask ∧ j < lines mask ∧ i ≠ j
  | .stuckData i _ => i < 32

section
variable {ram : Ram} {b mask n i j k t : ℕ} {F : Prop} {s : Sys} {v w : Word} {m : Message}
  {step : ℕ → Sys → Except Sys Sys}

theorem HasFailure.print (h : HasFailure s) : HasFailure (s.print m) := by
  obtain ⟨m', hm', hfail⟩ := h
  exact ⟨m', List.mem_append_left _ hm', hfail⟩

theorem HasFailure.print_if {p : Prop} [Decidable p] (h : HasFailure s) :
    HasFailure (if p then s.print m else s) := by
  split
  · exact h.print
  · exact h

theorem hasFailure_print (hm : m.IsFailure) : HasFailure (s.print m) :=
  ⟨m, List.mem_append_right _ (List.mem_singleton_self m), hm⟩

theorem cells_write {a : ℕ} :
    (ram.write a v s).cells = Function.update s.cells (ram.route a) (ram.data v) := rfl

/-! ## A failure stays, and whatever returns has one -/

theorem failure_walk (h : F → HasFailure s)
    (hstep : ∀ o s, (F → HasFailure s) → Ends (step o s) (F → HasFailure ·) HasFailure) :
    Ends (walk mask step s) (F → HasFailure ·) HasFailure :=
  Ends.upTo (I := fun _ s => F → HasFailure s) h fun i _ s hs => hstep (2 ^ i) s hs

theorem failure_addressLineTest (h : F → HasFailure s) :
    Ends (addressLineTest ram b mask s) (F → HasFailure ·) HasFailure := by
  have hwrite : Ends (writePattern ram b mask s) (F → HasFailure ·) HasFailure :=
    failure_walk h fun o s hs => hs
  refine hwrite.bind fun s hs => ?_
  have hhigh : Ends (checkStuckHigh ram b mask (ram.write b antiPattern s))
      (F → HasFailure ·) HasFailure := by
    refine failure_walk hs fun o s hs => ?_
    dsimp only
    split
    · exact hasFailure_print trivial
    · exact hs
  refine hhigh.bind fun s hs => failure_walk hs fun t s hs => ?_
  have hothers : Ends (checkOthers ram b mask t (ram.write (b + t) antiPattern s))
      (F → HasFailure ·) HasFailure := by
    refine failure_walk hs fun o s hs => ?_
    dsimp only
    split
    · exact hasFailure_print trivial
    · exact hs
  exact hothers.bind fun s hs => hs

theorem failure_cellTest_of_hasFailure (h : HasFailure s) :
    Ends (cellTest ram b n s) HasFailure HasFailure := by
  have hfill : Ends (fillPass ram b n s) HasFailure HasFailure :=
    Ends.upTo (I := fun _ => HasFailure) h fun i _ s hs => hs
  refine hfill.bind fun s hs => ?_
  have hinvert : Ends (invertPass ram b n s) HasFailure HasFailure := by
    refine Ends.upTo (I := fun _ => HasFailure) hs fun i _ s hs => ?_
    dsimp only
    split
    · exact hasFailure_print trivial
    · exact hs
  refine hinvert.bind fun s hs => Ends.upTo (I := fun _ => HasFailure) hs fun i _ s hs => ?_
  dsimp only
  split
  · exact hasFailure_print trivial
  · exact hs

/-! ## Two addresses of one cell -/

theorem count_inj (hn : n < 2 ^ 32) (hi : i < n) (hj : j < n) (h : count i = count j) : i = j := by
  have hval := congrArg BitVec.toNat h
  simp only [count, BitVec.toNat_ofNat] at hval
  omega

theorem fillPass_eq (hdata : ram.data = id) : fillPass ram b n s =
    .ok { s with cells := fill (fun i => ram.route (b + i)) count s.cells n } := by
  induction n with
  | zero => rfl
  | succ n ih =>
    rw [fillPass, upTo, ← fillPass, ih]
    simp only [Ram.write, hdata, id_eq]
    rfl

/-- What the inverting pass has seen in front of `n`: nobody shares a cell with the words so far,
and the other cells are as they were filled. -/
structure Unshared (ram : Ram) (b size : ℕ) (cells : ℕ → Word) (n : ℕ) (s : Sys) : Prop where
  alone : ∀ i < n, ∀ k < size, ram.route (b + k) = ram.route (b + i) → k = i
  rest : ∀ c, (∀ i < n, ram.route (b + i) ≠ c) →
    s.cells c = fill (fun i => ram.route (b + i)) count cells size c

/-- **The inverting pass fails, or no two words of the range are one cell.** -/
theorem unshared_invertPass {cells : ℕ → Word} (hdata : ram.data = id) (hn : n < 2 ^ 32)
    (hs : s.cells = fill (fun i => ram.route (b + i)) count cells n) :
    Ends (invertPass ram b n s) (Unshared ram b n cells n) HasFailure := by
  refine Ends.upTo (I := Unshared ram b n cells)
    ⟨fun i hi => absurd hi (Nat.not_lt_zero i), fun c _ => by rw [hs]⟩ fun i hi s hsh => ?_
  dsimp only
  split
  · exact hasFailure_print trivial
  · rename_i hread
    have hne : ∀ j < i, ram.route (b + j) ≠ ram.route (b + i) := fun j hj heq =>
      absurd (hsh.alone j hj i hi heq.symm) (by omega)
    have hfilled : fill (fun i => ram.route (b + i)) count cells n (ram.route (b + i)) =
        count i := by
      rw [← hsh.rest _ hne]
      simpa [Ram.read, hdata] using hread
    have hlast : ∀ k < n, ram.route (b + k) = ram.route (b + i) → k ≤ i :=
      (fill_route_iff (fun i hi j hj => count_inj hn hi hj) hi).mp hfilled
    refine ⟨fun j hj k hk heq => ?_, fun c hc => ?_⟩
    · rcases Nat.lt_succ_iff_lt_or_eq.mp hj with hj | rfl
      · exact hsh.alone j hj k hk heq
      · refine Nat.le_antisymm (hlast k hk heq) (Nat.le_of_not_lt fun hkj => ?_)
        exact hne k hkj heq
    · rw [cells_write, Function.update_of_ne (hc i (Nat.lt_succ_self i)).symm]
      exact hsh.rest c fun j hj => hc j (by omega)

theorem failure_cellTest (hdata : ram.data = id) (hn : n < 2 ^ 32) (hi : i < n) (hj : j < n)
    (hij : i ≠ j) (hroute : ram.route (b + i) = ram.route (b + j)) :
    Ends (cellTest ram b n s) HasFailure HasFailure := by
  have hfill : Ends (fillPass ram b n s)
      (fun s' => s'.cells = fill (fun i => ram.route (b + i)) count s.cells n) HasFailure := by
    rw [fillPass_eq hdata]
    rfl
  refine hfill.bind fun s' hs' => Ends.bind (Q := fun _ => False) ?_ fun _ => False.elim
  exact (unshared_invertPass hdata hn hs').mono
    (fun _ hs => hij (hs.alone j hj i hi hroute)) fun _ => id

/-! ## The faults of the address lines -/

@[simp] theorem testBit_setLine {a : ℕ} {v : Bool} :
    (setLine i v a).testBit t = if t = i then v else a.testBit t := by
  by_cases hti : t = i
  · subst hti
    cases v <;> simp [setLine, Nat.testBit_or, Nat.testBit_xor, Nat.testBit_two_pow_self]
  · have hit : i ≠ t := Ne.symm hti
    cases v <;> simp [setLine, Nat.testBit_or, Nat.testBit_xor, Nat.testBit_two_pow_of_ne hit, hti]

theorem testBit_of_dvd (hb : 2 ^ k ∣ b) (hi : i < k) : b.testBit i = false := by
  obtain ⟨q, rfl⟩ := hb
  rw [Nat.testBit_two_pow_mul, decide_eq_false (by omega), Bool.false_and]

theorem testBit_add_two_pow (hb : 2 ^ k ∣ b) (hi : i < k) :
    (b + 2 ^ i).testBit t = (decide (t = i) || b.testBit t) := by
  obtain ⟨q, rfl⟩ := hb
  rw [Nat.two_pow_add_eq_or_of_lt (Nat.pow_lt_pow_right Nat.one_lt_two hi), Nat.testBit_or,
    Nat.testBit_two_pow, Bool.or_comm]
  simp only [eq_comm]

/-- A stuck line makes the first word and the one at its offset one cell. -/
theorem failure_stuckAddress {v : Bool} (hb : 2 ^ lines mask ∣ b) (hi : i < lines mask)
    (hmask : mask + 1 < 2 ^ 32) :
    Ends (cellTest (Fault.stuckAddress i v).ram b (mask + 1) s) HasFailure HasFailure := by
  refine failure_cellTest rfl hmask (Nat.succ_pos mask)
    (Nat.lt_succ_of_le (two_pow_le_of_lt_lines hi)) (Nat.two_pow_pos i).ne
    (Nat.eq_of_testBit_eq fun t => ?_)
  simp only [Fault.ram, testBit_setLine, add_zero, testBit_add_two_pow hb hi]
  by_cases hti : t = i <;> simp [hti]

theorem failure_shorted {wiredOr : Bool} (hb : 2 ^ lines mask ∣ b) (hi : i < lines mask)
    (hj : j < lines mask) (hij : i ≠ j) (hmask : mask + 1 < 2 ^ 32) :
    Ends (cellTest (Fault.shorted i j wiredOr).ram b (mask + 1) s) HasFailure HasFailure := by
  have hne : 2 ^ i ≠ 2 ^ j := fun heq => hij (Nat.pow_right_injective le_rfl heq)
  refine failure_cellTest rfl hmask (Nat.lt_succ_of_le (two_pow_le_of_lt_lines hi))
    (Nat.lt_succ_of_le (two_pow_le_of_lt_lines hj)) hne (Nat.eq_of_testBit_eq fun t => ?_)
  simp only [Fault.ram, testBit_setLine, testBit_add_two_pow hb hi, testBit_add_two_pow hb hj,
    testBit_of_dvd hb hi, testBit_of_dvd hb hj]
  by_cases hti : t = i <;> by_cases htj : t = j <;> cases wiredOr <;>
    simp [hti, htj, hij, hij.symm]

/-! ## A fault of a data line -/

theorem HasFailure.write {a : ℕ} (h : HasFailure s) : HasFailure (ram.write a v s) := h

theorem HasFailure.dataLineStep (h : HasFailure s) : HasFailure (dataLineStep ram b s v) :=
  print_if (write (write (print_if (write (write h)))))

theorem HasFailure.foldl_dataLineStep {l : List Word} (h : HasFailure s) :
    HasFailure (l.foldl (Mtest.dataLineStep ram b) s) := by
  induction l generalizing s with
  | nil => exact h
  | cons v l ih => exact ih h.dataLineStep

/-- What a stuck data line makes of a word that is stored and loaded. -/
theorem stuckData_one (hi : i < 32) (v : Bool) :
    let d := (Fault.stuckData i v).ram.data
    d (d (~~~1)) ≠ 1 ∧ (d (d 1) = 1 → d (d (~~~1)) ≠ ~~~1) := by
  have hall : ∀ i < 32, ∀ v : Bool, let d := (Fault.stuckData i v).ram.data
      d (d (~~~1)) ≠ 1 ∧ (d (d 1) = 1 → d (d (~~~1)) ≠ ~~~1) := by decide
  exact hall i hi v

theorem read_parked (hroute : ram.route = id) :
    ram.read b (ram.write 0 w (ram.write b v s)) =
      ram.data (ram.data (if b = 0 then w else v)) := by
  rw [Ram.read, cells_write, cells_write, hroute]
  by_cases hb : b = 0
  · rw [if_pos hb, hb, id, Function.update_self]
  · rw [if_neg hb, id, id, Function.update_of_ne hb, Function.update_self]

theorem failure_stuckData_step (hi : i < 32) {v : Bool} :
    HasFailure (dataLineStep (Fault.stuckData i v).ram b s 1) := by
  obtain ⟨hparked, hpair⟩ := stuckData_one hi v
  have hroute : (Fault.stuckData i v).ram.route = id := rfl
  simp only [Mtest.dataLineStep, read_parked hroute]
  by_cases hb : b = 0
  · -- the word is its own parking address
    simp only [if_pos hb, if_pos hparked]
    exact HasFailure.print_if (HasFailure.write (HasFailure.write (hasFailure_print trivial)))
  · rw [if_neg hb, if_neg hb]
    by_cases hone : (Fault.stuckData i v).ram.data ((Fault.stuckData i v).ram.data 1) = 1
    · rw [if_pos (hpair hone)]
      exact hasFailure_print trivial
    · rw [if_pos hone]
      exact HasFailure.print_if (HasFailure.write (HasFailure.write (hasFailure_print trivial)))

set_option maxRecDepth 4000 in
theorem failure_dataLineTest (h : HasFailure (dataLineStep ram b s 1)) :
    HasFailure (dataLineTest ram b s) := by
  have hsplit : bitpattern.flatMap shifts = 1 :: (bitpattern.flatMap shifts).tail := by
    decide
  rw [dataLineTest, hsplit, List.foldl_cons]
  exact h.foldl_dataLineStep

/-! ## The whole test -/

theorem failure_iteration_of_step {start stop : ℕ}
    (h : ∀ s, HasFailure (dataLineStep ram (start / 4) s 1)) :
    Ends (iteration ram start stop n s) HasFailure HasFailure :=
  (failure_addressLineTest (F := True) fun _ => failure_dataLineTest (h _)).bind fun _ hs =>
    failure_cellTest_of_hasFailure (hs trivial)

theorem failure_iteration {f : Fault} {start stop : ℕ} (htop : stop < 2 ^ 32)
    (hf : f.Covered (start / 4) ((stop - start) / 4)) :
    Ends (iteration f.ram start stop n s) HasFailure HasFailure := by
  have hmask : (stop - start) / 4 + 1 < 2 ^ 32 := by omega
  cases f with
  | stuckAddress i v =>
    exact (failure_addressLineTest (F := False) False.elim).bind fun s _ =>
      failure_stuckAddress hf.1 hf.2 hmask
  | shorted i j wiredOr =>
    exact (failure_addressLineTest (F := False) False.elim).bind fun s _ =>
      failure_shorted hf.1 hf.2.1 hf.2.2.1 hf.2.2.2 hmask
  | stuckData i v => exact failure_iteration_of_step fun s => failure_stuckData_step hf

end

/-- Nothing is reported, and no word outside the range changes but the one at address 0. -/
structure Sound (start stop : ℕ) (cells : ℕ → Word) (s : Sys) : Prop where
  noFailure : ∀ m ∈ s.printed, ¬ m.IsFailure
  frame : ∀ w, w ≠ 0 → 4 * w < start ∨ stop < 4 * w → s.cells w = cells w

theorem QuietButParked.sound {start stop : ℕ} {cells : ℕ → Word} {s : Sys}
    (hstart : start % 4 = 0) (hlt : start < stop)
    (h : QuietButParked (start / 4) (start / 4 + (stop - start) / 4) cells s) :
    Sound start stop cells s := by
  obtain ⟨v, h⟩ := h
  refine ⟨h.noFailure, fun w hw hout => ?_⟩
  rw [h.frame w (by omega), Function.update_of_ne hw]

/-- **What the memory test is for**: above address 0 it says nothing about good RAM and leaves the
rest of it alone, but for its parking address, and each fault of the lines under test is reported
by the first iteration. -/
theorem mtest_good_and_faults (start stop : ℕ) (ctrlc : ℕ → Bool) (cells : ℕ → Word)
    (hstart : start % 4 = 0) (hlt : start < stop) (htop : stop < 2 ^ 32) :
    (0 < start → ∀ fuel, Ends (doMemMtest good start stop ctrlc fuel cells)
      (Sound start stop cells) (Sound start stop cells)) ∧
    ∀ f : Fault, f.Covered (start / 4) ((stop - start) / 4) → ctrlc 1 = false →
      Ends (doMemMtest f.ram start stop ctrlc 1 cells) HasFailure HasFailure := by
  constructor
  · intro hpos fuel
    exact (quiet_doMemMtest (by omega)).mono (fun s hs => hs.sound hstart hlt)
      fun s hs => hs.sound hstart hlt
  · intro f hf hctrlc
    rw [doMemMtest, mtestLoop, hctrlc]
    exact (failure_iteration htop hf).bind fun s hs => hs

theorem mtest_good_and_faults_words :
    Ends (doMemMtest good 0x1000 0x100c (fun _ => false) 3 fun _ => 0)
      (Sound 0x1000 0x100c fun _ => 0) (Sound 0x1000 0x100c fun _ => 0) ∧
    Ends (doMemMtest (Fault.shorted 0 1 false).ram 0x1000 0x100c (fun _ => false) 1 fun _ => 0)
      HasFailure HasFailure :=
  have h := mtest_good_and_faults 0x1000 0x100c (fun _ => false) (fun _ => 0) rfl (by decide)
    (by decide)
  ⟨h.1 (by decide) 3, h.2 (.shorted 0 1 false)
    ⟨by decide, by decide, by decide, by decide⟩ rfl⟩

/-- At address 0 the first word is its own parking address, and good RAM fails. -/
theorem failure_doMemMtest_zero {stop : ℕ} {cells : ℕ → Word} :
    Ends (doMemMtest good 0 stop (fun _ => false) 1 cells) HasFailure HasFailure := by
  rw [doMemMtest, mtestLoop]
  refine (failure_iteration_of_step fun s => ?_).bind fun s hs => hs
  have hroute : good.route = id := rfl
  have hne : good.data (good.data (~~~1)) ≠ 1 := by decide
  simp only [Mtest.dataLineStep, read_parked hroute, Nat.zero_div, if_true]
  rw [if_pos hne]
  exact HasFailure.print_if (HasFailure.write (HasFailure.write (hasFailure_print trivial)))

/-- One iteration over the words at 0x1000 leaves the last pattern at address 0, and over those at
0 it fails. -/
theorem mtest_parks :
    (∃ s, doMemMtest good 0x1000 0x1004 (fun _ => false) 1 (fun _ => 0) = .ok s ∧
      s.cells 0 = 0x80000000) ∧
    Ends (doMemMtest good 0 4 (fun _ => false) 1 fun _ => 0) HasFailure HasFailure := by
  refine ⟨?_, failure_doMemMtest_zero⟩
  have hquiet : Quiet (0x1000 / 4) (0x1000 / 4 + (0x1004 - 0x1000) / 4) (fun _ => 0)
      ⟨fun _ => 0, [.testing 0x1000 0x1004]⟩ :=
    ⟨fun m hm => by rw [List.mem_singleton.mp hm]; exact id, fun _ _ => rfl⟩
  obtain ⟨s, hturn, hs⟩ := (quiet_iteration (by decide) hquiet (n := 1)).exists_ok
  refine ⟨s, ?_, hs.frame 0 (by decide)⟩
  simp only [doMemMtest, mtestLoop, hturn]
  rfl

end UBoot.Mtest
