import Mathlib.Data.List.TakeWhile
import Mathlib.Tactic
import UBoot.Lib.March

/-!
# The memory test `mtest` (`common/cmd_mem.c`, `CFG_ALT_MEMTEST`)

`doMemMtest` over a memory of words behind address and data lines that may be faulty. In RAM
without a fault, with the range above address 0, no iteration reports a failure and no word outside
the range changes but the one at address 0, where the data line test parks its patterns
(`quiet_doMemMtest`).
-/

namespace UBoot.Mtest

open Lib

abbrev Word := BitVec 32

/-- The lines of the memory: the cell that a word address selects, and what the data lines make of
a word. -/
structure Ram where
  route : ℕ → ℕ
  data : Word → Word

inductive Message where
  /-- `"Testing %08x ... %08x:\n"` -/
  | testing (start stop : ℕ)
  /-- `"Iteration: %6d\r"` -/
  | iteration (n : ℕ)
  /-- `'\n'`, when the test is interrupted -/
  | newline
  /-- `"FAILURE (data line): expected %08lx, actual %08lx\n"` -/
  | dataLine (val readback : Word)
  /-- `"FAILURE (data line): Is %08lx, should be %08lx\n"` -/
  | dataLineInverted (val readback : Word)
  /-- `"\nFAILURE: Address bit stuck high @ 0x%.8lx: expected 0x%.8lx, actual 0x%.8lx\n"` -/
  | stuckHigh (addr : ℕ) (expected actual : Word)
  /-- `"\nFAILURE: Address bit stuck low or shorted @ 0x%.8lx: expected 0x%.8lx, actual 0x%.8lx\n"`
  -/
  | stuckLowOrShorted (addr : ℕ) (expected actual : Word)
  /-- `"\nFAILURE (read/write) @ 0x%.8lx: expected 0x%.8lx, actual 0x%.8lx)\n"` -/
  | readWrite (addr : ℕ) (expected actual : Word)
  deriving DecidableEq

/-- The message says `FAILURE`. -/
def Message.IsFailure : Message → Prop
  | .testing .. => False
  | .iteration _ => False
  | .newline => False
  | _ => True

structure Sys where
  cells : ℕ → Word
  printed : List Message

def Sys.print (s : Sys) (m : Message) : Sys := { s with printed := s.printed ++ [m] }

/-- A store to the word address `a`. -/
def Ram.write (ram : Ram) (a : ℕ) (v : Word) (s : Sys) : Sys :=
  { s with cells := Function.update s.cells (ram.route a) (ram.data v) }

/-- A load from the word address `a`. -/
def Ram.read (ram : Ram) (a : ℕ) (s : Sys) : Word := ram.data (s.cells (ram.route a))

/-! ## The data line test -/

def bitpattern : List Word :=
  [0x00000001, 0x00000003, 0x00000007, 0x0000000F, 0x00000005, 0x00000015, 0x00000055, 0xaaaaaaaa]

/-- The values of `for (; val != 0; val <<= 1)`; 32 shifts leave 0. -/
def shifts (val : Word) : List Word := ((List.range 32).map (val <<< ·)).takeWhile (· != 0)

/-- The body of the data line test; the word at address 0 is `*dummy`. -/
def dataLineStep (ram : Ram) (start : ℕ) (s : Sys) (val : Word) : Sys :=
  let s := ram.write 0 (~~~val) (ram.write start val s)
  let readback := ram.read start s
  let s := if readback ≠ val then s.print (.dataLine val readback) else s
  let s := ram.write 0 val (ram.write start (~~~val) s)
  let readback := ram.read start s
  if readback ≠ ~~~val then s.print (.dataLineInverted val readback) else s

def dataLineTest (ram : Ram) (start : ℕ) (s : Sys) : Sys :=
  (bitpattern.flatMap shifts).foldl (dataLineStep ram start) s

/-! ## The address line test -/

def pattern : Word := 0xaaaaaaaa

def antiPattern : Word := 0x55555555

/-- The number of one bits of `addr_mask` below its lowest zero bit. -/
def lines (addrMask : ℕ) : ℕ := ((List.range 32).takeWhile addrMask.testBit).length

/-- `for (offset = 1; (offset & addr_mask) != 0; offset <<= 1)` -/
def walk (addrMask : ℕ) (step : ℕ → Sys → Except Sys Sys) (s : Sys) : Except Sys Sys :=
  upTo (fun i => step (2 ^ i)) (lines addrMask) s

/-- "Write the default pattern at each of the power-of-two offsets." -/
def writePattern (ram : Ram) (start addrMask : ℕ) : Sys → Except Sys Sys :=
  walk addrMask fun offset s => .ok (ram.write (start + offset) pattern s)

/-- "Check for address bits stuck high." A test that returns 1 gives the state as an error. -/
def checkStuckHigh (ram : Ram) (start addrMask : ℕ) : Sys → Except Sys Sys :=
  walk addrMask fun offset s =>
    let temp := ram.read (start + offset) s
    if temp ≠ pattern then .error (s.print (.stuckHigh (4 * (start + offset)) pattern temp))
    else .ok s

/-- The inner loop of "Check for addr bits stuck low or shorted." -/
def checkOthers (ram : Ram) (start addrMask testOffset : ℕ) : Sys → Except Sys Sys :=
  walk addrMask fun offset s =>
    let temp := ram.read (start + offset) s
    if temp ≠ pattern ∧ offset ≠ testOffset then
      .error (s.print (.stuckLowOrShorted (4 * (start + offset)) pattern temp))
    else .ok s

def addressLineTest (ram : Ram) (start addrMask : ℕ) (s : Sys) : Except Sys Sys := do
  let s ← writePattern ram start addrMask s
  let s ← checkStuckHigh ram start addrMask (ram.write start antiPattern s)
  walk addrMask (fun testOffset s => do
    let s ← checkOthers ram start addrMask testOffset
      (ram.write (start + testOffset) antiPattern s)
    .ok (ram.write (start + testOffset) pattern s)) (ram.write start pattern s)

/-! ## The test of the cells -/

/-- `pattern` at `offset`, counted up from 1. -/
def count (offset : ℕ) : Word := BitVec.ofNat 32 (offset + 1)

def fillPass (ram : Ram) (start numWords : ℕ) : Sys → Except Sys Sys :=
  upTo (fun offset s => .ok (ram.write (start + offset) (count offset) s)) numWords

/-- "Check each location and invert it for the second pass." -/
def invertPass (ram : Ram) (start numWords : ℕ) : Sys → Except Sys Sys :=
  upTo (fun offset s =>
    let temp := ram.read (start + offset) s
    if temp ≠ count offset then
      .error (s.print (.readWrite (4 * (start + offset)) (count offset) temp))
    else .ok (ram.write (start + offset) (~~~count offset) s)) numWords

/-- "Check each location for the inverted pattern and zero it." -/
def zeroPass (ram : Ram) (start numWords : ℕ) : Sys → Except Sys Sys :=
  upTo (fun offset s =>
    let temp := ram.read (start + offset) s
    if temp ≠ ~~~count offset then
      .error (s.print (.readWrite (4 * (start + offset)) (~~~count offset) temp))
    else .ok (ram.write (start + offset) 0 s)) numWords

def cellTest (ram : Ram) (start numWords : ℕ) (s : Sys) : Except Sys Sys := do
  let s ← fillPass ram start numWords s
  let s ← invertPass ram start numWords s
  zeroPass ram start numWords s

/-! ## The command -/

/-- One turn of the loop of `do_mem_mtest`, behind the check for ctrl-c; `start` and `stop` are
addresses of bytes. -/
def iteration (ram : Ram) (start stop n : ℕ) (s : Sys) : Except Sys Sys := do
  let s := s.print (.iteration n)
  let s := dataLineTest ram (start / 4) s
  let addrMask := (stop - start) / 4
  let s ← addressLineTest ram (start / 4) addrMask s
  cellTest ram (start / 4) (addrMask + 1) s

/-- The loop of `do_mem_mtest` for `fuel` turns; `ctrlc n` is the answer in front of iteration `n`.
An error is the state in which the function has returned 1. -/
def mtestLoop (ram : Ram) (start stop : ℕ) (ctrlc : ℕ → Bool) : ℕ → ℕ → Sys → Except Sys Sys
  | 0, _, s => .ok s
  | fuel + 1, n, s =>
    if ctrlc n then .error (s.print .newline)
    else iteration ram start stop n s >>= mtestLoop ram start stop ctrlc fuel (n + 1)

/-- `do_mem_mtest` on a memory, up to `fuel` iterations. -/
def doMemMtest (ram : Ram) (start stop : ℕ) (ctrlc : ℕ → Bool) (fuel : ℕ) (cells : ℕ → Word) :
    Except Sys Sys :=
  mtestLoop ram start stop ctrlc fuel 1 ⟨cells, [.testing start stop]⟩

/-! ## RAM without a fault -/

/-- RAM without a fault. -/
def good : Ram := ⟨id, id⟩

/-- Nothing has failed, and outside the words from `b` to `e` the memory is `c`. -/
structure Quiet (b e : ℕ) (c : ℕ → Word) (s : Sys) : Prop where
  noFailure : ∀ m ∈ s.printed, ¬ m.IsFailure
  frame : ∀ w, w < b ∨ e < w → s.cells w = c w

section
variable {b e a i j mask n : ℕ} {c : ℕ → Word} {s : Sys} {v : Word} {m : Message}

@[simp] theorem read_good : good.read a s = s.cells a := rfl

@[simp] theorem cells_write_good :
    (good.write a v s).cells = Function.update s.cells a v := rfl

@[simp] theorem printed_write {ram : Ram} : (ram.write a v s).printed = s.printed := rfl

@[simp] theorem cells_print : (s.print m).cells = s.cells := rfl

theorem Quiet.write (h : Quiet b e c s) (hb : b ≤ a) (he : a ≤ e) :
    Quiet b e c (good.write a v s) where
  noFailure := h.noFailure
  frame w hw := by
    rw [cells_write_good, Function.update_of_ne (by omega), h.frame w hw]

theorem Quiet.print (h : Quiet b e c s) (hm : ¬ m.IsFailure) : Quiet b e c (s.print m) where
  noFailure m' hm' := by
    rcases List.mem_append.mp hm' with hm' | hm'
    · exact h.noFailure m' hm'
    · rwa [List.mem_singleton.mp hm']
  frame := h.frame

theorem testBit_of_lt_lines (hi : i < lines mask) : mask.testBit i = true := by
  have hlen := (List.takeWhile_prefix mask.testBit (l := List.range 32)).length_le
  rw [List.length_range] at hlen
  have hmem : i ∈ (List.range 32).takeWhile mask.testBit := by
    rw [List.mem_iff_getElem]
    refine ⟨i, hi, ?_⟩
    rw [(List.takeWhile_prefix mask.testBit (l := List.range 32)).getElem hi, List.getElem_range]
  exact List.mem_takeWhile_imp hmem

theorem two_pow_le_of_lt_lines (hi : i < lines mask) : 2 ^ i ≤ mask :=
  Nat.ge_two_pow_of_testBit (testBit_of_lt_lines hi)

/-- A round of the data line test leaves its patterns at the first location and at address 0. -/
theorem dataLineStep_good (hb : b ≠ 0) : dataLineStep good b s v =
    good.write 0 v (good.write b (~~~v) (good.write 0 (~~~v) (good.write b v s))) := by
  simp only [dataLineStep, read_good, cells_write_good, Function.update_of_ne hb,
    Function.update_self, ne_eq, not_true_eq_false, if_false]

theorem Quiet.dataLineStep (h : Quiet b e c s) (hb : b ≠ 0) (hbe : b ≤ e) :
    Quiet b e (Function.update c 0 v) (dataLineStep good b s v) := by
  rw [dataLineStep_good hb]
  refine ⟨h.noFailure, fun w hw => ?_⟩
  simp only [cells_write_good]
  by_cases hw0 : w = 0
  · rw [hw0, Function.update_self, Function.update_self]
  · rw [Function.update_of_ne hw0, Function.update_of_ne (by omega), Function.update_of_ne hw0,
      Function.update_of_ne (by omega), Function.update_of_ne hw0, h.frame w hw]

theorem Quiet.foldl_dataLineStep (h : Quiet b e c s) (hb : b ≠ 0) (hbe : b ≤ e) (l : List Word)
    (v : Word) :
    Quiet b e (Function.update c 0 v) ((l ++ [v]).foldl (Mtest.dataLineStep good b) s) := by
  rw [List.foldl_append, List.foldl_cons, List.foldl_nil]
  induction l generalizing c s with
  | nil => exact h.dataLineStep hb hbe
  | cons v' l ih =>
    rw [List.foldl_cons]
    have := ih (h.dataLineStep hb hbe (v := v'))
    rwa [Function.update_idem] at this

/-- What the data line test parks at address 0 last. -/
def lastParked : Word := 0x80000000

set_option maxRecDepth 4000 in
theorem Quiet.dataLineTest (h : Quiet b e c s) (hb : b ≠ 0) (hbe : b ≤ e) :
    Quiet b e (Function.update c 0 lastParked) (dataLineTest good b s) := by
  have hsplit : bitpattern.flatMap shifts =
      (bitpattern.flatMap shifts).dropLast ++ [lastParked] := by decide
  rw [Mtest.dataLineTest, hsplit]
  exact h.foldl_dataLineStep hb hbe _ _

/-- The words at the offsets of the walk, but the one at `t`, are the pattern. -/
def Patterned (b mask t : ℕ) (s : Sys) : Prop :=
  ∀ i < lines mask, i ≠ t → s.cells (b + 2 ^ i) = pattern

theorem Patterned.write_offset {t : ℕ} (h : Patterned b mask t s) :
    Patterned b mask t (good.write (b + 2 ^ t) v s) := fun i hi hit => by
  have hne : b + 2 ^ i ≠ b + 2 ^ t := fun heq =>
    hit (Nat.pow_right_injective le_rfl (Nat.add_left_cancel heq))
  rw [cells_write_good, Function.update_of_ne hne, h i hi hit]

theorem Patterned.restore {t t' : ℕ} (h : Patterned b mask t s) :
    Patterned b mask t' (good.write (b + 2 ^ t) pattern s) := fun i hi _ => by
  by_cases hit : i = t
  · rw [hit, cells_write_good, Function.update_self]
  · exact h.write_offset i hi hit

theorem Patterned.write_start {t : ℕ} (h : Patterned b mask t s) :
    Patterned b mask t (good.write b v s) := fun i hi hit => by
  have hpos := Nat.two_pow_pos i
  rw [cells_write_good, Function.update_of_ne (by omega), h i hi hit]

theorem walk_eq_ok {step : ℕ → Sys → Except Sys Sys}
    (h : ∀ i < lines mask, step (2 ^ i) s = .ok s) : walk mask step s = .ok s := by
  have hends : Ends (walk mask step s) (· = s) fun _ => False := by
    refine Ends.upTo (I := fun _ s' => s' = s) rfl ?_
    rintro i hi s' rfl
    rw [h i hi]
    rfl
  obtain ⟨s', hwalk, rfl⟩ := hends.exists_ok
  exact hwalk

theorem quiet_writePattern (h : Quiet b (b + mask) c s) :
    Ends (writePattern good b mask s)
      (fun s => Quiet b (b + mask) c s ∧ Patterned b mask (lines mask) s) fun _ => False := by
  refine Ends.mono (Ends.upTo (I := fun n s => Quiet b (b + mask) c s ∧
    ∀ i < n, s.cells (b + 2 ^ i) = pattern) ⟨h, fun i hi => absurd hi (Nat.not_lt_zero i)⟩ ?_)
    (fun s hs => ⟨hs.1, fun i hi _ => hs.2 i hi⟩) fun _ => id
  rintro i hi s ⟨hs, hpat⟩
  refine ⟨hs.write (Nat.le_add_right ..) (Nat.add_le_add_left (two_pow_le_of_lt_lines hi) b),
    fun j hj => ?_⟩
  rcases Nat.lt_succ_iff_lt_or_eq.mp hj with hj | rfl
  · have hne : b + 2 ^ j ≠ b + 2 ^ i := fun heq =>
      hj.ne (Nat.pow_right_injective le_rfl (Nat.add_left_cancel heq))
    rw [cells_write_good, Function.update_of_ne hne, hpat j hj]
  · rw [cells_write_good, Function.update_self]

theorem checkStuckHigh_good (h : Patterned b mask (lines mask) s) :
    checkStuckHigh good b mask s = .ok s :=
  walk_eq_ok fun i hi => if_neg (not_not.mpr (h i hi hi.ne))

theorem checkOthers_good {t : ℕ} (h : Patterned b mask t s) :
    checkOthers good b mask (2 ^ t) s = .ok s :=
  walk_eq_ok fun i hi => if_neg fun hbad =>
    hbad.1 (h i hi fun hit => hbad.2 (by rw [hit]))

theorem quiet_addressLineTest (h : Quiet b (b + mask) c s) :
    Ends (addressLineTest good b mask s) (Quiet b (b + mask) c) fun _ => False := by
  refine (quiet_writePattern h).bind fun s ⟨hs, hpat⟩ => ?_
  rw [checkStuckHigh_good hpat.write_start]
  refine Ends.mono (Ends.upTo (I := fun _ s => Quiet b (b + mask) c s ∧
    Patterned b mask (lines mask) s) ⟨(hs.write le_rfl (Nat.le_add_right ..)).write le_rfl
      (Nat.le_add_right ..), hpat.write_start.write_start⟩ ?_) (fun s hs => hs.1) fun _ => id
  rintro t ht s ⟨hs, hpat⟩
  have hle : b + 2 ^ t ≤ b + mask := Nat.add_le_add_left (two_pow_le_of_lt_lines ht) b
  have hpat' : Patterned b mask t (good.write (b + 2 ^ t) antiPattern s) :=
    Patterned.write_offset fun i hi _ => hpat i hi hi.ne
  simp only [checkOthers_good hpat']
  exact ⟨(hs.write (Nat.le_add_right ..) hle).write (Nat.le_add_right ..) hle, hpat'.restore⟩

/-- The words of the range from the `i`-th on are `f`. -/
def Holds (b n i : ℕ) (f : ℕ → Word) (s : Sys) : Prop :=
  ∀ j, i ≤ j → j < n → s.cells (b + j) = f j

theorem Holds.write_below {f : ℕ → Word} (h : Holds b n i f s) :
    Holds b n (i + 1) f (good.write (b + i) v s) := fun j hj hjn => by
  rw [cells_write_good, Function.update_of_ne (by omega), h j (by omega) hjn]

theorem quiet_fillPass (h : Quiet b (b + mask) c s) :
    Ends (fillPass good b (mask + 1) s)
      (fun s => Quiet b (b + mask) c s ∧ Holds b (mask + 1) 0 count s) fun _ => False := by
  refine Ends.mono (Ends.upTo (I := fun n s => Quiet b (b + mask) c s ∧ Holds b n 0 count s)
    ⟨h, fun j _ hj => absurd hj (Nat.not_lt_zero j)⟩ ?_) (fun s hs => hs) fun _ => id
  rintro i hi s ⟨hs, hval⟩
  refine ⟨hs.write (Nat.le_add_right ..) (by omega), fun j _ hj => ?_⟩
  rcases Nat.lt_succ_iff_lt_or_eq.mp hj with hj | rfl
  · rw [cells_write_good, Function.update_of_ne (by omega), hval j (Nat.zero_le j) hj]
  · rw [cells_write_good, Function.update_self]

theorem quiet_invertPass (h : Quiet b (b + mask) c s) (hval : Holds b (mask + 1) 0 count s) :
    Ends (invertPass good b (mask + 1) s)
      (fun s => Quiet b (b + mask) c s ∧ Holds b (mask + 1) 0 (~~~count ·) s)
      fun _ => False := by
  refine Ends.mono (Ends.upTo (I := fun n s => Quiet b (b + mask) c s ∧
    Holds b n 0 (~~~count ·) s ∧ Holds b (mask + 1) n count s)
    ⟨h, fun j _ hj => absurd hj (Nat.not_lt_zero j), hval⟩ ?_)
    (fun s hs => ⟨hs.1, hs.2.1⟩) fun _ => id
  rintro i hi s ⟨hs, hdone, hrest⟩
  have hread : good.read (b + i) s = count i := hrest i le_rfl hi
  simp only [hread, ne_eq, not_true_eq_false, if_false]
  refine ⟨hs.write (Nat.le_add_right ..) (by omega), fun j _ hj => ?_, hrest.write_below⟩
  rcases Nat.lt_succ_iff_lt_or_eq.mp hj with hj | rfl
  · rw [cells_write_good, Function.update_of_ne (by omega), hdone j (Nat.zero_le j) hj]
  · rw [cells_write_good, Function.update_self]

theorem quiet_zeroPass (h : Quiet b (b + mask) c s)
    (hval : Holds b (mask + 1) 0 (~~~count ·) s) :
    Ends (zeroPass good b (mask + 1) s) (Quiet b (b + mask) c) fun _ => False := by
  refine Ends.mono (Ends.upTo (I := fun n s => Quiet b (b + mask) c s ∧
    Holds b (mask + 1) n (~~~count ·) s) ⟨h, hval⟩ ?_) (fun s hs => hs.1) fun _ => id
  rintro i hi s ⟨hs, hrest⟩
  have hread : good.read (b + i) s = ~~~count i := hrest i le_rfl hi
  simp only [hread, ne_eq, not_true_eq_false, if_false]
  exact ⟨hs.write (Nat.le_add_right ..) (by omega), hrest.write_below⟩

theorem quiet_cellTest (h : Quiet b (b + mask) c s) :
    Ends (cellTest good b (mask + 1) s) (Quiet b (b + mask) c) fun _ => False :=
  (quiet_fillPass h).bind fun _ ⟨hs, hval⟩ =>
    (quiet_invertPass hs hval).bind fun _ ⟨hs, hval⟩ => quiet_zeroPass hs hval

/-- One iteration: the range is tested, the last pattern is parked at address 0. -/
theorem quiet_iteration {start stop : ℕ} (hstart : 4 ≤ start) (h : Quiet (start / 4)
    (start / 4 + (stop - start) / 4) c s) :
    Ends (iteration good start stop n s) (Quiet (start / 4) (start / 4 + (stop - start) / 4)
      (Function.update c 0 lastParked)) fun _ => False := by
  have hline := (h.print (m := .iteration n) id).dataLineTest (by omega) (Nat.le_add_right ..)
  exact (quiet_addressLineTest hline).bind fun s hs => quiet_cellTest hs

/-- Nothing has failed, and outside the words from `b` to `e` only the one at address 0 may
differ from `c`. -/
def QuietButParked (b e : ℕ) (c : ℕ → Word) (s : Sys) : Prop :=
  ∃ v, Quiet b e (Function.update c 0 v) s

theorem quiet_mtestLoop {start stop fuel : ℕ} {ctrlc : ℕ → Bool} (hstart : 4 ≤ start)
    (h : QuietButParked (start / 4) (start / 4 + (stop - start) / 4) c s) :
    Ends (mtestLoop good start stop ctrlc fuel n s)
      (QuietButParked (start / 4) (start / 4 + (stop - start) / 4) c)
      (QuietButParked (start / 4) (start / 4 + (stop - start) / 4) c) := by
  induction fuel generalizing n s with
  | zero => exact h
  | succ fuel ih =>
    obtain ⟨v, h⟩ := h
    rw [mtestLoop]
    split
    · exact ⟨v, h.print id⟩
    · obtain ⟨s', hturn, hs'⟩ := (quiet_iteration hstart h (n := n)).exists_ok
      rw [Function.update_idem] at hs'
      rw [hturn]
      exact ih ⟨lastParked, hs'⟩

/-- **In good RAM nothing fails, and outside the range only the parking address changes.** -/
theorem quiet_doMemMtest {start stop fuel : ℕ} {ctrlc : ℕ → Bool} {cells : ℕ → Word}
    (hstart : 4 ≤ start) :
    Ends (doMemMtest good start stop ctrlc fuel cells)
      (QuietButParked (start / 4) (start / 4 + (stop - start) / 4) cells)
      (QuietButParked (start / 4) (start / 4 + (stop - start) / 4) cells) := by
  refine quiet_mtestLoop hstart ⟨cells 0, fun m hm => ?_, fun w _ => ?_⟩
  · rw [List.mem_singleton.mp hm]
    exact id
  · rw [Function.update_eq_self]

end

end UBoot.Mtest
