import UBoot.Boot.MemMap
import UBoot.Image.Bootm
import Mathlib.Order.CompletePartialOrder

/-!
# Where `do_bootm_linux` puts the ramdisk (`common/cmd_bootm.c`)

The command line and the board info go below the stack, in the memory that the kernel maps at
once; the ramdisk goes right below the stack if there is room above these, else below them.
`initrd_placed_iff`: when its place is free.
-/

namespace UBoot.Image

open UBoot.Lib UBoot.Common UBoot.Boot

/-- What the kernel is called with, and the `sp` that the command line is below. -/
structure Handoff where
  sp : UInt32
  kbd : UInt32
  initrdStart : UInt32
  initrdEnd : UInt32
  cmdStart : UInt32
  cmdEnd : UInt32

/-- A value of "no" acts like 0; without the variable nothing is restricted. -/
def initrdHighOf : Option CStr → UInt32
  | some s => UInt32.ofNat (simpleStrtoul 16 s.bytes).1
  | none => ~~~0

/-- The end of the memory below the stack pointer `r1`. -/
def stackEnd (r1 : UInt32) : UInt32 := (r1 - 2048) &&& ~~~0xF

variable (c : LinuxCfg) (r1 : UInt32)

/-- The place of a ramdisk of `len` bytes. -/
def LinuxCfg.initrdStart (initrdHigh len : UInt32) : UInt32 :=
  let start := (c.kbd r1 - len) &&& ~~~(4096 - 1)
  if initrdHigh ≠ 0 then
    let nsp := stackEnd r1
    let nsp := if nsp > initrdHigh then initrdHigh else nsp
    let nsp := (nsp - len) &&& ~~~(4096 - 1)
    if nsp ≥ c.sp r1 then nsp else start
  else start

/-- The addresses that `do_bootm_linux` chooses, for a ramdisk that it has found or none. -/
def doBootmLinux (initrdHigh bootargs : Option CStr) (initrd : Option Region) : Handoff :=
  let start := match initrd with
    | some r => c.initrdStart r1 (initrdHighOf initrdHigh) r.len
    | none => 0
  { sp := c.sp r1, kbd := c.kbd r1, initrdStart := start,
    initrdEnd := match initrd with
      | some r => start + r.len
      | none => 0
    cmdStart := c.cmdline r1, cmdEnd := c.cmdline r1 + UInt32.ofNat (argsOf bootargs).length }

/-! ## What the place should be -/

/-- The memory below the stack holds the command line and the board info, and that above the command
line its characters. -/
structure LinuxCfg.Enough (args : ℕ) : Prop where
  stack : 2048 ≤ r1.toNat
  cmdline : c.bargSize.toNat ≤ (c.sp r1).toNat
  kbd : c.sizeofBd.toNat ≤ (c.cmdline r1).toNat
  args : (c.cmdline r1).toNat + args < 2 ^ 32

/-- The bytes from `a` to below `b`. -/
abbrev span (a b : ℕ) : Set ℕ := Set.Ico a b

/-- A place above `sp`, below the stack and below `initrd_high`, where the command line is not. -/
structure HighPlace (r1 initrdHigh len : UInt32) (h : Handoff) (a : ℕ) : Prop where
  page : 4096 ∣ a
  above : h.sp.toNat ≤ a
  on : initrdHigh ≠ 0
  stack : a + len.toNat ≤ (stackEnd r1).toNat
  high : a + len.toNat ≤ initrdHigh.toNat
  cmd : Disjoint (span a (a + len.toNat)) (span h.cmdStart.toNat (h.cmdEnd.toNat + 1))

/-- A free place, high if there is such a one and else below `kbd`. -/
structure Placed (c : LinuxCfg) (r1 initrdHigh len : UInt32) (h : Handoff) : Prop where
  page : 4096 ∣ h.initrdStart.toNat
  noWrap : h.initrdStart.toNat + len.toNat ≤ 2 ^ 32
  bd : Disjoint (span h.initrdStart.toNat (h.initrdStart.toNat + len.toNat))
    (span h.kbd.toNat (h.kbd.toNat + c.sizeofBd.toNat))
  cmd : Disjoint (span h.initrdStart.toNat (h.initrdStart.toNat + len.toNat))
    (span h.cmdStart.toNat (h.cmdEnd.toNat + 1))
  reserved : Disjoint (span h.initrdStart.toNat (h.initrdStart.toNat + len.toNat))
    (span h.kbd.toNat h.sp.toNat)
  place : HighPlace r1 initrdHigh len h h.initrdStart.toNat ∨
    (¬ ∃ a, HighPlace r1 initrdHigh len h a) ∧
      h.initrdStart.toNat + len.toNat ≤ h.kbd.toNat

def pageOf (n : ℕ) : ℕ := n - n % 4096

def highEnd (r1 initrdHigh : UInt32) : ℕ := min (stackEnd r1).toNat initrdHigh.toNat

/-- If the last whole-page place below the stack and `initrd_high` is above `sp`, the command line
ends below it. Else there is room below `kbd`, and what the subtraction wraps to, if it does, is
below `sp`. -/
def LinuxCfg.Free (args : ℕ) (initrdHigh len : UInt32) : Prop :=
  if initrdHigh ≠ 0 ∧ len.toNat ≤ highEnd r1 initrdHigh ∧
      (c.sp r1).toNat ≤ pageOf (highEnd r1 initrdHigh - len.toNat) then
    len ≠ 0 → (c.cmdline r1).toNat + args < pageOf (highEnd r1 initrdHigh - len.toNat)
  else
    len.toNat ≤ (c.kbd r1).toNat ∧
      (initrdHigh ≠ 0 → highEnd r1 initrdHigh < len.toNat →
        pageOf (2 ^ 32 + highEnd r1 initrdHigh - len.toNat) < (c.sp r1).toNat)

/-! ## What it is -/

section
variable {c r1} {initrdHigh len : UInt32} {args : ℕ}

theorem pageOf_dvd (n : ℕ) : 4096 ∣ pageOf n := Nat.dvd_sub_mod n

theorem toNat_mask16 (x : UInt32) : (x &&& ~~~0xF).toNat = x.toNat - x.toNat % 16 :=
  toNat_and_not (k := 4) rfl

theorem LinuxCfg.Enough.order (h : c.Enough r1 args) :
    (c.cmdline r1).toNat ≤ (c.sp r1).toNat ∧
      (c.kbd r1).toNat + c.sizeofBd.toNat ≤ (c.cmdline r1).toNat := by
  constructor
  · have hle := h.cmdline
    rw [LinuxCfg.cmdline, toNat_mask16, toNat_sub_of_le hle]
    omega
  · have hle := h.kbd
    rw [LinuxCfg.kbd, toNat_mask16, toNat_sub_of_le hle]
    omega

theorem toNat_high : (((if stackEnd r1 > initrdHigh then initrdHigh else stackEnd r1) - len) &&&
    ~~~(4096 - 1)).toNat = pageOf ((2 ^ 32 - len.toNat + highEnd r1 initrdHigh) % 2 ^ 32) := by
  have hmin : (if stackEnd r1 > initrdHigh then initrdHigh else stackEnd r1).toNat =
      highEnd r1 initrdHigh := by
    simp only [gt_iff_lt, UInt32.lt_iff_toNat_lt, highEnd]
    split_ifs <;> omega
  rw [toNat_page, UInt32.toNat_sub, hmin, pageOf]

theorem LinuxCfg.initrdStart_toNat : (c.initrdStart r1 initrdHigh len).toNat =
    if initrdHigh ≠ 0 ∧
        (c.sp r1).toNat ≤ pageOf ((2 ^ 32 - len.toNat + highEnd r1 initrdHigh) % 2 ^ 32) then
      pageOf ((2 ^ 32 - len.toNat + highEnd r1 initrdHigh) % 2 ^ 32)
    else ((c.kbd r1 - len) &&& ~~~(4096 - 1)).toNat := by
  rw [← toNat_high, ite_and]
  simp only [LinuxCfg.initrdStart, ge_iff_le, UInt32.le_iff_toNat_le]
  split_ifs <;> rfl

variable {h : Handoff}

/-- Without a high place the one below `kbd` is free if there is room for it. -/
theorem placed_low_iff (hstart : h.initrdStart = (h.kbd - len) &&& ~~~(4096 - 1))
    (hkbd : h.kbd.toNat + c.sizeofBd.toNat ≤ h.cmdStart.toNat)
    (hno : ¬ ∃ a, HighPlace r1 initrdHigh len h a) :
    Placed c r1 initrdHigh len h ↔ len.toNat ≤ h.kbd.toNat := by
  constructor
  · intro hplaced
    rcases hplaced.place with hhigh | ⟨-, hbelow⟩
    · exact absurd ⟨_, hhigh⟩ hno
    · omega
  · intro hlen
    have hplace : h.initrdStart.toNat = pageOf (h.kbd.toNat - len.toNat) := by
      rw [hstart, toNat_page, toNat_sub_of_le hlen, pageOf]
    have hpage : pageOf (h.kbd.toNat - len.toNat) ≤ h.kbd.toNat - len.toNat := Nat.sub_le _ _
    have hlt := h.kbd.toNat_lt
    rw [← hplace] at hpage
    refine ⟨hplace ▸ pageOf_dvd _, by omega, ?_, ?_, ?_, .inr ⟨hno, by omega⟩⟩ <;>
      rw [Set.Ico_disjoint_Ico] <;> omega

/-- A place above `sp` is free if the command line is not there. -/
theorem Placed.high (hhigh : HighPlace r1 initrdHigh len h h.initrdStart.toNat)
    (hcmd : h.cmdStart.toNat ≤ h.sp.toNat)
    (hkbd : h.kbd.toNat + c.sizeofBd.toNat ≤ h.cmdStart.toNat) :
    Placed c r1 initrdHigh len h := by
  have hstack := hhigh.stack
  have hlt := (stackEnd r1).toNat_lt
  have habove := hhigh.above
  refine ⟨hhigh.page, by omega, ?_, hhigh.cmd, ?_, .inl hhigh⟩ <;>
    rw [Set.Ico_disjoint_Ico] <;> omega

/-- No place is below both the stack and `initrd_high` and above the last whole-page one there. -/
theorem HighPlace.le {a : ℕ} (ha : HighPlace r1 initrdHigh len h a) :
    len.toNat ≤ highEnd r1 initrdHigh ∧ a ≤ pageOf (highEnd r1 initrdHigh - len.toNat) := by
  have hstack := ha.stack
  have hhigh := ha.high
  rw [highEnd]
  exact ⟨by omega, le_sub_mod_of_dvd ha.page (by omega)⟩

/-- The last whole-page place, when it is above `sp`, is free if the command line ends below it. -/
theorem placed_high_iff (hstart : h.initrdStart.toNat = pageOf (highEnd r1 initrdHigh - len.toNat))
    (hon : initrdHigh ≠ 0) (hle : len.toNat ≤ highEnd r1 initrdHigh)
    (habove : h.sp.toNat ≤ h.initrdStart.toNat) (hcmd : h.cmdStart.toNat ≤ h.sp.toNat)
    (hkbd : h.kbd.toNat + c.sizeofBd.toNat ≤ h.cmdStart.toNat)
    (hend : h.cmdStart.toNat ≤ h.cmdEnd.toNat) :
    Placed c r1 initrdHigh len h ↔ (len ≠ 0 → h.cmdEnd.toNat < h.initrdStart.toNat) := by
  have hpage := pageOf_dvd (highEnd r1 initrdHigh - len.toNat)
  have hfloor : pageOf (highEnd r1 initrdHigh - len.toNat) ≤
      highEnd r1 initrdHigh - len.toNat := Nat.sub_le _ _
  rw [← hstart] at hpage hfloor
  rw [highEnd] at hle hfloor
  constructor
  · intro hplaced hne
    have hdisj := hplaced.cmd
    rw [Set.Ico_disjoint_Ico] at hdisj
    have hpos : len.toNat ≠ 0 := fun h0 => hne (UInt32.toNat_inj.mp h0)
    omega
  · intro hfree
    refine .high ⟨hpage, habove, hon, by omega, by omega, ?_⟩ hcmd hkbd
    rw [Set.Ico_disjoint_Ico]
    by_cases hne : len = 0
    · rw [hne, UInt32.toNat_zero]
      omega
    · have hcmdend := hfree hne
      omega

/-- A place that the subtraction has wrapped to is not right. -/
theorem not_placed_wrap (hno : ¬ ∃ a, HighPlace r1 initrdHigh len h a) (hpos : 0 < len.toNat)
    (habove : h.sp.toNat ≤ h.initrdStart.toNat) (hkbd : h.kbd.toNat ≤ h.sp.toNat) :
    ¬ Placed c r1 initrdHigh len h := by
  intro hplaced
  rcases hplaced.place with hhigh | ⟨-, hbelow⟩
  · exact hno ⟨_, hhigh⟩
  · omega

theorem placed_iff_free (henough : c.Enough r1 args) (hsp : h.sp = c.sp r1)
    (hkbd : h.kbd = c.kbd r1) (hcmd : h.cmdStart = c.cmdline r1)
    (hend : h.cmdEnd.toNat = (c.cmdline r1).toNat + args)
    (hinit : h.initrdStart = c.initrdStart r1 initrdHigh len) :
    Placed c r1 initrdHigh len h ↔ c.Free r1 args initrdHigh len := by
  obtain ⟨hcmdle, hkbdle⟩ := henough.order
  have hstart := @LinuxCfg.initrdStart_toNat c r1 initrdHigh len
  have htop : highEnd r1 initrdHigh < 2 ^ 32 :=
    (Nat.min_le_right ..).trans_lt initrdHigh.toNat_lt
  have hlt := len.toNat_lt
  rw [← hinit, ← hsp, ← hkbd] at hstart
  rw [← hsp, ← hcmd] at hcmdle
  rw [← hkbd, ← hcmd] at hkbdle
  rw [← hcmd] at hend
  rw [LinuxCfg.Free, ← hsp, ← hcmd, ← hkbd, ← hend]
  split_ifs with hhigh
  · -- high
    obtain ⟨hon, hle, habove⟩ := hhigh
    have hmod : (2 ^ 32 - len.toNat + highEnd r1 initrdHigh) % 2 ^ 32 =
        highEnd r1 initrdHigh - len.toNat := by omega
    rw [hmod, if_pos ⟨hon, habove⟩] at hstart
    rw [placed_high_iff hstart hon hle (hstart ▸ habove) hcmdle hkbdle (by omega), hstart]
  · have hnone : ¬ ∃ a, HighPlace r1 initrdHigh len h a := fun ⟨_, ha⟩ =>
      hhigh ⟨ha.on, ha.le.1, ha.above.trans ha.le.2⟩
    by_cases hwrap : initrdHigh ≠ 0 ∧ highEnd r1 initrdHigh < len.toNat ∧
        h.sp.toNat ≤ pageOf (2 ^ 32 + highEnd r1 initrdHigh - len.toNat)
    · -- the place from the wrap is taken
      obtain ⟨hon, hlong, habove⟩ := hwrap
      have hmod : (2 ^ 32 - len.toNat + highEnd r1 initrdHigh) % 2 ^ 32 =
          2 ^ 32 + highEnd r1 initrdHigh - len.toNat := by omega
      rw [hmod, if_pos ⟨hon, habove⟩] at hstart
      exact iff_of_false (not_placed_wrap hnone (by omega) (hstart ▸ habove) (by omega))
        fun hfree => absurd (hfree.2 hon hlong) (Nat.not_lt.mpr habove)
    · -- the place below `kbd` is taken
      have hlow : h.initrdStart = (h.kbd - len) &&& ~~~(4096 - 1) := by
        refine UInt32.toNat_inj.mp (hstart.trans (if_neg ?_))
        rintro ⟨hon, habove⟩
        rcases Nat.lt_or_ge (highEnd r1 initrdHigh) len.toNat with hlong | hle
        · have hmod : (2 ^ 32 - len.toNat + highEnd r1 initrdHigh) % 2 ^ 32 =
              2 ^ 32 + highEnd r1 initrdHigh - len.toNat := by omega
          exact hwrap ⟨hon, hlong, hmod ▸ habove⟩
        · have hmod : (2 ^ 32 - len.toNat + highEnd r1 initrdHigh) % 2 ^ 32 =
              highEnd r1 initrdHigh - len.toNat := by omega
          exact hhigh ⟨hon, hle, hmod ▸ habove⟩
      rw [placed_low_iff hlow hkbdle hnone]
      exact ⟨fun hle => ⟨hle, fun hon hlong => Nat.lt_of_not_le fun h => hwrap ⟨hon, hlong, h⟩⟩,
        And.left⟩

end

/-- **The place of the ramdisk** is a free one exactly if it is `Free`. -/
theorem initrd_placed_iff (initrdHigh bootargs : Option CStr) (r : Region)
    (henough : c.Enough r1 (argsOf bootargs).length) :
    Placed c r1 (initrdHighOf initrdHigh) r.len
        (doBootmLinux c r1 initrdHigh bootargs (some r)) ↔
      c.Free r1 (argsOf bootargs).length (initrdHighOf initrdHigh) r.len := by
  have hargs := henough.args
  refine placed_iff_free henough rfl rfl rfl ?_ rfl
  rw [doBootmLinux, UInt32.toNat_add, UInt32.toNat_ofNat']
  omega

/-- 8 MB for the kernel, 1 kB for the command line. -/
def linuxCfgOne : LinuxCfg := ⟨0x800000, 0x400, 100⟩

def initrdOne : Region := ⟨0x200000, 0x100000⟩

theorem initrd_placed_iff_one :
    Placed linuxCfgOne 0x1ff0000 (initrdHighOf none) initrdOne.len
        (doBootmLinux linuxCfgOne 0x1ff0000 none none (some initrdOne)) ↔
      linuxCfgOne.Free 0x1ff0000 (argsOf none).length (initrdHighOf none) initrdOne.len :=
  initrd_placed_iff linuxCfgOne 0x1ff0000 none none initrdOne
    ⟨by decide, by decide, by decide, by decide⟩

/-- `initrd_high=1000`: the place wraps to `fff01000`, and there is room below `kbd`. -/
theorem initrd_wraps : linuxCfgOne.Enough 0x1ff0000 (argsOf none).length ∧
    initrdOne.len ≤ linuxCfgOne.kbd 0x1ff0000 ∧
    ¬ Placed linuxCfgOne 0x1ff0000 (initrdHighOf (some ⟨ascii "1000", by decide⟩)) initrdOne.len
      (doBootmLinux linuxCfgOne 0x1ff0000 (some ⟨ascii "1000", by decide⟩) none
        (some initrdOne)) := by
  refine ⟨⟨by decide, by decide, by decide, by decide⟩, by decide, fun hplaced => ?_⟩
  rcases hplaced.place with hhigh | ⟨-, hbelow⟩
  · exact absurd hhigh.high (by decide)
  · exact absurd hbelow (by decide)

end UBoot.Image
