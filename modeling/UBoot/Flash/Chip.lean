import UBoot.Flash.Banks
import UBoot.Lib.Shifted

/-!
# The flash of a board (`board/tqm8xx/flash.c`)

Two chips of 16 bits make a bank of words. Three cycles announce a word and the fourth stores it,
that is the old word AND the new one; six cycles erase a sector, and as long as no other command
comes, one more cycle erases another one. While the chips are busy, a read answers with a status
whose D7 is not that of the data.
-/

namespace UBoot.Tqm8xx

open UBoot.Lib.Shifted UBoot.Flash

inductive Phase where
  | read
  | unlock
  | command
  | program
  | setup
  | setupUnlock
  | erase
  deriving DecidableEq

/-- An operation of the chips and the address it was given. -/
inductive Op where
  | program (a : ℕ)
  | erase (a : ℕ)
  deriving DecidableEq

/-- A bank: `sector` numbers the sectors, `status` is what is still to be read before the last
operation is over. -/
@[ext]
structure Chip where
  start : ℕ
  size : ℕ
  sector : ℕ → ℕ
  cells : ℕ → UInt8
  phase : Phase
  status : List Word
  ops : List Op

def D7 : Word := 0x00800080

/-- How long operation `n` takes: `busy` and `erasing` are the status that is read until it is over,
`elapsed` is what `get_timer` gives. All of them complete in time. -/
structure Timing where
  busy : ℕ → Word → List Word
  erasing : ℕ → List Word
  busy_d7 : ∀ n data, ∀ s ∈ busy n data, s &&& D7 ≠ data &&& D7
  erasing_d7 : ∀ n, ∀ s ∈ erasing n, s &&& D7 ≠ D7
  elapsed : ℕ → ℕ → ℕ
  CFG_FLASH_WRITE_TOUT : ℕ
  CFG_FLASH_ERASE_TOUT : ℕ
  programs : ∀ n data k, k < (busy n data).length → elapsed n k ≤ CFG_FLASH_WRITE_TOUT
  erases : ∀ n k, k < (erasing n).length → elapsed n k ≤ CFG_FLASH_ERASE_TOUT

namespace Chip

/-- A byte of the bank; nothing answers outside it. -/
def cell (chip : Chip) (a : ℕ) : UInt8 :=
  if chip.start ≤ a ∧ a < chip.start + chip.size then chip.cells a else 0xff

def word (chip : Chip) (a : ℕ) : Word := wordOf chip.cell a

def readByte (chip : Chip) (a : ℕ) : UInt8 × Chip :=
  match chip.status with
  | [] => (chip.cell a, chip)
  | s :: status => (byteOf s (a % 4), { chip with status })

def readWord (chip : Chip) (a : ℕ) : Word × Chip :=
  match chip.status with
  | [] => (chip.word a, chip)
  | s :: status => (s, { chip with status })

def write (t : Timing) (chip : Chip) (a : ℕ) (v : Word) : Chip :=
  let first := a = chip.start + 4 * 0x0555 ∧ v = 0x00AA00AA
  let second := a = chip.start + 4 * 0x02AA ∧ v = 0x00550055
  match chip.phase with
  | .read => { chip with phase := if first then .unlock else .read }
  | .unlock => { chip with phase := if second then .command else .read }
  | .command =>
    { chip with
      phase :=
        if a = chip.start + 4 * 0x0555 ∧ v = 0x00A000A0 then .program
        else if a = chip.start + 4 * 0x0555 ∧ v = 0x00800080 then .setup
        else .read }
  | .program =>
    { chip with
      cells := fun b => if a ≤ b ∧ b < a + 4 then chip.cells b &&& byteOf v (b - a)
        else chip.cells b
      phase := .read
      status := t.busy chip.ops.length v
      ops := chip.ops ++ [.program a] }
  | .setup => { chip with phase := if first then .setupUnlock else .read }
  | .setupUnlock => { chip with phase := if second then .erase else .read }
  | .erase =>
    if v = 0x00300030 then
      { chip with
        cells := fun b => if chip.sector b = chip.sector a then 0xff else chip.cells b
        status := t.erasing chip.ops.length
        ops := chip.ops ++ [.erase a] }
    else { chip with phase := .read }

end Chip

/-- A loop that waits for D7, with the status that is still to be read and the word that is read
behind it; that one does not change any more, so the loop ends by its timeout. -/
def poll (elapsed : ℕ → ℕ) (tout : ℕ) (data last : Word) : List Word → ℕ → ℤ × List Word
  | [], _ => if last &&& D7 ≠ data &&& D7 then (1, []) else (0, [])
  | s :: status, k =>
    if s &&& D7 ≠ data &&& D7 then
      if tout < elapsed k then (1, status)
      else poll elapsed tout data last status (k + 1)
    else (0, status)

def writeWord (t : Timing) (info : FlashInfo) (chip : Chip) (dest : ℕ) (data : Word) : ℤ × Chip :=
  let addr := (info.start 0).toNat
  let (old, chip) := chip.readWord dest
  if old &&& data ≠ data then (2, chip)
  else
    let n := chip.ops.length
    let chip := chip.write t (addr + 4 * 0x0555) 0x00AA00AA
    let chip := chip.write t (addr + 4 * 0x02AA) 0x00550055
    let chip := chip.write t (addr + 4 * 0x0555) 0x00A000A0
    let chip := chip.write t dest data
    let (rc, status) :=
      poll (t.elapsed n) t.CFG_FLASH_WRITE_TOUT data (chip.word dest) chip.status 0
    (rc, { chip with status })

/-- The loops that shift bytes of the bank into a word. -/
def readBytes : ℕ → ℕ → Word → Chip → Word × Chip
  | 0, _, data, chip => (data, chip)
  | n + 1, cp, data, chip =>
    let (b, chip) := chip.readByte cp
    readBytes n (cp + 1) (shiftIn data b) chip

/-- The loops that shift bytes of the source into a word, `n` at most, with what is left of `n`. -/
def takeBytes : ℕ → Word → List UInt8 → ℕ × Word × List UInt8
  | n + 1, data, b :: src => takeBytes n (shiftIn data b) src
  | n, data, src => (n, data, src)

/-- `write_buff` from its aligned part on. -/
def writeAligned (t : Timing) (info : FlashInfo) : List UInt8 → ℕ → Chip → ℤ × Chip
  | a :: b :: c :: d :: src, wp, chip =>
    let data := shiftIn (shiftIn (shiftIn (shiftIn 0 a) b) c) d
    let (rc, chip) := writeWord t info chip wp data
    if rc ≠ 0 then (rc, chip) else writeAligned t info src (wp + 4) chip
  | [], _, chip => (0, chip)
  | src, wp, chip =>
    let (n, data, _) := takeBytes 4 0 src
    let (data, chip) := readBytes n (wp + (4 - n)) data chip
    writeWord t info chip wp data

/-- `write_buff`; `cnt` is the length of the source. -/
def writeBuff (t : Timing) (info : FlashInfo) (src : List UInt8) (addr : ℕ) (chip : Chip) :
    ℤ × Chip :=
  let wp := addr / 4 * 4
  let l := addr - wp
  if l ≠ 0 then
    let (data, chip) := readBytes l wp 0 chip
    let (n, data, src) := takeBytes (4 - l) data src
    let (data, chip) :=
      if src.length = 0 then readBytes n (wp + (4 - n)) data chip else (data, chip)
    let (rc, chip) := writeWord t info chip wp data
    if rc ≠ 0 then (rc, chip) else writeAligned t info src (wp + 4) chip
  else writeAligned t info src wp chip

/-- The erase loop of `flash_erase`: it erases the sectors that are not protected and gives the last
one of them, `l_sect`. -/
def eraseSectors (t : Timing) (info : FlashInfo) : List ℕ → Option ℕ → Chip → Option ℕ × Chip
  | [], l, chip => (l, chip)
  | sect :: sects, l, chip =>
    if info.protect sect = 0 then
      eraseSectors t info sects (some sect) (chip.write t (info.start sect).toNat 0x00300030)
    else eraseSectors t info sects l chip

def FLASH_AMD_COMP : UInt32 := 0x000FFFFF

def flashErase (t : Timing) (info : FlashInfo) (sFirst sLast : ℤ) (chip : Chip) : ℤ × Chip :=
  let addr := (info.start 0).toNat
  if sFirst < 0 ∨ sFirst > sLast then (1, chip)
  else if info.flashId = flashUnknown ∨ info.flashId > FLASH_AMD_COMP then (1, chip)
  else
    let chip := chip.write t (addr + 4 * 0x0555) 0x00AA00AA
    let chip := chip.write t (addr + 4 * 0x02AA) 0x00550055
    let chip := chip.write t (addr + 4 * 0x0555) 0x00800080
    let chip := chip.write t (addr + 4 * 0x0555) 0x00AA00AA
    let chip := chip.write t (addr + 4 * 0x02AA) 0x00550055
    let sects := List.range' sFirst.toNat (sLast + 1 - sFirst).toNat
    match eraseSectors t info sects none chip with
    | (none, chip) => (0, chip.write t addr 0x00F000F0)
    | (some sect, chip) =>
      let (rc, status) := poll (t.elapsed (chip.ops.length - 1)) t.CFG_FLASH_ERASE_TOUT D7
        (chip.word (info.start sect).toNat) chip.status 0
      let chip := { chip with status }
      if rc ≠ 0 then (1, chip) else (0, chip.write t addr 0x00F000F0)

/-! ### One word -/

variable {t : Timing} {info : FlashInfo} {chip : Chip} {dest : ℕ} {data : Word}

/-- The chips answer with data and wait for a command. -/
structure Chip.Idle (chip : Chip) : Prop where
  phase : chip.phase = .read
  status : chip.status = []

/-- The driver knows where the bank is and which sectors it has. -/
structure Describes (info : FlashInfo) (chip : Chip) : Prop where
  known : info.flashId ≠ flashUnknown
  amd : info.flashId ≤ FLASH_AMD_COMP
  start : chip.start = (info.start 0).toNat
  size : chip.size = info.size.toNat
  ascending : info.Ascending
  wide : ∀ i < info.sectorCount.toNat, (info.start i).toNat + 4 ≤ info.sectorEnd i
  sector : ∀ i < info.sectorCount.toNat, ∀ b,
    (info.start i).toNat ≤ b ∧ b < info.sectorEnd i ↔ chip.sector b = i

def Chip.Has (chip : Chip) (dest : ℕ) : Prop :=
  chip.start ≤ dest ∧ dest + 4 ≤ chip.start + chip.size

def Chip.stored (chip : Chip) (dest : ℕ) (data : Word) : Chip :=
  { chip with
    cells := fun b => if dest ≤ b ∧ b < dest + 4 then byteOf data (b - dest) else chip.cells b
    ops := chip.ops ++ [.program dest] }

theorem Chip.cell_of_has (h : chip.Has dest) {i : ℕ} (hi : i < 4) :
    chip.cell (dest + i) = chip.cells (dest + i) := by
  obtain ⟨hlo, hhi⟩ := h
  exact if_pos (by omega)

theorem poll_completes {elapsed : ℕ → ℕ} {tout : ℕ} {last : Word}
    (hlast : last &&& D7 = data &&& D7) (status : List Word) (k : ℕ)
    (hd7 : ∀ s ∈ status, s &&& D7 ≠ data &&& D7)
    (htime : ∀ j < status.length, elapsed (k + j) ≤ tout) :
    poll elapsed tout data last status k = (0, []) := by
  induction status generalizing k with
  | nil => exact if_neg (not_not_intro hlast)
  | cons s status ih =>
    have hnow : elapsed k ≤ tout := htime 0 (Nat.succ_pos _)
    rw [poll, if_pos (hd7 s List.mem_cons_self), if_neg (Nat.not_lt.2 hnow)]
    refine ih (k + 1) (fun s hs => hd7 s (List.mem_cons_of_mem _ hs)) fun j hj => ?_
    rw [Nat.add_assoc, Nat.add_comm 1 j]
    exact htime (j + 1) (Nat.succ_lt_succ hj)

theorem Chip.write_program (hidle : chip.Idle) (dest : ℕ) (data : Word) :
    (((chip.write t (chip.start + 4 * 0x0555) 0x00AA00AA).write t (chip.start + 4 * 0x02AA)
      0x00550055).write t (chip.start + 4 * 0x0555) 0x00A000A0).write t dest data =
    { chip with
      cells := fun b => if dest ≤ b ∧ b < dest + 4 then chip.cells b &&& byteOf data (b - dest)
        else chip.cells b
      status := t.busy chip.ops.length data
      ops := chip.ops ++ [.program dest] } := by
  obtain ⟨hphase, hstatus⟩ := hidle
  obtain ⟨start, size, sector, cells, phase, status, ops⟩ := chip
  dsimp only at hphase hstatus
  subst hphase hstatus
  simp only [Chip.write, and_self, if_true]

/-- A word is stored if the old one has all of its bits, and refused otherwise. -/
theorem writeWord_spec (hidle : chip.Idle) (hstart : chip.start = (info.start 0).toNat)
    (hin : chip.Has dest) (data : Word) :
    writeWord t info chip dest data =
      if chip.word dest &&& data = data then (0, chip.stored dest data) else (2, chip) := by
  have hread : chip.readWord dest = (chip.word dest, chip) := by
    rw [Chip.readWord, hidle.status]
  rw [writeWord, hread, ← hstart]
  dsimp only
  by_cases hbits : chip.word dest &&& data = data
  · have hcells : (fun b => if dest ≤ b ∧ b < dest + 4 then
        chip.cells b &&& byteOf data (b - dest) else chip.cells b) =
        (chip.stored dest data).cells := by
      funext b
      change _ = if _ then _ else _
      split_ifs with hb
      · obtain ⟨i, rfl⟩ := Nat.exists_eq_add_of_le hb.1
        have hi : i < 4 := by omega
        have hbyte : byteOf (chip.word dest &&& data) i = byteOf data i := by rw [hbits]
        rw [byteOf_and, Chip.word, byteOf_wordOf hi, Chip.cell_of_has hin hi] at hbyte
        rw [Nat.add_sub_cancel_left]
        exact hbyte
      · rfl
    have hlast : (chip.stored dest data).word dest = data := by
      refine word_ext fun i hi => ?_
      have hcell : (chip.stored dest data).cell (dest + i) = byteOf data (dest + i - dest) := by
        have hstored : (chip.stored dest data).Has dest := hin
        rw [Chip.cell_of_has hstored hi]
        exact if_pos (by omega)
      rw [Chip.word, byteOf_wordOf hi, hcell, Nat.add_sub_cancel_left]
    have hpoll : poll (t.elapsed chip.ops.length) t.CFG_FLASH_WRITE_TOUT data
        ((chip.stored dest data).word dest) (t.busy chip.ops.length data) 0 = (0, []) :=
      poll_completes (congrArg (· &&& D7) hlast) _ 0 (t.busy_d7 _ data) fun j hj =>
        t.programs _ data _ (by rwa [Nat.zero_add])
    rw [if_neg (not_not_intro hbits), if_pos hbits, Chip.write_program hidle, hcells]
    change ((poll (t.elapsed chip.ops.length) t.CFG_FLASH_WRITE_TOUT data
      ((chip.stored dest data).word dest) (t.busy chip.ops.length data) 0).1,
      { chip.stored dest data with
        status := (poll (t.elapsed chip.ops.length) t.CFG_FLASH_WRITE_TOUT data
          ((chip.stored dest data).word dest) (t.busy chip.ops.length data) 0).2 }) = _
    rw [hpoll]
    exact congrArg (fun status => (0, ({ chip.stored dest data with status } : Chip)))
      hidle.status.symm
  · rw [if_pos hbits, if_neg hbits]

end UBoot.Tqm8xx
