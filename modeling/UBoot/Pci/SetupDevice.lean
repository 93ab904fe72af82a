import Mathlib.Data.Nat.Init
import Mathlib.Tactic.SplitIfs

/-!
# The base addresses of a device (`drivers/pci_auto.c`)

`pciauto_setup_device` writes all ones to each base address register, sees from the response how
large the window is and places it in a region. Its loop runs up to and with the register behind the
last one, so `pciauto_setup_device_not_owned`: each run writes to it, be it the bus numbers of a
bridge (two registers) or the CardBus pointer of another device (six).
-/

namespace UBoot.Pci.SetupDevice

def pciCommand : ℕ := 0x04

def pciCacheLineSize : ℕ := 0x0c

def pciLatencyTimer : ℕ := 0x0d

/-- `PCI_BASE_ADDRESS_0` -/
def pciBaseAddress : ℕ := 0x10

def commandIo : UInt32 := 0x1

def commandMemory : UInt32 := 0x2

def commandMaster : UInt32 := 0x4

structure Write where
  offset : ℕ
  size : ℕ
  value : UInt32
  deriving DecidableEq

/-- A device answers the dword reads; the answer may depend on all that has been written. -/
abbrev Device := List Write → ℕ → UInt32

/-- `struct pci_region` -/
structure Region where
  busStart : UInt32
  size : UInt32
  busLower : UInt32

/-- The variables of `pciauto_setup_device`, and its writes. -/
structure Setup where
  writes : List Write
  mem : Option Region
  io : Option Region
  cmdstat : UInt32

/-- `pci_hose_write_config_dword` -/
def Setup.writeDword (s : Setup) (offset : ℕ) (value : UInt32) : Setup :=
  { s with writes := s.writes ++ [⟨offset, 4, value⟩] }

/-- `pci_hose_write_config_byte` -/
def Setup.writeByte (s : Setup) (offset : ℕ) (value : UInt32) : Setup :=
  { s with writes := s.writes ++ [⟨offset, 1, value⟩] }

/-- `pciauto_region_allocate`, the address and the region. -/
def pciautoRegionAllocate (res : Option Region) (size : UInt32) : Option (UInt32 × Region) := do
  let res ← res
  let addr := ((res.busLower - 1) ||| (size - 1)) + 1
  if addr - res.busStart + size > res.size then none
  else some (addr, { res with busLower := addr + size })

/-- The loop body of `pciauto_setup_device`: `bar` behind it, and the variables. -/
def setupBar (d : Device) (bar : ℕ) (s : Setup) : ℕ × Setup :=
  let s := s.writeDword bar 0xffffffff
  let barResponse := d s.writes bar
  if barResponse = 0 then (bar, s)
  else if barResponse &&& 0x01 ≠ 0 then
    let barSize := ~~~(barResponse &&& ~~~0x03) + 1
    match pciautoRegionAllocate s.io barSize with
    | none => (bar, s)
    | some (barValue, io) =>
      (bar, { s.writeDword bar barValue with io := some io, cmdstat := s.cmdstat ||| commandIo })
  else
    let barSize := ~~~(barResponse &&& ~~~0x0f) + 1
    match pciautoRegionAllocate s.mem barSize with
    | none => (bar, s)
    | some (barValue, mem) =>
      let s := { s.writeDword bar barValue with
        mem := some mem, cmdstat := s.cmdstat ||| commandMemory }
      -- a 64-bit decoder
      if barResponse &&& 0x06 = 0x04 then (bar + 4, s.writeDword (bar + 4) 0)
      else (bar, s)

section
variable {d : Device} {bar last barsNum : ℕ} {s : Setup}

/-- What the loop body does: all ones are written to the register, then at most its address, and
0 to the next one, which is then left out. -/
theorem setupBar_cases (d : Device) (bar : ℕ) (s : Setup) :
    ∃ rest, (setupBar d bar s).2.writes = s.writes ++ ⟨bar, 4, 0xffffffff⟩ :: rest ∧
      ((setupBar d bar s).1 = bar ∧ (rest = [] ∨ ∃ v, rest = [⟨bar, 4, v⟩]) ∨
        (setupBar d bar s).1 = bar + 4 ∧ ∃ v, rest = [⟨bar, 4, v⟩, ⟨bar + 4, 4, 0⟩]) := by
  rw [setupBar]
  dsimp only
  split_ifs with hzero hio h64
  · exact ⟨[], rfl, .inl ⟨rfl, .inl rfl⟩⟩
  · split
    · exact ⟨[], rfl, .inl ⟨rfl, .inl rfl⟩⟩
    · exact ⟨_, List.append_assoc .., .inl ⟨rfl, .inr ⟨_, rfl⟩⟩⟩
  · split
    · exact ⟨[], rfl, .inl ⟨rfl, .inl rfl⟩⟩
    · rename_i v mem _
      refine ⟨[⟨bar, 4, v⟩, ⟨bar + 4, 4, 0⟩], ?_, .inr ⟨rfl, v, rfl⟩⟩
      exact (List.append_assoc ..).trans (List.append_assoc ..)
  · split
    · exact ⟨[], rfl, .inl ⟨rfl, .inl rfl⟩⟩
    · exact ⟨_, List.append_assoc .., .inl ⟨rfl, .inr ⟨_, rfl⟩⟩⟩

theorem le_setupBar (d : Device) (bar : ℕ) (s : Setup) : bar ≤ (setupBar d bar s).1 := by
  obtain ⟨_, -, ⟨heq, -⟩ | ⟨heq, -⟩⟩ := setupBar_cases d bar s <;> omega

/-- The loop of `pciauto_setup_device`. -/
def setupBars (d : Device) (last bar : ℕ) (s : Setup) : Setup :=
  if bar ≤ last then
    let r := setupBar d bar s
    setupBars d last (r.1 + 4) r.2
  else s
termination_by last + 1 - bar
decreasing_by
  have := le_setupBar d bar s
  omega

end

def pciautoSetupDevice (d : Device) (barsNum : ℕ) (mem io : Option Region) : Setup :=
  let cmdstat := (d [] pciCommand &&& ~~~(commandIo ||| commandMemory)) ||| commandMaster
  let s := setupBars d (pciBaseAddress + barsNum * 4) pciBaseAddress ⟨[], mem, io, cmdstat⟩
  let s := s.writeDword pciCommand s.cmdstat
  (s.writeByte pciCacheLineSize 0x08).writeByte pciLatencyTimer 0x80

/-- A write to one of the registers of `pciauto_setup_device`, when there are `barsNum` base
addresses. -/
def Owned (barsNum : ℕ) (w : Write) : Prop :=
  w.offset = pciCommand ∨ w.offset = pciCacheLineSize ∨ w.offset = pciLatencyTimer ∨
    pciBaseAddress ≤ w.offset ∧ w.offset + w.size ≤ pciBaseAddress + 4 * barsNum

section
variable {d : Device} {bar last barsNum : ℕ} {mem io : Option Region} {s : Setup} {w : Write}

/-! ## The loop -/

theorem mem_setupBars (h : w ∈ s.writes) : w ∈ (setupBars d last bar s).writes := by
  fun_induction setupBars d last bar s with
  | case1 bar s hle r ih =>
    obtain ⟨rest, hwrites, -⟩ := setupBar_cases d bar s
    exact ih (hwrites ▸ List.mem_append_left _ h)
  | case2 => exact h

/-- The last register that the loop comes to is written: it is tried with all ones, or it is the
upper half of a 64-bit base address. -/
theorem last_setupBars (h4 : 4 ∣ last - bar) (hle : bar ≤ last) :
    ⟨last, 4, 0xffffffff⟩ ∈ (setupBars d last bar s).writes ∨
      ⟨last, 4, 0⟩ ∈ (setupBars d last bar s).writes := by
  fun_induction setupBars d last bar s with
  | case1 bar s _ r ih =>
    obtain ⟨rest, hwrites, hcases⟩ := setupBar_cases d bar s
    obtain ⟨k, hk⟩ := h4
    rcases Nat.eq_zero_or_pos k with rfl | hpos
    · -- the register is tried
      have hbar : bar = last := by omega
      left
      refine mem_setupBars ?_
      rw [hwrites, hbar]
      exact List.mem_append_right _ List.mem_cons_self
    · rcases hcases with ⟨heq, -⟩ | ⟨heq, v, hrest⟩
      · have hr : r.1 = bar := heq
        exact ih ⟨k - 1, by omega⟩ (by omega)
      · have hr : r.1 = bar + 4 := heq
        by_cases hlast : bar + 4 = last
        · right
          refine mem_setupBars ?_
          rw [hwrites, hrest, hlast]
          exact List.mem_append_right _ (by simp)
        · exact ih ⟨k - 2, by omega⟩ (by omega)
  | case2 bar s hlt => exact absurd hle hlt

/-- The writes of the loop are to dwords from its first register on to the one behind its last. -/
theorem setupBars_within {first : ℕ} (hfirst : first ≤ bar)
    (h : ∀ w ∈ s.writes, w.size = 4 ∧ first ≤ w.offset ∧ w.offset ≤ last + 4) :
    ∀ w ∈ (setupBars d last bar s).writes, w.size = 4 ∧ first ≤ w.offset ∧ w.offset ≤ last + 4 := by
  fun_induction setupBars d last bar s with
  | case1 bar s hle r ih =>
    obtain ⟨rest, hwrites, hcases⟩ := setupBar_cases d bar s
    have hr : bar ≤ r.1 := le_setupBar d bar s
    refine ih (by omega) fun w hw => ?_
    rw [hwrites] at hw
    rcases List.mem_append.mp hw with hw | hw
    · exact h w hw
    rcases List.mem_cons.mp hw with rfl | hw
    · exact ⟨rfl, hfirst, by dsimp only; omega⟩
    · rcases hcases with ⟨-, rfl | ⟨v, rfl⟩⟩ | ⟨-, v, rfl⟩
      · cases hw
      · obtain rfl := List.mem_singleton.mp hw
        exact ⟨rfl, hfirst, by dsimp only; omega⟩
      · rcases List.mem_cons.mp hw with rfl | hw
        · exact ⟨rfl, hfirst, by dsimp only; omega⟩
        · obtain rfl := List.mem_singleton.mp hw
          exact ⟨rfl, by dsimp only; omega, by dsimp only; omega⟩
  | case2 => exact h

/-! ## The device -/

/-- The writes are those of the loop, and to the three registers of the command and the timing. -/
theorem mem_pciautoSetupDevice : w ∈ (pciautoSetupDevice d barsNum mem io).writes ↔
    let s := setupBars d (pciBaseAddress + barsNum * 4) pciBaseAddress ⟨[], mem, io,
      (d [] pciCommand &&& ~~~(commandIo ||| commandMemory)) ||| commandMaster⟩
    w ∈ s.writes ∨ w = ⟨pciCommand, 4, s.cmdstat⟩ ∨ w = ⟨pciCacheLineSize, 1, 0x08⟩ ∨
      w = ⟨pciLatencyTimer, 1, 0x80⟩ := by
  rw [pciautoSetupDevice]
  simp only [Setup.writeDword, Setup.writeByte, List.mem_append, List.mem_singleton, or_assoc]

/-- The writes stay in front of the second register behind the base addresses. -/
theorem pciautoSetupDevice_within :
    ∀ w ∈ (pciautoSetupDevice d barsNum mem io).writes, Owned (barsNum + 2) w := by
  intro w hw
  rcases mem_pciautoSetupDevice.mp hw with hw | rfl | rfl | rfl
  · obtain ⟨hsize, hge, hle⟩ := setupBars_within (Nat.le_refl _) (by simp) w hw
    refine .inr (.inr (.inr ⟨hge, ?_⟩))
    omega
  · exact .inl rfl
  · exact .inr (.inl rfl)
  · exact .inr (.inr (.inl rfl))

variable (d barsNum mem io) in
theorem behind_written : ∃ w ∈ (pciautoSetupDevice d barsNum mem io).writes,
    w.offset = pciBaseAddress + 4 * barsNum ∧ w.size = 4 ∧
      (w.value = 0xffffffff ∨ w.value = 0) := by
  have hlast : 4 ∣ pciBaseAddress + barsNum * 4 - pciBaseAddress := ⟨barsNum, by omega⟩
  have hoffset : pciBaseAddress + barsNum * 4 = pciBaseAddress + 4 * barsNum := by omega
  rcases last_setupBars hlast (Nat.le_add_right ..) with hmem | hmem
  · exact ⟨_, mem_pciautoSetupDevice.mpr (.inl hmem), hoffset, rfl, .inl rfl⟩
  · exact ⟨_, mem_pciautoSetupDevice.mpr (.inl hmem), hoffset, rfl, .inr rfl⟩

theorem not_owned : ¬ ∀ w ∈ (pciautoSetupDevice d barsNum mem io).writes, Owned barsNum w := by
  intro h
  obtain ⟨w, hw, hoffset, hsize, -⟩ := behind_written d barsNum mem io
  have hown := h w hw
  simp only [Owned, hoffset, hsize, pciCommand, pciCacheLineSize, pciLatencyTimer,
    pciBaseAddress] at hown
  omega

end

/-- **The registers of `pciauto_setup_device`**: whatever the device answers and however many base
addresses it has, one write is to a register that is none of them. -/
theorem pciauto_setup_device_not_owned (d : Device) (barsNum : ℕ) (mem io : Option Region) :
    ¬ ∀ w ∈ (pciautoSetupDevice d barsNum mem io).writes, Owned barsNum w := not_owned

/-- A bridge without base addresses: all ones go to its bus numbers. -/
theorem pciauto_setup_device_bridge :
    ⟨0x18, 4, 0xffffffff⟩ ∈ (pciautoSetupDevice (fun _ _ => 0) 2 none none).writes ∧
    ¬ ∀ w ∈ (pciautoSetupDevice (fun _ _ => 0) 2 none none).writes, Owned 2 w := by
  refine ⟨?_, not_owned⟩
  rw [mem_pciautoSetupDevice]
  simp [setupBars, setupBar, Setup.writeDword, pciBaseAddress]

end UBoot.Pci.SetupDevice
