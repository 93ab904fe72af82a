import Mathlib.Tactic

/-!
# Flash banks (`common/flash.c`, `include/flash.h`)

`flash_info[]` is a list of banks, and a `flash_info_t *` into it is an index. A bank's
`start` and `protect` arrays are functions of the sector number; only the entries below
`sector_count` are set up by the board code, and no board of the tree has more than 256
sectors in a bank.

Addresses are compared in unsigned 32-bit arithmetic, in which the exclusive end of a bank
at the top of the address space is 0. `WellPlaced` and `Ascending` say what the board code
sets up for a bank with a known flash chip.
-/

namespace UBoot.Flash

/-- A `flash_info_t`: the fields that `addr2info` and `flash_write` read. -/
structure FlashInfo where
  size : UInt32
  sectorCount : UInt16
  flashId : UInt32
  start : Nat → UInt32
  protect : Nat → UInt8

def flashUnknown : UInt32 := 0xFFFF

namespace FlashInfo

/-- `info->flash_id != FLASH_UNKNOWN`. -/
def known (info : FlashInfo) : Bool := info.flashId != flashUnknown

/-- The test of `addr2info`; the `- 1` keeps it right for a bank that ends at the top of
the address space. -/
def holds (info : FlashInfo) (addr : UInt32) : Bool :=
  info.known && info.start 0 ≤ addr && addr ≤ info.start 0 + info.size - 1

/-- `b_end`, the exclusive end of the bank. -/
def bEnd (info : FlashInfo) : UInt32 := info.start 0 + info.size

/-- `short s_end = info->sector_count - 1`. -/
def sEnd (info : FlashInfo) : Int := ((info.sectorCount.toNat : Int) - 1).bmod 65536

/-- `e_addr`, the exclusive end of sector `i`. -/
def eAddr (info : FlashInfo) (i : Nat) : UInt32 :=
  if (i : Int) = info.sEnd then info.bEnd else info.start (i + 1)

/-- A bank of positive size inside the address space; it may end at its top. -/
structure WellPlaced (info : FlashInfo) : Prop where
  size_pos : 0 < info.size.toNat
  end_le : (info.start 0).toNat + info.size.toNat ≤ 2 ^ 32

/-- The sectors of a bank, in ascending order. `s_end` holds the number of the last one. -/
structure Ascending (info : FlashInfo) : Prop extends WellPlaced info where
  count_pos : 0 < info.sectorCount.toNat
  count_le : info.sectorCount.toNat ≤ 2 ^ 15
  ascending : ∀ i, i + 1 < info.sectorCount.toNat → info.start i < info.start (i + 1)
  inside : (info.start (info.sectorCount.toNat - 1)).toNat <
    (info.start 0).toNat + info.size.toNat

/-- The exclusive end of sector `i`, not wrapped. -/
def sectorEnd (info : FlashInfo) (i : Nat) : Nat :=
  if i + 1 = info.sectorCount.toNat then (info.start 0).toNat + info.size.toNat
  else (info.start (i + 1)).toNat

/-- Address `a` lies in sector `i`. -/
def InSector (info : FlashInfo) (i : Nat) (a : UInt32) : Prop :=
  i < info.sectorCount.toNat ∧ (info.start i).toNat ≤ a.toNat ∧ a.toNat < info.sectorEnd i

variable {info : FlashInfo} {addr : UInt32} {i : Nat}

theorem bEnd_toNat :
    info.bEnd.toNat = ((info.start 0).toNat + info.size.toNat) % 2 ^ 32 := by
  rw [bEnd, UInt32.toNat_add]

theorem holds_iff (h : info.WellPlaced) : info.holds addr = true ↔ info.known = true ∧
    (info.start 0).toNat ≤ addr.toNat ∧
    addr.toNat < (info.start 0).toNat + info.size.toNat := by
  have hp := h.size_pos
  have hle := h.end_le
  have hs : (info.start 0 + info.size - 1).toNat =
      (info.start 0).toNat + info.size.toNat - 1 := by
    rw [UInt32.toNat_sub, UInt32.toNat_add, UInt32.toNat_one]
    omega
  simp only [holds, Bool.and_eq_true, decide_eq_true_eq, UInt32.le_iff_toNat_le, hs, and_assoc]
  refine and_congr_right fun _ => and_congr_right fun _ => ?_
  omega

theorem bEnd_sub_toNat (h : info.WellPlaced) (ha : info.holds addr = true) :
    (info.bEnd - addr).toNat = (info.start 0).toNat + info.size.toNat - addr.toNat := by
  obtain ⟨_, hlo, hhi⟩ := (holds_iff h).mp ha
  have hle := h.end_le
  have hsize := info.size.toNat_lt
  rw [UInt32.toNat_sub, bEnd_toNat]
  omega

theorem eAddr_toNat (h : info.Ascending) :
    (info.eAddr i).toNat = info.sectorEnd i % 2 ^ 32 := by
  have hle := h.count_le
  have hend : info.sEnd = (info.sectorCount.toNat : Int) - 1 := by
    rw [sEnd, Int.bmod_eq_of_le] <;> omega
  by_cases hl : i + 1 = info.sectorCount.toNat
  · rw [eAddr, if_pos (by omega), sectorEnd, if_pos hl, bEnd_toNat]
  · have hlt := (info.start (i + 1)).toNat_lt
    rw [eAddr, if_neg (by omega), sectorEnd, if_neg hl, Nat.mod_eq_of_lt hlt]

end FlashInfo

/-- `addr2info`: the first bank of the table that holds the address. -/
def addr2info (flashInfo : List FlashInfo) (addr : UInt32) : Option Nat :=
  flashInfo.findIdx? (·.holds addr)

variable {flashInfo : List FlashInfo} {addr : UInt32} {k : Nat}

theorem addr2info_eq_none :
    addr2info flashInfo addr = none ↔ ∀ info ∈ flashInfo, info.holds addr = false := by
  rw [addr2info, List.findIdx?_eq_none_iff]

theorem exists_of_addr2info (h : addr2info flashInfo addr = some k) :
    ∃ info, flashInfo[k]? = some info ∧ info.holds addr = true := by
  rw [addr2info, List.findIdx?_eq_some_iff_getElem] at h
  obtain ⟨hk, hinfo, _⟩ := h
  exact ⟨_, List.getElem?_eq_getElem hk, hinfo⟩

end UBoot.Flash
