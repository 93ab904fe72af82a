import UBoot.Image.Bootm
import UBoot.Lib.Move

/-!
# The copies of a build with a watchdog (`common/cmd_bootm.c`)

With `CONFIG_HW_WATCHDOG` or `CONFIG_WATCHDOG`, `do_bootm` and `do_bootm_linux` move an image and a
ramdisk in pieces of `CHUNKSZ` bytes, so as to reset the watchdog in between. `chunked_copy_iff`:
where that leaves memory as the single `memmove` of the other builds does.
-/

namespace UBoot.Image

open UBoot.Lib

abbrev chunkSz : ℕ := 64 * 1024

variable (watchdog : Bool) (m : Mem32)

def copyBlock (dst : UInt32) (r : Region) : Mem32 :=
  if watchdog then m.moveChunks chunkSz dst r.data r.len.toNat
  else m.move dst r.data r.len.toNat

/-- `case IH_COMP_NONE` of `do_bootm`; an image at its load address is not moved. -/
def loadNone (hdr : ImageHeader) (addr : UInt32) (payload : Region) : Mem32 :=
  if hdr.load = addr then m else copyBlock watchdog m hdr.load payload

/-- The copy of the ramdisk in `do_bootm_linux`. -/
def copyRamdisk (initrdStart : UInt32) (initrd : Region) : Mem32 :=
  copyBlock watchdog m initrdStart initrd

/-- The block is one piece, is where it should be, or does not reach up to where it should be. -/
def Apart (dst : UInt32) (r : Region) : Prop :=
  r.len.toNat ≤ chunkSz ∨ dst = r.data ∨ r.len ≤ dst - r.data

variable {dst addr start : UInt32} {r : Region} {hdr : ImageHeader}

/-- `do_bootm` as modelled is that of a build without a watchdog. -/
theorem loadPayload_eq_loadNone (b : Board) (h : hdr.comp = ihCompNone) :
    loadPayload b m hdr addr r = .ok (loadNone false m hdr addr r) := by
  rw [loadPayload, if_pos h, loadNone]
  split_ifs with haddr
  · rfl
  · rfl

theorem copyBlock_iff : (∀ m, copyBlock true m dst r = copyBlock false m dst r) ↔ Apart dst r := by
  rw [Apart, UInt32.le_iff_toNat_le]
  exact Mem32.moveChunks_iff r.len.toNat_lt

/-- **The copies in pieces** are those of a single `memmove` exactly where the blocks are
`Apart`. -/
theorem chunked_copy_iff (hdr : ImageHeader) (addr : UInt32) (payload : Region) (start : UInt32)
    (initrd : Region) :
    ((∀ m, loadNone true m hdr addr payload = loadNone false m hdr addr payload) ↔
      hdr.load = addr ∨ Apart hdr.load payload) ∧
    ((∀ m, copyRamdisk true m start initrd = copyRamdisk false m start initrd) ↔
      Apart start initrd) := by
  refine ⟨?_, copyBlock_iff⟩
  unfold loadNone
  by_cases haddr : hdr.load = addr
  · exact ⟨fun _ => .inl haddr, fun _ _ => by rw [if_pos haddr, if_pos haddr]⟩
  · rw [or_iff_right haddr]
    simp only [if_neg haddr]
    exact copyBlock_iff

/-- A ramdisk of a byte over `CHUNKSZ`, moved from behind its header to the next page: the last byte
moved is not what was there. -/
theorem copyRamdisk_ne : ¬ ∀ m, copyRamdisk true m 0x101000 ⟨0x100040, 0x10001⟩ =
    copyRamdisk false m 0x101000 ⟨0x100040, 0x10001⟩ := by
  intro h
  rcases copyBlock_iff.mp h with hone | hself | hapart
  · exact absurd hone (by decide)
  · exact absurd hself (by decide)
  · exact absurd hapart (by decide)

end UBoot.Image
