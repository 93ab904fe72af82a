import UBoot.Lib.Area
import UBoot.Lib.BigEndian

/-!
# The image header (`include/image.h`)

An `ImageHeader` is `image_header_t`; in a file and in memory it is `bytes`, all in network byte
order. `ImageHeader.at` is what a program finds at an address.
-/

namespace UBoot.Image

open UBoot.Lib

abbrev ihMagic : UInt32 := 0x27051956

abbrev ihNmlen : Nat := 32

abbrev ihOsNetbsd : UInt8 := 2
abbrev ihOsLinux : UInt8 := 5
abbrev ihOsVxworks : UInt8 := 14
abbrev ihOsQnx : UInt8 := 16

abbrev ihCpuArm : UInt8 := 2
abbrev ihCpuPpc : UInt8 := 7

abbrev ihTypeStandalone : UInt8 := 1
abbrev ihTypeKernel : UInt8 := 2
abbrev ihTypeRamdisk : UInt8 := 3
abbrev ihTypeMulti : UInt8 := 4
abbrev ihTypeScript : UInt8 := 6

abbrev ihCompNone : UInt8 := 0
abbrev ihCompGzip : UInt8 := 1

/-- `image_header_t` -/
structure ImageHeader where
  magic : UInt32
  hcrc : UInt32
  time : UInt32
  size : UInt32
  load : UInt32
  ep : UInt32
  dcrc : UInt32
  os : UInt8
  arch : UInt8
  type : UInt8
  comp : UInt8
  name : Area ihNmlen
  deriving DecidableEq

/-- `sizeof(image_header_t)` -/
abbrev headerSize : Nat := 64

def ImageHeader.bytes (h : ImageHeader) : List UInt8 :=
  beBytes h.magic ++ beBytes h.hcrc ++ beBytes h.time ++ beBytes h.size ++ beBytes h.load ++
    beBytes h.ep ++ beBytes h.dcrc ++ [h.os, h.arch, h.type, h.comp] ++ h.name.bytes

@[simp] theorem ImageHeader.bytes_length (h : ImageHeader) : h.bytes.length = headerSize := by
  simp only [bytes, List.length_append, beBytes_length, List.length_cons, List.length_nil,
    h.name.size]
  rfl

def ImageHeader.withHcrc (h : ImageHeader) (hcrc : UInt32) : ImageHeader := { h with hcrc := hcrc }

theorem ImageHeader.withHcrc_withHcrc (h : ImageHeader) (x : UInt32) :
    (h.withHcrc x).withHcrc h.hcrc = h := rfl

/-- The header in memory at `addr`. -/
def ImageHeader.at (m : Mem32) (addr : UInt32) : ImageHeader where
  magic := m.word addr
  hcrc := m.word (addr + 4)
  time := m.word (addr + 8)
  size := m.word (addr + 12)
  load := m.word (addr + 16)
  ep := m.word (addr + 20)
  dcrc := m.word (addr + 24)
  os := m (addr + 28)
  arch := m (addr + 29)
  type := m (addr + 30)
  comp := m (addr + 31)
  name := ⟨m.read (addr + 32) ihNmlen, Mem32.read_length⟩

theorem ImageHeader.at_of_holds {m : Mem32} {addr : UInt32} {h : ImageHeader} {n : Nat}
    {q : List UInt8} (hm : m.HoldsUpTo addr (h.bytes ++ q) n) (hn : headerSize ≤ n) :
    ImageHeader.at m addr = h := by
  have hlen : headerSize ≤ (h.bytes ++ q).length := by
    rw [List.length_append, bytes_length]
    exact Nat.le_add_right ..
  replace hm := hm.mono hn
  have hread (o k : Nat) (hk : o + k ≤ headerSize) :
      m.read (addr + UInt32.ofNat o) k = ((h.bytes ++ q).drop o).take k := hm.read hlen hk
  have hword (o : Nat) (x : UInt32) (ho : o + 4 ≤ headerSize)
      (hx : ((h.bytes ++ q).drop o).take 4 = beBytes x) : m.word (addr + UInt32.ofNat o) = x := by
    rw [Mem32.word, hread o 4 ho, hx, beWord_beBytes]
  have hbyte (o : Nat) (ho : o < headerSize) :
      m (addr + UInt32.ofNat o) = (h.bytes ++ q)[o] := hm o _ ho
  have hname : m.read (addr + 32) ihNmlen = h.name.bytes := by
    have hdrop : (h.bytes ++ q).drop 32 = h.name.bytes ++ q := rfl
    rw [← @List.take_left' _ _ q _ h.name.size, ← hdrop]
    exact hread 32 ihNmlen (Nat.le_refl _)
  have hmagic : m.word addr = h.magic := by
    have hzero : addr + UInt32.ofNat 0 = addr := UInt32.add_zero addr
    rw [← hword 0 h.magic (by decide) rfl, hzero]
  rw [ImageHeader.at, ImageHeader.mk.injEq]
  exact ⟨hmagic, hword 4 _ (by decide) rfl, hword 8 _ (by decide) rfl, hword 12 _ (by decide) rfl,
    hword 16 _ (by decide) rfl, hword 20 _ (by decide) rfl, hword 24 _ (by decide) rfl,
    hbyte 28 (by decide), hbyte 29 (by decide), hbyte 30 (by decide), hbyte 31 (by decide),
    Area.ext hname⟩

end UBoot.Image
