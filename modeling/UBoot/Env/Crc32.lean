import Mathlib.Tactic

/-!
# CRC-32 (`lib_generic/crc32.c`)

`crcTable` is the table as `make_crc_table` computes it. `crc32` is the byte loop
`DO1`; the source unrolls it eight times and finishes the rest one by one, which is the
same fold.
-/

namespace UBoot.Env

/-- `0xedb88320L`, the polynomial with the lowest power in the highest bit. -/
def crcPoly : UInt32 := 0xedb88320

/-- One turn of the inner loop of `make_crc_table`. -/
def crcShift (c : UInt32) : UInt32 := if c &&& 1 = 1 then crcPoly ^^^ (c >>> 1) else c >>> 1

/-- `crc_table[n]`. -/
def crcTable (n : UInt32) : UInt32 := crcShift^[8] n

/-- `DO1`: `crc = crc_table[((int)crc ^ (*buf++)) & 0xff] ^ (crc >> 8)`. -/
def crcByte (crc : UInt32) (c : UInt8) : UInt32 :=
  crcTable ((crc ^^^ c.toUInt32) &&& 0xff) ^^^ (crc >>> 8)

/-- `crc32 (crc, buf, len)` on the `len` bytes at `buf`. -/
def crc32 (crc : UInt32) (buf : List UInt8) : UInt32 :=
  buf.foldl crcByte (crc ^^^ 0xffffffff) ^^^ 0xffffffff

/-- `crc32_no_comp`, without the two complements. -/
def crc32NoComp (crc : UInt32) (buf : List UInt8) : UInt32 := buf.foldl crcByte crc

/-- The check value of the CRC-32 the table belongs to. -/
example : crc32 0 [0x31, 0x32, 0x33, 0x34, 0x35, 0x36, 0x37, 0x38, 0x39] = 0xcbf43926 := by
  decide +kernel

theorem crc32_append (crc : UInt32) (x y : List UInt8) :
    crc32 crc (x ++ y) = crc32 (crc32 crc x) y := by
  simp only [crc32, List.foldl_append, UInt32.xor_assoc, UInt32.xor_self, UInt32.xor_zero]

end UBoot.Env
