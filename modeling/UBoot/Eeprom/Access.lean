import UBoot.Lib.Cuts

/-!
# EEPROM access (`common/cmd_eeprom.c`)

`eepromRead` and `eepromWrite` split an access into I2C operations. `EepromCfg` is what a board
configures: the length of the address, the size of a write page and `I2C_RXTX_LEN`. The bus is a
parameter: an `I2c` answers each operation with a return code and a new state.

Both loops do one operation for each piece that a `Cutter` makes of the range
(`writeLoop_eq`, `readLoop_eq`).
-/

namespace UBoot.Eeprom

open Lib

/-- `CFG_I2C_EEPROM_ADDR_LEN` is 1 or 2. -/
inductive AddrLen where
  | one
  | two
  deriving DecidableEq, Repr

def AddrLen.bytes : AddrLen → ℕ
  | one => 1
  | two => 2

/-- The configuration of a board. `1 << CFG_EEPROM_PAGE_WRITE_BITS` is an `int`. -/
structure EepromCfg where
  /-- `CFG_I2C_EEPROM_ADDR_LEN` -/
  addrLen : AddrLen
  /-- `CFG_EEPROM_PAGE_WRITE_BITS`, where it is defined -/
  pageWriteBits : Option (Fin 31)
  /-- `I2C_RXTX_LEN` -/
  rxtxLen : ℕ
  rxtxLen_pos : 0 < rxtxLen

/-- The I2C driver: `i2c_read` and `i2c_write` with the chip, the address in it, the number of
address bytes, and the length or the data. -/
structure I2c (σ : Type) where
  read : σ → ℕ → ℕ → ℕ → ℕ → ℤ × (ℕ → UInt8) × σ
  write : σ → ℕ → ℕ → ℕ → List UInt8 → ℤ × σ

/-- The first `n` bytes at a pointer. -/
def bytesAt (buffer : ℕ → UInt8) (n : ℕ) : List UInt8 := (List.range n).map buffer

/-- `if (n > max) n = max;` -/
def clip (n max : ℕ) : ℕ := if max < n then max else n

/-- `if (rc != 0) rcode = 1;` -/
def orFailed (rcode rc : ℤ) : ℤ := if rc ≠ 0 then 1 else rcode

theorem clip_eq (n max : ℕ) : clip n max = min max n := by
  rw [clip]
  split <;> omega

namespace EepromCfg

variable (c : EepromCfg)

/-- `addr[0]`: the block number, an octet, with the device address put in. -/
def addr0 (devAddr offset : ℕ) : ℕ :=
  (match c.addrLen with
    | .one => (offset >>> 8) % 256
    | .two => (offset >>> 16) % 256) ||| (devAddr % 256)

/-- `alen - 1` -/
def alen : ℕ := c.addrLen.bytes

def blkOff (offset : ℕ) : ℕ := offset &&& 0xff

/-- `EEPROM_PAGE_OFFSET(x)`, for pages of `1 << bits` bytes. -/
def eepromPageOffset (bits x : ℕ) : ℕ := x &&& (1 <<< bits - 1)

/-- `maxlen` of `eeprom_read`. -/
def readMaxlen (offset : ℕ) : ℕ :=
  let maxlen := 0x100 - blkOff offset
  clip maxlen c.rxtxLen

/-- `maxlen` of `eeprom_write`. -/
def writeMaxlen (offset : ℕ) : ℕ :=
  let maxlen := match c.pageWriteBits with
    | some bits => 1 <<< bits.val - eepromPageOffset bits (blkOff offset)
    | none => 0x100 - blkOff offset
  clip maxlen c.rxtxLen

theorem blkOff_eq (offset : ℕ) : blkOff offset = offset % 256 := Nat.and_two_pow_sub_one_eq_mod _ 8

theorem eepromPageOffset_eq (bits x : ℕ) : eepromPageOffset bits x = x % 2 ^ bits := by
  rw [eepromPageOffset, Nat.shiftLeft_eq, Nat.one_mul, Nat.and_two_pow_sub_one_eq_mod]

theorem readMaxlen_eq (offset : ℕ) : c.readMaxlen offset = min (256 - offset % 256) c.rxtxLen := by
  rw [readMaxlen, blkOff_eq, clip_eq, Nat.min_comm]

/-- The bound of `eeprom_write` besides `I2C_RXTX_LEN`. -/
def writeBound (offset : ℕ) : ℕ :=
  match c.pageWriteBits with
  | some bits => 2 ^ bits.val - offset % 256 % 2 ^ bits.val
  | none => 256 - offset % 256

theorem writeMaxlen_eq (offset : ℕ) :
    c.writeMaxlen offset = min (c.writeBound offset) c.rxtxLen := by
  simp only [writeMaxlen, writeBound, blkOff_eq, eepromPageOffset_eq, Nat.shiftLeft_eq,
    Nat.one_mul, clip_eq, Nat.min_comm c.rxtxLen]

theorem readMaxlen_pos (offset : ℕ) : 0 < c.readMaxlen offset := by
  have := c.rxtxLen_pos
  rw [readMaxlen_eq]
  omega

theorem writeMaxlen_pos (offset : ℕ) : 0 < c.writeMaxlen offset := by
  rw [writeMaxlen_eq, lt_min_iff]
  refine ⟨?_, c.rxtxLen_pos⟩
  rw [writeBound]
  split
  · exact Nat.sub_pos_of_lt (Nat.mod_lt _ (Nat.two_pow_pos _))
  · omega

/-- How `eeprom_read` cuts a range. -/
def reads : Cutter := ⟨c.readMaxlen, c.readMaxlen_pos⟩

/-- How `eeprom_write` cuts a range. -/
def writes : Cutter := ⟨c.writeMaxlen, c.writeMaxlen_pos⟩

variable {σ : Type} (b : I2c σ) (devAddr : ℕ)

/-- The loop of `eeprom_read`. The bytes are those that it leaves in the buffer. -/
def readLoop (endd offset : ℕ) (rcode : ℤ) (s : σ) : ℤ × List UInt8 × σ :=
  if offset < endd then
    let len := clip (endd - offset) (c.readMaxlen offset)
    let r := b.read s (c.addr0 devAddr offset) offset c.alen len
    let rest := readLoop endd (offset + len) (orFailed rcode r.1) r.2.2
    (rest.1, bytesAt r.2.1 len ++ rest.2.1, rest.2.2)
  else (rcode, [], s)
termination_by endd - offset
decreasing_by
  have := c.readMaxlen_pos offset
  rw [clip_eq]
  omega

def eepromRead (devAddr offset cnt : ℕ) (s : σ) : ℤ × List UInt8 × σ :=
  c.readLoop b devAddr ((offset + cnt) % 2 ^ 32) offset 0 s

/-- The loop of `eeprom_write`. -/
def writeLoop (endd offset : ℕ) (buffer : ℕ → UInt8) (rcode : ℤ) (s : σ) : ℤ × σ :=
  if offset < endd then
    let len := clip (endd - offset) (c.writeMaxlen offset)
    let r := b.write s (c.addr0 devAddr offset) offset c.alen (bytesAt buffer len)
    writeLoop endd (offset + len) (fun i => buffer (len + i)) (orFailed rcode r.1) r.2
  else (rcode, s)
termination_by endd - offset
decreasing_by
  have := c.writeMaxlen_pos offset
  rw [clip_eq]
  omega

def eepromWrite (devAddr offset : ℕ) (buffer : ℕ → UInt8) (cnt : ℕ) (s : σ) : ℤ × σ :=
  c.writeLoop b devAddr ((offset + cnt) % 2 ^ 32) offset buffer 0 s

/-! ## One operation for each piece -/

/-- The operations of `eeprom_read` for pieces of a range. -/
def readPieces : List (ℕ × ℕ) → ℤ → σ → ℤ × List UInt8 × σ
  | [], rcode, s => (rcode, [], s)
  | p :: ps, rcode, s =>
    let r := b.read s (c.addr0 devAddr p.1) p.1 c.alen p.2
    let rest := readPieces ps (orFailed rcode r.1) r.2.2
    (rest.1, bytesAt r.2.1 p.2 ++ rest.2.1, rest.2.2)

/-- The operations of `eeprom_write` for pieces of a range; `image` has the byte for each
offset. -/
def writePieces (image : ℕ → UInt8) : List (ℕ × ℕ) → ℤ → σ → ℤ × σ
  | [], rcode, s => (rcode, s)
  | p :: ps, rcode, s =>
    let r := b.write s (c.addr0 devAddr p.1) p.1 c.alen (bytesAt (fun i => image (p.1 + i)) p.2)
    writePieces image ps (orFailed rcode r.1) r.2

variable {c b devAddr} {endd offset : ℕ} {rcode : ℤ} {s : σ}

theorem readLoop_eq : c.readLoop b devAddr endd offset rcode s =
    c.readPieces b devAddr (c.reads.cuts endd offset) rcode s := by
  fun_induction c.readLoop b devAddr endd offset rcode s with
  | case1 offset rcode s hlt len r rest ih =>
    have hlen : len = min (c.reads.len offset) (endd - offset) := clip_eq _ _
    rw [c.reads.cuts_of_lt hlt, ← hlen]
    simp only [rest, ih, readPieces, r]
  | case2 offset rcode s hge => rw [c.reads.cuts_of_le (Nat.le_of_not_lt hge), readPieces]

theorem writeLoop_eq {image buffer : ℕ → UInt8} (h : ∀ i, buffer i = image (offset + i)) :
    c.writeLoop b devAddr endd offset buffer rcode s =
      c.writePieces b devAddr image (c.writes.cuts endd offset) rcode s := by
  fun_induction c.writeLoop b devAddr endd offset buffer rcode s with
  | case1 offset buffer rcode s hlt len r ih =>
    have hlen : len = min (c.writes.len offset) (endd - offset) := clip_eq _ _
    have hbuf : buffer = fun i => image (offset + i) := funext h
    rw [c.writes.cuts_of_lt hlt, ← hlen, ih fun i => by simp only [h, Nat.add_assoc]]
    simp only [writePieces, r, hbuf]
  | case2 offset buffer rcode s hge =>
    rw [c.writes.cuts_of_le (Nat.le_of_not_lt hge), writePieces]

end EepromCfg

end UBoot.Eeprom
