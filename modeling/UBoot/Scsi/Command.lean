import UBoot.Lib.BigEndian

/-!
# SCSI commands (`common/cmd_scsi.c`)

The command block that is handed to `scsi_exec`, the functions that fill it in, and what a device
takes out of it.
-/

namespace UBoot.Scsi

open UBoot.Lib

/-- `ccb`: the command, the device it is for, and the buffer for its data. -/
structure Ccb where
  cmd : ℕ → UInt8
  target : UInt8
  lun : UInt8
  cmdlen : ℕ
  datalen : UInt32
  pdata : UInt32

/-- `block_dev_desc_t` -/
structure BlockDev where
  ifType : ℕ
  dev : ℕ
  partType : UInt8
  target : UInt8
  lun : UInt8
  type : UInt8
  lba : UInt32
  blksz : UInt32
  vendor : List UInt8
  product : List UInt8
  revision : List UInt8
  removable : Bool
  deriving DecidableEq

def SCSI_TST_U_RDY : UInt8 := 0x00

def SCSI_INQUIRY : UInt8 := 0x12

def SCSI_RD_CAPAC : UInt8 := 0x25

def SCSI_READ10 : UInt8 := 0x28

/-- The bytes of a command are written over those of the last one. -/
def Ccb.setCmd (p : Ccb) (bytes : List UInt8) (cmdlen : ℕ) : Ccb :=
  { p with cmd := fun i => bytes.getD i (p.cmd i), cmdlen := cmdlen }

def scsiSetupTestUnitReady (p : Ccb) : Ccb := p.setCmd [SCSI_TST_U_RDY, p.lun <<< 5, 0, 0, 0, 0] 6

def scsiSetupReadCapacity (p : Ccb) : Ccb :=
  p.setCmd [SCSI_RD_CAPAC, p.lun <<< 5, 0, 0, 0, 0, 0, 0, 0, 0] 10

def scsiSetupInquiry (p : Ccb) : Ccb :=
  p.setCmd [SCSI_INQUIRY, p.lun <<< 5, 0, 0,
    if 255 < p.datalen then 255 else p.datalen.toUInt8, 0] 6

/-- The last byte of the command is not written. -/
def scsiSetupReadExt (p : Ccb) (start : UInt32) (blocks : UInt16) : Ccb :=
  p.setCmd [SCSI_READ10, p.lun <<< 5, (start >>> 24).toUInt8, (start >>> 16).toUInt8,
    (start >>> 8).toUInt8, start.toUInt8, 0, (blocks >>> 8).toUInt8, blocks.toUInt8] 10

/-- The first block of a `READ(10)`. -/
def Ccb.lba (p : Ccb) : ℕ := (beWord [p.cmd 2, p.cmd 3, p.cmd 4, p.cmd 5]).toNat

/-- The number of blocks of a `READ(10)`. -/
def Ccb.blocks (p : Ccb) : ℕ := (p.cmd 7).toNat * 256 + (p.cmd 8).toNat

variable {p : Ccb} {start : UInt32} {blocks : UInt16}

@[simp] theorem lba_readExt : (scsiSetupReadExt p start blocks).lba = start.toNat :=
  congrArg UInt32.toNat (beWord_beBytes start)

@[simp] theorem blocks_readExt : (scsiSetupReadExt p start blocks).blocks = blocks.toNat := by
  have hblocks := blocks.toNat_lt
  show (blocks >>> 8).toUInt8.toNat * 256 + blocks.toUInt8.toNat = blocks.toNat
  rw [UInt16.toNat_toUInt8, UInt16.toNat_toUInt8, UInt16.toNat_shiftRight]
  simp only [UInt16.reduceToNat, Nat.reduceMod, Nat.shiftRight_eq_div_pow, Nat.reducePow]
  omega

end UBoot.Scsi
