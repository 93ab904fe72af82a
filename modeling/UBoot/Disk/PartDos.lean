import Mathlib.Tactic

/-!
# DOS partition tables (`disk/part_dos.c`)

The master boot record has four entries. An extended entry leads to a table of its own, whose
entries are relative to that table, and whose link to the next table is relative to the first
one. `print_part_dos` lists the partitions of all tables, `get_partition_info_dos` looks one up
by its number; the two walk the tables in separate functions. Both recurse once for each table,
here within a bound; `none` is a walk that is not finished.

Sector numbers are 32-bit words, in the wrapping arithmetic of the source's `int`.
-/

namespace UBoot.Disk

/-- The fields of a `dos_partition_t` that are read, the last two by `le32_to_int`. -/
structure DosPartition where
  sysInd : UInt8
  start4 : UInt32
  size4 : UInt32
  deriving DecidableEq

/-- The interface types of `part.h` that are told apart. -/
inductive IfType where
  | ide | atapi | scsi | usb | doc | other
  deriving DecidableEq

/-- The fields of a `block_dev_desc_t` that are read. `blockRead` gives the 512 bytes of a
sector, or fails. -/
structure BlockDev where
  ifType : IfType
  dev : Nat
  blockRead : UInt32 → Option (Nat → UInt8)

/-- A `disk_partition_t`. -/
structure DiskPartition where
  blksz : Nat
  start : UInt32
  size : UInt32
  name : String
  type : String

inductive Line where
  | header
  | cantRead (dev : Nat) (sector : UInt32)
  | badSignature (a b : UInt8)
  | part (num : Int) (start size : UInt32) (type : UInt8) (extd : Bool)

def dosPartTblOffset : Nat := 0x1be
def dosPartMagicOffset : Nat := 0x1fe

/-- `le32_to_int`, of the bytes at `o`. -/
def le32ToInt (buffer : Nat → UInt8) (o : Nat) : UInt32 :=
  ((buffer (o + 3)).toUInt32 <<< 24) + ((buffer (o + 2)).toUInt32 <<< 16) +
    ((buffer (o + 1)).toUInt32 <<< 8) + (buffer o).toUInt32

def isExtended (partType : UInt8) : Bool :=
  partType == 0x5 || partType == 0xf || partType == 0x85

/-- Entry `i` of the table in a sector. -/
def partitionAt (buffer : Nat → UInt8) (i : Nat) : DosPartition :=
  let pt := dosPartTblOffset + 16 * i
  ⟨buffer (pt + 4), le32ToInt buffer (pt + 8), le32ToInt buffer (pt + 12)⟩

/-- What both walks do first: the four entries, or what is printed instead. -/
def readTable (d : BlockDev) (sector : UInt32) : Except Line (List DosPartition) :=
  match d.blockRead sector with
  | none => .error (.cantRead d.dev sector)
  | some buffer =>
    if buffer dosPartMagicOffset ≠ 0x55 ∨ buffer (dosPartMagicOffset + 1) ≠ 0xaa then
      .error (.badSignature (buffer dosPartMagicOffset) (buffer (dosPartMagicOffset + 1)))
    else .ok ((List.range 4).map (partitionAt buffer))

def printOnePart (p : DosPartition) (extPartSector : UInt32) (partNum : Int) : Line :=
  .part partNum (extPartSector + p.start4) p.size4 p.sysInd (isExtended p.sysInd)

/-- The rule by which both walks count on behind an entry. -/
def nextNum (extPartSector : UInt32) (p : DosPartition) (partNum : Int) : Int :=
  if extPartSector = 0 ∨ (p.sysInd ≠ 0 ∧ ¬ isExtended p.sysInd) then partNum + 1 else partNum

/-- Where a link leads, and what the links behind it are relative to. -/
def follow (extPartSector relative : UInt32) (p : DosPartition) : UInt32 × UInt32 :=
  let lbaStart := p.start4 + relative
  (lbaStart, if extPartSector = 0 then lbaStart else relative)

/-- The first loop of `print_partition_extended`. -/
def printSlots (extPartSector : UInt32) : Int → List DosPartition → List Line × Int
  | partNum, [] => ([], partNum)
  | partNum, p :: ps =>
    let (lines, num) := printSlots extPartSector (nextNum extPartSector p partNum) ps
    if p.sysInd ≠ 0 ∧ (extPartSector = 0 ∨ ¬ isExtended p.sysInd) then
      (printOnePart p extPartSector partNum :: lines, num)
    else (lines, num)

def printPartitionExtended (d : BlockDev) : Nat → UInt32 → UInt32 → Int → Option (List Line)
  | 0, _, _, _ => none
  | fuel + 1, extPartSector, relative, partNum =>
    match readTable d extPartSector with
    | .error line => some [line]
    | .ok pts =>
      let (lines, partNum) := printSlots extPartSector partNum pts
      ((pts.filter fun p => isExtended p.sysInd).mapM fun p =>
        printPartitionExtended d fuel (follow extPartSector relative p).1
          (follow extPartSector relative p).2 partNum).map fun rest => lines ++ rest.flatten

def printPartDos (d : BlockDev) (fuel : Nat) : Option (List Line) :=
  (printPartitionExtended d fuel 0 0 1).map (.header :: ·)

/-- The first loop of `get_partition_info_extended`: the entry it returns from, or the number
behind the loop. -/
def findSlot (extPartSector : UInt32) (whichPart : Int) :
    Int → List DosPartition → DosPartition ⊕ Int
  | partNum, [] => .inr partNum
  | partNum, p :: ps =>
    if p.sysInd ≠ 0 ∧ partNum = whichPart then .inl p
    else findSlot extPartSector whichPart (nextNum extPartSector p partNum) ps

/-- The walk of `get_partition_info_extended`: the table and the entry it returns from, and
nothing where it returns -1. -/
def findExtended (d : BlockDev) (whichPart : Int) :
    Nat → UInt32 → UInt32 → Int → Option (Option (UInt32 × DosPartition))
  | 0, _, _, _ => none
  | fuel + 1, extPartSector, relative, partNum =>
    match readTable d extPartSector with
    | .error _ => some none
    | .ok pts =>
      match findSlot extPartSector whichPart partNum pts with
      | .inl p => some (some (extPartSector, p))
      | .inr partNum =>
        match pts.find? fun p => isExtended p.sysInd with
        | none => some none
        | some p =>
          findExtended d whichPart fuel (follow extPartSector relative p).1
            (follow extPartSector relative p).2 partNum

/-- The name of a partition: that of its interface, the drive letter and the number. -/
def partName (d : BlockDev) (partNum : Int) : String :=
  let drive := String.singleton (Char.ofNat ('a'.toNat + d.dev)) ++ toString partNum ++ "\n"
  match d.ifType with
  | .ide | .atapi => "hd" ++ drive
  | .scsi => "sd" ++ drive
  | .usb => "usbd" ++ drive
  | .doc => "docd" ++ drive
  | .other => "xx" ++ drive

def fillInfo (d : BlockDev) (partNum : Int) (extPartSector : UInt32) (p : DosPartition) :
    DiskPartition :=
  ⟨512, extPartSector + p.start4, p.size4, partName d partNum, "PPCBoot"⟩

/-- `get_partition_info_dos`: the partition, or nothing for -1. -/
def getPartitionInfoDos (d : BlockDev) (fuel : Nat) (part : Int) : Option (Option DiskPartition) :=
  (findExtended d part fuel 0 0 1).map fun r => r.map fun x => fillInfo d part x.1 x.2

end UBoot.Disk
