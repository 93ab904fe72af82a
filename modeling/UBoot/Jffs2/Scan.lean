import UBoot.Env.Crc32
import UBoot.Lib.BigEndian

/-!
# The scan of a JFFS2 partition (`fs/jffs2/jffs2_1pass.c`)

A `Part` is a partition in memory-mapped flash, and its nodes are read where they are. `buildLists`
is `jffs2_1pass_build_lists`: it steps through the partition from node to node and lists the inode
nodes and the directory entries in the order in which they lie there.
-/

namespace UBoot.Jffs2

open UBoot.Lib UBoot.Env

/-! ## Nodes -/

/-- The byte order of the CPU, which is the one on the flash. -/
inductive Endian where
  | big
  | little
  deriving DecidableEq

def Endian.order : Endian → List UInt8 → List UInt8
  | big, l => l
  | little, l => l.reverse

/-- `struct part_info`, and the memory that the partition is mapped in. -/
structure Part where
  cpu : Endian
  mem : Mem32
  offset : UInt32
  size : UInt32

abbrev magicBitmask : UInt32 := 0x1985
abbrev emptyBitmask : UInt32 := 0xffff

abbrev nodetypeDirent : UInt32 := 0xe001
abbrev nodetypeInode : UInt32 := 0xe002
abbrev nodetypeCleanmarker : UInt32 := 0x2003

/-- `JFFS2_COMPR_NONE` and `JFFS2_COMPR_ZERO` -/
abbrev comprNone : UInt8 := 0
abbrev comprZero : UInt8 := 1

abbrev dtLnk : UInt8 := 10

/-- `sizeof(struct jffs2_raw_inode)` -/
abbrev rawInodeSize : UInt32 := 68

/-- `sizeof(struct jffs2_raw_dirent)` -/
abbrev rawDirentSize : UInt32 := 40

/-- `struct jffs2_raw_inode`, as far as it is used, and where its data is. -/
structure Inode where
  ino : UInt32
  version : UInt32
  isize : UInt32
  offset : UInt32
  csize : UInt32
  dsize : UInt32
  compr : UInt8
  src : UInt32
  deriving DecidableEq

/-- `struct jffs2_raw_dirent`, as far as it is used. `ino` is zero for an unlink. -/
structure Dirent where
  pino : UInt32
  version : UInt32
  ino : UInt32
  type : UInt8
  name : List UInt8
  deriving DecidableEq

namespace Part

variable (p : Part) (node : UInt32)

def u32 (k : UInt32) : UInt32 := beWord (p.cpu.order (p.mem.read (node + k) 4))

def u16 (k : UInt32) : UInt32 := beWord (0 :: 0 :: p.cpu.order (p.mem.read (node + k) 2))

def u8 (k : UInt32) : UInt8 := p.mem (node + k)

def magic : UInt32 := p.u16 node 0

def nodetype : UInt32 := p.u16 node 2

def totlen : UInt32 := p.u32 node 4

def nsize : UInt8 := p.u8 node 28

def HdrCrc : Prop := p.u32 node 8 = crc32NoComp 0 (p.mem.read node 8)

def InodeCrc : Prop := p.u32 node 64 = crc32NoComp 0 (p.mem.read node 60)

def DirentCrc : Prop := p.u32 node 32 = crc32NoComp 0 (p.mem.read node 32)

def DirentNameCrc : Prop :=
  p.u32 node 36 = crc32NoComp 0 (p.mem.read (node + rawDirentSize) (p.nsize node).toNat)

instance : Decidable (p.HdrCrc node) := inferInstanceAs (Decidable (_ = _))
instance : Decidable (p.InodeCrc node) := inferInstanceAs (Decidable (_ = _))
instance : Decidable (p.DirentCrc node) := inferInstanceAs (Decidable (_ = _))
instance : Decidable (p.DirentNameCrc node) := inferInstanceAs (Decidable (_ = _))

def inodeAt : Inode where
  ino := p.u32 node 12
  version := p.u32 node 16
  isize := p.u32 node 28
  offset := p.u32 node 44
  csize := p.u32 node 48
  dsize := p.u32 node 52
  compr := p.u8 node 56
  src := node + rawInodeSize

def direntAt : Dirent where
  pino := p.u32 node 12
  version := p.u32 node 16
  ino := p.u32 node 20
  type := p.u8 node 29
  name := p.mem.read (node + rawDirentSize) (p.nsize node).toNat

/-- `part->size - sizeof(struct jffs2_raw_inode)` -/
def max : UInt32 := p.size - rawInodeSize

end Part

/-! ## The scan -/

/-- The ways in which there is no result: a loop does not end, `malloc` fails, a string or the text
of a link is too long for its buffer, an inode has no entry or a link no text. -/
inductive Stop where
  | noEnd
  | noMemory
  | overflow
  | noEntry
  | noText
  | badCompr
  deriving DecidableEq

/-- `struct b_lists` -/
structure Lists where
  frags : List UInt32
  dirs : List UInt32
  partOffset : UInt32
  deriving DecidableEq

variable (p : Part)

/-- The loop of `jffs2_scan_empty`. -/
def scanEmptyFrom : Nat → UInt32 → UInt32 → Except Stop UInt32
  | 0, _, _ => .error .noEnd
  | fuel + 1, startOffset, offset =>
    if offset < p.max then
      if p.u32 (p.offset + offset) 0 = 0xffffffff ∧ p.u32 (p.offset + offset) 4 = 0xffffffff then
        scanEmptyFrom fuel (offset + 4) (offset + 4 + 32)
      else .ok startOffset
    else .ok startOffset

/-- `jffs2_scan_empty` -/
def scanEmpty (fuel : Nat) (startOffset : UInt32) : Except Stop UInt32 :=
  scanEmptyFrom p fuel (startOffset + 4) (startOffset + 32)

/-- `(x + 3) & ~3` -/
def round4 (x : UInt32) : UInt32 := (x + 3) &&& ~~~3

/-- The loop of `jffs2_1pass_build_lists`. `malloc` says whether `add_node` finds memory for a node,
given how many of each kind there are. -/
def buildListsFrom (malloc : Nat → Nat → Bool) : Nat → UInt32 → Lists → Except Stop Lists
  | 0, _, _ => .error .noEnd
  | fuel + 1, offset, pl =>
    let node := p.offset + offset
    if offset < p.max then
      if p.magic node = magicBitmask ∧ p.HdrCrc node then
        if p.nodetype node = nodetypeInode ∧ p.InodeCrc node then
          if malloc pl.frags.length pl.dirs.length then
            buildListsFrom malloc fuel (offset + round4 (p.totlen node))
              { pl with frags := pl.frags ++ [node] }
          else .error .noMemory
        else if p.nodetype node = nodetypeDirent ∧ p.DirentCrc node ∧ p.DirentNameCrc node then
          if malloc pl.frags.length pl.dirs.length then
            buildListsFrom malloc fuel (offset + round4 (p.totlen node))
              { pl with dirs := pl.dirs ++ [node] }
          else .error .noMemory
        else buildListsFrom malloc fuel (offset + round4 (p.totlen node)) pl
      else if p.magic node = emptyBitmask ∧ p.nodetype node = emptyBitmask then
        match scanEmpty p fuel offset with
        | .error e => .error e
        | .ok offset => buildListsFrom malloc fuel offset pl
      else buildListsFrom malloc fuel (offset + 4) pl
    else .ok pl

def buildLists (malloc : Nat → Nat → Bool) (fuel : Nat) : Except Stop Lists :=
  buildListsFrom p malloc fuel 0 ⟨[], [], p.offset⟩

/-- `jffs2_1pass_rescan_needed` -/
def RescanNeeded : Option Lists → Prop
  | none => True
  | some pl => pl.frags = [] ∨ pl.partOffset ≠ p.offset ∨
      ∃ b ∈ pl.dirs, p.nodetype b ≠ nodetypeDirent

instance : DecidablePred (RescanNeeded p)
  | none => inferInstanceAs (Decidable True)
  | some _ => inferInstanceAs (Decidable (_ ∨ _ ∨ _))

/-- `jffs2_get_list`; the lists are kept in `part->jffs2_priv`. -/
def getList (malloc : Nat → Nat → Bool) (fuel : Nat) (priv : Option Lists) : Except Stop Lists :=
  if RescanNeeded p priv then buildLists p malloc fuel
  else
    match priv with
    | some pl => .ok pl
    | none => buildLists p malloc fuel

end UBoot.Jffs2
