import UBoot.Image.Header
import UBoot.Common.Strings
import UBoot.Lib.CInt

/-!
# Booting from a block device

`do_diskboot` (`common/cmd_ide.c`), `do_usbboot` (`common/cmd_usb.c`) and `do_scsiboot`
(`common/cmd_scsi.c`) read the first block of a partition, take the size of the image from its
header, and read the blocks that are left. `Kind.boot_iff` says when the image is where it should
be, with any driver: what `block_read` returns and how many blocks it has transferred are two
things.
-/

namespace UBoot.Boot

open UBoot.Lib UBoot.Common UBoot.Image

def bootPartType : List UInt8 := ascii "PPCBoot"

/-- `disk_partition_t`: a partition is a range of block numbers, and an image header fits into a
block. -/
structure PartInfo where
  start : UInt32
  size : UInt32
  blksz : UInt32
  type : List UInt8
  inside : start.toNat + size.toNat ≤ 2 ^ 32
  header_le : 64 ≤ blksz.toNat

/-- `n` bytes of a medium, from byte `a` on. -/
def bytesOf (disk : ℕ → UInt8) (a n : ℕ) : List UInt8 := (List.range n).map fun i => disk (a + i)

/-- A device: its descriptor, its bytes, and its driver. Of a request for `cnt` blocks the driver
transfers `got`, and `result` is what `block_read` returns. -/
structure Dev where
  /-- the type is not `DEV_TYPE_UNKNOWN` -/
  known : Bool
  /-- `block_read` is set -/
  hasRead : Bool
  part : ℤ → Option PartInfo
  disk : ℕ → UInt8
  got : UInt32 → UInt32 → UInt32
  result : UInt32 → UInt32 → UInt32
  got_le : ∀ start cnt, (got start cnt).toNat ≤ cnt.toNat

/-- A request to `block_read`. -/
structure Request where
  start : UInt32
  cnt : UInt32
  buf : UInt32
  deriving DecidableEq, Repr

namespace Dev

/-- `block_read`, in blocks of the size the partition says. -/
def blockRead (d : Dev) (blksz : UInt32) (r : Request) (mem : Mem32) : UInt32 × Mem32 :=
  (d.result r.start r.cnt, mem.store r.buf
    (bytesOf d.disk (r.start.toNat * blksz.toNat) ((d.got r.start r.cnt).toNat * blksz.toNat)))

end Dev

structure Kind where
  /-- the fields of the header go through `ntohl` -/
  ntohl : Bool
  /-- `block_read` is checked -/
  checkRead : Bool
  /-- a device without partition is read as one -/
  raw : Bool

/-- What a command leaves: its result, `load_addr` when it set it, and its requests. -/
structure Out where
  rcode : ℤ
  loadAddr : Option UInt32
  reads : List Request
  mem : Mem32

/-- The address and the boot device, or `none` for a usage message. -/
def bootArgs (cfgLoadAddr : UInt32) (bootdevice : Option (List UInt8)) :
    List (List UInt8) → Option (UInt32 × Option (List UInt8))
  | [] => some (cfgLoadAddr, bootdevice)
  | [a] => some (UInt32.ofNat (simpleStrtoul 16 a).1, bootdevice)
  | [a, s] => some (UInt32.ofNat (simpleStrtoul 16 a).1, some s)
  | _ => none

/-- `dev`, an `int`. -/
def devOf (s : List UInt8) : ℤ := int32 (simpleStrtoul 16 s).1

/-- A descriptor; the tables are not checked. -/
def descriptor {α : Type} (devs : List α) (dev : ℤ) : Except Oob α :=
  if 0 ≤ dev then
    match devs[dev.toNat]? with
    | some d => .ok d
    | none => .error .read
  else .error .read

/-- The partition that stands for a device without one. -/
def rawInfo : PartInfo := ⟨0, 2880, 0x200, bootPartType, by decide, by decide⟩

namespace Kind

variable (k : Kind)

/-- The partition that the rest of the string names, partition 0 without one. -/
def partition (d : Dev) (ep : List UInt8) : Option PartInfo :=
  match d.part (if ep = [] then 0 else int32 (simpleStrtoul 16 ep.tail).1) with
  | some info => some info
  | none => if k.raw then some rawInfo else none

/-- Device and partition, unless a check fails. -/
def select (devs : List Dev) (s : List UInt8) : Except Oob (Option (Dev × PartInfo)) := do
  let d ← descriptor devs (devOf s)
  let ep := (simpleStrtoul 16 s).2
  if d.known = false ∨ k.checkRead = true ∧ d.hasRead = false then return none
  else if ep ≠ [] ∧ ep.head? ≠ some 58 then return none
  else return ((k.partition d ep).filter fun i => i.type = bootPartType).map (d, ·)

/-- A field of the header in memory, or in the first block. -/
def field (hostBE : Bool) (bytes : List UInt8) : UInt32 :=
  if k.ntohl || hostBE then beWord bytes else beWord bytes.reverse

def further (size blksz : UInt32) : UInt32 := (size + 64 + (blksz - 1)) / blksz - 1

/-- The part of the commands that loads the image. -/
def load (hostBE autostart : Bool) (d : Dev) (info : PartInfo) (addr : UInt32) (mem : Mem32) :
    Out :=
  let first : Request := ⟨info.start, 1, addr⟩
  let r := d.blockRead info.blksz first mem
  if r.1 ≠ 1 then ⟨1, none, [first], r.2⟩
  else if k.field hostBE (r.2.read addr 4) ≠ ihMagic then ⟨1, none, [first], r.2⟩
  else
    let cnt := further (k.field hostBE (r.2.read (addr + 12) 4)) info.blksz
    let rest : Request := ⟨info.start + 1, cnt, addr + info.blksz⟩
    let r' := d.blockRead info.blksz rest r.2
    if r'.1 ≠ cnt then ⟨1, none, [first, rest], r'.2⟩
    else ⟨if autostart then 1 else 0, some addr, [first, rest], r'.2⟩

/-- Where the image goes and where it comes from, unless a check fails. -/
def target (cfgLoadAddr : UInt32) (bootdevice : Option (List UInt8)) (devs : List Dev)
    (args : List (List UInt8)) : Except Oob (Option (UInt32 × Dev × PartInfo)) :=
  match bootArgs cfgLoadAddr bootdevice args with
  | some (addr, some s) => (k.select devs s).map fun t => t.map (addr, ·)
  | _ => .ok none

/-- The command. With `autostart` it goes on to `do_bootm` and returns 1. -/
def boot (hostBE autostart : Bool) (cfgLoadAddr : UInt32) (bootdevice : Option (List UInt8))
    (devs : List Dev) (args : List (List UInt8)) (mem : Mem32) : Except Oob Out :=
  (k.target cfgLoadAddr bootdevice devs args).map fun t =>
    match t with
    | some (addr, d, info) => k.load hostBE autostart d info addr mem
    | none => ⟨1, none, [], mem⟩

end Kind

def ide : Kind := ⟨true, false, false⟩
def usb : Kind := ⟨false, true, true⟩
def scsi : Kind := ⟨false, false, false⟩

def doDiskboot := Kind.boot ide

def doUsbboot := Kind.boot usb

def doScsiboot := Kind.boot scsi

/-! ## What a command should do -/

namespace Kind

variable (k : Kind) (hostBE : Bool) (d : Dev) (info : PartInfo)

/-- `ih_size` in the first block of the partition. -/
def imageSize : UInt32 :=
  k.field hostBE (bytesOf d.disk (info.start.toNat * info.blksz.toNat + 12) 4)

def imageLen : ℕ := 64 + (k.imageSize hostBE d info).toNat

def imageBlocks : ℕ := (k.imageLen hostBE d info + (info.blksz.toNat - 1)) / info.blksz.toNat

/-- The further blocks are counted right, and an image that is loaded is at `addr`: read from
inside the partition, with nothing else written. -/
structure Loads (addr : UInt32) (mem : Mem32) (o : Out) : Prop where
  count : ∀ r, o.reads[1]? = some r → r.cnt.toNat + 1 = k.imageBlocks hostBE d info
  image : o.loadAddr.isSome → ∀ i < k.imageLen hostBE d info,
    o.mem (addr + UInt32.ofNat i) = d.disk (info.start.toNat * info.blksz.toNat + i)
  inside : o.loadAddr.isSome → ∀ r ∈ o.reads, ∀ j < r.cnt.toNat,
    info.start.toNat ≤ r.start.toNat + j ∧
      r.start.toNat + j < info.start.toNat + info.size.toNat
  frame : o.loadAddr.isSome → ∀ a,
    k.imageBlocks hostBE d info * info.blksz.toNat ≤ (a - addr).toNat → o.mem a = mem a

/-- The number of further blocks that the header asks for. -/
def imageFurther : UInt32 := further (k.imageSize hostBE d info) info.blksz

/-- The driver has read what it says it has read, the sum of the sizes does not wrap, and an image
that is read is inside the partition. -/
def Fits : Prop :=
  d.result info.start 1 = 1 →
  d.got info.start 1 = 1 ∧
  (k.field hostBE (bytesOf d.disk (info.start.toNat * info.blksz.toNat) 4) = ihMagic →
    k.imageLen hostBE d info + (info.blksz.toNat - 1) < 2 ^ 32 ∧
    (d.result (info.start + 1) (k.imageFurther hostBE d info) = k.imageFurther hostBE d info →
      d.got (info.start + 1) (k.imageFurther hostBE d info) = k.imageFurther hostBE d info ∧
      k.imageBlocks hostBE d info ≤ info.size.toNat))

end Kind

/-! ## The number of further blocks -/

theorem further_iff {size blksz : UInt32} (hb : 64 ≤ blksz.toNat) :
    (Kind.further size blksz).toNat + 1 = (64 + size.toNat + (blksz.toNat - 1)) / blksz.toNat ↔
      64 + size.toNat + (blksz.toNat - 1) < 2 ^ 32 := by
  have hsize := size.toNat_lt
  have hblksz := blksz.toNat_lt
  set x := 64 + size.toNat + (blksz.toNat - 1) with hx
  have hq : ((size + 64 + (blksz - 1)) / blksz).toNat = x % 2 ^ 32 / blksz.toNat := by
    have h64 : (64 : UInt32).toNat = 64 := rfl
    have h1 : (1 : UInt32).toNat = 1 := rfl
    rw [UInt32.toNat_div, UInt32.toNat_add, UInt32.toNat_add, UInt32.toNat_sub_of_le _ _
      (UInt32.le_iff_toNat_le.mpr (by omega)), h64, h1]
    congr 1
    omega
  have hfurther : (Kind.further size blksz).toNat =
      (2 ^ 32 - 1 + x % 2 ^ 32 / blksz.toNat) % 2 ^ 32 := by
    rw [Kind.further, UInt32.toNat_sub, hq]
    rfl
  have hle : x % 2 ^ 32 / blksz.toNat ≤ x % 2 ^ 32 := Nat.div_le_self ..
  have hmod := Nat.mod_lt x (Nat.two_pow_pos 32)
  constructor
  · intro heq
    by_contra hwrap
    have hdrop : x % 2 ^ 32 / blksz.toNat ≤ x / blksz.toNat - 1 := by
      rw [← Nat.sub_mul_div x blksz.toNat 1]
      exact Nat.div_le_div_right (by omega)
    have hsmall : x / blksz.toNat ≤ x / 64 := Nat.div_le_div_left hb (by decide)
    omega
  · intro hlt
    have hone : 1 ≤ x / blksz.toNat := (Nat.one_le_div_iff (by omega)).mpr (by omega)
    rw [Nat.mod_eq_of_lt hlt] at hfurther hle
    omega

theorem exists_further_ne {blksz : UInt32} (hb : 64 ≤ blksz.toNat) (n : ℕ) :
    ∃ size, (Kind.further size blksz).toNat + 1 ≠ n := by
  have hpos : 0 < blksz.toNat := by omega
  have hone : Kind.further 0xFFFFFFC1 blksz = 0 := by
    have hsum : (0xFFFFFFC1 : UInt32) + 64 + (blksz - 1) = blksz := by
      have h1 : (0xFFFFFFC1 : UInt32) + 64 = 1 := rfl
      rw [h1, UInt32.add_comm, UInt32.sub_add_cancel]
    have hdiv : blksz / blksz = 1 := by
      rw [← UInt32.toNat_inj, UInt32.toNat_div, Nat.div_self hpos]
      rfl
    rw [Kind.further, hsum, hdiv]
    rfl
  have hzero : Kind.further 0xFFFFFFC0 blksz = 0xFFFFFFFF := by
    have hsum : (0xFFFFFFC0 : UInt32) + 64 + (blksz - 1) = blksz - 1 := UInt32.zero_add _
    have hdiv : (blksz - 1) / blksz = 0 := by
      have hsub : (blksz - 1).toNat = blksz.toNat - 1 :=
        UInt32.toNat_sub_of_le _ _ (UInt32.le_iff_toNat_le.mpr hpos)
      rw [← UInt32.toNat_inj, UInt32.toNat_div, hsub, Nat.div_eq_of_lt (by omega)]
      rfl
    rw [Kind.further, hsum, hdiv]
    rfl
  by_cases hn : n = 1
  · exact ⟨0xFFFFFFC0, by rw [hzero, hn]; decide⟩
  · exact ⟨0xFFFFFFC1, by rw [hone]; exact Ne.symm hn⟩

/-! ## Blocks in memory -/

section
variable {k : Kind} {hostBE autostart : Bool} {d : Dev} {info : PartInfo} {addr : UInt32}
  {mem : Mem32} {a m n o : ℕ}

@[simp]
theorem bytesOf_length (disk : ℕ → UInt8) (a n : ℕ) : (bytesOf disk a n).length = n := by
  rw [bytesOf, List.length_map, List.length_range]

theorem getElem_bytesOf {disk : ℕ → UInt8} {i : ℕ} (h : i < (bytesOf disk a n).length) :
    (bytesOf disk a n)[i] = disk (a + i) := by
  simp only [bytesOf, List.getElem_map, List.getElem_range]

theorem bytesOf_append (disk : ℕ → UInt8) (a m n : ℕ) :
    bytesOf disk a m ++ bytesOf disk (a + m) n = bytesOf disk a (m + n) := by
  rw [bytesOf, bytesOf, bytesOf, List.range_add, List.map_append, List.map_map]
  simp only [Function.comp_def, Nat.add_assoc]

theorem read_store (disk : ℕ → UInt8) (addr : UInt32) (mem : Mem32) (hn : n ≤ 2 ^ 32)
    (h : o + m ≤ n) : (mem.store addr (bytesOf disk a n)).read (addr + UInt32.ofNat o) m =
      bytesOf disk (a + o) m := by
  have hold : (mem.store addr (bytesOf disk a n)).HoldsUpTo addr (bytesOf disk a n) n :=
    Mem32.holdsUpTo_store (by rw [bytesOf_length]; exact hn)
  rw [hold.read (by rw [bytesOf_length]) h]
  refine List.ext_getElem (by simp; omega) fun i hi hi' => ?_
  rw [List.getElem_take, List.getElem_drop, getElem_bytesOf, getElem_bytesOf, Nat.add_assoc]

theorem read_store_zero (disk : ℕ → UInt8) (addr : UInt32) (mem : Mem32) (hn : n ≤ 2 ^ 32)
    (h : m ≤ n) : (mem.store addr (bytesOf disk a n)).read addr m = bytesOf disk a m := by
  have hread := read_store disk addr mem (o := 0) (a := a) hn ((Nat.zero_add m).trans_le h)
  have hbase : addr + UInt32.ofNat 0 = addr := UInt32.add_zero addr
  rwa [hbase, Nat.add_zero] at hread

theorem store_bytesOf (disk : ℕ → UInt8) (addr : UInt32) (mem : Mem32) (a : ℕ)
    (hn : n ≤ 2 ^ 32) :
    (∀ i < n, mem.store addr (bytesOf disk a n) (addr + UInt32.ofNat i) = disk (a + i)) ∧
    ∀ x, n ≤ (x - addr).toNat → mem.store addr (bytesOf disk a n) x = mem x := by
  refine ⟨fun i hi => ?_, fun x hx => ?_⟩
  · have hlen : i < (bytesOf disk a n).length := by rwa [bytesOf_length]
    have hold : (mem.store addr (bytesOf disk a n)).HoldsUpTo addr (bytesOf disk a n) n :=
      Mem32.holdsUpTo_store (by rw [bytesOf_length]; exact hn)
    rw [hold i hlen hi, getElem_bytesOf]
  · exact Mem32.store_behind_end (by rwa [bytesOf_length])

theorem store_behind (disk : ℕ → UInt8) (addr : UInt32) (mem : Mem32) (h : m + n ≤ 2 ^ 32) :
    (mem.store addr (bytesOf disk a m)).store (addr + UInt32.ofNat m) (bytesOf disk (a + m) n) =
      mem.store addr (bytesOf disk a (m + n)) := by
  have happend : (mem.store addr (bytesOf disk a m)).store
      (addr + UInt32.ofNat (bytesOf disk a m).length) (bytesOf disk (a + m) n) =
      mem.store addr (bytesOf disk a m ++ bytesOf disk (a + m) n) :=
    Mem32.store_append (by rwa [bytesOf_length, bytesOf_length])
  rwa [bytesOf_length, bytesOf_append] at happend

theorem blockRead_one {start blksz : UInt32} (h : d.result start 1 = 1)
    (hgot : d.got start 1 = 1) : d.blockRead blksz ⟨start, 1, addr⟩ mem =
      (1, mem.store addr (bytesOf d.disk (start.toNat * blksz.toNat) blksz.toNat)) := by
  have hone : (1 : UInt32).toNat * blksz.toNat = blksz.toNat := Nat.one_mul _
  rw [Dev.blockRead, h, hgot, hone]

theorem next_toNat {start : UInt32} (cnt : UInt32) (h : start.toNat + 1 + cnt.toNat ≤ 2 ^ 32)
    (hcnt : cnt.toNat ≠ 0) : (start + 1).toNat = start.toNat + 1 := by
  rw [UInt32.toNat_add]
  exact Nat.mod_eq_of_lt (show start.toNat + 1 < 2 ^ 32 by omega)

theorem blockRead_rest {start blksz cnt : UInt32}
    (hstart : start.toNat + 1 + cnt.toNat ≤ 2 ^ 32)
    (hlen : (cnt.toNat + 1) * blksz.toNat ≤ 2 ^ 32) (h : d.result (start + 1) cnt = cnt)
    (hgot : d.got (start + 1) cnt = cnt) :
    d.blockRead blksz ⟨start + 1, cnt, addr + blksz⟩
        (mem.store addr (bytesOf d.disk (start.toNat * blksz.toNat) blksz.toNat)) =
      (cnt, mem.store addr (bytesOf d.disk (start.toNat * blksz.toNat)
        ((cnt.toNat + 1) * blksz.toNat))) := by
  have hsplit : (cnt.toNat + 1) * blksz.toNat = blksz.toNat + cnt.toNat * blksz.toNat := by ring
  rw [Dev.blockRead, h, hgot]
  by_cases hcnt : cnt.toNat = 0
  · rw [hcnt, Nat.zero_mul, Nat.zero_add, Nat.one_mul]
    rfl
  have hbehind := store_behind d.disk addr mem (a := start.toNat * blksz.toNat)
    (hsplit ▸ hlen)
  rw [UInt32.ofNat_toNat] at hbehind
  rw [next_toNat cnt hstart hcnt, Nat.add_mul, Nat.one_mul, hsplit, hbehind]

variable (k hostBE d info) in
theorem Kind.imageLen_le (hb : 0 < info.blksz.toNat) :
    k.imageLen hostBE d info ≤ k.imageBlocks hostBE d info * info.blksz.toNat ∧
    k.imageBlocks hostBE d info * info.blksz.toNat ≤
      k.imageLen hostBE d info + (info.blksz.toNat - 1) := by
  have hdiv := Nat.div_add_mod' (k.imageLen hostBE d info + (info.blksz.toNat - 1))
    info.blksz.toNat
  have hmod := Nat.mod_lt (k.imageLen hostBE d info + (info.blksz.toNat - 1)) hb
  rw [Kind.imageBlocks]
  omega

theorem Kind.loads_failed {rcode : ℤ} {reads : List Request} {mem' : Mem32} :
    k.Loads hostBE d info addr mem ⟨rcode, none, reads, mem'⟩ ↔
      ∀ r, reads[1]? = some r → r.cnt.toNat + 1 = k.imageBlocks hostBE d info :=
  ⟨fun h => h.count, fun h => ⟨h, (fun h => by cases h), (fun h => by cases h),
    fun h => by cases h⟩⟩

variable (k hostBE autostart info addr mem) in
theorem Kind.load_cases (hd : d.result info.start 1 = 1 → d.got info.start 1 = 1) :
    (∃ mem', k.load hostBE autostart d info addr mem =
        ⟨1, none, [⟨info.start, 1, addr⟩], mem'⟩ ∧ ¬ (d.result info.start 1 = 1 ∧
      k.field hostBE (bytesOf d.disk (info.start.toNat * info.blksz.toNat) 4) = ihMagic)) ∨
    (d.result info.start 1 = 1 ∧
      k.field hostBE (bytesOf d.disk (info.start.toNat * info.blksz.toNat) 4) = ihMagic) ∧
    ∃ cnt r, cnt = k.imageFurther hostBE d info ∧
      r = d.blockRead info.blksz ⟨info.start + 1, cnt, addr + info.blksz⟩
        (mem.store addr (bytesOf d.disk (info.start.toNat * info.blksz.toNat) info.blksz.toNat)) ∧
      k.load hostBE autostart d info addr mem =
        if d.result (info.start + 1) cnt ≠ cnt then
          ⟨1, none, [⟨info.start, 1, addr⟩, ⟨info.start + 1, cnt, addr + info.blksz⟩], r.2⟩
        else ⟨if autostart then 1 else 0, some addr,
          [⟨info.start, 1, addr⟩, ⟨info.start + 1, cnt, addr + info.blksz⟩], r.2⟩ := by
  have hblksz := info.blksz.toNat_lt
  have hheader := info.header_le
  rw [Kind.load]
  by_cases hfirst : d.result info.start 1 = 1
  swap
  · refine .inl ⟨_, if_pos hfirst, fun h => hfirst h.1⟩
  have hmagic : (mem.store addr (bytesOf d.disk (info.start.toNat * info.blksz.toNat)
      info.blksz.toNat)).read addr 4 = bytesOf d.disk (info.start.toNat * info.blksz.toNat) 4 :=
    read_store_zero d.disk addr mem hblksz.le (by omega)
  have hsize : (mem.store addr (bytesOf d.disk (info.start.toNat * info.blksz.toNat)
      info.blksz.toNat)).read (addr + 12) 4 =
      bytesOf d.disk (info.start.toNat * info.blksz.toNat + 12) 4 :=
    read_store d.disk addr mem (o := 12) hblksz.le (by omega)
  dsimp only
  rw [blockRead_one hfirst (hd hfirst), if_neg (not_not.mpr rfl)]
  dsimp only
  rw [hmagic, hsize]
  by_cases hmag : k.field hostBE (bytesOf d.disk (info.start.toNat * info.blksz.toNat) 4) = ihMagic
  swap
  · exact .inl ⟨_, if_pos hmag, fun h => hmag h.2⟩
  rw [if_neg (not_not.mpr hmag)]
  exact .inr ⟨⟨hfirst, hmag⟩, _, _, rfl, rfl, rfl⟩

variable (k hostBE addr) in
theorem Kind.exists_header (size : UInt32) : ∃ mem : Mem32,
    k.field hostBE (mem.read addr 4) = ihMagic ∧
      k.field hostBE (mem.read (addr + 12) 4) = size := by
  have hfield (x : UInt32) : ∃ bytes : List UInt8, bytes.length = 4 ∧ k.field hostBE bytes = x := by
    cases hbig : k.ntohl || hostBE with
    | true => exact ⟨beBytes x, rfl, by rw [Kind.field, if_pos hbig, beWord_beBytes]⟩
    | false =>
      refine ⟨(beBytes x).reverse, rfl, ?_⟩
      rw [Kind.field, if_neg (by rw [hbig]; exact Bool.false_ne_true), List.reverse_reverse,
        beWord_beBytes]
  obtain ⟨magic, hmagic, hfmagic⟩ := hfield ihMagic
  obtain ⟨bytes, hbytes, hfbytes⟩ := hfield size
  have hlen : (magic ++ List.replicate 8 0 ++ bytes).length = 16 := by
    simp [hmagic, hbytes]
  have hold : (Mem32.store (fun _ => 0) addr (magic ++ List.replicate 8 0 ++ bytes)).HoldsUpTo addr
      (magic ++ List.replicate 8 0 ++ bytes) 16 :=
    Mem32.holdsUpTo_store (by rw [hlen]; decide)
  have hzero : addr + UInt32.ofNat 0 = addr := UInt32.add_zero addr
  refine ⟨Mem32.store (fun _ => 0) addr (magic ++ List.replicate 8 0 ++ bytes), ?_, ?_⟩
  · have hread := hold.read hlen.ge (show 0 + 4 ≤ 16 by decide)
    rw [hzero, List.drop_zero, List.append_assoc, List.take_left' hmagic] at hread
    rw [List.append_assoc, hread, hfmagic]
  · have hfront : (magic ++ List.replicate 8 0).length = 12 := by simp [hmagic]
    have hread := hold.read hlen.ge (show 12 + 4 ≤ 16 by decide)
    rw [List.drop_left' hfront, List.take_of_length_le hbytes.le] at hread
    exact (congrArg (k.field hostBE) hread).trans hfbytes

/-- Where the first block was not transferred, the count is that of the header in memory. -/
theorem Kind.load_unread (hfirst : d.result info.start 1 = 1) (hgot : d.got info.start 1 = 0)
    (hmagic : k.field hostBE (mem.read addr 4) = ihMagic) :
    (k.load hostBE autostart d info addr mem).reads[1]? = some ⟨info.start + 1,
      further (k.field hostBE (mem.read (addr + 12) 4)) info.blksz, addr + info.blksz⟩ := by
  have hread : d.blockRead info.blksz ⟨info.start, 1, addr⟩ mem = (1, mem) := by
    have hnone : (0 : UInt32).toNat * info.blksz.toNat = 0 := Nat.zero_mul _
    rw [Dev.blockRead, hfirst, hgot, hnone]
    rfl
  rw [Kind.load]
  dsimp only
  rw [hread, if_neg (not_not.mpr rfl), if_neg (not_not.mpr hmagic)]
  split_ifs <;> rfl

/-- A block is transferred only when the driver says so. -/
theorem Kind.got_first (h : ∀ mem, k.Loads hostBE d info addr mem
    (k.load hostBE autostart d info addr mem)) (hfirst : d.result info.start 1 = 1) :
    d.got info.start 1 = 1 := by
  by_contra hgot
  have hle := d.got_le info.start 1
  have hone : (1 : UInt32).toNat = 1 := rfl
  have hne : (d.got info.start 1).toNat ≠ 1 := fun h1 => hgot (UInt32.toNat_inj.mp h1)
  have hzero : d.got info.start 1 = 0 := UInt32.toNat_inj.mp (show _ = 0 by omega)
  obtain ⟨size, hsize⟩ := exists_further_ne info.header_le (k.imageBlocks hostBE d info)
  obtain ⟨mem, hmagic, hfield⟩ := k.exists_header hostBE addr size
  have hcount := (h mem).count _ (Kind.load_unread hfirst hzero hmagic)
  rw [hfield] at hcount
  exact hsize hcount

/-- The first byte of the last of the further blocks, when the driver has left it out. -/
theorem blockRead_short {start blksz cnt : UInt32} (hgot : (d.got start cnt).toNat < cnt.toNat)
    (hb : 0 < blksz.toNat) (hlen : (cnt.toNat + 1) * blksz.toNat ≤ 2 ^ 32) {first : List UInt8}
    (hfirst : first.length = blksz.toNat) :
    (d.blockRead blksz ⟨start, cnt, addr + blksz⟩ (mem.store addr first)).2
      (addr + UInt32.ofNat (cnt.toNat * blksz.toNat)) =
        mem (addr + UInt32.ofNat (cnt.toNat * blksz.toNat)) := by
  have hsplit : (cnt.toNat + 1) * blksz.toNat = cnt.toNat * blksz.toNat + blksz.toNat := by ring
  have hmul : ((d.got start cnt).toNat + 1) * blksz.toNat ≤ cnt.toNat * blksz.toNat :=
    Nat.mul_le_mul_right _ hgot
  have hnext : ((d.got start cnt).toNat + 1) * blksz.toNat =
      (d.got start cnt).toNat * blksz.toNat + blksz.toNat := by ring
  have hlt : cnt.toNat * blksz.toNat < 2 ^ 32 := by omega
  have hoff : (addr + UInt32.ofNat (cnt.toNat * blksz.toNat) - addr).toNat =
      cnt.toNat * blksz.toNat := by
    rw [UInt32.add_comm, UInt32.add_sub_cancel, UInt32.toNat_ofNat_of_lt' hlt]
  have hoff' : (addr + UInt32.ofNat (cnt.toNat * blksz.toNat) - (addr + blksz)).toNat =
      cnt.toNat * blksz.toNat - blksz.toNat := by
    have hsub : addr + UInt32.ofNat (cnt.toNat * blksz.toNat) - (addr + blksz) =
        UInt32.ofNat (cnt.toNat * blksz.toNat) - blksz := by grind
    have hle : blksz ≤ UInt32.ofNat (cnt.toNat * blksz.toNat) := by
      rw [UInt32.le_iff_toNat_le, UInt32.toNat_ofNat_of_lt' hlt]
      omega
    rw [hsub, UInt32.toNat_sub_of_le _ _ hle, UInt32.toNat_ofNat_of_lt' hlt]
  refine (Mem32.store_behind_end ?_).trans (Mem32.store_behind_end ?_)
  · rw [bytesOf_length, hoff']
    dsimp only
    omega
  · rw [hfirst, hoff]
    omega

/-- With a driver that is wrong about what it has read, there is a memory for which the image is
not right. -/
theorem Kind.fits_of_loads (h : ∀ mem, k.Loads hostBE d info addr mem
    (k.load hostBE autostart d info addr mem)) : k.Fits hostBE d info := by
  intro hfirst
  have hinside := info.inside
  have hheader := info.header_le
  have hgot := Kind.got_first h hfirst
  refine ⟨hgot, fun hmag => ?_⟩
  -- memory that differs from the medium where the last of the further blocks begins
  set cnt := k.imageFurther hostBE d info with hcnt
  set start := info.start.toNat * info.blksz.toNat with hstart
  set mem : Mem32 := fun _ => d.disk (start + cnt.toNat * info.blksz.toNat) + 1 with hmem
  obtain ⟨-, -, hends⟩ | ⟨-, cnt', r, hcnt', hr, hload⟩ :=
    k.load_cases hostBE autostart info addr mem fun _ => hgot
  · exact absurd ⟨hfirst, hmag⟩ hends
  rw [← hcnt] at hcnt'
  subst hcnt'
  have hloads := h mem
  rw [hload] at hloads
  have hblocks : cnt.toNat + 1 = k.imageBlocks hostBE d info := by
    refine hloads.count ⟨info.start + 1, cnt, addr + info.blksz⟩ ?_
    split_ifs <;> rfl
  have hsum : k.imageLen hostBE d info + (info.blksz.toNat - 1) < 2 ^ 32 :=
    (@further_iff (k.imageSize hostBE d info) _ info.header_le).mp hblocks
  refine ⟨hsum, fun hrest => ?_⟩
  rw [if_neg (not_not.mpr hrest)] at hloads
  obtain ⟨-, hround⟩ := k.imageLen_le hostBE d info (by omega)
  rw [← hblocks] at hround
  have hsplit : (cnt.toNat + 1) * info.blksz.toNat =
    cnt.toNat * info.blksz.toNat + info.blksz.toNat := by ring
  refine ⟨?_, ?_⟩
  · by_contra hshort
    have hle := d.got_le (info.start + 1) cnt
    have hne : (d.got (info.start + 1) cnt).toNat ≠ cnt.toNat := fun heq =>
      hshort (UInt32.toNat_inj.mp heq)
    have himage := hloads.image rfl (cnt.toNat * info.blksz.toNat) (by omega)
    dsimp only at himage
    rw [hr, blockRead_short (by omega) (by omega) (by omega) (bytesOf_length ..)] at himage
    have hne (b : UInt8) : b + 1 ≠ b := by grind
    exact hne _ himage
  · have hone := hloads.inside rfl _ (List.mem_cons_self ..) 0 Nat.one_pos
    dsimp only at hone
    by_cases hzero : cnt.toNat = 0
    · omega
    have hall (j : ℕ) (hj : j < cnt.toNat) := hloads.inside rfl ⟨info.start + 1, cnt, _⟩
      (List.mem_cons_of_mem _ (List.mem_cons_self ..)) j hj
    have hhead := hall 0 (by omega)
    have hlast := hall (cnt.toNat - 1) (by omega)
    dsimp only at hhead hlast
    have hnext : (info.start + 1).toNat = (info.start.toNat + 1) % 2 ^ 32 := UInt32.toNat_add ..
    omega

theorem Kind.loads_of_fits (hfits : k.Fits hostBE d info) (mem : Mem32) :
    k.Loads hostBE d info addr mem (k.load hostBE autostart d info addr mem) := by
  have hinside := info.inside
  have hheader := info.header_le
  obtain ⟨mem', hload, hends⟩ | ⟨⟨hfirst, hmag⟩, cnt, r, hcnt, hr, hload⟩ :=
    k.load_cases hostBE autostart info addr mem fun h => (hfits h).1
  · rw [hload, Kind.loads_failed]
    exact fun r hr => by cases hr
  obtain ⟨hsum, hread⟩ := (hfits hfirst).2 hmag
  have hblocks : cnt.toNat + 1 = k.imageBlocks hostBE d info := by
    rw [hcnt]
    exact (further_iff info.header_le).mpr hsum
  rw [hload]
  by_cases hrest : d.result (info.start + 1) cnt = cnt
  swap
  · rw [if_pos hrest, Kind.loads_failed]
    exact fun r hr => Option.some.inj hr ▸ hblocks
  rw [if_neg (not_not.mpr hrest)]
  obtain ⟨hgot, hle⟩ := hread (hcnt ▸ hrest)
  rw [← hcnt] at hgot
  obtain ⟨himage, hround⟩ := k.imageLen_le hostBE d info (by omega)
  have hlen : k.imageBlocks hostBE d info * info.blksz.toNat ≤ 2 ^ 32 := hround.trans hsum.le
  have hmem : r.2 = mem.store addr (bytesOf d.disk (info.start.toNat * info.blksz.toNat)
      (k.imageBlocks hostBE d info * info.blksz.toNat)) := by
    rw [hr, blockRead_rest (by omega) (by rw [hblocks]; exact hlen) hrest hgot, hblocks]
  rw [hmem]
  obtain ⟨hbytes, hframe⟩ := store_bytesOf d.disk addr mem
    (info.start.toNat * info.blksz.toNat) hlen
  refine ⟨fun q hq => Option.some.inj hq ▸ hblocks, fun _ i hi => hbytes i (hi.trans_le himage),
    fun _ q hq j hj => ?_, fun _ => hframe⟩
  obtain rfl | hq := List.mem_cons.mp hq
  · obtain rfl : j = 0 := Nat.lt_one_iff.mp hj
    dsimp only
    omega
  · obtain rfl := List.mem_singleton.mp hq
    dsimp only at hj ⊢
    rw [next_toNat cnt (by omega) (by omega)]
    omega

variable (k hostBE autostart d info addr) in
theorem Kind.load_iff :
    (∀ mem, k.Loads hostBE d info addr mem (k.load hostBE autostart d info addr mem)) ↔
      k.Fits hostBE d info :=
  ⟨Kind.fits_of_loads, Kind.loads_of_fits⟩

end

/-! ## The commands -/

/-- A command is right if nothing is read outside a table and what it does when its checks pass is
right. -/
theorem command_iff {τ ο : Type} {target : Except Oob (Option τ)} {run : Option τ → ο}
    {Right : τ → ο → Prop} :
    (∃ o, target.map run = .ok o ∧ ∀ t, target = .ok (some t) → Right t o) ↔
      (∃ r, target = .ok r) ∧ ∀ t, target = .ok (some t) → Right t (run (some t)) := by
  cases target with
  | error e => exact iff_of_false (fun ⟨o, ho, _⟩ => by cases ho) fun ⟨⟨r, hr⟩, _⟩ => by cases hr
  | ok r =>
    constructor
    · rintro ⟨o, ho, hright⟩
      cases ho
      refine ⟨⟨r, rfl⟩, fun t ht => ?_⟩
      cases ht
      exact hright t rfl
    · rintro ⟨-, hright⟩
      refine ⟨run r, rfl, fun t ht => ?_⟩
      cases ht
      exact hright t rfl

section
variable (k : Kind) (hostBE autostart : Bool) (cfgLoadAddr : UInt32)
  (bootdevice : Option (List UInt8)) (devs : List Dev) (args : List (List UInt8))

/-- The command stays in the table of devices, and loads what it should, whatever memory holds. -/
def Kind.Meets : Prop :=
  ∀ mem, ∃ o, k.boot hostBE autostart cfgLoadAddr bootdevice devs args mem = .ok o ∧
    ∀ t, k.target cfgLoadAddr bootdevice devs args = .ok (some t) →
      k.Loads hostBE t.2.1 t.2.2 t.1 mem o

/-- The device is in the table, and the image fits. -/
def Kind.Good : Prop :=
  (∀ addr s, bootArgs cfgLoadAddr bootdevice args = some (addr, some s) →
    0 ≤ devOf s ∧ devOf s < devs.length) ∧
  ∀ t, k.target cfgLoadAddr bootdevice devs args = .ok (some t) → k.Fits hostBE t.2.1 t.2.2

end

section
variable {k : Kind} {hostBE autostart : Bool} {cfgLoadAddr : UInt32}
  {bootdevice : Option (List UInt8)} {devs : List Dev} {args : List (List UInt8)} {s : List UInt8}
  {d : Dev} {info : PartInfo}

theorem descriptor_ok {α : Type} {xs : List α} {dev : ℤ} :
    (∃ x, descriptor xs dev = .ok x) ↔ 0 ≤ dev ∧ dev < xs.length := by
  rw [descriptor]
  by_cases hneg : 0 ≤ dev
  · rw [if_pos hneg, and_iff_right hneg]
    cases hget : xs[dev.toNat]? with
    | none =>
      have hle := List.getElem?_eq_none_iff.mp hget
      exact iff_of_false (fun ⟨x, hx⟩ => by cases hx) (by omega)
    | some x =>
      have hlt := (List.getElem?_eq_some_iff.mp hget).1
      exact iff_of_true ⟨x, rfl⟩ (by omega)
  · rw [if_neg hneg]
    exact iff_of_false (fun ⟨x, hx⟩ => by cases hx) fun h => hneg h.1

theorem select_ok (k : Kind) (devs : List Dev) (s : List UInt8) :
    (∃ r, k.select devs s = .ok r) ↔ 0 ≤ devOf s ∧ devOf s < devs.length := by
  rw [← descriptor_ok, Kind.select]
  cases descriptor devs (devOf s) with
  | error e => exact iff_of_false (fun ⟨r, hr⟩ => by cases hr) fun ⟨x, hx⟩ => by cases hx
  | ok d =>
    refine iff_of_true ?_ ⟨d, rfl⟩
    simp only [bind, Except.bind, pure, Except.pure]
    split_ifs <;> exact ⟨_, rfl⟩

theorem target_ok : (∃ r, k.target cfgLoadAddr bootdevice devs args = .ok r) ↔
    ∀ addr s, bootArgs cfgLoadAddr bootdevice args = some (addr, some s) →
      0 ≤ devOf s ∧ devOf s < devs.length := by
  rw [Kind.target]
  cases bootArgs cfgLoadAddr bootdevice args with
  | none => exact iff_of_true ⟨_, rfl⟩ fun _ _ h => by cases h
  | some t =>
    obtain ⟨addr, _ | s⟩ := t
    · exact iff_of_true ⟨_, rfl⟩ fun _ _ h => by cases h
    have hindex : (∀ addr' s', some (addr, some s) = some (addr', some s') →
        0 ≤ devOf s' ∧ devOf s' < devs.length) ↔ 0 ≤ devOf s ∧ devOf s < devs.length :=
      ⟨fun h => h addr s rfl, fun h _ _ heq => by cases heq; exact h⟩
    rw [hindex, ← select_ok k]
    dsimp only
    generalize k.select devs s = r
    cases r with
    | error e => exact iff_of_false (fun ⟨r, hr⟩ => by cases hr) fun ⟨r, hr⟩ => by cases hr
    | ok r => exact iff_of_true ⟨_, rfl⟩ ⟨r, rfl⟩

/-- **When a command is right.** -/
theorem Kind.boot_iff : k.Meets hostBE autostart cfgLoadAddr bootdevice devs args ↔
    k.Good hostBE cfgLoadAddr bootdevice devs args := by
  rw [Kind.Meets, Kind.Good, ← target_ok]
  constructor
  · intro h
    refine ⟨(command_iff.mp (h fun _ => 0)).1, fun t ht => ?_⟩
    exact (k.load_iff hostBE autostart t.2.1 t.2.2 t.1).mp fun mem =>
      (command_iff.mp (h mem)).2 t ht
  · rintro ⟨htable, hfits⟩ mem
    exact command_iff.mpr ⟨htable, fun t ht =>
      (k.load_iff hostBE autostart t.2.1 t.2.2 t.1).mpr (hfits t ht) mem⟩

end

end UBoot.Boot
