import UBoot.Env.Crc32
import UBoot.Image.Header

/-!
# Booting an image (`common/cmd_bootm.c`)

`doBootm` is `do_bootm` up to the point where it transfers control: it checks the image at
`addr`, selects a part of it as the payload, copies this to its load address and, for Linux, stores
the command line and the board info below the stack and looks for an initrd. What is not in this
file, `gunzip` and an application that is started, is in the `Board`.
-/

namespace UBoot.Image

open UBoot.Lib UBoot.Env

/-- The build, the variable `verify`, and what `do_bootm` calls. -/
structure Board where
  verify : Bool
  cmdElf : Bool
  gunzip : Mem32 → UInt32 → UInt32 → UInt32 → Option Mem32
  appl : Mem32 → Mem32

/-- The ways in which `do_bootm` does not start the image: it returns 1, resets the board, or a
loop over the table of lengths finds no end. -/
inductive Stop where
  | badMagic
  | badHeaderChecksum
  | badDataCrc
  | unsupportedArchitecture
  | wrongImageType
  | unimplementedCompression
  | reset
  | noEnd
  deriving DecidableEq

structure Region where
  data : UInt32
  len : UInt32
  deriving DecidableEq

def Region.bytes (r : Region) (m : Mem32) : List UInt8 := m.read r.data r.len.toNat

/-! ## What Linux is given -/

/-- `CFG_BOOTMAPSZ`, `CFG_BARGSIZE` and `sizeof(bd_t)`. -/
structure LinuxCfg where
  bootMapSz : UInt32
  bargSize : UInt32
  sizeofBd : UInt32

section
variable (c : LinuxCfg) (r1 : UInt32)

def LinuxCfg.sp : UInt32 :=
  let sp := r1 - 2048
  let sp := if sp > c.bootMapSz then c.bootMapSz else sp
  sp &&& ~~~0xF

def LinuxCfg.cmdline : UInt32 := (c.sp r1 - c.bargSize) &&& ~~~0xF

def LinuxCfg.kbd : UInt32 := (c.cmdline r1 - c.sizeofBd) &&& ~~~0xF

end

/-- The boot arguments; without the variable there are none. -/
def argsOf : Option CStr → List UInt8
  | some s => s.bytes
  | none => []

/-- What `do_bootm_linux` starts from: the stack pointer `r1`, the variable `bootargs`, and what
becomes of the board info, with its clocks in MHz if they are wanted so. -/
structure LinuxArgs where
  cfg : LinuxCfg
  r1 : UInt32
  bootargs : Option CStr
  boardInfo : Mem32 → List UInt8
  boardInfo_length : ∀ m, (boardInfo m).length = cfg.sizeofBd.toNat

/-- `strcpy (cmdline, s)` and `*kbd = *(gd->bd)` -/
def LinuxArgs.stored (l : LinuxArgs) (m : Mem32) : Mem32 :=
  let m := m.store (l.cfg.cmdline l.r1) (argsOf l.bootargs ++ [0])
  m.store (l.cfg.kbd l.r1) (l.boardInfo m)

/-! ## `do_bootm` -/

variable (b : Board) (m : Mem32)

/-- The header at `addr`, and the checks that both `do_bootm` and `do_bootm_linux` make of it. -/
def checkImage (addr : UInt32) : Except Stop ImageHeader :=
  let hdr := ImageHeader.at m addr
  if hdr.magic ≠ ihMagic then .error .badMagic
  else if crc32 0 (hdr.withHcrc 0).bytes ≠ hdr.hcrc then .error .badHeaderChecksum
  else if b.verify ∧ crc32 0 (m.read (addr + 64) hdr.size.toNat) ≠ hdr.dcrc then .error .badDataCrc
  else .ok hdr

/-- `for (i=1; len_ptr[i]; ++i) data += 4;` The loop sees every word in memory at most once. -/
def skipLengths (lenPtr : UInt32) : Nat → Nat → UInt32 → Except Stop UInt32
  | 0, _, _ => .error .noEnd
  | fuel + 1, i, data =>
    if m.word (lenPtr + UInt32.ofNat (4 * i)) = 0 then .ok data
    else skipLengths lenPtr fuel (i + 1) (data + 4)

abbrev memWords : Nat := 2 ^ 30

/-- The switch on `ih_type`: what of the image is to be loaded. -/
def selectPayload (hdr : ImageHeader) (data : UInt32) : Except Stop Region :=
  if hdr.type = ihTypeStandalone ∨ hdr.type = ihTypeKernel then .ok ⟨data, hdr.size⟩
  else if hdr.type = ihTypeMulti then do
    let start ← skipLengths m data memWords 1 (data + 8)
    return ⟨start, m.word data⟩
  else .error .wrongImageType

/-- The switch on `ih_comp`. -/
def loadPayload (hdr : ImageHeader) (addr : UInt32) (payload : Region) : Except Stop Mem32 :=
  if hdr.comp = ihCompNone then
    if hdr.load = addr then .ok m else .ok (m.store hdr.load (payload.bytes m))
  else if hdr.comp = ihCompGzip then
    match b.gunzip m hdr.load payload.data payload.len with
    | some m => .ok m
    | none => .error .reset
  else .error .unimplementedCompression

/-- The second file of a multi-file image, behind the first one. -/
def secondFile (lenPtr : UInt32) : Except Stop Region := do
  let tail := m.word lenPtr % 4
  let data ← skipLengths m lenPtr memWords 1 (lenPtr + 8)
  let data := data + m.word lenPtr
  return ⟨if tail ≠ 0 then data + (4 - tail) else data, m.word (lenPtr + 4)⟩

/-- The image at `argv[2]`. -/
def ramdiskImage (addr : UInt32) : Except Stop Region :=
  match checkImage b m addr with
  | .error _ => .error .reset
  | .ok hdr =>
    if hdr.os ≠ ihOsLinux ∨ hdr.arch ≠ ihCpuPpc ∨ hdr.type ≠ ihTypeRamdisk then .error .reset
    else .ok ⟨addr + 64, hdr.size⟩

/-- What `do_bootm_linux` takes as initrd. -/
def selectInitrd (hdr : ImageHeader) (lenPtr : UInt32) (argv2 : Option UInt32) :
    Except Stop (Option Region) := do
  let region ←
    match argv2 with
    | some addr => ramdiskImage b m addr
    | none =>
      if hdr.type = ihTypeMulti ∧ m.word (lenPtr + 4) ≠ 0 then secondFile m lenPtr
      else .ok ⟨0, 0⟩
  return if region.data ≠ 0 then some region else none

/-- What `do_bootm` has selected, and memory when it has. For an operating system with a boot
function of its own there is no `initrd`. -/
structure Booted where
  payload : Region
  mem : Mem32
  initrd : Option (Option Region)

/-- Whether the switch on `ih_os` goes to `do_bootm_linux`. -/
def bootsLinux (os : UInt8) : Bool :=
  !(os = ihOsNetbsd || b.cmdElf && (os = ihOsVxworks || os = ihOsQnx))

def doBootm (l : LinuxArgs) (addr : UInt32) (argv2 : Option UInt32) : Except Stop Booted := do
  let hdr ← checkImage b m addr
  let data := addr + 64
  if hdr.arch ≠ ihCpuPpc ∧ hdr.arch ≠ ihCpuArm then .error .unsupportedArchitecture
  else
    let payload ← selectPayload m hdr data
    let loaded ← loadPayload b m hdr addr payload
    let mem := if hdr.type = ihTypeStandalone then b.appl loaded else loaded
    if bootsLinux b hdr.os then
      let mem := l.stored mem
      let initrd ← selectInitrd b mem hdr data argv2
      return ⟨payload, mem, some initrd⟩
    else return ⟨payload, mem, none⟩

end UBoot.Image
