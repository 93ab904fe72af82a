import UBoot.Boot.DocBoot
import UBoot.Lib.Buf

/-!
# The DiskOnChip driver

`doc_rw`, `doc_read_ecc`, `doc_write_ecc`, `doc_write_oob` and `doc_erase` (`common/cmd_doc.c`).
What the driver does to the chip is kept in a log; what the chip answers is a sequence of bytes.
-/

namespace UBoot.Doc

open UBoot.Lib UBoot.Boot

def docEio : ℕ := 1
def docEinval : ℕ := 2
def docEecc : ℕ := 3

structure Nand where
  floor : ℤ
  chip : ℤ

/-- `struct DiskOnChip`, as `DoC_ScanChips` sets it: the chips are all of one type. -/
structure DiskOnChip where
  /-- `DoC_is_Millennium` -/
  millennium : Bool
  page256 : Bool
  chipshift : ℕ
  eraseshift : ℕ
  chips : List Nand
  totlen_lt : chips.length * 2 ^ chipshift < 2 ^ 31

/-- `CDSN_CTRL_WP`, `CDSN_CTRL_ECC_IO`, `CDSN_CTRL_CE` -/
def ctrlWp : UInt8 := 0x08
def ctrlEccIo : UInt8 := 0x20
def ctrlCe : UInt8 := 0x01

/-- `DOC_ECC_RESET`, `DOC_ECC_EN`, `DOC_ECC_DIS`, `DOC_ECC_RW` -/
def eccReset : UInt8 := 0
def eccEn : UInt8 := 0x0a
def eccDis : UInt8 := 0x02
def eccRw : UInt8 := 0x20

/-- `enum` of the commands `NAND_CMD_*` -/
inductive NandCmd where
  | read0 | read1 | pageprog | readoob | erase1 | status | seqin | erase2 | reset

/-- `ADDR_PAGE`, `ADDR_COLUMN_PAGE` -/
inductive Addr where
  | page | columnPage

inductive Reg where
  | eccConf | cdsnControl | cdsnSlowIo | nop | ioreg | eccStatus
  | eccSyndrome (i : ℕ)

/-- A part of a buffer: the caller's, `eccbuf`, or `x` with the bytes of the spare area. -/
inductive Part where
  | buf (start len : ℕ)
  | eccbuf
  | spare (start len : ℕ)

inductive Op where
  | selectFloor (floor : ℤ)
  | selectChip (chip : ℤ)
  | command (command : NandCmd) (xtraflags : UInt8)
  | address (numbytes : Addr) (ofs : ℕ) (xtraflags1 xtraflags2 : UInt8)
  | writeDoc (d : UInt8) (reg : Reg)
  | readDoc (reg : Reg)
  | delay (cycles : ℕ)
  | readBuf (part : Part)
  | writeBuf (part : Part)
  | waitReady

/-- What the driver remembers, how many answers it had, and what it did. -/
structure State where
  curfloor : ℤ
  curchip : ℤ
  asked : ℕ
  log : List Op

namespace State

def does (s : State) (ops : List Op) : State := { s with log := s.log ++ ops }

/-- The chip is selected, if it is not the current one. -/
def select (s : State) (mychip : Nand) : State :=
  let s :=
    if s.curfloor ≠ mychip.floor then
      s.does [.selectFloor mychip.floor, .selectChip mychip.chip]
    else if s.curchip ≠ mychip.chip then s.does [.selectChip mychip.chip]
    else s
  { s with curfloor := mychip.floor, curchip := mychip.chip }

def ask (s : State) (answer : ℕ → UInt8) (ops : List Op) : UInt8 × State :=
  (answer s.asked, { s.does ops with asked := s.asked + 1 })

/-- `NAND_CMD_STATUS`: the chip reports an error. -/
def status (s : State) (answer : ℕ → UInt8) (xtraflags : UInt8) : Bool × State :=
  let r := s.ask answer
    [.command .status xtraflags, .readDoc .cdsnSlowIo, .delay 2, .readDoc .ioreg]
  (r.1 &&& 1 ≠ 0, r.2)

end State

/-- A call: its result, `*retlen`, and the state. -/
structure Call where
  ret : ℕ
  retlen : ℕ
  state : State

def shr (val : ℤ) (shift : ℕ) : ℤ := int32 val >>> shift

namespace DiskOnChip

variable (answer : ℕ → UInt8) (d : DiskOnChip)

def totlen : ℕ := d.chips.length * 2 ^ d.chipshift

def erasesize : ℕ := 2 ^ d.eraseshift

/-- `this->chips[shr(ofs, this->chipshift)]` -/
def chipAt (ofs : ℕ) : Except Oob Nand := descriptor d.chips (shr ofs d.chipshift)

def readCmd (ofs : ℕ) : NandCmd := if !d.page256 && ofs &&& 0x100 ≠ 0 then .read1 else .read0

/-- The bytes in front of the second of two pages of 256 bytes. -/
def len256 (ofs len : ℕ) : ℕ :=
  if d.page256 ∧ (ofs ||| 0xff) + 1 < ofs + len then (ofs ||| 0xff) + 1 - ofs else 0

/-- The ECC logic behind a read. A first answer is the status; a second one stands for
`doc_decode_ecc`, and is not 0 for errors it cannot correct. -/
def readEccStatus (s : State) : ℕ × State :=
  let reg : Reg := if d.millennium then .eccConf else .eccStatus
  let i := (s.does [.readBuf .eccbuf]).ask answer [.readDoc reg, .readDoc reg, .readDoc reg]
  let r :=
    if i.1 &&& 0x80 ≠ 0 then
      let nb := i.2.ask answer ((List.range 6).map fun i => .readDoc (.eccSyndrome i))
      (if nb.1 ≠ 0 then docEecc else 0, nb.2)
    else (0, i.2)
  (r.1, r.2.does [.writeDoc eccDis .eccConf])

/-- `doc_read_ecc` from where the chip is known, for a length that is cut. -/
def readPage (ofs len buf : ℕ) (eccbuf : Bool) (mychip : Nand) (s : State) : Call :=
  let len256 := d.len256 ofs len
  let s := (s.select mychip).does
    (([.command (d.readCmd ofs) ctrlWp, .address .columnPage ofs ctrlWp ctrlEccIo,
      .writeDoc eccReset .eccConf, .writeDoc (if eccbuf then eccEn else eccDis) .eccConf] :
        List Op) ++
    (if len256 ≠ 0 then ([.readBuf (.buf buf len256), .command .read0 ctrlWp,
      .address .columnPage (ofs + len256) ctrlWp ctrlEccIo] : List Op) else []) ++
    ([.readBuf (.buf (buf + len256) (len - len256))] : List Op))
  let r := if eccbuf then d.readEccStatus answer s else (0, s)
  ⟨r.1, len, if (ofs + len) &&& 0x1ff = 0 then r.2.does [.waitReady] else r.2⟩

def docReadEcc (ofs len buf : ℕ) (eccbuf : Bool) (s : State) : Except Oob Call :=
  if d.totlen ≤ ofs then .ok ⟨docEinval, 0, s⟩
  else do
    let mychip ← d.chipAt ofs
    return d.readPage answer ofs (Doc.chunk ofs len) buf eccbuf mychip s

/-- The pages of 256 bytes: where the spare area of 8 bytes starts. -/
def oobOfs (ofs : ℕ) : ℕ :=
  if d.page256 then if ofs &&& 8 = 0 then ofs + 0x100 else ofs - 8 else ofs

/-- The first part of the spare area, and whether it failed. -/
def writeOobFirst (ofs len256 : ℕ) (s : State) : Bool × State :=
  if len256 = 0 then (false, s)
  else
    let r := (s.does [.writeBuf (.spare 0 len256), .command .pageprog 0]).status answer 0
    (r.1, if r.1 then r.2
      else r.2.does [.command .seqin 0, .address .columnPage (ofs - ofs % 0x200) 0 0])

/-- `doc_write_oob`, of the 8 bytes in `x`. -/
def docWriteOob (ofs : ℕ) (s : State) : Except Oob (ℕ × State) :=
  (d.chipAt ofs).map fun mychip =>
    let ofs := d.oobOfs ofs
    let len256 := if d.page256 ∧ (ofs ||| 7) + 1 < ofs + 8 then (ofs ||| 7) + 1 - ofs else 0
    let first := writeOobFirst answer ofs len256 ((s.select mychip).does
      [.writeDoc eccReset .eccConf, .writeDoc eccDis .eccConf, .command .reset ctrlWp,
        .command .readoob ctrlWp, .command .seqin 0, .address .columnPage ofs 0 0])
    if first.1 then (docEio, first.2)
    else
      let r := (first.2.does [.writeBuf (.spare len256 (8 - len256)),
        .command .pageprog 0]).status answer 0
      (if r.1 then docEio else 0, r.2)

/-- The first of two pages of 256 bytes, if there are two, and whether it failed. -/
def writeFirst (ofs len buf : ℕ) (eccbuf : Bool) (mychip : Nand) (s : State) : Bool × State :=
  let len256 := d.len256 ofs len
  let s := (s.select mychip).does
    [.command .reset ctrlWp, .command (d.readCmd ofs) ctrlWp, .command .seqin 0,
      .address .columnPage ofs 0 ctrlEccIo, .writeDoc eccReset .eccConf,
      .writeDoc (if eccbuf then eccEn ||| eccRw else eccDis) .eccConf]
  if len256 = 0 then (false, s)
  else
    let r := (s.does [.writeBuf (.buf buf len256), .command .pageprog 0]).status answer ctrlWp
    (r.1, if r.1 then r.2
      else r.2.does [.command .seqin 0, .address .columnPage (ofs + len256) 0 ctrlEccIo])

/-- What is left of the sector, with the ECC read into `eccbuf`, and whether it failed. -/
def writeRest (ofs len buf : ℕ) (eccbuf : Bool) (s : State) : Bool × State :=
  let len256 := d.len256 ofs len
  let nopReg : Reg := if d.millennium then .nop else .ioreg
  (s.does (([.writeBuf (.buf (buf + len256) (len - len256))] : List Op) ++
    (if eccbuf then
      ([.writeDoc (ctrlEccIo ||| ctrlCe) .cdsnControl, .writeDoc 0 nopReg, .writeDoc 0 nopReg,
        .writeDoc 0 nopReg] : List Op) ++
      (List.range 6).map (fun di => Op.readDoc (.eccSyndrome di)) ++
      ([.writeDoc eccDis .eccConf] : List Op) else []) ++
    ([.command .pageprog 0] : List Op))).status answer ctrlWp

/-- `doc_write_ecc` from where the chip is known, for a length that is cut. -/
def writePage (ofs len buf : ℕ) (eccbuf : Bool) (mychip : Nand) (s : State) : Except Oob Call :=
  let first := d.writeFirst answer ofs len buf eccbuf mychip s
  if first.1 then .ok ⟨docEio, 0, first.2⟩
  else
    let r := d.writeRest answer ofs len buf eccbuf first.2
    if r.1 then .ok ⟨docEio, 0, r.2⟩
    else if eccbuf then (d.docWriteOob answer ofs r.2).map fun o => ⟨o.1, len, o.2⟩
    else .ok ⟨0, len, r.2⟩

def docWriteEcc (ofs len buf : ℕ) (eccbuf : Bool) (s : State) : Except Oob Call :=
  if d.totlen ≤ ofs then .ok ⟨docEinval, 0, s⟩
  else do
    let mychip ← d.chipAt ofs
    d.writePage answer ofs (Doc.chunk ofs len) buf eccbuf mychip s

/-- `doc_read_ecc` or `doc_write_ecc` -/
def access (cmd : Bool) (ofs len buf : ℕ) (eccbuf : Bool) (s : State) : Except Oob Call :=
  if cmd then d.docReadEcc answer ofs len buf eccbuf s
  else d.docWriteEcc answer ofs len buf eccbuf s

section
variable {answer d} {cmd : Bool} {ofs len buf : ℕ} {eccbuf : Bool} {mychip : Nand} {s : State}
  {r : Call}

theorem writePage_retlen (h : d.writePage answer ofs len buf eccbuf mychip s = .ok r)
    (hret : r.ret = 0) : r.retlen = len := by
  have hfail {s : State} (h : Except.ok (ε := Oob) ⟨docEio, 0, s⟩ = .ok r) : r.retlen = len := by
    cases h
    cases hret
  rw [writePage] at h
  dsimp only at h
  split_ifs at h
  · exact hfail h
  · exact hfail h
  · cases hoob : d.docWriteOob answer ofs _ with
    | error e =>
      rw [hoob] at h
      cases h
    | ok o =>
      rw [hoob] at h
      cases h
      rfl
  · cases h
    rfl

theorem access_retlen (h : d.access answer cmd ofs len buf eccbuf s = .ok r) (hret : r.ret = 0) :
    r.retlen = Doc.chunk ofs len := by
  have hend {s : State} (h : Except.ok (ε := Oob) ⟨docEinval, 0, s⟩ = .ok r) :
      r.retlen = Doc.chunk ofs len := by
    cases h
    cases hret
  rw [access, docReadEcc, docWriteEcc] at h
  split_ifs at h
  · exact hend h
  · obtain ⟨mychip, -, hr⟩ := bind_eq_ok.mp h
    cases hr
    rfl
  · exact hend h
  · obtain ⟨mychip, -, hr⟩ := bind_eq_ok.mp h
    exact writePage_retlen hr hret

end

end DiskOnChip

/-- A chunk of a transfer: the length it is cut to, whether `eccbuf` is passed, and the result. -/
structure Chunk where
  ofs : ℕ
  len : ℕ
  ecc : Bool
  ret : ℕ

/-- What `doc_rw` leaves, and its chunks. -/
structure Transfer where
  ret : ℕ
  retlen : ℕ
  chunks : List Chunk
  state : State

/-- What `doc_erase` leaves, and the blocks that were erased without an error. -/
structure Erasure where
  ret : ℕ
  erased : List ℕ
  state : State

namespace DiskOnChip

variable (answer : ℕ → UInt8) (d : DiskOnChip)

/-- `doc_rw`; `cmd` for reading. -/
def docRw (cmd : Bool) (ofs len buf : ℕ) (s : State) : Except Oob Transfer :=
  if hlen : len = 0 then .ok ⟨0, 0, [], s⟩
  else
    let noecc := decide (ofs ≠ (ofs ||| 0x1ff) + 1 ∨ len < 0x200)
    match h : d.access answer cmd ofs len buf (!noecc) s with
    | .error e => .error e
    | .ok r =>
      let c : Chunk := ⟨ofs, Doc.chunk ofs len, !noecc, r.ret⟩
      if hret : r.ret = 0 then
        (docRw cmd (ofs + r.retlen) (len - r.retlen) (buf + r.retlen) r.state).map fun t =>
          { t with retlen := r.retlen + t.retlen, chunks := c :: t.chunks }
      else .ok ⟨r.ret, 0, [c], r.state⟩
  termination_by len
  decreasing_by
    rw [access_retlen h hret, Doc.chunk_eq]
    omega

/-- The loop of `doc_erase`. After an error it goes to `callback`. -/
def eraseLoop (ofs len : ℕ) (s : State) : Except Oob Erasure :=
  if len = 0 then .ok ⟨0, [], s⟩
  else do
    let mychip ← d.chipAt ofs
    let r := ((s.select mychip).does [.command .erase1 0, .address .page ofs 0 0,
      .command .erase2 0]).status answer ctrlWp
    if r.1 then return ⟨0, [], r.2⟩
    else
      (eraseLoop (ofs + d.erasesize) (len - d.erasesize) r.2).map fun e =>
        { e with erased := ofs :: e.erased }
  termination_by len
  decreasing_by exact Nat.sub_lt (Nat.pos_of_ne_zero ‹_›) (Nat.two_pow_pos d.eraseshift)

def docErase (ofs len : ℕ) (s : State) : Except Oob Erasure :=
  if ofs &&& (d.erasesize - 1) ≠ 0 ∨ len &&& (d.erasesize - 1) ≠ 0 then .ok ⟨docEinval, [], s⟩
  else d.eraseLoop answer ofs len s

end DiskOnChip

end UBoot.Doc
