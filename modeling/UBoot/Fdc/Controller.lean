import Mathlib.Logic.Function.Basic
import Mathlib.Data.Nat.Notation

/-!
# The floppy disk controller: `fdc_read_data` (`common/cmd_fdc.c`)

A controller is what comes of the commands it gets, one after the other: whether the bytes went
through the FIFO, the bytes of the result, and, for a READ, how many bytes are transferred before
an error. The waits for a byte and for an interrupt are not modelled. Block numbers and lengths do
not overflow.
-/

namespace UBoot.Fdc

/-- `FD_GEO_STRUCT`, as far as it is used here. -/
structure Geo where
  /-- sectors per track -/
  sect : ℕ
  /-- heads -/
  head : ℕ
  gap : UInt8
  spec1 : UInt8
  hlt : UInt8
  sectCode : UInt8
  sect_pos : 0 < sect
  head_pos : 0 < head

def Geo.sectSize (geo : Geo) : ℕ := 0x80 <<< geo.sectCode.toNat

/-- `FDC_COMMAND_STRUCT` -/
structure Command where
  blnr : ℕ
  drive : UInt8
  cmdlen : ℕ
  cmd : ℕ → UInt8
  dma : UInt8
  result : ℕ → UInt8
  resultlen : ℕ

def Command.set (c : Command) (i : ℕ) (val : UInt8) : Command :=
  { c with cmd := Function.update c.cmd i val }

/-! `COMMAND`, `DRIVE`, `TRACK`, …, the places in `cmd` -/

abbrev iCommand : ℕ := 0
abbrev iDrive : ℕ := 1
abbrev iTrack : ℕ := 2
abbrev iHead : ℕ := 3
abbrev iSector : ℕ := 4

/-- `FDC_CMD_READ`, … -/
def cmdSpecify : UInt8 := 0x03
def cmdRead : UInt8 := 0x06
def cmdRecalibrate : UInt8 := 0x07
def cmdSenseInt : UInt8 := 0x08
def cmdReadId : UInt8 := 0x0a
def cmdDumpReg : UInt8 := 0x0e
def cmdSeek : UInt8 := 0x0f
def cmdConfigure : UInt8 := 0x13

def fdcConfigure : UInt8 := 0x4c
def mfmMode : UInt8 := 0x40

/-- `FDC_RW_RETRIES`, `FDC_CAL_RETRIES` -/
def rwRetries : ℕ := 3
def calRetries : ℕ := 3

/-- What comes of a command. For a READ `good` bytes of `data` are transferred before an error. -/
structure Outcome where
  ok : Bool
  result : ℕ → UInt8
  good : ℕ
  data : ℕ → UInt8

/-- The command structure, the buffer, the Digital Output Register, whether interrupts are enabled,
and the number of commands so far. -/
structure State where
  c : Command
  mem : ℕ → UInt8
  dor : UInt8
  intr : Bool
  used : ℕ

/-- The start of `fdc_issue_cmd`: drive, head and track of the block. -/
def address (geo : Geo) (c : Command) : Command :=
  let track := c.blnr / (geo.sect * geo.head)
  let head := c.blnr % (geo.sect * geo.head) / geo.sect
  ((c.set iDrive (if head ≠ 0 then c.drive ||| 0x04 else c.drive)).set iHead
    (UInt8.ofNat head)).set iTrack (UInt8.ofNat track)

/-- The `switch` of `fdc_issue_cmd`: the bytes and the lengths of a command. -/
def prepare (geo : Geo) (sect : ℕ) (c : Command) : Command :=
  if c.cmd iCommand = cmdRead then
    { (((((c.set iSector (UInt8.ofNat sect)).set 5 geo.sectCode).set 6
      (UInt8.ofNat geo.sect)).set 7 geo.gap).set 8 0xff).set iCommand
      (c.cmd iCommand ||| mfmMode) with cmdlen := 9, resultlen := 0 }
  else if c.cmd iCommand = cmdSeek then { c with cmdlen := 3, resultlen := 0 }
  else if c.cmd iCommand = cmdConfigure then
    { ((c.set 1 0).set 2 fdcConfigure).set 3 0 with cmdlen := 4, resultlen := 0 }
  else if c.cmd iCommand = cmdSpecify then
    { (c.set 1 geo.spec1).set 2 (if c.dma = 0 then geo.hlt <<< 1 ||| 1 else geo.hlt <<< 1) with
      cmdlen := 3, resultlen := 0 }
  else if c.cmd iCommand = cmdDumpReg then { c with cmdlen := 1, resultlen := 10 }
  else if c.cmd iCommand = cmdReadId then
    { c.set iCommand (c.cmd iCommand ||| mfmMode) with cmdlen := 2, resultlen := 7 }
  else if c.cmd iCommand = cmdRecalibrate then
    { c.set iDrive (c.cmd iDrive &&& 0x03) with cmdlen := 2, resultlen := 0 }
  else if c.cmd iCommand = cmdSenseInt then { c with cmdlen := 1, resultlen := 2 }
  else c

/-- `fdc_issue_cmd`, up to the bytes it writes. -/
def setup (geo : Geo) (c : Command) : Command :=
  prepare geo (c.blnr % (geo.sect * geo.head) % geo.sect + 1) (address geo c)

/-- A READ that is completed: its command bytes, its blocks, and the data that came. -/
structure Read where
  cmd : ℕ → UInt8
  blocks : ℕ
  data : ℕ → UInt8

/-- What `fdc_read_data` returns, its completed READs, and the state. -/
structure Run where
  ret : Bool
  reads : List Read
  state : State

namespace State

variable (geo : Geo) (outcome : ℕ → Outcome) (s : State)

/-- The command is set and issued. If it fails, the result is not looked at. -/
def issue (command : UInt8) : Bool × State :=
  let c := setup geo (s.c.set iCommand command)
  let o := outcome s.used
  (o.ok, { s with
    c := { c with result := fun i => if o.ok ∧ i < c.resultlen then o.result i else c.result i }
    used := s.used + 1 })

/-- A command that moves the head, and `FDC_CMD_SENSE_INT` behind it. -/
def move (command : UInt8) : Bool × State :=
  let r := s.issue geo outcome command
  if r.1 then r.2.issue geo outcome cmdSenseInt else r

def fdcRecalibrate : Bool × State := s.move geo outcome cmdRecalibrate
def fdcSeek : Bool × State := s.move geo outcome cmdSeek

/-- `select_fdc_drive` -/
def selectDrive : State :=
  let val := UInt8.ofNat (1 <<< (4 + s.c.drive.toNat)) ||| s.c.drive ||| 0x0c
  if s.dor &&& val ≠ val then { s with dor := val } else s

/-- `stop_fdc_drive` -/
def stopDrive : State :=
  { s with dor := s.dor &&& ~~~(UInt8.ofNat (1 <<< (4 + s.c.drive.toNat)) ||| s.c.drive) }

/-- The drive is stopped, and interrupts are enabled. -/
def quit : State := { s.stopDrive with intr := true }

/-- `n` bytes come into the buffer. -/
def receive (offset n : ℕ) (data : ℕ → UInt8) : State :=
  { s with mem := fun j => if offset ≤ j ∧ j < offset + n then data (j - offset) else s.mem j }

/-- The last 7 bytes before an error are taken for the result. -/
def salvage (offset n : ℕ) : State :=
  if 6 < n then
    { s with c := { s.c with
        result := fun ii => if ii < 7 then s.mem (offset + n - 7 + ii) else s.c.result ii } }
  else s

/-- `fdc_terminate` -/
def terminate (result : ℕ → UInt8) : State :=
  { s with c := { s.c with result := fun i => if i < 7 then result i else s.c.result i } }

def advance (readblk : ℕ) : State := { s with c := { s.c with blnr := s.c.blnr + readblk } }

/-- The seek of the loop. Without the bit for its end in the status the function returns. -/
def loopSeek : Except State State :=
  let r := s.fdcSeek geo outcome
  if ¬ r.1 then .error r.2.quit
  else if r.2.c.result 0 &&& 0x20 ≠ 0x20 then .error r.2.stopDrive
  else .ok r.2

end State

section
variable (geo : Geo) (outcome : ℕ → Outcome)

/-- The READ of `readblk` blocks with its retries, from `retryrw` on: the function returns, or the
READ is completed. -/
def readChunk (offset readblk retriesrw retriescal : ℕ) (s : State) :
    Except State (Read × ℕ × ℕ × State) :=
  let len := geo.sectSize * readblk
  let o := outcome s.used
  let r := s.issue geo outcome cmdRead
  if ¬ r.1 then .error r.2.quit
  else if o.good < len then
    let s := (r.2.receive offset o.good o.data).salvage offset o.good
    if rwRetries < retriesrw then
      if calRetries < retriescal then .error s.quit
      else
        let r := s.fdcRecalibrate geo outcome
        if ¬ r.1 then .error r.2.quit
        else
          match r.2.loopSeek geo outcome with
          | .error s => .error s
          | .ok s => readChunk offset readblk 0 (retriescal + 1) s
    else readChunk offset readblk (retriesrw + 1) retriescal s
  else
    .ok (⟨r.2.c.cmd, readblk, o.data⟩, retriesrw, retriescal,
      (r.2.receive offset len o.data).terminate o.result)
  termination_by (calRetries + 1 - retriescal, rwRetries + 1 - retriesrw)

def chunkLoop (blocks readblk : ℕ) (_hpos : 0 < readblk) (offset retriesrw retriescal : ℕ)
    (s : State) : Run :=
  match readChunk geo outcome offset readblk retriesrw retriescal s with
  | .error s => ⟨false, [], s⟩
  | .ok (read, retriesrw, retriescal, s) =>
    let s := s.advance readblk
    if hdone : blocks - readblk = 0 then ⟨true, [read], s.quit⟩
    else
      match s.loopSeek geo outcome with
      | .error s => ⟨false, [read], s⟩
      | .ok s =>
        let r := chunkLoop (blocks - readblk) (min geo.sect (blocks - readblk))
          (Nat.lt_min.mpr ⟨geo.sect_pos, Nat.pos_of_ne_zero hdone⟩)
          (offset + geo.sectSize * readblk) retriesrw retriescal s
        { r with reads := read :: r.reads }
  termination_by blocks

/-- `fdc_read_data`, of at least one block. -/
def fdcReadData (blocks : ℕ) (hpos : 0 < blocks) (s : State) : Run :=
  -- the flags that `disable_interrupts` returns are not used
  let s := { s with intr := false }.selectDrive
  let r := s.fdcSeek geo outcome
  if ¬ r.1 then ⟨false, [], r.2.quit⟩
  else if r.2.c.result 0 &&& 0x20 ≠ 0x20 then ⟨false, [], r.2.quit⟩
  else
    chunkLoop geo outcome blocks (min (geo.sect - r.2.c.blnr % geo.sect) blocks)
      (Nat.lt_min.mpr ⟨Nat.sub_pos_of_lt (Nat.mod_lt _ geo.sect_pos), hpos⟩) 0 0 0 r.2

end

end UBoot.Fdc
