import UBoot.Flash.Write
import UBoot.Lib.Mem32
import UBoot.Srec.Decode

/-!
# S-record download and upload (`common/cmd_boot.c`)

The characters received are a list, those sent are appended to one. `readRecord` and
`loadLoop` answer `none` where the code waits for a character that never comes.

* `hangup input`: with `input` still to come, the console is not the serial line and
  `ctrlc ()` answers there (`read_record`).
* `ctrlc out`: `ctrlc ()` answers after the characters `out` were sent (`write_record`).
* `writeBuff`: the board's flash driver.

A negative `binlen` reaches `memcpy` and `flash_write` as a huge size (`Oob.write`). The echo
of what is received, the progress dots and the messages are left out.
-/

namespace UBoot.Srec

open UBoot.Lib UBoot.Common UBoot.Flash

def srecMaxRecLen : Nat := 512 + 4

def srecBytesPerRecord : Nat := 16

/-- `read_record` with room for `len` more characters behind `buf`: the line, or -1 (`none`),
and the characters left. -/
def readRecord (hangup : List UInt8 → Bool) :
    Nat → List UInt8 → List UInt8 → Option (Option (List UInt8) × List UInt8)
  | 0, input, buf => some (some buf, input)
  | _ + 1, [], _ => none
  | len + 1, c :: input, buf =>
    if c = 13 ∨ c = 10 then some (some buf, input)
    else if c = 0 ∨ c = 3 then some (none, input)
    else if hangup input then some (none, input)
    else readRecord hangup len input (buf ++ [c])

/-- The locals of `load_serial` that outlive a record, the memory, and the `setenv` calls. -/
structure Load where
  mem : Mem32
  startAddr : UInt32
  endAddr : UInt32
  setenv : List (List UInt8 × List UInt8)

/-- The data case of `load_serial`: the result of `flash_write`, 0 outside the flash. -/
def storeRecord (flashInfo : List FlashInfo)
    (writeBuff : Nat → List UInt8 → UInt32 → Mem32 → Int × Mem32) (l : Load)
    (storeAddr : UInt32) (binbuf : List UInt8) : Int × Load :=
  let (rc, mem) :=
    match addr2info flashInfo storeAddr with
    | some _ => flashWrite flashInfo writeBuff binbuf storeAddr l.mem
    | none => (0, l.mem.store storeAddr binbuf)
  if rc ≠ 0 then (rc, { l with mem := mem })
  else
    let last := storeAddr + UInt32.ofNat binbuf.length - 1
    (0, { l with
      mem := mem
      startAddr := if storeAddr < l.startAddr then storeAddr else l.startAddr
      endAddr := if last > l.endAddr then last else l.endAddr })

section
variable (hangup : List UInt8 → Bool) (flashInfo : List FlashInfo)
  (writeBuff : Nat → List UInt8 → UInt32 → Mem32 → Int × Mem32)

/-- The loop of `load_serial`, with fuel for one record each turn: the result (`~0` after an
error or an abort), the state and the characters left. -/
def loadLoop (offset : UInt32) :
    Nat → List UInt8 → Load → Except Oob (Option (UInt32 × Load × List UInt8))
  | 0, _, _ => .ok none
  | fuel + 1, input, l =>
    match readRecord hangup srecMaxRecLen input [] with
    | none => .ok none
    | some (none, input) => .ok (some (~~~0, l, input))
    | some (some record, input) =>
      match srecDecode record with
      | .error _ => .ok (some (~~~0, l, input))
      | .ok r =>
        match r.type with
        | .data2 | .data3 | .data4 =>
          if r.count < 0 then .error .write
          else
            let (rc, l) := storeRecord flashInfo writeBuff l (r.addr + offset) r.data
            if rc ≠ 0 then .ok (some (~~~0, l, input))
            else loadLoop offset fuel input l
        | .end2 | .end3 | .end4 =>
          let size := l.endAddr - l.startAddr + 1
          .ok (some (r.addr, { l with setenv := l.setenv ++ [(ascii "filesize", fmtX size.toNat)] },
            input))
        | .start | .count | .empty => loadLoop offset fuel input l

def loadSerial (offset : UInt32) (input : List UInt8) (mem : Mem32) :
    Except Oob (Option (UInt32 × Load × List UInt8)) :=
  loadLoop hangup flashInfo writeBuff offset (input.length + 1) input
    ⟨mem, ~~~0, 0, []⟩

end

/-- `write_record`: the result is -1 when the user aborts. -/
def writeRecord (ctrlc : List UInt8 → Bool) (out buf : List UInt8) : Int × List UInt8 :=
  (if ctrlc (out ++ buf) then -1 else 0, out ++ buf)

/-- The text of a data record from the digits in `data`, the length and the bytes summed up in
`checksum`. -/
def recordText (address : UInt32) (reclen : Nat) (checksum : UInt32) (data : List UInt8) :
    List UInt8 :=
  let length := UInt32.ofNat (4 + reclen + 1)
  let checksum := (List.range 2).foldl (fun sum i =>
    sum + ((length >>> UInt32.ofNat (8 * i)) &&& 0xff)) checksum
  let checksum := (List.range 4).foldl (fun sum i =>
    sum + ((address >>> UInt32.ofNat (8 * i)) &&& 0xff)) checksum
  let checksum := ~~~checksum &&& 0xff
  ascii "S3" ++ fmtPad 2 length.toNat ++ fmtPad 8 address.toNat ++ data ++
    fmtPad 2 checksum.toNat ++ [10]

/-- The loop of `save_serial` with `count` bytes to go. -/
def saveLoop (ctrlc : List UInt8 → Bool) (mem : Mem32) :
    Nat → UInt32 → Nat → UInt32 → List UInt8 → List UInt8 → Int × List UInt8
  | 0, _, _, _, _, out => (0, out)
  | count + 1, address, reclen, checksum, data, out =>
    let c := mem (address + UInt32.ofNat reclen)
    let checksum := checksum + c.toUInt32
    let data := data ++ [hexChar ((c >>> 4) &&& 0x0f).toNat, hexChar (c &&& 0x0f).toNat]
    let reclen := reclen + 1
    if reclen = srecBytesPerRecord ∨ count = 0 then
      let (rc, out) := writeRecord ctrlc out (recordText address reclen checksum data)
      if rc ≠ 0 then (-1, out)
      else saveLoop ctrlc mem count (address + UInt32.ofNat reclen) 0 0 [] out
    else saveLoop ctrlc mem count address reclen checksum data out

/-- `save_serial`: the result and the characters sent. -/
def saveSerial (ctrlc : List UInt8 → Bool) (mem : Mem32) (address count : UInt32) :
    Int × List UInt8 :=
  let (rc, out) := writeRecord ctrlc [] (ascii "S0030000FC\n")
  if rc ≠ 0 then (-1, out)
  else
    let (rc, out) := saveLoop ctrlc mem count.toNat address 0 0 [] out
    if rc ≠ 0 then (-1, out)
    else
      let (rc, out) := writeRecord ctrlc out (ascii "S70500000000FA\n")
      if rc ≠ 0 then (-1, out) else (0, out)

end UBoot.Srec
