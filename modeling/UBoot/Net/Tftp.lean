import UBoot.Net.State
import UBoot.Common.Strings

/-!
# TFTP (`net/tftp.c`)

The client: `store_block`, `TftpSend`, `TftpHandler`, `TftpTimeout`, `TftpStart`. A store
goes to memory or, with `CFG_DIRECT_FLASH_TFTP` and a target in flash, through
`flash_write`.
-/

namespace UBoot.Net

open UBoot.Lib UBoot.Common

abbrev wellKnownPort : Nat := 69

/-- `TIMEOUT_COUNT` of `tftp.c` -/
def Board.tftpTimeoutCount (b : Board) : Nat := (b.netRetryCount.map (· * 2)).getD 10

def Board.inFlash (b : Board) (addr : UInt32) : Bool :=
  (b.directFlash.getD []).any fun info => info.start 0 ≤ addr

def storeBlock (b : Board) (x : Ext) (block : UInt32) (src : List UInt8) (s : Globals) : Globals :=
  let offset := block * 512
  let newsize := offset + UInt32.ofNat src.length
  let addr := s.loadAddr + offset
  let s := { s with stores := ⟨block, addr, src⟩ :: s.stores }
  let (rc, mem) :=
    if b.inFlash addr then
      Flash.flashWrite (b.directFlash.getD []) x.writeBuff src addr s.mem
    else (0, s.mem.store addr src)
  let s := { s with mem }
  if rc ≠ 0 then { s with netState := .fail }
  else { s with
    netBootFileXferSize :=
      if s.netBootFileXferSize < newsize then newsize else s.netBootFileXferSize }

def tftpSend (s : Globals) : Globals :=
  let msg := match s.tftp.state with
    | .rrq => .rrq s.tftp.filename
    | .data => .ack (s.tftp.block.toNat % 65536)
    | .tooLarge => .error 3 "File too large"
    | .badMagic => .error 2 "File has bad magic"
  netSendPacket
    (.tftp s.params.netServerEther s.params.netServerIP s.tftp.serverPort s.tftp.ourPort msg) s

/-- A DATA block that is not the one before again: store it, acknowledge it, and end with a
short one. -/
def tftpAccept (b : Board) (x : Ext) (src : List UInt8) (s : Globals) : Globals :=
  let s := netSetTimeout .tftp { s with tftp := { s.tftp with lastBlock := s.tftp.block } }
  let s := tftpSend (storeBlock b x (s.tftp.block - 1) src s)
  if src.length < 512 then { s with netState := .success } else s

/-- The case `TFTP_DATA` of `TftpHandler`; `data` is what follows the block number. -/
def tftpData (b : Board) (x : Ext) (block : Nat) (src : Nat) (data : List UInt8) (s : Globals) :
    Globals :=
  let s := { s with tftp := { s.tftp with block := UInt32.ofNat block } }
  if s.tftp.state = .rrq then
    let s := { s with tftp := { s.tftp with state := .data, serverPort := src, lastBlock := 0 } }
    if block ≠ 1 then netStartAgain b x s
    else tftpAccept b x data s
  else if s.tftp.block = s.tftp.lastBlock then s
  else tftpAccept b x data s

def tftpHandler (b : Board) (x : Ext) (pkt : Bytes) (dest src len : Nat) (s : Globals) : Globals :=
  if dest ≠ s.tftp.ourPort then s
  else if s.tftp.state ≠ .rrq ∧ src ≠ s.tftp.serverPort then s
  else if len < 2 then s
  else
    match be16 pkt 0 with
    | 3 => if len < 4 then s else tftpData b x (be16 pkt 2) src (bytesAt pkt 4 (len - 4)) s
    | 5 => netStartAgain b x s
    | _ => s

def tftpTimeout (b : Board) (x : Ext) (s : Globals) : Globals :=
  let s := { s with tftp := { s.tftp with timeoutCount := s.tftp.timeoutCount + 1 } }
  if s.tftp.timeoutCount ≥ b.tftpTimeoutCount then netStartAgain b x s
  else tftpSend (netSetTimeout .tftp s)

/-- `%02lX` of a byte -/
def hexByte (c : UInt8) : List UInt8 :=
  let digit (d : UInt8) : UInt8 := if d < 10 then 48 + d else 55 + d
  [digit (c >>> 4), digit (c &&& 15)]

def defaultFilename (ourIP : UInt32) : List UInt8 :=
  hexByte ourIP.toUInt8 ++ hexByte (ourIP >>> 8).toUInt8 ++ hexByte (ourIP >>> 16).toUInt8 ++
    hexByte (ourIP >>> 24).toUInt8 ++ ascii ".img"

def tftpStart (x : Ext) (s : Globals) : Globals :=
  tftpSend { netSetHandler .tftp (netSetTimeout .tftp s) with
    tftp := { s.tftp with
      filename := if s.params.bootFile = [] then defaultFilename s.params.netOurIP
        else s.params.bootFile
      serverPort := wellKnownPort
      timeoutCount := 0
      state := .rrq
      ourPort := 1024 + x.timer % 3072 } }

end UBoot.Net
