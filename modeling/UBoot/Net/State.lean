import UBoot.Flash.Write
import UBoot.Lib.Mem32

/-!
# The globals of the network code (`net/net.c`)

`Globals` holds the globals of `net.c` and the variables of the protocols, those of one file
in a record of their own. The two callbacks are enumerations of the functions they can point to. IP
addresses and ports are the numbers they stand for, whatever the byte order of the CPU.

`sent` and `stores` record, newest first, the packets handed to `eth_send` and the calls of
`store_block`. Timeout values are left out: while a timeout handler is set, a timeout may
come at any time. Console output is left out.
-/

namespace UBoot.Net

open UBoot.Lib

structure Board where
  /-- the byte order of the CPU -/
  bigEndian : Bool
  /-- `CONFIG_NET_MULTI` -/
  netMulti : Bool
  /-- `CFG_CMD_DHCP` -/
  cmdDhcp : Bool
  /-- `CONFIG_NET_RETRY_COUNT` -/
  netRetryCount : Option Nat
  /-- `CFG_DIRECT_FLASH_TFTP`: `flash_info` -/
  directFlash : Option (List Flash.FlashInfo)
  /-- `CFG_BOOTFILE_PREFIX` -/
  bootfilePrefix : Option (List UInt8)

/-- What a function learns from outside while it handles one frame or timeout. -/
structure Ext where
  /-- `get_timer (0)` -/
  timer : Nat
  /-- `write_buff` of the board: its result and the memory it leaves -/
  writeBuff : Nat → List UInt8 → UInt32 → Mem32 → Int × Mem32
  /-- `NetRestartWrap` after `eth_try_another` -/
  netRestartWrap : Bool
  /-- `getenv ("autoload")` begins with `n` -/
  autoloadNo : Bool
  /-- how many options `DhcpMessageType` looks at; it may run on behind the packet -/
  scan : Nat

/-- The functions `packetHandler` points to. -/
inductive Handler where
  | arp
  | rarp
  | bootp
  | dhcp
  | tftp
  | startAgain
  deriving DecidableEq

/-- The functions `timeHandler` points to. -/
inductive TimeHandler where
  | arp
  | rarp
  | bootp
  | tftp
  | startAgain
  deriving DecidableEq

/-- `NETLOOP_CONTINUE`, … -/
inductive NetLoopState where
  | continue
  | restart
  | success
  | fail
  deriving DecidableEq

/-- `STATE_RRQ`, … of `tftp.c` -/
inductive TftpState where
  | rrq
  | data
  | tooLarge
  | badMagic
  deriving DecidableEq

/-- `dhcp_state_t` -/
inductive DhcpState where
  | init
  | initReboot
  | rebooting
  | selecting
  | requesting
  | rebinding
  | bound
  | renewing
  deriving DecidableEq

inductive TftpMsg where
  | rrq (filename : List UInt8)
  | ack (block : Nat)
  | error (code : Nat) (text : String)
  deriving DecidableEq

/-- The packets we send, less our own addresses and the time. Of a DHCPREQUEST the options in front
of the parameter request list. -/
inductive Out where
  | arpRequest (target : UInt32)
  | arpReply (ether targetEther : List UInt8) (target : UInt32)
  | rarpRequest
  | bootpRequest (id : UInt32) (file : List UInt8)
  | dhcpRequest (id ciaddr yiaddr siaddr giaddr : UInt32) (options : List (UInt8 × List UInt8))
  | tftp (ether : List UInt8) (ip : UInt32) (dport sport : Nat) (msg : TftpMsg)
  deriving DecidableEq

/-- A call of `store_block`: its block argument, the address and the bytes. -/
structure Store where
  block : UInt32
  addr : UInt32
  src : List UInt8

/-- Addresses and names of `net.c`: what the environment, BOOTP, DHCP or RARP configure. -/
structure Params where
  netOurEther : List UInt8
  netServerEther : List UInt8
  netOurIP : UInt32
  netServerIP : UInt32
  netOurGatewayIP : UInt32
  netOurSubnetMask : UInt32
  netOurDNSIP : UInt32
  netOurHostName : List UInt8
  netOurRootPath : List UInt8
  netOurNISDomain : List UInt8
  netBootFileSize : Nat
  bootFile : List UInt8

/-- The variables of `bootp.c`. -/
structure BootpVars where
  bootpID : UInt32
  bootpTry : Nat
  dhcpState : DhcpState
  dhcpLeasetime : UInt32

/-- The variables of `tftp.c`. -/
structure TftpVars where
  serverPort : Nat
  ourPort : Nat
  timeoutCount : Nat
  block : UInt32
  lastBlock : UInt32
  state : TftpState
  filename : List UInt8

structure Globals where
  params : Params
  netState : NetLoopState
  netBootFileXferSize : UInt32
  netDevExists : Bool
  loadAddr : UInt32
  packetHandler : Option Handler
  timeHandler : Option TimeHandler
  arpTry : Nat
  rarpTry : Nat
  bootp : BootpVars
  tftp : TftpVars
  mem : Mem32
  stores : List Store
  sent : List Out

def netSetHandler (f : Handler) (s : Globals) : Globals := { s with packetHandler := some f }

/-- `NetSetTimeout` with a time that is not 0. -/
def netSetTimeout (f : TimeHandler) (s : Globals) : Globals := { s with timeHandler := some f }

def netSendPacket (p : Out) (s : Globals) : Globals := { s with sent := p :: s.sent }

def netStartAgain (b : Board) (x : Ext) (s : Globals) : Globals :=
  let wait := netSetHandler .startAgain (netSetTimeout .startAgain s)
  if !b.netMulti then wait
  else if x.netRestartWrap then
    if s.netDevExists then wait else { s with netState := .fail }
  else { s with netState := .restart }

/-- `TIMEOUT_COUNT` of `arp.c`, `rarp.c` and `bootp.c` -/
def Board.timeoutCount (b : Board) : Nat := b.netRetryCount.getD 5

/-! ## Bytes of a packet -/

/-- The bytes at a packet pointer; a read behind the packet finds what memory holds there. -/
abbrev Bytes := Nat → UInt8

/-- A 16-bit field, as `ntohs` gives it. -/
def be16 (p : Bytes) (i : Nat) : Nat := (p i).toNat * 256 + (p (i + 1)).toNat

def be32 (p : Bytes) (i : Nat) : UInt32 := UInt32.ofNat (be16 p i * 65536 + be16 p (i + 2))

/-- `n` bytes from index `i` on. -/
def bytesAt (p : Bytes) (i n : Nat) : List UInt8 := (List.range n).map fun j => p (i + j)

def ofList (l : List UInt8) : Bytes := fun i => l.getD i 0

theorem be16_lt (p : Bytes) (i : Nat) : be16 p i < 65536 := by
  have h₁ := (p i).toNat_lt
  have h₂ := (p (i + 1)).toNat_lt
  unfold be16
  omega

@[simp] theorem length_bytesAt (p : Bytes) (i n : Nat) : (bytesAt p i n).length = n := by
  simp [bytesAt]

def netBcastAddr : List UInt8 := List.replicate 6 0xff

/-! ## A plain configuration -/

/-- A PowerPC board that sets none of the options. -/
def Board.plain : Board := ⟨true, false, false, none, none, none⟩

/-- `write_buff` writes what it is given. -/
def Ext.plain : Ext := ⟨0, fun _ data addr m => (0, m.store addr data), false, false, 0⟩

/-- Everything cleared, `NetServerEther` as the program starts with it. -/
def Globals.plain : Globals where
  params := ⟨[2, 0, 0, 0, 0, 1], netBcastAddr, 0, 0, 0, 0, 0, [], [], [], 0, [102]⟩
  netState := .continue
  netBootFileXferSize := 0
  netDevExists := false
  loadAddr := 0x100000
  packetHandler := none
  timeHandler := none
  arpTry := 0
  rarpTry := 0
  bootp := ⟨0, 0, .init, 0⟩
  tftp := ⟨0, 0, 0, 0, 0, .rrq, []⟩
  mem := fun _ => 0
  stores := []
  sent := []

end UBoot.Net
