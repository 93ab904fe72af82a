import UBoot.Net.Bootp
import UBoot.Lib.Runs

/-!
# `NetLoop` (`net/net.c`)

The network code as a machine that takes one event at a time: a command calls `NetLoop`, a
frame comes in, a timeout passes, `NetLoop` looks at `NetState`, or the user aborts. Several
frames may come in before `NetLoop` looks at `NetState`. Variables keep their values from one
`NetLoop` to the next; between two of them other commands may change the boot file, the load
address and the memory.
-/

namespace UBoot.Net

open UBoot.Lib

/-! ## Frames and timeouts -/

def callHandler (b : Board) (x : Ext) (f : Frame) (h : Handler) (c : RxCall) (s : Globals) :
    Option Globals :=
  let (pkt, dest, src, len) : Bytes × Nat × Nat × UInt32 := match c with
    | .wake => (fun _ => 0, 0, 0, 0)
    | .packet off dest src len => (fun i => f.bytes (off + i), dest, src, len)
  match h with
  | .arp => some (arpHandler x s)
  | .rarp => some (rarpHandler x s)
  | .bootp => some (bootpHandler x f pkt dest src len s)
  | .dhcp => dhcpHandler b x f pkt dest src len s
  | .tftp => some (tftpHandler b x pkt dest src len.toNat s)
  | .startAgain => some s

/-- A frame is received; `none` when a handler does not return, or there is none to call. -/
def receiveFrame (b : Board) (x : Ext) (f : Frame) (s : Globals) : Option Globals :=
  match netReceive b f s with
  | (s, none) => some s
  | (s, some c) => s.packetHandler.bind fun h => callHandler b x f h c s

def startAgainTimeout (s : Globals) : Globals := { s with netState := .restart }

/-- A timeout passes: the handler is taken off, and called. -/
def callTimeout (b : Board) (x : Ext) (s : Globals) : Option Globals :=
  s.timeHandler.map fun t =>
    let s := { s with timeHandler := none }
    match t with
    | .arp => arpTimeout b x s
    | .rarp => rarpTimeout b x s
    | .bootp => bootpTimeout b x s
    | .tftp => tftpTimeout b x s
    | .startAgain => startAgainTimeout s

/-! ## The start -/

/-- `proto_t` -/
inductive Proto where
  | bootp
  | rarp
  | arp
  | tftp
  | dhcp
  deriving DecidableEq

/-- What `NetLoop` reads when it starts: the board's addresses and the environment. -/
structure NetConfig where
  enetaddr : List UInt8
  ipAddr : UInt32
  serverip : UInt32
  gatewayip : UInt32
  netmask : UInt32
  /-- `eth_get_dev_index` does not find a device -/
  noDevice : Bool

/-- The Ethernet part of `net_check_prereq`. -/
def checkEther (b : Board) (cfg : NetConfig) (x : Ext) (s : Globals) : Globals × Nat :=
  if s.params.netOurEther = List.replicate 6 0 then
    if b.netMulti then if cfg.noDevice then (s, 1) else (netStartAgain b x s, 2)
    else (s, 1)
  else (s, 0)

def netCheckPrereq (b : Board) (protocol : Proto) (cfg : NetConfig) (x : Ext) (s : Globals) :
    Globals × Nat :=
  match protocol with
  | .arp => (s, 0)
  | .tftp =>
    if s.params.netServerIP = 0 then (s, 1)
    else if s.params.netOurIP = 0 then (s, 1)
    else checkEther b cfg x s
  | .dhcp | .rarp | .bootp => checkEther b cfg x s

def netInit (protocol : Proto) (cfg : NetConfig) (s : Globals) : Globals :=
  let p := { s.params with netOurEther := cfg.enetaddr }
  { s with
    netState := .continue
    params := match protocol with
      | .tftp => { p with
          netOurIP := cfg.ipAddr, netServerIP := cfg.serverip, netOurGatewayIP := cfg.gatewayip
          netOurSubnetMask := cfg.netmask }
      | .bootp | .rarp => { p with netOurIP := 0, netServerIP := 0 }
      | _ => p }

def netRequest (b : Board) (protocol : Proto) (x : Ext) (s : Globals) : Globals :=
  match protocol with
  | .tftp => arpRequest { s with arpTry := 0 }
  | .dhcp =>
    if b.cmdDhcp then
      bootpRequest b x { s with params := { s.params with netOurIP := 0, netServerIP := 0 } }
    else s
  | .bootp => bootpRequest b x { s with bootp := { s.bootp with bootpTry := 0 } }
  | .rarp => rarpRequest { s with rarpTry := 0 }
  | .arp => s

/-- `NetLoop` from the label `restart` up to its loop, and whether it gets there. -/
def netRestart (b : Board) (protocol : Proto) (cfg : NetConfig) (x : Ext) (s : Globals) :
    Globals × Bool :=
  match netCheckPrereq b protocol cfg x (netInit protocol cfg s) with
  | (s, 1) => (s, false)
  | (s, 2) => (s, true)
  | (s, _) =>
    let s := if b.netMulti then { s with netDevExists := true } else s
    ({ netRequest b protocol x s with netBootFileXferSize := 0 }, true)

/-! ## The machine -/

/-- The globals, and the protocol while `NetLoop` runs. -/
structure Machine where
  globals : Globals
  loop : Option Proto

inductive NetEv where
  /-- other commands set the boot file, the load address and the memory -/
  | command (bootFile : List UInt8) (loadAddr : UInt32) (mem : Mem32)
  | netLoop (protocol : Proto) (cfg : NetConfig) (x : Ext)
  | frame (f : Frame) (x : Ext)
  | timeout (x : Ext)
  /-- the switch at the end of a round of the loop -/
  | check (cfg : NetConfig) (x : Ext)
  | abort

/-- `NetLoop` from `restart` on. -/
def Machine.restart (b : Board) (protocol : Proto) (cfg : NetConfig) (x : Ext) (s : Globals) :
    Machine :=
  let (s, runs) := netRestart b protocol cfg x s
  ⟨s, if runs then some protocol else none⟩

/-- What one event does, if it can happen. `sent` and `stores` begin anew with a
`NetLoop`. -/
def netStep (b : Board) (s : Machine) (e : NetEv) : Option Machine :=
  match s.loop, e with
  | none, .command bootFile loadAddr mem =>
    some { s with globals := { s.globals with
      params := { s.globals.params with bootFile := bootFile }, loadAddr := loadAddr, mem := mem } }
  | none, .netLoop protocol cfg x =>
    let g := { s.globals with sent := [], stores := [] }
    let g := if b.netMulti then { g with netDevExists := false } else g
    some (Machine.restart b protocol cfg x g)
  | some _, .frame f x =>
    (receiveFrame b x f s.globals).map fun g => { s with globals := g }
  | some _, .timeout x =>
    (callTimeout b x s.globals).map fun g => { s with globals := g }
  | some protocol, .check cfg x =>
    match s.globals.netState with
    | .continue => some s
    | .restart => some (Machine.restart b protocol cfg x s.globals)
    | .success => some { s with loop := none }
    | .fail => some { s with loop := none }
  | some _, .abort => some { s with loop := none }
  | _, _ => none

def NetStep (b : Board) (s : Machine) (e : NetEv) (s' : Machine) : Prop := netStep b s e = some s'

end UBoot.Net
