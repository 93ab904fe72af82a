import UBoot.Lib.BigEndian
import UBoot.Net.Arp
import UBoot.Net.Receive

/-!
# BOOTP and DHCP (`net/bootp.c`)

A packet is read at `pkt`, whose fields begin at fixed indices. `DhcpMessageType` looks for
an option without a bound, so `dhcpMessageType` and what calls it return `none` when the
scan does not end within the options allowed. `char` is unsigned, as on PowerPC and ARM. The
copy of the file name to the environment is left out.
-/

namespace UBoot.Net

open UBoot.Lib UBoot.Common

def Board.optSize (b : Board) : Nat := if b.cmdDhcp then 312 else 64

/-- The size of a `Bootp_t` without the vendor field, and the index of that. -/
abbrev bpVend : Nat := 236

def Board.bootpHdrSize (b : Board) : Nat := bpVend + b.optSize

abbrev bootpVendorMagic : UInt32 := 0x63825363

/-- `BootpCheckPkt`; 0 is a packet for us. -/
def bootpCheckPkt (pkt : Bytes) (dest src : Nat) (len : UInt32) (s : Globals) : Int :=
  if dest ≠ 68 ∨ src ≠ 67 then -1
  else if len.toNat < bpVend then -2
  else if pkt 0 ≠ 1 ∧ pkt 0 ≠ 2 ∧ pkt 0 ≠ 5 ∧ pkt 0 ≠ 6 then -3
  else if pkt 1 ≠ 1 then -4
  else if pkt 2 ≠ 6 then -5
  else if be32 pkt 4 ≠ s.bootp.bootpID then -6
  else 0

/-- `BootpCopyNetParams`; `NetRxPkt` is the frame. -/
def bootpCopyNetParams (f : Frame) (pkt : Bytes) (s : Globals) : Globals :=
  { s with params := { s.params with
      netOurIP := be32 pkt 16
      netServerIP := be32 pkt 20
      netServerEther := bytesAt f.bytes 6 6
      bootFile := copyFilename (bytesAt pkt 108 128) 128 } }

def truncateSz (maxlen curlen : Nat) : Nat := if curlen ≥ maxlen then maxlen - 1 else curlen

/-- The string of an option, cut to a field of `maxlen` bytes. -/
def optionString (pkt : Bytes) (i maxlen : Nat) : List UInt8 :=
  bytesAt pkt (i + 2) (truncateSz maxlen (pkt (i + 1)).toNat)

/-- A string field that begins with a NUL is empty. -/
def unset (l : List UInt8) : Bool := l.headD 0 == 0

/-- `BootpVendorFieldProcess`, for the field at an index. -/
def bootpVendorFieldProcess (pkt : Bytes) (i : Nat) (p : Params) : Params :=
  let p := { p with netBootFileSize := 0 }
  match (pkt i).toNat with
  | 1 => if p.netOurSubnetMask = 0 then { p with netOurSubnetMask := be32 pkt (i + 2) } else p
  | 3 => if p.netOurGatewayIP = 0 then { p with netOurGatewayIP := be32 pkt (i + 2) } else p
  | 6 => if p.netOurDNSIP = 0 then { p with netOurDNSIP := be32 pkt (i + 2) } else p
  | 12 =>
    if unset p.netOurHostName then { p with netOurHostName := optionString pkt i 32 } else p
  | 13 =>
    if pkt (i + 1) = 2 then { p with netBootFileSize := be16 pkt (i + 2) }
    else if pkt (i + 1) = 4 then { p with netBootFileSize := be16 pkt (i + 4) }
    else p
  | 17 =>
    if unset p.netOurRootPath then { p with netOurRootPath := optionString pkt i 64 } else p
  | 40 =>
    if unset p.netOurNISDomain then { p with netOurNISDomain := optionString pkt i 32 } else p
  | _ => p

/-- The loop of `BootpVendorProcess` from an index up to `stop`; a field takes a byte at
least, so `stop - ext` rounds are enough. -/
def bootpVendorLoop (pkt : Bytes) (stop : Nat) : Nat → Nat → Params → Params
  | 0, _, p => p
  | rounds + 1, ext, p =>
    if ext < stop ∧ pkt ext ≠ 0xff then
      if pkt ext = 0 then bootpVendorLoop pkt stop rounds (ext + 1) p
      else
        let next := ext + (pkt (ext + 1)).toNat + 2
        let p := if next ≤ stop then bootpVendorFieldProcess pkt ext p else p
        bootpVendorLoop pkt stop rounds next p
    else p

/-- `BootpVendorProcess`; the size is an `int`, and there is nothing to do for a negative
one. -/
def bootpVendorProcess (pkt : Bytes) (ext : Nat) (size : UInt32) (p : Params) : Params :=
  if size.toNat < 2 ^ 31 then bootpVendorLoop pkt (ext + size.toNat) size.toNat ext p else p

def bootpHandler (x : Ext) (f : Frame) (pkt : Bytes) (dest src : Nat) (len : UInt32)
    (s : Globals) : Globals :=
  if bootpCheckPkt pkt dest src len s ≠ 0 then s
  else
    let s := bootpCopyNetParams f pkt s
    let s := if be32 pkt bpVend = bootpVendorMagic then
        { s with params := bootpVendorProcess pkt (bpVend + 4) len s.params }
      else s
    let s := { s with timeHandler := none }
    if x.autoloadNo then { s with netState := .success } else arpRequest s

/-- The lower bytes of our Ethernet address plus the time. -/
def bootpNewID (ether : List UInt8) (timer : Nat) : UInt32 :=
  be32 (ofList ether) 2 + UInt32.ofNat timer

def bootpRequest (b : Board) (x : Ext) (s : Globals) : Globals :=
  let id := bootpNewID s.params.netOurEther x.timer
  let s := { s with bootp := { s.bootp with
    bootpTry := s.bootp.bootpTry + 1
    bootpID := id
    dhcpState := if b.cmdDhcp then .selecting else s.bootp.dhcpState } }
  let s := netSetTimeout .bootp s
  let s := netSetHandler (if b.cmdDhcp then .dhcp else .bootp) s
  netSendPacket (.bootpRequest id (copyFilename s.params.bootFile 128)) s

def bootpTimeout (b : Board) (x : Ext) (s : Globals) : Globals :=
  if s.bootp.bootpTry ≥ b.timeoutCount then netStartAgain b x s
  else bootpRequest b x (netSetTimeout .bootp s)

/-! ## DHCP -/

/-- One round of `DhcpOptionsProcess`, for the option at an index. -/
def dhcpOption (b : Board) (pkt : Bytes) (i : Nat) (s : Globals) : Globals :=
  match (pkt i).toNat with
  | 1 => { s with params := { s.params with netOurSubnetMask := be32 pkt (i + 2) } }
  | 3 => { s with params := { s.params with netOurGatewayIP := be32 pkt (i + 2) } }
  | 6 => { s with params := { s.params with netOurDNSIP := be32 pkt (i + 2) } }
  | 12 => { s with params := { s.params with netOurHostName := optionString pkt i 32 } }
  | 17 => { s with params := { s.params with netOurRootPath := optionString pkt i 64 } }
  | 51 =>
    -- read in the byte order of the CPU
    let time := UInt32.ofNat (ushortAt b pkt (i + 2) * (if b.bigEndian then 65536 else 1) +
      ushortAt b pkt (i + 4) * (if b.bigEndian then 1 else 65536))
    { s with bootp := { s.bootp with dhcpLeasetime := time } }
  | 54 => { s with params := { s.params with netServerIP := be32 pkt (i + 2) } }
  | _ => s

/-- The loop of `DhcpOptionsProcess` up to `stop`; an option takes two bytes at least. -/
def dhcpOptionsLoop (b : Board) (pkt : Bytes) (stop : Nat) : Nat → Nat → Globals → Globals
  | 0, _, s => s
  | rounds + 1, popt, s =>
    if popt < stop ∧ pkt popt ≠ 0xff then
      dhcpOptionsLoop b pkt stop rounds (popt + (pkt (popt + 1)).toNat + 2)
        (dhcpOption b pkt popt s)
    else s

def dhcpOptionsProcess (b : Board) (pkt : Bytes) (popt : Nat) (s : Globals) : Globals :=
  dhcpOptionsLoop b pkt (popt + b.bootpHdrSize) b.bootpHdrSize popt s

/-- The scan of `DhcpMessageType`. -/
def dhcpMessageScan (pkt : Bytes) : Nat → Nat → Option Int
  | 0, _ => none
  | scan + 1, popt =>
    if pkt popt = 0xff then some (-1)
    else if pkt popt = 53 then some (pkt (popt + 2)).toNat
    else dhcpMessageScan pkt scan (popt + (pkt (popt + 1)).toNat + 2)

def dhcpMessageType (pkt : Bytes) (scan popt : Nat) : Option Int :=
  if be32 pkt popt ≠ bootpVendorMagic then some (-1) else dhcpMessageScan pkt scan (popt + 4)

/-- `DhcpExtended`: the options by their codes, up to the parameter request list. -/
def dhcpExtended (messageType : UInt8) (serverID requestedIP : UInt32) :
    List (UInt8 × List UInt8) :=
  [(53, [messageType]), (57, [2, 64])] ++
    (if serverID ≠ 0 then [(54, beBytes serverID)] else []) ++
    if requestedIP ≠ 0 then [(50, beBytes requestedIP)] else []

/-- `DHCP_REQUEST` -/
def dhcpRequestType : UInt8 := 3

def dhcpSendRequestPkt (offer : Bytes) (s : Globals) : Globals :=
  netSendPacket (.dhcpRequest (be32 offer 4) (be32 offer 12) (be32 offer 16) (be32 offer 20)
    (be32 offer 24) (dhcpExtended dhcpRequestType s.params.netServerIP (be32 offer 16))) s

/-- The file name begins with `CFG_BOOTFILE_PREFIX`. -/
def Board.acceptsFile (b : Board) (pkt : Bytes) : Bool :=
  match b.bootfilePrefix with
  | none => true
  | some pre => bytesAt pkt 108 pre.length == pre

def dhcpHandler (b : Board) (x : Ext) (f : Frame) (pkt : Bytes) (dest src : Nat) (len : UInt32)
    (s : Globals) : Option Globals :=
  if bootpCheckPkt pkt dest src len s ≠ 0 then some s
  else
    match s.bootp.dhcpState with
    | .selecting =>
      if b.acceptsFile pkt then
        let s := { s with bootp := { s.bootp with dhcpState := .requesting } }
        some (dhcpSendRequestPkt pkt (netSetTimeout .bootp (bootpCopyNetParams f pkt s)))
      else some s
    | .requesting => do
      let type ← dhcpMessageType pkt x.scan bpVend
      if type = 5 then
        let s := if be32 pkt bpVend = bootpVendorMagic then dhcpOptionsProcess b pkt (bpVend + 4) s
          else s
        let s := bootpCopyNetParams f pkt s
        let s := { s with bootp := { s.bootp with dhcpState := .bound } }
        if x.autoloadNo then some { s with netState := .success } else some (arpRequest s)
      else some s
    | _ => some s

end UBoot.Net
