import UBoot.Lib.Mem32

/-!
# The Kermit receiver (`k_recv` of `common/cmd_boot.c`)

`recvPacket` is one round of the main loop of `k_recv`: it takes the bytes of one packet from
the input and ends with an acknowledgement (`Reply.ack`) or, from the label `packet_error`,
with a negative one (`Reply.nack`). It is `none` while `serial_getc` waits for a byte. The
functions before it are what follows each byte of the packet, last byte first. Bytes are the
same for a signed and an unsigned `char`.
-/

namespace UBoot.Kermit

open UBoot.Lib

abbrev startChar : UInt8 := 0x01
abbrev endChar : UInt8 := 0x0d
abbrev kEscape : UInt8 := 0x23
abbrev sendType : UInt8 := 0x53
abbrev dataType : UInt8 := 0x44
abbrev ackType : UInt8 := 0x59
abbrev nackType : UInt8 := 0x4e
abbrev breakType : UInt8 := 0x42

def tochar (x : Nat) : UInt8 := UInt8.ofNat (x + 32)

def untochar (c : UInt8) : Nat := (c - 32).toNat

/-- A byte that may stand in a packet; the others are control characters. -/
def legal (c : UInt8) : Bool := c &&& 0xe0 != 0

def ktrans (c : UInt8) : UInt8 :=
  if c &&& 0x60 = 0x40 then c &&& 0xbf
  else if c &&& 0x7f = 0x3f then c ||| 0x40
  else c

def chk1 (buffer : List UInt8) : Nat :=
  let total := ((buffer.takeWhile (· ≠ 0)).map UInt8.toNat).sum
  (total + total / 64 % 4) % 64

def checkChar (sum : Nat) : UInt8 := tochar ((sum + sum / 64 % 4) % 64)

/-! ## The state -/

/-- The decoder: the variables of `k_data_*` and `os_data_*` that are saved and restored. -/
structure KData where
  escape : Bool
  osState : Nat
  osCount : Int
  osAddr : UInt32
  deriving DecidableEq

/-- `his_eol`, `his_pad_count`, `his_pad_char`, `his_quote` -/
structure Parms where
  eol : UInt8
  padCount : Nat
  padChar : UInt8
  quote : UInt8

/-- The variables of `k_recv`; `out` is what it sends. -/
structure KRecv where
  kState : UInt8
  kStateSaved : UInt8
  n : Nat
  lastN : Int
  data : KData
  saved : KData
  mem : Mem32
  his : Parms
  sendParms : List UInt8
  done : Bool
  out : List UInt8

inductive Reply where
  | ack (n : Nat)
  | nack (n : Nat)
  deriving DecidableEq

def Parms.default : Parms := ⟨endChar, 0, 0, kEscape⟩

/-- The state in which `k_recv` enters its loop. -/
def KRecv.init (start : UInt32) (mem : Mem32) : KRecv where
  kState := 0
  kStateSaved := 0
  n := 0
  lastN := -1
  data := ⟨false, 0, 0, start⟩
  saved := ⟨false, 0, 0, start⟩
  mem := mem
  his := .default
  sendParms := []
  done := false
  out := []

/-! ## The decoder -/

def binDataChar (c : UInt8) (s : KRecv) : KRecv :=
  match s.data.osState with
  | 0 => { s with
      mem := s.mem.store s.data.osAddr [c]
      data := { s.data with osAddr := s.data.osAddr + 1, osCount := s.data.osCount - 1 } }
  | _ => s

def kDataChar (c : UInt8) (s : KRecv) : KRecv :=
  if s.data.escape then
    let s := binDataChar (ktrans c) s
    { s with data := { s.data with escape := false } }
  else if c = s.his.quote then { s with data := { s.data with escape := true } }
  else binDataChar c s

/-! ## Replies -/

def s1Sendpacket (packet : List UInt8) (s : KRecv) : KRecv :=
  { s with
    out := s.out ++ List.replicate s.his.padCount s.his.padChar ++ packet.takeWhile (· ≠ 0) }

/-- A packet for a sequence number, a type and fields. -/
def replyPacket (n : Nat) (type : UInt8) (fields : List UInt8) (eol : UInt8) : List UInt8 :=
  let body := [tochar (3 + fields.length), tochar n, type] ++ fields
  startChar :: body ++ [tochar (chk1 body), eol]

def sendAck (n : Nat) (s : KRecv) : KRecv := s1Sendpacket (replyPacket n ackType [] s.his.eol) s

def sendNack (n : Nat) (s : KRecv) : KRecv := s1Sendpacket (replyPacket n nackType [] s.his.eol) s

/-- What we answer to each of the parameters: MAXL, TIME, NPAD, PADC, EOL, QCTL, QBIN, CHKT,
REPT, CAPAS. -/
def ourParms : List (List UInt8) :=
  [[tochar 94], [tochar 1], [tochar 0], [0x40], [tochar 13], [0x23], [0x4e], [0x31], [0x4e],
    [tochar 2, tochar 0, tochar 94, tochar 94]]

def handleSendPacket (n : Nat) (s : KRecv) : KRecv :=
  let parms := if s.sendParms.length = 19 then s.sendParms.dropLast else s.sendParms
  let s := { s with his := {
    padCount := if parms.length ≥ 3 then untochar (parms.getD 2 0) else 0
    padChar := if parms.length ≥ 4 then ktrans (parms.getD 3 0) else 0
    eol := if parms.length ≥ 5 then UInt8.ofNat (untochar (parms.getD 4 0)) else endChar
    quote := if parms.length ≥ 6 then parms.getD 5 0 else kEscape } }
  s1Sendpacket (replyPacket n ackType (ourParms.take parms.length).flatten s.his.eol) s

/-! ## A packet -/

/-- What becomes of a packet: the state, the reply, and the input behind it. -/
abbrev Received := Option (KRecv × Reply × List UInt8)

def packetError (s : KRecv) (input : List UInt8) : Received :=
  some (sendNack s.n { s with kState := s.kStateSaved, data := s.saved }, .nack s.n, input)

/-- The next byte is read; one that is not legal is an error. -/
def getLegal (s : KRecv) (next : UInt8 → List UInt8 → Received) : List UInt8 → Received
  | [] => none
  | c :: input => if legal c then next c input else packetError s input

/-- `END_CHAR`, and the reply. -/
def recvEnd (s : KRecv) : List UInt8 → Received
  | [] => none
  | c :: input =>
    if c ≠ endChar then packetError s input
    else if s.kState = sendType then some (handleSendPacket s.n s, .ack s.n, input)
    else
      let s := sendAck s.n s
      some (if s.kState = breakType then { s with done := true } else s, .ack s.n, input)

def recvCheck (s : KRecv) (sum : Nat) : List UInt8 → Received :=
  getLegal s fun c input => if c ≠ checkChar sum then packetError s input else recvEnd s input

def dataChar (c : UInt8) (s : KRecv) : KRecv :=
  if s.kState = dataType then kDataChar c s
  else if s.kState = sendType then
    let parms := s.sendParms ++ [c]
    { s with sendParms := if parms.length ≥ 20 then parms.dropLast else parms }
  else s

/-- The rest of the packet: so many bytes, then the checksum. -/
def recvRest : Nat → KRecv → Nat → List UInt8 → Received
  | 0, s, sum => recvCheck s sum
  | k + 1, s, sum => getLegal s fun c => recvRest k (dataChar c s) (sum + c.toNat)

/-- The header checksum of an extended packet, whose length counts the checksum at its end. -/
def recvHeaderCheck (s : KRecv) (sum length : Nat) : List UInt8 → Received :=
  getLegal s fun c input =>
    if c ≠ checkChar sum then packetError s input
    else recvRest (length - 1) s (sum + c.toNat) input

def recvLenLo (s : KRecv) (sum lenHi : Nat) : List UInt8 → Received :=
  getLegal s fun c => recvHeaderCheck s (sum + c.toNat) (lenHi * 95 + untochar c)

def recvLenHi (s : KRecv) (sum : Nat) : List UInt8 → Received :=
  getLegal s fun c => recvLenLo s (sum + c.toNat) (untochar c)

/-- The type; a length byte of 0 announces an extended length. -/
def recvType (s : KRecv) (sum length : Nat) : List UInt8 → Received :=
  getLegal s fun c =>
    let s := { s with kState := c }
    if length = 0 then recvLenHi s (sum + c.toNat)
    else recvRest (length - 3) s (sum + c.toNat)

/-- The same sequence number again: the state before it is restored. A new one: the state is
saved. -/
def checkpoint (s : KRecv) : KRecv :=
  if (s.n : Int) = s.lastN then { s with kState := s.kStateSaved, data := s.saved }
  else { s with lastN := s.n, kStateSaved := s.kState, saved := s.data }

def recvSeq (s : KRecv) (sum length : Nat) : List UInt8 → Received :=
  getLegal s fun c => recvType (checkpoint { s with n := untochar c }) (sum + c.toNat) length

def recvLength (s : KRecv) : List UInt8 → Received :=
  getLegal s fun c => recvSeq s c.toNat (untochar c)

/-- One round of the loop of `k_recv`. -/
def recvPacket (s : KRecv) (input : List UInt8) : Received :=
  match input.dropWhile (· ≠ startChar) with
  | [] => none
  | _ :: input => recvLength { s with sendParms := [] } input

end UBoot.Kermit
