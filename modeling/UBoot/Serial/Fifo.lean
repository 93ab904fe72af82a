import UBoot.Lib.Ring

/-!
# Interrupt driven serial input of the PPC4xx

`serial_isr` puts what the UART has received into a ring of `CONFIG_SERIAL_SOFTWARE_FIFO`
bytes (`n` below) and `serial_buffered_getc` takes it out. An activation of the interrupt
handler is one step; `serial_buffered_getc` is cut where an interrupt can come between two
accesses to what both share: the two indices, the buffer and the modem control register.
-/

namespace UBoot.Serial

open Lib

/-- `serial_buffer_t`. -/
structure BufInfo where
  rxBuffer : Nat → UInt8
  rxPut : Nat
  rxGet : Nat

/-- Where `serial_buffered_getc` stands, with its local variables. -/
inductive Getc where
  /-- not called -/
  | idle
  /-- in the loop that waits for a byte -/
  | wait (rxGet : Nat)
  /-- behind the loop -/
  | read (rxGet : Nat)
  /-- `c` is read, `rx_get` moved on -/
  | store (c : UInt8) (rxGet : Nat)
  /-- `buf_info.rx_get` is written -/
  | look (c : UInt8) (rxGet : Nat)
  /-- `space` is computed -/
  | flow (c : UInt8) (space : Nat)
  /-- the modem control register is read -/
  | out (c : UInt8) (mcr : UInt8)
  /-- about to return -/
  | done (c : UInt8)
  deriving DecidableEq

/-- The byte that is out of the buffer and not returned yet. -/
def Getc.inHand : Getc → List UInt8
  | .look c _ | .flow c _ | .out c _ | .done c => [c]
  | _ => []

/-- The state of the driver. The last three fields are its history: the bytes `serial_isr` put
into the buffer, for each byte it threw away how many were in the buffer and not taken, and the
bytes `serial_buffered_getc` returned. -/
structure State where
  bufInfo : BufInfo
  mcr : UInt8
  getc : Getc
  accepted : List UInt8
  refusals : List Nat
  returned : List UInt8

/-- The number of bytes `serial_buffered_getc` has taken out of the buffer. -/
def State.taken (s : State) : Nat := s.returned.length + s.getc.inHand.length

/-- The free space as both functions compute it. -/
def space (n rxGet rxPut : Nat) : Nat :=
  if rxGet ≤ rxPut then n - (rxPut - rxGet) else rxGet - rxPut

/-- What `serial_isr` changes while it drains the UART. -/
structure Isr where
  rxBuffer : Nat → UInt8
  rxPut : Nat
  space : Nat
  mcr : UInt8
  accepted : List UInt8
  refusals : List Nat

/-- One byte in the loop of `serial_isr`. -/
def Isr.char (n taken : Nat) (r : Isr) (c : UInt8) : Isr :=
  let r :=
    if r.space ≠ 0 then
      { r with
        rxBuffer := Function.update r.rxBuffer r.rxPut c
        rxPut := r.rxPut + 1
        space := r.space - 1
        accepted := r.accepted ++ [c] }
    else { r with refusals := r.refusals ++ [r.accepted.length - taken] }
  let r := if r.rxPut = n then { r with rxPut := 0 } else r
  -- stop flow by setting RTS inactive
  if r.space < n / 4 then { r with mcr := r.mcr &&& (0xFF ^^^ 0x02) } else r

/-- `serial_isr`, with the bytes that `serial_tstc` and `serial_getc` give it. -/
def serialIsr (n : Nat) (bytes : List UInt8) (s : State) : State :=
  let r := bytes.foldl (Isr.char n s.taken) ⟨s.bufInfo.rxBuffer, s.bufInfo.rxPut,
    space n s.bufInfo.rxGet s.bufInfo.rxPut, s.mcr, s.accepted, s.refusals⟩
  { s with
    bufInfo := { s.bufInfo with rxBuffer := r.rxBuffer, rxPut := r.rxPut }
    mcr := r.mcr
    accepted := r.accepted
    refusals := r.refusals }

/-- One step of `serial_buffered_getc`; a call begins where none is going on. -/
def serialBufferedGetc (n : Nat) (s : State) : State :=
  match s.getc with
  | .idle => { s with getc := .wait s.bufInfo.rxGet }
  | .wait rxGet => if rxGet = s.bufInfo.rxPut then s else { s with getc := .read rxGet }
  | .read rxGet => { s with getc := .store (s.bufInfo.rxBuffer rxGet) (Ring.next n rxGet) }
  | .store c rxGet =>
    { s with bufInfo := { s.bufInfo with rxGet := rxGet }, getc := .look c rxGet }
  | .look c rxGet => { s with getc := .flow c (space n rxGet s.bufInfo.rxPut) }
  | .flow c space => { s with getc := if space > n / 2 then .out c s.mcr else .done c }
  -- start flow by setting RTS active
  | .out c mcr => { s with mcr := mcr ||| 0x02, getc := .done c }
  | .done c => { s with returned := s.returned ++ [c], getc := .idle }

def serialBufferedTstc (s : State) : Nat := if s.bufInfo.rxGet ≠ s.bufInfo.rxPut then 1 else 0

/-- `serial_buffered_init`, with what `malloc` gives. -/
def serialBufferedInit (rxBuffer : Nat → UInt8) (mcr : UInt8) : State :=
  ⟨⟨rxBuffer, 0, 0⟩, mcr ||| 0x01 ||| 0x02, .idle, [], [], []⟩

inductive Action where
  /-- an interrupt, for which the UART has `bytes` -/
  | isr (bytes : List UInt8)
  | tstc
  | getc

/-- One step of the system; `serial_buffered_tstc` only reads. -/
def step (n : Nat) (s : State) : Action → State
  | .isr bytes => serialIsr n bytes s
  | .tstc => s
  | .getc => serialBufferedGetc n s

/-- What the buffer holds from `rx_get` up to `rx_put`. -/
def State.unread (n : Nat) (s : State) : List UInt8 :=
  Ring.window s.bufInfo.rxBuffer n s.bufInfo.rxGet (Ring.used n s.bufInfo.rxGet s.bufInfo.rxPut)

/-- **The input is a queue.** What was returned and what is unread are the accepted bytes in
their order; a byte was refused only where `n` were unread; the buffer looks empty only when
every accepted byte has been taken. -/
structure IsQueue (n : Nat) (s : State) : Prop where
  order : s.returned ++ s.getc.inHand ++ s.unread n = s.accepted
  refused : ∀ k ∈ s.refusals, k = n
  empty : serialBufferedTstc s = 0 ↔ s.taken = s.accepted.length

/-- The UART has fewer bytes for an activation than the buffer has free slots. -/
def Spare (n : Nat) (s : State) : Action → Prop
  | .isr bytes => bytes.length + Ring.used n s.bufInfo.rxGet s.bufInfo.rxPut < n
  | _ => True

instance (n : Nat) (s : State) (a : Action) : Decidable (Spare n s a) := by
  cases a <;> unfold Spare <;> infer_instance

end UBoot.Serial
