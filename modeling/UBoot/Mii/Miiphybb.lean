import UBoot.Mii.Phy

/-!
# Bit-banged MII management

The code of `common/miiphybb.c`. The board macros switch two pins: MDC, and MDIO with an
output latch and a direction. `MIIDELAY` takes time only.
-/

namespace UBoot.Mii

/-- MDIO at a rising edge of MDC, and whether the station drives it. -/
structure Sample where
  driven : Bool
  bit : Bool
  deriving DecidableEq, Repr

structure Bus where
  /-- `MDIO_ACTIVE`, `MDIO_TRISTATE` -/
  active : Bool
  mdio : Bool
  mdc : Bool
  phys : Phys
  /-- the rising edges so far -/
  wire : List Sample

namespace Bus

/-- The level of MDIO, which is also what `MDIO_READ` reads. -/
def line (b : Bus) : Bool := if b.active then b.mdio else b.phys.pulled

def setActive (b : Bus) : Bus := { b with active := true }

def tristate (b : Bus) : Bus := { b with active := false }

/-- `MDIO(bit)` -/
def setMdio (b : Bus) (bit : Bool) : Bus := { b with mdio := bit }

/-- `MDC(bit)` -/
def setMdc (b : Bus) (bit : Bool) : Bus :=
  if bit && !b.mdc then
    { b with mdc := true, phys := b.phys.clock b.line, wire := b.wire ++ [⟨b.active, b.line⟩] }
  else { b with mdc := bit }

/-- `MDC(0); MIIDELAY; MDC(1); MIIDELAY;` -/
def tick (b : Bus) : Bus := (b.setMdc false).setMdc true

/-- `MDC(0); MDIO(bit); MIIDELAY; MDC(1); MIIDELAY;` -/
def out (bit : Bool) (b : Bus) : Bus := ((b.setMdc false).setMdio bit).setMdc true

/-- The loops that only clock. -/
def ticks : ℕ → Bus → Bus
  | 0, b => b
  | j + 1, b => ticks j b.tick

end Bus

/-- The loops over the five bits of an address. -/
def sendAddr : ℕ → UInt8 → Bus → Bus
  | 0, _, b => b
  | j + 1, addr, b => sendAddr j (addr <<< 1) (b.out (!(addr &&& 0x10 == 0)))

def miiphyPre (read : Bool) (addr reg : UInt8) (b : Bus) : Bus :=
  let b := (b.setActive.setMdio true).ticks 32
  let b := (((b.out false).out true).out read).out (!read)
  sendAddr 5 reg (sendAddr 5 addr b)

/-- The loop over the data bits of `miiphy_read`. -/
def recvData : ℕ → UInt16 → Bus → UInt16 × Bus
  | 0, rdreg, b => (rdreg, b)
  | j + 1, rdreg, b =>
    let b := b.setMdc true
    recvData j (rdreg <<< 1 ||| if b.line then 1 else 0) (b.setMdc false)

/-- The result, what is in `*value` then, and the bus. -/
def miiphyRead (addr reg : UInt8) (value : UInt16) (b : Bus) : ℤ × UInt16 × Bus :=
  let b := miiphyPre true addr reg b
  let b := ((b.setMdc false).tristate).setMdc true
  if b.line then (-1, value, b.ticks 32)
  else
    let (rdreg, b) := recvData 16 0 (b.setMdc false)
    (0, rdreg, ((b.setMdc true).setMdc false).setMdc true)

/-- The loop over the data bits of `miiphy_write`. -/
def sendData : ℕ → UInt16 → Bus → Bus
  | 0, _, b => b
  | j + 1, value, b => sendData j (value <<< 1) (b.out (!(value &&& 0x8000 == 0)))

def miiphyWrite (addr reg : UInt8) (value : UInt16) (b : Bus) : ℤ × Bus :=
  let b := miiphyPre false addr reg b
  let b := sendData 16 value ((b.out true).out false)
  (0, b.tristate.tick)

inductive Access
  | read (addr reg : UInt8)
  | write (addr reg : UInt8) (value : UInt16)
  deriving DecidableEq, Repr

namespace Access

def addr : Access → UInt8
  | .read addr _ => addr
  | .write addr _ _ => addr

def reg : Access → UInt8
  | .read _ reg => reg
  | .write _ reg _ => reg

def run : Access → Bus → Bus
  | .read addr reg, b => (miiphyRead addr reg 0 b).2.2
  | .write addr reg value, b => (miiphyWrite addr reg value b).2

end Access

def runs (cs : List Access) (b : Bus) : Bus := cs.foldl (fun b c => c.run b) b

end UBoot.Mii
