import Mathlib.Tactic

/-!
# The PCI scan (`drivers/pci.c`, `drivers/pci_auto.c`)

A `Topology` is the tree of buses below a host controller. A bus is named by the bridges that
lead to it, the innermost first, and a function by its bus and the number `devfn` of its device
and function. Every bridge has three bus number registers; a configuration cycle for bus `n` goes
down through bridges whose registers claim `n` (`route`). Where several bridges of a bus claim it,
an `Arbiter` says which one answers.

`pciHoseScan` is the scan: `pciHoseScanBus` goes over the functions of a bus,
`pciautoConfigDevice` sets up a bridge and scans the bus behind it.
-/

namespace UBoot.Pci

/-! ## The tree -/

/-- What the scan reads of an implemented function. -/
structure PciFn where
  vendor : ℕ
  headerType : ℕ
  cls : ℕ
  implemented : vendor ≠ 0xffff ∧ vendor ≠ 0

/-- `PCI_CLASS_BRIDGE_PCI` -/
def PciFn.isBridge (f : PciFn) : Bool := f.cls == 0x0604

def PciFn.multi (f : PciFn) : Bool := f.headerType &&& 0x80 != 0

/-- The functions on the buses below a host controller. -/
structure Topology where
  fn : List ℕ → ℕ → Option PciFn
  /-- How many bridges lead to a bus at most. -/
  depth : ℕ
  devfn_lt : ∀ {p d f}, fn p d = some f → d < 256
  bridge_depth : ∀ {p d f}, fn p d = some f → f.isBridge → p.length < depth
  behind : ∀ {p d e f}, fn (d :: p) e = some f → ∃ g, fn p d = some g ∧ g.isBridge
  /-- A device with more functions has function 0, and its header says so. -/
  multi : ∀ {p d f}, fn p d = some f → d % 8 ≠ 0 → ∃ g, fn p (d - d % 8) = some g ∧ g.multi

def Topology.isBridge (T : Topology) (p : List ℕ) (d : ℕ) : Bool := (T.fn p d).any PciFn.isBridge

theorem Topology.isBridge_iff {T : Topology} {p : List ℕ} {d : ℕ} :
    T.isBridge p d ↔ ∃ f, T.fn p d = some f ∧ f.isBridge := by
  rw [Topology.isBridge, Option.any_eq_true]

/-- `PCI_PRIMARY_BUS`, `PCI_SECONDARY_BUS` and `PCI_SUBORDINATE_BUS`. -/
structure BusRegs where
  primary : ℕ
  secondary : ℕ
  subordinate : ℕ
  deriving DecidableEq, Repr

/-- Which of the bridges that claim a cycle answers. -/
structure Arbiter where
  pick : List ℕ → Option ℕ
  pick_mem : ∀ {l d}, pick l = some d → d ∈ l
  pick_some : ∀ {l}, l ≠ [] → (pick l).isSome

/-- The bus number registers, and the regions that BARs are allocated from. -/
structure State (α : Type) where
  regs : List ℕ → ℕ → BusRegs
  alloc : α

/-- A controller without a board's table of devices. `pciauto_setup_device` allocates regions for
the BARs of a device; of a bridge it sizes three, the last of which is where the bus number
registers are, and leaves something there. The functions for bridges round the regions. -/
structure Hose (α : Type) where
  topo : Topology
  firstBusno : ℕ
  arbiter : Arbiter
  /-- `CONFIG_405GP` -/
  ppc405gp : Bool
  setupDevice : State α → ℕ → ℕ → α × BusRegs
  align : α → α
  buses : firstBusno + topo.depth < 256

namespace Hose

variable {α : Type} (h : Hose α)

/-! ## Configuration cycles -/

/-- The bridges of a bus that claim a cycle for bus `n`. -/
def claimants (r : List ℕ → ℕ → BusRegs) (p : List ℕ) (n : ℕ) : List ℕ :=
  (List.range 256).filter fun d =>
    h.topo.isBridge p d && ((r p d).secondary ≤ n && n ≤ (r p d).subordinate)

def forward (r : List ℕ → ℕ → BusRegs) (n : ℕ) : ℕ → List ℕ → Option (List ℕ)
  | 0, _ => none
  | k + 1, p => match h.arbiter.pick (h.claimants r p n) with
    | none => none
    | some d => if (r p d).secondary = n then some (d :: p) else forward r n k (d :: p)

/-- The bus that a cycle for bus `n` reaches. -/
def route (r : List ℕ → ℕ → BusRegs) (n : ℕ) : Option (List ℕ) :=
  if n = h.firstBusno then some [] else h.forward r n h.topo.depth []

/-- The function that answers to a bus number and a `devfn`. -/
def fnAt (s : State α) (bus d : ℕ) : Option PciFn :=
  (h.route s.regs bus).bind fun p => h.topo.fn p d

/-- `PCI_BUS(d)`, with the bits above an octet dropped. -/
def pciBus (bus : ℕ) : ℕ := bus % 256

def setRegs (r : List ℕ → ℕ → BusRegs) (p : List ℕ) (d : ℕ) (v : BusRegs) :
    List ℕ → ℕ → BusRegs :=
  fun q e => if q = p ∧ e = d then v else r q e

/-- A write to the bus number registers of the function that answers. -/
def writeRegs (s : State α) (bus d : ℕ) (u : BusRegs → BusRegs) : State α :=
  match h.route s.regs (pciBus bus) with
  | some p =>
    if h.topo.isBridge p d then { s with regs := setRegs s.regs p d (u (s.regs p d)) } else s
  | none => s

/-! ## The scan -/

def pciautoSetupDevice (s : State α) (bus d : ℕ) : State α :=
  let r := h.setupDevice s bus d
  h.writeRegs { s with alloc := r.1 } bus d fun _ => r.2

def pciautoPrescanSetupBridge (s : State α) (bus d subBus : ℕ) : State α :=
  h.writeRegs { s with alloc := h.align s.alloc } bus d fun _ =>
    { primary := pciBus bus, secondary := (subBus + 1) % 256, subordinate := 0xff }

def pciautoPostscanSetupBridge (s : State α) (bus d subBus : ℕ) : State α :=
  h.writeRegs { s with alloc := h.align s.alloc } bus d fun v =>
    { v with subordinate := subBus % 256 }

/-- `pciauto_config_device`; `scanBus` is `pci_hose_scan_bus`. -/
def pciautoConfigDevice (scanBus : State α → ℕ → Option (ℕ × State α)) (s : State α)
    (bus d : ℕ) (f : PciFn) : Option (State α) :=
  if f.isBridge then
    let s := h.pciautoSetupDevice s bus d
    let s := h.pciautoPrescanSetupBridge s bus d (pciBus bus)
    (scanBus s (pciBus bus + 1)).map fun r => h.pciautoPostscanSetupBridge r.2 bus d r.1
  else some (h.pciautoSetupDevice s bus d)

/-- One turn of the loop in `pci_hose_scan_bus`, with `found_multi`. -/
def scanFn (scanBus : State α → ℕ → Option (ℕ × State α)) (bus : ℕ) (st : Bool × State α)
    (d : ℕ) : Option (Bool × State α) :=
  if !h.ppc405gp && bus == h.firstBusno && d == 0 then some st
  else if d % 8 != 0 && !st.1 then some st
  else match h.fnAt st.2 (pciBus bus) d with
    | some f =>
      (h.pciautoConfigDevice scanBus st.2 bus d f).map fun s =>
        (if d % 8 = 0 then f.multi else st.1, s)
    | none => some st

/-- `pci_hose_scan_bus`, for recursions of a bounded depth. It goes from device 0, function 0 up
to but not including device 31, function 7, and returns the number of its bus. -/
def pciHoseScanBus : ℕ → State α → ℕ → Option (ℕ × State α)
  | 0, _, _ => none
  | k + 1, s, bus =>
    ((List.range (31 * 8 + 7)).foldlM (h.scanFn (pciHoseScanBus k) bus) (false, s)).map
      fun st => (bus, st.2)

def pciHoseScan (s : State α) : Option (ℕ × State α) :=
  h.pciHoseScanBus (h.topo.depth + 1) s h.firstBusno

end Hose

end UBoot.Pci
