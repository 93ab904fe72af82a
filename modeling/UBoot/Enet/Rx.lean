import UBoot.Lib.Ring

/-!
# The receive ring of the PPC405 Ethernet (`cpu/ppc4xx/405gp_enet.c`)

The MAL fills the descriptors of a ring of `NUM_RX_BUFF` (`N` below) in order. `enet_rcv`, called
by the interrupt handler, looks at them in the same order and queues what is good in `rx_ready`;
`eth_rx` hands it to `NetReceive` and gives the descriptor back. One iteration of the loop of
`enet_rcv` is two steps here, so that frames can arrive in between.
-/

namespace UBoot.Enet

open UBoot.Lib

def ENET_MAX_MTU : ℕ := 1518

/-- What the MAL receives: the contents, `data_len` and the error bits of `ctrl`. -/
structure Frame (β : Type) where
  payload : β
  dataLen : ℕ
  errors : Bool

/-- A descriptor with its buffer; `empty` is `MAL_RX_CTRL_EMPTY`. -/
structure Desc (β : Type) where
  empty : Bool
  frame : Frame β

/-- Where `enet_rcv` stands. -/
inductive Isr where
  /-- not called -/
  | idle
  /-- at the head of the loop -/
  | loop (loopCount : ℕ)
  /-- with `rx_slot` moved on from descriptor `i` -/
  | file (i loopCount : ℕ)
  deriving DecidableEq

/-- The state of the driver and of the MAL: `mal` is the descriptor that is filled next, `eob` the
end-of-buffer bit, `user` the `user_index` of `eth_rx`. The last three fields are the history: the
frames that arrived, what `NetReceive` got, and the descriptors that were given back. -/
structure Rx (β : Type) where
  rx : ℕ → Desc β
  rxReady : ℕ → Option ℕ
  rxSlot : ℕ
  rxI : ℕ
  rxU : ℕ
  mal : ℕ
  eob : Bool
  isr : Isr
  user : Option ℕ
  arrived : List (Frame β)
  handed : List (β × ℤ)
  freed : List ℕ

variable {β : Type}

/-- After `eth_init`. -/
def ethInit (blank : Frame β) : Rx β where
  rx := fun _ => ⟨true, blank⟩
  rxReady := fun _ => none
  rxSlot := 0
  rxI := 0
  rxU := 0
  mal := 0
  eob := false
  isr := .idle
  user := none
  arrived := []
  handed := []
  freed := []

/-- `data_len` after the checks of `enet_rcv`. -/
def checkLen (f : Frame β) : ℕ :=
  if f.dataLen ≠ 0 then
    if ENET_MAX_MTU < f.dataLen then 0
    else if f.errors then 0
    else f.dataLen
  else 0

/-- The contents and the length that `NetReceive` gets. -/
def Frame.handedOver (f : Frame β) : β × ℤ := (f.payload, f.dataLen - 4)

/-- The MAL fills its next descriptor and latches the end-of-buffer bit. -/
def Rx.fill (N : ℕ) (s : Rx β) (f : Frame β) : Rx β :=
  { s with
    rx := Function.update s.rx s.mal ⟨false, f⟩
    mal := Ring.next N s.mal
    eob := true
    arrived := s.arrived ++ [f] }

def Rx.free (s : Rx β) (i : ℕ) : Rx β :=
  { s with rx := Function.update s.rx i { s.rx i with empty := true }, freed := s.freed ++ [i] }

/-- The head of the loop of `enet_rcv`. -/
def Rx.look (N : ℕ) (s : Rx β) (loopCount : ℕ) : Rx β :=
  if (s.rx s.rxSlot).empty = true ∨ N ≤ loopCount then { s with isr := .idle }
  else { s with rxSlot := Ring.next N s.rxSlot, isr := .file s.rxSlot (loopCount + 1) }

/-- The body of the loop of `enet_rcv`, for descriptor `i`. -/
def Rx.file (N : ℕ) (s : Rx β) (i loopCount : ℕ) : Rx β :=
  if checkLen (s.rx i).frame = 0 then { s.free i with isr := .loop loopCount }
  else if (s.rxReady s.rxI).isSome then { s with isr := .idle }
  else
    { s with
      rxReady := Function.update s.rxReady s.rxI (some i)
      rxI := Ring.next N s.rxI
      isr := .loop loopCount }

/-- The body of the loop of `eth_rx`, with interrupts off. -/
def Rx.take (N : ℕ) (s : Rx β) (i : ℕ) : Rx β :=
  { s.free i with
    handed := s.handed ++ [(s.rx i).frame.handedOver]
    rxReady := Function.update s.rxReady s.rxU none
    rxU := Ring.next N s.rxU
    user := none }

inductive Event (β : Type) where
  /-- a frame arrives -/
  | arrive (f : Frame β)
  /-- `enetInt` finds the end-of-buffer bit and calls `enet_rcv`, which clears it -/
  | irq
  /-- a step of `enet_rcv` -/
  | isr
  /-- `eth_rx` reads `rx_ready` -/
  | peek
  /-- `eth_rx` hands over what it found -/
  | take

/-- A step; `eth_rx` does not run inside of `enet_rcv`. A frame that finds its descriptor not
empty is a descriptor error. -/
def step (N : ℕ) (s : Rx β) : Event β → Option (Rx β)
  | .arrive f => if (s.rx s.mal).empty = true then some (s.fill N f) else none
  | .irq =>
    if s.isr = .idle ∧ s.eob = true then some { s with eob := false, isr := .loop 0 } else none
  | .isr =>
    match s.isr with
    | .idle => none
    | .loop loopCount => some (s.look N loopCount)
    | .file i loopCount => some (s.file N i loopCount)
  | .peek =>
    if s.isr = .idle ∧ s.user = none then some { s with user := s.rxReady s.rxU } else none
  | .take => if s.isr = .idle then s.user.map (s.take N) else none

def run (N : ℕ) : Rx β → List (Event β) → Option (Rx β)
  | s, [] => some s
  | s, e :: es => (step N s e).bind fun s' => run N s' es

/-! ## What the driver should do -/

def Frame.Good (f : Frame β) : Prop := 0 < f.dataLen ∧ f.dataLen ≤ ENET_MAX_MTU ∧ f.errors = false

instance (f : Frame β) : Decidable f.Good := inferInstanceAs (Decidable (_ ∧ _))

/-- The driver and the MAL are in step: `L` frames were looked at, and of these the descriptors `q`
are queued. -/
structure InStepAt (N : ℕ) (s : Rx β) (L : ℕ) (q : List ℕ) : Prop where
  le : L ≤ s.arrived.length
  order : ((s.arrived.take L).filter fun f => f.Good).map Frame.handedOver =
    s.handed ++ q.map fun i => (s.rx i).frame.handedOver
  room : q.length ≤ N
  ready : ∀ j < N, s.rxReady ((s.rxU + j) % N) = q[j]?
  busy : ∀ i ∈ q, (s.rx i).empty = false
  fresh : ∀ k f, L ≤ k → s.arrived[k]? = some f → s.rx (k % N) = ⟨false, f⟩
  mal : s.mal = s.arrived.length % N
  slot : s.isr = .idle → s.rxSlot = L % N
  pending : s.isr = .idle → L < s.arrived.length → s.eob = true
  once : ∀ d < N, s.freed.count d + (if (s.rx d).empty = true then 0 else 1) =
    (List.range s.arrived.length).countP fun k => k % N = d

def InStep (N : ℕ) (s : Rx β) : Prop := ∃ L q, InStepAt N s L q

/-- The step looks at no descriptor that is still queued. -/
def Fresh (N : ℕ) (s : Rx β) : Prop :=
  ∀ n < N, s.isr = .loop n → (s.rx s.rxSlot).empty = false → ∀ j < N, s.rxReady j ≠ some s.rxSlot

/-- No step of a run looks at a descriptor that is still queued. -/
def AllFresh (N : ℕ) : Rx β → List (Event β) → Prop
  | _, [] => True
  | s, e :: es => (e = .isr → Fresh N s) ∧ ∀ s', step N s e = some s' → AllFresh N s' es

end UBoot.Enet
