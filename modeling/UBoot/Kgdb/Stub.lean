import UBoot.Kgdb.Packet

/-!
# The debugger's commands (`handle_exception` of `common/kgdb.c`, `lib_ppc/kgdb.c`)

The memory is a partial function: an access where it has no byte faults, and the fault handler
jumps back with `KGDBERR_MEMFAULT`. Errors are numbers; `kgdb_error` jumps back with one, too.
-/

namespace UBoot.Kgdb

def KGDBERR_BADPARAMS : ℕ := 1
def KGDBERR_NOTHEXDIG : ℕ := 2
def KGDBERR_MEMFAULT : ℕ := 3
def KGDBERR_NOSPACE : ℕ := 4

/-- The registers of a `struct pt_regs`; there are 32 `gpr`. -/
structure PtRegs where
  gpr : ℕ → UInt32
  nip : UInt32
  msr : UInt32
  ccr : UInt32
  link : UInt32
  ctr : UInt32
  xer : UInt32
  trap : UInt32

abbrev Mem := UInt32 → Option UInt8

structure Machine where
  mem : Mem
  regs : PtRegs

/-! ### Registers -/

def wordBytes (w : UInt32) : List UInt8 :=
  [(w >>> 24).toUInt8, (w >>> 16).toUInt8, (w >>> 8).toUInt8, w.toUInt8]

/-- Word `i` of a buffer. -/
def wordAt (buf : List UInt8) (i : ℕ) : UInt32 :=
  (buf.getD (4 * i) 0).toUInt32 <<< 24 ||| (buf.getD (4 * i + 1) 0).toUInt32 <<< 16 |||
    (buf.getD (4 * i + 2) 0).toUInt32 <<< 8 ||| (buf.getD (4 * i + 3) 0).toUInt32

def SPACE_REQUIRED : ℕ := 32 * 4 + 32 * 8 + 6 * 4

/-- `kgdb_getregs`; there are no floating point registers. -/
def kgdbGetregs (regs : PtRegs) : List UInt8 :=
  ((List.range 32).map regs.gpr ++ List.replicate 64 0 ++
    [regs.nip, regs.msr, regs.ccr, regs.link, regs.ctr, regs.xer]).flatMap wordBytes

def kgdbPutregs (regs : PtRegs) (buf : List UInt8) : Except ℕ PtRegs :=
  if buf.length < SPACE_REQUIRED then .error KGDBERR_NOSPACE
  else
    .ok { regs with
      gpr := wordAt buf
      nip := wordAt buf 96
      msr := wordAt buf 97
      ccr := wordAt buf 98
      link := wordAt buf 99
      ctr := wordAt buf 100
      xer := wordAt buf 101 }

/-- `kgdb_putreg`: 69 is the number of `xer` and sets `ctr`. -/
def kgdbPutreg (regs : PtRegs) (regno : ℤ) (buf : List UInt8) : Except ℕ PtRegs :=
  if regno < 0 ∨ regno ≥ 70 then .error KGDBERR_BADPARAMS
  else if buf.length < (if regno ≥ 32 ∧ regno < 64 then 8 else 4) then .error KGDBERR_NOSPACE
  else if regno < 32 then
    .ok { regs with gpr := Function.update regs.gpr regno.toNat (wordAt buf 0) }
  else if regno = 64 then .ok { regs with nip := wordAt buf 0 }
  else if regno = 65 then .ok { regs with msr := wordAt buf 0 }
  else if regno = 66 then .ok { regs with ccr := wordAt buf 0 }
  else if regno = 67 then .ok { regs with link := wordAt buf 0 }
  else if regno = 68 then .ok { regs with ctr := wordAt buf 0 }
  else if regno = 69 then .ok { regs with ctr := wordAt buf 0 }
  else .error KGDBERR_BADPARAMS

/-! ### Hexadecimal -/

def mem2hex (mem : List UInt8) : List UInt8 := mem.flatMap byte2hex

/-- `hex2mem`, with what stores a byte and may fault; behind the string is its 0, which is no
digit. -/
def hex2mem {σ : Type*} (store : UInt8 → σ → Option σ) : ℕ → List UInt8 → σ → Option ℕ × σ
  | 0, _, s => (none, s)
  | n + 1, hi :: lo :: buf, s =>
    if hex hi < 0 then (some KGDBERR_NOTHEXDIG, s)
    else if hex lo < 0 then (some KGDBERR_NOTHEXDIG, s)
    else
      match store (UInt8.ofInt (hex hi * 16) ||| UInt8.ofInt (hex lo)) s with
      | none => (some KGDBERR_MEMFAULT, s)
      | some s => hex2mem store n buf s
  | _ + 1, _, s => (some KGDBERR_NOTHEXDIG, s)

/-- `hexToInt`: the number of digits, the value and the rest of the string. -/
def hexToInt : List UInt8 → ℕ → UInt32 → ℕ × UInt32 × List UInt8
  | [], numChars, intValue => (numChars, intValue, [])
  | ch :: s, numChars, intValue =>
    if hex ch < 0 then (numChars, intValue, ch :: s)
    else hexToInt s (numChars + 1) (intValue <<< 4 ||| UInt32.ofInt (hex ch))

/-- `hexToInt(&ptr, &n) && *ptr++ == sep` -/
def number (sep : UInt8) (ptr : List UInt8) : Option (UInt32 × List UInt8) :=
  match hexToInt ptr 0 0 with
  | (_ + 1, n, c :: ptr) => if c = sep then some (n, ptr) else none
  | _ => none

/-! ### Memory -/

def storeMem (b : UInt8) : UInt32 × Mem → Option (UInt32 × Mem)
  | (addr, mem) =>
    match mem addr with
    | none => none
    | some _ => some (addr + 1, Function.update mem addr (some b))

/-- A store into `remcomRegBuffer`. -/
def storeReg (b : UInt8) (buf : List UInt8) : Option (List UInt8) := some (buf ++ [b])

def readMem (mem : Mem) : ℕ → UInt32 → Option (List UInt8)
  | 0, _ => some []
  | n + 1, addr =>
    match mem addr with
    | none => none
    | some b => (readMem mem n (addr + 1)).map (b :: ·)

/-- An `int` as the number of turns of a loop that counts it down. -/
def turns (length : UInt32) : ℕ := length.toInt32.toInt.toNat

/-! ### Commands -/

/-- How a command ends: with a reply; with the registers with which the processor goes on; with a
reply that is too long for its buffer; with a reset. -/
inductive Outcome where
  | reply (out : List UInt8) (m : Machine)
  | resume (m : Machine)
  | overrun
  | reset

/-- `E%02d` -/
def errorReply (errnum : ℕ) : List UInt8 := [0x45, 0x30, 0x30 + UInt8.ofNat errnum]

def okReply : List UInt8 := [0x4f, 0x4b]

/-- What is replied to a change of the registers. -/
def putReply (m : Machine) : Except ℕ PtRegs → Outcome
  | .error errnum => .reply (errorReply errnum) m
  | .ok regs => .reply okReply { m with regs }

/-- `G` -/
def putRegs (ptr : List UInt8) (m : Machine) : Outcome :=
  if ptr.length % 2 ≠ 0 then .reply (errorReply KGDBERR_BADPARAMS) m
  else
    match hex2mem storeReg (ptr.length / 2) ptr [] with
    | (some errnum, _) => .reply (errorReply errnum) m
    | (none, buf) => putReply m (kgdbPutregs m.regs buf)

/-- `m` -/
def readMemory (ptr : List UInt8) (m : Machine) : Outcome :=
  match number 0x2c ptr with
  | none => .reply (errorReply KGDBERR_BADPARAMS) m
  | some (addr, ptr) =>
    match hexToInt ptr 0 0 with
    | (0, _, _) => .reply (errorReply KGDBERR_BADPARAMS) m
    | (_ + 1, length, _) =>
      match readMem m.mem (min (turns length) (BUFMAX / 2 + 1)) addr with
      | none => .reply (errorReply KGDBERR_MEMFAULT) m
      | some bytes => if BUFMAX ≤ 2 * turns length then .overrun else .reply (mem2hex bytes) m

/-- `M` -/
def writeMemory (ptr : List UInt8) (m : Machine) : Outcome :=
  match number 0x2c ptr with
  | none => .reply (errorReply KGDBERR_BADPARAMS) m
  | some (addr, ptr) =>
    match number 0x3a ptr with
    | none => .reply (errorReply KGDBERR_BADPARAMS) m
    | some (length, ptr) =>
      match hex2mem storeMem (turns length) ptr (addr, m.mem) with
      | (some errnum, _, mem) => .reply (errorReply errnum) { m with mem }
      | (none, _, mem) => .reply okReply { m with mem }

/-- `P` -/
def putReg (ptr : List UInt8) (m : Machine) : Outcome :=
  match number 0x3d ptr with
  | none => .reply (errorReply KGDBERR_BADPARAMS) m
  | some (addr, ptr) =>
    if ptr.length % 2 ≠ 0 then .reply (errorReply KGDBERR_BADPARAMS) m
    else
      match hex2mem storeReg (ptr.length / 2) ptr [] with
      | (some errnum, _) => .reply (errorReply errnum) m
      | (none, buf) => putReply m (kgdbPutreg m.regs addr.toInt32.toInt buf)

/-- `KGDBEXIT_WITHADDR` -/
def withAddr (ptr : List UInt8) (regs : PtRegs) : PtRegs :=
  match hexToInt ptr 0 0 with
  | (_ + 1, addr, _) => { regs with nip := addr }
  | _ => regs

def MSR_SE : UInt32 := 0x400

/-- A command, with what `kgdb_exit` makes of the registers. -/
def command (sigval : UInt8) (entry : PtRegs) : List UInt8 → Machine → Outcome
  | [], m => .reply [] m
  | cmd :: ptr, m =>
    if cmd = 0x3f then .reply (0x53 :: byte2hex sigval) m
    else if cmd = 0x67 then .reply (mem2hex (kgdbGetregs m.regs)) m
    else if cmd = 0x47 then putRegs ptr m
    else if cmd = 0x6d then readMemory ptr m
    else if cmd = 0x4d then writeMemory ptr m
    else if cmd = 0x6b then .resume { m with regs := entry }
    else if cmd = 0x43 then .resume m
    else if cmd = 0x63 then .resume { m with regs := withAddr ptr m.regs }
    else if cmd = 0x53 then .resume { m with regs := { m.regs with msr := m.regs.msr ||| MSR_SE } }
    else if cmd = 0x73 then
      let regs := withAddr ptr m.regs
      .resume { m with regs := { regs with msr := regs.msr ||| MSR_SE } }
    else if cmd = 0x72 then .reset
    else if cmd = 0x50 then putReg ptr m
    else .reply [] m

/-- The buffer after a command; `C` and `S` cut their signal off. -/
def cut (buffer : List UInt8) : List UInt8 :=
  if buffer.getD 0 0 = 0x43 ∨ buffer.getD 0 0 = 0x53 then buffer.set 1 0 else buffer

/-! ### The loop of `handle_exception` -/

theorem getpacket_length {buffer inp buffer' out rest : List UInt8}
    (h : getpacket buffer inp = some (buffer', out, rest)) : rest.length < inp.length := by
  induction hlen : inp.length using Nat.strong_induction_on generalizing buffer inp out with
  | _ len ih =>
    rw [getpacket] at h
    split at h
    · cases h
    · next hstart =>
      have h1 := hunt_length hstart
      split at h
      · cases h
      · next hend =>
        have h2 := gather_length hend
        split_ifs at h
        · cases h
          omega
        · exact (ih _ (by omega) h rfl).trans (by omega)
      · next hend =>
        have h2 := gather_length hend
        simp only [List.length_cons] at h2
        split_ifs at h
        · cases h
          omega
        · obtain ⟨⟨buffer2, out2, rest2⟩, h', heq⟩ := Option.map_eq_some_iff.1 h
          cases heq
          exact (ih _ (by omega) h' rfl).trans (by omega)
      · cases h

theorem putpacket_length {buffer inp out rest : List UInt8}
    (h : putpacket buffer inp = some (out, rest)) : rest.length < inp.length := by
  induction inp generalizing out with
  | nil => cases h
  | cons recv inp ih =>
    rw [putpacket] at h
    split_ifs at h
    · obtain ⟨⟨out', rest'⟩, h', heq⟩ := Option.map_eq_some_iff.1 h
      obtain ⟨-, rfl⟩ : _ ∧ rest' = rest := by simpa using heq
      exact (ih h').trans (Nat.lt_succ_self _)
    · obtain ⟨-, rfl⟩ : frame buffer = out ∧ inp = rest := by simpa using h
      exact Nat.lt_succ_self _

/-- Requests are answered until one of them does not come back: what is sent, the buffer, how the
last one ends, and what is left of the input. -/
def serve (sigval : UInt8) (entry : PtRegs) (buffer : List UInt8) (m : Machine)
    (inp : List UInt8) : Option (List UInt8 × List UInt8 × Outcome × List UInt8) :=
  match hget : getpacket buffer inp with
  | none => none
  | some (buffer, ack, inp1) =>
    match command sigval entry (str buffer) m with
    | .reply out m =>
      match hput : putpacket out inp1 with
      | none => none
      | some (sent, inp2) =>
        (serve sigval entry buffer m inp2).map fun (out, last) => (ack ++ sent ++ out, last)
    | last => some (ack, cut buffer, last, inp1)
termination_by inp.length
decreasing_by
  exact (putpacket_length hput).trans (getpacket_length hget)

/-! ### `handle_exception` -/

def hardTrapInfo : List (UInt32 × UInt8) :=
  [(0x200, 11), (0x300, 11), (0x400, 7), (0x500, 2), (0x600, 7), (0x700, 5), (0x800, 8),
    (0x900, 14), (0xa00, 4), (0xb00, 4), (0xc00, 17), (0xd00, 5), (0xe00, 8)]

/-- `computeSignal`, `SIGHUP` for what is not in the table. -/
def computeSignal (tt : UInt32) : UInt8 := (hardTrapInfo.lookup tt).getD 1

/-- `kgdb_enter`: the registers after it. -/
def kgdbEnter (breakinst : UInt32) (regs : PtRegs) : PtRegs :=
  { regs with
    nip := if regs.nip = breakinst then regs.nip + 4 else regs.nip
    msr := regs.msr &&& ~~~MSR_SE }

/-- The report of the signal, the program counter and the stack pointer. -/
def stopPacket (sigval : UInt8) (regs : PtRegs) : List UInt8 :=
  0x54 :: byte2hex sigval ++
    (byte2hex 64 ++ colon :: mem2hex (wordBytes regs.nip) ++ [0x3b]) ++
    (byte2hex 1 ++ colon :: mem2hex (wordBytes (regs.gpr 1)) ++ [0x3b])

/-- What is left between two exceptions: `remcomInBuffer`, and `entry_regs` unless the next one is
the first entry. -/
structure Stub where
  buffer : List UInt8
  entryRegs : Option PtRegs

/-- `handle_exception`, once `kgdb_init` has been called. -/
def handleException (breakinst : UInt32) (stub : Stub) (m : Machine) (inp : List UInt8) :
    Option (List UInt8 × Stub × Outcome × List UInt8) :=
  let regs := kgdbEnter breakinst m.regs
  let sigval := computeSignal regs.trap
  let entry := stub.entryRegs.getD regs
  match putpacket (stopPacket sigval regs) inp with
  | none => none
  | some (sent, inp) =>
    (serve sigval entry stub.buffer { m with regs } inp).map fun (out, buffer, last, inp) =>
      (sent ++ out, ⟨buffer, if buffer.getD 0 0 = 0x6b then none else some entry⟩, last, inp)

end UBoot.Kgdb
