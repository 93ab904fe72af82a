import UBoot.Ide.Transfer

/-!
# Reading from a CD drive: `atapi_read` (`common/cmd_ide.c`)

`atapi_issue` sends a packet command, `atapi_issue_autoreq` asks for the sense data after an error
and tries again, and `atapi_read` reads block after block. A drive is what it answers to its
commands, one after the other. `atapi_read_iff` says when each block that is counted was read whole.
-/

namespace UBoot.Ide

/-- `ATAPI_TIME_OUT`, in ms. -/
def atapiTimeOut : ℕ := 7000

def atapiCmdReqSense : UInt8 := 0x03
def atapiCmdRead12 : UInt8 := 0xa8

def atapiUnitAttn : ℕ := 10
def atapiDriveNotReady : ℕ := 100

def atapiReadBlockSize : ℕ := 2048
def atapiReadMaxBlock : ℕ := 2048 / 2048

/-- What a drive answers to a command: its statuses while it is waited for, before and behind the
packet and at the end, its registers, and its data. -/
structure Reply where
  select : ℕ → UInt8
  packet : ℕ → UInt8
  command : ℕ → UInt8
  final : ℕ → UInt8
  error : UInt8
  cylHigh : UInt8
  cylLow : UInt8
  sectCnt : UInt8
  finalError : UInt8
  data : ℕ → UInt8

/-- The loop of `atapi_wait_mask`, with `delay` polls left. -/
def waitMaskLoop (status : ℕ → UInt8) (mask res : UInt8) : ℕ → ℕ → UInt8
  | 0, i => status i
  | delay + 1, i =>
    if status i &&& mask ≠ res ∧ status i &&& statErr ≠ statErr then
      waitMaskLoop status mask res delay (i + 1)
    else status i

/-- `atapi_wait_mask`: the last status. -/
def atapiWaitMask (status : ℕ → UInt8) (t : ℕ) (mask res : UInt8) : UInt8 :=
  waitMaskLoop status mask res (10 * t) 0

/-- A packet command: what `atapi_issue` returns, what it stored in the buffer, and the status at
the end, if the data were transferred. -/
structure Packet where
  ccb : List UInt8
  buflen : ℕ
  err : UInt8
  stored : List UInt8
  final : Option UInt8

namespace Reply

variable (a : Reply)

def selected : UInt8 := atapiWaitMask a.select atapiTimeOut (statBusy ||| statDrq) 0
def prompted : UInt8 :=
  atapiWaitMask a.packet atapiTimeOut (statDrq ||| statBusy ||| statErr) statDrq
def answered (buflen : ℕ) : UInt8 :=
  atapiWaitMask a.command atapiTimeOut (statDrq ||| statBusy ||| statErr)
    (if buflen ≠ 0 then statDrq else 0)
def ended : UInt8 := atapiWaitMask a.final atapiTimeOut (statBusy ||| statErr) 0

/-- The number of bytes that the drive announces. -/
def count : ℕ := a.cylHigh.toNat * 2 ^ 8 + a.cylLow.toNat

end Reply

/-- `atapi_issue`. The lengths that it is called with are not negative. -/
def atapiIssue (a : Reply) (ccb : List UInt8) (buflen : ℕ) : Packet :=
  if a.selected &&& (statBusy ||| statDrq) ≠ 0 then ⟨ccb, buflen, 0xff, [], none⟩
  else if a.prompted &&& (statDrq ||| statBusy ||| statErr) ≠ statDrq then
    ⟨ccb, buflen, 0xff, [], none⟩
  else if a.answered buflen &&& (statDrq ||| statBusy ||| statErr) ≠
      if buflen ≠ 0 then statDrq else 0 then
    if a.answered buflen &&& statErr ≠ 0 then ⟨ccb, buflen, a.error >>> 4, [], none⟩
    else ⟨ccb, buflen, 0xff, [], none⟩
  else if buflen < a.count then ⟨ccb, buflen, 0xff, [], none⟩
  else
    -- a count that is not `buflen` is a warning only, and the drive says where the data go
    let stored :=
      if a.sectCnt &&& 2 = 0 then [] else (List.range (2 * (a.count / 2))).map a.data
    if a.ended &&& statErr = statErr then
      ⟨ccb, buflen, a.finalError >>> 4, stored, some a.ended⟩
    else ⟨ccb, buflen, 0, stored, some a.ended⟩

def senseCcb : List UInt8 := [atapiCmdReqSense, 0, 0, 0, 18, 0, 0, 0, 0, 0, 0, 0]

/-- `sense_data`, which is cleared before. -/
def Packet.senseData (p : Packet) (i : ℕ) : UInt8 := p.stored.getD i 0

/-- `key` -/
def senseKey (sense : ℕ → UInt8) : UInt8 := sense 2 &&& 0xf

/-- Unit attention, and a drive that will be ready soon, by `key`, `asc` and `ascq`. -/
def Attention (sense : ℕ → UInt8) : Prop :=
  senseKey sense = 6 ∨ sense 12 = 0x29 ∨ sense 12 = 0x28

def Soon (sense : ℕ → UInt8) : Prop := sense 12 = 4 ∧ sense 13 = 1

instance (sense : ℕ → UInt8) : Decidable (Attention sense) := inferInstanceAs (Decidable (_ ∨ _))
instance (sense : ℕ → UInt8) : Decidable (Soon sense) := inferInstanceAs (Decidable (_ ∧ _))

/-- `atapi_issue_autoreq` from `retry` on, with the commands it issues; the next one is number
`k`. -/
def atapiIssueAutoreq (drive : ℕ → Reply) (ccb : List UInt8) (buflen unitattn notready k : ℕ) :
    UInt8 × List Packet :=
  let p := atapiIssue (drive k) ccb buflen
  if p.err = 0 then (0, [p])
  else if p.err = 0xff then (0xff, [p])
  else
    let sense := atapiIssue (drive (k + 1)) senseCcb 18
    if senseKey sense.senseData = 0 then (0, [p, sense])
    else if Attention sense.senseData then
      if 0 < unitattn then
        let r := atapiIssueAutoreq drive ccb buflen (unitattn - 1) notready (k + 2)
        (r.1, p :: sense :: r.2)
      else (0xff, [p, sense])
    else if Soon sense.senseData then
      if 0 < notready then
        let r := atapiIssueAutoreq drive ccb buflen unitattn (notready - 1) (k + 2)
        (r.1, p :: sense :: r.2)
      else (0xff, [p, sense])
    else (0xff, [p, sense])
  termination_by unitattn + notready

/-- The command block for `cnt` blocks. -/
def readCcb (blknr : UInt32) (cnt : ℕ) : List UInt8 :=
  [atapiCmdRead12, 0, (blknr >>> 24).toUInt8, (blknr >>> 16).toUInt8, (blknr >>> 8).toUInt8,
    blknr.toUInt8, UInt8.ofNat (cnt >>> 24), UInt8.ofNat (cnt >>> 16), UInt8.ofNat (cnt >>> 8),
    UInt8.ofNat cnt, 0, 0]

/-- The commands for a block, and where its data go. -/
structure Block where
  cnt : ℕ
  buffer : ℕ
  packets : List Packet

/-- The loop of `atapi_read`: the blocks that are counted, and the commands. -/
def atapiReadLoop (drive : ℕ → Reply) (blkcnt : ℕ) (blknr : UInt32) (buffer k : ℕ) :
    ℕ × List Block :=
  let cnt := if atapiReadMaxBlock < blkcnt then atapiReadMaxBlock else blkcnt
  let r := atapiIssueAutoreq drive (readCcb blknr cnt) (cnt * atapiReadBlockSize) atapiUnitAttn
    atapiDriveNotReady k
  if r.1 = 0xff then (0, [⟨cnt, buffer, r.2⟩])
  else if 0 < blkcnt - cnt then
    let rest := atapiReadLoop drive (blkcnt - cnt) (blknr + UInt32.ofNat cnt)
      (buffer + cnt * atapiReadBlockSize) (k + r.2.length)
    (cnt + rest.1, ⟨cnt, buffer, r.2⟩ :: rest.2)
  else (cnt, [⟨cnt, buffer, r.2⟩])
  termination_by blkcnt
  decreasing_by
    unfold atapiReadMaxBlock at *
    split at * <;> omega

def atapiRead (drive : ℕ → Reply) (blknr : UInt32) (blkcnt buffer : ℕ) : ℕ × List Block :=
  atapiReadLoop drive blkcnt blknr buffer 0

/-! ## What a read should do -/

/-- The block was read whole, by a command that ended without an error. -/
def Packet.Whole (p : Packet) (blknr : UInt32) : Prop :=
  p.ccb = readCcb blknr 1 ∧ p.stored.length = 2048 ∧
    ∃ c ∈ p.final, c &&& (statBusy ||| statErr) = 0

/-- No more is stored than there is room for, in the buffer or in `sense_data`. -/
def Packet.Fits (p : Packet) (buflen : ℕ) : Prop :=
  p.stored.length ≤ p.buflen ∧ (p.buflen = buflen ∨ p.ccb = senseCcb ∧ p.buflen = 18)

/-- The tries for a block are bounded, no command stores more than there is room for, and each
block that is counted was read whole. -/
structure Reads (blknr : UInt32) (blkcnt buffer : ℕ) (r : ℕ × List Block) : Prop where
  le : r.1 ≤ blkcnt
  tries : ∀ b ∈ r.2, b.packets.length ≤ 2 * (atapiUnitAttn + atapiDriveNotReady + 1)
  room : ∀ b ∈ r.2, ∀ p ∈ b.packets, p.Fits (b.cnt * 2048)
  whole : ∀ i < r.1, ∃ b, r.2[i]? = some b ∧ b.buffer = buffer + 2048 * i ∧
    ∃ p ∈ b.packets, p.Whole (blknr + UInt32.ofNat i)

namespace Reply

variable (a : Reply) (buflen : ℕ)

def Accepts : Prop :=
  a.selected &&& (statBusy ||| statDrq) = 0 ∧
    a.prompted &&& (statDrq ||| statBusy ||| statErr) = statDrq

/-- It is ready for the data behind the packet. -/
def Sends : Prop :=
  a.answered buflen &&& (statDrq ||| statBusy ||| statErr) = if buflen ≠ 0 then statDrq else 0

instance : Decidable a.Accepts := inferInstanceAs (Decidable (_ ∧ _))
instance : Decidable (a.Sends buflen) := inferInstanceAs (Decidable (_ = _))

/-- It gives no sign of an error, or one with sense key 0. -/
def Passes : Prop :=
  a.Accepts ∧
    (a.Sends buflen ∧ a.count ≤ buflen ∧
        (a.ended &&& statErr = statErr → a.finalError >>> 4 = 0) ∨
      ¬ a.Sends buflen ∧ a.answered buflen &&& statErr ≠ 0 ∧ a.error >>> 4 = 0)

def Reports : Prop :=
  a.Accepts ∧
    (a.Sends buflen ∧ a.count ≤ buflen ∧ a.ended &&& statErr = statErr ∧ a.finalError >>> 4 ≠ 0 ∨
      ¬ a.Sends buflen ∧ a.answered buflen &&& statErr ≠ 0 ∧ a.error >>> 4 ≠ 0)

/-- It sends a whole block, and ends without an error. -/
def Delivers : Prop :=
  a.Sends 2048 ∧ a.count = 2048 ∧ a.sectCnt &&& 2 ≠ 0 ∧ a.ended &&& (statBusy ||| statErr) = 0

def senseData (i : ℕ) : UInt8 :=
  if a.Accepts ∧ a.Sends 18 ∧ a.count ≤ 18 ∧ a.sectCnt &&& 2 ≠ 0 ∧ i < 2 * (a.count / 2) then
    a.data i
  else 0

end Reply

/-- The answers to the commands for a block, from number `k` on: what passes is a whole block, and
what is reported comes with a sense key; then `Rest` of the number of the next command. -/
def FineBlock (drive : ℕ → Reply) (Rest : ℕ → Prop) (unitattn notready k : ℕ) : Prop :=
  ((drive k).Passes 2048 → (drive k).Delivers ∧ Rest (k + 1)) ∧
  ((drive k).Reports 2048 →
    senseKey (drive (k + 1)).senseData ≠ 0 ∧
    (Attention (drive (k + 1)).senseData → (_ : 0 < unitattn) →
      FineBlock drive Rest (unitattn - 1) notready (k + 2)) ∧
    (¬ Attention (drive (k + 1)).senseData → Soon (drive (k + 1)).senseData →
      (_ : 0 < notready) → FineBlock drive Rest unitattn (notready - 1) (k + 2)))
  termination_by unitattn + notready

/-- The answers for `blkcnt` blocks. -/
def FineRead (drive : ℕ → Reply) : ℕ → ℕ → Prop
  | 0, _ => True
  | blkcnt + 1, k => FineBlock drive (FineRead drive blkcnt) atapiUnitAttn atapiDriveNotReady k

/-! ## A command -/

section
variable {a : Reply} {ccb : List UInt8} {buflen : ℕ} {blknr : UInt32}

theorem senseKey_ne (x : UInt8) : x >>> 4 ≠ 0xff := by
  intro h
  have hnat := congrArg UInt8.toNat h
  have hfour : (4 : UInt8).toNat % 8 = 4 := rfl
  have hff : (0xff : UInt8).toNat = 255 := rfl
  have hx := x.toNat_lt
  rw [UInt8.toNat_shiftRight, hfour, Nat.shiftRight_eq_div_pow, hff] at hnat
  omega

theorem atapiIssue_refused (h : ¬ a.Accepts) :
    atapiIssue a ccb buflen = ⟨ccb, buflen, 0xff, [], none⟩ := by
  unfold atapiIssue
  by_cases hselect : a.selected &&& (statBusy ||| statDrq) ≠ 0
  · exact if_pos hselect
  · rw [if_neg hselect]
    exact if_pos fun hprompt => h ⟨not_not.mp hselect, hprompt⟩

theorem atapiIssue_unready (h : a.Accepts) (hsends : ¬ a.Sends buflen) :
    atapiIssue a ccb buflen =
      ⟨ccb, buflen, if a.answered buflen &&& statErr ≠ 0 then a.error >>> 4 else 0xff, [],
        none⟩ := by
  unfold atapiIssue
  unfold Reply.Sends at hsends
  rw [if_neg (not_not.mpr h.1), if_neg (not_not.mpr h.2), if_pos hsends]
  split_ifs <;> rfl

theorem atapiIssue_sends (h : a.Accepts) (hsends : a.Sends buflen) :
    atapiIssue a ccb buflen =
      if buflen < a.count then ⟨ccb, buflen, 0xff, [], none⟩
      else ⟨ccb, buflen, if a.ended &&& statErr = statErr then a.finalError >>> 4 else 0,
        if a.sectCnt &&& 2 = 0 then [] else (List.range (2 * (a.count / 2))).map a.data,
        some a.ended⟩ := by
  unfold atapiIssue
  unfold Reply.Sends at hsends
  rw [if_neg (not_not.mpr h.1), if_neg (not_not.mpr h.2), if_neg (not_not.mpr hsends)]
  split_ifs <;> rfl

variable (a ccb buflen) in
theorem atapiIssue_room : (atapiIssue a ccb buflen).ccb = ccb ∧
    (atapiIssue a ccb buflen).buflen = buflen ∧
    (atapiIssue a ccb buflen).stored.length ≤ buflen := by
  by_cases hacc : a.Accepts
  swap
  · rw [atapiIssue_refused hacc]
    exact ⟨rfl, rfl, Nat.zero_le _⟩
  by_cases hsends : a.Sends buflen
  swap
  · rw [atapiIssue_unready hacc hsends]
    exact ⟨rfl, rfl, Nat.zero_le _⟩
  rw [atapiIssue_sends hacc hsends]
  by_cases hcount : buflen < a.count
  · rw [if_pos hcount]
    exact ⟨rfl, rfl, Nat.zero_le _⟩
  · rw [if_neg hcount]
    refine ⟨rfl, rfl, ?_⟩
    dsimp only
    split_ifs
    · exact Nat.zero_le _
    · rw [List.length_map, List.length_range]
      omega

variable (a ccb buflen) in
theorem atapiIssue_err : ((atapiIssue a ccb buflen).err = 0 ↔ a.Passes buflen) ∧
    ((atapiIssue a ccb buflen).err ≠ 0 ∧ (atapiIssue a ccb buflen).err ≠ 0xff ↔
      a.Reports buflen) := by
  have hff : (0xff : UInt8) ≠ 0 := by decide
  unfold Reply.Passes Reply.Reports
  by_cases hacc : a.Accepts
  swap
  · simp [atapiIssue_refused hacc, hacc, hff]
  by_cases hsends : a.Sends buflen
  swap
  · simp only [atapiIssue_unready hacc hsends, hacc, hsends]
    by_cases herr : a.answered buflen &&& statErr ≠ 0
    · simp [herr, senseKey_ne]
    · simp [herr, hff]
  rw [atapiIssue_sends hacc hsends]
  by_cases hcount : buflen < a.count
  · simp [hcount, hff, hsends]
  · by_cases herr : a.ended &&& statErr = statErr
    · simp [hcount, hacc, hsends, herr, senseKey_ne, not_lt.mp hcount]
    · simp [hcount, hacc, hsends, herr, not_lt.mp hcount]

variable (a blknr) in
theorem atapiIssue_whole :
    (atapiIssue a (readCcb blknr 1) 2048).Whole blknr ↔ a.Accepts ∧ a.Delivers := by
  unfold Packet.Whole Reply.Delivers
  by_cases hacc : a.Accepts
  swap
  · simp [atapiIssue_refused hacc, hacc]
  by_cases hsends : a.Sends 2048
  swap
  · simp [atapiIssue_unready hacc hsends, hsends]
  rw [atapiIssue_sends hacc hsends]
  by_cases hcount : 2048 < a.count
  · rw [if_pos hcount]
    exact iff_of_false (fun h => by cases h.2.1) fun h => by omega
  · have hwhole : 2 * (a.count / 2) = 2048 ↔ a.count = 2048 := by omega
    by_cases hdir : a.sectCnt &&& 2 = 0
    · simp [hcount, hdir]
    · simp [hcount, hacc, hsends, hdir, hwhole]

theorem passes_of_delivers (hacc : a.Accepts) (h : a.Delivers) : a.Passes 2048 := by
  obtain ⟨hsends, hcount, -, hend⟩ := h
  refine ⟨hacc, .inl ⟨hsends, hcount.le, fun herr => ?_⟩⟩
  have hmask : (statBusy ||| statErr) &&& statErr = statErr := rfl
  have hzero : a.ended &&& statErr = 0 := by
    rw [← hmask, ← UInt8.and_assoc, hend]
    rfl
  rw [hzero] at herr
  exact absurd herr (by decide)

variable (a) in
theorem senseData_eq : (atapiIssue a senseCcb 18).senseData = a.senseData := by
  funext i
  unfold Packet.senseData Reply.senseData
  by_cases hacc : a.Accepts
  swap
  · simp [atapiIssue_refused hacc, hacc]
  by_cases hsends : a.Sends 18
  swap
  · simp [atapiIssue_unready hacc hsends, hsends]
  rw [atapiIssue_sends hacc hsends]
  by_cases hcount : 18 < a.count
  · simp [hcount, not_le.mpr hcount]
  · by_cases hdir : a.sectCnt &&& 2 = 0
    · simp [hcount, hdir]
    · by_cases hi : i < 2 * (a.count / 2)
      · simp [hcount, hacc, hsends, hdir, hi, not_lt.mp hcount]
      · simp [hcount, hdir, hi]

/-! ## A block -/

variable {drive : ℕ → Reply} {unitattn notready k : ℕ}

theorem sense_not_whole {p : Packet} (h : p.ccb = senseCcb) : ¬ p.Whole blknr := fun hwhole => by
  have hccb := h.symm.trans hwhole.1
  cases hccb

variable (drive ccb buflen) in
/-- What a try for a block sends: its command, and a request for the sense data if that failed;
then the block may be tried again. -/
theorem autoreq_cases (unitattn notready k : ℕ) :
    let p := atapiIssue (drive k) ccb buflen
    let sense := atapiIssue (drive (k + 1)) senseCcb 18
    (atapiIssueAutoreq drive ccb buflen unitattn notready k).2 = [p] ∨
      (atapiIssueAutoreq drive ccb buflen unitattn notready k).2 = [p, sense] ∨
      ∃ u n, u + n < unitattn + notready ∧
        (atapiIssueAutoreq drive ccb buflen unitattn notready k).2 =
          p :: sense :: (atapiIssueAutoreq drive ccb buflen u n (k + 2)).2 := by
  intro p sense
  rw [atapiIssueAutoreq]
  dsimp only
  split
  · exact .inl rfl
  split
  · exact .inl rfl
  split
  · exact .inr (.inl rfl)
  split
  · by_cases hunit : 0 < unitattn
    · rw [if_pos hunit]
      exact .inr (.inr ⟨unitattn - 1, notready, by omega, rfl⟩)
    · rw [if_neg hunit]
      exact .inr (.inl rfl)
  split
  · by_cases hnot : 0 < notready
    · rw [if_pos hnot]
      exact .inr (.inr ⟨unitattn, notready - 1, by omega, rfl⟩)
    · rw [if_neg hnot]
      exact .inr (.inl rfl)
  · exact .inr (.inl rfl)

variable (drive ccb buflen) in
theorem autoreq_bounds (unitattn notready k : ℕ) :
    (atapiIssueAutoreq drive ccb buflen unitattn notready k).2.length ≤
        2 * (unitattn + notready + 1) ∧
      ∀ p ∈ (atapiIssueAutoreq drive ccb buflen unitattn notready k).2, p.Fits buflen := by
  induction hn : unitattn + notready using Nat.strong_induction_on generalizing unitattn notready k
  with
  | _ n ih =>
    subst hn
    obtain ⟨-, hbuf, hroom⟩ := atapiIssue_room (drive k) ccb buflen
    obtain ⟨hccb', hbuf', hroom'⟩ := atapiIssue_room (drive (k + 1)) senseCcb 18
    have hp : (atapiIssue (drive k) ccb buflen).Fits buflen := ⟨hroom.trans_eq hbuf.symm, .inl hbuf⟩
    have hsense : (atapiIssue (drive (k + 1)) senseCcb 18).Fits buflen :=
      ⟨hroom'.trans_eq hbuf'.symm, .inr ⟨hccb', hbuf'⟩⟩
    obtain hone | htwo | ⟨u, m, hlt, hmore⟩ := autoreq_cases ccb buflen drive unitattn notready k
    · rw [hone]
      exact ⟨by show 1 ≤ _; omega, List.forall_mem_singleton.mpr hp⟩
    · rw [htwo]
      refine ⟨?_, List.forall_mem_cons.mpr ⟨hp, List.forall_mem_singleton.mpr hsense⟩⟩
      show 2 ≤ _
      omega
    · obtain ⟨hlen, hall⟩ := ih _ hlt u m (k + 2) rfl
      rw [hmore]
      refine ⟨?_, List.forall_mem_cons.mpr ⟨hp, List.forall_mem_cons.mpr ⟨hsense, hall⟩⟩⟩
      rw [List.length_cons, List.length_cons]
      omega

variable (drive blknr) in
/-- When the tries for a block end well: it was read whole if it is counted, and then `Rest` holds
of the number of the next command. -/
theorem autoreq_iff (Rest : ℕ → Prop) (unitattn notready k : ℕ) :
    ((atapiIssueAutoreq drive (readCcb blknr 1) 2048 unitattn notready k).1 ≠ 0xff →
      (∃ p ∈ (atapiIssueAutoreq drive (readCcb blknr 1) 2048 unitattn notready k).2,
        p.Whole blknr) ∧
      Rest (k + (atapiIssueAutoreq drive (readCcb blknr 1) 2048 unitattn notready k).2.length)) ↔
      FineBlock drive Rest unitattn notready k := by
  induction hn : unitattn + notready using Nat.strong_induction_on generalizing unitattn notready k
  with
  | _ n ih =>
    subst hn
    have hzero : (0 : UInt8) ≠ 0xff := by decide
    obtain ⟨herr0, herr⟩ := atapiIssue_err (drive k) (readCcb blknr 1) 2048
    have hwhole := atapiIssue_whole (drive k) blknr
    have hpass : ¬ (drive k).Passes 2048 →
        ¬ (atapiIssue (drive k) (readCcb blknr 1) 2048).Whole blknr := fun hno hw =>
      hno (passes_of_delivers (hwhole.mp hw).1 (hwhole.mp hw).2)
    have hsense : ¬ (atapiIssue (drive (k + 1)) senseCcb 18).Whole blknr :=
      sense_not_whole (atapiIssue_room _ _ _).1
    rw [atapiIssueAutoreq, FineBlock]
    dsimp only
    rw [senseData_eq]
    generalize atapiIssue (drive k) (readCcb blknr 1) 2048 = p at *
    generalize atapiIssue (drive (k + 1)) senseCcb 18 = sense at *
    generalize (drive (k + 1)).senseData = data
    by_cases hpasses : (drive k).Passes 2048
    · have hno : ¬ (drive k).Reports 2048 := fun h => (herr.mpr h).1 (herr0.mpr hpasses)
      have hone : (∃ q ∈ [p], q.Whole blknr) ↔ p.Whole blknr := by simp
      rw [if_pos (herr0.mpr hpasses), forall_prop_of_true hzero, forall_prop_of_true hpasses,
        hone, hwhole, and_iff_right hpasses.1]
      exact (and_iff_left fun h => absurd h hno).symm
    have hp : ¬ p.Whole blknr := hpass hpasses
    rw [if_neg (mt herr0.mp hpasses), forall_prop_of_false hpasses, true_and]
    by_cases hff : p.err = 0xff
    · have hno : ¬ (drive k).Reports 2048 := fun h => (herr.mpr h).2 hff
      rw [if_pos hff]
      exact iff_of_true (fun h => absurd rfl h) fun h => absurd h hno
    have hreports : (drive k).Reports 2048 := herr.mp ⟨mt herr0.mp hpasses, hff⟩
    rw [if_neg hff, forall_prop_of_true hreports]
    -- the tries behind this one
    have hnext (u m : ℕ) (hlt : u + m < unitattn + notready) :
        ((atapiIssueAutoreq drive (readCcb blknr 1) 2048 u m (k + 2)).1 ≠ 0xff →
          (∃ q ∈ p :: sense :: (atapiIssueAutoreq drive (readCcb blknr 1) 2048 u m (k + 2)).2,
            q.Whole blknr) ∧
          Rest (k + (p :: sense ::
            (atapiIssueAutoreq drive (readCcb blknr 1) 2048 u m (k + 2)).2).length)) ↔
          FineBlock drive Rest u m (k + 2) := by
      rw [← ih _ hlt u m (k + 2) rfl, List.exists_mem_cons_iff, or_iff_right hp,
        List.exists_mem_cons_iff, or_iff_right hsense, List.length_cons, List.length_cons,
        Nat.add_assoc k 2, Nat.add_comm 2]
    have hstop {P : Prop} : ((0xff : UInt8) ≠ 0xff → P) ↔ True :=
      iff_of_true (fun h => absurd rfl h) trivial
    by_cases hkey : senseKey data = 0
    · rw [if_pos hkey, forall_prop_of_true hzero]
      refine iff_of_false (fun h => ?_) fun h => h.1 hkey
      simp [hp, hsense] at h
    rw [if_neg hkey, and_iff_right hkey]
    by_cases hatt : Attention data
    · rw [if_pos hatt, and_iff_left fun h => absurd hatt h, forall_prop_of_true hatt]
      by_cases hu : 0 < unitattn
      · rw [if_pos hu, forall_prop_of_true hu]
        exact hnext _ _ (by omega)
      · rw [if_neg hu, hstop, true_iff]
        exact fun h => absurd h hu
    rw [if_neg hatt, forall_prop_of_false hatt, true_and, forall_prop_of_true hatt]
    by_cases hsoon : Soon data
    · rw [if_pos hsoon, forall_prop_of_true hsoon]
      by_cases hn : 0 < notready
      · rw [if_pos hn, forall_prop_of_true hn]
        exact hnext _ _ (by omega)
      · rw [if_neg hn, hstop, true_iff]
        exact fun h => absurd h hn
    · rw [if_neg hsoon, hstop, true_iff]
      exact fun h => absurd h hsoon

/-! ## All blocks -/

variable {blkcnt buffer : ℕ} {b : Block} {rest : ℕ × List Block}

def Block.Bounded (b : Block) : Prop :=
  b.packets.length ≤ 2 * (atapiUnitAttn + atapiDriveNotReady + 1) ∧
    ∀ p ∈ b.packets, p.Fits (b.cnt * 2048)

theorem reads_none (hb : ∀ b ∈ rest.2, b.Bounded) (hzero : rest.1 = 0) :
    Reads blknr blkcnt buffer rest :=
  ⟨by omega, fun b h => (hb b h).1, fun b h => (hb b h).2, fun i hi => by omega⟩

theorem reads_cons (hb : b.Bounded) (hbuf : b.buffer = buffer) :
    Reads blknr (blkcnt + 1) buffer (1 + rest.1, b :: rest.2) ↔
      (∃ p ∈ b.packets, p.Whole blknr) ∧ Reads (blknr + 1) blkcnt (buffer + 2048) rest := by
  have hsucc (i : ℕ) : blknr + UInt32.ofNat (i + 1) = blknr + 1 + UInt32.ofNat i := by
    rw [UInt32.ofNat_add, UInt32.add_comm (UInt32.ofNat i), ← UInt32.add_assoc]
    rfl
  have hplace (i : ℕ) : buffer + 2048 * (i + 1) = buffer + 2048 + 2048 * i := by omega
  have hfirst : blknr + UInt32.ofNat 0 = blknr := UInt32.add_zero blknr
  constructor
  · intro h
    obtain ⟨b', hb', -, hwhole⟩ := h.whole 0 (by show 0 < 1 + rest.1; omega)
    rw [hfirst] at hwhole
    refine ⟨Option.some.inj hb' ▸ hwhole, ?_, fun b h' => h.tries b (List.mem_cons_of_mem _ h'),
      fun b h' => h.room b (List.mem_cons_of_mem _ h'), fun i hi => ?_⟩
    · have hle : 1 + rest.1 ≤ blkcnt + 1 := h.le
      omega
    · have hnext := h.whole (i + 1) (by show i + 1 < 1 + rest.1; omega)
      rwa [hsucc, hplace] at hnext
  · rintro ⟨hwhole, h⟩
    refine ⟨?_, List.forall_mem_cons.mpr ⟨hb.1, h.tries⟩, List.forall_mem_cons.mpr ⟨hb.2, h.room⟩,
      fun i hi => ?_⟩
    · have hle := h.le
      show 1 + rest.1 ≤ blkcnt + 1
      omega
    · cases i with
      | zero => exact ⟨b, rfl, hbuf, hfirst.symm ▸ hwhole⟩
      | succ i =>
        have hlt : i + 1 < 1 + rest.1 := hi
        rw [hsucc, hplace]
        exact h.whole i (by omega)

variable (drive blknr buffer k) in
theorem block_bounded (cnt : ℕ) : Block.Bounded ⟨cnt, buffer, (atapiIssueAutoreq drive
    (readCcb blknr cnt) (cnt * atapiReadBlockSize) atapiUnitAttn atapiDriveNotReady k).2⟩ :=
  autoreq_bounds _ _ drive _ _ _

variable (drive blknr buffer) in
/-- **The loop.** -/
theorem atapiReadLoop_iff (k : ℕ) :
    Reads blknr blkcnt buffer (atapiReadLoop drive blkcnt blknr buffer k) ↔
      FineRead drive blkcnt k := by
  have hsingle {n : ℕ} {b : Block} (h : b.Bounded) : ∀ b' ∈ (n, [b]).2, b'.Bounded :=
    List.forall_mem_singleton.mpr h
  induction blkcnt generalizing blknr buffer k with
  | zero =>
    have hcnt : (if atapiReadMaxBlock < 0 then atapiReadMaxBlock else 0) = 0 := rfl
    have hbounded := block_bounded blknr drive k buffer 0
    refine iff_of_true ?_ trivial
    rw [atapiReadLoop]
    dsimp only
    rw [hcnt]
    generalize atapiIssueAutoreq drive (readCcb blknr 0) (0 * atapiReadBlockSize) atapiUnitAttn
      atapiDriveNotReady k = r at *
    rw [if_neg (Nat.lt_irrefl 0), ite_self]
    exact reads_none (hsingle hbounded) rfl
  | succ blkcnt ih =>
    have hcnt : (if atapiReadMaxBlock < blkcnt + 1 then atapiReadMaxBlock else blkcnt + 1) = 1 := by
      unfold atapiReadMaxBlock
      split_ifs <;> omega
    have hlen : 1 * atapiReadBlockSize = 2048 := rfl
    have hiff := autoreq_iff blknr drive (FineRead drive blkcnt) atapiUnitAttn
      atapiDriveNotReady k
    have hbounded := block_bounded blknr drive k buffer 1
    rw [atapiReadLoop, FineRead, ← hiff]
    dsimp only
    rw [hcnt]
    rw [hlen] at hbounded ⊢
    generalize atapiIssueAutoreq drive (readCcb blknr 1) 2048 atapiUnitAttn atapiDriveNotReady k =
      r at *
    by_cases hff : r.1 = 0xff
    · rw [if_pos hff]
      exact iff_of_true (reads_none (hsingle hbounded) rfl) fun h => absurd hff h
    rw [if_neg hff, forall_prop_of_true hff, Nat.add_sub_cancel]
    by_cases hmore : 0 < blkcnt
    · rw [if_pos hmore]
      exact (reads_cons hbounded rfl).trans (and_congr_right' (ih _ _ _))
    · rw [if_neg hmore]
      have hlast : blkcnt = 0 := by omega
      subst hlast
      have hnil : Reads (blknr + 1) 0 (buffer + 2048) (0, []) :=
        reads_none (fun _ h => absurd h List.not_mem_nil) rfl
      exact (reads_cons hbounded rfl).trans (and_congr_right' (iff_of_true hnil trivial))

end

/-- **When `atapi_read` is right.** -/
theorem atapi_read_iff (drive : ℕ → Reply) (blknr : UInt32) (blkcnt buffer : ℕ) :
    Reads blknr blkcnt buffer (atapiRead drive blknr blkcnt buffer) ↔ FineRead drive blkcnt 0 :=
  atapiReadLoop_iff blknr drive buffer 0

theorem atapiWaitMask_first {status : ℕ → UInt8} {t : ℕ} {mask res : UInt8}
    (h : status 0 &&& mask = res) : atapiWaitMask status t mask res = status 0 := by
  unfold atapiWaitMask
  cases 10 * t with
  | zero => rfl
  | succ delay => exact if_neg fun hwait => hwait.1 h

/-- A drive that announces no data, and ends without an error. -/
def emptyReply : Reply :=
  ⟨fun _ => 0, fun _ => statDrq, fun _ => statDrq, fun _ => 0, 0, 0, 0, 2, 0, fun _ => 0⟩

/-- A block is counted of which nothing was read. -/
theorem atapi_read_empty : ¬ Reads 0 1 0 (atapiRead (fun _ => emptyReply) 0 1 0) := by
  have hselected : emptyReply.selected = 0 := atapiWaitMask_first rfl
  have hprompted : emptyReply.prompted = statDrq := atapiWaitMask_first rfl
  have hanswered : emptyReply.answered 2048 = statDrq := atapiWaitMask_first rfl
  have hended : emptyReply.ended = 0 := atapiWaitMask_first rfl
  have hpasses : emptyReply.Passes 2048 := by
    refine ⟨⟨?_, ?_⟩, .inl ⟨?_, by decide, fun _ => rfl⟩⟩
    · rw [hselected]
      rfl
    · rw [hprompted]
      rfl
    · rw [Reply.Sends, hanswered]
      rfl
  intro h
  have hfine := (atapiReadLoop_iff 0 (fun _ => emptyReply) 0 0).mp h
  rw [FineRead, FineBlock] at hfine
  exact absurd (hfine.1 hpasses).1.2.1 (by decide)

end UBoot.Ide
