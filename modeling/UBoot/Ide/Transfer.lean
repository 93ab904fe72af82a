import UBoot.Ide.Ident

/-!
# Reading and writing sectors: `ide_read`, `ide_write` (`common/cmd_ide.c`)

One command for each sector. What the drive answers is the sequence of the bytes that are read from
its status register. `ide_transfer_iff` says when the sectors that are transferred are those that
were asked for, and when their number is returned.
-/

namespace UBoot.Ide

/-- `IDE_TIME_OUT`, `IDE_SPIN_UP_TIME_OUT`, in ms. -/
def ideTimeOut : ℕ := 2000
def ideSpinUpTimeOut : ℕ := 5000

def ataCmdRead : UInt8 := 0x20
def ataCmdWrite : UInt8 := 0x30

def ataLba : UInt8 := 0xe0

def ataDevice (device : ℕ) : UInt8 := UInt8.ofNat ((device &&& 1) <<< 4)

structure Regs where
  sectCnt : UInt8
  lbaLow : UInt8
  lbaMid : UInt8
  lbaHigh : UInt8
  devHd : UInt8

def Regs.lba (r : Regs) : ℕ :=
  r.lbaLow.toNat + 2 ^ 8 * r.lbaMid.toNat + 2 ^ 16 * r.lbaHigh.toNat +
    2 ^ 24 * (r.devHd &&& 0xf).toNat

/-- What is written to the registers before a command. `blknr` is a `ulong`, of which the low 28
bits are used. -/
def blockRegs (device blknr : ℕ) : Regs where
  sectCnt := 1
  lbaLow := UInt8.ofNat ((blknr >>> 0) &&& 0xff)
  lbaMid := UInt8.ofNat ((blknr >>> 8) &&& 0xff)
  lbaHigh := UInt8.ofNat ((blknr >>> 16) &&& 0xff)
  devHd := ataLba ||| ataDevice device ||| UInt8.ofNat ((blknr >>> 24) &&& 0xf)

/-- A command: the status behind it, and, if a sector is transferred, its place in memory and the
number of the status that is read then. -/
structure Command where
  cmd : UInt8
  regs : Regs
  status : UInt8
  data : Option (ℕ × ℕ)

/-- What a transfer returns, its commands, and how often the status was read. -/
structure Result where
  n : ℕ
  log : List Command
  asked : ℕ

section
variable (status : ℕ → UInt8)

/-- The loop of `ide_wait`, with `delay` polls left. -/
def waitLoop : ℕ → ℕ → UInt8 × ℕ
  | 0, asked => (status asked, asked + 1)
  | delay + 1, asked =>
    if status asked &&& statBusy ≠ 0 then waitLoop delay (asked + 1)
    else (status asked, asked + 1)

/-- `ide_wait`: the last status. -/
def ideWait (t asked : ℕ) : UInt8 × ℕ := waitLoop status (10 * t) asked

/-- The loop of `ide_read` and `ide_write`; `t` is the time for the first sector. -/
def transferLoop (cmd : UInt8) (device : ℕ) : ℕ → ℕ → ℕ → ℕ → ℕ → Result
  | 0, _, _, _, asked => ⟨0, [], asked⟩
  | blkcnt + 1, t, blknr, buffer, asked =>
    let c := ideWait status ideTimeOut asked
    if c.1 &&& statBusy ≠ 0 then ⟨0, [], c.2⟩
    else
      let regs := blockRegs device blknr
      let c := ideWait status t c.2
      if c.1 &&& (statDrq ||| statBusy ||| statErr) ≠ statDrq then
        ⟨0, [⟨cmd, regs, c.1, none⟩], c.2⟩
      else
        let r := transferLoop cmd device blkcnt ideTimeOut (blknr + 1) (buffer + 512) (c.2 + 1)
        ⟨r.n + 1, ⟨cmd, regs, c.1, some (buffer, c.2)⟩ :: r.log, r.asked⟩

/-- The start of `ide_read`: is the drive ready, and in powersaving mode. `sectCnt` is what it
answers to `ATA_CMD_CHK_PWR`. -/
def checkPower (sectCnt : UInt8) (asked : ℕ) : Bool × Bool × ℕ :=
  let c := ideWait status ideTimeOut asked
  if c.1 &&& statBusy ≠ 0 then (false, false, c.2)
  else
    let c := ideWait status ideTimeOut c.2
    if c.1 &&& statBusy ≠ 0 then (false, false, c.2)
    else if c.1 &&& statErr = statErr then (true, false, c.2)
    else (true, sectCnt = 0, c.2)

def ideRead (sectCnt : UInt8) (device blknr blkcnt buffer asked : ℕ) : Result :=
  let r := checkPower status sectCnt asked
  if r.1 then
    transferLoop status ataCmdRead device blkcnt (if r.2.1 then ideSpinUpTimeOut else ideTimeOut)
      blknr buffer r.2.2
  else ⟨0, [], r.2.2⟩

def ideWrite (device blknr blkcnt buffer asked : ℕ) : Result :=
  transferLoop status ataCmdWrite device blkcnt ideTimeOut blknr buffer asked

end

/-! ## What a transfer should do -/

/-- The drive takes the command: `DRQ` is set, `BUSY` and `ERR` are clear. -/
def Ready (c : UInt8) : Prop := c &&& (statDrq ||| statBusy ||| statErr) = statDrq

instance (c : UInt8) : Decidable (Ready c) := inferInstanceAs (Decidable (_ = _))

/-- From status `j` on, the first one that is not `BUSY` reports no error. -/
def ReportsOk (status : ℕ → UInt8) (j : ℕ) : Prop :=
  ∃ k ≥ j, (∀ i, j ≤ i → i < k → status i &&& statBusy ≠ 0) ∧
    status k &&& statBusy = 0 ∧ status k &&& statErr = 0

/-- The sector is transferred, and after writing the drive reports no error. -/
def Command.Done (status : ℕ → UInt8) (c : Command) : Prop :=
  ∃ d ∈ c.data, c.cmd = ataCmdWrite → ReportsOk status d.2

open scoped Classical in
/-- One command for each sector, in order, and none after a status that is not `Ready`; the number
of sectors that are done is returned. -/
structure Transfers (status : ℕ → UInt8) (cmd : UInt8) (device blknr blkcnt buffer : ℕ)
    (r : Result) : Prop where
  command : ∀ c ∈ r.log, c.cmd = cmd ∧ c.regs.sectCnt = 1 ∧
    c.regs.devHd &&& 0xf0 = ataLba ||| ataDevice device
  address : ∀ (i : ℕ) (c : Command), r.log[i]? = some c → c.regs.lba = blknr + i
  data : ∀ (i : ℕ) (c : Command), r.log[i]? = some c →
    c.data.map Prod.fst = if Ready c.status then some (buffer + 512 * i) else none
  stops : ∀ (i : ℕ) (c : Command), r.log[i]? = some c → ¬ Ready c.status → i + 1 = r.log.length
  le : r.log.length ≤ blkcnt
  ends : r.log.length < blkcnt → ¬ Ready (status (r.asked - 1))
  count : r.n = r.log.countP fun c => c.Done status

/-- The statuses are those of a transfer that comes out right: a sector that a command is given for
has a number below `2 ^ 28`, and there is no error when its data have been written. -/
def Fine (status : ℕ → UInt8) (cmd : UInt8) : ℕ → ℕ → ℕ → ℕ → Prop
  | 0, _, _, _ => True
  | blkcnt + 1, t, blknr, asked =>
    let c := ideWait status ideTimeOut asked
    c.1 &&& statBusy = 0 →
      let c := ideWait status t c.2
      blknr < 2 ^ 28 ∧ (Ready c.1 →
        (cmd = ataCmdWrite → ReportsOk status c.2) ∧
          Fine status cmd blkcnt ideTimeOut (blknr + 1) (c.2 + 1))

section
variable {status : ℕ → UInt8} {cmd : UInt8} {device blknr blkcnt t buffer asked delay : ℕ}
  {r : Result} {c : Command}

theorem blockRegs_lba : (blockRegs device blknr).lba = blknr % 2 ^ 28 := by
  have hnibble : ∀ d < 2, ∀ x < 16,
      ((ataLba ||| UInt8.ofNat (d <<< 4) ||| UInt8.ofNat x) &&& 0xf).toNat = x := by decide
  have hbyte (n : ℕ) : (UInt8.ofNat (n &&& 0xff)).toNat = n % 2 ^ 8 := by
    rw [UInt8.toNat_ofNat', Nat.and_two_pow_sub_one_eq_mod n 8, Nat.mod_mod]
  have htop : (blknr >>> 24) &&& 0xf = blknr / 2 ^ 24 % 2 ^ 4 := by
    rw [Nat.and_two_pow_sub_one_eq_mod _ 4, Nat.shiftRight_eq_div_pow]
  have hdev : (device &&& 1) < 2 := Nat.and_lt_two_pow device (by decide : 1 < 2 ^ 1)
  have hhead : ((blockRegs device blknr).devHd &&& 0xf).toNat = blknr / 2 ^ 24 % 2 ^ 4 := by
    show ((ataLba ||| ataDevice device ||| UInt8.ofNat ((blknr >>> 24) &&& 0xf)) &&&
      (0xf : UInt8)).toNat = _
    rw [htop]
    exact hnibble _ hdev _ (Nat.mod_lt _ (by decide))
  rw [Regs.lba, hhead]
  simp only [blockRegs, hbyte, Nat.shiftRight_eq_div_pow]
  omega

theorem blockRegs_devHd :
    (blockRegs device blknr).devHd &&& 0xf0 = ataLba ||| ataDevice device := by
  have hall : ∀ d < 2, ∀ x < 16, (ataLba ||| UInt8.ofNat (d <<< 4) ||| UInt8.ofNat x) &&&
      (0xf0 : UInt8) = ataLba ||| UInt8.ofNat (d <<< 4) := by decide
  have htop : ((blknr >>> 24) &&& 0xf) < 16 := Nat.and_lt_two_pow _ (by decide : 0xf < 2 ^ 4)
  exact hall _ (Nat.and_lt_two_pow device (by decide : 1 < 2 ^ 1)) _ htop

variable (status t asked) in
theorem ideWait_last : status ((ideWait status t asked).2 - 1) = (ideWait status t asked).1 := by
  unfold ideWait
  generalize 10 * t = delay
  induction delay generalizing asked with
  | zero => rfl
  | succ delay ih =>
    rw [waitLoop]
    split_ifs
    · exact ih _
    · rfl

theorem not_ready_of_busy {c : UInt8} (h : c &&& statBusy ≠ 0) : ¬ Ready c := by
  intro hready
  have hmask : (statDrq ||| statBusy ||| statErr) &&& statBusy = statBusy := rfl
  refine h ?_
  calc c &&& statBusy = (c &&& (statDrq ||| statBusy ||| statErr)) &&& statBusy := by
        rw [UInt8.and_assoc, hmask]
    _ = 0 := by rw [hready]; rfl

/-- Only one status is the first that is not `BUSY`. -/
theorem reportsOk_iff {j k : ℕ} (hk : j ≤ k)
    (hbusy : ∀ i, j ≤ i → i < k → status i &&& statBusy ≠ 0)
    (hclear : status k &&& statBusy = 0) : ReportsOk status j ↔ status k &&& statErr = 0 := by
  constructor
  · rintro ⟨k', hk', hbusy', hclear', herr⟩
    obtain hlt | rfl | hgt := Nat.lt_trichotomy k k'
    · exact absurd hclear (hbusy' k hk hlt)
    · exact herr
    · exact absurd hclear' (hbusy k' hk' hgt)
  · exact fun herr => ⟨k, hk, hbusy, hclear, herr⟩

theorem done_iff {c : Command} {d : ℕ × ℕ} (hd : c.data = some d) :
    c.Done status ↔ (c.cmd = ataCmdWrite → ReportsOk status d.2) := by
  rw [Command.Done, hd]
  exact ⟨fun ⟨d', hd', h⟩ => by cases hd'; exact h, fun h => ⟨d, rfl, h⟩⟩

theorem not_done {c : Command} (hd : c.data = none) : ¬ c.Done status := fun ⟨_, h, _⟩ => by
  rw [hd] at h
  cases h

open scoped Classical in
theorem done_le : (transferLoop status cmd device blkcnt t blknr buffer asked).log.countP
    (fun c => c.Done status) ≤ (transferLoop status cmd device blkcnt t blknr buffer asked).n := by
  induction blkcnt generalizing t blknr buffer asked with
  | zero => exact le_rfl
  | succ blkcnt ih =>
    rw [transferLoop]
    dsimp only
    split_ifs
    · exact le_rfl
    · rw [List.countP_cons_of_neg (by simpa using not_done rfl)]
      exact le_rfl
    · rw [List.countP_cons]
      split_ifs
      · exact Nat.succ_le_succ (ih ..)
      · exact (ih ..).trans (Nat.le_succ _)

open scoped Classical in
theorem transfers_cons {post : ℕ} (hcmd : c.cmd = cmd) (hregs : c.regs = blockRegs device blknr)
    (hready : Ready c.status) (hdata : c.data = some (buffer, post))
    (hle : r.log.countP (fun c => c.Done status) ≤ r.n) :
    Transfers status cmd device blknr (blkcnt + 1) buffer ⟨r.n + 1, c :: r.log, r.asked⟩ ↔
      blknr < 2 ^ 28 ∧ (cmd = ataCmdWrite → ReportsOk status post) ∧
        Transfers status cmd device (blknr + 1) blkcnt (buffer + 512) r := by
  have hdone : c.Done status ↔ (cmd = ataCmdWrite → ReportsOk status post) := hcmd ▸ done_iff hdata
  have hlba : c.regs.lba = blknr % 2 ^ 28 := hregs ▸ blockRegs_lba
  rw [← hdone]
  constructor
  · intro h
    have hfirst := h.address 0 c rfl
    have hcount : r.n + 1 = (c :: r.log).countP fun c => c.Done status := h.count
    rw [List.countP_cons] at hcount
    have hd : c.Done status := by
      by_contra hno
      rw [if_neg (by simpa using hno)] at hcount
      omega
    rw [if_pos (by simpa using hd)] at hcount
    refine ⟨by omega, hd, fun d hd => h.command d (List.mem_cons_of_mem _ hd), fun i d hd => ?_,
      fun i d hd => ?_, fun i d hd hnot => ?_, Nat.le_of_succ_le_succ h.le,
      fun hlt => h.ends (Nat.succ_lt_succ hlt), by omega⟩
    · have hnext := h.address (i + 1) d hd
      omega
    · have hnext := h.data (i + 1) d hd
      rwa [Nat.mul_succ, Nat.add_comm (512 * i), ← Nat.add_assoc] at hnext
    · exact Nat.succ.inj (h.stops (i + 1) d hd hnot)
  · rintro ⟨hlt, hd, h⟩
    refine ⟨List.forall_mem_cons.mpr ⟨?_, h.command⟩, fun i d hi => ?_, fun i d hi => ?_,
      fun i d hi hnot => ?_, Nat.succ_le_succ h.le,
      fun hmore => h.ends (Nat.lt_of_succ_lt_succ hmore), ?_⟩
    · rw [hregs]
      exact ⟨hcmd, rfl, blockRegs_devHd⟩
    · cases i with
      | zero =>
        cases hi
        omega
      | succ i =>
        have hnext := h.address i d hi
        omega
    · cases i with
      | zero =>
        cases hi
        rw [hdata, if_pos hready]
        rfl
      | succ i =>
        have hnext := h.data i d hi
        rwa [Nat.mul_succ, Nat.add_comm (512 * i), ← Nat.add_assoc]
    · cases i with
      | zero =>
        cases hi
        exact absurd hready hnot
      | succ i => exact congrArg Nat.succ (h.stops i d hi hnot)
    · show r.n + 1 = _
      rw [List.countP_cons, if_pos (by simpa using hd), h.count]

theorem transfers_nil (h : 0 < blkcnt → ¬ Ready (status (asked - 1))) :
    Transfers status cmd device blknr blkcnt buffer ⟨0, [], asked⟩ :=
  ⟨fun _ hc => absurd hc List.not_mem_nil, (fun _ _ hc => by cases hc),
    (fun _ _ hc => by cases hc), (fun _ _ hc => by cases hc), Nat.zero_le _, h, rfl⟩

theorem transfers_refused (hregs : c.regs = blockRegs device blknr) (hcmd : c.cmd = cmd)
    (hdata : c.data = none) (hstatus : c.status = status (asked - 1)) (hready : ¬ Ready c.status) :
    Transfers status cmd device blknr (blkcnt + 1) buffer ⟨0, [c], asked⟩ ↔ blknr < 2 ^ 28 := by
  have hlba : c.regs.lba = blknr % 2 ^ 28 := hregs ▸ blockRegs_lba
  constructor
  · intro h
    have hfirst := h.address 0 c rfl
    omega
  · intro hlt
    have hone {i : ℕ} {d : Command} (hi : [c][i]? = some d) : i = 0 ∧ d = c := by
      cases i with
      | zero => exact ⟨rfl, (Option.some.inj hi).symm⟩
      | succ i => cases hi
    refine ⟨fun d hd => ?_, fun i d hi => ?_, fun i d hi => ?_, fun i d hi _ => ?_,
      Nat.succ_le_succ (Nat.zero_le _), fun _ => hstatus ▸ hready, ?_⟩
    · rw [List.mem_singleton.mp hd, hregs]
      exact ⟨hcmd, rfl, blockRegs_devHd⟩
    · obtain ⟨rfl, rfl⟩ := hone hi
      omega
    · obtain ⟨rfl, rfl⟩ := hone hi
      rw [hdata, if_neg hready]
      rfl
    · obtain ⟨rfl, -⟩ := hone hi
      rfl
    · rw [List.countP_cons_of_neg (by simpa using not_done hdata)]
      rfl

/-- **The loop.** -/
theorem transferLoop_iff : Transfers status cmd device blknr blkcnt buffer
      (transferLoop status cmd device blkcnt t blknr buffer asked) ↔
    Fine status cmd blkcnt t blknr asked := by
  induction blkcnt generalizing t blknr buffer asked with
  | zero => exact iff_of_true (transfers_nil fun h => absurd h (Nat.lt_irrefl 0)) trivial
  | succ blkcnt ih =>
    rw [transferLoop, Fine]
    unfold Ready
    dsimp only
    by_cases hbusy : (ideWait status ideTimeOut asked).1 &&& statBusy ≠ 0
    · rw [if_pos hbusy]
      refine iff_of_true (transfers_nil fun _ => ?_) fun h => absurd h hbusy
      exact not_ready_of_busy ((ideWait_last status ideTimeOut asked).symm ▸ hbusy)
    rw [if_neg hbusy, forall_prop_of_true (not_not.mp hbusy)]
    generalize ideWait status ideTimeOut asked = pre
    have hlast := ideWait_last status t pre.2
    generalize ideWait status t pre.2 = c at hlast
    by_cases hready : c.1 &&& (statDrq ||| statBusy ||| statErr) = statDrq
    · rw [if_neg (not_not.mpr hready), forall_prop_of_true hready]
      refine Iff.trans (transfers_cons rfl rfl hready rfl done_le) ?_
      rw [ih]
    · rw [if_pos hready, and_iff_left fun h => absurd h hready]
      exact transfers_refused rfl rfl rfl hlast.symm hready

section
variable (status : ℕ → UInt8) (sectCnt : UInt8) (device blknr blkcnt buffer asked : ℕ)

/-- `ide_read` transfers what it should. -/
def ReadMeets : Prop :=
  Transfers status ataCmdRead device blknr blkcnt buffer
    (ideRead status sectCnt device blknr blkcnt buffer asked)

/-- `ide_write` transfers what it should. -/
def WriteMeets : Prop :=
  Transfers status ataCmdWrite device blknr blkcnt buffer
    (ideWrite status device blknr blkcnt buffer asked)

/-- The drive is not ready, or the statuses are fine behind the check of its power mode. -/
def ReadFine : Prop :=
  (checkPower status sectCnt asked).1 = true →
    Fine status ataCmdRead blkcnt
      (if (checkPower status sectCnt asked).2.1 then ideSpinUpTimeOut else ideTimeOut) blknr
      (checkPower status sectCnt asked).2.2

end

/-- A drive that is not ready was `BUSY` last. -/
theorem checkPower_busy {sectCnt : UInt8} (h : (checkPower status sectCnt asked).1 ≠ true) :
    ¬ Ready (status ((checkPower status sectCnt asked).2.2 - 1)) := by
  unfold checkPower at h ⊢
  dsimp only at h ⊢
  split_ifs at h ⊢ with h1 h2
  · exact not_ready_of_busy ((ideWait_last status ideTimeOut _).symm ▸ h1)
  · exact not_ready_of_busy ((ideWait_last status ideTimeOut _).symm ▸ h2)
  · exact absurd rfl h
  · exact absurd rfl h

end

/-- **When `ide_read` and `ide_write` are right.** -/
theorem ide_transfer_iff (status : ℕ → UInt8) (sectCnt : UInt8)
    (device blknr blkcnt buffer asked : ℕ) :
    (ReadMeets status sectCnt device blknr blkcnt buffer asked ↔
      ReadFine status sectCnt blknr blkcnt asked) ∧
    (WriteMeets status device blknr blkcnt buffer asked ↔
      Fine status ataCmdWrite blkcnt ideTimeOut blknr asked) := by
  refine ⟨?_, transferLoop_iff⟩
  rw [ReadMeets, ideRead, ReadFine]
  by_cases h : (checkPower status sectCnt asked).1 = true
  · rw [if_pos h, forall_prop_of_true h]
    exact transferLoop_iff
  · rw [if_neg h]
    exact iff_of_true (transfers_nil fun _ => checkPower_busy h) fun h' => absurd h' h

/-- `BUSY` after the data of the first of two sectors, then an error; the second one is taken. -/
def lateError (i : ℕ) : UInt8 := [0x50, 0x58, 0xd0, 0xd0, 0x51, 0x58].getD i 0x50

/-- Sector `2 ^ 28` is read as sector 0, and a sector that the drive could not write is counted. -/
theorem ide_transfer_fails :
    ¬ ReadMeets (fun _ => statDrq) 0xff 0 (2 ^ 28) 1 0 0 ∧
    ¬ WriteMeets lateError 0 0 2 0 0 := by
  constructor
  · intro h
    have hlba := h.address 0 _ rfl
    exact absurd hlba (by decide)
  · intro h
    have hfine : Fine lateError ataCmdWrite 2 ideTimeOut 0 0 := transferLoop_iff.mp h
    have hok : ReportsOk lateError 2 := ((hfine rfl).2 rfl).1 rfl
    have hfirst : ReportsOk lateError 2 ↔ lateError 4 &&& statErr = 0 :=
      reportsOk_iff (by decide) (fun i hi hlt => by interval_cases i <;> decide) rfl
    exact absurd (hfirst.mp hok) (by decide)

end UBoot.Ide
