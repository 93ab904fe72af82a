import UBoot.Fdc.Controller
import Mathlib.Tactic.Common
import Mathlib.Algebra.BigOperators.Group.List.Basic
import Mathlib.Algebra.GroupWithZero.Nat

/-!
# Reading from a floppy disk

What `fdc_read_data` should do, and `fdc_read_iff`: when it does.
-/

namespace UBoot.Fdc

/-- Cylinder, head and sector in the command are those of a block. -/
structure Addresses (geo : Geo) (blnr : ℕ) (cmd : ℕ → UInt8) : Prop where
  track : (cmd iTrack).toNat = blnr / (geo.sect * geo.head)
  head : (cmd iHead).toNat = blnr % (geo.sect * geo.head) / geo.sect
  sector : (cmd iSector).toNat = blnr % geo.sect + 1

/-- The READs are one behind the other in the blocks, each on one side of a track. -/
def Covers (geo : Geo) : ℕ → ℕ → List Read → Prop
  | _, _, [] => True
  | blnr, blocks, r :: rs =>
    (0 < r.blocks ∧ r.blocks ≤ blocks ∧ blnr % geo.sect + r.blocks ≤ geo.sect) ∧
      Addresses geo blnr r.cmd ∧ Covers geo (blnr + r.blocks) (blocks - r.blocks) rs

/-- Their data are one behind the other in the buffer. -/
def Stored (geo : Geo) (mem : ℕ → UInt8) : ℕ → List Read → Prop
  | _, [] => True
  | offset, r :: rs =>
    (∀ i < geo.sectSize * r.blocks, mem (offset + i) = r.data i) ∧
      Stored geo mem (offset + geo.sectSize * r.blocks) rs

def State.Stopped (s : State) : Prop :=
  s.dor &&& (UInt8.ofNat (1 <<< (4 + s.c.drive.toNat)) ||| s.c.drive) = 0

/-- What `fdc_read_data` should do, of `blocks` blocks from `blnr` on into the buffer at
`offset`; `intr` is whether interrupts were enabled. -/
structure Reads (geo : Geo) (blnr blocks offset : ℕ) (intr : Bool) (r : Run) : Prop where
  covers : Covers geo blnr blocks r.reads
  whole : r.ret = true →
    (r.reads.map Read.blocks).sum = blocks ∧ Stored geo r.state.mem offset r.reads
  motor : r.state.Stopped
  interrupts : r.state.intr = intr

/-- The address of a block fits into the registers. -/
def Fits (geo : Geo) (blnr : ℕ) : Prop :=
  blnr / (geo.sect * geo.head) < 256 ∧ blnr % (geo.sect * geo.head) / geo.sect < 256 ∧
    blnr % geo.sect + 1 < 256

section
variable (geo : Geo) (outcome : ℕ → Outcome) (intr : Bool)

/-- What comes of the seek of the loop, command number `k` and the next: interrupts were enabled
where they are enabled again, and disabled where they are not. -/
def SeekFine (Rest : ℕ → Prop) (k : ℕ) : Prop :=
  if ¬ (outcome k).ok ∨ ¬ (outcome (k + 1)).ok then intr = true
  else if (outcome (k + 1)).result 0 &&& 0x20 ≠ 0x20 then intr = false
  else Rest (k + 2)

/-- What comes of a READ of `len` bytes with its retries. -/
def ChunkFine (len : ℕ) (Rest : ℕ → ℕ → ℕ → Prop) (retriesrw retriescal k : ℕ) : Prop :=
  if ¬ (outcome k).ok then intr = true
  else if (outcome k).good < len then
    if rwRetries < retriesrw then
      if calRetries < retriescal then intr = true
      else if ¬ (outcome (k + 1)).ok ∨ ¬ (outcome (k + 2)).ok then intr = true
      else SeekFine outcome intr (fun k => ChunkFine len Rest 0 (retriescal + 1) k) (k + 3)
    else ChunkFine len Rest (retriesrw + 1) retriescal (k + 1)
  else Rest retriesrw retriescal (k + 1)
  termination_by (calRetries + 1 - retriescal, rwRetries + 1 - retriesrw)

end

/-! ## Commands -/

section
variable {geo : Geo} {outcome : ℕ → Outcome} {intr : Bool} {s : State} {c : Command}
  {command : UInt8} {offset readblk n : ℕ} {data : ℕ → UInt8}

theorem prepare_frame (geo : Geo) (sect : ℕ) (c : Command) :
    (prepare geo sect c).blnr = c.blnr ∧ (prepare geo sect c).drive = c.drive := by
  simp only [prepare, apply_ite Command.blnr, apply_ite Command.drive, Command.set, ite_self,
    and_self]

theorem address_command : (address geo (c.set iCommand command)).cmd iCommand = command := rfl

variable (geo c) in
theorem setup_read :
    (setup geo (c.set iCommand cmdRead)).cmd iTrack =
      UInt8.ofNat (c.blnr / (geo.sect * geo.head)) ∧
    (setup geo (c.set iCommand cmdRead)).cmd iHead =
      UInt8.ofNat (c.blnr % (geo.sect * geo.head) / geo.sect) ∧
    (setup geo (c.set iCommand cmdRead)).cmd iSector =
      UInt8.ofNat (c.blnr % (geo.sect * geo.head) % geo.sect + 1) := by
  unfold setup prepare
  rw [if_pos address_command]
  exact ⟨rfl, rfl, rfl⟩

theorem setup_senseInt : (setup geo (c.set iCommand cmdSenseInt)).resultlen = 2 := by
  unfold setup prepare
  rw [address_command]
  rfl

theorem addresses_iff (cmd : ℕ → UInt8) {blnr : ℕ}
    (htrack : cmd iTrack = UInt8.ofNat (blnr / (geo.sect * geo.head)))
    (hhead : cmd iHead = UInt8.ofNat (blnr % (geo.sect * geo.head) / geo.sect))
    (hsector : cmd iSector = UInt8.ofNat (blnr % (geo.sect * geo.head) % geo.sect + 1)) :
    Addresses geo blnr cmd ↔ Fits geo blnr := by
  have hbyte (n : ℕ) : (UInt8.ofNat n).toNat = n ↔ n < 256 := by
    rw [UInt8.toNat_ofNat']
    omega
  have hsect : blnr % (geo.sect * geo.head) % geo.sect = blnr % geo.sect :=
    Nat.mod_mul_right_mod ..
  constructor
  · intro h
    exact ⟨(hbyte _).mp (htrack ▸ h.track), (hbyte _).mp (hhead ▸ h.head),
      (hbyte _).mp (by rw [← hsect, ← hsector, h.sector, hsect])⟩
  · rintro ⟨h1, h2, h3⟩
    exact ⟨htrack ▸ (hbyte _).mpr h1, hhead ▸ (hbyte _).mpr h2,
      by rw [hsector, hsect, (hbyte _).mpr h3]⟩

/-- What a step does not change. -/
structure Keeps (s s' : State) : Prop where
  blnr : s'.c.blnr = s.c.blnr
  drive : s'.c.drive = s.c.drive
  intr : s'.intr = s.intr

theorem Keeps.trans {s' s'' : State} (h : Keeps s s') (h' : Keeps s' s'') : Keeps s s'' :=
  ⟨h'.blnr.trans h.blnr, h'.drive.trans h.drive, h'.intr.trans h.intr⟩

variable (geo outcome s command) in
theorem issue_keeps : Keeps s (s.issue geo outcome command).2 :=
  ⟨(prepare_frame ..).1, (prepare_frame ..).2, rfl⟩

theorem senseInt_result (h : (outcome s.used).ok = true) :
    (s.issue geo outcome cmdSenseInt).2.c.result 0 = (outcome s.used).result 0 := by
  have hlen : (setup geo (s.c.set iCommand cmdSenseInt)).resultlen = 2 := setup_senseInt
  exact if_pos ⟨h, by omega⟩

variable (geo outcome s command) in
theorem issue_spec : (s.issue geo outcome command).1 = (outcome s.used).ok ∧
    (s.issue geo outcome command).2.used = s.used + 1 ∧
    (s.issue geo outcome command).2.mem = s.mem :=
  ⟨rfl, rfl, rfl⟩

variable (geo outcome s) in
theorem move_spec (command : UInt8) :
    (Keeps s (s.move geo outcome command).2 ∧ (s.move geo outcome command).2.mem = s.mem) ∧
    ((s.move geo outcome command).1 = true ↔
      ¬ (¬ (outcome s.used).ok ∨ ¬ (outcome (s.used + 1)).ok)) ∧
    ((s.move geo outcome command).1 = true →
      (s.move geo outcome command).2.used = s.used + 2 ∧
      (s.move geo outcome command).2.c.result 0 = (outcome (s.used + 1)).result 0) := by
  have hissue : (s.issue geo outcome command).1 = (outcome s.used).ok := rfl
  unfold State.move
  dsimp only
  by_cases hok : (outcome s.used).ok = true
  · rw [hissue, if_pos hok]
    refine ⟨⟨(issue_keeps ..).trans (issue_keeps ..), rfl⟩, ?_, fun h => ⟨rfl, senseInt_result h⟩⟩
    rw [not_or, not_not, not_not, and_iff_right hok]
    rfl
  · rw [hissue, if_neg hok]
    exact ⟨⟨issue_keeps .., rfl⟩, iff_of_false hok fun h => h (.inl hok), fun h => absurd h hok⟩

theorem stopped_stopDrive : s.stopDrive.Stopped := by
  unfold State.Stopped State.stopDrive
  dsimp only
  generalize UInt8.ofNat (1 <<< (4 + s.c.drive.toNat)) ||| s.c.drive = val
  rw [UInt8.and_assoc, UInt8.not_and_self, UInt8.and_zero]

theorem stopped_quit : s.quit.Stopped := stopped_stopDrive

variable (geo outcome intr s) in
theorem loopSeek_spec (Rest : ℕ → Prop) (hintr : s.intr = false) :
    match s.loopSeek geo outcome with
    | .error e => e.Stopped ∧ (e.intr = intr ↔ SeekFine outcome intr Rest s.used)
    | .ok s' => Keeps s s' ∧ s'.mem = s.mem ∧
      (Rest s'.used ↔ SeekFine outcome intr Rest s.used) := by
  obtain ⟨⟨hkeeps, hmem⟩, hok, hresult⟩ := move_spec geo outcome s cmdSeek
  unfold State.loopSeek State.fdcSeek SeekFine
  dsimp only
  generalize s.move geo outcome cmdSeek = r at *
  by_cases hr : r.1 = true
  swap
  · rw [if_pos hr, if_pos (not_not.mp (mt hok.mpr hr))]
    exact ⟨stopped_stopDrive, eq_comm⟩
  rw [if_neg (not_not.mpr hr), if_neg (hok.mp hr), (hresult hr).2]
  by_cases hend : (outcome (s.used + 1)).result 0 &&& 0x20 ≠ 0x20
  · rw [if_pos hend, if_pos hend]
    have hoff : r.2.stopDrive.intr = false := hkeeps.intr.trans hintr
    exact ⟨stopped_stopDrive, by rw [hoff, eq_comm]⟩
  · rw [if_neg hend, if_neg hend]
    exact ⟨hkeeps, hmem, by rw [(hresult hr).1]⟩

/-! ## A READ with its retries -/

/-- A READ that is completed, of the blocks from that of the state on. -/
structure ChunkDone (geo : Geo) (offset readblk : ℕ) (s : State) (r : Read) (s' : State) :
    Prop where
  blocks : r.blocks = readblk
  address : Addresses geo s.c.blnr r.cmd ↔ Fits geo s.c.blnr
  keeps : Keeps s s'
  data : ∀ i < geo.sectSize * readblk, s'.mem (offset + i) = r.data i
  frame : ∀ j < offset, s'.mem j = s.mem j

theorem ChunkDone.after {s₁ s' : State} {r : Read} (hkeeps : Keeps s s₁)
    (hmem : ∀ j < offset, s₁.mem j = s.mem j) (h : ChunkDone geo offset readblk s₁ r s') :
    ChunkDone geo offset readblk s r s' :=
  ⟨h.blocks, hkeeps.blnr ▸ h.address, hkeeps.trans h.keeps, h.data,
    fun j hj => (h.frame j hj).trans (hmem j hj)⟩

theorem receive_frame {j : ℕ} (h : j < offset) : (s.receive offset n data).mem j = s.mem j :=
  if_neg fun h' => Nat.not_lt_of_ge h'.1 h

theorem receive_data {i : ℕ} (h : i < n) : (s.receive offset n data).mem (offset + i) = data i := by
  have hin : offset ≤ offset + i ∧ offset + i < offset + n := by omega
  refine (if_pos hin).trans ?_
  rw [Nat.add_sub_cancel_left]

variable (s offset n) in
theorem salvage_frame : Keeps s (s.salvage offset n) ∧ (s.salvage offset n).mem = s.mem ∧
    (s.salvage offset n).used = s.used := by
  unfold State.salvage
  split_ifs <;> exact ⟨⟨rfl, rfl, rfl⟩, rfl, rfl⟩

variable (s offset n data) in
theorem partial_frame {s' : State} (h : s' = (s.receive offset n data).salvage offset n) :
    Keeps s s' ∧ s'.used = s.used ∧ ∀ j < offset, s'.mem j = s.mem j := by
  obtain ⟨hkeeps, hmem, hused⟩ := salvage_frame (s.receive offset n data) offset n
  rw [h]
  exact ⟨⟨hkeeps.blnr, hkeeps.drive, hkeeps.intr⟩, hused, fun j hj => hmem ▸ receive_frame hj⟩

variable (geo outcome s) in
theorem issue_read :
    Addresses geo s.c.blnr (s.issue geo outcome cmdRead).2.c.cmd ↔ Fits geo s.c.blnr := by
  obtain ⟨htrack, hhead, hsector⟩ := setup_read geo s.c
  exact addresses_iff (setup geo (s.c.set iCommand cmdRead)).cmd htrack hhead hsector

/-- The two ends of a READ: the function returns, or the READ is completed. -/
def Ends (P : State → Prop) (Q : Read → ℕ → ℕ → State → Prop) :
    Except State (Read × ℕ × ℕ × State) → Prop
  | .error e => P e
  | .ok (r, retriesrw, retriescal, s) => Q r retriesrw retriescal s

theorem Ends.imp {P P' : State → Prop} {Q Q' : Read → ℕ → ℕ → State → Prop}
    {x : Except State (Read × ℕ × ℕ × State)} (h : Ends P Q x) (hP : ∀ e, P e → P' e)
    (hQ : ∀ r rw cal s, Q r rw cal s → Q' r rw cal s) : Ends P' Q' x := by
  match x, h with
  | .error e, h => exact hP e h
  | .ok (r, rw, cal, s), h => exact hQ r rw cal s h

variable (geo outcome intr offset readblk) in
def ReadSpec (Fine : Prop) (Rest : ℕ → ℕ → ℕ → Prop) (s : State)
    (x : Except State (Read × ℕ × ℕ × State)) : Prop :=
  Ends (fun e => e.Stopped ∧ (e.intr = intr ↔ Fine))
    (fun r rw cal s' => ChunkDone geo offset readblk s r s' ∧ (Rest rw cal s'.used ↔ Fine)) x

variable (intr) in
theorem ReadSpec.after {Fine : Prop} {Rest : ℕ → ℕ → ℕ → Prop} {s₁ : State}
    {x : Except State (Read × ℕ × ℕ × State)} (hkeeps : Keeps s s₁)
    (hmem : ∀ j < offset, s₁.mem j = s.mem j)
    (h : ReadSpec geo intr offset readblk Fine Rest s₁ x) :
    ReadSpec geo intr offset readblk Fine Rest s x :=
  h.imp (fun _ h => h) fun _ _ _ _ h => ⟨h.1.after hkeeps hmem, h.2⟩

theorem readSpec_quit {Fine : Prop} {Rest : ℕ → ℕ → ℕ → Prop} {s₁ : State}
    (h : Fine ↔ intr = true) :
    ReadSpec geo intr offset readblk Fine Rest s (.error s₁.quit) :=
  ⟨stopped_stopDrive, eq_comm.trans h.symm⟩

variable (geo outcome intr offset readblk) in
theorem readChunk_spec (Rest : ℕ → ℕ → ℕ → Prop) (retriesrw retriescal : ℕ) (s : State)
    (hintr : s.intr = false) :
    ReadSpec geo intr offset readblk
      (ChunkFine outcome intr (geo.sectSize * readblk) Rest retriesrw retriescal s.used) Rest s
      (readChunk geo outcome offset readblk retriesrw retriescal s) := by
  induction hn : (calRetries + 1 - retriescal) * 5 + (rwRetries + 1 - retriesrw)
    using Nat.strongRecOn generalizing retriesrw retriescal s with
  | _ n ih =>
    subst hn
    have hcal : calRetries = 3 := rfl
    have hrw : rwRetries = 3 := rfl
    obtain ⟨hread, hused, hmem⟩ := issue_spec geo outcome s cmdRead
    have hkeeps : Keeps s (s.issue geo outcome cmdRead).2 := issue_keeps geo outcome s cmdRead
    have haddr := issue_read geo outcome s
    rw [readChunk, ChunkFine]
    dsimp only
    rw [hread]
    generalize (s.issue geo outcome cmdRead).2 = s₁ at *
    by_cases hok : (outcome s.used).ok = true
    swap
    · rw [if_pos hok, if_pos hok]
      exact readSpec_quit Iff.rfl
    rw [if_neg (not_not.mpr hok), if_neg (not_not.mpr hok)]
    by_cases hgood : (outcome s.used).good < geo.sectSize * readblk
    swap
    · rw [if_neg hgood, if_neg hgood]
      refine ⟨⟨rfl, haddr, ⟨hkeeps.blnr, hkeeps.drive, hkeeps.intr⟩, fun i hi => receive_data hi,
        fun j hj => (receive_frame hj).trans (congrFun hmem j)⟩, ?_⟩
      show Rest retriesrw retriescal s₁.used ↔ _
      rw [hused]
    rw [if_pos hgood, if_pos hgood]
    have hpart := partial_frame s₁ offset (outcome s.used).good (outcome s.used).data rfl
    generalize (s₁.receive offset (outcome s.used).good (outcome s.used).data).salvage offset
      (outcome s.used).good = s₂ at *
    obtain ⟨hkeeps', hused', hmem'⟩ := hpart
    have hkeeps₂ := hkeeps.trans hkeeps'
    have hmem₂ (j : ℕ) (hj : j < offset) : s₂.mem j = s.mem j :=
      (hmem' j hj).trans (congrFun hmem j)
    rw [hused] at hused'
    by_cases hretry : rwRetries < retriesrw
    swap
    · rw [if_neg hretry, if_neg hretry]
      have hnext := ih _ (by omega) (retriesrw + 1) retriescal s₂ (hkeeps₂.intr.trans hintr) rfl
      rw [hused'] at hnext
      exact hnext.after intr hkeeps₂ hmem₂
    rw [if_pos hretry, if_pos hretry]
    by_cases hgive : calRetries < retriescal
    · rw [if_pos hgive, if_pos hgive]
      exact readSpec_quit Iff.rfl
    rw [if_neg hgive, if_neg hgive]
    obtain ⟨⟨hkeeps₃, hmem₃⟩, hrecal, hresult⟩ := move_spec geo outcome s₂ cmdRecalibrate
    unfold State.fdcRecalibrate
    rw [hused', Nat.add_assoc] at hrecal hresult
    generalize s₂.move geo outcome cmdRecalibrate = r at *
    by_cases hr : r.1 = true
    swap
    · rw [if_pos hr, if_pos (not_not.mp (mt hrecal.mpr hr))]
      exact readSpec_quit Iff.rfl
    rw [if_neg (not_not.mpr hr), if_neg (hrecal.mp hr)]
    have hkeeps₄ := hkeeps₂.trans hkeeps₃
    have hused₄ : r.2.used = s.used + 3 := by
      rw [(hresult hr).1]
    have hseek := loopSeek_spec geo outcome intr r.2 (fun k =>
      ChunkFine outcome intr (geo.sectSize * readblk) Rest 0 (retriescal + 1) k)
      (hkeeps₄.intr.trans hintr)
    rw [hused₄] at hseek
    cases hls : r.2.loopSeek geo outcome with
    | error e =>
      rw [hls] at hseek
      exact hseek
    | ok s₅ =>
      rw [hls] at hseek
      obtain ⟨hkeeps₅, hmem₅, hfine⟩ := hseek
      have hnext := ih _ (by omega) 0 (retriescal + 1) s₅
        ((hkeeps₄.trans hkeeps₅).intr.trans hintr) rfl
      rw [← hfine]
      exact hnext.after intr (hkeeps₄.trans hkeeps₅) fun j hj => by rw [hmem₅, hmem₃, hmem₂ j hj]

/-! ## All READs -/

variable (geo outcome intr) in
def LoopFine (blocks readblk : ℕ) (_hpos : 0 < readblk) (blnr retriesrw retriescal k : ℕ) : Prop :=
  ChunkFine outcome intr (geo.sectSize * readblk) (fun retriesrw retriescal k =>
    Fits geo blnr ∧
    if hdone : blocks - readblk = 0 then intr = true
    else SeekFine outcome intr (fun k =>
      LoopFine (blocks - readblk) (min geo.sect (blocks - readblk))
        (Nat.lt_min.mpr ⟨geo.sect_pos, Nat.pos_of_ne_zero hdone⟩) (blnr + readblk)
        retriesrw retriescal k) k) retriesrw retriescal k
  termination_by blocks

variable (geo outcome intr) in
/-- The commands of `fdc_read_data`. -/
def ReadFine (blocks : ℕ) (hpos : 0 < blocks) (blnr k : ℕ) : Prop :=
  if ¬ (outcome k).ok ∨ ¬ (outcome (k + 1)).ok then intr = true
  else if (outcome (k + 1)).result 0 &&& 0x20 ≠ 0x20 then intr = true
  else LoopFine geo outcome intr blocks (min (geo.sect - blnr % geo.sect) blocks)
    (Nat.lt_min.mpr ⟨Nat.sub_pos_of_lt (Nat.mod_lt _ geo.sect_pos), hpos⟩) blnr 0 0 (k + 2)

theorem reads_nil {blnr blocks : ℕ} {ret : Bool} (hstop : s.Stopped)
    (hret : ret = true → blocks = 0) :
    Reads geo blnr blocks offset intr ⟨ret, [], s⟩ ↔ s.intr = intr :=
  ⟨fun h => h.interrupts, fun h => ⟨trivial, fun hr => ⟨(hret hr).symm, trivial⟩, hstop, h⟩⟩

theorem reads_cons {blocks : ℕ} {r : Read} {s' : State} (run : Run) (hpos : 0 < readblk)
    (hle : readblk ≤ blocks) (htrack : s.c.blnr % geo.sect + readblk ≤ geo.sect)
    (hdone : ChunkDone geo offset readblk s r s')
    (hframe : run.ret = true →
      ∀ j < offset + geo.sectSize * readblk, run.state.mem j = s'.mem j) :
    Reads geo s.c.blnr blocks offset intr { run with reads := r :: run.reads } ↔
      Fits geo s.c.blnr ∧ Reads geo (s.c.blnr + readblk) (blocks - readblk)
        (offset + geo.sectSize * readblk) intr run := by
  have hblocks := hdone.blocks
  subst hblocks
  rw [← hdone.address]
  constructor
  · rintro ⟨⟨-, haddr, hcovers⟩, hwhole, hmotor, hintr⟩
    refine ⟨haddr, hcovers, fun hret => ?_, hmotor, hintr⟩
    obtain ⟨hsum, -, hstored⟩ := hwhole hret
    rw [List.map_cons, List.sum_cons] at hsum
    exact ⟨by omega, hstored⟩
  · rintro ⟨haddr, hcovers, hwhole, hmotor, hintr⟩
    refine ⟨⟨⟨hpos, hle, htrack⟩, haddr, hcovers⟩, fun hret => ?_, hmotor, hintr⟩
    obtain ⟨hsum, hstored⟩ := hwhole hret
    refine ⟨?_, fun i hi => ?_, hstored⟩
    · rw [List.map_cons, List.sum_cons, hsum]
      omega
    · exact (hframe hret _ (by omega)).trans (hdone.data i hi)

variable (geo) in
theorem first_ends (blnr rest : ℕ) :
    rest - min (geo.sect - blnr % geo.sect) rest = 0 ∨
      (blnr + min (geo.sect - blnr % geo.sect) rest) % geo.sect = 0 := by
  have hmod : blnr % geo.sect < geo.sect := Nat.mod_lt _ geo.sect_pos
  rcases Nat.le_total (geo.sect - blnr % geo.sect) rest with hle | hle
  · right
    have hdiv := Nat.div_add_mod blnr geo.sect
    have htrack : blnr + (geo.sect - blnr % geo.sect) = geo.sect * (blnr / geo.sect + 1) := by
      rw [Nat.mul_add_one]
      omega
    rw [Nat.min_eq_left hle, htrack, Nat.mul_mod_right]
  · left
    rw [Nat.min_eq_right hle, Nat.sub_self]

variable (geo outcome intr) in
/-- **The loop.** The READ ends with its track, or with the last block. -/
theorem chunkLoop_spec (blocks readblk : ℕ) (hpos : 0 < readblk) (offset retriesrw retriescal : ℕ)
    (s : State) (hintr : s.intr = false) (hle : readblk ≤ blocks)
    (htrack : s.c.blnr % geo.sect + readblk ≤ geo.sect)
    (hends : blocks - readblk = 0 ∨ (s.c.blnr + readblk) % geo.sect = 0) :
    let run := chunkLoop geo outcome blocks readblk hpos offset retriesrw retriescal s
    (Reads geo s.c.blnr blocks offset intr run ↔
      LoopFine geo outcome intr blocks readblk hpos s.c.blnr retriesrw retriescal s.used) ∧
    (run.ret = true → ∀ j < offset, run.state.mem j = s.mem j) := by
  induction hn : blocks using Nat.strongRecOn
    generalizing blocks readblk offset retriesrw retriescal s with
  | _ n ih =>
    subst hn
    dsimp only
    rw [chunkLoop, LoopFine]
    have hspec := readChunk_spec geo outcome intr offset readblk (fun rw cal k =>
      Fits geo s.c.blnr ∧
      if hdone : blocks - readblk = 0 then intr = true
      else SeekFine outcome intr (fun k =>
        LoopFine geo outcome intr (blocks - readblk) (min geo.sect (blocks - readblk))
          (Nat.lt_min.mpr ⟨geo.sect_pos, Nat.pos_of_ne_zero hdone⟩) (s.c.blnr + readblk)
          rw cal k) k) retriesrw retriescal s hintr
    cases hx : readChunk geo outcome offset readblk retriesrw retriescal s with
    | error e =>
      rw [hx] at hspec
      obtain ⟨hstop, hfine⟩ := hspec
      rw [← hfine]
      exact ⟨reads_nil hstop fun h => absurd h Bool.false_ne_true,
        fun h => absurd h Bool.false_ne_true⟩
    | ok x =>
      rw [hx] at hspec
      obtain ⟨r, rw', cal', s'⟩ := x
      obtain ⟨hdone, hfine⟩ := hspec
      rw [← hfine]
      dsimp only
      have hblnr : s'.c.blnr = s.c.blnr := hdone.keeps.blnr
      have hoff : s'.intr = false := hdone.keeps.intr.trans hintr
      by_cases hlast : blocks - readblk = 0
      · rw [dif_pos hlast, dif_pos hlast]
        refine ⟨?_, fun _ j hj => hdone.frame j hj⟩
        refine (reads_cons ⟨true, [], (s'.advance readblk).quit⟩ hpos hle htrack hdone
          fun _ _ _ => rfl).trans ?_
        exact and_congr_right' ((reads_nil stopped_quit fun _ => hlast).trans eq_comm)
      rw [dif_neg hlast, dif_neg hlast]
      have hseek := loopSeek_spec geo outcome intr (s'.advance readblk) (fun k =>
          LoopFine geo outcome intr (blocks - readblk) (min geo.sect (blocks - readblk))
            (Nat.lt_min.mpr ⟨geo.sect_pos, Nat.pos_of_ne_zero hlast⟩) (s.c.blnr + readblk)
            rw' cal' k) hoff
      cases hls : (s'.advance readblk).loopSeek geo outcome with
      | error e =>
        rw [hls] at hseek
        refine ⟨?_, fun h => absurd h Bool.false_ne_true⟩
        refine (reads_cons ⟨false, [], e⟩ hpos hle htrack hdone
          fun h => absurd h Bool.false_ne_true).trans ?_
        exact and_congr_right' ((reads_nil hseek.1 fun h => absurd h Bool.false_ne_true).trans
          hseek.2)
      | ok s₂ =>
        rw [hls] at hseek
        obtain ⟨hkeeps, hmem, hfine'⟩ := hseek
        have hblnr₂ : s₂.c.blnr = s.c.blnr + readblk :=
          hkeeps.blnr.trans (congrArg (· + readblk) hblnr)
        have hzero : s₂.c.blnr % geo.sect = 0 := hblnr₂ ▸ hends.resolve_left hlast
        obtain ⟨hiff, hframe⟩ := ih (blocks - readblk) (by omega) (blocks - readblk)
          (min geo.sect (blocks - readblk))
          (Nat.lt_min.mpr ⟨geo.sect_pos, Nat.pos_of_ne_zero hlast⟩)
          (offset + geo.sectSize * readblk) rw' cal' s₂ (hkeeps.intr.trans hoff)
          (Nat.min_le_right ..) (by rw [hzero, Nat.zero_add]; exact Nat.min_le_left ..)
          (by simpa only [hzero, Nat.sub_zero] using
            first_ends geo s₂.c.blnr (blocks - readblk)) rfl
        rw [hblnr₂] at hiff
        refine ⟨?_, fun hret j hj => ?_⟩
        · refine (reads_cons _ hpos hle htrack hdone fun hret j hj => ?_).trans
            (and_congr_right' (hiff.trans hfine'))
          rw [hframe hret j hj, hmem]
          rfl
        · rw [hframe hret j (by omega), hmem]
          exact hdone.frame j hj

variable (geo outcome intr) in
theorem firstLoop_spec (blocks : ℕ) (hpos : 0 < blocks) (s : State) (hintr : s.intr = false) :
    Reads geo s.c.blnr blocks 0 intr
        (chunkLoop geo outcome blocks (min (geo.sect - s.c.blnr % geo.sect) blocks)
          (Nat.lt_min.mpr ⟨Nat.sub_pos_of_lt (Nat.mod_lt _ geo.sect_pos), hpos⟩) 0 0 0 s) ↔
      LoopFine geo outcome intr blocks (min (geo.sect - s.c.blnr % geo.sect) blocks)
        (Nat.lt_min.mpr ⟨Nat.sub_pos_of_lt (Nat.mod_lt _ geo.sect_pos), hpos⟩) s.c.blnr 0 0
        s.used := by
  have hmod : s.c.blnr % geo.sect < geo.sect := Nat.mod_lt _ geo.sect_pos
  exact (chunkLoop_spec geo outcome intr blocks _ _ 0 0 0 s hintr (Nat.min_le_right ..) (by omega)
    (first_ends ..)).1

variable (s) in
theorem selectDrive_frame : Keeps s s.selectDrive ∧ s.selectDrive.used = s.used := by
  unfold State.selectDrive
  dsimp only
  split_ifs <;> exact ⟨⟨rfl, rfl, rfl⟩, rfl⟩

end

/-- **`fdc_read_data` reads the blocks, stops the motor and leaves interrupts as they were**
exactly if each READ that is completed has an address that fits, and interrupts were enabled at
entry, or they were disabled and the function returns from a seek of the loop that has no bit for
its end. -/
theorem fdc_read_iff (geo : Geo) (outcome : ℕ → Outcome) (blocks : ℕ) (hpos : 0 < blocks)
    (s : State) :
    Reads geo s.c.blnr blocks 0 s.intr (fdcReadData geo outcome blocks hpos s) ↔
      ReadFine geo outcome s.intr blocks hpos s.c.blnr s.used := by
  obtain ⟨hselect, hused⟩ := selectDrive_frame { s with intr := false }
  obtain ⟨⟨hmove, -⟩, hok, hresult⟩ :=
    move_spec geo outcome ({ s with intr := false } : State).selectDrive cmdSeek
  rw [show State.used _ = s.used from hused] at hok hresult
  have hkeeps := hselect.trans hmove
  have hblnr : (State.c _).blnr = s.c.blnr := hkeeps.blnr
  have hquit (s₁ : State) : Reads geo s.c.blnr blocks 0 s.intr ⟨false, [], s₁.quit⟩ ↔
      s.intr = true :=
    (reads_nil stopped_quit fun h => absurd h Bool.false_ne_true).trans eq_comm
  unfold fdcReadData ReadFine State.fdcSeek
  dsimp only
  by_cases hr : (State.move geo outcome { s with intr := false }.selectDrive cmdSeek).1 = true
  swap
  · rw [if_pos hr, if_pos (not_not.mp (mt hok.mpr hr))]
    exact hquit _
  rw [if_neg (not_not.mpr hr), if_neg (hok.mp hr), (hresult hr).2]
  by_cases hend : (outcome (s.used + 1)).result 0 &&& 0x20 ≠ 0x20
  · rw [if_pos hend, if_pos hend]
    exact hquit _
  rw [if_neg hend, if_neg hend]
  have hloop := firstLoop_spec geo outcome s.intr blocks hpos _ hkeeps.intr
  rw [(hresult hr).1] at hloop
  simp only [hblnr] at hloop ⊢
  exact hloop

/-- The 1.44 MB disk of `floppy_type`. -/
def h1440 : Geo := ⟨18, 2, 0x1b, 0xcf, 16, 2, by decide, by decide⟩

/-- A controller where only seek `k` ends without the bit for its end. -/
def seekStops (k i : ℕ) : Outcome :=
  ⟨true, fun _ => if i = k then 0 else 0x20, 18 * 512, fun _ => 0⟩

/-- Block 0 of drive 0, interrupts enabled, and no command yet. -/
def atEntry : State := ⟨⟨0, 0, 0, fun _ => 0, 0, fun _ => 0, 0⟩, fun _ => 0, 0, true, 0⟩

def atBlock14 : State := { atEntry with c := { atEntry.c with blnr := 14 } }

/-- Blocks 14 to 39 lie on three tracks: the rest of the first, the other side, and four blocks of
the next cylinder. -/
theorem fdc_read_tracks :
    Reads h1440 14 26 0 true (fdcReadData h1440 (seekStops 99) 26 (by decide) atBlock14) := by
  refine (fdc_read_iff h1440 (seekStops 99) 26 (by decide) atBlock14).mpr ?_
  rw [ReadFine, if_neg (by decide), if_neg (by decide), LoopFine, ChunkFine, if_neg (by decide),
    if_neg (by decide)]
  refine ⟨⟨by decide, by decide, by decide⟩, ?_⟩
  rw [dif_neg (by decide), SeekFine, if_neg (by decide), if_neg (by decide), LoopFine, ChunkFine,
    if_neg (by decide), if_neg (by decide)]
  refine ⟨⟨by decide, by decide, by decide⟩, ?_⟩
  rw [dif_neg (by decide), SeekFine, if_neg (by decide), if_neg (by decide), LoopFine, ChunkFine,
    if_neg (by decide), if_neg (by decide)]
  exact ⟨⟨by decide, by decide, by decide⟩, rfl⟩

/-- The second track cannot be sought, and interrupts stay disabled. -/
theorem fdc_read_fails :
    ¬ Reads h1440 0 19 0 true (fdcReadData h1440 (seekStops 4) 19 (by decide) atEntry) := by
  intro h
  have hfine := (firstLoop_spec h1440 (seekStops 4) true 19 (by decide)
    (({ atEntry with intr := false }.selectDrive).fdcSeek h1440 (seekStops 4)).2 rfl).mp h
  rw [LoopFine, ChunkFine, if_neg (by decide), if_neg (by decide), dif_neg (by decide), SeekFine,
    if_neg (by decide), if_pos (by decide)] at hfine
  exact absurd hfine.2 (by decide)

end UBoot.Fdc
