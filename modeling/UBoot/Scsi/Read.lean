import UBoot.Scsi.Command

/-!
# Reading blocks (`common/cmd_scsi.c`)

`scsi_read` takes a read apart into `READ(10)` commands of at most 65535 blocks. It counts the
blocks of a command as done before it runs the command, and on a failure returns the count without
those that are left. `scsi_read_iff` says when the result is the number of blocks that were read.
-/

namespace UBoot.Scsi

open UBoot.Lib

def scsiMaxReadBlk : UInt32 := 0xFFFF

/-- The command of one turn of the loop, and what is left to read after it. -/
def readChunk (d : BlockDev) (p : Ccb) (start blks bufAddr : UInt32) : Ccb × UInt32 × UInt32 :=
  let p := { p with pdata := bufAddr }
  if scsiMaxReadBlk < blks then
    let p := { p with datalen := d.blksz * scsiMaxReadBlk }
    let smallblks := scsiMaxReadBlk.toUInt16
    (scsiSetupReadExt p start smallblks, start + scsiMaxReadBlk, blks - scsiMaxReadBlk)
  else
    let p := { p with datalen := d.blksz * blks }
    let smallblks := blks.toUInt16
    (scsiSetupReadExt p start smallblks, start + blks, 0)

theorem readChunk_lt {d : BlockDev} {p : Ccb} {start blks bufAddr : UInt32}
    (h : (readChunk d p start blks bufAddr).2.2 ≠ 0) :
    (readChunk d p start blks bufAddr).2.2.toNat < blks.toNat := by
  unfold readChunk at h ⊢
  dsimp only at h ⊢
  split_ifs at h ⊢ with hmax
  · have hlt : (65535 : ℕ) < blks.toNat := UInt32.lt_iff_toNat_lt.mp hmax
    dsimp only
    rw [UInt32.toNat_sub_of_le _ _ (UInt32.le_of_lt hmax)]
    have h65535 : scsiMaxReadBlk.toNat = 65535 := rfl
    omega
  · exact absurd rfl h

/-- The loop, from its command `k` on: the result, and the commands with what `scsi_exec` said. -/
def readLoop (exec : ℕ → Bool) (d : BlockDev) (blkcnt : UInt32) (k : ℕ) (p : Ccb)
    (start blks bufAddr : UInt32) : UInt32 × List (Ccb × Bool) :=
  let c := readChunk d p start blks bufAddr
  if exec k then
    if c.2.2 ≠ 0 then
      let r := readLoop exec d blkcnt (k + 1) c.1 c.2.1 c.2.2 (bufAddr + c.1.datalen)
      (r.1, (c.1, true) :: r.2)
    else (blkcnt, [(c.1, true)])
  else (blkcnt - c.2.2, [(c.1, false)])
termination_by blks.toNat
decreasing_by exact readChunk_lt ‹_›

/-- `scsi_read`. `exec k` is what `scsi_exec` says to command `k`. -/
def scsiRead (scsiDevDesc : ℕ → BlockDev) (exec : ℕ → Bool) (tempccb : Ccb) (device : ℤ)
    (blknr blkcnt buffer : UInt32) : UInt32 × List (Ccb × Bool) :=
  let d := scsiDevDesc (device % 256).toNat
  let p := { tempccb with target := d.target, lun := d.lun }
  readLoop exec d blkcnt 0 p blknr blkcnt buffer

/-! ## What the commands should be -/

/-- The number of blocks of the first `k` commands. -/
def blocksBefore (cmds : List (Ccb × Bool)) (k : ℕ) : ℕ := ((cmds.take k).map (·.1.blocks)).sum

/-- The number of blocks of the commands that worked before the first failure. -/
def blocksRead (cmds : List (Ccb × Bool)) : ℕ := ((cmds.takeWhile (·.2)).map (·.1.blocks)).sum

/-- The commands read consecutive ranges into the buffer, and the result says how much was read. -/
structure Reports (blksz blknr blkcnt buffer : ℕ) (r : UInt32 × List (Ccb × Bool)) : Prop where
  most : ∀ c ∈ r.2, c.1.blocks ≤ 65535
  lba : ∀ k c, r.2[k]? = some c → c.1.lba = blknr + blocksBefore r.2 k
  datalen : ∀ c ∈ r.2, c.1.datalen.toNat = blksz * c.1.blocks
  pdata : ∀ k c, r.2[k]? = some c → c.1.pdata.toNat = buffer + blksz * blocksBefore r.2 k
  result : r.1.toNat = blocksRead r.2
  all : (∀ c ∈ r.2, c.2 = true) → r.1.toNat = blkcnt

/-! ## What the commands are -/

/-- Command `j` of a read of `blks` blocks, with the arithmetic of the source. -/
structure IsChunk (blksz start blks bufAddr j : ℕ) (c : Ccb) : Prop where
  lba : c.lba = (start + 65535 * j) % 2 ^ 32
  blocks : c.blocks = min 65535 (blks - 65535 * j)
  datalen : c.datalen.toNat = blksz * c.blocks % 2 ^ 32
  pdata : c.pdata.toNat = (bufAddr + blksz * (65535 * j)) % 2 ^ 32

/-- The loop issued the commands up to `m`. -/
structure Issued (exec : ℕ → Bool) (blksz start blks bufAddr blkcnt k m : ℕ)
    (r : UInt32 × List (Ccb × Bool)) : Prop where
  length : r.2.length = m + 1
  last : m = 0 ∨ 65535 * m < blks
  cmd : ∀ j ≤ m, ∃ c, r.2[j]? = some (c, exec (k + j)) ∧ IsChunk blksz start blks bufAddr j c
  before : ∀ j < m, exec (k + j) = true
  done : exec (k + m) = true → blks ≤ 65535 * (m + 1) ∧ r.1.toNat = blkcnt
  failed : exec (k + m) = false → r.1.toNat = blkcnt - (blks - 65535 * (m + 1))

variable {exec : ℕ → Bool} {d : BlockDev} {p : Ccb} {start blks bufAddr blkcnt : UInt32} {k : ℕ}

variable (d p start blks bufAddr) in
theorem readChunk_spec : ∃ c start' blks', readChunk d p start blks bufAddr = (c, start', blks') ∧
    IsChunk d.blksz.toNat start.toNat blks.toNat bufAddr.toNat 0 c ∧
    blks'.toNat = blks.toNat - 65535 ∧
    (blks' ≠ 0 → start'.toNat = (start.toNat + 65535) % 2 ^ 32 ∧
      c.datalen.toNat = d.blksz.toNat * 65535 % 2 ^ 32) := by
  have h65535 : scsiMaxReadBlk.toNat = 65535 := rfl
  have hstart := start.toNat_lt
  have hbuf := bufAddr.toNat_lt
  unfold readChunk
  dsimp only
  split_ifs with hmax
  · have hlt : 65535 < blks.toNat := UInt32.lt_iff_toNat_lt.mp hmax
    have hsub : (blks - scsiMaxReadBlk).toNat = blks.toNat - 65535 :=
      UInt32.toNat_sub_of_le _ _ (UInt32.le_of_lt hmax)
    have hmul : (d.blksz * scsiMaxReadBlk).toNat = d.blksz.toNat * 65535 % 2 ^ 32 :=
      UInt32.toNat_mul ..
    refine ⟨_, _, _, rfl, ⟨?_, ?_, ?_, ?_⟩, hsub, fun _ => ⟨UInt32.toNat_add .., hmul⟩⟩
    · rw [lba_readExt, Nat.mul_zero, Nat.add_zero, Nat.mod_eq_of_lt hstart]
    · rw [blocks_readExt, Nat.mul_zero, Nat.sub_zero, Nat.min_eq_left (by omega)]
      rfl
    · rw [blocks_readExt]
      exact hmul
    · rw [Nat.mul_zero, Nat.add_zero, Nat.mod_eq_of_lt hbuf]
      rfl
  · have hle : blks.toNat ≤ 65535 :=
      Nat.le_of_not_lt fun h => hmax (UInt32.lt_iff_toNat_lt.mpr h)
    have hblocks : blks.toUInt16.toNat = blks.toNat := by
      rw [UInt32.toNat_toUInt16]
      omega
    refine ⟨_, _, _, rfl, ⟨?_, ?_, ?_, ?_⟩, by rw [UInt32.toNat_zero]; omega,
      fun h => absurd rfl h⟩
    · rw [lba_readExt, Nat.mul_zero, Nat.add_zero, Nat.mod_eq_of_lt hstart]
    · rw [blocks_readExt, Nat.mul_zero, Nat.sub_zero, Nat.min_eq_right hle, hblocks]
    · rw [blocks_readExt, hblocks]
      exact UInt32.toNat_mul ..
    · rw [Nat.mul_zero, Nat.add_zero, Nat.mod_eq_of_lt hbuf]
      rfl

theorem IsChunk.succ {blksz start' bufAddr' start blks bufAddr j : ℕ} {c : Ccb}
    (hc : IsChunk blksz start' (blks - 65535) bufAddr' j c)
    (hstart : start' = (start + 65535) % 2 ^ 32)
    (hbuf : bufAddr' = (bufAddr + blksz * 65535 % 2 ^ 32) % 2 ^ 32) :
    IsChunk blksz start blks bufAddr (j + 1) c where
  lba := by
    have hsum : start + 65535 + 65535 * j = start + 65535 * (j + 1) := by omega
    rw [hc.lba, hstart, Nat.mod_add_mod, hsum]
  blocks := by
    have hsub : blks - 65535 - 65535 * j = blks - 65535 * (j + 1) := by omega
    rw [hc.blocks, hsub]
  datalen := hc.datalen
  pdata := by
    have hsum : bufAddr + blksz * (65535 * j) + blksz * 65535 =
        bufAddr + blksz * (65535 * (j + 1)) := by ring
    rw [hc.pdata, hbuf, Nat.mod_add_mod, Nat.add_right_comm, Nat.add_mod_mod, hsum]

variable (exec d p start blks bufAddr k) in
/-- The loop issues its commands one after the other, up to the first failure. -/
theorem readLoop_issued (hle : blks.toNat ≤ blkcnt.toNat) : ∃ m,
    Issued exec d.blksz.toNat start.toNat blks.toNat bufAddr.toNat blkcnt.toNat k m
      (readLoop exec d blkcnt k p start blks bufAddr) := by
  induction hn : blks.toNat using Nat.strong_induction_on generalizing k p start blks bufAddr with
  | _ n ih =>
    subst hn
    obtain ⟨c, start', blks', heq, hc, hblks', hnext⟩ :=
      readChunk_spec d p start blks bufAddr
    rw [readLoop]
    simp only [heq]
    cases hexec : exec k with
    | false =>
      rw [if_neg Bool.false_ne_true]
      refine ⟨0, rfl, .inl rfl, fun j hj => ?_, fun j hj => absurd hj (Nat.not_lt_zero j),
        fun h => ?_, fun _ => ?_⟩
      · obtain rfl : j = 0 := Nat.le_zero.mp hj
        exact ⟨c, by rw [Nat.add_zero, hexec]; rfl, hc⟩
      · rw [Nat.add_zero, hexec] at h
        cases h
      · dsimp only
        rw [UInt32.toNat_sub_of_le _ _ (UInt32.le_iff_toNat_le.mpr (by omega)), hblks']
    | true =>
      rw [if_pos rfl]
      by_cases hmore : blks' = 0
      · rw [if_neg (not_not.mpr hmore)]
        subst hmore
        rw [UInt32.toNat_zero] at hblks'
        refine ⟨0, rfl, .inl rfl, fun j hj => ?_, fun j hj => absurd hj (Nat.not_lt_zero j),
          fun _ => ⟨by omega, rfl⟩, fun h => ?_⟩
        · obtain rfl : j = 0 := Nat.le_zero.mp hj
          exact ⟨c, by rw [Nat.add_zero, hexec]; rfl, hc⟩
        · rw [Nat.add_zero, hexec] at h
          cases h
      · rw [if_pos hmore]
        obtain ⟨hstart', hdatalen⟩ := hnext hmore
        have hpos : 0 < blks'.toNat := Nat.pos_of_ne_zero fun h => hmore (UInt32.toNat_inj.mp h)
        obtain ⟨m, hm⟩ := ih blks'.toNat (by omega) c start' blks'
          (bufAddr + c.datalen) (k + 1) (by omega) rfl
        rw [hblks'] at hm
        have hk (j : ℕ) : k + 1 + j = k + (j + 1) := by omega
        refine ⟨m + 1, by rw [List.length_cons, hm.length], .inr ?_, fun j hj => ?_, fun j hj => ?_,
          fun h => ?_, fun h => ?_⟩
        · obtain rfl | hlast := hm.last <;> omega
        · cases j with
          | zero => exact ⟨c, by rw [show exec (k + 0) = true from hexec]; rfl, hc⟩
          | succ j =>
            obtain ⟨c', hget, hc'⟩ := hm.cmd j (by omega)
            rw [hk] at hget
            refine ⟨c', hget, hc'.succ hstart' ?_⟩
            rw [UInt32.toNat_add, hdatalen]
        · cases j with
          | zero => exact hexec
          | succ j => exact hk j ▸ hm.before j (by omega)
        · obtain ⟨hdone, hret⟩ := hm.done (hk m ▸ h)
          exact ⟨by omega, hret⟩
        · rw [hm.failed (hk m ▸ h)]
          omega

/-! ## When the result is right -/

theorem Issued.getElem? {blksz start blks bufAddr blkcnt m : ℕ} {r : UInt32 × List (Ccb × Bool)}
    (hi : Issued exec blksz start blks bufAddr blkcnt k m r) {j : ℕ} {c : Ccb × Bool}
    (hc : r.2[j]? = some c) :
    j ≤ m ∧ c.2 = exec (k + j) ∧ IsChunk blksz start blks bufAddr j c.1 := by
  have hj : j < r.2.length := (List.getElem?_eq_some_iff.mp hc).1
  rw [hi.length] at hj
  obtain ⟨c', hget, hchunk⟩ := hi.cmd j (by omega)
  obtain rfl := Option.some.inj (hget.symm.trans hc)
  exact ⟨by omega, rfl, hchunk⟩

theorem Issued.blocksBefore_eq {blksz start blks bufAddr blkcnt m : ℕ}
    {r : UInt32 × List (Ccb × Bool)} (hi : Issued exec blksz start blks bufAddr blkcnt k m r)
    {j : ℕ} (hj : j ≤ m + 1) : blocksBefore r.2 j = min blks (65535 * j) := by
  induction j with
  | zero => rw [blocksBefore, List.take_zero, Nat.mul_zero, Nat.min_zero]; rfl
  | succ j ih =>
    obtain ⟨c, hget, hc⟩ := hi.cmd j (by omega)
    have hlast := hi.last
    have hsum : blocksBefore r.2 (j + 1) = blocksBefore r.2 j + c.blocks := by
      rw [blocksBefore, List.take_add_one, hget, Option.toList_some, List.map_append,
        List.sum_append, List.map_singleton, List.sum_singleton]
      rfl
    rw [hsum, ih (by omega), hc.blocks]
    omega

theorem takeWhile_eq_take {α : Type} {p : α → Bool} {l : List α} {n : ℕ}
    (h : ∀ j < n, ∃ c, l[j]? = some c ∧ p c = true) (hend : ∀ c, l[n]? = some c → p c = false) :
    l.takeWhile p = l.take n := by
  induction n generalizing l with
  | zero =>
    cases l with
    | nil => rfl
    | cons c l => rw [List.takeWhile_cons, hend c rfl, List.take_zero, if_neg Bool.false_ne_true]
  | succ n ih =>
    obtain ⟨c, hget, hc⟩ := h 0 (Nat.succ_pos n)
    cases l with
    | nil => cases hget
    | cons c' l =>
      obtain rfl := Option.some.inj hget
      rw [List.takeWhile_cons, if_pos hc, List.take_succ_cons,
        ih (fun j hj => h (j + 1) (Nat.succ_lt_succ hj)) hend]

/-- The blocks of all commands, or of all but the last one, which failed. -/
theorem Issued.blocksRead_eq {blksz start blks bufAddr blkcnt m : ℕ}
    {r : UInt32 × List (Ccb × Bool)} (hi : Issued exec blksz start blks bufAddr blkcnt k m r) :
    blocksRead r.2 = min blks (65535 * if exec (k + m) then m + 1 else m) := by
  have hworked (j : ℕ) (hj : j ≤ m) (hexec : exec (k + j) = true) :
      ∃ c, r.2[j]? = some c ∧ c.2 = true := by
    obtain ⟨c, hget, -⟩ := hi.cmd j hj
    exact ⟨_, hget, hexec⟩
  cases hexec : exec (k + m) with
  | true =>
    have htake : r.2.takeWhile (·.2) = r.2.take (m + 1) := by
      refine takeWhile_eq_take (fun j hj => hworked j (by omega) ?_) fun c hc => ?_
      · obtain rfl | hlt := Nat.eq_or_lt_of_le (Nat.le_of_lt_succ hj)
        · exact hexec
        · exact hi.before j hlt
      · have hlt := (List.getElem?_eq_some_iff.mp hc).1
        rw [hi.length] at hlt
        omega
    rw [blocksRead, htake, if_pos rfl]
    exact hi.blocksBefore_eq (le_refl _)
  | false =>
    have htake : r.2.takeWhile (·.2) = r.2.take m := by
      refine takeWhile_eq_take (fun j hj => hworked j (by omega) (hi.before j hj)) fun c hc => ?_
      rw [(hi.getElem? hc).2.1, hexec]
    rw [blocksRead, htake, if_neg Bool.false_ne_true]
    exact hi.blocksBefore_eq (Nat.le_succ m)

def lastStart (blkcnt : ℕ) : ℕ := 65535 * ((blkcnt - 1) / 65535)

/-- No command fails, except one for no blocks. -/
theorem Issued.result_iff {blksz start blks bufAddr m : ℕ} {r : UInt32 × List (Ccb × Bool)}
    (hi : Issued exec blksz start blks bufAddr blks k m r) :
    r.1.toNat = blocksRead r.2 ↔ ∀ j, 65535 * j < blks → exec (k + j) = true := by
  have hlast := hi.last
  rw [hi.blocksRead_eq]
  cases hexec : exec (k + m) with
  | true =>
    obtain ⟨hdone, hret⟩ := hi.done hexec
    rw [hret, if_pos rfl, Nat.min_eq_left hdone]
    refine iff_of_true rfl fun j hj => ?_
    obtain rfl | hlt : j = m ∨ j < m := by omega
    · exact hexec
    · exact hi.before j hlt
  | false =>
    rw [hi.failed hexec, if_neg Bool.false_ne_true]
    refine ⟨fun h j hj => ?_, fun h => ?_⟩
    · obtain rfl : m = 0 := by omega
      omega
    · have hm : ¬ 65535 * m < blks := fun hlt => by
        rw [h m hlt] at hexec
        cases hexec
      omega

/-- If no command fails, the last command is the one with the last block. -/
theorem Issued.last_eq {blksz start blks bufAddr blkcnt m : ℕ} {r : UInt32 × List (Ccb × Bool)}
    (hi : Issued exec blksz start blks bufAddr blkcnt k m r)
    (hexec : ∀ j, 65535 * j < blks → exec (k + j) = true) : lastStart blks = 65535 * m := by
  have hlast := hi.last
  have hdone : blks ≤ 65535 * (m + 1) := by
    by_cases hm : 65535 * m < blks
    · exact (hi.done (hexec m hm)).1
    · omega
  rw [lastStart]
  omega

/-- **The result of `scsi_read` is right just if no command fails**, except one for no blocks, and
the blocks, sizes and addresses of the commands are numbers below `2 ^ 32`. -/
theorem scsi_read_iff (scsiDevDesc : ℕ → BlockDev) (exec : ℕ → Bool) (tempccb : Ccb) (device : ℤ)
    (blknr blkcnt buffer : UInt32) :
    Reports (scsiDevDesc (device % 256).toNat).blksz.toNat blknr.toNat blkcnt.toNat buffer.toNat
      (scsiRead scsiDevDesc exec tempccb device blknr blkcnt buffer) ↔
    (∀ k, 65535 * k < blkcnt.toNat → exec k = true) ∧
    blknr.toNat + lastStart blkcnt.toNat < 2 ^ 32 ∧
    (scsiDevDesc (device % 256).toNat).blksz.toNat * min 65535 blkcnt.toNat < 2 ^ 32 ∧
    buffer.toNat + (scsiDevDesc (device % 256).toNat).blksz.toNat * lastStart blkcnt.toNat <
      2 ^ 32 := by
  rw [scsiRead]
  set d := scsiDevDesc (device % 256).toNat
  obtain ⟨m, hi⟩ := readLoop_issued exec d { tempccb with target := d.target, lun := d.lun }
    blknr blkcnt buffer 0 (le_refl blkcnt.toNat)
  set r := readLoop exec d blkcnt 0 _ blknr blkcnt buffer
  have hresult : r.1.toNat = blocksRead r.2 ↔ ∀ j, 65535 * j < blkcnt.toNat → exec j = true := by
    simpa only [Nat.zero_add] using hi.result_iff
  have hlast := hi.last
  refine ⟨fun h => ?_, fun ⟨hexec, hlba, hlen, hbuf⟩ => ?_⟩
  · have hexec := hresult.mp h.result
    have hstart : lastStart blkcnt.toNat = 65535 * m :=
      hi.last_eq fun j hj => (Nat.zero_add j).symm ▸ hexec j hj
    have hbefore : blocksBefore r.2 m = 65535 * m := by
      rw [hi.blocksBefore_eq (Nat.le_succ m)]
      omega
    obtain ⟨c, hget, hc⟩ := hi.cmd m (le_refl m)
    obtain ⟨c₀, hget₀, hc₀⟩ := hi.cmd 0 (Nat.zero_le m)
    have hblocks₀ : c₀.blocks = min 65535 blkcnt.toNat := hc₀.blocks
    rw [hstart]
    refine ⟨hexec, ?_, ?_, ?_⟩
    · rw [← hbefore, ← h.lba m _ hget, hc.lba]
      exact Nat.mod_lt _ (by omega)
    · rw [← hblocks₀, ← h.datalen _ (List.mem_of_getElem? hget₀)]
      exact c₀.datalen.toNat_lt
    · rw [← hbefore, ← h.pdata m _ hget]
      exact c.pdata.toNat_lt
  · have hstart : lastStart blkcnt.toNat = 65535 * m :=
      hi.last_eq fun j hj => (Nat.zero_add j).symm ▸ hexec j hj
    rw [hstart] at hlba hbuf
    have hbefore (j : ℕ) (hj : j ≤ m) : blocksBefore r.2 j = 65535 * j := by
      rw [hi.blocksBefore_eq (by omega)]
      omega
    refine ⟨fun c hc => ?_, fun j c hget => ?_, fun c hc => ?_, fun j c hget => ?_,
      hresult.mpr hexec, fun hall => ?_⟩
    · obtain ⟨j, hget⟩ := List.getElem?_of_mem hc
      rw [(hi.getElem? hget).2.2.blocks]
      exact Nat.min_le_left ..
    · obtain ⟨hj, -, hchunk⟩ := hi.getElem? hget
      rw [hbefore j hj, hchunk.lba, Nat.mod_eq_of_lt (by omega)]
    · obtain ⟨j, hget⟩ := List.getElem?_of_mem hc
      obtain ⟨hj, -, hchunk⟩ := hi.getElem? hget
      have hle : c.1.blocks ≤ min 65535 blkcnt.toNat := by
        rw [hchunk.blocks]
        omega
      rw [hchunk.datalen, Nat.mod_eq_of_lt (Nat.lt_of_le_of_lt (Nat.mul_le_mul_left _ hle) hlen)]
    · obtain ⟨hj, -, hchunk⟩ := hi.getElem? hget
      have hle : d.blksz.toNat * (65535 * j) ≤ d.blksz.toNat * (65535 * m) :=
        Nat.mul_le_mul_left _ (Nat.mul_le_mul_left _ hj)
      rw [hbefore j hj, hchunk.pdata, Nat.mod_eq_of_lt (by omega)]
    · obtain ⟨c, hget, hc⟩ := hi.cmd m (le_refl m)
      exact (hi.done (hall _ (List.mem_of_getElem? hget))).2

def disk : BlockDev where
  ifType := 4
  dev := 0
  partType := 0
  target := 0
  lun := 0
  type := 0
  lba := 1000
  blksz := 512
  vendor := []
  product := []
  revision := []
  removable := false

/-- The command block before anything was asked. -/
def noCommand : Ccb where
  cmd := fun _ => 0
  target := 0
  lun := 0
  cmdlen := 0
  datalen := 0
  pdata := 0

/-- The only command of a read fails, and its block is reported as read. -/
theorem scsiRead_counts_failed :
    (scsiRead (fun _ => disk) (fun _ => false) noCommand 0 0 1 0).1 = 1 ∧
    ¬ Reports 512 0 1 0 (scsiRead (fun _ => disk) (fun _ => false) noCommand 0 0 1 0) := by
  have hread : scsiRead (fun _ => disk) (fun _ => false) noCommand 0 0 1 0 =
      (1, [((readChunk disk { noCommand with target := 0, lun := 0 } 0 1 0).1, false)]) := by
    rw [scsiRead, readLoop]
    rfl
  refine ⟨by rw [hread], fun h => ?_⟩
  have hresult := h.result
  rw [hread] at hresult
  exact absurd hresult (by decide)

end UBoot.Scsi
