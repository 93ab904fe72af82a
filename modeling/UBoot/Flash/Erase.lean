import UBoot.Flash.Complete
import UBoot.Flash.Sectors
import UBoot.Flash.WriteBuff

/-!
# Sectors of the flash (`flash_erase` of `board/tqm8xx/flash.c`)

`flash_erase` passes the protected sectors over (`flashErase_spec`), and `flash_write` refuses a
range that meets one. So a bank keeps the bytes of its protected sectors through every sequence of
the two (`runs_keep`), and what has been erased and then written is read back.
-/

namespace UBoot.Tqm8xx

open UBoot.Lib.Shifted UBoot.Flash

/-- The sectors that `flash_erase` does not pass over. -/
def unprotected (info : FlashInfo) (sects : List ℕ) : List ℕ :=
  sects.filter fun i => info.protect i = 0

/-- The bank with its unprotected sectors among `sects` erased. -/
def Chip.erased (chip : Chip) (info : FlashInfo) (sects : List ℕ) : Chip :=
  { chip with
    cells := fun b => if chip.sector b ∈ unprotected info sects then 0xff else chip.cells b
    ops := chip.ops ++ (unprotected info sects).map fun i => .erase (info.start i).toNat }

variable {t : Timing} {info : FlashInfo} {chip : Chip} {sects : List ℕ} {l : Option ℕ} {i : ℕ}

theorem Describes.sector_start (h : Describes info chip) (hi : i < info.sectorCount.toNat) :
    chip.sector (info.start i).toNat = i :=
  (h.sector i hi _).1 ⟨le_rfl, Nat.lt_of_lt_of_le (Nat.lt_add_of_pos_right (by decide))
    (h.wide i hi)⟩

theorem sectorEnd_le_end (h : info.Ascending) (hi : i < info.sectorCount.toNat) :
    info.sectorEnd i ≤ (info.start 0).toNat + info.size.toNat := by
  rw [FlashInfo.sectorEnd]
  split_ifs with hlast
  · exact le_rfl
  · exact Nat.le_of_lt (Nat.lt_of_le_of_lt (start_mono h (by omega) (by omega)) h.inside)

theorem Describes.has (h : Describes info chip) (hi : i < info.sectorCount.toNat) :
    chip.Has (info.start i).toNat := by
  have hlo := start_mono h.ascending (Nat.zero_le i) hi
  have hhi := sectorEnd_le_end h.ascending hi
  have hwide := h.wide i hi
  rw [Chip.Has, h.start, h.size]
  exact ⟨hlo, by omega⟩

/-! ### The loop over sectors -/

/-- The status that an erase loop leaves behind. -/
def Chip.erasing (chip : Chip) (t : Timing) (info : FlashInfo) (sects : List ℕ) : Chip :=
  { chip.erased info sects with
    status := if unprotected info sects = [] then chip.status
      else t.erasing ((chip.erased info sects).ops.length - 1) }

theorem unprotected_cons : unprotected info (i :: sects) =
    if info.protect i = 0 then i :: unprotected info sects else unprotected info sects := by
  rw [unprotected, List.filter_cons]
  exact if_congr decide_eq_true_iff rfl rfl

theorem Chip.write_erase (hphase : chip.phase = .erase) {a : ℕ} :
    chip.write t a 0x00300030 =
      { chip with
        cells := fun b => if chip.sector b = chip.sector a then 0xff else chip.cells b
        status := t.erasing chip.ops.length
        ops := chip.ops ++ [.erase a] } := by
  rw [Chip.write, hphase]
  exact if_pos rfl

theorem Chip.erasing_cons (hphase : chip.phase = .erase)
    (hsector : chip.sector (info.start i).toNat = i) (hprot : info.protect i = 0) :
    (chip.write t (info.start i).toNat 0x00300030).erasing t info sects =
      chip.erasing t info (i :: sects) := by
  have hcons : unprotected info (i :: sects) = i :: unprotected info sects := by
    rw [unprotected_cons, if_pos hprot]
  have hwrite := chip.write_erase (t := t) hphase (a := (info.start i).toNat)
  rw [hsector] at hwrite
  have hops : (chip.write t (info.start i).toNat 0x00300030).erased info sects =
      { chip.erased info (i :: sects) with status := t.erasing chip.ops.length } := by
    rw [hwrite]
    refine Chip.ext rfl rfl rfl (funext fun b => ?_) rfl rfl ?_
    · change (if _ then _ else if _ then _ else _) = if _ then _ else _
      rw [hcons, ← ite_or]
      refine if_congr ?_ rfl rfl
      rw [List.mem_cons, or_comm]
    · change (chip.ops ++ [_]) ++ _ = chip.ops ++ _
      rw [hcons, List.map_cons, List.append_assoc]
      rfl
  rw [Chip.erasing, hops, Chip.erasing, hcons, if_neg (List.cons_ne_nil _ _)]
  refine Chip.ext rfl rfl rfl rfl rfl ?_ rfl
  change (if _ then _ else t.erasing ((chip.erased info (i :: sects)).ops.length - 1)) = _
  split_ifs with hnone
  · rw [hwrite]
    change t.erasing chip.ops.length = t.erasing ((chip.ops ++ _).length - 1)
    rw [hcons, hnone, List.length_append]
    rfl
  · rfl

theorem eraseSectors_spec (hphase : chip.phase = .erase)
    (hsects : ∀ i ∈ sects, chip.sector (info.start i).toNat = i) :
    eraseSectors t info sects l chip =
      ((unprotected info sects).getLast?.or l, chip.erasing t info sects) := by
  induction sects generalizing l chip with
  | nil =>
    refine Prod.ext rfl (Chip.ext rfl rfl rfl (funext fun b => ?_) rfl rfl ?_)
    · have hb : chip.cells b = if chip.sector b ∈ ([] : List ℕ) then 0xff else chip.cells b :=
        (if_neg List.not_mem_nil).symm
      exact hb
    · exact (List.append_nil _).symm
  | cons i sects ih =>
    have hsector := hsects i List.mem_cons_self
    have hrest : ∀ j ∈ sects, chip.sector (info.start j).toNat = j := fun j hj =>
      hsects j (List.mem_cons_of_mem i hj)
    rw [eraseSectors]
    by_cases hprot : info.protect i = 0
    · have hphase' : (chip.write t (info.start i).toNat 0x00300030).phase = .erase := by
        rw [Chip.write_erase hphase]
        exact hphase
      have hsame : (chip.write t (info.start i).toNat 0x00300030).sector = chip.sector := by
        rw [Chip.write_erase hphase]
      rw [if_pos hprot, ih hphase' (by rwa [hsame]), Chip.erasing_cons hphase hsector hprot,
        unprotected_cons, if_pos hprot, List.getLast?_cons]
      cases (unprotected info sects).getLast? <;> rfl
    · have hcons : unprotected info (i :: sects) = unprotected info sects := by
        rw [unprotected_cons, if_neg hprot]
      rw [if_neg hprot, ih hphase hrest, Chip.erasing, Chip.erasing, Chip.erased, Chip.erased,
        hcons]

/-! ### The whole command -/

theorem Chip.write_setup (hidle : chip.Idle) :
    ((((chip.write t (chip.start + 4 * 0x0555) 0x00AA00AA).write t (chip.start + 4 * 0x02AA)
      0x00550055).write t (chip.start + 4 * 0x0555) 0x00800080).write t (chip.start + 4 * 0x0555)
      0x00AA00AA).write t (chip.start + 4 * 0x02AA) 0x00550055 = { chip with phase := .erase } := by
  obtain ⟨hphase, -⟩ := hidle
  obtain ⟨start, size, sector, cells, phase, status, ops⟩ := chip
  dsimp only at hphase
  subst hphase
  have hother : ¬ (0x00800080 : Word) = 0x00A000A0 := by decide
  simp only [Chip.write, and_self, hother, and_false, if_true, if_false]

theorem Chip.erased_word (h : Describes info chip) (hi : i < info.sectorCount.toNat)
    (hmem : i ∈ unprotected info sects) {phase : Phase} {status : List Word} :
    ({ chip.erased info sects with phase, status } : Chip).word (info.start i).toNat &&& D7 =
      D7 &&& D7 := by
  have hword : ({ chip.erased info sects with phase, status } : Chip).word
      (info.start i).toNat = wordOf (fun _ => 0xff) (info.start i).toNat := by
    refine wordOf_congr fun j hj => ?_
    have hsector : chip.sector ((info.start i).toNat + j) = i :=
      (h.sector i hi _).1 ⟨Nat.le_add_right _ _, by have := h.wide i hi; omega⟩
    have hin := h.has hi
    rw [Chip.cell, if_pos ⟨Nat.le_trans hin.1 (Nat.le_add_right _ _),
      Nat.lt_of_lt_of_le (Nat.add_lt_add_left hj _) hin.2⟩]
    change (if chip.sector _ ∈ unprotected info sects then _ else _) = _
    rw [hsector, if_pos hmem]
  rw [hword]
  change shiftIn (shiftIn (shiftIn (shiftIn 0 0xff) 0xff) 0xff) 0xff &&& D7 = D7 &&& D7
  decide

/-- `flash_erase` erases exactly the unprotected sectors of the range, also when there are none. -/
theorem flashErase_spec (hidle : chip.Idle) (h : Describes info chip) {sFirst sLast : ℤ}
    (hlast : sLast < info.sectorCount.toNat) :
    flashErase t info sFirst sLast chip =
      if 0 ≤ sFirst ∧ sFirst ≤ sLast then
        (0, chip.erased info (List.range' sFirst.toNat (sLast + 1 - sFirst).toNat))
      else (1, chip) := by
  rw [flashErase, ← h.start]
  by_cases hrange : 0 ≤ sFirst ∧ sFirst ≤ sLast
  · set sects := List.range' sFirst.toNat (sLast + 1 - sFirst).toNat
    have hmem : ∀ i ∈ sects, i < info.sectorCount.toNat := fun i hi => by
      have := List.mem_range'_1.1 hi
      omega
    have herase : eraseSectors t info sects none { chip with phase := .erase } =
        ((unprotected info sects).getLast?.or none,
          ({ chip with phase := .erase } : Chip).erasing t info sects) :=
      eraseSectors_spec rfl fun i hi => h.sector_start (hmem i hi)
    have hreset : ({ chip.erased info sects with phase := .read, status := [] } : Chip) =
        chip.erased info sects :=
      Chip.ext rfl rfl rfl rfl hidle.phase.symm hidle.status.symm rfl
    rw [if_neg (by omega), if_neg (not_or.2 ⟨h.known, UInt32.not_lt.2 h.amd⟩), if_pos hrange]
    dsimp only
    rw [Chip.write_setup hidle, herase, ← hreset, Option.or_none]
    cases hsect : (unprotected info sects).getLast? with
    | none =>
      refine Prod.ext rfl (Chip.ext rfl rfl rfl rfl rfl ?_ rfl)
      have hnone := List.getLast?_eq_none_iff.1 hsect
      exact (if_pos hnone).trans hidle.status
    | some sect =>
      have hsome : sect ∈ unprotected info sects := List.mem_of_getLast? hsect
      have hcount := hmem sect (List.mem_of_mem_filter hsome)
      set last := ({ chip with phase := .erase } : Chip).erasing t info sects
      have hstatus : last.status = t.erasing (last.ops.length - 1) :=
        if_neg (List.ne_nil_of_mem hsome)
      have hpoll : poll (t.elapsed (last.ops.length - 1)) t.CFG_FLASH_ERASE_TOUT D7
          (last.word (info.start sect).toNat) last.status 0 = (0, []) := by
        rw [hstatus]
        refine poll_completes (Chip.erased_word h hcount hsome) _ 0 (fun s hs => ?_) fun j hj => ?_
        · exact t.erasing_d7 _ s hs
        · exact t.erases _ _ (by rwa [Nat.zero_add])
      dsimp only
      rw [hpoll]
      rfl
  · rw [if_pos (by omega), if_neg hrange]

/-! ### Runs of commands -/

inductive Cmd where
  | erase (sFirst sLast : ℤ)
  | write (src : List UInt8) (addr : UInt32)

/-- `flash_erase`, and `flash_write` with the `write_buff` of the board. -/
def Cmd.exec (t : Timing) (info : FlashInfo) : Cmd → Chip → ℤ × Chip
  | .erase sFirst sLast, chip => flashErase t info sFirst sLast chip
  | .write src addr, chip =>
    flashWrite [info] (fun _ src addr chip => writeBuff t info src addr.toNat chip) src addr chip

/-- No sector behind the last one, and no source that goes on at address 0. -/
def Cmd.Valid (info : FlashInfo) : Cmd → Prop
  | .erase _ sLast => sLast < info.sectorCount.toNat
  | .write src addr => src.length < 2 ^ 32 ∧ addr.toNat + src.length ≤ 2 ^ 32

def runs (t : Timing) (info : FlashInfo) (cmds : List Cmd) (chip : Chip) : Chip :=
  cmds.foldl (fun chip cmd => (cmd.exec t info chip).2) chip

/-- A bank of words that does not end at the top of the address space. -/
structure Words (info : FlashInfo) : Prop where
  start : (info.start 0).toNat % 4 = 0
  size : info.size.toNat % 4 = 0
  below : (info.start 0).toNat + info.size.toNat < 2 ^ 32

variable {src : List UInt8} {addr : UInt32} {sFirst sLast : ℤ} {b : ℕ}

/-! ### With one bank -/

theorem addr2info_singleton : addr2info [info] addr = if info.holds addr then some 0 else none := by
  rw [addr2info, List.findIdx?_cons]
  rfl

theorem lastAddr_toNat_of_fit (h0 : src.length ≠ 0) (hlen : src.length < 2 ^ 32)
    (hfit : addr.toNat + src.length ≤ 2 ^ 32) :
    (lastAddr addr src.length).toNat = addr.toNat + src.length - 1 := by
  rw [lastAddr_toNat (Nat.pos_of_ne_zero h0) hlen]
  exact Nat.mod_eq_of_lt (by omega)

theorem flashWrite_single {σ : Type*} (hw : info.WellPlaced) (h0 : src.length ≠ 0)
    (hlen : src.length < 2 ^ 32) (hfit : addr.toNat + src.length ≤ 2 ^ 32)
    (wb : ℕ → List UInt8 → UInt32 → σ → ℤ × σ) (s : σ) :
    flashWrite [info] wb src addr s =
      if info.holds addr ∧ info.holds (lastAddr addr src.length) then
        if protectedHit [info] addr (lastAddr addr src.length) then (errProtected, s)
        else wb 0 src addr s
      else (errInval, s) := by
  rw [flashWrite, if_neg h0, addr2info_singleton, addr2info_singleton]
  by_cases hfirst : info.holds addr
  · by_cases hlast : info.holds (lastAddr addr src.length)
    · rw [if_pos hfirst, if_pos hlast, if_pos ⟨hfirst, hlast⟩]
      change (if protectedHit [info] addr _ then _ else writeLoop wb [info] 0 src addr s) = _
      refine if_congr Iff.rfl rfl ?_
      have hle : addr ≤ lastAddr addr src.length := by
        rw [UInt32.le_iff_toNat_le, lastAddr_toNat_of_fit h0 hlen hfit]
        omega
      have hall : src.length ≤ (info.start 0 + info.size - addr).toNat :=
        le_bEnd_sub hw hfirst (Nat.pos_of_ne_zero h0) hlen hlast hle
      rw [writeLoop, if_neg h0]
      dsimp only
      rw [len_eq_min, Nat.min_eq_right hall, List.take_length]
      rcases wb 0 src addr s with ⟨rc, s'⟩
      change (if rc ≠ 0 then (rc, s') else (errOk, s')) = _
      split_ifs with hrc
      · rfl
      · rw [not_not.1 hrc]
        rfl
    · rw [if_pos hfirst, if_neg hlast, if_neg fun h => hlast h.2]
  · rw [if_neg hfirst, if_neg (not_and_of_not_left _ hfirst)]

theorem Describes.holds_range (h : Describes info chip) (hwords : Words info)
    (h0 : src.length ≠ 0) (hlen : src.length < 2 ^ 32)
    (hfit : addr.toNat + src.length ≤ 2 ^ 32) (hfirst : info.holds addr)
    (hlast : info.holds (lastAddr addr src.length)) : chip.Holds addr.toNat src.length := by
  have hlo := ((FlashInfo.holds_iff h.ascending.toWellPlaced).1 hfirst).2.1
  have hhi := ((FlashInfo.holds_iff h.ascending.toWellPlaced).1 hlast).2.2
  rw [lastAddr_toNat_of_fit h0 hlen hfit] at hhi
  have hs := hwords.start
  have hz := hwords.size
  refine ⟨?_, ?_⟩
  · rw [h.start]
    omega
  · rw [h.start, h.size, touched]
    omega

theorem not_protectedHit_iff (hasc : info.Ascending) (hwords : Words info)
    (h0 : src.length ≠ 0) (hlen : src.length < 2 ^ 32)
    (hfit : addr.toNat + src.length ≤ 2 ^ 32) :
    ¬ protectedHit [info] addr (lastAddr addr src.length) ↔
      ∀ i < info.sectorCount.toNat, info.protect i ≠ 0 →
        ∀ j < src.length, ¬ ((info.start i).toNat ≤ addr.toNat + j ∧
          addr.toNat + j < info.sectorEnd i) := by
  have hhit : ∀ i < info.sectorCount.toNat, (info.hits addr (lastAddr addr src.length) i = true ↔
      info.protect i ≠ 0 ∧ ∃ j < src.length, (info.start i).toNat ≤ addr.toNat + j ∧
        addr.toNat + j < info.sectorEnd i) := by
    intro i hi
    have hend := sectorEnd_le_end hasc hi
    have hbelow := hwords.below
    have hpos := (endOf_toNat hasc hi).2
    have hsucc := (endOf_toNat hasc hi).1
    rw [hits_iff hasc, lastAddr_toNat_of_fit h0 hlen hfit]
    refine and_congr_right fun _ => ⟨fun ⟨hs, he, _⟩ => ?_, fun ⟨j, hj, hs, he⟩ => ?_⟩
    · exact ⟨(info.start i).toNat - addr.toNat, by omega, by omega, by omega⟩
    · exact ⟨by omega, by omega, by omega⟩
  rw [protectedHit, List.any_cons, List.any_nil, Bool.or_false, List.any_eq_true]
  constructor
  · intro hno i hi hprot j hj hin
    exact hno ⟨i, List.mem_range.2 hi, (hhit i hi).2 ⟨hprot, j, hj, hin⟩⟩
  · rintro hno ⟨i, hi, hits⟩
    obtain ⟨hprot, j, hj, hin⟩ := (hhit i (List.mem_range.1 hi)).1 hits
    exact hno i (List.mem_range.1 hi) hprot j hj hin

/-! ### What a command keeps -/

structure Ready (info : FlashInfo) (chip : Chip) : Prop where
  idle : chip.Idle
  describes : Describes info chip

theorem Ready.erased (h : Ready info chip) : Ready info (chip.erased info sects) :=
  ⟨⟨h.idle.phase, h.idle.status⟩,
    ⟨h.describes.known, h.describes.amd, h.describes.start, h.describes.size, h.describes.ascending,
      h.describes.wide, h.describes.sector⟩⟩

theorem Ready.buffered (h : Ready info chip) {a k : ℕ} : Ready info (chip.buffered src a k) :=
  ⟨⟨h.idle.phase, h.idle.status⟩,
    ⟨h.describes.known, h.describes.amd, h.describes.start, h.describes.size, h.describes.ascending,
      h.describes.wide, h.describes.sector⟩⟩

theorem smallInfo_words : Words smallInfo := ⟨by decide, by decide, by decide⟩

theorem smallChip_sector {cells : ℕ → UInt8} :
    ((smallChip cells).sector b = 0 ↔ 0x40000000 ≤ b ∧ b < 0x40020000) ∧
      ((smallChip cells).sector b = 1 ↔ 0x40020000 ≤ b ∧ b < 0x40040000) := by
  dsimp only [smallChip]
  split_ifs <;> simp <;> omega

theorem smallChip_ready (cells : ℕ → UInt8) : Ready smallInfo (smallChip cells) := by
  have hasc : smallInfo.Ascending :=
    { size_pos := by decide
      end_le := by decide
      count_pos := by decide
      count_le := by decide
      ascending := fun i hi => by
        obtain rfl : i = 0 := by
          change i + 1 < 2 at hi
          omega
        decide
      inside := by decide }
  have hsecond : (smallInfo.start 1).toNat = 0x40020000 := by decide
  refine ⟨⟨rfl, rfl⟩, by decide, by decide, rfl, rfl, hasc, fun i hi => ?_, fun i hi b => ?_⟩
  · change i < 2 at hi
    interval_cases i <;> decide
  · change i < 2 at hi
    interval_cases i
    · change 0x40000000 ≤ b ∧ b < (smallInfo.start 1).toNat ↔ _
      rw [hsecond]
      exact smallChip_sector.1.symm
    · change (smallInfo.start 1).toNat ≤ b ∧ b < 0x40040000 ↔ _
      rw [hsecond]
      exact smallChip_sector.2.symm

def Protected (info : FlashInfo) (chip : Chip) (b : ℕ) : Prop :=
  chip.sector b < info.sectorCount.toNat ∧ info.protect (chip.sector b) ≠ 0

/-- Every command leaves the chips ready and the protected sectors as they are. -/
theorem exec_keeps (h : Ready info chip) (hwords : Words info) {cmd : Cmd}
    (hvalid : cmd.Valid info) :
    Ready info (cmd.exec t info chip).2 ∧ (cmd.exec t info chip).2.sector = chip.sector ∧
      ∀ b, Protected info chip b → (cmd.exec t info chip).2.cells b = chip.cells b := by
  cases cmd with
  | erase sFirst sLast =>
    rw [Cmd.exec, flashErase_spec h.idle h.describes hvalid]
    split_ifs
    · refine ⟨h.erased, rfl, fun b hb => if_neg fun hmem => ?_⟩
      exact hb.2 (of_decide_eq_true (List.mem_filter.1 hmem).2)
    · exact ⟨h, rfl, fun _ _ => rfl⟩
  | write src addr =>
    obtain ⟨hlen, hfit⟩ := hvalid
    by_cases h0 : src.length = 0
    · have hnone : Cmd.exec t info (.write src addr) chip = (errOk, chip) := if_pos h0
      rw [hnone]
      exact ⟨h, rfl, fun _ _ => rfl⟩
    · have hasc := h.describes.ascending
      rw [Cmd.exec, flashWrite_single hasc.toWellPlaced h0 hlen hfit]
      split_ifs with hbank hprot
      · exact ⟨h, rfl, fun _ _ => rfl⟩
      · have hholds := h.describes.holds_range hwords h0 hlen hfit hbank.1 hbank.2
        obtain ⟨k, -, hrun, -, -⟩ :=
          writeBuff_stores (t := t) h.idle h.describes.start hholds
        rw [hrun]
        refine ⟨h.buffered, rfl, fun b hb => ?_⟩
        have hfree := (not_protectedHit_iff hasc hwords h0 hlen hfit).1 hprot
        have hout : ¬ (addr.toNat ≤ b ∧ b < addr.toNat + src.length) := by
          rintro ⟨hlo, hhi⟩
          obtain ⟨j, rfl⟩ := Nat.exists_eq_add_of_le hlo
          exact hfree _ hb.1 hb.2 j (by omega) ((h.describes.sector _ hb.1 _).2 rfl)
        have hsame : overlay chip.cells addr.toNat src b = chip.cells b := if_neg hout
        change (if _ then overlay chip.cells addr.toNat src b else chip.cells b) = _
        rw [hsame, ite_self]
      · exact ⟨h, rfl, fun _ _ => rfl⟩

/-- Through every sequence of erase and write commands the chips answer in time, and the protected
sectors keep their bytes. -/
theorem runs_keep (h : Ready info chip) (hwords : Words info) {cmds : List Cmd}
    (hvalid : ∀ cmd ∈ cmds, cmd.Valid info) :
    Ready info (runs t info cmds chip) ∧
      ∀ b, Protected info chip b → (runs t info cmds chip).cells b = chip.cells b := by
  induction cmds generalizing chip with
  | nil => exact ⟨h, fun _ _ => rfl⟩
  | cons cmd cmds ih =>
    obtain ⟨hready, hsector, hkeep⟩ :=
      exec_keeps (t := t) h hwords (hvalid cmd List.mem_cons_self)
    obtain ⟨hready', hkeep'⟩ := ih hready fun c hc => hvalid c (List.mem_cons_of_mem cmd hc)
    refine ⟨hready', fun b hb => ?_⟩
    have hb' : Protected info (cmd.exec t info chip).2 b := by
      rw [Protected, hsector]
      exact hb
    exact (hkeep' b hb').trans (hkeep b hb)

theorem runs_keep_small :
    (runs onceBusy smallInfo [.erase 0 1, .write [1, 2, 3] 0x40020001, .write [4] 0x40000010]
      (smallChip fun _ => 0x55)).cells 0x40000010 = 0x55 := by
  refine (runs_keep (smallChip_ready _) smallInfo_words fun cmd hcmd => ?_).2 _
    ⟨by decide, by decide⟩
  simp only [List.mem_cons, List.not_mem_nil, or_false] at hcmd
  obtain rfl | rfl | rfl := hcmd
  · change (1 : ℤ) < _
    decide
  · exact ⟨by decide, by decide⟩
  · exact ⟨by decide, by decide⟩

/-! ### Erase, write, read -/

/-- Bytes of sectors that have been erased can be written, and are then read back. -/
theorem erase_write (h : Ready info chip) (hwords : Words info)
    (hrange : 0 ≤ sFirst ∧ sFirst ≤ sLast)
    (hcount : sLast < info.sectorCount.toNat) (h0 : src.length ≠ 0)
    (hlen : src.length < 2 ^ 32) (hfit : addr.toNat + src.length ≤ 2 ^ 32)
    (hin : ∀ j < src.length, sFirst ≤ chip.sector (addr.toNat + j) ∧
      chip.sector (addr.toNat + j) ≤ sLast ∧ info.protect (chip.sector (addr.toNat + j)) = 0) :
    (Cmd.exec t info (.erase sFirst sLast) chip).1 = 0 ∧
      Cmd.exec t info (.write src addr) (Cmd.exec t info (.erase sFirst sLast) chip).2 =
        (0, ((Cmd.exec t info (.erase sFirst sLast) chip).2).buffered src addr.toNat
          (touched addr.toNat src.length)) ∧
      ∀ b, (Cmd.exec t info (.write src addr)
          (Cmd.exec t info (.erase sFirst sLast) chip).2).2.cells b =
        if addr.toNat ≤ b ∧ b < addr.toNat + src.length then src.getD (b - addr.toNat) 0
        else if (sFirst ≤ chip.sector b ∧ chip.sector b ≤ sLast) ∧ info.protect (chip.sector b) = 0
          then 0xff
        else chip.cells b := by
  have herase : Cmd.exec t info (.erase sFirst sLast) chip = (0, chip.erased info
      (List.range' sFirst.toNat (sLast + 1 - sFirst).toNat)) := by
    rw [Cmd.exec, flashErase_spec h.idle h.describes hcount, if_pos hrange]
  have hmem : ∀ b, chip.sector b ∈ unprotected info (List.range' sFirst.toNat
      (sLast + 1 - sFirst).toNat) ↔ (sFirst ≤ chip.sector b ∧ chip.sector b ≤ sLast) ∧
        info.protect (chip.sector b) = 0 := by
    intro b
    rw [unprotected, List.mem_filter, List.mem_range'_1, decide_eq_true_iff]
    exact and_congr_left fun _ => ⟨fun h => by omega, fun h => by omega⟩
  set erased := chip.erased info (List.range' sFirst.toNat (sLast + 1 - sFirst).toNat)
  have hready : Ready info erased := h.erased
  have hcells : ∀ b, erased.cells b = if (sFirst ≤ chip.sector b ∧ chip.sector b ≤ sLast) ∧
      info.protect (chip.sector b) = 0 then 0xff else chip.cells b := fun b =>
    if_congr (hmem b) rfl rfl
  have hasc := h.describes.ascending
  have hsect : ∀ j < src.length, chip.sector (addr.toNat + j) < info.sectorCount.toNat :=
    fun j hj => by
      have := hin j hj
      omega
  have hbank : ∀ j < src.length, (info.start 0).toNat ≤ addr.toNat + j ∧
      addr.toNat + j < (info.start 0).toNat + info.size.toNat := fun j hj => by
    have hplace := (h.describes.sector _ (hsect j hj) _).2 rfl
    have hlo := start_mono hasc (Nat.zero_le _) (hsect j hj)
    have hhi := sectorEnd_le_end hasc (hsect j hj)
    omega
  have hknown : info.known = true := bne_iff_ne.2 h.describes.known
  have hfirst : info.holds addr = true :=
    (FlashInfo.holds_iff hasc.toWellPlaced).2 ⟨hknown, hbank 0 (Nat.pos_of_ne_zero h0)⟩
  have hlast : info.holds (lastAddr addr src.length) = true := by
    have := hbank (src.length - 1) (by omega)
    refine (FlashInfo.holds_iff hasc.toWellPlaced).2 ⟨hknown, ?_⟩
    rw [lastAddr_toNat_of_fit h0 hlen hfit]
    omega
  have hfree : ¬ protectedHit [info] addr (lastAddr addr src.length) := by
    refine (not_protectedHit_iff hasc hwords h0 hlen hfit).2 fun i hi hprot j hj hplace => ?_
    have hi' := (h.describes.sector i hi _).1 hplace
    exact hprot (hi' ▸ (hin j hj).2.2)
  have hwrite : Cmd.exec t info (.write src addr) erased =
      (0, erased.buffered src addr.toNat (touched addr.toNat src.length)) := by
    have hholds := hready.describes.holds_range hwords h0 hlen hfit hfirst hlast
    obtain ⟨k, hk, hrun, -, hbad⟩ :=
      writeBuff_stores (t := t) hready.idle hready.describes.start hholds
    have hall : k = touched addr.toNat src.length := by
      by_contra hne
      obtain ⟨j, ⟨hj, hrefused⟩, -⟩ := hbad (lt_of_le_of_ne hk hne)
      have herased : erased.cells (addr.toNat + j) = 0xff := by
        rw [hcells]
        exact if_pos ⟨⟨(hin j hj).1, (hin j hj).2.1⟩, (hin j hj).2.2⟩
      rw [herased] at hrefused
      exact hrefused (fits_erased _)
    rw [Cmd.exec, flashWrite_single hasc.toWellPlaced h0 hlen hfit, if_pos ⟨hfirst, hlast⟩,
      if_neg hfree, hrun, if_pos hall, hall]
  rw [herase]
  refine ⟨rfl, hwrite, fun b => ?_⟩
  rw [hwrite, Chip.buffered_all, overlay, hcells]

theorem erase_write_small :
    (Cmd.exec onceBusy smallInfo (.erase 0 1) (smallChip fun _ => 0x55)).1 = 0 ∧
      (Cmd.exec onceBusy smallInfo (.write [1, 2, 3] 0x40020001)
        (Cmd.exec onceBusy smallInfo (.erase 0 1) (smallChip fun _ => 0x55)).2).1 = 0 := by
  have hsector : ∀ j < 3, (smallChip fun _ => 0x55).sector (0x40020001 + j) = 1 := fun j hj =>
    smallChip_sector.2.2 ⟨by omega, by omega⟩
  obtain ⟨herase, hwrite, -⟩ := @erase_write onceBusy smallInfo (smallChip fun _ => 0x55) [1, 2, 3]
    0x40020001 0 1 (smallChip_ready _) smallInfo_words (by decide) (by decide) (by decide)
    (by decide) (by decide) fun j hj => by
      change 0 ≤ (((smallChip fun _ => 0x55).sector (0x40020001 + j) : ℕ) : ℤ) ∧
        (((smallChip fun _ => 0x55).sector (0x40020001 + j) : ℕ) : ℤ) ≤ 1 ∧
        smallInfo.protect ((smallChip fun _ => 0x55).sector (0x40020001 + j)) = 0
      rw [hsector j hj]
      decide
  rw [hwrite]
  exact ⟨herase, rfl⟩

end UBoot.Tqm8xx
