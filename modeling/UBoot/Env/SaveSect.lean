import UBoot.Flash.Sectors
import UBoot.Lib.BigEndian

/-!
# Saving the environment in a shared sector (`common/env_flash.c`)

`saveenv` without `CFG_ENV_ADDR_REDUND`, where `CFG_ENV_SECT_SIZE` is larger than
`CFG_ENV_SIZE`: the sectors are read into `env_buffer`, the environment is put over its part
of the buffer, and the sectors are unprotected, erased, written and protected again.

A `saveenv` that returns 0 has kept what surrounds the environment. It protects the sectors
again only where the erase succeeded: the exits behind a failed unprotect and a failed erase
leave them open (`saveenv_preserves_iff`).
-/

namespace UBoot.Env.SaveSect

open Lib Flash FlashInfo

structure EnvConfig where
  envAddr : UInt32
  envSize : Nat
  sectSize : UInt32
  size_lt : envSize < sectSize.toNat

/-- `flash_sect_addr`. -/
def EnvConfig.sectAddr (c : EnvConfig) : UInt32 := c.envAddr &&& ~~~(c.sectSize - 1)

/-- `flash_offset`. -/
def EnvConfig.offset (c : EnvConfig) : UInt32 := c.envAddr &&& (c.sectSize - 1)

def EnvConfig.endAddr (c : EnvConfig) : UInt32 := c.sectAddr + c.sectSize - 1

/-- The table of the flash banks, and memory with the flash in it. -/
structure FlashState where
  flashInfo : List FlashInfo
  mem : Mem32

/-- How the board's drivers fare: the result of `flash_real_protect` for a sector, which a
`saveenv` asks for once with 0 and once with 1, and what `flash_erase` and `write_buff` return
and leave in memory. -/
structure Drivers where
  realProtect : Nat → Nat → UInt8 → Int
  flashErase : Nat → Nat → Nat → Mem32 → Int × Mem32
  writeBuff : Nat → List UInt8 → UInt32 → Mem32 → Int × Mem32

namespace Drivers

/-- `flash_real_protect` sets `info->protect[i]` where it succeeds. -/
def setProtect (d : Drivers) (k i : Nat) (p : UInt8) (s : FlashState) : Int × FlashState :=
  (d.realProtect k i p,
    if d.realProtect k i p = 0 then
      { s with flashInfo := s.flashInfo.modify k fun info =>
          { info with protect := Function.update info.protect i p } }
    else s)

def erase (d : Drivers) (k i j : Nat) (s : FlashState) : Int × FlashState :=
  ((d.flashErase k i j s.mem).1, { s with mem := (d.flashErase k i j s.mem).2 })

def write (d : Drivers) (k : Nat) (data : List UInt8) (addr : UInt32) (s : FlashState) :
    Int × FlashState :=
  ((d.writeBuff k data addr s.mem).1, { s with mem := (d.writeBuff k data addr s.mem).2 })

end Drivers

/-- `saveenv` behind the set-up of `env_buffer`. -/
def saveSect (d : Drivers) (envBuffer : List UInt8) (sectAddr endAddr : UInt32)
    (s : FlashState) : Int × FlashState :=
  let (rc, s) := flashSectProtect d.setProtect 0 s.flashInfo sectAddr endAddr s
  if rc ≠ 0 then (1, s)
  else
    let (rc, s) := flashSectErase d.erase s.flashInfo sectAddr endAddr s
    if rc ≠ 0 then (1, s)
    else
      let (rc, s) := flashWrite s.flashInfo d.write envBuffer sectAddr s
      let (_, s) := flashSectProtect d.setProtect 1 s.flashInfo sectAddr endAddr s
      (if rc ≠ 0 then 1 else 0, s)

/-- `env_buffer`: the old contents of the sectors, and over it the environment. -/
def EnvConfig.envBuffer (c : EnvConfig) (envPtr : UInt32) (m : Mem32) : List UInt8 :=
  let old := m.read c.sectAddr c.sectSize.toNat
  old.take c.offset.toNat ++ m.read envPtr c.envSize ++ old.drop (c.offset.toNat + c.envSize)

/-- `saveenv`; `none` where the copy of the environment runs over the end of `env_buffer`. -/
def saveenv (c : EnvConfig) (d : Drivers) (envPtr : UInt32) (s : FlashState) :
    Option (Int × FlashState) :=
  if c.sectSize.toNat < c.offset.toNat + c.envSize then none
  else some (saveSect d (c.envBuffer envPtr s.mem) c.sectAddr c.endAddr s)

/-- Sector `x` of bank `k` is write-protected. -/
def Protected (s : FlashState) (k x : Nat) : Prop :=
  ∃ info, s.flashInfo[k]? = some info ∧ info.protect x ≠ 0

/-- Sector `x` of bank `k` has addresses of the range that is erased. -/
def EnvSector (c : EnvConfig) (s : FlashState) (k x : Nat) : Prop :=
  ∃ info a, s.flashInfo[k]? = some info ∧ info.known = true ∧ info.InSector x a ∧
    c.sectAddr ≤ a ∧ a ≤ c.endAddr

/-- The environment is in its place, and the rest of the sectors is as it was. -/
structure Kept (c : EnvConfig) (envPtr : UInt32) (s s' : FlashState) : Prop where
  env : ∀ i < c.envSize, s'.mem (c.envAddr + UInt32.ofNat i) = s.mem (envPtr + UInt32.ofNat i)
  rest : ∀ a, c.sectAddr ≤ a → a ≤ c.endAddr →
    (∀ i < c.envSize, a ≠ c.envAddr + UInt32.ofNat i) → s'.mem a = s.mem a

/-- **What a caller of `saveenv` relies on**: 0 means that the environment is saved and its
surroundings are kept, and on every return the sectors that were write-protected are so again. -/
def Preserves (c : EnvConfig) (d : Drivers) (envPtr : UInt32) (s : FlashState) : Prop :=
  ∃ rc s', saveenv c d envPtr s = some (rc, s') ∧ (rc = 0 → Kept c envPtr s s') ∧
    ∀ k x, EnvSector c s k x → Protected s k x → Protected s' k x

/-- The environment fits in the sectors behind its offset. -/
def Fits (c : EnvConfig) : Prop := c.offset.toNat + c.envSize ≤ c.sectSize.toNat

/-- Every protected sector of the run stays so, because it cannot be unprotected, or is protected
again, because everything before that succeeds. -/
def Reprotects (c : EnvConfig) (d : Drivers) (s : FlashState) : Prop :=
  ∀ (k : Nat) info i j, s.flashInfo[k]? = some info → info.known = true →
    Whole info c.sectAddr c.endAddr i j → ∀ x, i ≤ x → x ≤ j → info.protect x ≠ 0 →
    d.realProtect k x 0 ≠ 0 ∨
      ((∀ y, i ≤ y → y ≤ j → d.realProtect k y 0 = 0) ∧ (d.flashErase k i j s.mem).1 = 0 ∧
        d.realProtect k x 1 = 0)

variable {c : EnvConfig} {d : Drivers} {s : FlashState} {flashInfo : List FlashInfo}
  {info : FlashInfo} {i j k x : Nat} {p : UInt8} {envPtr : UInt32}

/-! ## Protecting sectors -/

/-- A bank behind `flash_real_protect` for the sectors `is`. -/
def Drivers.bits (d : Drivers) (k : Nat) (p : UInt8) (is : List Nat) (info : FlashInfo) :
    FlashInfo :=
  { info with
    protect := fun x => if x ∈ is ∧ d.realProtect k x p = 0 then p else info.protect x }

theorem protectFold (is : List Nat) (rcode : Int) (s : FlashState) :
    (is.foldl (protectSect d.setProtect p k) (rcode, s)).2 =
      { s with flashInfo := s.flashInfo.modify k (d.bits k p is) } ∧
    ((is.foldl (protectSect d.setProtect p k) (rcode, s)).1 = 0 ↔
      rcode = 0 ∧ ∀ x ∈ is, d.realProtect k x p = 0) := by
  induction is generalizing rcode s with
  | nil =>
    have hid : d.bits k p [] = id := by
      funext info
      simp only [Drivers.bits, List.not_mem_nil, false_and, if_false, id]
    rw [hid, List.modify_id]
    exact ⟨rfl, (and_iff_left (List.forall_mem_nil _)).symm⟩
  | cons x is ih =>
    rw [List.foldl_cons, protectSect, Drivers.setProtect]
    obtain ⟨hs, hrc⟩ := ih (if d.realProtect k x p ≠ 0 then 1 else rcode) (d.setProtect k x p s).2
    rw [Drivers.setProtect] at hs hrc
    rw [hs, hrc, List.forall_mem_cons]
    by_cases hx : d.realProtect k x p = 0
    · simp only [hx, if_true, ne_eq, not_true_eq_false, if_false, true_and, List.modify_modify_eq]
      refine ⟨?_, trivial⟩
      congr 2
      funext info
      simp only [Drivers.bits, Function.comp_apply, List.mem_cons]
      congr 1
      funext y
      by_cases hy : y = x
      · subst hy
        simp only [hx, Function.update_self, true_or, and_true, if_true, ite_self]
      · rw [Function.update_of_ne hy]
        simp only [hy, false_or]
    · simp only [hx, if_false, ne_eq, not_false_eq_true, if_true, false_and, and_false,
        one_ne_zero, not_false_eq_true, and_true]
      congr 2
      funext info
      simp only [Drivers.bits, List.mem_cons]
      congr 1
      funext y
      by_cases hy : y = x
      · subst hy
        simp only [hx, and_false, if_false]
      · simp only [hy, false_or]

/-- Other protection bits do not make a table worse. -/
theorem table_modify {f : FlashInfo → FlashInfo} (ht : Table flashInfo)
    (hf : ∀ info, ∃ pr, f info = { info with protect := pr }) (k : Nat) :
    Table (flashInfo.modify k f) := by
  have hmod : ∀ {m : Nat} {info' : FlashInfo}, (flashInfo.modify k f)[m]? = some info' →
      ∃ info pr, flashInfo[m]? = some info ∧ info' = { info with protect := pr } := by
    intro m info' hm
    rw [List.getElem?_modify] at hm
    obtain ⟨info, hinfo, rfl⟩ := Option.map_eq_some_iff.mp hm
    by_cases hkm : k = m
    · obtain ⟨pr, hpr⟩ := hf info
      exact ⟨info, pr, hinfo, by rw [if_pos hkm, hpr]⟩
    · exact ⟨info, info.protect, hinfo, by rw [if_neg hkm]⟩
  refine ⟨⟨fun info' hinfo' hkn => ?_, ?_⟩, fun info' hinfo' hkn hcount => ?_⟩
  · obtain ⟨m, hm⟩ := List.mem_iff_getElem?.mp hinfo'
    obtain ⟨info, pr, hinfo, rfl⟩ := hmod hm
    obtain ⟨hpos, hend⟩ := ht.placed info (List.mem_of_getElem? hinfo) hkn
    exact ⟨hpos, hend⟩
  · refine List.pairwise_iff_getElem.mpr fun m m' hm hm' hlt addr hboth => ?_
    obtain ⟨a, pr, ha, hea⟩ := hmod (List.getElem?_eq_getElem hm)
    obtain ⟨b, pr', hb, heb⟩ := hmod (List.getElem?_eq_getElem hm')
    rw [hea, heb] at hboth
    have := holds_unique ht.toDisjoint ha hb hboth.1 hboth.2
    omega
  · obtain ⟨m, hm⟩ := List.mem_iff_getElem?.mp hinfo'
    obtain ⟨info, pr, hinfo, rfl⟩ := hmod hm
    obtain ⟨⟨hpos, hend⟩, hcp, hcl, hasc, hin⟩ :=
      ht.sectors info (List.mem_of_getElem? hinfo) hkn hcount
    exact ⟨⟨hpos, hend⟩, hcp, hcl, hasc, hin⟩

theorem flashSectProtect_whole (ht : Table s.flashInfo) (hk : s.flashInfo[k]? = some info)
    (hkn : info.known = true) {first last : UInt32} (hw : Whole info first last i j) :
    (flashSectProtect d.setProtect p s.flashInfo first last s).2 =
      { s with flashInfo := s.flashInfo.modify k (d.bits k p (List.range' i (j + 1 - i))) } ∧
    ((flashSectProtect d.setProtect p s.flashInfo first last s).1 = 0 ↔
      ∀ x, i ≤ x → x ≤ j → d.realProtect k x p = 0) := by
  rw [flashSectProtect, flashSect_whole ht hk hkn hw]
  obtain ⟨hs, hrc⟩ := @protectFold d k p (List.range' i (j + 1 - i)) 0 s
  refine ⟨hs, hrc.trans ?_⟩
  simp only [true_and, List.mem_range'_1]
  exact ⟨fun h x hix hxj => h x ⟨hix, by omega⟩, fun h x hx => h x hx.1 (by omega)⟩

theorem mem_bits {is : List Nat} :
    (d.bits k p is info).protect x ≠ 0 ↔
      if x ∈ is ∧ d.realProtect k x p = 0 then p ≠ 0 else info.protect x ≠ 0 := by
  simp only [Drivers.bits]
  split_ifs <;> rfl

/-! ## The buffer -/

theorem sectAddr_add_offset (c : EnvConfig) : c.sectAddr + c.offset = c.envAddr := by
  generalize hm : c.sectSize - 1 = m
  have hor : ~~~m.toBitVec ||| m.toBitVec = BitVec.allOnes 32 := BitVec.not_or_self _
  have hand : c.envAddr.toBitVec &&& ~~~m.toBitVec &&& (c.envAddr.toBitVec &&& m.toBitVec) =
      0#32 := by
    ext i hi
    simp only [BitVec.getElem_and, BitVec.getElem_not, BitVec.getElem_zero]
    grind
  refine UInt32.toBitVec_inj.mp ?_
  rw [EnvConfig.sectAddr, EnvConfig.offset, hm, UInt32.toBitVec_add, UInt32.toBitVec_and,
    UInt32.toBitVec_and, UInt32.toBitVec_not, BitVec.add_eq_or_of_and_eq_zero _ _ hand,
    ← BitVec.and_or_distrib_left, hor, BitVec.and_allOnes]

theorem envBuffer_length (hf : Fits c) (m : Mem32) :
    (c.envBuffer envPtr m).length = c.sectSize.toNat := by
  rw [Fits] at hf
  simp only [EnvConfig.envBuffer, List.length_append, List.length_take, List.length_drop,
    Mem32.read_length]
  omega

theorem getElem?_envBuffer (hf : Fits c) (m : Mem32) (ht : x < c.sectSize.toNat) :
    (c.envBuffer envPtr m)[x]? =
      some (if c.offset.toNat ≤ x ∧ x < c.offset.toNat + c.envSize
        then m (envPtr + UInt32.ofNat (x - c.offset.toNat))
        else m (c.sectAddr + UInt32.ofNat x)) := by
  rw [Fits] at hf
  have hread : ∀ {a : UInt32} {n i : Nat}, i < n →
      (m.read a n)[i]? = some (m (a + UInt32.ofNat i)) := fun {a n i} hi => by
    rw [List.getElem?_eq_getElem (by rwa [Mem32.read_length]), Mem32.getElem_read]
  have htake : ((m.read c.sectAddr c.sectSize.toNat).take c.offset.toNat).length =
      c.offset.toNat := by
    rw [List.length_take, Mem32.read_length]
    omega
  rw [EnvConfig.envBuffer, List.append_assoc]
  rcases Nat.lt_or_ge x c.offset.toNat with hlt | hge
  · rw [List.getElem?_append_left (by omega), List.getElem?_take_of_lt hlt, hread ht,
      if_neg (by omega)]
  · rw [List.getElem?_append_right (by omega), htake]
    rcases Nat.lt_or_ge x (c.offset.toNat + c.envSize) with hin | hout
    · rw [List.getElem?_append_left (by rw [Mem32.read_length]; omega), hread (by omega),
        if_pos ⟨hge, hin⟩]
    · rw [List.getElem?_append_right (by rw [Mem32.read_length]; omega), Mem32.read_length,
        List.getElem?_drop, hread (by omega), if_neg (by omega)]
      congr 4
      omega

/-- A buffer that is written back keeps what it was read from, apart from the environment. -/
theorem kept_of_store (hf : Fits c) (m : Mem32) {s' : FlashState}
    (hm : s'.mem = m.store c.sectAddr (c.envBuffer envPtr s.mem)) : Kept c envPtr s s' := by
  have hlen := @envBuffer_length c envPtr hf s.mem
  have hsize := c.sectSize.toNat_lt
  have hpos := c.size_lt
  have hbyte : ∀ x < c.sectSize.toNat, s'.mem (c.sectAddr + UInt32.ofNat x) =
      if c.offset.toNat ≤ x ∧ x < c.offset.toNat + c.envSize
        then s.mem (envPtr + UInt32.ofNat (x - c.offset.toNat))
        else s.mem (c.sectAddr + UInt32.ofNat x) := fun x hx => by
    have hget := @getElem?_envBuffer c x envPtr hf s.mem hx
    rw [List.getElem?_eq_getElem (by omega)] at hget
    rw [hm, Mem32.holdsUpTo_store (by omega) x (by omega) (Nat.lt_succ_self x)]
    exact Option.some.inj hget
  have henv : ∀ i, c.envAddr + UInt32.ofNat i =
      c.sectAddr + UInt32.ofNat (c.offset.toNat + i) := fun i => by
    rw [UInt32.ofNat_add, UInt32.ofNat_toNat, ← UInt32.add_assoc, sectAddr_add_offset]
  have hfit : c.offset.toNat + c.envSize ≤ c.sectSize.toNat := hf
  refine ⟨fun i hi => ?_, fun a hlo hhi hout => ?_⟩
  · rw [henv, hbyte _ (by omega), if_pos (by omega), Nat.add_sub_cancel_left]
  · have ha : c.sectAddr + UInt32.ofNat (a - c.sectAddr).toNat = a := by
      rw [UInt32.ofNat_toNat]
      grind
    have hsub : (a - c.sectAddr).toNat = a.toNat - c.sectAddr.toNat :=
      UInt32.toNat_sub_of_le _ _ hlo
    have hend : c.endAddr.toNat = (c.sectAddr.toNat + c.sectSize.toNat - 1) % 2 ^ 32 := by
      rw [EnvConfig.endAddr, UInt32.toNat_sub, UInt32.toNat_add, UInt32.toNat_one]
      omega
    have hsect := c.sectAddr.toNat_lt
    rw [UInt32.le_iff_toNat_le] at hlo hhi
    have hx : (a - c.sectAddr).toNat < c.sectSize.toNat := by omega
    have h := hbyte _ hx
    rw [ha] at h
    rw [h, if_neg]
    rintro ⟨hge, hlt⟩
    refine hout ((a - c.sectAddr).toNat - c.offset.toNat) (by omega) ?_
    rw [henv, Nat.add_sub_cancel' hge, ha]

/-! ## The sequence of operations -/

/-- All sectors `i` to `j` of bank `k` are unprotected and erased. -/
def Opens (d : Drivers) (s : FlashState) (k i j : Nat) : Prop :=
  (∀ y, i ≤ y → y ≤ j → d.realProtect k y 0 = 0) ∧ (d.flashErase k i j s.mem).1 = 0

/-- The numbers of the sectors `i` to `j`. -/
abbrev sects (i j : Nat) : List Nat := List.range' i (j + 1 - i)

theorem mem_sects : x ∈ sects i j ↔ i ≤ x ∧ x ≤ j := by
  rw [List.mem_range'_1]
  omega

theorem holds_whole {first last : UInt32} (hasc : info.Ascending) (hkn : info.known = true)
    (hw : Whole info first last i j) :
    info.holds first = true ∧ info.holds last = true ∧ first ≤ last := by
  refine ⟨hw.holds_first hasc hkn, (holds_iff hasc.toWellPlaced).mpr ⟨hkn, ?_⟩,
    UInt32.le_iff_toNat_le.mpr (hw.start_le hasc)⟩
  obtain ⟨hej, hsj⟩ := endOf_toNat hasc hw.lt
  have hlast := hw.last_eq
  have hmono := start_mono hasc (Nat.zero_le j) hw.lt
  have hin := hasc.inside
  refine ⟨by omega, ?_⟩
  by_cases hl : j + 1 = info.sectorCount.toNat
  · rw [sectorEnd, if_pos hl] at hlast
    omega
  · have hlt := hw.lt
    have hnext : info.sectorEnd j ≤ (info.start (j + 1)).toNat :=
      sectorEnd_le_start hasc (Nat.lt_succ_self j) (by omega)
    have hup := start_mono hasc (show j + 1 ≤ info.sectorCount.toNat - 1 by omega) (by omega)
    omega

theorem flashSectErase_whole (ht : Table s.flashInfo) (hk : s.flashInfo[k]? = some info)
    (hkn : info.known = true) {first last : UInt32} (hw : Whole info first last i j) :
    flashSectErase d.erase s.flashInfo first last s = d.erase k i j s :=
  flashSect_whole ht hk hkn hw

/-- The table behind `flash_sect_protect` is one for the same commands. -/
theorem table_bits {s' : FlashState} (ht : Table s.flashInfo) (hk : s.flashInfo[k]? = some info)
    {is : List Nat} (hs : s'.flashInfo = s.flashInfo.modify k (d.bits k p is)) :
    Table s'.flashInfo ∧ s'.flashInfo[k]? = some (d.bits k p is info) := by
  rw [hs, List.getElem?_modify_eq, hk]
  exact ⟨table_modify ht (fun _ => ⟨_, rfl⟩) k, rfl⟩

/-- Where the sectors cannot be unprotected and erased, `saveenv` returns 1 and leaves those
open that could be unprotected. -/
theorem saveSect_closed (ht : Table s.flashInfo) (hk : s.flashInfo[k]? = some info)
    (hkn : info.known = true) {first last : UInt32} (hw : Whole info first last i j)
    (hclosed : ¬ Opens d s k i j) (envBuffer : List UInt8) :
    (saveSect d envBuffer first last s).1 = 1 ∧
    (saveSect d envBuffer first last s).2.flashInfo =
      s.flashInfo.modify k (d.bits k 0 (sects i j)) := by
  obtain ⟨hs, hrc⟩ := @flashSectProtect_whole d s info i j k 0 ht hk hkn first last hw
  rw [saveSect]
  generalize flashSectProtect d.setProtect 0 s.flashInfo first last s = r at hs hrc
  obtain ⟨rc, s₁⟩ := r
  have hT : s₁.flashInfo = s.flashInfo.modify k (d.bits k 0 (sects i j)) :=
    congrArg FlashState.flashInfo hs
  have hm : s₁.mem = s.mem := by rw [show s₁ = _ from hs]
  by_cases h0 : rc = 0
  · have herase : (d.flashErase k i j s₁.mem).1 ≠ 0 := fun h => hclosed ⟨hrc.mp h0, hm ▸ h⟩
    obtain ⟨ht₁, hk₁⟩ := table_bits ht hk hT
    have hsect := @flashSectErase_whole d s₁ _ i j k ht₁ hk₁ hkn first last
      ⟨hw.le, hw.lt, hw.first_eq, hw.last_eq⟩
    simp only [if_neg (not_not.mpr h0), hsect, Drivers.erase, if_pos herase, true_and]
    exact hT
  · simp only [if_pos h0, true_and]
    exact hT

/-- Where they can, it goes on to write the buffer and to protect the sectors again. -/
theorem saveSect_open (ht : Table s.flashInfo) (hk : s.flashInfo[k]? = some info)
    (hkn : info.known = true) {first last : UInt32} (hw : Whole info first last i j)
    (hopens : Opens d s k i j)
    (hwrite : ∀ k data addr m, (d.writeBuff k data addr m).1 = 0 →
      (d.writeBuff k data addr m).2 = m.store addr data)
    {envBuffer : List UInt8} (hlen : 0 < envBuffer.length) (hcnt : envBuffer.length < 2 ^ 32)
    (hlast : lastAddr first envBuffer.length = last) :
    (saveSect d envBuffer first last s).2.flashInfo =
      (s.flashInfo.modify k (d.bits k 0 (sects i j))).modify k (d.bits k 1 (sects i j)) ∧
    ((saveSect d envBuffer first last s).1 = 0 →
      ∃ m : Mem32, (saveSect d envBuffer first last s).2.mem = m.store first envBuffer) := by
  obtain ⟨hs, hrc⟩ := @flashSectProtect_whole d s info i j k 0 ht hk hkn first last hw
  rw [saveSect]
  generalize flashSectProtect d.setProtect 0 s.flashInfo first last s = r at hs hrc
  obtain ⟨rc, s₁⟩ := r
  have hT : s₁.flashInfo = s.flashInfo.modify k (d.bits k 0 (sects i j)) :=
    congrArg FlashState.flashInfo hs
  have hm : s₁.mem = s.mem := by rw [show s₁ = _ from hs]
  have h0 : rc = 0 := hrc.mpr hopens.1
  have herase : (d.flashErase k i j s₁.mem).1 = 0 := hm ▸ hopens.2
  obtain ⟨ht₁, hk₁⟩ := table_bits ht hk hT
  have hw₁ : Whole (d.bits k 0 (sects i j) info) first last i j :=
    ⟨hw.le, hw.lt, hw.first_eq, hw.last_eq⟩
  have hsect := @flashSectErase_whole d s₁ _ i j k ht₁ hk₁ hkn first last hw₁
  simp only [if_neg (not_not.mpr h0), hsect, Drivers.erase, if_neg (not_not.mpr herase)]
  -- the write changes memory only
  have hin := holds_whole (ht₁.sectors _ (List.mem_of_getElem? hk₁) hkn hw₁.count_ne) hkn hw₁
  have hone := @flashWrite_one _ _ _ k ⟨s₁.flashInfo, (d.flashErase k i j s₁.mem).2⟩ envBuffer
    first d.write ht₁.toDisjoint hk₁ hin.1 (hlast ▸ hin.2.1) hlen hcnt (hlast ▸ hin.2.2)
  generalize flashWrite _ d.write envBuffer first _ = w at hone
  have hne : errProtected ≠ 0 := by decide
  have hw₃ : w.2.flashInfo = s₁.flashInfo ∧
      (w.1 = 0 → ∃ m : Mem32, w.2.mem = m.store first envBuffer) := by
    rcases hone with rfl | rfl
    · exact ⟨rfl, fun h => absurd h hne⟩
    · exact ⟨rfl, fun h => ⟨_, hwrite _ _ _ _ h⟩⟩
  obtain ⟨rc₃, s₃⟩ := w
  obtain ⟨hinfo, hmem⟩ := hw₃
  have hk₃ : s₃.flashInfo[k]? = _ := (congrArg (·[k]?) hinfo).trans hk₁
  obtain ⟨hs₄, -⟩ := @flashSectProtect_whole d s₃ _ i j k 1 (hinfo ▸ ht₁) hk₃ hkn first last hw₁
  simp only [hs₄]
  refine ⟨by rw [hinfo, hT], fun hz => ?_⟩
  by_cases hrc₃ : rc₃ = 0
  · exact hmem hrc₃
  · rw [if_pos hrc₃] at hz
    cases hz

/-! ## When `saveenv` preserves the sectors -/

theorem protected_modify {s' : FlashState} {f : FlashInfo → FlashInfo}
    (hs : s'.flashInfo = s.flashInfo.modify k f) {k' : Nat} :
    Protected s' k' x ↔
      ∃ info, s.flashInfo[k']? = some info ∧ (if k = k' then f info else info).protect x ≠ 0 := by
  rw [Protected, hs]
  constructor
  · rintro ⟨info', hinfo', hp⟩
    rw [List.getElem?_modify] at hinfo'
    obtain ⟨info, hinfo, rfl⟩ := Option.map_eq_some_iff.mp hinfo'
    exact ⟨info, hinfo, hp⟩
  · rintro ⟨info, hinfo, hp⟩
    refine ⟨_, ?_, hp⟩
    rw [List.getElem?_modify, hinfo]
    rfl

/-- The sectors of a run that were protected are so behind `saveSect` exactly when each of them
could not be unprotected or is protected again. -/
theorem reprotected_iff (ht : Table s.flashInfo) (hk : s.flashInfo[k]? = some info)
    (hw : Whole info c.sectAddr c.endAddr i j) {s' : FlashState} (g : FlashInfo → FlashInfo)
    (hkn : info.known = true) (hs : s'.flashInfo = s.flashInfo.modify k g)
    (hg : ∀ x ∉ sects i j, ∀ info, (g info).protect x = info.protect x) :
    (∀ k x, EnvSector c s k x → Protected s k x → Protected s' k x) ↔
      ∀ x, i ≤ x → x ≤ j → info.protect x ≠ 0 → (g info).protect x ≠ 0 := by
  have hasc := ht.sectors info (List.mem_of_getElem? hk) hkn hw.count_ne
  constructor
  · intro h x hix hxj hp
    have hsect : EnvSector c s k x := by
      have hxc : x < info.sectorCount.toNat := Nat.lt_of_le_of_lt hxj hw.lt
      obtain ⟨hex, hsx⟩ := endOf_toNat hasc hxc
      obtain ⟨hej, hsj⟩ := endOf_toNat hasc hw.lt
      have hlo := start_mono hasc hix hxc
      have hhi := start_mono hasc hxj hw.lt
      have hlast := hw.last_eq
      refine ⟨info, info.start x, hk, hkn, ⟨hxc, le_rfl, by omega⟩, ?_, ?_⟩
      · rw [← hw.first_eq]
        exact UInt32.le_iff_toNat_le.mpr hlo
      · exact UInt32.le_iff_toNat_le.mpr (by omega)
    obtain ⟨info', hinfo', hp'⟩ := (protected_modify hs).mp (h k x hsect ⟨info, hk, hp⟩)
    rw [hk] at hinfo'
    cases hinfo'
    rwa [if_pos rfl] at hp'
  · rintro h k' x - ⟨info', hinfo', hp⟩
    refine (protected_modify hs).mpr ⟨info', hinfo', ?_⟩
    split_ifs with hkk
    · subst hkk
      rw [hk] at hinfo'
      cases hinfo'
      by_cases hx : x ∈ sects i j
      · exact h x (mem_sects.mp hx).1 (mem_sects.mp hx).2 hp
      · rwa [hg x hx]
    · exact hp

theorem reprotects_iff (ht : Table s.flashInfo) (hk : s.flashInfo[k]? = some info)
    (hkn : info.known = true) (hw : Whole info c.sectAddr c.endAddr i j) :
    Reprotects c d s ↔ ∀ x, i ≤ x → x ≤ j → info.protect x ≠ 0 →
      d.realProtect k x 0 ≠ 0 ∨ (Opens d s k i j ∧ d.realProtect k x 1 = 0) := by
  constructor
  · intro h x hix hxj hp
    exact (h k info i j hk hkn hw x hix hxj hp).imp_right fun h => ⟨⟨h.1, h.2.1⟩, h.2.2⟩
  · intro h k' info' i' j' hk' hkn' hw' x hix hxj hp
    obtain rfl := whole_unique ht hk hkn hw hk' hkn' hw'
    rw [hk] at hk'
    cases hk'
    have hasc := ht.sectors info (List.mem_of_getElem? hk) hkn hw.count_ne
    have hrange := (sectRange_whole hasc hw).symm.trans (sectRange_whole hasc hw')
    obtain ⟨hi, hj⟩ := Prod.mk.inj hrange
    obtain rfl : i = i' := by omega
    obtain rfl : j = j' := by omega
    exact (h x hix hxj hp).imp_right fun h => ⟨h.1.1, h.1.2, h.2⟩

/-- **When `saveenv` preserves the environment's sectors.** The contents are kept wherever it
returns 0; the protection is restored if and only if every protected sector could not be
unprotected in the first place, or all sectors are unprotected and erased and it can be
protected again. -/
theorem saveenv_preserves_iff (ht : Table s.flashInfo)
    (hwrite : ∀ k data addr m, (d.writeBuff k data addr m).1 = 0 →
      (d.writeBuff k data addr m).2 = m.store addr data) :
    Preserves c d envPtr s ↔ Fits c ∧ Reprotects c d s := by
  rw [Preserves, saveenv]
  by_cases hf : Fits c
  swap
  · rw [if_pos (by rw [Fits] at hf; omega)]
    refine iff_of_false ?_ fun h => hf h.1
    rintro ⟨_, _, h, -⟩
    cases h
  rw [if_neg (by rw [Fits] at hf; omega)]
  simp only [Option.some.injEq, hf, true_and]
  have hone : ∀ r : Int × FlashState, ∀ P : Int → FlashState → Prop,
      (∃ rc s', r = (rc, s') ∧ P rc s') ↔ P r.1 r.2 := fun r P =>
    ⟨fun ⟨_, _, h, hP⟩ => h ▸ hP, fun h => ⟨_, _, rfl, h⟩⟩
  rw [hone _ fun rc s' => (rc = 0 → Kept c envPtr s s') ∧
    ∀ k x, EnvSector c s k x → Protected s k x → Protected s' k x]
  by_cases hruns : Runs s.flashInfo c.sectAddr c.endAddr
  swap
  · -- the range is refused before anything is touched
    have hnone : ∀ info ∈ s.flashInfo, info.known = true → ∀ i j,
        ¬ Whole info c.sectAddr c.endAddr i j := fun info hinfo hkn i j hw => by
      obtain ⟨k, hk⟩ := List.mem_iff_getElem?.mp hinfo
      exact hruns ⟨k, info, i, j, hk, hkn, hw⟩
    have hsave : saveSect d (c.envBuffer envPtr s.mem) c.sectAddr c.endAddr s = (1, s) := by
      rw [saveSect, flashSectProtect, flashSect_none ht hnone]
      rfl
    rw [hsave]
    refine iff_of_true ⟨fun h => absurd h one_ne_zero, fun _ _ _ h => h⟩ ?_
    intro k info i j hk hkn hw
    exact absurd ⟨k, info, i, j, hk, hkn, hw⟩ hruns
  obtain ⟨k, info, i, j, hk, hkn, hw⟩ := hruns
  rw [reprotects_iff ht hk hkn hw]
  by_cases hopens : Opens d s k i j
  · have hlen := @envBuffer_length c envPtr hf s.mem
    have hsize := c.sectSize.toNat_lt
    have hpos := c.size_lt
    have hlast : lastAddr c.sectAddr (c.envBuffer envPtr s.mem).length = c.endAddr := by
      rw [lastAddr, hlen, UInt32.ofNat_toNat]
      rfl
    obtain ⟨hinfo, hmem⟩ := saveSect_open ht hk hkn hw hopens hwrite (by omega) (by omega) hlast
    rw [List.modify_modify_eq] at hinfo
    rw [reprotected_iff ht hk hw _ hkn hinfo fun x hx info => by
      simp only [Function.comp_apply, Drivers.bits, hx, false_and, if_false]]
    have hkept : (saveSect d (c.envBuffer envPtr s.mem) c.sectAddr c.endAddr s).1 = 0 →
        Kept c envPtr s (saveSect d (c.envBuffer envPtr s.mem) c.sectAddr c.endAddr s).2 := by
      intro hz
      obtain ⟨m, hm⟩ := hmem hz
      exact kept_of_store hf m hm
    rw [and_iff_right hkept]
    refine forall_congr' fun x => imp_congr_right fun hix => imp_congr_right fun hxj =>
      imp_congr_right fun _ => ?_
    have hin : x ∈ sects i j := mem_sects.mpr ⟨hix, hxj⟩
    rw [Function.comp_apply, mem_bits]
    simp only [hin, true_and, hopens.1 x hix hxj, ne_eq, not_true_eq_false, false_or, hopens]
    split_ifs with h1
    · exact iff_of_true (by decide) h1
    · rw [← ne_eq, mem_bits]
      simp only [hin, true_and, hopens.1 x hix hxj, h1, if_true, ne_eq, not_true_eq_false]
  · obtain ⟨hrc, hinfo⟩ := saveSect_closed ht hk hkn hw hopens (c.envBuffer envPtr s.mem)
    rw [reprotected_iff ht hk hw _ hkn hinfo fun x hx info => by
      simp only [Drivers.bits, hx, false_and, if_false], hrc]
    rw [and_iff_right fun h => absurd h one_ne_zero]
    refine forall_congr' fun x => imp_congr_right fun hix => imp_congr_right fun hxj =>
      imp_congr_right fun hp => ?_
    have hin : x ∈ sects i j := mem_sects.mpr ⟨hix, hxj⟩
    rw [mem_bits]
    simp only [hin, true_and, hopens, false_and, or_false]
    split_ifs with h0
    · exact iff_of_false (by simp) (not_not.mpr h0)
    · exact iff_of_true hp h0

/-! ## A sector of eight bytes -/

/-- Two sectors of eight bytes, the second one protected. -/
def smallBank : FlashInfo where
  size := 16
  sectorCount := 2
  flashId := 1
  start i := if i = 0 then 0x1000 else 0x1008
  protect i := if i = 1 then 1 else 0

theorem smallBank_table : Table [smallBank] := by
  refine ⟨⟨fun info hinfo _ => ?_, List.pairwise_singleton _ _⟩, fun info hinfo _ _ => ?_⟩
  · obtain rfl := List.mem_singleton.mp hinfo
    exact ⟨by decide, by decide⟩
  · obtain rfl := List.mem_singleton.mp hinfo
    refine ⟨⟨by decide, by decide⟩, by decide, by decide, fun i hi => ?_, by decide⟩
    obtain rfl : i = 0 := by
      have hi : i + 1 < 2 := hi
      omega
    decide

/-- Four bytes of environment, two bytes behind the start of the second sector. -/
def smallEnv : EnvConfig := ⟨0x100A, 4, 8, by decide⟩

/-- A board whose `flash_erase` returns `rc`. -/
def board (rc : Int) : Drivers where
  realProtect _ _ _ := 0
  flashErase _ _ _ m := (rc, m)
  writeBuff _ data addr m := (0, m.store addr data)

/-- Everything succeeds. -/
theorem saveenv_preserves_small :
    Preserves smallEnv (board 0) 0x2000 ⟨[smallBank], fun a => a.toUInt8⟩ :=
  (saveenv_preserves_iff smallBank_table fun _ _ _ _ _ => rfl).mpr
    ⟨(by decide : 2 + 4 ≤ 8), fun _ _ _ _ _ _ _ _ _ _ _ => .inr ⟨fun _ _ _ => rfl, rfl, rfl⟩⟩

/-- The erase fails: `saveenv` returns 1 with the sector unprotected. -/
theorem saveenv_erase_fails :
    ¬ Preserves smallEnv (board 1) 0x2000 ⟨[smallBank], fun a => a.toUInt8⟩ := by
  rintro ⟨rc, s', hsave, -, hprotect⟩
  have hopen : (saveenv smallEnv (board 1) 0x2000 ⟨[smallBank], fun a => a.toUInt8⟩).map
      (fun r => r.2.flashInfo.map (·.protect 1)) = some [0] := by decide
  rw [hsave] at hopen
  obtain ⟨info, hinfo, hp⟩ := hprotect 0 1
    ⟨smallBank, 0x1008, rfl, by decide, ⟨by decide, by decide, by decide⟩, by decide, by decide⟩
    ⟨smallBank, rfl, by decide⟩
  have hbits := congrArg (·[0]?) (Option.some.inj hopen)
  simp only [List.getElem?_map, hinfo, Option.map_some, List.getElem?_cons_zero,
    Option.some.injEq] at hbits
  exact hp hbits

end UBoot.Env.SaveSect
