import UBoot.Flash.Sectors

/-!
# Protecting the monitor (`common/flash.c`)

The start-up code of a board calls `flash_protect` for a range of addresses, and the sectors that
have an address in it are protected, or are protected no longer. `flash_protect_touched`: these and
no others, and nothing else of the bank is changed. A bank whose flash is not known is left as it
is, wherever the range lies (`flashProtect_unknown`).

What is done with a sector is a parameter, as for `flash_sect_protect`: `flash_real_protect` of the
board, or `assignProtect` where `CFG_FLASH_PROTECTION` is not defined.
-/

namespace UBoot.Flash

open FlashInfo

def flagProtectSet : UInt32 := 0x01

def flagProtectClear : UInt32 := 0x02

namespace FlashInfo

/-- `info->protect[i] = p` -/
def setProtect (info : FlashInfo) (i : ℕ) (p : UInt8) : FlashInfo :=
  { info with protect := Function.update info.protect i p }

/-- The test of `flash_protect` for sector `i`. -/
def inRange (info : FlashInfo) (first last : UInt32) (i : ℕ) : Bool :=
  first ≤ info.endOf i && last ≥ info.start i

/-- Sector `i` has an address of the range. -/
def Touched (info : FlashInfo) (first last : UInt32) (i : ℕ) : Prop :=
  ∃ a, info.InSector i a ∧ first ≤ a ∧ a ≤ last

end FlashInfo

/-- What is done with a sector, when there is no hardware protection. -/
def assignProtect (i : ℕ) (p : UInt8) (info : FlashInfo) : ℤ × FlashInfo := (0, info.setProtect i p)

section
variable (realProtect : ℕ → UInt8 → FlashInfo → ℤ × FlashInfo) (flag first last : UInt32)

/-- The loop body of `flash_protect`. -/
def protectStep (info : FlashInfo) (i : ℕ) : FlashInfo :=
  if info.inRange first last i then
    if flag &&& flagProtectClear ≠ 0 then (realProtect i 0 info).2
    else if flag &&& flagProtectSet ≠ 0 then (realProtect i 1 info).2
    else info
  else info

/-- `flash_protect`; the range is from `first` to `last`. -/
def flashProtect (info : FlashInfo) : FlashInfo :=
  if info.sectorCount = 0 ∨ info.size = 0 ∨ last < first then info
  else if ¬ info.known ∨ last < info.start 0 ∨ first > info.start 0 + info.size - 1 then info
  else (List.range info.sectorCount.toNat).foldl (protectStep realProtect flag first last) info

end

def protectValue (flag : UInt32) : Option UInt8 :=
  if flag &&& flagProtectClear ≠ 0 then some 0
  else if flag &&& flagProtectSet ≠ 0 then some 1
  else none

section
variable {realProtect : ℕ → UInt8 → FlashInfo → ℤ × FlashInfo} {flag first last : UInt32}
  {info : FlashInfo} {i : ℕ} {p : UInt8}

def Obeys (realProtect : ℕ → UInt8 → FlashInfo → ℤ × FlashInfo) : Prop :=
  ∀ i p info, (realProtect i p info).2 = info.setProtect i p

theorem protectStep_eq (hreal : Obeys realProtect) (hflag : protectValue flag = some p)
    (info : FlashInfo) (i : ℕ) :
    protectStep realProtect flag first last info i =
      if info.inRange first last i then info.setProtect i p else info := by
  rw [protectStep, hreal, hreal]
  rw [protectValue] at hflag
  split_ifs at hflag ⊢ <;> first | rfl | (cases hflag; rfl)

/-- The loop writes the value for the sectors in the range, and nothing else. -/
theorem foldl_protectStep (hreal : Obeys realProtect) (hflag : protectValue flag = some p)
    (is : List ℕ) (info : FlashInfo) :
    is.foldl (protectStep realProtect flag first last) info =
      { info with protect := fun i =>
          if i ∈ is ∧ info.inRange first last i then p else info.protect i } := by
  induction is generalizing info with
  | nil => simp
  | cons j is ih =>
    have hsame : ∀ i, (info.setProtect j p).inRange first last i = info.inRange first last i :=
      fun _ => rfl
    rw [List.foldl_cons, protectStep_eq hreal hflag]
    split_ifs with hj
    · rw [ih]
      simp only [hsame]
      simp only [setProtect, FlashInfo.mk.injEq, true_and]
      funext i
      rcases eq_or_ne i j with rfl | hne
      · simp [hj]
      · simp [hne]
    · rw [ih]
      simp only [FlashInfo.mk.injEq, true_and]
      funext i
      rcases eq_or_ne i j with rfl | hne
      · simp [hj]
      · simp [hne]

/-- The test with the first and last addresses finds the sectors that have one in common with the
range. -/
theorem touched_iff (h : info.Ascending) (hle : first ≤ last) :
    info.Touched first last i ↔ i < info.sectorCount.toNat ∧ info.inRange first last i := by
  simp only [Touched, InSector, inRange, Bool.and_eq_true, decide_eq_true_eq]
  constructor
  · rintro ⟨a, ⟨hi, hlo, hhi⟩, hfirst, hlast⟩
    obtain ⟨hend, -⟩ := endOf_toNat h hi
    rw [UInt32.le_iff_toNat_le] at hfirst hlast
    refine ⟨hi, UInt32.le_iff_toNat_le.mpr ?_, UInt32.le_iff_toNat_le.mpr ?_⟩ <;> omega
  · rintro ⟨hi, hfirst, hlast⟩
    obtain ⟨hend, hpos⟩ := endOf_toNat h hi
    -- the later one of the two starts is in both
    rcases UInt32.le_total first (info.start i) with hcase | hcase
    · exact ⟨info.start i, ⟨hi, le_rfl, by omega⟩, hcase, hlast⟩
    · rw [UInt32.le_iff_toNat_le] at hfirst hcase
      exact ⟨first, ⟨hi, hcase, by omega⟩, UInt32.le_refl _, hle⟩

theorem inSector_bank (h : info.Ascending) {a : UInt32} (ha : info.InSector i a) :
    info.start 0 ≤ a ∧ a ≤ info.start 0 + info.size - 1 := by
  obtain ⟨hi, hlo, hhi⟩ := ha
  have hmono := start_mono h (Nat.zero_le i) hi
  have hbank := h.end_le
  have hpos := h.size_pos
  have hend : info.sectorEnd i ≤ (info.start 0).toNat + info.size.toNat := by
    rw [sectorEnd]
    split
    · exact le_rfl
    · have hlast := start_mono h (show i + 1 ≤ info.sectorCount.toNat - 1 by omega) (by omega)
      exact hlast.trans h.inside.le
  constructor
  · exact UInt32.le_iff_toNat_le.mpr (hmono.trans hlo)
  · rw [UInt32.le_iff_toNat_le, UInt32.toNat_sub, UInt32.toNat_add, UInt32.toNat_one]
    omega

/-- A range that the bank has no address of touches no sector of it. -/
theorem not_touched_of_outside (h : info.Ascending)
    (hout : last < info.start 0 ∨ first > info.start 0 + info.size - 1) (i : ℕ) :
    ¬ info.Touched first last i := by
  rintro ⟨a, ha, hfirst, hlast⟩
  obtain ⟨hlo, hhi⟩ := inSector_bank h ha
  rcases hout with hout | hout
  · exact absurd (UInt32.le_trans hlo hlast) (UInt32.not_le.mpr hout)
  · exact absurd (UInt32.le_trans hfirst hhi) (UInt32.not_le.mpr hout)

theorem flashProtect_unknown (hk : info.known = false) :
    flashProtect realProtect flag first last info = info := by
  rw [flashProtect, hk]
  split_ifs <;> simp_all

/-- What `flash_protect` leaves of a bank, with a flag for the value `p`. -/
theorem flashProtect_spec (h : info.Ascending) (hk : info.known = true) (hle : first ≤ last)
    (hreal : Obeys realProtect) (hflag : protectValue flag = some p) :
    ∃ protect, flashProtect realProtect flag first last info =
        { info with protect := protect } ∧
      ∀ i, (info.Touched first last i → protect i = p) ∧
        (¬ info.Touched first last i → protect i = info.protect i) := by
  have hcount : info.sectorCount ≠ 0 := fun h0 => by
    have hpos := h.count_pos
    rw [h0] at hpos
    exact Nat.lt_irrefl 0 hpos
  have hsize : info.size ≠ 0 := fun h0 => by
    have hpos := h.size_pos
    rw [h0] at hpos
    exact Nat.lt_irrefl 0 hpos
  have hgood : ¬ (info.sectorCount = 0 ∨ info.size = 0 ∨ last < first) := by
    simp only [hcount, hsize, UInt32.not_lt.mpr hle, or_self, not_false_eq_true]
  rw [flashProtect, if_neg hgood]
  split_ifs with hout
  · have hout := hout.resolve_left (not_not.mpr hk)
    exact ⟨info.protect, rfl, fun i =>
      ⟨fun ht => absurd ht (not_touched_of_outside h hout i), fun _ => rfl⟩⟩
  · refine ⟨_, foldl_protectStep hreal hflag _ info, fun i => ?_⟩
    rw [touched_iff h hle, ← List.mem_range]
    exact ⟨fun ht => if_pos ht, fun ht => if_neg ht⟩

end

/-- **The sectors that `flash_protect` marks** are those that have an address of the range. The
other sectors, and the other fields of the bank, stay as they are. -/
theorem flash_protect_touched (info : FlashInfo) (first last : UInt32) (h : info.Ascending)
    (hk : info.known = true) (hle : first ≤ last)
    (realProtect : ℕ → UInt8 → FlashInfo → ℤ × FlashInfo) (hreal : Obeys realProtect) :
    (∃ protect, flashProtect realProtect flagProtectSet first last info =
        { info with protect := protect } ∧
      ∀ i, (info.Touched first last i → protect i = 1) ∧
        (¬ info.Touched first last i → protect i = info.protect i)) ∧
    ∃ protect, flashProtect realProtect flagProtectClear first last info =
        { info with protect := protect } ∧
      ∀ i, (info.Touched first last i → protect i = 0) ∧
        (¬ info.Touched first last i → protect i = info.protect i) :=
  ⟨flashProtect_spec h hk hle hreal rfl, flashProtect_spec h hk hle hreal rfl⟩

/-- The upper sector of a bank that ends at 0xFFFFFFFF. -/
theorem flash_protect_touched_top :
    ∃ protect, flashProtect assignProtect flagProtectSet 0xFFFFF000 0xFFFFFFFF topBank =
        { topBank with protect := protect } ∧
      ∀ i, (topBank.Touched 0xFFFFF000 0xFFFFFFFF i → protect i = 1) ∧
        (¬ topBank.Touched 0xFFFFF000 0xFFFFFFFF i → protect i = topBank.protect i) :=
  (flash_protect_touched topBank 0xFFFFF000 0xFFFFFFFF
    (topBank_sectored topBank (List.mem_singleton_self _) (by decide)) rfl (by decide)
    assignProtect fun _ _ _ => rfl).1

/-- `topBank` as long as its flash is not known. -/
def unknownBank : FlashInfo := { topBank with flashId := flashUnknown }

/-- Its lower sector lies in the range and is not marked. -/
theorem flash_protect_skips_unknown :
    unknownBank.Ascending ∧ unknownBank.Touched 0xFFFF0000 0xFFFFFFFF 0 ∧
      (flashProtect assignProtect flagProtectSet 0xFFFF0000 0xFFFFFFFF unknownBank).protect 0 =
        0 := by
  have h := topBank_sectored topBank (List.mem_singleton_self _) (by decide)
  refine ⟨⟨⟨h.size_pos, h.end_le⟩, h.count_pos, h.count_le, h.ascending, h.inside⟩,
    ⟨0xFFFF0000, ⟨by decide, by decide, by decide⟩, by decide, by decide⟩, by decide⟩

end UBoot.Flash
