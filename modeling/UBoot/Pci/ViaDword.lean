import Mathlib.Data.Nat.Bitwise
import UBoot.Lib.Lanes

/-!
# Bytes and words of the configuration space through its dwords (`drivers/pci.c`)

A controller that has dword accesses only reads the dword, merges the value and writes it back. The
value is shifted to the lane of the offset, the mask to a lane that does not depend on the offset:
the last one. `config_via_dword_iff` says when nothing is lost.
-/

namespace UBoot.Pci.ViaDword

open UBoot.Lib.Lanes

/-- The configuration space of a device, dword by dword. -/
abbrev Space := Fin 64 → BitVec 32

/-- The dword accesses of a controller to a device, with the state `σ` of the bus. They read and
write the dword at an offset that is a multiple of 4. -/
structure Hose (σ : Type) where
  readConfigDword : σ → ℕ → Option (BitVec 32)
  writeConfigDword : σ → ℕ → BitVec 32 → Option σ
  space : σ → Space
  read_eq : ∀ s (i : Fin 64), readConfigDword s (4 * i) = some (space s i)
  write_eq : ∀ s (i : Fin 64) v, ∃ s', writeConfigDword s (4 * i) v = some s' ∧
    space s' = Function.update (space s) i v

def dwordAt (offset : ℕ) : Fin 64 := Fin.ofNat 64 (offset / 4)

def plain : Hose Space where
  readConfigDword m offset := some (m (dwordAt offset))
  writeConfigDword m offset v := some (Function.update m (dwordAt offset) v)
  space m := m
  read_eq m i := by
    rw [dwordAt, Nat.mul_div_cancel_left _ (by decide), Fin.ofNat_val_eq_self]
  write_eq m i v := by
    refine ⟨_, rfl, ?_⟩
    rw [dwordAt, Nat.mul_div_cancel_left _ (by decide), Fin.ofNat_val_eq_self]

section
variable {σ : Type} {w : ℕ} (h : Hose σ)

/-- `PCI_READ_VIA_DWORD_OP` -/
def Hose.readViaDword (w offMask : ℕ) (s : σ) (offset : ℕ) : Option (BitVec w) := do
  let val32 ← h.readConfigDword s (offset &&& 0xfc)
  return (val32 >>> ((offset &&& offMask) * 8)).setWidth w

/-- `PCI_WRITE_VIA_DWORD_OP` -/
def Hose.writeViaDword (offMask : ℕ) (valMask : BitVec 32) (s : σ) (offset : ℕ) (val : BitVec w) :
    Option σ := do
  let val32 ← h.readConfigDword s (offset &&& 0xfc)
  let mask := valMask
  let ldata := (val.setWidth 32 &&& mask) <<< ((offset &&& offMask) * 8)
  let mask := mask <<< ((mask.toNat &&& offMask) * 8)
  h.writeConfigDword s (offset &&& 0xfc) ((val32 &&& ~~~mask) ||| ldata)

/-- `pci_hose_read_config_byte_via_dword` -/
def Hose.readConfigByteViaDword : σ → ℕ → Option (BitVec 8) := h.readViaDword 8 0x03

/-- `pci_hose_read_config_word_via_dword` -/
def Hose.readConfigWordViaDword : σ → ℕ → Option (BitVec 16) := h.readViaDword 16 0x02

/-- `pci_hose_write_config_byte_via_dword` -/
def Hose.writeConfigByteViaDword : σ → ℕ → BitVec 8 → Option σ := h.writeViaDword 0x03 0x000000ff

/-- `pci_hose_write_config_word_via_dword` -/
def Hose.writeConfigWordViaDword : σ → ℕ → BitVec 16 → Option σ := h.writeViaDword 0x02 0x0000ffff

/-! ## What a write should do -/

/-- The `w` bits at an offset. -/
def field (m : Space) (w offset : ℕ) : BitVec w :=
  (m (dwordAt offset)).extractLsb' (8 * (offset % 4)) w

/-- The bytes at an offset are those of a value, all others are as before. -/
def Written (m m' : Space) (offset : ℕ) (val : BitVec w) : Prop :=
  ∀ o < 256, field m' 8 o =
    if offset ≤ o ∧ o < offset + w / 8 then val.extractLsb' (8 * (o - offset)) 8 else field m 8 o

/-- An access writes the value and no other byte, and the access that belongs to it reads it. -/
def Writes (write : σ → ℕ → BitVec w → Option σ) (read : σ → ℕ → Option (BitVec w)) (s : σ)
    (offset : ℕ) (val : BitVec w) : Prop :=
  ∃ s', write s offset val = some s' ∧ Written (h.space s) (h.space s') (offset % 256) val ∧
    read s' offset = some val

end

section
variable {σ : Type} {h : Hose σ} {s : σ} {m m' : Space} {w i offset offMask : ℕ}
  {valMask x y : BitVec 32} {val : BitVec w}

/-! ## Offsets -/

set_option maxRecDepth 4000 in
theorem and_fc (offset : ℕ) : offset &&& 0xfc = 4 * (dwordAt offset).val := by
  have hall : ∀ o < 256, o &&& 0xfc = 4 * (o / 4 % 64) := by decide
  have hmod : offset &&& 0xfc = offset % 256 &&& 0xfc := by
    rw [← Nat.and_two_pow_sub_one_eq_mod offset 8, Nat.and_assoc]
    rfl
  have hdword : (dwordAt offset).val = offset / 4 % 64 := rfl
  rw [hmod, hall _ (Nat.mod_lt _ (by decide)), hdword]
  omega

theorem and_three (offset : ℕ) : (offset &&& 0x03) * 8 = 8 * (offset % 4) := by
  rw [← Nat.and_two_pow_sub_one_eq_mod offset 2, Nat.mul_comm]

theorem and_two_even (half : ℕ) : (2 * half &&& 0x02) * 8 = 8 * (2 * half % 4) := by
  have hmod : 2 * half &&& 0x02 = 2 * half % 4 &&& 0x02 := by
    rw [← Nat.and_two_pow_sub_one_eq_mod _ 2, Nat.and_assoc]
    rfl
  rcases (by omega : 2 * half % 4 = 0 ∨ 2 * half % 4 = 2) with h0 | h2
  · rw [hmod, h0]
    rfl
  · rw [hmod, h2]
    rfl

/-! ## Bytes and dwords -/

theorem eq_of_field (hf : ∀ o < 256, field m 8 o = field m' 8 o) : m = m' := by
  funext i
  refine BitVec.eq_of_getLsbD_eq fun b hb => ?_
  have ho := hf (4 * i + b / 8) (by omega)
  have hi : dwordAt (4 * i + b / 8) = i := Fin.ext (by
    show (4 * i.val + b / 8) / 4 % 64 = i.val
    omega)
  have hbit : ∀ x : BitVec 32,
      (x.extractLsb' (8 * ((4 * i.val + b / 8) % 4)) 8).getLsbD (b % 8) = x.getLsbD b := by
    intro x
    have hpos : 8 * ((4 * i.val + b / 8) % 4) + b % 8 = b := by omega
    rw [BitVec.getLsbD_extractLsb', decide_eq_true (by omega), Bool.true_and, hpos]
  rw [field, field, hi] at ho
  rw [← hbit (m i), ← hbit (m' i), ho]

theorem written_setLane (hw : 8 ∣ w) (hle : 8 * (offset % 4) + w ≤ 32) :
    Written m (Function.update m (dwordAt offset)
      (setLane (m (dwordAt offset)) (8 * (offset % 4)) val)) (offset % 256) val := by
  intro o ho
  obtain ⟨k, rfl⟩ := hw
  have hdword : ∀ o, (dwordAt o).val = o / 4 % 64 := fun _ => rfl
  refine BitVec.eq_of_getLsbD_eq fun b hb => ?_
  rw [field, BitVec.getLsbD_extractLsb', decide_eq_true hb, Bool.true_and]
  by_cases hsame : dwordAt o = dwordAt offset
  · have hval := congrArg Fin.val hsame
    rw [hdword, hdword] at hval
    rw [hsame, Function.update_self, getLsbD_setLane (by omega)]
    split_ifs with hlane haddr haddr
    · have hpos : 8 * (o % 4) + b - 8 * (offset % 4) = 8 * (o - offset % 256) + b := by omega
      rw [BitVec.getLsbD_extractLsb', decide_eq_true hb, Bool.true_and, hpos]
    · omega
    · omega
    · rw [field, hsame, BitVec.getLsbD_extractLsb', decide_eq_true hb, Bool.true_and]
  · have hne : o / 4 % 64 ≠ offset / 4 % 64 := fun heq => hsame (Fin.ext heq)
    rw [Function.update_of_ne hsame, if_neg (by omega), field, BitVec.getLsbD_extractLsb',
      decide_eq_true hb, Bool.true_and]

/-- Only the dword with the lane replaced has the bytes that it should have. -/
theorem written_update_iff (hw : 8 ∣ w) (hle : 8 * (offset % 4) + w ≤ 32) :
    Written m (Function.update m (dwordAt offset) x) (offset % 256) val ↔
      x = setLane (m (dwordAt offset)) (8 * (offset % 4)) val := by
  refine ⟨fun hwrit => ?_, fun heq => heq ▸ written_setLane hw hle⟩
  have hspace := eq_of_field fun o ho => (hwrit o ho).trans (written_setLane hw hle o ho).symm
  have hx := congrFun hspace (dwordAt offset)
  rwa [Function.update_self, Function.update_self] at hx

/-! ## The accesses -/

theorem read_dword : h.readConfigDword s (offset &&& 0xfc) = some (h.space s (dwordAt offset)) := by
  rw [and_fc, h.read_eq]

theorem readViaDword_eq (hoff : (offset &&& offMask) * 8 = 8 * (offset % 4)) :
    h.readViaDword w offMask s offset = some (field (h.space s) w offset) := by
  have hshift : ∀ x : BitVec 32, (x >>> (8 * (offset % 4))).setWidth w =
      x.extractLsb' (8 * (offset % 4)) w := by
    intro x
    refine BitVec.eq_of_getLsbD_eq fun i hi => ?_
    rw [BitVec.getLsbD_setWidth, BitVec.getLsbD_ushiftRight, BitVec.getLsbD_extractLsb']
  rw [Hose.readViaDword, read_dword, hoff, field, ← hshift]
  rfl

theorem writeViaDword_eq (hoff : (offset &&& offMask) * 8 = 8 * (offset % 4))
    (hmask : valMask = laneMask 32 w 0) (ht : (valMask.toNat &&& offMask) * 8 = 32 - w) :
    h.writeViaDword offMask valMask s offset val = h.writeConfigDword s (4 * (dwordAt offset).val)
      (merge (h.space s (dwordAt offset)) (32 - w) (8 * (offset % 4)) val) := by
  have hval : val.setWidth 32 &&& valMask = val.setWidth 32 := by
    refine BitVec.eq_of_getLsbD_eq fun i hi => ?_
    rw [hmask, BitVec.getLsbD_and, getLsbD_laneMask hi, BitVec.getLsbD_setWidth]
    by_cases hiw : i < w
    · rw [decide_eq_true (by omega : 0 ≤ i ∧ i < 0 + w), Bool.and_true]
    · rw [BitVec.getLsbD_of_ge val i (by omega), Bool.and_false, Bool.false_and]
  have hshift : valMask <<< (32 - w) = laneMask 32 w (32 - w) := by
    rw [hmask, laneMask, laneMask, BitVec.shiftLeft_zero]
  rw [Hose.writeViaDword, read_dword]
  dsimp only [bind, Option.bind]
  rw [hval, hoff, ht, hshift, and_fc]
  rfl

theorem writes_iff (hw : 8 ∣ w) (hpos : w < 32)
    (hoff : (offset &&& offMask) * 8 = 8 * (offset % 4)) (hmask : valMask = laneMask 32 w 0)
    (ht : (valMask.toNat &&& offMask) * 8 = 32 - w)
    (hlane : 8 * (offset % 4) = 32 - w ∨ 8 * (offset % 4) + w ≤ 32 - w) :
    Writes h (h.writeViaDword offMask valMask) (h.readViaDword w offMask) s offset val ↔
      8 * (offset % 4) = 32 - w ∨
        (h.space s (dwordAt offset)).extractLsb' (32 - w) w = 0 ∧
          field (h.space s) w offset ||| val = val := by
  have hle : 8 * (offset % 4) + w ≤ 32 := by omega
  obtain ⟨s', hwrite, hspace⟩ := h.write_eq s (dwordAt offset)
    (merge (h.space s (dwordAt offset)) (32 - w) (8 * (offset % 4)) val)
  have hwrites :
      Writes h (h.writeViaDword offMask valMask) (h.readViaDword w offMask) s offset val ↔
      merge (h.space s (dwordAt offset)) (32 - w) (8 * (offset % 4)) val =
        setLane (h.space s (dwordAt offset)) (8 * (offset % 4)) val := by
    rw [← written_update_iff hw hle, ← hspace]
    constructor
    · rintro ⟨t, ht', hwrit, -⟩
      rw [writeViaDword_eq hoff hmask ht, hwrite] at ht'
      exact Option.some.inj ht' ▸ hwrit
    · intro hwrit
      refine ⟨s', (writeViaDword_eq hoff hmask ht).trans hwrite, hwrit, ?_⟩
      -- what has been written is the lane that is read
      rw [hspace, written_update_iff hw hle] at hwrit
      rw [readViaDword_eq hoff, field, hspace, Function.update_self, hwrit, extractLsb'_setLane hle]
  rw [hwrites]
  rcases hlane with hlast | hfront
  · rw [hlast]
    exact iff_of_true rfl (.inl rfl)
  · rw [merge_eq_setLane_iff hfront (by omega), field]
    refine ⟨.inr, fun h => h.resolve_left (by omega)⟩

end

/-- **Bytes and words through dwords**: a byte, or a word at an even offset, is written without
effect on the others, and read back, if and only if it is the last one of its dword, or the last one
is 0 and no bit is set at the offset that is not set in the value. -/
theorem config_via_dword_iff {σ : Type} (h : Hose σ) (s : σ) (offset half : ℕ) (byte : BitVec 8)
    (word : BitVec 16) :
    (Writes h h.writeConfigByteViaDword h.readConfigByteViaDword s offset byte ↔
      offset % 4 = 3 ∨ field (h.space s) 8 (offset / 4 * 4 + 3) = 0 ∧
        field (h.space s) 8 offset ||| byte = byte) ∧
    (Writes h h.writeConfigWordViaDword h.readConfigWordViaDword s (2 * half) word ↔
      2 * half % 4 = 2 ∨ field (h.space s) 16 (2 * half / 4 * 4 + 2) = 0 ∧
        field (h.space s) 16 (2 * half) ||| word = word) := by
  constructor
  · have hlast : field (h.space s) 8 (offset / 4 * 4 + 3) =
        (h.space s (dwordAt offset)).extractLsb' (32 - 8) 8 := by
      rw [field, dwordAt, dwordAt, (by omega : (offset / 4 * 4 + 3) / 4 = offset / 4),
        (by omega : 8 * ((offset / 4 * 4 + 3) % 4) = 32 - 8)]
    rw [Hose.writeConfigByteViaDword, Hose.readConfigByteViaDword,
      writes_iff (by decide) (by decide) (and_three offset) (by decide) (by decide) (by omega),
      hlast, (by omega : 8 * (offset % 4) = 32 - 8 ↔ offset % 4 = 3)]
  · have hlast : field (h.space s) 16 (2 * half / 4 * 4 + 2) =
        (h.space s (dwordAt (2 * half))).extractLsb' (32 - 16) 16 := by
      rw [field, dwordAt, dwordAt, (by omega : (2 * half / 4 * 4 + 2) / 4 = 2 * half / 4),
        (by omega : 8 * ((2 * half / 4 * 4 + 2) % 4) = 32 - 16)]
    rw [Hose.writeConfigWordViaDword, Hose.readConfigWordViaDword,
      writes_iff (by decide) (by decide) (and_two_even half) (by decide) (by decide) (by omega),
      hlast, (by omega : 8 * (2 * half % 4) = 32 - 16 ↔ 2 * half % 4 = 2)]

/-- The interrupt line 5 is written over 0xff, below a latency of 0x12: both go wrong. -/
theorem config_via_dword_lost : ¬ Writes plain plain.writeConfigByteViaDword
    plain.readConfigByteViaDword (fun _ => 0x120001ff) 0x3c 0x05 := by
  rintro ⟨s', hwrite, -, hread⟩
  have hlost : (plain.writeConfigByteViaDword (fun _ => 0x120001ff) 0x3c 0x05).bind
      (plain.readConfigByteViaDword · 0x3c) = some 0xff := by decide
  rw [hwrite] at hlost
  exact absurd (hread.symm.trans hlost) (by decide)

end UBoot.Pci.ViaDword
