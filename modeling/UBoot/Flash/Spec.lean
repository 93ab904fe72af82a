import UBoot.Common.Strings
import UBoot.Flash.Banks
import UBoot.Lib.CInt

/-!
# Sector specifications (`common/cmd_flash.c`)

`erase` and `protect` take `B:SF[-SL]`, sectors `SF` to `SL` of bank `B`. `abbrev_spec` stores the
numbers in `int`s and checks them against the number of sectors, but not against 0:
`abbrev_spec_inRange_iff` says which strings get past it with a number that is negative.
-/

namespace UBoot.Flash

open UBoot.Lib UBoot.Common

/-- `strchr` and the NUL in place of the character: the string in front of it, and the one behind
it. -/
def splitAtChar (ch : UInt8) (str : List UInt8) : List UInt8 × Option (List UInt8) :=
  (str.takeWhile (· ≠ ch), (str.dropWhile (· ≠ ch)).tail?)

/-- `simple_strtoul (str, &ep, 10)`, and the test `ep == str || *ep != '\0'`. -/
def number (str : List UInt8) : Option ℕ :=
  let r := simpleStrtoul 10 str
  if r.2 = str ∨ r.2 ≠ [] then none else some r.1

/-- What `abbrev_spec` returns: 0, -1, or 1 with what it stores. A bank is its index in
`flash_info`; in the parts of the function, `none` is a return of -1. -/
inductive Spec where
  | none
  | bad
  | ok (bank : ℕ) (first last : ℤ)
  deriving DecidableEq

def specBank (flashInfo : List FlashInfo) (str : List UInt8) : Option (ℕ × FlashInfo) := do
  let bank := int32 (← number str)
  if bank < 1 ∨ bank > flashInfo.length then Option.none
  else
    let fp ← flashInfo[(bank - 1).toNat]?
    if fp.known then some ((bank - 1).toNat, fp) else Option.none

/-- The sectors from `first` on, to the one that is behind the dash if there is one. -/
def specLast (sectorCount : UInt16) (first : ℤ) : Option (List UInt8) → Option (ℤ × ℤ)
  | some p => do
    let last := int32 (← number p)
    if last < first ∨ last ≥ sectorCount.toNat then Option.none else some (first, last)
  | Option.none => some (first, first)

def specSectors (sectorCount : UInt16) (str : List UInt8) : Option (ℤ × ℤ) := do
  let (str, p) := splitAtChar 45 str
  let first := int32 (← number str)
  if first ≥ sectorCount.toNat then Option.none else specLast sectorCount first p

def abbrevSpec (flashInfo : List FlashInfo) (str : List UInt8) : Spec :=
  match splitAtChar 58 str with
  | (_, Option.none) => .none
  | (str, some p) =>
    match specBank flashInfo str with
    | Option.none => .bad
    | some (bank, fp) =>
      match specSectors fp.sectorCount p with
      | Option.none => .bad
      | some (first, last) => .ok bank first last

/-- The values of `i` in `for (i = sect_first; i <= sect_last; i++)`. -/
def sectorLoop (i sectLast : ℤ) : List ℤ :=
  if i ≤ sectLast then i :: sectorLoop (i + 1) sectLast else []
termination_by (sectLast + 1 - i).toNat

/-- The sectors of a specification are sectors of a known bank, and the loop over them stays in
it. -/
def Spec.InRange (flashInfo : List FlashInfo) : Spec → Prop
  | ok bank first last => ∃ fp, flashInfo[bank]? = some fp ∧ fp.known = true ∧
      0 ≤ first ∧ first ≤ last ∧ last < fp.sectorCount.toNat ∧
      ∀ i ∈ sectorLoop first last, 0 ≤ i ∧ i < fp.sectorCount.toNat
  | _ => True

/-- The first number of the sectors is negative as an `int`, and what is behind it is not refused:
there is nothing, or the number of a sector, or a negative `int` that is not less. -/
def Wraps (sectorCount : UInt16) (str : List UInt8) : Prop :=
  ∃ n, number (splitAtChar 45 str).1 = some n ∧ 2 ^ 31 ≤ n ∧
    ∀ p, (splitAtChar 45 str).2 = some p →
      ∃ m, number p = some m ∧ (m < sectorCount.toNat ∨ n ≤ m)

/-- The specification of a known bank with sectors that wrap. -/
def SpecWraps (flashInfo : List FlashInfo) (str : List UInt8) : Prop :=
  ∃ p, (splitAtChar 58 str).2 = some p ∧
    ∃ bank fp, specBank flashInfo (splitAtChar 58 str).1 = some (bank, fp) ∧ Wraps fp.sectorCount p

section
variable {flashInfo : List FlashInfo} {sectorCount : UInt16} {str : List UInt8} {n : ℕ}

theorem mem_sectorLoop {i first last : ℤ} : i ∈ sectorLoop first last ↔ first ≤ i ∧ i ≤ last := by
  fun_induction sectorLoop first last with
  | case1 first hle ih =>
    rw [List.mem_cons, ih]
    omega
  | case2 first hgt =>
    refine iff_of_false List.not_mem_nil ?_
    omega

theorem strtoulDigits_lt (base : ℕ) (cp : List UInt8) {result : ℕ} (h : result < 2 ^ 32) :
    (strtoulDigits base cp result).1 < 2 ^ 32 := by
  induction cp generalizing result with
  | nil => exact h
  | cons c cp ih =>
    rw [strtoulDigits]
    split
    · exact ih (Nat.mod_lt _ (by decide))
    · exact h

theorem number_lt (h : number str = some n) : n < 2 ^ 32 := by
  unfold number at h
  dsimp only at h
  split_ifs at h
  obtain rfl := Option.some.inj h
  unfold simpleStrtoul
  split
  · split <;> exact strtoulDigits_lt _ _ (by decide)
  · exact strtoulDigits_lt _ _ (by decide)
  · exact strtoulDigits_lt _ _ (by decide)

theorem int32_of_number (h : number str = some n) :
    (n < 2 ^ 31 ∧ int32 n = n) ∨ (2 ^ 31 ≤ n ∧ n < 2 ^ 32 ∧ int32 n = n - 2 ^ 32) := by
  have hlt := number_lt h
  rcases Nat.lt_or_ge n (2 ^ 31) with hn | hn
  · exact .inl ⟨hn, int32_of_lt (by omega) (by omega)⟩
  · refine .inr ⟨hn, hlt, ?_⟩
    rw [int32, Int.bmod_def]
    omega

theorem specBank_some {bank : ℕ} {fp : FlashInfo} (h : specBank flashInfo str = some (bank, fp)) :
    flashInfo[bank]? = some fp ∧ fp.known = true := by
  rw [specBank, Option.bind_eq_bind, Option.bind_eq_some_iff] at h
  obtain ⟨n, -, h⟩ := h
  dsimp only at h
  split_ifs at h
  rw [Option.bind_eq_bind, Option.bind_eq_some_iff] at h
  obtain ⟨fp', hget, h⟩ := h
  split_ifs at h with hknown
  obtain ⟨rfl, rfl⟩ := Prod.mk.inj (Option.some.inj h)
  exact ⟨hget, hknown⟩

theorem specLast_eq_some {first f l : ℤ} {p : Option (List UInt8)} :
    specLast sectorCount first p = some (f, l) ↔ f = first ∧
      ((p = none ∧ l = first) ∨ ∃ s m, p = some s ∧ number s = some m ∧ l = int32 m ∧
        first ≤ l ∧ l < sectorCount.toNat) := by
  cases p with
  | none => simp [specLast, eq_comm]
  | some s =>
    rw [specLast, Option.bind_eq_bind, Option.bind_eq_some_iff]
    constructor
    · rintro ⟨m, hm, h⟩
      dsimp only at h
      split_ifs at h
      obtain ⟨rfl, rfl⟩ := Prod.mk.inj (Option.some.inj h)
      exact ⟨rfl, .inr ⟨s, m, rfl, hm, rfl, by omega⟩⟩
    · rintro ⟨hf, ⟨h, -⟩ | ⟨s', m, h, hm, hl, hle⟩⟩
      · cases h
      · obtain rfl := Option.some.inj h
        refine ⟨m, hm, ?_⟩
        dsimp only
        rw [← hl, ← hf, if_neg (by omega)]

theorem specSectors_eq_some {f l : ℤ} : specSectors sectorCount str = some (f, l) ↔
    ∃ n, number (splitAtChar 45 str).1 = some n ∧ int32 n < sectorCount.toNat ∧
      specLast sectorCount (int32 n) (splitAtChar 45 str).2 = some (f, l) := by
  rw [specSectors]
  dsimp only
  rw [Option.bind_eq_bind, Option.bind_eq_some_iff]
  refine exists_congr fun n => and_congr_right fun _ => ?_
  split_ifs with h
  · exact iff_of_false (by simp) fun hlt => by omega
  · exact (and_iff_right (by omega)).symm

theorem specSectors_some {first last : ℤ} (h : specSectors sectorCount str = some (first, last)) :
    first ≤ last ∧ last < sectorCount.toNat := by
  obtain ⟨n, -, hlt, h⟩ := specSectors_eq_some.mp h
  obtain ⟨hfirst, ⟨-, hlast⟩ | ⟨s, m, -, -, -, hle⟩⟩ := specLast_eq_some.mp h <;> omega

theorem specSectors_neg_iff : (∃ first last, specSectors sectorCount str = some (first, last) ∧
    first < 0) ↔ Wraps sectorCount str := by
  have hcount := sectorCount.toNat_lt
  constructor
  · rintro ⟨first, last, h, hneg⟩
    obtain ⟨n, hn, hlt, h⟩ := specSectors_eq_some.mp h
    have hfirst := int32_of_number hn
    obtain ⟨heq, hlast⟩ := specLast_eq_some.mp h
    refine ⟨n, hn, by omega, fun p hp => ?_⟩
    rcases hlast with ⟨hnone, -⟩ | ⟨s, m, hs, hm, heq', hle⟩
    · rw [hp] at hnone
      cases hnone
    · obtain rfl := Option.some.inj (hp.symm.trans hs)
      have hlast := int32_of_number hm
      exact ⟨m, hm, by omega⟩
  · rintro ⟨n, hn, hle, hp⟩
    have hfirst := int32_of_number hn
    cases hpart : (splitAtChar 45 str).2 with
    | none =>
      exact ⟨int32 n, int32 n, specSectors_eq_some.mpr ⟨n, hn, by omega,
        specLast_eq_some.mpr ⟨rfl, .inl ⟨hpart, rfl⟩⟩⟩, by omega⟩
    | some p =>
      obtain ⟨m, hm, hor⟩ := hp p hpart
      have hlast := int32_of_number hm
      exact ⟨int32 n, int32 m, specSectors_eq_some.mpr ⟨n, hn, by omega,
        specLast_eq_some.mpr ⟨rfl, .inr ⟨p, m, hpart, hm, rfl, by omega⟩⟩⟩, by omega⟩

end

/-- **Sector specifications**: what `abbrev_spec` accepts are sectors of a known bank, exactly
unless the first one wraps. -/
theorem abbrev_spec_inRange_iff (flashInfo : List FlashInfo) (str : List UInt8) :
    (abbrevSpec flashInfo str).InRange flashInfo ↔ ¬ SpecWraps flashInfo str := by
  rw [abbrevSpec, SpecWraps]
  generalize splitAtChar 58 str = parts
  obtain ⟨b, _ | p⟩ := parts
  · simp [Spec.InRange]
  simp only [Option.some.injEq, exists_eq_left']
  cases hbank : specBank flashInfo b with
  | none => simp [Spec.InRange]
  | some found =>
    obtain ⟨bank, fp⟩ := found
    obtain ⟨hget, hknown⟩ := specBank_some hbank
    have hwraps : (∃ bank' fp', some (bank, fp) = some (bank', fp') ∧ Wraps fp'.sectorCount p) ↔
        Wraps fp.sectorCount p := by simp
    rw [hwraps, ← specSectors_neg_iff]
    dsimp only
    cases hsect : specSectors fp.sectorCount p with
    | none => simp [Spec.InRange]
    | some range =>
      obtain ⟨first, last⟩ := range
      obtain ⟨hle, hlt⟩ := specSectors_some hsect
      have hneg : (∃ first' last', some (first, last) = some (first', last') ∧ first' < 0) ↔
          first < 0 := by simp
      rw [hneg, not_lt]
      constructor
      · rintro ⟨fp', -, -, h0, -⟩
        exact h0
      · intro h0
        refine ⟨fp, hget, hknown, h0, hle, hlt, fun i hi => ?_⟩
        rw [mem_sectorLoop] at hi
        omega

def twoSectors : FlashInfo := ⟨0x10000, 2, 1, fun i => UInt32.ofNat (0x8000 * i), fun _ => 0⟩

/-- `1:4294967295` is sector -1. -/
theorem abbrev_spec_negative :
    abbrevSpec [twoSectors] (ascii "1:4294967295") = .ok 0 (-1) (-1) ∧
      ¬ (abbrevSpec [twoSectors] (ascii "1:4294967295")).InRange [twoSectors] := by
  have hspec : abbrevSpec [twoSectors] (ascii "1:4294967295") = .ok 0 (-1) (-1) := by
    decide +kernel
  refine ⟨hspec, ?_⟩
  rw [hspec]
  rintro ⟨fp, -, -, h0, -⟩
  exact absurd h0 (by decide)

end UBoot.Flash
