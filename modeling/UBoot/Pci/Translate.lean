import Mathlib.Data.Set.Function
import UBoot.Lib.FirstMatch

/-!
# Addresses of the PCI bus and of the processor (`drivers/pci.c`)

A host bridge maps regions of the processor's address space to the bus. Both translations compare
with `bus_start + size`, which is 0 for a region that ends at the top of the 32-bit bus space, so
no address of such a region is found. Without one, they are inverse bijections between the
addresses of the regions of a type (`translates_iff`).
-/

namespace UBoot.Pci.Translate

open Lib

/-- `struct pci_region`, what the translations read of it. -/
structure Region where
  busStart : BitVec 32
  physStart : BitVec 32
  size : BitVec 32
  flags : BitVec 32

/-- The first `region_count` regions of a `struct pci_controller`. -/
structure Controller where
  regions : List Region

/-- What a translation returns, and what it has printed. -/
structure Answer where
  value : BitVec 32
  printed : Option String
  deriving DecidableEq

/-- `PCI_REGION_TYPE` -/
def regionType : BitVec 32 := 0x00000001

/-- The region is of the type that the flags ask for. -/
def Region.HasType (res : Region) (flags : BitVec 32) : Prop :=
  (res.flags ^^^ flags) &&& regionType = 0

instance (res : Region) (flags : BitVec 32) : Decidable (res.HasType flags) :=
  inferInstanceAs (Decidable (_ = _))

/-- The loop body of `pci_hose_phys_to_bus`. -/
def Region.physToBus (physAddr flags : BitVec 32) (res : Region) : Option (BitVec 32) :=
  if (res.flags ^^^ flags) &&& regionType ≠ 0 then none
  else
    let busAddr := physAddr - res.physStart + res.busStart
    if res.busStart ≤ busAddr ∧ busAddr < res.busStart + res.size then some busAddr else none

def pciHosePhysToBus (hose : Option Controller) (physAddr flags : BitVec 32) : Answer :=
  match hose with
  | none => ⟨0, some "pci_hose_phys_to_bus: invalid hose\n"⟩
  | some hose =>
    match hose.regions.findSome? (Region.physToBus physAddr flags) with
    | some busAddr => ⟨busAddr, none⟩
    | none => ⟨0, some "pci_hose_phys_to_bus: invalid physical address\n"⟩

/-- The loop body of `pci_hose_bus_to_phys`. -/
def Region.busToPhys (busAddr flags : BitVec 32) (res : Region) : Option (BitVec 32) :=
  if (res.flags ^^^ flags) &&& regionType ≠ 0 then none
  else if res.busStart ≤ busAddr ∧ busAddr < res.busStart + res.size then
    some (busAddr - res.busStart + res.physStart)
  else none

def pciHoseBusToPhys (hose : Option Controller) (busAddr flags : BitVec 32) : Answer :=
  match hose with
  | none => ⟨0, some "pci_hose_bus_to_phys: invalid hose\n"⟩
  | some hose =>
    match hose.regions.findSome? (Region.busToPhys busAddr flags) with
    | some physAddr => ⟨physAddr, none⟩
    | none => ⟨0, some "pci_hose_bus_to_phys: invalid physical address\n"⟩

/-! ## Regions as ranges -/

def Region.HasPhys (res : Region) (a : BitVec 32) : Prop :=
  res.physStart.toNat ≤ a.toNat ∧ a.toNat < res.physStart.toNat + res.size.toNat

def Region.HasBus (res : Region) (a : BitVec 32) : Prop :=
  res.busStart.toNat ≤ a.toNat ∧ a.toNat < res.busStart.toNat + res.size.toNat

/-- The region lies in both address spaces; it may end at their top. -/
structure Region.Fits (res : Region) : Prop where
  phys : res.physStart.toNat + res.size.toNat ≤ 2 ^ 32
  bus : res.busStart.toNat + res.size.toNat ≤ 2 ^ 32

def Controller.ofType (hose : Controller) (flags : BitVec 32) : List Region :=
  hose.regions.filter (·.HasType flags)

/-- The regions of a type lie in both address spaces and are pairwise disjoint there. -/
structure Controller.Disjoint (hose : Controller) (flags : BitVec 32) : Prop where
  fits : ∀ res ∈ hose.ofType flags, res.Fits
  phys : (hose.ofType flags).Pairwise fun r s => ∀ a, ¬ (r.HasPhys a ∧ s.HasPhys a)
  bus : (hose.ofType flags).Pairwise fun r s => ∀ a, ¬ (r.HasBus a ∧ s.HasBus a)

/-- The addresses of the regions of a type, for the processor. -/
def Controller.physAddrs (hose : Controller) (flags : BitVec 32) : Set (BitVec 32) :=
  {a | ∃ res ∈ hose.ofType flags, res.HasPhys a}

/-- The addresses of the regions of a type, on the bus. -/
def Controller.busAddrs (hose : Controller) (flags : BitVec 32) : Set (BitVec 32) :=
  {a | ∃ res ∈ hose.ofType flags, res.HasBus a}

/-- The translations of a type of regions: each offset of a region to the same offset, there and
back, everything else reported, and so a bijection. -/
structure Controller.Translates (hose : Controller) (flags : BitVec 32) : Prop where
  toBus : ∀ res ∈ hose.ofType flags, ∀ k, k < res.size →
    pciHosePhysToBus (some hose) (res.physStart + k) flags = ⟨res.busStart + k, none⟩
  toPhys : ∀ res ∈ hose.ofType flags, ∀ k, k < res.size →
    pciHoseBusToPhys (some hose) (res.busStart + k) flags = ⟨res.physStart + k, none⟩
  physInvalid : ∀ a ∉ hose.physAddrs flags, pciHosePhysToBus (some hose) a flags =
    ⟨0, some "pci_hose_phys_to_bus: invalid physical address\n"⟩
  busInvalid : ∀ a ∉ hose.busAddrs flags, pciHoseBusToPhys (some hose) a flags =
    ⟨0, some "pci_hose_bus_to_phys: invalid physical address\n"⟩
  bijOn : Set.BijOn (fun a => (pciHosePhysToBus (some hose) a flags).value)
    (hose.physAddrs flags) (hose.busAddrs flags)

section
variable {hose : Controller} {res r s : Region} {flags a b k : BitVec 32}

theorem Controller.mem_ofType :
    res ∈ hose.ofType flags ↔ res ∈ hose.regions ∧ res.HasType flags := by
  simp [ofType]

theorem Region.hasPhys_add (hfit : res.Fits) (hk : k < res.size) :
    res.HasPhys (res.physStart + k) := by
  have hphys := hfit.phys
  simp only [BitVec.lt_def] at hk
  simp only [HasPhys, BitVec.toNat_add]
  omega

theorem Region.hasBus_add (hfit : res.Fits) (hk : k < res.size) :
    res.HasBus (res.busStart + k) := by
  have hbus := hfit.bus
  simp only [BitVec.lt_def] at hk
  simp only [HasBus, BitVec.toNat_add]
  omega

theorem Region.HasPhys.exists_offset (h : res.HasPhys a) :
    ∃ k < res.size, a = res.physStart + k := by
  obtain ⟨hge, hlt⟩ := h
  refine ⟨a - res.physStart, ?_, by rw [BitVec.add_comm, BitVec.sub_add_cancel]⟩
  simp only [BitVec.lt_def, BitVec.toNat_sub]
  omega

theorem Region.HasBus.exists_offset (h : res.HasBus a) :
    ∃ k < res.size, a = res.busStart + k := by
  obtain ⟨hge, hlt⟩ := h
  refine ⟨a - res.busStart, ?_, by rw [BitVec.add_comm, BitVec.sub_add_cancel]⟩
  simp only [BitVec.lt_def, BitVec.toNat_sub]
  omega

theorem Region.hasType_of_physToBus (h : res.physToBus a flags = some b) : res.HasType flags := by
  simp only [physToBus, ne_eq, ite_not, Option.ite_none_right_eq_some] at h
  exact h.1

theorem Region.hasType_of_busToPhys (h : res.busToPhys a flags = some b) : res.HasType flags := by
  simp only [busToPhys, ne_eq, ite_not, Option.ite_none_right_eq_some] at h
  exact h.1

/-- In a region that does not end at the top of the bus space, the wrapping comparison after the
translation says that the address is one of the region's. -/
theorem Region.physToBus_eq_some_iff (hfit : res.Fits)
    (hend : res.busStart.toNat + res.size.toNat < 2 ^ 32) :
    res.physToBus a flags = some b ↔
      res.HasType flags ∧ res.HasPhys a ∧ b = a - res.physStart + res.busStart := by
  have hphys := hfit.phys
  have hin : (res.busStart ≤ a - res.physStart + res.busStart ∧
      a - res.physStart + res.busStart < res.busStart + res.size) ↔ res.HasPhys a := by
    simp only [HasPhys, BitVec.le_def, BitVec.lt_def, BitVec.toNat_add, BitVec.toNat_sub]
    omega
  simp only [physToBus, ne_eq, ite_not, Option.ite_none_right_eq_some, hin, Option.some.injEq]
  exact and_congr_right fun _ => and_congr_right fun _ => eq_comm

theorem Region.busToPhys_eq_some_iff (hend : res.busStart.toNat + res.size.toNat < 2 ^ 32) :
    res.busToPhys a flags = some b ↔
      res.HasType flags ∧ res.HasBus a ∧ b = a - res.busStart + res.physStart := by
  have hin : (res.busStart ≤ a ∧ a < res.busStart + res.size) ↔ res.HasBus a := by
    simp only [HasBus, BitVec.le_def, BitVec.lt_def, BitVec.toNat_add]
    omega
  simp only [busToPhys, ne_eq, ite_not, Option.ite_none_right_eq_some, hin, Option.some.injEq]
  exact and_congr_right fun _ => and_congr_right fun _ => eq_comm

theorem Region.physToBus_eq_none (hend : res.busStart.toNat + res.size.toNat = 2 ^ 32) :
    res.physToBus a flags = none := by
  have hzero : res.busStart + res.size = 0 := by
    apply BitVec.eq_of_toNat_eq
    rw [BitVec.toNat_add, hend]
    rfl
  rw [physToBus, hzero]
  simp

theorem Controller.Disjoint.eq_of_hasPhys (h : hose.Disjoint flags) (hr : r ∈ hose.ofType flags)
    (hs : s ∈ hose.ofType flags) (har : r.HasPhys a) (has : s.HasPhys a) : r = s := by
  by_contra hne
  have hsymm : Std.Symm fun r s : Region => ∀ a, ¬ (r.HasPhys a ∧ s.HasPhys a) :=
    ⟨fun _ _ hdis a ha => hdis a ha.symm⟩
  exact h.phys.forall hr hs hne a ⟨har, has⟩

theorem Controller.Disjoint.eq_of_hasBus (h : hose.Disjoint flags) (hr : r ∈ hose.ofType flags)
    (hs : s ∈ hose.ofType flags) (har : r.HasBus a) (has : s.HasBus a) : r = s := by
  by_contra hne
  have hsymm : Std.Symm fun r s : Region => ∀ a, ¬ (r.HasBus a ∧ s.HasBus a) :=
    ⟨fun _ _ hdis a ha => hdis a ha.symm⟩
  exact h.bus.forall hr hs hne a ⟨har, has⟩

/-- No region of the type ends at the top of the bus space. -/
def Controller.EndsBelowTop (hose : Controller) (flags : BitVec 32) : Prop :=
  ∀ res ∈ hose.ofType flags, res.busStart.toNat + res.size.toNat < 2 ^ 32

theorem physToBus_of_offset (h : hose.Disjoint flags) (hend : hose.EndsBelowTop flags)
    (hres : res ∈ hose.ofType flags) (hk : k < res.size) :
    pciHosePhysToBus (some hose) (res.physStart + k) flags = ⟨res.busStart + k, none⟩ := by
  have hmem := Controller.mem_ofType.mp hres
  have hhas := Region.hasPhys_add (h.fits res hres) hk
  have hhit : res.physToBus (res.physStart + k) flags = some (res.busStart + k) := by
    rw [Region.physToBus_eq_some_iff (h.fits res hres) (hend res hres),
      BitVec.add_comm res.physStart, BitVec.add_sub_cancel]
    exact ⟨hmem.2, BitVec.add_comm k _ ▸ hhas, BitVec.add_comm ..⟩
  have hfind : hose.regions.findSome? (Region.physToBus (res.physStart + k) flags) =
      some (res.busStart + k) := by
    refine findSome?_eq_some_of_agree hmem.1 hhit fun s hs c hc => ?_
    have hs' : s ∈ hose.ofType flags :=
      Controller.mem_ofType.mpr ⟨hs, Region.hasType_of_physToBus hc⟩
    obtain ⟨-, hhas', -⟩ := (Region.physToBus_eq_some_iff (h.fits s hs') (hend s hs')).mp hc
    rw [h.eq_of_hasPhys hs' hres hhas' hhas, hhit, Option.some.injEq] at hc
    exact hc.symm
  simp only [pciHosePhysToBus, hfind]

theorem busToPhys_of_offset (h : hose.Disjoint flags) (hend : hose.EndsBelowTop flags)
    (hres : res ∈ hose.ofType flags) (hk : k < res.size) :
    pciHoseBusToPhys (some hose) (res.busStart + k) flags = ⟨res.physStart + k, none⟩ := by
  have hmem := Controller.mem_ofType.mp hres
  have hhas := Region.hasBus_add (h.fits res hres) hk
  have hhit : res.busToPhys (res.busStart + k) flags = some (res.physStart + k) := by
    rw [Region.busToPhys_eq_some_iff (hend res hres), BitVec.add_comm res.busStart,
      BitVec.add_sub_cancel]
    exact ⟨hmem.2, BitVec.add_comm k _ ▸ hhas, BitVec.add_comm ..⟩
  have hfind : hose.regions.findSome? (Region.busToPhys (res.busStart + k) flags) =
      some (res.physStart + k) := by
    refine findSome?_eq_some_of_agree hmem.1 hhit fun s hs c hc => ?_
    have hs' : s ∈ hose.ofType flags :=
      Controller.mem_ofType.mpr ⟨hs, Region.hasType_of_busToPhys hc⟩
    obtain ⟨-, hhas', -⟩ := (Region.busToPhys_eq_some_iff (hend s hs')).mp hc
    rw [h.eq_of_hasBus hs' hres hhas' hhas, hhit, Option.some.injEq] at hc
    exact hc.symm
  simp only [pciHoseBusToPhys, hfind]

theorem physToBus_of_outside (h : hose.Disjoint flags) (hend : hose.EndsBelowTop flags)
    (ha : a ∉ hose.physAddrs flags) : pciHosePhysToBus (some hose) a flags =
      ⟨0, some "pci_hose_phys_to_bus: invalid physical address\n"⟩ := by
  have hfind : hose.regions.findSome? (Region.physToBus a flags) = none := by
    rw [List.findSome?_eq_none_iff]
    intro res hres
    rw [Option.eq_none_iff_forall_ne_some]
    intro b hb
    have hres' : res ∈ hose.ofType flags :=
      Controller.mem_ofType.mpr ⟨hres, Region.hasType_of_physToBus hb⟩
    exact ha ⟨res, hres',
      ((Region.physToBus_eq_some_iff (h.fits res hres') (hend res hres')).mp hb).2.1⟩
  simp only [pciHosePhysToBus, hfind]

theorem busToPhys_of_outside (hend : hose.EndsBelowTop flags) (ha : a ∉ hose.busAddrs flags) :
    pciHoseBusToPhys (some hose) a flags =
      ⟨0, some "pci_hose_bus_to_phys: invalid physical address\n"⟩ := by
  have hfind : hose.regions.findSome? (Region.busToPhys a flags) = none := by
    rw [List.findSome?_eq_none_iff]
    intro res hres
    rw [Option.eq_none_iff_forall_ne_some]
    intro b hb
    have hres' : res ∈ hose.ofType flags :=
      Controller.mem_ofType.mpr ⟨hres, Region.hasType_of_busToPhys hb⟩
    exact ha ⟨res, hres', ((Region.busToPhys_eq_some_iff (hend res hres')).mp hb).2.1⟩
  simp only [pciHoseBusToPhys, hfind]

theorem bijOn_physToBus (h : hose.Disjoint flags) (hend : hose.EndsBelowTop flags) :
    Set.BijOn (fun a => (pciHosePhysToBus (some hose) a flags).value)
      (hose.physAddrs flags) (hose.busAddrs flags) := by
  have hinv : Set.InvOn (fun a => (pciHoseBusToPhys (some hose) a flags).value)
      (fun a => (pciHosePhysToBus (some hose) a flags).value)
      (hose.physAddrs flags) (hose.busAddrs flags) := by
    constructor
    · rintro a ⟨res, hres, ha⟩
      obtain ⟨k, hk, rfl⟩ := ha.exists_offset
      simp only [physToBus_of_offset h hend hres hk, busToPhys_of_offset h hend hres hk]
    · rintro a ⟨res, hres, ha⟩
      obtain ⟨k, hk, rfl⟩ := ha.exists_offset
      simp only [physToBus_of_offset h hend hres hk, busToPhys_of_offset h hend hres hk]
  refine hinv.bijOn ?_ ?_
  · rintro a ⟨res, hres, ha⟩
    obtain ⟨k, hk, rfl⟩ := ha.exists_offset
    simp only [physToBus_of_offset h hend hres hk]
    exact ⟨res, hres, Region.hasBus_add (h.fits res hres) hk⟩
  · rintro a ⟨res, hres, ha⟩
    obtain ⟨k, hk, rfl⟩ := ha.exists_offset
    simp only [busToPhys_of_offset h hend hres hk]
    exact ⟨res, hres, Region.hasPhys_add (h.fits res hres) hk⟩

/-- The addresses of a region that ends at the top of the bus space are not found. -/
theorem physToBus_of_top (h : hose.Disjoint flags) (hres : res ∈ hose.ofType flags)
    (htop : res.busStart.toNat + res.size.toNat = 2 ^ 32) :
    pciHosePhysToBus (some hose) res.physStart flags =
      ⟨0, some "pci_hose_phys_to_bus: invalid physical address\n"⟩ := by
  have hhas : res.HasPhys res.physStart := ⟨le_rfl, by omega⟩
  have hfind : hose.regions.findSome? (Region.physToBus res.physStart flags) = none := by
    rw [List.findSome?_eq_none_iff]
    intro s hs
    rw [Option.eq_none_iff_forall_ne_some]
    intro b hb
    have hs' : s ∈ hose.ofType flags :=
      Controller.mem_ofType.mpr ⟨hs, Region.hasType_of_physToBus hb⟩
    rcases (h.fits s hs').bus.lt_or_eq with hbelow | htop'
    · obtain ⟨-, hhas', -⟩ := (Region.physToBus_eq_some_iff (h.fits s hs') hbelow).mp hb
      rw [h.eq_of_hasPhys hs' hres hhas' hhas] at hbelow
      omega
    · rw [Region.physToBus_eq_none htop'] at hb
      cases hb
  simp only [pciHosePhysToBus, hfind]

end

/-- The translations do what they are for exactly where no region of the type ends at the top of
the bus space. -/
theorem translates_iff (hose : Controller) (flags : BitVec 32) (h : hose.Disjoint flags) :
    hose.Translates flags ↔ hose.EndsBelowTop flags := by
  constructor
  · intro htrans res hres
    refine (h.fits res hres).bus.lt_of_ne fun htop => ?_
    have hsize : 0 < res.size := BitVec.lt_def.mpr (show 0 < res.size.toNat by omega)
    have hfound : pciHosePhysToBus (some hose) res.physStart flags = ⟨res.busStart, none⟩ := by
      simpa using htrans.toBus res hres 0 hsize
    rw [physToBus_of_top h hres htop] at hfound
    simp at hfound
  · exact fun hend =>
      { toBus := fun _ hres _ hk => physToBus_of_offset h hend hres hk
        toPhys := fun _ hres _ hk => busToPhys_of_offset h hend hres hk
        physInvalid := fun _ ha => physToBus_of_outside h hend ha
        busInvalid := fun _ ha => busToPhys_of_outside hend ha
        bijOn := bijOn_physToBus h hend }

/-- A bridge that shows the bus the processor's memory at 0 and the processor a window of the bus at
0x90000000, with an I/O region. -/
def twoWindows : Controller :=
  ⟨[⟨0, 0, 0x04000000, 0⟩, ⟨0x80000000, 0x90000000, 0x10000000, 0⟩, ⟨0, 0xe0000000, 0x10000, 1⟩]⟩

theorem twoWindows_ofType :
    twoWindows.ofType 0 = [⟨0, 0, 0x04000000, 0⟩, ⟨0x80000000, 0x90000000, 0x10000000, 0⟩] := rfl

theorem twoWindows_disjoint : twoWindows.Disjoint 0 where
  fits := by
    rw [twoWindows_ofType]
    simp only [List.forall_mem_cons, List.not_mem_nil, false_imp_iff, implies_true, and_true]
    exact ⟨⟨by decide, by decide⟩, by decide, by decide⟩
  phys := by
    rw [twoWindows_ofType]
    refine List.pairwise_pair.mpr fun a ⟨h₁, h₂⟩ => ?_
    have h := h₂.1.trans_lt h₁.2
    exact absurd h (by decide)
  bus := by
    rw [twoWindows_ofType]
    refine List.pairwise_pair.mpr fun a ⟨h₁, h₂⟩ => ?_
    have h := h₂.1.trans_lt h₁.2
    exact absurd h (by decide)

theorem translates_iff_windows : twoWindows.Translates 0 ∧
    pciHosePhysToBus (some twoWindows) 0x9abcdef0 0 = ⟨0x8abcdef0, none⟩ := by
  refine ⟨(translates_iff twoWindows 0 twoWindows_disjoint).mpr ?_, by decide⟩
  rw [Controller.EndsBelowTop, twoWindows_ofType]
  decide

/-- A bridge with one memory region, 256 MB up to the top of the bus space. -/
def topHose : Controller := ⟨[⟨0xf0000000, 0x80000000, 0x10000000, 0⟩]⟩

theorem topHose_disjoint : topHose.Disjoint 0 where
  fits := by
    simp only [topHose, Controller.ofType, List.mem_filter, List.mem_singleton]
    rintro res ⟨rfl, -⟩
    exact ⟨by decide, by decide⟩
  phys := (List.pairwise_singleton ..).filter _
  bus := (List.pairwise_singleton ..).filter _

theorem top_not_translates : topHose.Disjoint 0 ∧ ¬ topHose.Translates 0 ∧
    pciHosePhysToBus (some topHose) 0x80000000 0 =
      ⟨0, some "pci_hose_phys_to_bus: invalid physical address\n"⟩ := by
  have hlost : pciHosePhysToBus (some topHose) 0x80000000 0 =
      ⟨0, some "pci_hose_phys_to_bus: invalid physical address\n"⟩ := by decide
  refine ⟨topHose_disjoint, fun htrans => ?_, hlost⟩
  have hfound : pciHosePhysToBus (some topHose) 0x80000000 0 = ⟨0xf0000000, none⟩ :=
    htrans.toBus _ (Controller.mem_ofType.mpr ⟨List.mem_singleton_self _, by decide⟩) 0
      (by decide)
  rw [hlost] at hfound
  simp at hfound

end UBoot.Pci.Translate
