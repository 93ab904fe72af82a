import UBoot.Scsi.Command
import Mathlib.Data.List.DropRight

/-!
# Scanning the bus (`common/cmd_scsi.c`)

`scsi_scan` asks every target and unit for its identity, its readiness and its capacity. It fills
in the first free slot of the table while it does so, and moves on to the next slot only when the
device is accepted: `scanHeard` is what the slot and the table then hold. `scsi_scan_iff` says when
that is the table of the devices that answered.
-/

namespace UBoot.Scsi

open UBoot.Lib

/-- The numbers of a configuration. The counters of the loops are `unsigned char`s, and the table
is made for all units of all targets. -/
structure ScsiCfg where
  tempbuff : UInt32
  maxScsiId : ℕ
  maxLun : ℕ
  maxDevice : ℕ
  maxScsiId_le : maxScsiId ≤ 255
  maxLun_le : maxLun ≤ 255
  maxDevice_le : maxDevice ≤ 255
  enough : maxScsiId * maxLun ≤ maxDevice

/-- What `scsi_exec` returns, and the bytes that the device sent. -/
structure Answer where
  ok : Bool
  data : List UInt8

/-- The answers of the devices, by target, unit and operation code. -/
abbrev Bus := UInt8 → UInt8 → UInt8 → Answer

/-- The contents of `tempbuff`. -/
abbrev Buffer := ℕ → UInt8

/-- The bytes that were sent are written over what the buffer held. -/
def overlay (buf : Buffer) (data : List UInt8) : Buffer := fun i => data.getD i (buf i)

/-- `scsi_exec`, for a command that reads into `tempbuff`. -/
def scsiExec (bus : Bus) (p : Ccb) (buf : Buffer) : Bool × Buffer :=
  let a := bus p.target p.lun (p.cmd 0)
  (a.ok, overlay buf (a.data.take p.datalen.toNat))

/-- `scsi_ident_cpy`: without the blanks at both ends. -/
def scsiIdentCpy (src : List UInt8) : List UInt8 :=
  (src.dropWhile (· = 0x20)).rdropWhile (· = 0x20)

/-- `len` bytes of the buffer. -/
def Buffer.bytes (buf : Buffer) (start len : ℕ) : List UInt8 :=
  (List.range' start len).map buf

def DEV_TYPE_UNKNOWN : UInt8 := 0xff

def PART_TYPE_UNKNOWN : UInt8 := 0

def IF_TYPE_SCSI : ℕ := 2

/-- The reset value of entry `i`. -/
def resetDev (i : ℕ) : BlockDev where
  ifType := IF_TYPE_SCSI
  dev := i
  partType := PART_TYPE_UNKNOWN
  target := 0xff
  lun := 0xff
  type := DEV_TYPE_UNKNOWN
  lba := 0
  blksz := 0
  vendor := []
  product := []
  revision := []
  removable := false

/-- The state of a scan: the table, `scsi_max_devs`, `tempccb` and `tempbuff`. -/
structure Scan where
  table : List BlockDev
  maxDevs : ℕ
  ccb : Ccb
  tempbuff : Buffer

/-- The slot is filled, and the next one is free. -/
def Scan.accept (s : Scan) (p : Ccb) (buf : Buffer) (d : BlockDev) : Scan :=
  ⟨s.table.set s.maxDevs d, s.maxDevs + 1, p, buf⟩

/-- The slot stays the free one, with what was written there. -/
def Scan.reject (s : Scan) (p : Ccb) (buf : Buffer) (d : BlockDev) : Scan :=
  ⟨s.table.set s.maxDevs d, s.maxDevs, p, buf⟩

/-- What the answer to `INQUIRY` puts in the slot. -/
def identify (d : BlockDev) (target lun : UInt8) (buf : Buffer) : BlockDev :=
  { d with
    removable := if buf 1 &&& 0x80 = 0x80 then true else d.removable
    vendor := scsiIdentCpy (buf.bytes 8 8)
    product := scsiIdentCpy (buf.bytes 16 16)
    revision := scsiIdentCpy (buf.bytes 32 4)
    target := target
    lun := lun }

/-- `init_part`, by the partition type that is found on the device. -/
def initPart (partOf : BlockDev → Option UInt8) (d : BlockDev) : BlockDev :=
  { d with partType := (partOf d).getD d.partType }

/-- What the answer to `READ CAPACITY` puts in the slot. -/
def setCapacity (d : BlockDev) (perq : UInt8) (buf : Buffer) : BlockDev :=
  { d with lba := beWord (buf.bytes 0 4), blksz := beWord (buf.bytes 4 4), type := perq }

/-- The commands after `INQUIRY`, for a device in slot `d`. -/
def probe (bus : Bus) (partOf : BlockDev → Option UInt8) (s : Scan) (perq : UInt8)
    (d : BlockDev) : Scan :=
  let p := scsiSetupTestUnitReady { s.ccb with datalen := 0 }
  let r := scsiExec bus p s.tempbuff
  if r.1 = false then
    if d.removable = true then s.accept p r.2 { d with type := perq } else s.reject p r.2 d
  else
    let p := scsiSetupReadCapacity { p with datalen := 8 }
    let r := scsiExec bus p r.2
    if r.1 = false then s.reject p r.2 d
    else s.accept p r.2 (initPart partOf (setCapacity d perq r.2))

/-- One turn of the loops; `none` is an access beyond the table. -/
def scanUnit (cfg : ScsiCfg) (bus : Bus) (partOf : BlockDev → Option UInt8) (s : Scan)
    (i lun : UInt8) : Option Scan :=
  let p := scsiSetupInquiry
    { s.ccb with target := i, lun := lun, pdata := cfg.tempbuff, datalen := 512 }
  let r := scsiExec bus p s.tempbuff
  let s := { s with ccb := p, tempbuff := r.2 }
  if r.1 = false then some s
  else if r.2 0 &&& 0x1f = 0x1f then some s
  else s.table[s.maxDevs]?.map fun d => probe bus partOf s (r.2 0) (identify d p.target p.lun r.2)

/-- The targets and units, in the order of the loops. -/
def ScsiCfg.units (cfg : ScsiCfg) : List (UInt8 × UInt8) :=
  (List.range cfg.maxScsiId).flatMap fun i =>
    (List.range cfg.maxLun).map fun lun => (UInt8.ofNat i, UInt8.ofNat lun)

def scanUnits (cfg : ScsiCfg) (bus : Bus) (partOf : BlockDev → Option UInt8) :
    List (UInt8 × UInt8) → Scan → Option Scan
  | [], s => some s
  | u :: us, s => (scanUnit cfg bus partOf s u.1 u.2).bind (scanUnits cfg bus partOf us)

/-- `scsi_scan`, and `scsi_curr_dev` after it. -/
def scsiScan (cfg : ScsiCfg) (bus : Bus) (partOf : BlockDev → Option UInt8) (tempccb : Ccb)
    (tempbuff : Buffer) : Option (Scan × ℤ) :=
  (scanUnits cfg bus partOf cfg.units
    ⟨(List.range cfg.maxDevice).map resetDev, 0, tempccb, tempbuff⟩).map fun s =>
      (s, if 0 < s.maxDevs then 0 else -1)

/-! ## What the devices answer -/

/-- The answers of one unit: the results of the three commands, how many bytes were sent, and what
`tempbuff` holds then. -/
structure Heard where
  target : UInt8
  lun : UInt8
  inquiry : Bool
  inqLen : ℕ
  inqBuf : Buffer
  ready : Bool
  capacity : Bool
  capLen : ℕ
  capBuf : Buffer

/-- The answers of a unit, when `tempbuff` holds `buf`. -/
def hear (bus : Bus) (buf : Buffer) (target lun : UInt8) : Heard :=
  let inq := bus target lun SCSI_INQUIRY
  let cap := bus target lun SCSI_RD_CAPAC
  let inqBuf := overlay buf (inq.data.take 512)
  ⟨target, lun, inq.ok, inq.data.length, inqBuf, (bus target lun SCSI_TST_U_RDY).ok, cap.ok,
    cap.data.length, overlay inqBuf (cap.data.take 8)⟩

namespace Heard

variable (h : Heard)

def type : UInt8 := h.inqBuf 0

/-- There is a device, of a type that is known. -/
def Known : Prop := h.inquiry = true ∧ h.type &&& 0x1f ≠ 0x1f

def Removable : Prop := h.inqBuf 1 &&& 0x80 = 0x80

def Checked : Prop := h.ready = true ∧ h.capacity = true

def Present : Prop := h.Known ∧ (h.Removable ∨ h.Checked)

instance : Decidable h.Known := inferInstanceAs (Decidable (_ ∧ _))

instance : Decidable h.Removable := inferInstanceAs (Decidable (_ = _))

instance : Decidable h.Checked := inferInstanceAs (Decidable (_ ∧ _))

instance : Decidable h.Present := inferInstanceAs (Decidable (_ ∧ _))

/-- What `tempbuff` holds after the unit. -/
def after : Buffer := if h.Known ∧ h.ready = true then h.capBuf else h.inqBuf

/-- All bytes that are looked at were sent by the device. -/
def Whole : Prop := 36 ≤ h.inqLen ∧ (h.Checked → 8 ≤ h.capLen)

/-- The entry of the device, in place `n`. -/
def entry (partOf : BlockDev → Option UInt8) (n : ℕ) : BlockDev :=
  let d : BlockDev :=
    { resetDev n with
      target := h.target
      lun := h.lun
      type := h.type
      vendor := scsiIdentCpy (h.inqBuf.bytes 8 8)
      product := scsiIdentCpy (h.inqBuf.bytes 16 16)
      revision := scsiIdentCpy (h.inqBuf.bytes 32 4)
      removable := decide h.Removable }
  if h.Checked then
    initPart partOf
      { d with lba := beWord (h.capBuf.bytes 0 4), blksz := beWord (h.capBuf.bytes 4 4) }
  else d

end Heard

/-- The answers of the units, one after the other. -/
def heard (bus : Bus) : Buffer → List (UInt8 × UInt8) → List Heard
  | _, [] => []
  | buf, u :: us => hear bus buf u.1 u.2 :: heard bus (hear bus buf u.1 u.2).after us

/-- The table of the devices that are present, each from its own answers, and reset entries. -/
structure Faithful (cfg : ScsiCfg) (partOf : BlockDev → Option UInt8) (hs : List Heard)
    (s : Scan) : Prop where
  devs : s.maxDevs ≤ cfg.maxDevice
  size : s.table.length = cfg.maxDevice
  entries : s.table.take s.maxDevs =
    (hs.filter fun h => h.Present).mapIdx fun n h => h.entry partOf n
  own : ∀ h ∈ hs, h.Present → h.Whole
  rest : ∀ n, s.maxDevs ≤ n → n < cfg.maxDevice → s.table[n]? = some (resetDev n)

/-! ## What the scan does with the answers -/

/-- The entry that a known device becomes, when the slot holds `d`. -/
def Heard.takes (h : Heard) (partOf : BlockDev → Option UInt8) (d : BlockDev) :
    Option BlockDev :=
  if h.ready = true then
    if h.capacity = true then some (initPart partOf (setCapacity d h.type h.capBuf)) else none
  else if d.removable = true then some { d with type := h.type } else none

/-- The entries from place `n` on, when the slot there holds `d`, and what the slot holds at the
end. -/
def scanHeard (partOf : BlockDev → Option UInt8) :
    ℕ → BlockDev → List Heard → List BlockDev × BlockDev
  | _, d, [] => ([], d)
  | n, d, h :: hs =>
    if h.Known then
      let d := identify d h.target h.lun h.inqBuf
      match h.takes partOf d with
      | some e =>
        let r := scanHeard partOf (n + 1) (resetDev (n + 1)) hs
        (e :: r.1, r.2)
      | none => scanHeard partOf n d hs
    else scanHeard partOf n d hs

/-- The part of the table from place `n` on that is not in use, with `d` in its first slot. -/
def freeSlots (n : ℕ) (d : BlockDev) : ℕ → List BlockDev
  | 0 => []
  | k + 1 => d :: (List.range' (n + 1) k).map resetDev

variable {cfg : ScsiCfg} {bus : Bus} {partOf : BlockDev → Option UInt8} {s : Scan} {n k : ℕ}
  {d : BlockDev} {h : Heard} {hs : List Heard} {es : List BlockDev} {i lun : UInt8}
  {us : List (UInt8 × UInt8)}

theorem freeSlots_reset : freeSlots n (resetDev n) k = (List.range' n k).map resetDev := by
  cases k <;> rfl

theorem exec_inquiry (p : Ccb) (addr : UInt32) (buf : Buffer) :
    scsiExec bus (scsiSetupInquiry
        { p with target := i, lun := lun, pdata := addr, datalen := 512 }) buf =
      ((hear bus buf i lun).inquiry, (hear bus buf i lun).inqBuf) := rfl

variable (cfg partOf) in
theorem scanUnit_unknown (hh : ¬ (hear bus s.tempbuff i lun).Known) : ∃ p,
    scanUnit cfg bus partOf s i lun =
      some ⟨s.table, s.maxDevs, p, (hear bus s.tempbuff i lun).after⟩ := by
  have hafter : (hear bus s.tempbuff i lun).after = (hear bus s.tempbuff i lun).inqBuf :=
    if_neg fun h => hh h.1
  rw [scanUnit, exec_inquiry, hafter]
  dsimp only
  by_cases hok : (hear bus s.tempbuff i lun).inquiry = false
  · rw [if_pos hok]
    exact ⟨_, rfl⟩
  · have htype : (hear bus s.tempbuff i lun).inqBuf 0 &&& 0x1f = 0x1f := by
      by_contra hne
      exact hh ⟨Bool.eq_true_of_not_eq_false hok, hne⟩
    rw [if_neg hok, if_pos htype]
    exact ⟨_, rfl⟩

variable (partOf) in
/-- The commands after `INQUIRY`: the slot moves on, or it is kept. -/
theorem probe_heard {p : Ccb} {t : List BlockDev} {buf : Buffer} (htarget : p.target = i)
    (hlun : p.lun = lun) (hh : (hear bus buf i lun).Known) (d : BlockDev) : ∃ p',
    probe bus partOf ⟨t, n, p, (hear bus buf i lun).inqBuf⟩ (hear bus buf i lun).type d =
      match (hear bus buf i lun).takes partOf d with
      | some e => ⟨t.set n e, n + 1, p', (hear bus buf i lun).after⟩
      | none => ⟨t.set n d, n, p', (hear bus buf i lun).after⟩ := by
  subst htarget hlun
  have hexec : scsiExec bus (scsiSetupTestUnitReady { p with datalen := 0 })
      (hear bus buf p.target p.lun).inqBuf =
      ((hear bus buf p.target p.lun).ready, (hear bus buf p.target p.lun).inqBuf) := rfl
  have hcap : scsiExec bus (scsiSetupReadCapacity
      { scsiSetupTestUnitReady { p with datalen := 0 } with datalen := 8 })
      (hear bus buf p.target p.lun).inqBuf =
      ((hear bus buf p.target p.lun).capacity, (hear bus buf p.target p.lun).capBuf) := rfl
  rw [probe]
  dsimp only
  rw [hexec]
  dsimp only
  rw [hcap, Heard.takes, Heard.after]
  generalize hear bus buf p.target p.lun = h at *
  cases hready : h.ready with
  | false =>
    simp only [Bool.false_eq_true, and_false, reduceIte]
    by_cases hd : d.removable = true
    · simp only [hd]
      exact ⟨_, rfl⟩
    · simp only [hd]
      exact ⟨_, rfl⟩
  | true =>
    simp only [Bool.true_eq_false, hh, and_self, reduceIte]
    cases hcap' : h.capacity with
    | true => exact ⟨_, rfl⟩
    | false => exact ⟨_, rfl⟩

variable (cfg partOf) in
theorem scanUnit_known (hh : (hear bus s.tempbuff i lun).Known)
    (hd : s.table[s.maxDevs]? = some d) : ∃ p,
    scanUnit cfg bus partOf s i lun = some
      (match (hear bus s.tempbuff i lun).takes partOf
          (identify d i lun (hear bus s.tempbuff i lun).inqBuf) with
      | some e => ⟨s.table.set s.maxDevs e, s.maxDevs + 1, p, (hear bus s.tempbuff i lun).after⟩
      | none => ⟨s.table.set s.maxDevs (identify d i lun (hear bus s.tempbuff i lun).inqBuf),
          s.maxDevs, p, (hear bus s.tempbuff i lun).after⟩) := by
  have hok : ¬ (hear bus s.tempbuff i lun).inquiry = false := by
    rw [hh.1]
    exact Bool.false_ne_true.symm
  have htype : ¬ (hear bus s.tempbuff i lun).inqBuf 0 &&& 0x1f = 0x1f := hh.2
  rw [scanUnit, exec_inquiry]
  dsimp only
  rw [if_neg hok, if_neg htype, hd, Option.map_some]
  obtain ⟨p', hp'⟩ := probe_heard partOf (t := s.table) (n := s.maxDevs)
    (p := scsiSetupInquiry
      { s.ccb with target := i, lun := lun, pdata := cfg.tempbuff, datalen := 512 })
    rfl rfl hh (identify d i lun (hear bus s.tempbuff i lun).inqBuf)
  exact ⟨p', congrArg some hp'⟩

theorem freeSlots_set (hd : s.table = es ++ freeSlots s.maxDevs d (k + 1))
    (hdevs : s.maxDevs = es.length) : s.table[s.maxDevs]? = some d ∧
      (∀ e, s.table.set s.maxDevs e = es ++ freeSlots s.maxDevs e (k + 1)) := by
  rw [hd, hdevs, freeSlots]
  refine ⟨by rw [List.getElem?_append_right (le_refl _), Nat.sub_self]; rfl, fun e => ?_⟩
  rw [List.set_append_right _ _ (le_refl _), Nat.sub_self, List.set_cons_zero]
  rfl

variable (cfg bus partOf s k d es us) in
theorem scanUnits_heard (hus : us.length ≤ k) (htable : s.table = es ++ freeSlots s.maxDevs d k)
    (hdevs : s.maxDevs = es.length) : ∃ s', scanUnits cfg bus partOf us s = some s' ∧
    s'.maxDevs = es.length + (scanHeard partOf es.length d (heard bus s.tempbuff us)).1.length ∧
    s'.table = es ++ (scanHeard partOf es.length d (heard bus s.tempbuff us)).1 ++
      freeSlots s'.maxDevs (scanHeard partOf es.length d (heard bus s.tempbuff us)).2
        (k - (scanHeard partOf es.length d (heard bus s.tempbuff us)).1.length) := by
  induction us generalizing k s d es with
  | nil => exact ⟨s, rfl, hdevs, by rw [htable]; simp [heard, scanHeard]⟩
  | cons u us ih =>
    obtain ⟨k, rfl⟩ : ∃ j, k = j + 1 := Nat.exists_eq_add_one.mpr (by simp at hus; omega)
    have hlen : us.length ≤ k := by simpa using hus
    obtain ⟨hd, hset⟩ := freeSlots_set htable hdevs
    rw [scanUnits, heard, scanHeard]
    by_cases hh : (hear bus s.tempbuff u.1 u.2).Known
    · obtain ⟨p, hscan⟩ := scanUnit_known cfg partOf hh hd
      rw [hscan, if_pos hh]
      dsimp only
      have htarget : (hear bus s.tempbuff u.1 u.2).target = u.1 := rfl
      have hlun : (hear bus s.tempbuff u.1 u.2).lun = u.2 := rfl
      rw [htarget, hlun]
      generalize hear bus s.tempbuff u.1 u.2 = h at *
      cases htakes : h.takes partOf (identify d u.1 u.2 h.inqBuf) with
      | some e =>
        rw [Option.bind_some]
        dsimp only
        rw [hset]
        obtain ⟨s', hs', hdevs', htable'⟩ := ih
          ⟨es ++ freeSlots s.maxDevs e (k + 1), s.maxDevs + 1, p, h.after⟩ k
          (resetDev (s.maxDevs + 1)) (es ++ [e]) hlen
          (by rw [freeSlots_reset, List.append_assoc]; rfl)
          (by rw [hdevs, List.length_append, List.length_singleton])
        rw [List.length_append, List.length_singleton] at hdevs' htable'
        rw [hdevs] at hs' hdevs' htable'
        dsimp only at hdevs' htable' ⊢
        rw [← hdevs] at hs'
        refine ⟨s', hs', by rw [hdevs', List.length_cons]; omega, ?_⟩
        rw [htable', List.length_cons, Nat.add_sub_add_right, List.append_assoc, List.append_assoc,
          List.append_assoc]
        rfl
      | none =>
        rw [Option.bind_some]
        dsimp only
        rw [hset]
        obtain ⟨s', hs', hdevs', htable'⟩ := ih
          ⟨es ++ freeSlots s.maxDevs (identify d u.1 u.2 h.inqBuf) (k + 1), s.maxDevs, p, h.after⟩
          (k + 1) (identify d u.1 u.2 h.inqBuf) es (by omega) rfl hdevs
        exact ⟨s', hs', hdevs', htable'⟩
    · obtain ⟨p, hscan⟩ := scanUnit_unknown cfg partOf hh
      rw [hscan, if_neg hh, Option.bind_some]
      obtain ⟨s', hs', hdevs', htable'⟩ := ih
        ⟨s.table, s.maxDevs, p, (hear bus s.tempbuff u.1 u.2).after⟩ (k + 1) d es (by omega) htable
        hdevs
      exact ⟨s', hs', hdevs', htable'⟩

/-! ## When the table is right -/

/-- A removable device that is ready tells its capacity. -/
def NoLoss (hs : List Heard) : Prop :=
  ∀ h ∈ hs, h.Known → h.Removable → h.ready = true → h.capacity = true

/-- A known device that is left out is followed by one that is present. -/
def Followed : List Heard → Prop
  | [] => True
  | h :: hs => (h.Known → ¬ h.Present → ∃ h' ∈ hs, h'.Present) ∧ Followed hs

/-- At most the identity of a device that is not removable was written to the slot. -/
def Slot (n : ℕ) (d : BlockDev) : Prop :=
  d = { resetDev n with
    target := d.target, lun := d.lun, vendor := d.vendor, product := d.product,
    revision := d.revision }

theorem identify_slot (hd : Slot n d) : identify d h.target h.lun h.inqBuf =
    { resetDev n with
      target := h.target
      lun := h.lun
      vendor := scsiIdentCpy (h.inqBuf.bytes 8 8)
      product := scsiIdentCpy (h.inqBuf.bytes 16 16)
      revision := scsiIdentCpy (h.inqBuf.bytes 32 4)
      removable := decide h.Removable } := by
  have hremovable : (if h.inqBuf 1 &&& 0x80 = 0x80 then true else d.removable) =
      decide h.Removable := by
    by_cases hr : h.Removable
    · rw [decide_eq_true hr]
      exact if_pos hr
    · rw [decide_eq_false hr, hd]
      exact if_neg hr
  rw [identify, hremovable, hd]

theorem slot_reset : Slot n (resetDev n) := rfl

theorem slot_identify (hd : Slot n d) (hr : ¬ h.Removable) :
    Slot n (identify d h.target h.lun h.inqBuf) := by
  rw [identify_slot hd, decide_eq_false hr]
  rfl

/-- From a slot without traces of a removable device the entry is the device's own. -/
theorem takes_slot (hd : Slot n d) (hh : h.Known)
    (hloss : h.Removable → h.ready = true → h.capacity = true) :
    h.takes partOf (identify d h.target h.lun h.inqBuf) =
      if h.Present then some (h.entry partOf n) else none := by
  rw [identify_slot hd, Heard.takes, Heard.entry]
  by_cases hready : h.ready = true
  · rw [if_pos hready]
    by_cases hcap : h.capacity = true
    · have hchecked : h.Checked := ⟨hready, hcap⟩
      rw [if_pos hcap, if_pos ⟨hh, .inr hchecked⟩, if_pos hchecked]
      rfl
    · have hnot : ¬ h.Present := fun hp =>
        hp.2.elim (fun hr => hcap (hloss hr hready)) fun hc => hcap hc.2
      rw [if_neg hcap, if_neg hnot]
  · have hchecked : ¬ h.Checked := fun hc => hready hc.1
    rw [if_neg hready, if_neg hchecked]
    by_cases hr : h.Removable
    · rw [if_pos (decide_eq_true hr), if_pos ⟨hh, .inl hr⟩]
    · rw [if_neg fun hd => hr (of_decide_eq_true hd), if_neg fun hp => hp.2.elim hr hchecked]

theorem takes_none (hready : h.ready = true) (hcap : h.capacity = false) :
    h.takes partOf d = none := by
  rw [Heard.takes, if_pos hready, hcap, if_neg Bool.false_ne_true]

theorem takes_unit {e : BlockDev} (ht : h.takes partOf d = some e) :
    e.target = d.target ∧ e.lun = d.lun := by
  unfold Heard.takes at ht
  split_ifs at ht <;> cases ht <;> exact ⟨rfl, rfl⟩

theorem scanHeard_unit {e : BlockDev} (he : e ∈ (scanHeard partOf n d hs).1) :
    ∃ h ∈ hs, e.target = h.target ∧ e.lun = h.lun ∧ (h.ready = true → h.capacity = true) := by
  induction hs generalizing n d with
  | nil => cases he
  | cons h hs ih =>
    have htail {m : ℕ} {d' : BlockDev} (he : e ∈ (scanHeard partOf m d' hs).1) :
        ∃ h' ∈ h :: hs, e.target = h'.target ∧ e.lun = h'.lun ∧
          (h'.ready = true → h'.capacity = true) := by
      obtain ⟨h', hmem, hrest⟩ := ih he
      exact ⟨h', List.mem_cons_of_mem _ hmem, hrest⟩
    rw [scanHeard] at he
    by_cases hh : h.Known
    · rw [if_pos hh] at he
      dsimp only at he
      cases ht : h.takes partOf (identify d h.target h.lun h.inqBuf) with
      | none =>
        rw [ht] at he
        exact htail he
      | some e' =>
        rw [ht] at he
        obtain rfl | he := List.mem_cons.mp he
        · obtain ⟨htarget, hlun⟩ := takes_unit ht
          refine ⟨h, List.mem_cons_self .., htarget, hlun, fun hready => ?_⟩
          by_contra hcap
          rw [takes_none hready (Bool.eq_false_of_not_eq_true hcap)] at ht
          cases ht
        · exact htail he
    · rw [if_neg hh] at he
      exact htail he

theorem NoLoss.tail (hloss : NoLoss (h :: hs)) : NoLoss hs :=
  fun h' hmem => hloss h' (List.mem_cons_of_mem _ hmem)

theorem not_removable (hh : h.Known) (hp : ¬ h.Present) : ¬ h.Removable :=
  fun hr => hp ⟨hh, .inl hr⟩

/-- A step, when no removable device is lost. -/
theorem scanHeard_cons (hd : Slot n d) (hloss : NoLoss (h :: hs)) :
    scanHeard partOf n d (h :: hs) =
      if h.Present then
        (h.entry partOf n :: (scanHeard partOf (n + 1) (resetDev (n + 1)) hs).1,
          (scanHeard partOf (n + 1) (resetDev (n + 1)) hs).2)
      else if h.Known then scanHeard partOf n (identify d h.target h.lun h.inqBuf) hs
      else scanHeard partOf n d hs := by
  rw [scanHeard]
  by_cases hh : h.Known
  · rw [if_pos hh, if_pos hh]
    dsimp only
    rw [takes_slot hd hh (hloss h (List.mem_cons_self ..) hh)]
    by_cases hp : h.Present
    · rw [if_pos hp, if_pos hp]
    · rw [if_neg hp, if_neg hp]
  · rw [if_neg hh, if_neg hh, if_neg fun hp => hh hp.1]

variable (partOf) in
theorem scanHeard_entries (hd : Slot n d) (hloss : NoLoss hs) :
    (scanHeard partOf n d hs).1 =
      (hs.filter fun h => h.Present).mapIdx fun i h => h.entry partOf (n + i) := by
  induction hs generalizing n d with
  | nil => rfl
  | cons h hs ih =>
    rw [scanHeard_cons hd hloss]
    by_cases hp : h.Present
    · rw [if_pos hp, List.filter_cons, if_pos (decide_eq_true hp), List.mapIdx_cons,
        ih slot_reset hloss.tail]
      simp only [Nat.add_zero, Nat.add_assoc, Nat.add_comm 1]
    · rw [if_neg hp, List.filter_cons, if_neg fun h => hp (of_decide_eq_true h)]
      by_cases hh : h.Known
      · rw [if_pos hh]
        exact ih (slot_identify hd (not_removable hh hp)) hloss.tail
      · rw [if_neg hh]
        exact ih hd hloss.tail

variable (partOf) in
theorem scanHeard_slot (hd : Slot n d) (hloss : NoLoss hs) (htarget : ∀ h ∈ hs, h.target ≠ 0xff) :
    (scanHeard partOf n d hs).2 = resetDev (n + (scanHeard partOf n d hs).1.length) ↔
      Followed hs ∧ (d = resetDev n ∨ ∃ h ∈ hs, h.Present) := by
  induction hs generalizing n d with
  | nil => simp [scanHeard, Followed]
  | cons h hs ih =>
    have htarget' : ∀ h' ∈ hs, h'.target ≠ 0xff :=
      fun h' hmem => htarget h' (List.mem_cons_of_mem _ hmem)
    rw [scanHeard_cons hd hloss, Followed]
    simp only [List.mem_cons, exists_eq_or_imp]
    by_cases hp : h.Present
    · have hnext := ih (n := n + 1) (d := resetDev (n + 1)) slot_reset hloss.tail htarget'
      rw [Nat.add_right_comm] at hnext
      rw [if_pos hp, List.length_cons, ← Nat.add_assoc, hnext]
      simp [hp]
    · rw [if_neg hp]
      by_cases hh : h.Known
      · have hne : identify d h.target h.lun h.inqBuf ≠ resetDev n := fun heq =>
          htarget h (List.mem_cons_self ..) (congrArg BlockDev.target heq)
        rw [if_pos hh, ih (slot_identify hd (not_removable hh hp)) hloss.tail htarget']
        simp only [hne, hh, hp, false_or, not_false_iff, true_implies]
        tauto
      · rw [if_neg hh, ih hd hloss.tail htarget']
        simp only [hh, hp, false_or, false_implies, true_and]

/-! ## The units -/

theorem units_nodup (cfg : ScsiCfg) : cfg.units.Nodup := by
  have hids := cfg.maxScsiId_le
  have hluns := cfg.maxLun_le
  have hinj {m a b : ℕ} (hm : m ≤ 255) (ha : a ∈ List.range m) (hb : b ∈ List.range m)
      (heq : UInt8.ofNat a = UInt8.ofNat b) : a = b := by
    have hnat := congrArg UInt8.toNat heq
    rw [List.mem_range] at ha hb
    rwa [UInt8.toNat_ofNat', UInt8.toNat_ofNat', Nat.mod_eq_of_lt (by omega),
      Nat.mod_eq_of_lt (by omega)] at hnat
  rw [ScsiCfg.units, List.nodup_flatMap]
  refine ⟨fun a _ => ?_, ?_⟩
  · exact List.Nodup.map_on (fun x hx y hy heq => hinj hluns hx hy (congrArg Prod.snd heq))
      List.nodup_range
  · refine List.nodup_range.imp_of_mem fun {a b} ha hb hne u hua hub => ?_
    obtain ⟨x, -, rfl⟩ := List.mem_map.mp hua
    obtain ⟨y, -, heq⟩ := List.mem_map.mp hub
    exact hne (hinj hids ha hb (congrArg Prod.fst heq).symm)

theorem units_length (cfg : ScsiCfg) : cfg.units.length = cfg.maxScsiId * cfg.maxLun := by
  simp [ScsiCfg.units, List.length_flatMap]

theorem units_target {u : UInt8 × UInt8} (hu : u ∈ cfg.units) : u.1 ≠ 0xff := by
  have hids := cfg.maxScsiId_le
  obtain ⟨a, ha, hu⟩ := List.mem_flatMap.mp hu
  obtain ⟨b, -, rfl⟩ := List.mem_map.mp hu
  rw [List.mem_range] at ha
  intro heq
  have hnat : (UInt8.ofNat a).toNat = 255 := congrArg UInt8.toNat heq
  rw [UInt8.toNat_ofNat', Nat.mod_eq_of_lt (by omega)] at hnat
  omega

variable (bus) in
theorem heard_units (buf : Buffer) (us : List (UInt8 × UInt8)) :
    (heard bus buf us).map (fun h => (h.target, h.lun)) = us := by
  induction us generalizing buf with
  | nil => rfl
  | cons u us ih => rw [heard, List.map_cons, ih]; rfl

theorem heard_length (buf : Buffer) (us : List (UInt8 × UInt8)) :
    (heard bus buf us).length = us.length := by
  rw [← List.length_map (fun h : Heard => (h.target, h.lun)), heard_units]

theorem heard_inj {buf : Buffer} {h h' : Heard} (hh : h ∈ heard bus buf cfg.units)
    (hh' : h' ∈ heard bus buf cfg.units) (ht : h.target = h'.target) (hl : h.lun = h'.lun) :
    h = h' := by
  have hnodup : ((heard bus buf cfg.units).map fun h => (h.target, h.lun)).Nodup := by
    rw [heard_units]
    exact units_nodup cfg
  exact List.inj_on_of_nodup_map hnodup hh hh' (Prod.ext ht hl)

/-! ## The whole scan -/

variable (cfg bus partOf) in
theorem scsiScan_heard (tempccb : Ccb) (tempbuff : Buffer) :
    ∃ s cur, scsiScan cfg bus partOf tempccb tempbuff = some (s, cur) ∧
      s.maxDevs = (scanHeard partOf 0 (resetDev 0) (heard bus tempbuff cfg.units)).1.length ∧
      s.table = (scanHeard partOf 0 (resetDev 0) (heard bus tempbuff cfg.units)).1 ++
        freeSlots s.maxDevs (scanHeard partOf 0 (resetDev 0) (heard bus tempbuff cfg.units)).2
          (cfg.maxDevice - s.maxDevs) := by
  obtain ⟨s, hs, hdevs, htable⟩ := scanUnits_heard cfg bus partOf
    ⟨(List.range cfg.maxDevice).map resetDev, 0, tempccb, tempbuff⟩ cfg.maxDevice (resetDev 0) []
    cfg.units
    (units_length cfg ▸ cfg.enough)
    (by rw [freeSlots_reset, List.range_eq_range']; rfl) rfl
  rw [List.length_nil, Nat.zero_add] at hdevs
  refine ⟨s, _, by rw [scsiScan, hs]; rfl, hdevs, ?_⟩
  rw [htable, hdevs]
  rfl

theorem Followed.of_present (hp : ∀ h ∈ hs, h.Present) : Followed hs := by
  induction hs with
  | nil => trivial
  | cons h hs ih =>
    exact ⟨fun _ hnot => absurd (hp h (List.mem_cons_self ..)) hnot,
      ih fun h' hmem => hp h' (List.mem_cons_of_mem _ hmem)⟩

theorem entry_unit : (h.entry partOf n).target = h.target ∧ (h.entry partOf n).lun = h.lun := by
  unfold Heard.entry
  split_ifs <;> exact ⟨rfl, rfl⟩

@[simp] theorem freeSlots_length : (freeSlots n d k).length = k := by
  cases k with
  | zero => rfl
  | succ k => rw [freeSlots, List.length_cons, List.length_map, List.length_range']

theorem noLoss_of_entries
    (hentries : (scanHeard partOf n d hs).1 =
      (hs.filter fun h => h.Present).mapIdx fun i h => h.entry partOf i)
    (hinj : ∀ h ∈ hs, ∀ h' ∈ hs, h.target = h'.target → h.lun = h'.lun → h = h') :
    NoLoss hs := fun h hmem hh hr hready => by
  have hpresent : h ∈ hs.filter fun h => h.Present :=
    List.mem_filter.mpr ⟨hmem, decide_eq_true ⟨hh, .inl hr⟩⟩
  obtain ⟨i, hi, rfl⟩ := List.getElem_of_mem hpresent
  have he : Heard.entry _ partOf i ∈ (scanHeard partOf n d hs).1 :=
    hentries ▸ List.mem_mapIdx.mpr ⟨i, hi, rfl⟩
  obtain ⟨h', hmem', ht, hl, hcap⟩ := scanHeard_unit he
  obtain rfl := hinj _ hmem _ hmem' (entry_unit.1.symm.trans ht) (entry_unit.2.symm.trans hl)
  exact hcap hready

/-- **The table of `scsi_scan`** is that of the devices that are present just if no removable
device is lost because its capacity cannot be read, none that is left out is the last in its slot,
and those that are present sent all that is looked at. -/
theorem scsi_scan_iff (cfg : ScsiCfg) (bus : Bus) (partOf : BlockDev → Option UInt8)
    (tempccb : Ccb) (tempbuff : Buffer) :
    (∃ s cur, scsiScan cfg bus partOf tempccb tempbuff = some (s, cur) ∧
      Faithful cfg partOf (heard bus tempbuff cfg.units) s) ↔
    NoLoss (heard bus tempbuff cfg.units) ∧ Followed (heard bus tempbuff cfg.units) ∧
      ∀ h ∈ heard bus tempbuff cfg.units, h.Present → h.Whole := by
  obtain ⟨s, cur, hscan, hdevs, htable⟩ := scsiScan_heard cfg bus partOf tempccb tempbuff
  have hlen : (heard bus tempbuff cfg.units).length ≤ cfg.maxDevice := by
    rw [heard_length, units_length]
    exact cfg.enough
  have htarget : ∀ h ∈ heard bus tempbuff cfg.units, h.target ≠ 0xff := fun h hmem =>
    units_target (by rw [← heard_units bus tempbuff cfg.units]; exact
      List.mem_map_of_mem (f := fun h : Heard => (h.target, h.lun)) hmem)
  have hinj : ∀ h ∈ heard bus tempbuff cfg.units, ∀ h' ∈ heard bus tempbuff cfg.units,
      h.target = h'.target → h.lun = h'.lun → h = h' := fun h hmem h' hmem' => heard_inj hmem hmem'
  generalize heard bus tempbuff cfg.units = hs at *
  have htake : s.table.take s.maxDevs = (scanHeard partOf 0 (resetDev 0) hs).1 := by
    rw [htable, hdevs, List.take_left]
  refine ⟨fun ⟨s', cur', hscan', hf⟩ => ?_, fun ⟨hloss, hfollowed, hown⟩ => ?_⟩
  · obtain rfl : s = s' := congrArg Prod.fst (Option.some.inj (hscan.symm.trans hscan'))
    have hentries := htake.symm.trans hf.entries
    have hloss : NoLoss hs := noLoss_of_entries hentries hinj
    refine ⟨hloss, ?_, hf.own⟩
    by_cases hfull : s.maxDevs < cfg.maxDevice
    · obtain ⟨k, hk⟩ := Nat.exists_eq_add_of_lt hfull
      have hslot := hf.rest s.maxDevs (le_refl _) hfull
      rw [htable, hk, Nat.add_assoc, Nat.add_sub_cancel_left, hdevs,
        List.getElem?_append_right (le_refl _), Nat.sub_self] at hslot
      have hreset := Option.some.inj hslot
      rw [← Nat.zero_add (scanHeard partOf 0 (resetDev 0) hs).1.length] at hreset
      exact ((scanHeard_slot partOf slot_reset hloss htarget).mp hreset).1
    · have hcount : (hs.filter fun h => h.Present).length = hs.length := by
        have hle := List.length_filter_le (fun h : Heard => decide h.Present) hs
        have heq := congrArg List.length hentries
        rw [List.length_mapIdx] at heq
        omega
      exact .of_present fun h hmem =>
        of_decide_eq_true (List.length_filter_eq_length_iff.mp hcount h hmem)
  · have hentries := scanHeard_entries partOf (n := 0) slot_reset hloss
    have hslot := (scanHeard_slot partOf (n := 0) slot_reset hloss htarget).mpr
      ⟨hfollowed, .inl rfl⟩
    simp only [Nat.zero_add] at hentries
    rw [Nat.zero_add, ← hdevs] at hslot
    have hle : s.maxDevs ≤ cfg.maxDevice := by
      have hcount := List.length_filter_le (fun h : Heard => decide h.Present) hs
      rw [hdevs, hentries, List.length_mapIdx]
      omega
    rw [hslot, freeSlots_reset] at htable
    refine ⟨s, cur, hscan, hle, ?_, htake.trans hentries, hown, fun n hn hlt => ?_⟩
    · rw [htable, List.length_append, ← hdevs, List.length_map, List.length_range']
      omega
    · rw [htable, List.getElem?_append_right (hdevs ▸ hn), ← hdevs, List.getElem?_map,
        List.getElem?_range' (by omega)]
      simp only [Option.map_some, Nat.one_mul, Nat.add_sub_cancel' hn]

def mip405 : ScsiCfg where
  tempbuff := 0
  maxScsiId := 7
  maxLun := 8
  maxDevice := 56
  maxScsiId_le := Nat.le_of_ble_eq_true rfl
  maxLun_le := Nat.le_of_ble_eq_true rfl
  maxDevice_le := Nat.le_of_ble_eq_true rfl
  enough := Nat.le_of_ble_eq_true rfl

/-- A removable disk whose capacity cannot be read, and behind it a fixed disk of 4 blocks. -/
def twoDisks : Bus := fun target lun op =>
  if lun ≠ 0 then ⟨false, []⟩
  else if target = 0 then
    if op = SCSI_INQUIRY then ⟨true, 0 :: 0x80 :: List.replicate 34 0x41⟩
    else ⟨op = SCSI_TST_U_RDY, []⟩
  else if target = 1 then
    if op = SCSI_INQUIRY then ⟨true, 0 :: 0 :: List.replicate 34 0x42⟩
    else if op = SCSI_TST_U_RDY then ⟨true, []⟩
    else ⟨true, [0, 0, 0, 3, 0, 0, 2, 0]⟩
  else ⟨false, []⟩

/-- The table has the fixed disk alone, and says that it is removable. -/
theorem scan_inherits_removable :
    ((scsiScan mip405 twoDisks (fun _ => none) ⟨fun _ => 0, 0, 0, 0, 0, 0⟩ (fun _ => 0)).map
      fun r => (r.1.maxDevs, (r.1.table.take 1).map fun d => (d.target, d.removable))) =
        some (1, [(1, true)]) ∧
    ¬ ∃ s cur, scsiScan mip405 twoDisks (fun _ => none) ⟨fun _ => 0, 0, 0, 0, 0, 0⟩
        (fun _ => 0) = some (s, cur) ∧
      Faithful mip405 (fun _ => none) (heard twoDisks (fun _ => 0) mip405.units) s := by
  have hdecide : ((scsiScan mip405 twoDisks (fun _ => none) ⟨fun _ => 0, 0, 0, 0, 0, 0⟩
      (fun _ => 0)).map fun r => (r.1.maxDevs, (r.1.table.take 1).map fun d =>
        (d.target, d.removable))) = some (1, [(1, true)]) := by decide
  refine ⟨hdecide, fun ⟨s, cur, hscan, hf⟩ => ?_⟩
  have hcount : ((heard twoDisks (fun _ => 0) mip405.units).filter fun h => h.Present).length =
      2 := by decide
  rw [hscan] at hdecide
  have hdevs : s.maxDevs = 1 := congrArg Prod.fst (Option.some.inj hdecide)
  have hlen := congrArg List.length hf.entries
  rw [List.length_take, List.length_mapIdx, hcount, hdevs] at hlen
  omega

end UBoot.Scsi
