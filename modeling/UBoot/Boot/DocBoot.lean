import UBoot.Boot.DiskBoot

/-!
# Booting from a DiskOnChip

`do_docboot`, `doc_rw` and `doc_read_ecc` (`common/cmd_doc.c`): the chip is read from an offset on,
sector by sector. `disk_boot_iff` puts the four boot commands together.
-/

namespace UBoot.Boot

open UBoot.Lib UBoot.Common UBoot.Image

structure Doc where
  /-- the `ChipID` is known -/
  known : Bool
  totlen : ℕ
  chip : ℕ → UInt8
  /-- the sector has errors that cannot be corrected -/
  broken : ℕ → Bool
  sectors : 512 ∣ totlen
  totlen_le : totlen + 512 ≤ 2 ^ 32

/-- A request to `doc_rw`. -/
structure DocRequest where
  offset : ℕ
  len : ℕ
  buf : UInt32
  deriving DecidableEq, Repr

structure DocOut where
  rcode : ℤ
  loadAddr : Option UInt32
  reads : List DocRequest
  mem : Mem32

namespace Doc

/-- The length that `doc_read_ecc` reads: not past the end of a sector. -/
def chunk (offset len : ℕ) : ℕ :=
  if (offset ||| 0x1ff) + 1 < offset + len then (offset ||| 0x1ff) + 1 - offset else len

/-- `doc_read_ecc`: an error, or what was read. Errors in a sector show with `eccbuf` only. -/
def readEcc (d : Doc) (offset len : ℕ) (buf : UInt32) (eccbuf : Bool) (mem : Mem32) :
    Bool × ℕ × Mem32 :=
  if d.totlen ≤ offset then (true, 0, mem)
  else (eccbuf && d.broken offset, chunk offset len,
    mem.store buf (bytesOf d.chip offset (chunk offset len)))

set_option maxRecDepth 4000 in
theorem or_sector (a : ℕ) : a ||| 0x1ff = a / 512 * 512 + 511 := by
  have hlow : ∀ r < 512, r ||| 511 = 511 := by decide
  have hsplit : a = 2 ^ 9 * (a / 512) ||| a % 512 := by
    rw [← Nat.two_pow_add_eq_or_of_lt (Nat.mod_lt a (by decide))]
    omega
  calc a ||| 0x1ff = 2 ^ 9 * (a / 512) ||| (a % 512 ||| 511) := by
        rw [← Nat.or_assoc, ← hsplit]
    _ = a / 512 * 512 + 511 := by
        rw [hlow _ (Nat.mod_lt a (by decide)), ← Nat.two_pow_add_eq_or_of_lt (by decide)]
        omega

theorem chunk_eq (offset len : ℕ) : chunk offset len = min len (512 - offset % 512) := by
  rw [chunk, or_sector]
  split_ifs <;> omega

theorem readEcc_pos {d : Doc} {offset len : ℕ} {buf : UInt32} {eccbuf : Bool} {mem : Mem32}
    (hlen : len ≠ 0) (h : (d.readEcc offset len buf eccbuf mem).1 ≠ true) :
    0 < (d.readEcc offset len buf eccbuf mem).2.1 := by
  unfold readEcc at h ⊢
  split_ifs at h ⊢ with hend
  · exact absurd rfl h
  · show 0 < chunk offset len
    rw [chunk_eq]
    omega

/-- `doc_rw` for reading: is there an error, and the memory. -/
def rw (d : Doc) (offset len : ℕ) (buf : UInt32) (mem : Mem32) : Bool × Mem32 :=
  if hlen : len = 0 then (false, mem)
  else
    let noecc := decide (offset ≠ (offset ||| 0x1ff) + 1 ∨ len < 0x200)
    let r := d.readEcc offset len buf (!noecc) mem
    if h : r.1 then (true, r.2.2)
    else d.rw (offset + r.2.1) (len - r.2.1) (buf + UInt32.ofNat r.2.1) r.2.2
  termination_by len
  decreasing_by exact Nat.sub_lt (Nat.pos_of_ne_zero hlen) (readEcc_pos hlen h)

section
variable {d : Doc} {offset len : ℕ} {buf : UInt32} {mem : Mem32}

theorem rw_step (hlen : len ≠ 0) : d.rw offset len buf mem =
    if d.totlen ≤ offset then (true, mem)
    else d.rw (offset + chunk offset len) (len - chunk offset len)
      (buf + UInt32.ofNat (chunk offset len))
      (mem.store buf (bytesOf d.chip offset (chunk offset len))) := by
  have hnoecc : offset ≠ (offset ||| 0x1ff) + 1 := by
    rw [or_sector]
    omega
  rw [rw, dif_neg hlen]
  simp only [hnoecc, ne_eq, not_false_eq_true, true_or, decide_true, Bool.not_true]
  unfold readEcc
  by_cases hend : d.totlen ≤ offset
  · simp only [if_pos hend, dif_pos]
  · simp only [if_neg hend, Bool.false_and]
    exact dif_neg Bool.false_ne_true

variable (d offset buf mem) in
theorem rw_eq (hlen : len < 2 ^ 32) :
    (offset + len ≤ d.totlen → d.rw offset len buf mem =
      (false, mem.store buf (bytesOf d.chip offset len))) ∧
    (d.totlen < offset + len → len ≠ 0 → (d.rw offset len buf mem).1 = true) := by
  induction hn : len using Nat.strong_induction_on generalizing offset len buf mem with
  | _ n ih =>
    subst hn
    by_cases hzero : len = 0
    · subst hzero
      refine ⟨fun _ => ?_, fun _ h => absurd rfl h⟩
      rw [rw, dif_pos rfl]
      rfl
    have hchunk := chunk_eq offset len
    have hpos : 0 < chunk offset len := by omega
    have hle : chunk offset len ≤ len := hchunk ▸ min_le_left ..
    rw [rw_step hzero]
    obtain ⟨hin, hout⟩ : (offset + chunk offset len + (len - chunk offset len) ≤ d.totlen →
          d.rw (offset + chunk offset len) (len - chunk offset len)
            (buf + UInt32.ofNat (chunk offset len))
            (mem.store buf (bytesOf d.chip offset (chunk offset len))) = (false, _)) ∧
        (d.totlen < offset + chunk offset len + (len - chunk offset len) →
          len - chunk offset len ≠ 0 → (d.rw (offset + chunk offset len)
            (len - chunk offset len) (buf + UInt32.ofNat (chunk offset len))
            (mem.store buf (bytesOf d.chip offset (chunk offset len)))).1 = true) :=
      ih (len - chunk offset len) (by omega) _ _ _ (by omega) rfl
    have hsum : offset + chunk offset len + (len - chunk offset len) = offset + len := by omega
    rw [hsum] at hin hout
    constructor
    · intro hfits
      have hsplit : chunk offset len + (len - chunk offset len) = len := by omega
      have hbehind := store_behind d.chip buf mem (a := offset) (m := chunk offset len)
        (n := len - chunk offset len) (by omega)
      rw [hsplit] at hbehind
      rw [if_neg (by omega), hin hfits, hbehind]
    · intro hover _
      split_ifs with hend
      · rfl
      · refine hout hover fun hdone => ?_
        -- the last chunk ends with a sector, and so does the chip
        have hsectors := d.sectors
        omega

end

/-- The fields of the header are read as they are. -/
def header : Kind := ⟨false, false, false⟩

/-- The part of `do_docboot` that loads the image. -/
def load (hostBE autostart : Bool) (d : Doc) (offset addr : UInt32) (mem : Mem32) : DocOut :=
  let first : DocRequest := ⟨offset.toNat, 512, addr⟩
  let r := d.rw offset.toNat 512 addr mem
  if r.1 then ⟨1, none, [first], r.2⟩
  else if header.field hostBE (r.2.read addr 4) ≠ ihMagic then ⟨1, none, [first], r.2⟩
  else
    let cnt := header.field hostBE (r.2.read (addr + 12) 4) + 64 - 512
    let rest : DocRequest := ⟨(offset + 512).toNat, cnt.toNat, addr + 512⟩
    let r' := d.rw (offset + 512).toNat cnt.toNat (addr + 512) r.2
    if r'.1 then ⟨1, none, [first, rest], r'.2⟩
    else ⟨if autostart then 1 else 0, some addr, [first, rest], r'.2⟩

end Doc

/-- Address, boot device and offset, or `none` for a usage message. -/
def docArgs (cfgLoadAddr : UInt32) (bootdevice : Option (List UInt8)) :
    List (List UInt8) → Option (UInt32 × Option (List UInt8) × UInt32)
  | [a, s, o] => some (UInt32.ofNat (simpleStrtoul 16 a).1, some s,
      UInt32.ofNat (simpleStrtoul 16 o).1)
  | args => (bootArgs cfgLoadAddr bootdevice args).map fun r => (r.1, r.2, 0)

/-- The chip: a number that is too large is refused, one below 0 is not. -/
def docSelect (docs : List Doc) (s : List UInt8) : Except Oob (Option Doc) :=
  if docs.length ≤ devOf s then .ok none
  else (descriptor docs (devOf s)).map fun d => if d.known then some d else none

/-- Where the image goes and where it comes from, unless a check fails. -/
def docTarget (cfgLoadAddr : UInt32) (bootdevice : Option (List UInt8)) (docs : List Doc)
    (args : List (List UInt8)) : Except Oob (Option (UInt32 × Doc × UInt32)) :=
  match docArgs cfgLoadAddr bootdevice args with
  | some (addr, some s, offset) => (docSelect docs s).map fun d => d.map (addr, ·, offset)
  | _ => .ok none

def doDocboot (hostBE autostart : Bool) (cfgLoadAddr : UInt32)
    (bootdevice : Option (List UInt8)) (docs : List Doc) (args : List (List UInt8))
    (mem : Mem32) : Except Oob DocOut :=
  (docTarget cfgLoadAddr bootdevice docs args).map fun t =>
    match t with
    | some (addr, d, offset) => d.load hostBE autostart offset addr mem
    | none => ⟨1, none, [], mem⟩

/-! ## What the command should do -/

namespace Doc

section
variable (hostBE : Bool) (d : Doc) (offset : UInt32)

/-- `ih_size` in the first sector. -/
def imageSize : UInt32 := header.field hostBE (bytesOf d.chip (offset.toNat + 12) 4)

def imageLen : ℕ := 64 + (d.imageSize hostBE offset).toNat

/-- The further bytes are counted right, and an image that is loaded is at `addr`: read from
inside the chip, with nothing else written. -/
structure Loads (addr : UInt32) (mem : Mem32) (o : DocOut) : Prop where
  count : ∀ r, o.reads[1]? = some r → r.len + 512 = d.imageLen hostBE offset
  image : o.loadAddr.isSome → ∀ i < d.imageLen hostBE offset,
    o.mem (addr + UInt32.ofNat i) = d.chip (offset.toNat + i)
  inside : o.loadAddr.isSome → ∀ r ∈ o.reads,
    offset.toNat ≤ r.offset ∧ r.offset + r.len ≤ d.totlen
  frame : o.loadAddr.isSome → ∀ a,
    max (d.imageLen hostBE offset) 512 ≤ (a - addr).toNat → o.mem a = mem a

/-- The image is not smaller than a sector. -/
def Fits : Prop :=
  offset.toNat + 512 ≤ d.totlen →
  header.field hostBE (bytesOf d.chip offset.toNat 4) = ihMagic → 512 ≤ d.imageLen hostBE offset

end

section
variable {hostBE autostart : Bool} {d : Doc} {offset addr : UInt32} {mem : Mem32}

theorem further_iff {size : UInt32} :
    (size + 64 - 512).toNat + 512 = 64 + size.toNat ↔ 512 ≤ 64 + size.toNat := by
  have hsize := size.toNat_lt
  have h64 : (64 : UInt32).toNat = 64 := rfl
  have h512 : (512 : UInt32).toNat = 512 := rfl
  rw [UInt32.toNat_sub, UInt32.toNat_add, h64, h512]
  omega

variable (hostBE autostart d offset addr mem) in
theorem load_cases :
    (∃ mem', d.load hostBE autostart offset addr mem =
        ⟨1, none, [⟨offset.toNat, 512, addr⟩], mem'⟩ ∧ ¬ (offset.toNat + 512 ≤ d.totlen ∧
      header.field hostBE (bytesOf d.chip offset.toNat 4) = ihMagic)) ∨
    (offset.toNat + 512 ≤ d.totlen ∧
      header.field hostBE (bytesOf d.chip offset.toNat 4) = ihMagic) ∧
    ∃ cnt r, cnt = d.imageSize hostBE offset + 64 - 512 ∧
      r = d.rw (offset + 512).toNat cnt.toNat (addr + 512)
        (mem.store addr (bytesOf d.chip offset.toNat 512)) ∧
      d.load hostBE autostart offset addr mem =
        if r.1 then ⟨1, none, [⟨offset.toNat, 512, addr⟩,
          ⟨(offset + 512).toNat, cnt.toNat, addr + 512⟩], r.2⟩
        else ⟨if autostart then 1 else 0, some addr, [⟨offset.toNat, 512, addr⟩,
          ⟨(offset + 512).toNat, cnt.toNat, addr + 512⟩], r.2⟩ := by
  obtain ⟨hin, hout⟩ := rw_eq d offset.toNat addr mem
    (show 512 < 2 ^ 32 by decide)
  have hmagic : (mem.store addr (bytesOf d.chip offset.toNat 512)).read addr 4 =
      bytesOf d.chip offset.toNat 4 := read_store_zero d.chip addr mem (by decide) (by decide)
  have hsize : (mem.store addr (bytesOf d.chip offset.toNat 512)).read (addr + 12) 4 =
      bytesOf d.chip (offset.toNat + 12) 4 :=
    read_store d.chip addr mem (o := 12) (by decide) (by decide)
  rw [load]
  by_cases hfirst : offset.toNat + 512 ≤ d.totlen
  swap
  · exact .inl ⟨_, if_pos (hout (by omega) (by decide)), fun h => hfirst h.1⟩
  dsimp only
  rw [hin hfirst, if_neg Bool.false_ne_true]
  generalize mem.store addr (bytesOf d.chip offset.toNat 512) = stored at *
  rw [hmagic, hsize]
  by_cases hmag : header.field hostBE (bytesOf d.chip offset.toNat 4) = ihMagic
  swap
  · exact .inl ⟨_, if_pos hmag, fun h => hmag h.2⟩
  rw [if_neg (not_not.mpr hmag)]
  exact .inr ⟨⟨hfirst, hmag⟩, _, _, rfl, rfl, rfl⟩

variable (hostBE autostart d offset addr mem) in
theorem load_iff : d.Loads hostBE offset addr mem (d.load hostBE autostart offset addr mem) ↔
    d.Fits hostBE offset := by
  have hchip := d.totlen_le
  have hfailed {rcode : ℤ} {reads : List DocRequest} {mem' : Mem32} :
      d.Loads hostBE offset addr mem ⟨rcode, none, reads, mem'⟩ ↔
        ∀ r, reads[1]? = some r → r.len + 512 = d.imageLen hostBE offset :=
    ⟨fun h => h.count, fun h => ⟨h, (fun h => by cases h), (fun h => by cases h),
      fun h => by cases h⟩⟩
  obtain ⟨mem', hload, hends⟩ | ⟨⟨hfirst, hmag⟩, cnt, r, hcnt, hr, hload⟩ :=
    d.load_cases hostBE autostart offset addr mem
  · rw [hload, hfailed]
    exact iff_of_true (fun r hr => by cases hr) fun h hm => absurd ⟨h, hm⟩ hends
  have hcount : cnt.toNat + 512 = d.imageLen hostBE offset ↔ d.Fits hostBE offset := by
    rw [hcnt]
    exact further_iff.trans ⟨fun h _ _ => h, fun h => h hfirst hmag⟩
  have hnext : (offset + 512).toNat = offset.toNat + 512 := by
    rw [UInt32.toNat_add]
    exact Nat.mod_eq_of_lt (show offset.toNat + 512 < 2 ^ 32 by omega)
  rw [hload, ← hcount]
  by_cases herr : r.1 = true
  · rw [if_pos herr, hfailed]
    exact ⟨fun h => h _ rfl, fun h r hr => Option.some.inj hr ▸ h⟩
  rw [if_neg herr]
  refine ⟨fun h => h.count _ rfl, fun hlen => ?_⟩
  rw [hnext] at hr
  obtain ⟨hin, hout⟩ := rw_eq d (offset.toNat + 512) (addr + 512)
    (mem.store addr (bytesOf d.chip offset.toNat 512)) cnt.toNat_lt
  have hinside : offset.toNat + 512 + cnt.toNat ≤ d.totlen := by
    by_contra hover
    by_cases hzero : cnt.toNat = 0
    · omega
    · exact herr (hr ▸ hout (by omega) hzero)
  have hbehind := store_behind d.chip addr mem (a := offset.toNat) (m := 512) (n := cnt.toNat)
    (by omega)
  have hmem : r.2 = mem.store addr (bytesOf d.chip offset.toNat (d.imageLen hostBE offset)) := by
    rw [hr, hin hinside, ← hlen, Nat.add_comm cnt.toNat]
    exact hbehind
  obtain ⟨hbytes, hframe⟩ := store_bytesOf d.chip addr mem offset.toNat
    (n := d.imageLen hostBE offset) (by omega)
  rw [hmem]
  refine ⟨fun q hq => Option.some.inj hq ▸ hlen, fun _ => hbytes, fun _ q hq => ?_,
    fun _ a ha => hframe a ((le_max_left ..).trans ha)⟩
  obtain rfl | hq := List.mem_cons.mp hq
  · exact ⟨le_rfl, hfirst⟩
  · obtain rfl := List.mem_singleton.mp hq
    dsimp only
    omega

end

end Doc

/-! ## The four commands -/

section
variable (hostBE autostart : Bool) (cfgLoadAddr : UInt32)
  (bootdevice : Option (List UInt8)) (docs : List Doc) (args : List (List UInt8)) (mem : Mem32)

/-- `docboot` stays in the table of chips, and loads what it should. -/
def DocMeets : Prop :=
  ∃ o, doDocboot hostBE autostart cfgLoadAddr bootdevice docs args mem = .ok o ∧
    ∀ t, docTarget cfgLoadAddr bootdevice docs args = .ok (some t) →
      t.2.1.Loads hostBE t.2.2 t.1 mem o

/-- The number of the chip is not below 0, and the image is not smaller than a sector. -/
def DocGood : Prop :=
  (∀ addr s offset, docArgs cfgLoadAddr bootdevice args = some (addr, some s, offset) →
    0 ≤ devOf s) ∧
  ∀ t, docTarget cfgLoadAddr bootdevice docs args = .ok (some t) → t.2.1.Fits hostBE t.2.2

end

section
variable {hostBE autostart : Bool} {cfgLoadAddr : UInt32} {bootdevice : Option (List UInt8)}
  {docs : List Doc} {args : List (List UInt8)} {mem : Mem32}

theorem docSelect_ok (docs : List Doc) (s : List UInt8) :
    (∃ r, docSelect docs s = .ok r) ↔ 0 ≤ devOf s := by
  rw [docSelect]
  split_ifs with hlarge
  · exact iff_of_true ⟨_, rfl⟩ (by omega)
  have hdesc : (∃ x, descriptor docs (devOf s) = .ok x) ↔ _ := descriptor_ok
  rw [and_iff_left (not_le.mp hlarge)] at hdesc
  rw [← hdesc]
  cases descriptor docs (devOf s) with
  | error e => exact iff_of_false (fun ⟨r, hr⟩ => by cases hr) fun ⟨x, hx⟩ => by cases hx
  | ok d => exact iff_of_true ⟨_, rfl⟩ ⟨d, rfl⟩

theorem docTarget_ok : (∃ r, docTarget cfgLoadAddr bootdevice docs args = .ok r) ↔
    ∀ addr s offset, docArgs cfgLoadAddr bootdevice args = some (addr, some s, offset) →
      0 ≤ devOf s := by
  rw [docTarget]
  cases docArgs cfgLoadAddr bootdevice args with
  | none => exact iff_of_true ⟨_, rfl⟩ fun _ _ _ h => by cases h
  | some t =>
    obtain ⟨addr, _ | s, offset⟩ := t
    · exact iff_of_true ⟨_, rfl⟩ fun _ _ _ h => by cases h
    have hindex : (∀ addr' s' offset', some (addr, some s, offset) =
        some (addr', some s', offset') → 0 ≤ devOf s') ↔ 0 ≤ devOf s :=
      ⟨fun h => h addr s offset rfl, fun h _ _ _ heq => by cases heq; exact h⟩
    rw [hindex, ← docSelect_ok docs]
    dsimp only
    generalize docSelect docs s = r
    cases r with
    | error e => exact iff_of_false (fun ⟨r, hr⟩ => by cases hr) fun ⟨r, hr⟩ => by cases hr
    | ok r => exact iff_of_true ⟨_, rfl⟩ ⟨r, rfl⟩

/-- **When `docboot` is right.** -/
theorem docboot_iff : DocMeets hostBE autostart cfgLoadAddr bootdevice docs args mem ↔
    DocGood hostBE cfgLoadAddr bootdevice docs args := by
  rw [DocGood, ← docTarget_ok]
  refine command_iff.trans (and_congr_right fun _ => forall₂_congr fun t _ => ?_)
  exact Doc.load_iff hostBE autostart t.2.1 t.2.2 t.1 mem

/-- **When the four boot commands are right.** -/
theorem disk_boot_iff (hostBE autostart : Bool) (cfgLoadAddr : UInt32)
    (bootdevice : Option (List UInt8)) (devs : List Dev) (docs : List Doc)
    (args : List (List UInt8)) (mem : Mem32) :
    (∀ k ∈ [ide, usb, scsi], k.Meets hostBE autostart cfgLoadAddr bootdevice devs args ↔
      k.Good hostBE cfgLoadAddr bootdevice devs args) ∧
    (DocMeets hostBE autostart cfgLoadAddr bootdevice docs args mem ↔
      DocGood hostBE cfgLoadAddr bootdevice docs args) :=
  ⟨fun _ _ => Kind.boot_iff, docboot_iff⟩

end

section
variable {n : List UInt8}

/-! A disk with blocks of 64 bytes and an image of size `n`. -/

def sampleDisk (n : List UInt8) (i : ℕ) : UInt8 :=
  ([0x27, 5, 0x19, 0x56, 0, 0, 0, 0, 0, 0, 0, 0] ++ n).getD i 0

def sampleInfo : PartInfo :=
  ⟨0, 4, 64, bootPartType, Nat.le_of_ble_eq_true rfl, Nat.le_of_ble_eq_true rfl⟩

def sampleDev (n : List UInt8) : Dev where
  known := true
  hasRead := true
  part _ := some sampleInfo
  disk := sampleDisk n
  got _ cnt := cnt
  result _ cnt := cnt
  got_le _ _ := le_rfl

theorem sample_target (n : List UInt8) :
    ide.target 0x100 (some (ascii "0")) [sampleDev n] [] =
      .ok (some (0x100, sampleDev n, sampleInfo)) := by
  have hnum : simpleStrtoul 16 (ascii "0") = (0, []) := by decide
  have hdev : devOf (ascii "0") = 0 := by
    rw [devOf, hnum]
    rfl
  rw [Kind.target, bootArgs]
  dsimp only
  rw [Kind.select, hdev, hnum]
  rfl

theorem sample_good (hn : 64 + (beWord (bytesOf (sampleDisk n) 12 4)).toNat + 63 < 2 ^ 32)
    (hblocks : (64 + (beWord (bytesOf (sampleDisk n) 12 4)).toNat + 63) / 64 ≤ 4) :
    ide.Good false 0x100 (some (ascii "0")) [sampleDev n] [] := by
  refine ⟨target_ok.mp ⟨_, sample_target n⟩, fun t ht => ?_⟩
  cases Option.some.inj (Except.ok.inj ((sample_target n).symm.trans ht))
  exact fun _ => ⟨rfl, fun _ => ⟨hn, fun _ => ⟨rfl, hblocks⟩⟩⟩

theorem disk_boot_iff_sample : ide.Meets false false 0x100 (some (ascii "0"))
    [sampleDev [0, 0, 0, 64]] [] :=
  ((disk_boot_iff false false 0x100 (some (ascii "0")) _ [] [] fun _ => 0).1 ide
    (List.mem_cons_self ..)).mpr (sample_good (by decide) (by decide))

/-- An image of nearly 4 GiB: one block is read, and the command succeeds. -/
theorem diskboot_wraps :
    (ide.load false false (sampleDev [0xff, 0xff, 0xff, 0xc1]) sampleInfo 0x100
      (fun _ => 0)).loadAddr = some 0x100 ∧
    ¬ ide.Meets false false 0x100 (some (ascii "0")) [sampleDev [0xff, 0xff, 0xff, 0xc1]] [] := by
  have hwrap : ¬ ide.Fits false (sampleDev [0xff, 0xff, 0xff, 0xc1]) sampleInfo := fun h =>
    absurd ((h rfl).2 (by decide)).1 (by decide)
  refine ⟨?_, fun hmeets => hwrap ((Kind.boot_iff.mp hmeets).2 _ (sample_target _))⟩
  obtain ⟨mem', -, hends⟩ | ⟨-, cnt, r, -, -, hload⟩ :=
    ide.load_cases (d := sampleDev [0xff, 0xff, 0xff, 0xc1]) false false sampleInfo 0x100
      (fun _ => 0) fun _ => rfl
  · exact absurd ⟨rfl, by decide⟩ hends
  · rw [hload]
    exact congrArg Out.loadAddr (if_neg (not_not.mpr rfl))

end

end UBoot.Boot
