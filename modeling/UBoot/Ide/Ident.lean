import Mathlib.Data.List.DropRight
import UBoot.Lib.Buf
import UBoot.Lib.BigEndian

/-!
# Identifying a drive: `ide_ident` (`common/cmd_ide.c`)

`ident_cpy` copies a field of the IDENTIFY block without the blanks around it and ends it with a
NUL. The three arrays of the descriptor and `removable` lie one behind the other, so the NUL of a
field that fills its array is the first byte of what follows.
-/

namespace UBoot.Ide

open UBoot.Lib

/-- `ATA_STAT_BUSY`, `ATA_STAT_FAULT`, `ATA_STAT_DRQ`, `ATA_STAT_ERR` -/
abbrev statBusy : UInt8 := 0x80
abbrev statFault : UInt8 := 0x20
abbrev statDrq : UInt8 := 0x08
abbrev statErr : UInt8 := 0x01

def ifTypeIde : ℕ := 1

def devTypeUnknown : ℕ := 0xff
def devTypeHarddisk : ℕ := 0

/-- A `block_dev_desc_t`, as far as it is set here: `vendor`, `product`, `revision` and `removable`
are the bytes of `strs`. -/
structure BlockDevDesc where
  ifType : ℕ
  type : ℕ
  lun : ℕ
  lba : UInt32
  blksz : ℕ
  strs : Buf UInt8 69

/-- Where the arrays are in `strs`. -/
def vendorAt : ℕ := 0
def productAt : ℕ := 40
def revisionAt : ℕ := 60
def removableAt : ℕ := 68

/-- The first loop of `ident_cpy`. -/
def identStart (src : ℕ → UInt8) (len start : ℕ) : ℕ :=
  if start < len then if src start ≠ 32 then start else identStart src len (start + 1) else start
  termination_by len - start

/-- The second loop of `ident_cpy`. -/
def identEnd (src : ℕ → UInt8) (start : ℕ) : ℕ → ℕ
  | 0 => 0
  | e + 1 =>
    if start < e + 1 then if src (e + 1) ≠ 32 then e + 1 else identEnd src start e else e + 1

/-- The bytes that `ident_cpy` stores for a field of `len` bytes; `len` is not 0. -/
def identBytes (src : ℕ → UInt8) (len : ℕ) : List UInt8 :=
  let start := identStart src len 0
  let e := identEnd src start (len - 1)
  (List.range (e + 1 - start)).map (fun i => src (start + i)) ++ [0]

/-- `ident_cpy` into the array at `dest`. -/
def identCpy (strs : Buf UInt8 69) (dest : ℕ) (src : ℕ → UInt8) (len : ℕ) :
    Except Oob (Buf UInt8 69) :=
  strs.store dest (identBytes src len)

/-- The IDENTIFY block, in the byte order of the host. -/
structure DriveId where
  byte : ℕ → UInt8

namespace DriveId

variable (iop : DriveId)

def serialNo (i : ℕ) : UInt8 := iop.byte (20 + i)
def fwRev (i : ℕ) : UInt8 := iop.byte (46 + i)
def model (i : ℕ) : UInt8 := iop.byte (54 + i)

/-- Bit 7 of `config`. -/
def removable (hostBE : Bool) : Bool := iop.byte (if hostBE then 1 else 0) &&& 0x80 = 0x80

def lbaCapacity (hostBE : Bool) : UInt32 :=
  let bytes := (List.range 4).map fun i => iop.byte (120 + i)
  beWord (if hostBE then bytes else bytes.reverse)

end DriveId

/-- `ide_ident` of a drive that is no ATAPI drive: the last status of the command, and the block
that is read then. -/
def ideIdent (hostBE : Bool) (c : UInt8) (iop : DriveId) (desc : BlockDevDesc) :
    Except Oob BlockDevDesc := do
  let desc := { desc with ifType := ifTypeIde }
  if c &&& statDrq = 0 ∨ c &&& (statFault ||| statErr) ≠ 0 then
    return { desc with type := devTypeUnknown }
  let strs ← identCpy desc.strs revisionAt iop.fwRev 8
  let strs ← identCpy strs vendorAt iop.model 40
  let strs ← identCpy strs productAt iop.serialNo 20
  let strs ← strs.store removableAt [if iop.removable hostBE then 1 else 0]
  let capacity := iop.lbaCapacity hostBE
  return { desc with
    strs := strs
    lba := (capacity <<< 16) ||| (capacity >>> 16)
    type := devTypeHarddisk
    blksz := 512
    lun := 0 }

/-! ## What the descriptor should hold -/

/-- The `len` bytes of a field. -/
def fieldBytes (src : ℕ → UInt8) (len : ℕ) : List UInt8 := (List.range len).map src

/-- The text without the blanks around it. -/
def trim (text : List UInt8) : List UInt8 := (text.dropWhile (· = 32)).rdropWhile (· = 32)

/-- The array of `n` bytes at `i` holds a text, cut to the room there is, and a NUL behind it. -/
def HoldsText (strs : Buf UInt8 69) (i n : ℕ) (text : List UInt8) : Prop :=
  strs.slice i ((text.take (n - 1)).length + 1) = text.take (n - 1) ++ [0]

structure Identified (hostBE : Bool) (iop : DriveId) (desc : BlockDevDesc) : Prop where
  vendor : HoldsText desc.strs vendorAt 40 (trim (fieldBytes iop.model 40))
  product : HoldsText desc.strs productAt 20 (trim (fieldBytes iop.serialNo 20))
  revision : HoldsText desc.strs revisionAt 8 (trim (fieldBytes iop.fwRev 8))
  removable : desc.strs.get removableAt = if iop.removable hostBE then 1 else 0

/-- There is a byte left behind the text, or the text ends with a NUL itself. -/
def Ends (n : ℕ) (text : List UInt8) : Prop := text.length < n ∨ text[n - 1]? = some 0

instance (n : ℕ) (text : List UInt8) : Decidable (Ends n text) := by
  unfold Ends
  infer_instance

/-! ## The bytes that are copied -/

section
variable {src : ℕ → UInt8} {len start k e : ℕ}

theorem identStart_eq (hstart : start ≤ k) (hblank : ∀ i, start ≤ i → i < k → src i = 32)
    (hk : k = len ∨ k < len ∧ src k ≠ 32) : identStart src len start = k := by
  induction hn : k - start generalizing start with
  | zero =>
    obtain rfl : start = k := by omega
    rw [identStart]
    split_ifs with hlt hsrc
    · rfl
    · exact absurd (hk.resolve_left (by omega)).2 hsrc
    · rfl
  | succ n ih =>
    rw [identStart, if_pos (by omega), if_neg (not_not.mpr (hblank start le_rfl (by omega)))]
    exact ih (by omega) (fun i hi => hblank i (by omega)) (by omega)

theorem identEnd_eq (hk : k ≤ e) (hblank : ∀ i, k < i → i ≤ e → src i = 32)
    (hstart : start ≤ k) (hend : src k ≠ 32 ∨ k = start) : identEnd src start e = k := by
  induction e with
  | zero =>
    obtain rfl : k = 0 := by omega
    rfl
  | succ e ih =>
    rw [identEnd]
    rcases Nat.eq_or_lt_of_le hk with rfl | hlt
    · split_ifs with hs hsrc
      · rfl
      · exact absurd (hend.resolve_right (by omega)) hsrc
      · rfl
    · rw [if_pos (by omega), if_neg (not_not.mpr (hblank (e + 1) hlt le_rfl))]
      exact ih (by omega) fun i hi hi' => hblank i hi (by omega)

theorem identEnd_of_lt (h : e < start) : identEnd src start e = e := by
  cases e with
  | zero => rfl
  | succ e => rw [identEnd, if_neg (by omega)]

/-- A text of blanks, or blanks around a text that begins and ends with another character. -/
theorem trim_cases (text : List UInt8) :
    (∀ c ∈ text, c = 32) ∧ trim text = [] ∨
    ∃ pre post, text = pre ++ trim text ++ post ∧ (∀ c ∈ pre, c = 32) ∧ (∀ c ∈ post, c = 32) ∧
      (∃ c, (trim text).head? = some c ∧ c ≠ 32) ∧ ∃ c, (trim text).getLast? = some c ∧ c ≠ 32 := by
  cases hd : text.dropWhile (· = 32) with
  | nil =>
    refine .inl ⟨fun c hc => by simpa using List.dropWhile_eq_nil_iff.mp hd c hc, ?_⟩
    rw [trim, hd, List.rdropWhile_nil]
  | cons c rest =>
    have hc : c ≠ 32 := by
      have hhead := List.head?_dropWhile_not (· = (32 : UInt8)) text
      rw [hd] at hhead
      simpa using hhead
    have hne : (c :: rest).rdropWhile (· = 32) ≠ [] := fun h =>
      hc (by simpa using List.rdropWhile_eq_nil_iff.mp h c (List.mem_cons_self ..))
    refine .inr ⟨text.takeWhile (· = 32), (c :: rest).rtakeWhile (· = 32), ?_, fun b hb => ?_,
      fun b hb => ?_, ⟨c, ?_, hc⟩, _, List.getLast?_eq_some_getLast (by rwa [trim, hd]), ?_⟩
    · rw [trim, hd, List.append_assoc, List.rdropWhile_append_rtakeWhile, ← hd,
        List.takeWhile_append_dropWhile]
    · simpa using List.mem_takeWhile_imp hb
    · simpa using List.mem_rtakeWhile_imp hb
    · rw [trim, hd]
      obtain ⟨tail, htail⟩ := List.rdropWhile_prefix (· = (32 : UInt8)) (c :: rest)
      cases htrim : (c :: rest).rdropWhile (· = 32) with
      | nil => exact absurd htrim hne
      | cons b bs =>
        rw [htrim] at htail
        exact congrArg some (List.cons.inj htail).1
    · have hlast := List.rdropWhile_last_not (· = (32 : UInt8)) (c :: rest) hne
      simp only [trim, hd]
      simpa using hlast

@[simp]
theorem fieldBytes_length : (fieldBytes src len).length = len := by
  rw [fieldBytes, List.length_map, List.length_range]

theorem getElem?_fieldBytes {i : ℕ} (h : i < len) : (fieldBytes src len)[i]? = some (src i) := by
  rw [fieldBytes, List.getElem?_map, List.getElem?_range h]
  rfl

/-- **`ident_cpy`** stores the field without the blanks around it, and a NUL. -/
theorem identBytes_eq (hlen : 0 < len) :
    identBytes src len = trim (fieldBytes src len) ++ [0] := by
  rw [identBytes]
  congr 1
  obtain ⟨hall, htrim⟩ | ⟨pre, post, hsplit, hpre, hpost, ⟨c, hhead, hc⟩, d, hlast, hd⟩ :=
    trim_cases (fieldBytes src len)
  · have hblank : ∀ i < len, src i = 32 := fun i hi =>
      hall _ (List.mem_map_of_mem (List.mem_range.mpr hi))
    have hstart : identStart src len 0 = len :=
      identStart_eq (Nat.zero_le _) (fun i _ => hblank i) (.inl rfl)
    rw [htrim, hstart, identEnd_of_lt (by omega)]
    have hnone : len - 1 + 1 - len = 0 := by omega
    rw [hnone]
    rfl
  · set text := trim (fieldBytes src len) with htext
    have hget {i : ℕ} (hi : i < len) : (pre ++ text ++ post)[i]? = some (src i) := by
      rw [← hsplit]
      exact getElem?_fieldBytes hi
    have hlens : pre.length + text.length + post.length = len := by
      have hlength := congrArg List.length hsplit
      simp only [fieldBytes_length, List.length_append] at hlength
      omega
    have hpos : 0 < text.length := List.length_pos_iff.mpr fun h => by rw [h] at hhead; cases hhead
    have hsrc {i : ℕ} (hi : i < text.length) : some (src (pre.length + i)) = text[i]? := by
      rw [← hget (by omega), List.append_assoc, List.getElem?_append_right (by omega),
        Nat.add_sub_cancel_left, List.getElem?_append_left hi]
    have hstart : identStart src len 0 = pre.length := by
      refine identStart_eq (Nat.zero_le _) (fun i _ hi => ?_) (.inr ⟨by omega, ?_⟩)
      · have hi' := hget (i := i) (by omega)
        rw [List.append_assoc, List.getElem?_append_left hi] at hi'
        exact hpre _ (List.mem_of_getElem? hi')
      · have hfirst := hsrc hpos
        rw [Nat.add_zero, ← List.head?_eq_getElem?, hhead] at hfirst
        exact fun h => hc (h ▸ (Option.some.inj hfirst).symm)
    have hend : identEnd src pre.length (len - 1) = pre.length + (text.length - 1) := by
      refine identEnd_eq (by omega) (fun i hi hi' => ?_) (by omega) (.inl ?_)
      · have hbehind := hget (i := i) (by omega)
        rw [List.getElem?_append_right (by rw [List.length_append]; omega)] at hbehind
        exact hpost _ (List.mem_of_getElem? hbehind)
      · have hfinal := hsrc (i := text.length - 1) (by omega)
        rw [← List.getLast?_eq_getElem?, hlast] at hfinal
        exact fun h => hd (h ▸ (Option.some.inj hfinal).symm)
    rw [hstart, hend]
    refine List.ext_getElem? fun i => ?_
    by_cases hi : i < text.length
    · rw [List.getElem?_map, List.getElem?_range (by omega), ← hsrc hi]
      rfl
    · rw [List.getElem?_eq_none (by simp; omega), List.getElem?_eq_none (by omega)]

theorem trim_length (src : ℕ → UInt8) (len : ℕ) : (trim (fieldBytes src len)).length ≤ len := by
  have hdrop := (List.dropWhile_sublist (· = 32) (l := fieldBytes src len)).length_le
  have htrim :=
    (List.rdropWhile_prefix (· = 32) ((fieldBytes src len).dropWhile (· = 32))).length_le
  rw [fieldBytes_length] at hdrop
  exact htrim.trans hdrop

variable {strs : Buf UInt8 69} {i n : ℕ} {text : List UInt8}

/-- An array that shows a text and a NUL, as far as it goes, holds the text if that ends in it. -/
theorem holdsText_iff (hn : text.length ≤ n) (hpos : 0 < n)
    (hshow : ∀ j < n, j ≤ text.length → some (strs.get (i + j)) = (text ++ [0])[j]?) :
    HoldsText strs i n text ↔ Ends n text := by
  rw [HoldsText, Ends]
  by_cases hlt : text.length < n
  · refine iff_of_true ?_ (.inl hlt)
    rw [List.take_of_length_le (by omega)]
    refine List.ext_getElem? fun j => ?_
    by_cases hj : j < text.length + 1
    · rw [Buf.getElem?_slice hj, hshow j (by omega) (by omega)]
    · rw [List.getElem?_eq_none (by simp; omega), List.getElem?_eq_none (by simp; omega)]
  · obtain rfl : n = text.length := by omega
    have hslice : strs.slice i text.length = text := by
      refine List.ext_getElem? fun j => ?_
      by_cases hj : j < text.length
      · rw [Buf.getElem?_slice hj, hshow j hj hj.le, List.getElem?_append_left hj]
      · rw [List.getElem?_eq_none (by simp; omega), List.getElem?_eq_none (by omega)]
    have hlast : text = text.take (text.length - 1) ++ [text[text.length - 1]] := by
      rw [List.take_append_getElem, Nat.sub_add_cancel hpos, List.take_length]
    have htake : (text.take (text.length - 1)).length + 1 = text.length := by
      rw [List.length_take]
      omega
    rw [htake, hslice, or_iff_right (lt_irrefl _), List.getElem?_eq_getElem (by omega)]
    constructor
    · intro h
      have hinj := List.append_cancel_left (hlast.symm.trans h)
      exact congrArg some (List.cons.inj hinj).1
    · intro h
      rw [← Option.some.inj h]
      exact hlast

end

/-! ## The descriptor of a drive -/

section
variable (hostBE : Bool) (c : UInt8) (iop : DriveId) (desc : BlockDevDesc)

def Answers : Prop := ¬ (c &&& statDrq = 0 ∨ c &&& (statFault ||| statErr) ≠ 0)

/-- Each field ends in its array; and the firmware revision is empty if the serial number is not
shorter than its array, or begins with a NUL. -/
def Fits : Prop :=
  Ends 40 (trim (fieldBytes iop.model 40)) ∧ Ends 20 (trim (fieldBytes iop.serialNo 20)) ∧
  Ends 8 (trim (fieldBytes iop.fwRev 8)) ∧
  ((trim (fieldBytes iop.serialNo 20)).length < 20 ∨
    ∀ b ∈ (trim (fieldBytes iop.fwRev 8)).head?, b = 0)

/-- The bytes of the three arrays and of `removable`, as they are stored. -/
theorem strs_get {v p r : List UInt8} {x : UInt8} (hv : v.length ≤ 40) (hp : p.length ≤ 20)
    (hr : r.length ≤ 8) (strs : Buf UInt8 69) {done : Buf UInt8 69}
    (hdone : done = (((strs.put 60 (r ++ [0])).put 0 (v ++ [0])).put 40 (p ++ [0])).put 68 [x]) :
    (∀ j < 40, j ≤ v.length → some (done.get (0 + j)) = (v ++ [0])[j]?) ∧
    (∀ j < 20, j ≤ p.length → some (done.get (40 + j)) = (p ++ [0])[j]?) ∧
    (∀ j < 8, j ≤ r.length → some (done.get (60 + j)) =
      if j = 0 ∧ p.length = 20 then some 0 else (r ++ [0])[j]?) ∧ done.get 68 = x := by
  have hbyte (t : List UInt8) {j : ℕ} (hj : j ≤ t.length) {b : Buf UInt8 69} {i : ℕ} :
      some ((b.put i (t ++ [0])).get (i + j)) = (t ++ [0])[j]? := by
    have hj' : j < (t ++ [0]).length := by
      rw [List.length_append, List.length_singleton]
      omega
    rw [Buf.get_put hj', List.getElem?_eq_getElem hj']
  have hlen (t : List UInt8) : (t ++ [(0 : UInt8)]).length = t.length + 1 := List.length_append
  subst hdone
  refine ⟨fun j hj hj' => ?_, fun j hj hj' => ?_, fun j hj hj' => ?_, ?_⟩
  · rw [Buf.get_put_of_lt (by omega), Buf.get_put_of_lt (by omega), hbyte v hj']
  · rw [Buf.get_put_of_lt (by omega), hbyte p hj']
  · rw [Buf.get_put_of_lt (by omega)]
    by_cases hover : j = 0 ∧ p.length = 20
    · obtain ⟨rfl, hfull⟩ := hover
      rw [if_pos ⟨rfl, hfull⟩]
      have hnul := hbyte p (j := 20) (by omega) (b := (strs.put 60 (r ++ [0])).put 0 (v ++ [0]))
        (i := 40)
      rw [List.getElem?_append_right (by omega), hfull] at hnul
      exact hnul
    · rw [if_neg hover, Buf.get_put_of_ge (by rw [hlen]; omega),
        Buf.get_put_of_ge (by rw [hlen]; omega), hbyte r hj']
  · exact Buf.get_put (b := ((strs.put 60 (r ++ [0])).put 0 (v ++ [0])).put 40 (p ++ [0])) (i := 68)
      (j := 0) (l := [x]) Nat.one_pos

theorem ideIdent_strs (hc : Answers c) : ∃ done, ideIdent hostBE c iop desc = .ok done ∧
    done.strs = (((desc.strs.put 60 (trim (fieldBytes iop.fwRev 8) ++ [0])).put 0
      (trim (fieldBytes iop.model 40) ++ [0])).put 40
      (trim (fieldBytes iop.serialNo 20) ++ [0])).put 68
      [if iop.removable hostBE then 1 else 0] := by
  have hstore (strs : Buf UInt8 69) (i len : ℕ) (src : ℕ → UInt8) (hpos : 0 < len)
      (hi : i + len < 69) : identCpy strs i src len =
        .ok (strs.put i (trim (fieldBytes src len) ++ [0])) := by
    have hlen := trim_length src len
    rw [identCpy, identBytes_eq hpos]
    exact if_pos (by rw [List.length_append, List.length_singleton]; omega)
  have hrev (b : Buf UInt8 69) := hstore b revisionAt 8 iop.fwRev (by decide) (by decide)
  have hvend (b : Buf UInt8 69) := hstore b vendorAt 40 iop.model (by decide) (by decide)
  have hprod (b : Buf UInt8 69) := hstore b productAt 20 iop.serialNo (by decide) (by decide)
  refine ⟨⟨ifTypeIde, devTypeHarddisk, 0, (iop.lbaCapacity hostBE <<< 16) |||
    (iop.lbaCapacity hostBE >>> 16), 512, _⟩, ?_, rfl⟩
  rw [ideIdent]
  refine (if_neg hc).trans ?_
  simp only [hrev, bind, Except.bind, hvend, hprod]
  rfl

/-- **The identification strings.** They are stored as they should be exactly when they fit. -/
theorem ide_ident_iff (hc : Answers c) : ∃ done, ideIdent hostBE c iop desc = .ok done ∧
    (Identified hostBE iop done ↔ Fits iop) := by
  obtain ⟨done, hdone, hstrs⟩ := ideIdent_strs hostBE c iop desc hc
  have hv := trim_length iop.model 40
  have hp := trim_length iop.serialNo 20
  have hr := trim_length iop.fwRev 8
  obtain ⟨hvendor, hproduct, hrevision, hremovable⟩ := strs_get hv hp hr desc.strs hstrs
  set v := trim (fieldBytes iop.model 40)
  set p := trim (fieldBytes iop.serialNo 20)
  set r := trim (fieldBytes iop.fwRev 8)
  refine ⟨done, hdone, ?_⟩
  have hbyte : HoldsText done.strs revisionAt 8 r ↔ Ends 8 r ∧
      (p.length < 20 ∨ ∀ b ∈ r.head?, b = 0) := by
    by_cases hover : p.length < 20
    · rw [and_iff_left (.inl hover)]
      refine holdsText_iff hr (by decide) fun j hj hj' => ?_
      exact (hrevision j hj hj').trans (if_neg (by omega))
    have hfull : p.length = 20 := by omega
    have hnul : done.strs.get 60 = 0 := by
      have hzero := hrevision 0 (by decide) (Nat.zero_le _)
      rw [if_pos ⟨rfl, hfull⟩] at hzero
      exact Option.some.inj hzero
    rw [or_iff_right hover]
    by_cases hfirst : ∀ b ∈ r.head?, b = 0
    · rw [and_iff_left hfirst]
      refine holdsText_iff hr (by decide) fun j hj hj' => (hrevision j hj hj').trans ?_
      split_ifs with hj0
      · obtain ⟨rfl, -⟩ := hj0
        cases hcases : r with
        | nil => rfl
        | cons b r' => exact congrArg some (hfirst b (by rw [hcases]; rfl)).symm
      · rfl
    · refine iff_of_false (fun h => hfirst fun b hb => ?_) fun h => hfirst h.2
      obtain ⟨r', hr'⟩ : ∃ r', r = b :: r' := List.head?_eq_some_iff.mp hb
      have hhead := congrArg (·[0]?) h
      rw [hr', List.take_succ_cons, Buf.getElem?_slice (Nat.succ_pos _)] at hhead
      exact (Option.some.inj hhead).symm.trans hnul
  constructor
  · rintro ⟨hvend, hprod, hrev, -⟩
    exact ⟨(holdsText_iff hv (by decide) hvendor).mp hvend,
      (holdsText_iff hp (by decide) hproduct).mp hprod, hbyte.mp hrev⟩
  · rintro ⟨hvend, hprod, hrev⟩
    exact ⟨(holdsText_iff hv (by decide) hvendor).mpr hvend,
      (holdsText_iff hp (by decide) hproduct).mpr hprod, hbyte.mpr hrev, hremovable⟩

end

/-- A drive with these fields and blanks elsewhere. -/
def sampleId (serial fw : List UInt8) : DriveId where
  byte i :=
    if 20 ≤ i ∧ i < 40 then serial.getD (i - 20) 32
    else if 46 ≤ i ∧ i < 54 then fw.getD (i - 46) 32
    else 32

def blankStrs : Buf UInt8 69 := ⟨fun _ => 0⟩

def sampleDesc : BlockDevDesc := ⟨0, 0, 0, 0, 0, blankStrs⟩

/-- Serial number ` A`, revision `B`. -/
theorem ide_ident_iff_sample : ∃ done, ideIdent true 0x48 (sampleId [32, 65] [66]) sampleDesc =
    .ok done ∧ Identified true (sampleId [32, 65] [66]) done := by
  obtain ⟨done, hdone, hiff⟩ := ide_ident_iff true 0x48 (sampleId [32, 65] [66]) sampleDesc
    (by unfold Answers; decide)
  exact ⟨done, hdone, hiff.mpr (by unfold Fits; decide)⟩

/-- A serial number of 20 characters empties the revision. -/
theorem ide_ident_empties : ¬ ∃ done, ideIdent true 0x48
    (sampleId (List.replicate 20 65) [66]) sampleDesc = .ok done ∧
      Identified true (sampleId (List.replicate 20 65) [66]) done := by
  rintro ⟨done, hdone, hident⟩
  obtain ⟨done', hdone', hstrs⟩ := ideIdent_strs true 0x48 (sampleId (List.replicate 20 65) [66])
    sampleDesc (by unfold Answers; decide)
  obtain rfl : done = done' := Except.ok.inj (hdone.symm.trans hdone')
  obtain ⟨-, -, hrevision, -⟩ := strs_get (trim_length ..) (trim_length ..) (trim_length ..) _ hstrs
  have hnul := hrevision 0 (by decide) (Nat.zero_le _)
  have hfw : trim (fieldBytes (sampleId (List.replicate 20 65) [66]).fwRev 8) = [66] := by decide
  have hhead := congrArg (·[0]?) hident.revision
  rw [hfw, Buf.getElem?_slice (Nat.succ_pos _)] at hhead
  rw [if_pos ⟨rfl, by decide⟩] at hnul
  exact absurd (hhead.symm.trans hnul) (by decide)

end UBoot.Ide
