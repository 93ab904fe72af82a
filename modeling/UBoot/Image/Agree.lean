import UBoot.Common.Strings
import UBoot.Image.Bootm
import UBoot.Image.Mkimage

/-!
# What `mkimage` writes, `bootm` boots

`TableAt` says that a table of lengths is in memory; both loops of `cmd_bootm.c` over it find its
end (`skipLengths_of_table`). `Agrees` is what `do_bootm` has to select of an image, and
`mkimage_bootm` says when it does: a multi-file image written with `-x` has in its table the
lengths of the files, and behind it the files without the space for a header.
-/

namespace UBoot.Image

open UBoot.Lib UBoot.Common UBoot.Env

/-! ## The table in memory -/

/-- The words `sizes` and a zero at `lenPtr`. -/
structure TableAt (m : Mem32) (lenPtr : UInt32) (sizes : List UInt32) : Prop where
  entry : ∀ i (h : i < sizes.length), m.word (lenPtr + UInt32.ofNat (4 * i)) = sizes[i]
  stop : m.word (lenPtr + UInt32.ofNat (4 * sizes.length)) = 0

section
variable {m m' : Mem32} {lenPtr data : UInt32} {sizes : List UInt32} {fuel i : Nat}

theorem skipLengths_of_table (h : TableAt m lenPtr sizes) (hne : ∀ x ∈ sizes, x ≠ 0)
    (hi : i ≤ sizes.length) (hf : sizes.length - i < fuel) :
    skipLengths m lenPtr fuel i data = .ok (data + UInt32.ofNat (4 * (sizes.length - i))) := by
  induction fuel generalizing i data with
  | zero => omega
  | succ fuel ih =>
    rw [skipLengths]
    rcases Nat.lt_or_ge i sizes.length with hlt | hge
    · have hword : m.word (lenPtr + UInt32.ofNat (4 * i)) ≠ 0 := by
        rw [h.entry i hlt]
        exact hne _ (List.getElem_mem hlt)
      rw [if_neg hword, ih hlt (by omega), UInt32.add_assoc]
      have hnext : 4 * (sizes.length - i) = 4 + 4 * (sizes.length - (i + 1)) := by omega
      rw [hnext, UInt32.ofNat_add]
      rfl
    · have heq : i = sizes.length := by omega
      subst heq
      have hzero : data + UInt32.ofNat (4 * (sizes.length - sizes.length)) = data := by
        rw [Nat.sub_self]
        exact UInt32.add_zero data
      rw [if_pos h.stop, hzero]

/-- The table depends on its own bytes only. -/
theorem TableAt.congr (h : TableAt m lenPtr sizes)
    (heq : ∀ j < 4 * (sizes.length + 1),
      m' (lenPtr + UInt32.ofNat j) = m (lenPtr + UInt32.ofNat j)) :
    TableAt m' lenPtr sizes := by
  have hword (i : Nat) (hi : i ≤ sizes.length) :
      m'.word (lenPtr + UInt32.ofNat (4 * i)) = m.word (lenPtr + UInt32.ofNat (4 * i)) := by
    refine Mem32.word_congr fun j hj => ?_
    rw [UInt32.add_assoc, ← UInt32.ofNat_add]
    exact heq _ (by omega)
  exact ⟨fun i hi => (hword i hi.le).trans (h.entry i hi), (hword _ (Nat.le_refl _)).trans h.stop⟩

theorem TableAt.of_holds {q : List UInt8} {n : Nat}
    (h : m.HoldsUpTo lenPtr (sizes.flatMap beBytes ++ beBytes 0 ++ q) n)
    (hn : 4 * (sizes.length + 1) ≤ n) : TableAt m lenPtr sizes := by
  have hlen (l : List UInt32) : (l.flatMap beBytes).length = 4 * l.length := by
    induction l with
    | nil => rfl
    | cons x l ih => rw [List.flatMap_cons, List.length_append, ih, beBytes_length]; simp; omega
  constructor
  · intro i hi
    have hsplit : sizes.flatMap beBytes =
        (sizes.take i).flatMap beBytes ++ beBytes sizes[i] ++
          (sizes.drop (i + 1)).flatMap beBytes := by
      conv_lhs => rw [← List.take_append_drop i sizes, List.drop_eq_getElem_cons hi]
      rw [List.flatMap_append, List.flatMap_cons, List.append_assoc]
    rw [hsplit, List.append_assoc, List.append_assoc] at h
    have hpre : ((sizes.take i).flatMap beBytes).length = 4 * i := by
      rw [hlen, List.length_take, Nat.min_eq_left hi.le]
    rw [← hpre]
    exact h.word_split (by omega)
  · rw [← hlen]
    exact h.word_split (by rw [hlen]; omega)

end

/-! ## The steps of `do_bootm` -/

section
variable {b : Board} {l : LinuxArgs} {m m' : Mem32} {addr lenPtr : UInt32} {hdr : ImageHeader}
  {body : List UInt8} {payload : Region} {sizes : List UInt32}

/-- A header with the CRCs that `mkimage` computes passes, with the body behind it. -/
theorem checkImage_ok {image : List UInt8} (hmagic : hdr.magic = ihMagic) (hcrc : hdr.hcrc = 0)
    (hsize : hdr.size = UInt32.ofNat body.length) (hdcrc : hdr.dcrc = crc32 0 body)
    (himage : image = (hdr.withHcrc (crc32 0 hdr.bytes)).bytes ++ body)
    (hfits : image.length ≤ 2 ^ 32) (hm : m.HoldsUpTo addr image image.length) :
    checkImage b m addr = .ok (hdr.withHcrc (crc32 0 hdr.bytes)) ∧
      m.HoldsUpTo (addr + 64) body body.length := by
  have hlen : image.length = 64 + body.length := by
    rw [himage, List.length_append, ImageHeader.bytes_length]
  rw [himage] at hm
  have hat := ImageHeader.at_of_holds hm (by rw [← himage, hlen]; exact Nat.le_add_right ..)
  have hbody : m.HoldsUpTo (addr + 64) body body.length := by
    have hbehind := hm.behind
    rw [← himage, hlen, ImageHeader.bytes_length, Nat.add_sub_cancel_left] at hbehind
    exact hbehind
  have hread : m.read (addr + 64) hdr.size.toNat = body := by
    have hsmall : hdr.size.toNat = body.length := by
      rw [hsize, UInt32.toNat_ofNat']
      omega
    have hzero : addr + 64 + UInt32.ofNat 0 = addr + 64 := UInt32.add_zero _
    rw [hsmall, ← hzero, hbody.read (Nat.le_refl _) (by omega), List.drop_zero, List.take_length]
  refine ⟨?_, hbody⟩
  have hclear : (hdr.withHcrc (crc32 0 hdr.bytes)).withHcrc 0 = hdr := by
    rw [← hcrc, ImageHeader.withHcrc_withHcrc]
  have hdata : crc32 0 (m.read (addr + 64) hdr.size.toNat) = hdr.dcrc := by rw [hread, hdcrc]
  rw [checkImage, hat, hclear]
  simp only [ImageHeader.withHcrc, hmagic, hdata, ne_eq, not_true, and_false, if_false]

theorem selectPayload_multi (htype : hdr.type = ihTypeMulti) (h : TableAt m lenPtr sizes)
    (hne : ∀ x ∈ sizes, x ≠ 0) (hpos : sizes ≠ []) (hfew : sizes.length ≤ memWords) :
    selectPayload m hdr lenPtr =
      .ok ⟨lenPtr + UInt32.ofNat (4 * (sizes.length + 1)), sizes.head hpos⟩ := by
  have hlen := List.length_pos_of_ne_nil hpos
  have hdata : lenPtr + 8 + UInt32.ofNat (4 * (sizes.length - 1)) =
      lenPtr + UInt32.ofNat (4 * (sizes.length + 1)) := by
    have hsum : 4 * (sizes.length + 1) = 8 + 4 * (sizes.length - 1) := by omega
    rw [hsum, UInt32.ofNat_add, ← UInt32.add_assoc]
    rfl
  have hfirst : m.word lenPtr = sizes.head hpos := by
    have hentry := h.entry 0 hlen
    rw [List.head_eq_getElem]
    rw [← hentry]
    exact congrArg m.word (UInt32.add_zero lenPtr).symm
  rw [selectPayload, if_neg (by rw [htype]; decide), if_pos htype,
    skipLengths_of_table h hne hlen (by omega)]
  simp only [bind, Except.bind, pure, Except.pure, hdata, hfirst]

theorem selectPayload_single (htype : hdr.type = ihTypeStandalone ∨ hdr.type = ihTypeKernel) :
    selectPayload m hdr lenPtr = .ok ⟨lenPtr, hdr.size⟩ := if_pos htype

theorem loadPayload_none (hcomp : hdr.comp = ihCompNone) : loadPayload b m hdr addr payload =
    .ok (if hdr.load = addr then m else m.store hdr.load (payload.bytes m)) := by
  rw [loadPayload, if_pos hcomp]
  split_ifs <;> rfl

theorem selectInitrd_single (htype : hdr.type ≠ ihTypeMulti) :
    selectInitrd b m hdr lenPtr none = .ok none := by
  simp [selectInitrd, htype, bind, Except.bind, pure, Except.pure]

theorem selectInitrd_multi_one (hword : m.word (lenPtr + 4) = 0) :
    selectInitrd b m hdr lenPtr none = .ok none := by
  simp [selectInitrd, hword, bind, Except.bind, pure, Except.pure]

theorem secondFile_of_table (h : TableAt m lenPtr sizes) (hne : ∀ x ∈ sizes, x ≠ 0)
    (htwo : 1 < sizes.length) (hfew : sizes.length ≤ memWords) :
    secondFile m lenPtr = .ok ⟨lenPtr + UInt32.ofNat
      (4 * (sizes.length + 1) + padLength (sizes[0]).toNat), sizes[1]⟩ := by
  obtain ⟨x, y, sizes, rfl⟩ : ∃ x y l, sizes = x :: y :: l := by
    match sizes, htwo with
    | x :: y :: l, _ => exact ⟨x, y, l, rfl⟩
  have hfirst : m.word lenPtr = x := by
    refine Eq.trans ?_ (h.entry 0 (Nat.zero_lt_of_lt htwo))
    exact congrArg m.word (UInt32.add_zero lenPtr).symm
  have hsecond : m.word (lenPtr + 4) = y := h.entry 1 htwo
  have hskip := @skipLengths_of_table m lenPtr (lenPtr + 8) _ memWords 1 h hne htwo.le
    (show _ < memWords by omega)
  have hstart : lenPtr + 8 + UInt32.ofNat (4 * ((x :: y :: sizes).length - 1)) + x =
      lenPtr + UInt32.ofNat (4 * ((x :: y :: sizes).length + 1) + x.toNat) := by
    have hsum : 4 * ((x :: y :: sizes).length + 1) + x.toNat =
        8 + 4 * ((x :: y :: sizes).length - 1) + x.toNat := by
      simp only [List.length_cons]
      omega
    rw [hsum, UInt32.ofNat_add, UInt32.ofNat_add, UInt32.ofNat_toNat, ← UInt32.add_assoc,
      ← UInt32.add_assoc]
    rfl
  have hmod : (x % 4).toNat = x.toNat % 4 := UInt32.toNat_mod x 4
  rw [secondFile, hskip, hfirst, hsecond]
  simp only [bind, Except.bind, pure, Except.pure, hstart, Except.ok.injEq, Region.mk.injEq,
    List.getElem_cons_zero, List.getElem_cons_succ, and_true]
  rw [padLength, ← Nat.add_assoc, UInt32.ofNat_add (_ + x.toNat), ← UInt32.add_assoc]
  by_cases htail : x % 4 = 0
  · have hmod0 : x.toNat % 4 = 0 := hmod.symm.trans (congrArg UInt32.toNat htail)
    rw [if_neg (not_not.mpr htail), hmod0]
    exact (UInt32.add_zero _).symm
  · have hmod0 : x.toNat % 4 ≠ 0 := fun h0 => htail (UInt32.toNat_inj.mp (hmod.trans h0))
    have hpad : 4 - x % 4 = UInt32.ofNat ((4 - x.toNat % 4) % 4) := by
      rw [← UInt32.toNat_inj, UInt32.toNat_sub, hmod, UInt32.toNat_ofNat']
      simp only [UInt32.reduceToNat]
      omega
    rw [if_pos htail, hpad]

theorem selectInitrd_multi {region : Region} (htype : hdr.type = ihTypeMulti)
    (hword : m.word (lenPtr + 4) ≠ 0) (hsecond : secondFile m lenPtr = .ok region)
    (hdata : region.data ≠ 0) : selectInitrd b m hdr lenPtr none = .ok (some region) := by
  simp only [selectInitrd, htype, hword, hsecond, ne_eq, not_false_eq_true, and_self, if_true,
    bind, Except.bind, pure, Except.pure, hdata]

theorem doBootm_ok {loaded : Mem32} {initrd : Option Region}
    (hcheck : checkImage b m addr = .ok hdr) (harch : hdr.arch = ihCpuPpc)
    (hselect : selectPayload m hdr (addr + 64) = .ok payload)
    (hload : loadPayload b m hdr addr payload = .ok loaded)
    (hm' : m' = if hdr.type = ihTypeStandalone then b.appl loaded else loaded)
    (hinitrd : bootsLinux b hdr.os = true →
      selectInitrd b (l.stored m') hdr (addr + 64) none = .ok initrd) :
    doBootm b m l addr none =
      .ok ⟨payload, if bootsLinux b hdr.os then l.stored m' else m',
        if bootsLinux b hdr.os then some initrd else none⟩ := by
  subst hm'
  cases hos : bootsLinux b hdr.os with
  | true =>
    simp [doBootm, hcheck, harch, hselect, hload, hinitrd hos, hos, bind, Except.bind, pure,
      Except.pure]
  | false =>
    simp [doBootm, hcheck, harch, hselect, hload, hos, bind, Except.bind, pure, Except.pure]

theorem doBootm_payload {r : Booted} (hcheck : checkImage b m addr = .ok hdr)
    (hselect : selectPayload m hdr (addr + 64) = .ok payload)
    (hr : doBootm b m l addr none = .ok r) : r.payload = payload := by
  simp only [doBootm, hcheck, hselect, bind, Except.bind, pure, Except.pure] at hr
  split at hr
  · cases hr
  · split at hr
    · cases hr
    · split at hr
      · split at hr
        · cases hr
        · cases hr
          rfl
      · cases hr
        rfl

end

/-! ## Agreement -/

/-- The image lies in memory at `addr`. -/
structure Loaded (m : Mem32) (addr : UInt32) (image : List UInt8) : Prop where
  fits : addr.toNat + image.length ≤ 2 ^ 32
  holds : m.HoldsUpTo addr image image.length

/-- `do_bootm` boots the first of the parts, and `do_bootm_linux` takes the second one, if there is
one, as initrd. -/
def Agrees (b : Board) (l : LinuxArgs) (m : Mem32) (addr : UInt32) (parts : List (List UInt8)) :
    Prop :=
  ∃ r, doBootm b m l addr none = .ok r ∧ parts[0]? = some (r.payload.bytes m) ∧
    ∀ initrd, r.initrd = some initrd → initrd.map (fun region => region.bytes r.mem) = parts[1]?

/-- The offset of the second file in the body of a multi-file image. -/
def secondStart (files : List (List UInt8)) (first : List UInt8) : Nat :=
  4 * (files.length + 1) + padLength first.length

/-- The bytes of the body, by offset, that `do_bootm_linux` has to find unchanged: those of the
table and of the second file. -/
def InitrdReads (files : List (List UInt8)) (j : Nat) : Prop :=
  j < 4 * (files.length + 1) ∨ ∃ first second rest, files = first :: second :: rest ∧
    secondStart files first ≤ j ∧ j < secondStart files first + second.length

/-- A block of `n` bytes at `base` has none of these bytes. -/
def Misses (files : List (List UInt8)) (addr base : UInt32) (n : Nat) : Prop :=
  ∀ i < n, ∀ j, InitrdReads files j → addr + 64 + UInt32.ofNat j ≠ base + UInt32.ofNat i

/-- The payload stays where it is, or its copy leaves these bytes alone; so do the command line and
the board info. -/
structure Spares (l : LinuxArgs) (o : Options) (files : List (List UInt8)) (addr : UInt32) :
    Prop where
  payload : o.addr = addr ∨ ∀ first ∈ files.head?, Misses files addr o.addr first.length
  cmdline : Misses files addr (l.cfg.cmdline l.r1) ((argsOf l.bootargs).length + 1)
  boardInfo : Misses files addr (l.cfg.kbd l.r1) l.cfg.sizeofBd.toNat

section
variable {b : Board} {l : LinuxArgs} {m m' : Mem32} {addr lenPtr : UInt32} {o : Options}
  {mtime : UInt32} {files : List (List UInt8)} {image body : List UInt8}

def lengths (files : List (List UInt8)) : List UInt32 :=
  files.map fun file => UInt32.ofNat file.length

theorem lengthTable_eq (files : List (List UInt8)) :
    lengthTable files = (lengths files).flatMap beBytes ++ beBytes 0 := by
  rw [lengthTable, lengths, List.flatMap_map]

theorem lengths_length (files : List (List UInt8)) : (lengths files).length = files.length :=
  List.length_map ..

theorem lengthTable_length (files : List (List UInt8)) :
    (lengthTable files).length = 4 * (files.length + 1) := by
  rw [lengthTable, List.length_append, beBytes_length]
  induction files with
  | nil => rfl
  | cons file files ih =>
    rw [List.flatMap_cons, List.length_append, beBytes_length, List.length_cons]
    omega

/-- The lengths that are in the table are not zero. -/
theorem lengths_ne_zero (hne : ∀ file ∈ files, file ≠ [])
    (hsmall : ∀ file ∈ files, file.length < 2 ^ 32) : ∀ x ∈ lengths files, x ≠ 0 := by
  intro x hx hx0
  obtain ⟨file, hfile, rfl⟩ := List.mem_map.mp hx
  have hlen := List.length_pos_of_ne_nil (hne file hfile)
  have h0 : (UInt32.ofNat file.length).toNat = 0 := congrArg UInt32.toNat hx0
  rw [UInt32.toNat_ofNat_of_lt' (hsmall file hfile)] at h0
  omega

theorem layout_cons (c : List UInt8) (cs : List (List UInt8)) :
    ∃ q, layout (c :: cs) = c ++ q := by
  cases cs with
  | nil => exact ⟨[], (List.append_nil c).symm⟩
  | cons c' cs => exact ⟨_, List.append_assoc ..⟩

/-- What `do_bootm` finds at the address of an image that `mkimage` wrote. -/
structure Found (b : Board) (m : Mem32) (addr : UInt32) (o : Options) (body : List UInt8)
    (hdr : ImageHeader) : Prop where
  check : checkImage b m addr = .ok hdr
  os : hdr.os = o.os
  arch : hdr.arch = o.arch
  type : hdr.type = o.type
  comp : hdr.comp = o.comp
  load : hdr.load = o.addr
  size : hdr.size = UInt32.ofNat body.length
  fits : addr.toNat + 64 + body.length ≤ 2 ^ 32
  holds : m.HoldsUpTo (addr + 64) body body.length

theorem mkimage_found (b : Board) (h : mkimage o mtime files = some image)
    (hl : Loaded m addr image) :
    ∃ hdr body, imageBody o files = some body ∧ Found b m addr o body hdr := by
  obtain ⟨ep, body, hbody, himage⟩ := mkimage_spec h
  have hlen : image.length = 64 + body.length := by
    rw [himage, List.length_append, ImageHeader.bytes_length]
  have hfits := hl.fits
  obtain ⟨hcheck, hholds⟩ := checkImage_ok (b := b) rfl rfl rfl rfl himage (by omega) hl.holds
  exact ⟨_, body, hbody, hcheck, rfl, rfl, rfl, rfl, rfl, rfl, by omega, hholds⟩

theorem agrees_single {hdr : ImageHeader} (hbody : imageBody o files = some body)
    (hf : Found b m addr o body hdr) (harch : o.arch = ihCpuPpc) (hcomp : o.comp = ihCompNone)
    (htype : o.type = ihTypeStandalone ∨ o.type = ihTypeKernel) :
    Agrees b l m addr (files.map (contents o.xflag)) := by
  have htable : o.hasTable = false := by
    rcases htype with htype | htype <;> rw [Options.hasTable, htype] <;> decide
  unfold imageBody at hbody
  rw [htable, if_neg Bool.false_ne_true] at hbody
  obtain ⟨file, rfl⟩ : ∃ file, files = [file] := by
    split at hbody
    · exact ⟨_, rfl⟩
    · cases hbody
  obtain ⟨-, -, hcopy⟩ := copyFile_spec hbody
  have hcontents : body = contents o.xflag file := by
    rw [hcopy, if_neg Bool.false_ne_true, List.append_nil, List.nil_append]
  have hnomulti : hdr.type ≠ ihTypeMulti := by
    rw [hf.type]
    rcases htype with htype | htype <;> rw [htype] <;> decide
  have hread : (Region.mk (addr + 64) hdr.size).bytes m = body := by
    have hfits := hf.fits
    have hsmall : hdr.size.toNat = body.length := by
      rw [hf.size, UInt32.toNat_ofNat']
      omega
    have hzero : addr + 64 + UInt32.ofNat 0 = addr + 64 := UInt32.add_zero _
    rw [Region.bytes, hsmall, ← hzero, hf.holds.read (Nat.le_refl _) (by omega), List.drop_zero,
      List.take_length]
  refine ⟨_, doBootm_ok hf.check (hf.arch.trans harch)
    (selectPayload_single (by rw [hf.type]; exact htype)) (loadPayload_none (hf.comp.trans hcomp))
    rfl fun _ => selectInitrd_single hnomulti, ?_, ?_⟩
  · rw [hread, hcontents]
    rfl
  · intro initrd hinitrd
    dsimp only at hinitrd
    split_ifs at hinitrd
    cases hinitrd
    rfl

/-- The body of a multi-file image: the table, and the files as they are copied. -/
structure MultiBody (o : Options) (files : List (List UInt8)) (body : List UInt8) : Prop where
  reserved : o.xflag = true → ∀ file ∈ files, headerSize ≤ file.length
  small : ∀ file ∈ files, file.length < 2 ^ 32
  body : body = lengthTable files ++ layout (files.map (contents o.xflag))

theorem multiBody_of_table (hbody : imageBody o files = some body)
    (htable : o.hasTable = true) : MultiBody o files body ∧ files ≠ [] := by
  unfold imageBody at hbody
  rw [htable, if_pos rfl] at hbody
  obtain ⟨hres, hsmall, hcopy⟩ := copyFiles_spec hbody
  refine ⟨⟨hres, fun file hfile => ?_, hcopy⟩, fun hnil => ?_⟩
  · have hlen := hsmall file hfile
    rw [contents, List.length_drop] at hlen
    have hhead : (if o.xflag then headerSize else 0) ≤ 64 := by split_ifs <;> decide
    simp only [ssizeMax] at hlen
    omega
  · rw [hnil] at hbody
    cases hbody

theorem multiBody_of_imageBody (hbody : imageBody o files = some body)
    (htype : o.type = ihTypeMulti) : MultiBody o files body ∧ files ≠ [] :=
  multiBody_of_table hbody (by rw [Options.hasTable, htype]; decide)

theorem tableAt_of_found {hdr : ImageHeader} (hf : Found b m addr o body hdr)
    (hmulti : MultiBody o files body) : TableAt m (addr + 64) (lengths files) := by
  have hholds := hf.holds
  have hlen : 4 * ((lengths files).length + 1) ≤ body.length := by
    rw [hmulti.body, List.length_append, lengthTable_length, lengths_length]
    omega
  rw [hmulti.body, lengthTable_eq] at hholds
  refine TableAt.of_holds hholds ?_
  rw [← lengthTable_eq, ← hmulti.body]
  exact hlen

theorem few_files {hdr : ImageHeader} (hf : Found b m addr o body hdr)
    (hmulti : MultiBody o files body) : (lengths files).length ≤ memWords := by
  have hfits := hf.fits
  rw [hmulti.body, List.length_append, lengthTable_length] at hfits
  rw [lengths_length]
  show files.length ≤ 2 ^ 30
  omega

/-- With `-x`, the first entry of the table is longer than what is there of the first file. -/
theorem not_agrees_multi {hdr : ImageHeader} (hf : Found b m addr o body hdr)
    (hmulti : MultiBody o files body) (hne : ∀ file ∈ files, file ≠ [])
    (htype : o.type = ihTypeMulti) (hx : o.xflag = true) :
    ¬ Agrees b l m addr (files.map (contents o.xflag)) := by
  rintro ⟨r, hr, hpart, -⟩
  obtain ⟨file, files, rfl⟩ : ∃ file rest, files = file :: rest := by
    cases files with
    | nil => cases hpart
    | cons file rest => exact ⟨file, rest, rfl⟩
  have hselect := selectPayload_multi (hf.type.trans htype)
    (tableAt_of_found hf hmulti) (lengths_ne_zero hne hmulti.small) (List.cons_ne_nil _ _)
    (few_files hf hmulti)
  have hpayload := doBootm_payload hf.check hselect hr
  have hlen : (contents o.xflag file).length = (r.payload.bytes m).length :=
    congrArg List.length (Option.some.inj hpart)
  have hsmall := hmulti.small file (List.mem_cons_self ..)
  have hres := hmulti.reserved hx file (List.mem_cons_self ..)
  have hhead : (UInt32.ofNat file.length).toNat = file.length := by
    rw [UInt32.toNat_ofNat']
    omega
  rw [hpayload, Region.bytes, Mem32.read_length, contents, hx, if_pos rfl, List.length_drop] at hlen
  have hlen' : file.length - headerSize = (UInt32.ofNat file.length).toNat := hlen
  have h64 : headerSize = 64 := rfl
  omega

theorem payload_multi {hdr : ImageHeader} {first : List UInt8} {rest : List (List UInt8)}
    (hf : Found b m addr o body hdr) (hmulti : MultiBody o (first :: rest) body)
    (hx : o.xflag = false) :
    (Region.mk (addr + 64 + UInt32.ofNat (4 * ((lengths (first :: rest)).length + 1)))
      (UInt32.ofNat first.length)).bytes m = first := by
  have hsmall := hmulti.small first (List.mem_cons_self ..)
  have hlen : (UInt32.ofNat first.length).toNat = first.length := by
    rw [UInt32.toNat_ofNat']
    omega
  obtain ⟨q, hq⟩ := layout_cons first (rest.map (contents false))
  have hcontents : (first :: rest).map (contents false) = first :: rest.map (contents false) := rfl
  have hbody : body = lengthTable (first :: rest) ++ first ++ q := by
    rw [hmulti.body, hx, hcontents, hq, List.append_assoc]
  have hholds := hf.holds
  rw [hbody] at hholds
  rw [Region.bytes, hlen, lengths_length, ← lengthTable_length]
  refine hholds.read_split ?_
  rw [List.length_append, List.length_append]
  omega

/-- Without `-x`, the second file is where `do_bootm_linux` looks for it. -/
theorem read_second {hdr : ImageHeader} {first second : List UInt8} {rest : List (List UInt8)}
    (hf : Found b m addr o body hdr) (hmulti : MultiBody o (first :: second :: rest) body)
    (hx : o.xflag = false) :
    m.read (addr + 64 + UInt32.ofNat (secondStart (first :: second :: rest) first)) second.length =
        second ∧
      secondStart (first :: second :: rest) first + second.length ≤ body.length := by
  obtain ⟨q, hq⟩ := layout_cons second (rest.map (contents false))
  have hlayout : layout ((first :: second :: rest).map (contents false)) =
      first ++ List.replicate (padLength first.length - first.length) 0 ++ (second ++ q) := by
    rw [← hq]
    rfl
  have hbody : body = (lengthTable (first :: second :: rest) ++
      (first ++ List.replicate (padLength first.length - first.length) 0)) ++ second ++ q := by
    rw [hmulti.body, hx, hlayout]
    simp only [List.append_assoc]
  have hpad : first.length ≤ padLength first.length := Nat.le_add_right ..
  have hstart : (lengthTable (first :: second :: rest) ++
      (first ++ List.replicate (padLength first.length - first.length) 0)).length =
      secondStart (first :: second :: rest) first := by
    rw [List.length_append, lengthTable_length, List.length_append, List.length_replicate,
      secondStart]
    omega
  have hend : secondStart (first :: second :: rest) first + second.length ≤ body.length := by
    rw [hbody, List.length_append, List.length_append, hstart]
    omega
  have hholds := hf.holds.mono hend
  rw [hbody] at hholds
  refine ⟨?_, hend⟩
  rw [← hstart] at hholds ⊢
  exact hholds.read_split (Nat.le_refl _)

/-- What the copy of the payload and the stores below the stack spare is the same after them. -/
theorem stored_spared {hdr : ImageHeader} {first : List UInt8} {rest : List (List UInt8)}
    (hload : hdr.load = o.addr) (hspare : Spares l o (first :: rest) addr) {j : Nat}
    (hj : InitrdReads (first :: rest) j) :
    l.stored (if hdr.load = addr then m else m.store hdr.load first)
        (addr + 64 + UInt32.ofNat j) = m (addr + 64 + UInt32.ofNat j) := by
  have hcopy : (if hdr.load = addr then m else m.store hdr.load first)
      (addr + 64 + UInt32.ofNat j) = m (addr + 64 + UInt32.ofNat j) := by
    rw [hload]
    split_ifs with haddr
    · rfl
    · exact Mem32.store_outside fun i hi => hspare.payload.resolve_left haddr first rfl i hi j hj
  rw [LinuxArgs.stored, Mem32.store_outside, Mem32.store_outside, hcopy]
  · intro i hi
    rw [List.length_append, List.length_singleton] at hi
    exact hspare.cmdline i hi j hj
  · intro i hi
    rw [l.boardInfo_length] at hi
    exact hspare.boardInfo i hi j hj

theorem initrd_multi {hdr : ImageHeader} {first : List UInt8} {rest : List (List UInt8)}
    (hf : Found b m addr o body hdr) (hmulti : MultiBody o (first :: rest) body)
    (hne : ∀ file ∈ first :: rest, file ≠ []) (htype : o.type = ihTypeMulti)
    (hx : o.xflag = false)
    (hkeep : ∀ j, InitrdReads (first :: rest) j →
      m' (addr + 64 + UInt32.ofNat j) = m (addr + 64 + UInt32.ofNat j)) :
    ∃ initrd, selectInitrd b m' hdr (addr + 64) none = .ok initrd ∧
      initrd.map (fun region => region.bytes m') = (first :: rest)[1]? := by
  have hnonzero := lengths_ne_zero hne hmulti.small
  have htable : TableAt m' (addr + 64) (lengths (first :: rest)) :=
    (tableAt_of_found hf hmulti).congr fun j hj => hkeep j (.inl (by rwa [lengths_length] at hj))
  cases rest with
  | nil =>
    have hword : m'.word (addr + 64 + 4) = 0 := htable.stop
    exact ⟨none, selectInitrd_multi_one hword, rfl⟩
  | cons second rest =>
    have hword : m'.word (addr + 64 + 4) ≠ 0 := by
      have hentry : m'.word (addr + 64 + 4) = UInt32.ofNat second.length :=
        htable.entry 1 (Nat.succ_lt_succ (Nat.succ_pos _))
      rw [hentry]
      exact hnonzero _ (by simp [lengths])
    have hlen (file : List UInt8) (h : file ∈ first :: second :: rest) :
        (UInt32.ofNat file.length).toNat = file.length := by
      have hsmall := hmulti.small file h
      rw [UInt32.toNat_ofNat']
      omega
    obtain ⟨hread, hend⟩ := read_second hf hmulti hx
    have hpos := List.length_pos_of_ne_nil (hne second (by simp))
    have hfits := hf.fits
    have hfile := secondFile_of_table htable hnonzero (Nat.succ_lt_succ (Nat.succ_pos _))
      (few_files hf hmulti)
    have hstart : 4 * ((lengths (first :: second :: rest)).length + 1) +
        padLength (UInt32.ofNat first.length).toNat =
        secondStart (first :: second :: rest) first := by
      rw [lengths_length, hlen first (by simp), secondStart]
    have hregion : secondFile m' (addr + 64) = .ok ⟨addr + 64 +
        UInt32.ofNat (secondStart (first :: second :: rest) first),
        UInt32.ofNat second.length⟩ := by
      rw [← hstart]
      exact hfile
    have hdata : addr + 64 + UInt32.ofNat (secondStart (first :: second :: rest) first) ≠ 0 := by
      intro h0
      have hnat := congrArg UInt32.toNat h0
      rw [UInt32.toNat_add, UInt32.toNat_add, UInt32.toNat_ofNat'] at hnat
      simp only [UInt32.reduceToNat] at hnat
      have hs : 0 < secondStart (first :: second :: rest) first := by
        rw [secondStart]
        omega
      omega
    refine ⟨_, selectInitrd_multi (hf.type.trans htype) hword hregion hdata, ?_⟩
    have hsame : m'.read (addr + 64 + UInt32.ofNat (secondStart (first :: second :: rest) first))
        second.length = second := by
      refine Eq.trans (Mem32.read_congr fun i hi => ?_) hread
      rw [UInt32.add_assoc (addr + 64), ← UInt32.ofNat_add]
      exact hkeep _ (.inr ⟨first, second, rest, rfl, by omega, by omega⟩)
    simp only [Option.map_some, Region.bytes, hlen second (by simp), hsame,
      List.getElem?_cons_succ, List.getElem?_cons_zero]

theorem agrees_multi {hdr : ImageHeader} (hf : Found b m addr o body hdr)
    (hmulti : MultiBody o files body) (hfiles : files ≠ []) (hne : ∀ file ∈ files, file ≠ [])
    (harch : o.arch = ihCpuPpc) (hcomp : o.comp = ihCompNone) (htype : o.type = ihTypeMulti)
    (hx : o.xflag = false) (hspare : bootsLinux b o.os = true → Spares l o files addr) :
    Agrees b l m addr (files.map (contents o.xflag)) := by
  obtain ⟨first, rest, rfl⟩ := List.exists_cons_of_ne_nil hfiles
  have hparts : (first :: rest).map (contents o.xflag) = first :: rest := by
    rw [hx]
    exact List.map_id _
  have hselect := selectPayload_multi (hf.type.trans htype)
    (tableAt_of_found hf hmulti) (lengths_ne_zero hne hmulti.small) (List.cons_ne_nil _ _)
    (few_files hf hmulti)
  have hpayload := payload_multi hf hmulti hx
  have hload := @loadPayload_none b m addr hdr ⟨addr + 64 +
    UInt32.ofNat (4 * ((lengths (first :: rest)).length + 1)), UInt32.ofNat first.length⟩
    (hf.comp.trans hcomp)
  rw [hpayload] at hload
  have hstandalone : hdr.type ≠ ihTypeStandalone := by
    rw [hf.type, htype]
    decide
  rw [hparts]
  by_cases hos : bootsLinux b hdr.os = true
  · obtain ⟨initrd, hinitrd, hbytes⟩ := initrd_multi hf hmulti hne htype hx
      fun j hj => stored_spared hf.load (hspare (hf.os ▸ hos)) hj
    refine ⟨_, doBootm_ok hf.check (hf.arch.trans harch) hselect hload
      (if_neg hstandalone).symm fun _ => hinitrd, ?_, ?_⟩
    · exact congrArg some hpayload.symm
    · intro initrd' hinitrd'
      dsimp only at hinitrd' ⊢
      rw [if_pos hos] at hinitrd' ⊢
      cases hinitrd'
      exact hbytes
  · refine ⟨_, @doBootm_ok _ l _ _ _ _ _ _ none hf.check (hf.arch.trans harch) hselect hload
      (if_neg hstandalone).symm fun h => absurd h hos, ?_, ?_⟩
    · exact congrArg some hpayload.symm
    · intro initrd' hinitrd'
      dsimp only at hinitrd'
      rw [if_neg hos] at hinitrd'
      cases hinitrd'

/-- **`do_bootm` boots what `mkimage` was given**: of every image for PowerPC without compression,
where the copy of the payload and the stores below the stack spare what is read after them, except
for multi-file images written with `-x`. -/
theorem mkimage_bootm (b : Board) (l : LinuxArgs) (h : mkimage o mtime files = some image)
    (hl : Loaded m addr image) (hne : ∀ file ∈ files, file ≠ []) (harch : o.arch = ihCpuPpc)
    (hcomp : o.comp = ihCompNone)
    (htype : o.type = ihTypeMulti ∨ o.type = ihTypeStandalone ∨ o.type = ihTypeKernel)
    (hspare : o.type = ihTypeMulti → bootsLinux b o.os = true → Spares l o files addr) :
    Agrees b l m addr (files.map (contents o.xflag)) ↔
      ¬ (o.type = ihTypeMulti ∧ o.xflag = true) := by
  obtain ⟨hdr, body, hbody, hf⟩ := mkimage_found b h hl
  rcases htype with htype | htype
  · obtain ⟨hmulti, hfiles⟩ := multiBody_of_imageBody hbody htype
    constructor
    · rintro hagrees ⟨-, hx⟩
      exact not_agrees_multi hf hmulti hne htype hx hagrees
    · intro hx
      have hx' : o.xflag = false := Bool.eq_false_iff.mpr fun h => hx ⟨htype, h⟩
      exact agrees_multi hf hmulti hfiles hne harch hcomp htype hx' (hspare htype)
  · refine ⟨fun _ hmulti => ?_, fun _ => agrees_single hbody hf harch hcomp htype⟩
    rw [hmulti.1] at htype
    revert htype
    decide

end

/-! ## Two files -/

/-- A build for Linux, without `verify=n`. -/
def Board.linux : Board := ⟨true, false, fun _ _ _ _ => none, id⟩

/-- A multi-file image without an entry point of its own. -/
def Options.multi (xflag : Bool) : Options :=
  ⟨xflag, ihOsLinux, ihCpuPpc, ihTypeMulti, ihCompNone, 0, none, ⟨[], by decide⟩⟩

/-- A file of one byte behind the space for a header. -/
def xipFile (c : UInt8) : List UInt8 := List.replicate headerSize 0xff ++ [c]

def plainImage : List UInt8 := (mkimage (.multi false) 0 [[1, 2], [3]]).getD []

def xipImage : List UInt8 := (mkimage (.multi true) 0 [xipFile 1, xipFile 2]).getD []

theorem plainImage_eq : mkimage (.multi false) 0 [[1, 2], [3]] = some plainImage := by
  obtain ⟨image, himage⟩ : ∃ image, mkimage (.multi false) 0 [[1, 2], [3]] = some image :=
    Option.isSome_iff_exists.mp (by decide)
  rw [plainImage, himage, Option.getD_some]

theorem xipImage_eq : mkimage (.multi true) 0 [xipFile 1, xipFile 2] = some xipImage := by
  obtain ⟨image, himage⟩ : ∃ image, mkimage (.multi true) 0 [xipFile 1, xipFile 2] = some image :=
    Option.isSome_iff_exists.mp (by decide)
  rw [xipImage, himage, Option.getD_some]

def memWith (image : List UInt8) : Mem32 := Mem32.store (fun _ => 0) 0x100000 image

theorem loaded_memWith {image : List UInt8} (h : image.length ≤ 256) :
    Loaded (memWith image) 0x100000 image := by
  refine ⟨?_, Mem32.holdsUpTo_store (by omega)⟩
  simp only [UInt32.reduceToNat]
  omega

/-- 8 MB for the kernel, 1 kB for a command line of 13 characters and 100 bytes of board info. -/
def LinuxArgs.one : LinuxArgs where
  cfg := ⟨0x800000, 0x400, 100⟩
  r1 := 0x1ff0000
  bootargs := some ⟨ascii "root=/dev/ram", by decide⟩
  boardInfo _ := List.replicate 100 0
  boardInfo_length _ := List.length_replicate

/-- Blocks that are not in the first 64 bytes behind the header of the image. -/
theorem misses_plain {base : UInt32} {n : Nat} (h : base.toNat + n ≤ 0x100040 ∨
    0x100080 ≤ base.toNat ∧ base.toNat + n ≤ 2 ^ 32) :
    Misses [[1, 2], [3]] 0x100000 base n := by
  intro i hi j hj heq
  have hj' : j < 64 := by
    rcases hj with hj | ⟨_, _, _, hfiles, -, hj⟩
    · simp at hj
      omega
    · cases hfiles
      simp [secondStart, padLength] at hj
      omega
  have hnat := congrArg UInt32.toNat heq
  simp only [UInt32.toNat_add, UInt32.toNat_ofNat', UInt32.reduceToNat] at hnat
  omega

theorem plainImage_spares : Spares .one (.multi false) [[1, 2], [3]] 0x100000 where
  payload := .inr fun first hfirst => by
    cases hfirst
    exact misses_plain (.inl (by decide))
  cmdline := misses_plain (.inr (by decide))
  boardInfo := misses_plain (.inr (by decide))

theorem mkimage_bootm_plain :
    mkimage (.multi false) 0 [[1, 2], [3]] = some plainImage ∧
      Agrees .linux .one (memWith plainImage) 0x100000 ([[1, 2], [3]].map (contents false)) :=
  ⟨plainImage_eq, (mkimage_bootm .linux .one plainImage_eq (loaded_memWith (by decide))
    (by simp) rfl rfl (.inl rfl) fun _ _ => plainImage_spares).mpr fun h => Bool.false_ne_true h.2⟩

/-- With `-x`, `do_bootm` takes 65 bytes for the first file. -/
theorem mkimage_bootm_xip :
    mkimage (.multi true) 0 [xipFile 1, xipFile 2] = some xipImage ∧
      Loaded (memWith xipImage) 0x100000 xipImage ∧
      ¬ Agrees .linux .one (memWith xipImage) 0x100000
        ([xipFile 1, xipFile 2].map (contents true)) := by
  have hl : Loaded (memWith xipImage) 0x100000 xipImage := loaded_memWith (by decide)
  obtain ⟨hdr, body, hbody, hf⟩ := mkimage_found .linux xipImage_eq hl
  obtain ⟨hmulti, -⟩ := multiBody_of_imageBody hbody rfl
  exact ⟨xipImage_eq, hl, not_agrees_multi hf hmulti (by simp [xipFile]) rfl rfl⟩

end UBoot.Image
