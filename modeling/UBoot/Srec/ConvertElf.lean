import UBoot.Srec.Img2srec
import Mathlib.Data.List.DropRight

/-!
# ELF files as S-records: `ConvertELF` (`tools/img2srec.c`)

A file is its bytes; `fread` gives what is left where there is less than asked for. The loop that
reads a section has no bound of its own: with fuel for each turn, it answers `none` where the fuel
is spent. Writes behind the end of `sectHeader` and of `srecLine` end in `Oob.write`.
-/

namespace UBoot.Srec

open UBoot.Lib UBoot.Common

structure File where
  bytes : List UInt8
  pos : ℕ

def File.fread (f : File) (n : ℕ) : List UInt8 × File :=
  let rx := (f.bytes.drop f.pos).take n
  (rx, { f with pos := f.pos + rx.length })

def File.fseek (f : File) (offset : UInt32) : File := { f with pos := offset.toNat }

def extractWord (rxBlock : List UInt8) (i : ℕ) : ℕ :=
  (rxBlock.getD i 0).toNat * 256 + (rxBlock.getD (i + 1) 0).toNat

def extractLong (rxBlock : List UInt8) (i : ℕ) : UInt32 := addrOf ((rxBlock.drop i).take 4)

/-- `sizeof (Elf32_Ehdr)`, `sizeof (Elf32_Shdr)`, `ET_EXEC`, `SHT_PROGBITS` -/
def ehdrSize : ℕ := 52
def shdrSize : ℕ := 40
def etExec : ℕ := 2
def shtProgbits : UInt32 := 1

/-- The sizes of `sectHeader` and of `srecLine` -/
def maxSections : ℕ := 32
def srecLineSize : ℕ := 128

/-- What is used of an `Elf32_Ehdr`. -/
structure Ehdr where
  ident : List UInt8
  type : ℕ
  shoff : UInt32
  shnum : ℕ

/-- What is used of an `Elf32_Shdr`. -/
structure Shdr where
  type : UInt32
  flags : UInt32
  addr : UInt32
  offset : UInt32
  size : UInt32

def extractEhdr (rxBlock : List UInt8) : Ehdr where
  ident := rxBlock.take 4
  type := extractWord rxBlock 16
  shoff := extractLong rxBlock 32
  shnum := extractWord rxBlock 48

def extractShdr (rxBlock : List UInt8) : Shdr where
  type := extractLong rxBlock 4
  flags := extractLong rxBlock 8
  addr := extractLong rxBlock 12
  offset := extractLong rxBlock 16
  size := extractLong rxBlock 20

/-- `ELFMAG0`, … -/
def elfMag : List UInt8 := [0x7f, 69, 76, 70]

/-- The loop that reads the section headers; `none` for an illegal file. -/
def readSections : ℕ → File → List Shdr → Except Oob (Option (List Shdr))
  | 0, _, done => .ok (some done)
  | todo + 1, file, done =>
    let (rxBlock, file) := file.fread shdrSize
    if maxSections ≤ done.length then .error .write
    else if rxBlock.length ≠ shdrSize then .ok none
    else readSections todo file (done ++ [extractShdr rxBlock])

/-- A record in `srecLine`, as it is printed. -/
def srecLine (sType : UInt16) (addr : UInt32) (data : List UInt8) : Except Oob (List UInt8) :=
  let line := buildSRecord sType addr data
  if srecLineSize < line.length then .error .write else .ok (cstrAt line)

/-- The locals of `ConvertELF` while it writes data records, and the lines that are printed. -/
structure Conv where
  file : File
  firstAddr : UInt32
  loadAddr : UInt32
  loadDiff : UInt32
  out : List (List UInt8)

/-- `while (loadSize)` -/
def emitLoop (loadOffset : UInt32) : ℕ → ℕ → Conv → Except Oob (Option Conv)
  | 0, _, _ => .ok none
  | fuel + 1, loadSize, s =>
    if loadSize = 0 then .ok (some s)
    else do
      let (rxBlock, file) := s.file.fread (if 32 < loadSize then 32 else loadSize)
      let line ← srecLine 3 (s.loadAddr + loadOffset) rxBlock
      emitLoop loadOffset fuel (loadSize - rxBlock.length)
        { s with
          file := file
          loadAddr := s.loadAddr + UInt32.ofNat rxBlock.length
          out := s.out ++ [line] }

def Shdr.Loads (sh : Shdr) : Prop := sh.type = shtProgbits ∧ sh.size ≠ 0

instance (sh : Shdr) : Decidable sh.Loads := inferInstanceAs (Decidable (_ ∧ _))

/-- The address of a section, and the locals before its records. -/
def Conv.enter (s : Conv) (sh : Shdr) : Conv :=
  let loadAddr := if sh.flags ≠ 0 then sh.addr else sh.offset + s.loadDiff
  { s with
    file := s.file.fseek sh.offset
    loadAddr := loadAddr
    loadDiff := if sh.flags ≠ 0 then loadAddr - sh.offset else s.loadDiff
    firstAddr := if loadAddr < s.firstAddr then loadAddr else s.firstAddr }

def emitSections (loadOffset : UInt32) (fuel : ℕ) : List Shdr → Conv → Except Oob (Option Conv)
  | [], s => .ok (some s)
  | sh :: shs, s =>
    if sh.Loads then do
      match ← emitLoop loadOffset fuel sh.size.toNat (s.enter sh) with
      | none => .ok none
      | some s => emitSections loadOffset fuel shs s
    else emitSections loadOffset fuel shs s

/-- `ConvertELF` behind the check of the header. -/
def convertSections (fuel : ℕ) (fileName : List UInt8) (file : File) (elfHeader : Ehdr)
    (loadOffset : UInt32) : Except Oob (Option (Option (List (List UInt8)))) := do
  match ← readSections elfHeader.shnum (file.fseek elfHeader.shoff) [] with
  | none => return some none
  | some sectHeader =>
    let hdrName := fileName.rtakeWhile (· ≠ 47)
    let start ← srecLine 0 0 hdrName
    match ← emitSections loadOffset fuel sectHeader ⟨file, ~~~0, 0, 0, [start]⟩ with
    | none => return none
    | some s =>
      let stop ← srecLine 7 (s.firstAddr + loadOffset) []
      return some (some (s.out ++ [stop]))

/-- `ConvertELF`: the lines it prints, or `none` for an illegal file. -/
def convertElf (fuel : ℕ) (fileName bytes : List UInt8) (loadOffset : UInt32) :
    Except Oob (Option (Option (List (List UInt8)))) :=
  let (rxBlock, file) := File.fread ⟨bytes, 0⟩ ehdrSize
  let elfHeader := extractEhdr rxBlock
  if rxBlock.length ≠ ehdrSize ∨ elfHeader.ident ≠ elfMag ∨ elfHeader.type ≠ etExec then
    .ok (some none)
  else convertSections fuel fileName file elfHeader loadOffset

/-! ## What it should do -/

def recordsFrom (addr : UInt32) : List (List UInt8) → List (List UInt8)
  | [] => []
  | data :: rest =>
    cstrAt (buildSRecord 3 addr data) :: recordsFrom (addr + UInt32.ofNat data.length) rest

/-- A section is written in consecutive records, and their data are all its bytes. -/
def Written (bytes : List UInt8) (loadOffset : UInt32) (sh : Shdr) (lines : List (List UInt8)) :
    Prop :=
  ∃ addr pieces, lines = recordsFrom (addr + loadOffset) pieces ∧ (sh.flags ≠ 0 → addr = sh.addr) ∧
    pieces.flatten = (bytes.drop sh.offset.toNat).take sh.size.toNat ∧
    pieces.flatten.length = sh.size.toNat

def elfHeaderOf (bytes : List UInt8) : Ehdr := extractEhdr (bytes.take ehdrSize)

/-- Section header `i`. -/
def sectionAt (bytes : List UInt8) (i : ℕ) : Shdr :=
  extractShdr ((bytes.drop ((elfHeaderOf bytes).shoff.toNat + shdrSize * i)).take shdrSize)

def sectionsOf (bytes : List UInt8) : List Shdr :=
  (List.range (elfHeaderOf bytes).shnum).map (sectionAt bytes)

/-- What `ConvertELF` should do. -/
def Converts (fileName bytes : List UInt8) (loadOffset : UInt32) : Prop :=
  ∃ fuel r, convertElf fuel fileName bytes loadOffset = .ok (some r) ∧
    ∀ out, r = some out → ∃ start parts stop, out = start :: (parts.flatten ++ [stop]) ∧
      List.Forall₂ (Written bytes loadOffset) ((sectionsOf bytes).filter fun sh => sh.Loads) parts

/-- Section header `i` has a place in `sectHeader`, and is cut off in the file. -/
def Cut (bytes : List UInt8) (i : ℕ) : Prop :=
  i < maxSections ∧ i < (elfHeaderOf bytes).shnum ∧
    bytes.length < (elfHeaderOf bytes).shoff.toNat + shdrSize * (i + 1)

def Executable (bytes : List UInt8) : Prop :=
  ehdrSize ≤ bytes.length ∧ (elfHeaderOf bytes).ident = elfMag ∧ (elfHeaderOf bytes).type = etExec

/-- The file is refused: it is no executable, or a section header is cut off. -/
def Refused (bytes : List UInt8) : Prop := ¬ Executable bytes ∨ ∃ i, Cut bytes i

/-- There is room for the section headers and for the name. -/
def Room (fileName bytes : List UInt8) : Prop :=
  (elfHeaderOf bytes).shnum ≤ maxSections ∧ (fileName.rtakeWhile (· ≠ 47)).length ≤ 58

/-- All sections that are written lie in the file. -/
def Complete (bytes : List UInt8) : Prop :=
  ∀ sh ∈ sectionsOf bytes, sh.Loads → sh.offset.toNat + sh.size.toNat ≤ bytes.length

/-! ## Records and reads -/

section
variable {sType : UInt16} {addr loadOffset : UInt32} {data bytes : List UInt8} {addrLen n fuel : ℕ}
  {f : File}

theorem buildSRecord_length (h : addrLenOf sType = some addrLen) :
    (buildSRecord sType addr data).length = 2 * addrLen + 2 * data.length + 7 := by
  have hhex (b : UInt8) : (hexByte b).length = 2 := rfl
  have haddr : (addrBytes addrLen addr).length = addrLen := by
    rw [addrBytes, List.length_map, List.length_range]
  rw [buildSRecord_eq h, recordLine]
  simp only [List.length_append, List.length_cons, hhex, flatMap_hexByte_length, haddr,
    List.length_nil]
  omega

theorem srecLine_eq (h : addrLenOf sType = some addrLen) :
    srecLine sType addr data = if 2 * addrLen + 2 * data.length + 7 ≤ srecLineSize
      then .ok (cstrAt (buildSRecord sType addr data)) else .error .write := by
  rw [srecLine, buildSRecord_length h, ← ite_not]
  simp only [Nat.not_lt]

theorem fread_eq : f.fread n =
    ((f.bytes.drop f.pos).take n, { f with pos := f.pos + min n (f.bytes.length - f.pos) }) := by
  rw [File.fread, List.length_take, List.length_drop]

theorem fread_length : (f.fread n).1.length = min n (f.bytes.length - f.pos) := by
  rw [fread_eq, List.length_take, List.length_drop]

variable (bytes) in
/-- The section headers from number `i` on: one of them is cut off, or all are read, if they have a
place. -/
theorem readSections_spec (todo : ℕ) {i : ℕ} (hi : i ≤ maxSections)
    (htodo : i + todo = (elfHeaderOf bytes).shnum) :
    let r := readSections todo ⟨bytes, (elfHeaderOf bytes).shoff.toNat + shdrSize * i⟩
      ((List.range i).map (sectionAt bytes))
    ((∃ k, i ≤ k ∧ Cut bytes k) → r = .ok none) ∧
    ((¬ ∃ k, i ≤ k ∧ Cut bytes k) → r = if (elfHeaderOf bytes).shnum ≤ maxSections
      then .ok (some (sectionsOf bytes)) else .error .write) := by
  induction todo generalizing i with
  | zero =>
    rw [Nat.add_zero] at htodo
    refine ⟨fun ⟨k, hk, _, hlt, _⟩ => absurd hlt (by omega), fun _ => ?_⟩
    rw [readSections, if_pos (by omega), sectionsOf, htodo]
  | succ todo ih =>
    rw [readSections]
    dsimp only
    rw [List.length_map, List.length_range]
    by_cases hfull : maxSections ≤ i
    · rw [if_pos hfull]
      exact ⟨fun ⟨k, hk, hlt, _, _⟩ => absurd hlt (by omega), fun _ => (if_neg (by omega)).symm⟩
    rw [if_neg hfull, fread_length]
    dsimp only
    by_cases hcut : Cut bytes i
    · have hshort := hcut.2.2
      unfold shdrSize at *
      rw [if_pos (by omega)]
      exact ⟨fun _ => rfl, fun h => absurd ⟨_, le_rfl, hcut⟩ h⟩
    have hlen : (elfHeaderOf bytes).shoff.toNat + shdrSize * (i + 1) ≤ bytes.length :=
      Nat.le_of_not_lt fun h => hcut ⟨by omega, by omega, h⟩
    have hread : min shdrSize (bytes.length - ((elfHeaderOf bytes).shoff.toNat + shdrSize * i)) =
        shdrSize := by
      unfold shdrSize at *
      omega
    obtain ⟨hnone, hsome⟩ := ih (i := i + 1) (by omega) (by omega)
    rw [List.range_succ, List.map_append] at hnone hsome
    rw [hread, if_neg (not_not.mpr rfl), fread_eq]
    dsimp only
    rw [hread, Nat.add_assoc]
    have hfirst : (∃ k, i ≤ k ∧ Cut bytes k) ↔ ∃ k, i + 1 ≤ k ∧ Cut bytes k := by
      refine ⟨fun ⟨k, hk, hk'⟩ => ⟨k, ?_, hk'⟩, fun ⟨k, hk, hk'⟩ => ⟨k, by omega, hk'⟩⟩
      rcases Nat.lt_or_eq_of_le hk with hlt | rfl
      · exact hlt
      · exact absurd hk' hcut
    rw [hfirst]
    exact ⟨hnone, hsome⟩

/-! ## The data of a section -/

variable {loadSize : ℕ} {s : Conv}

theorem srecLine_data (h : data.length ≤ 32) :
    srecLine 3 addr data = .ok (cstrAt (buildSRecord 3 addr data)) := by
  have hlen : addrLenOf 3 = some 4 := rfl
  have hroom : 2 * 4 + 2 * data.length + 7 ≤ srecLineSize := by
    unfold srecLineSize
    omega
  rw [srecLine_eq hlen, if_pos hroom]

theorem emitLoop_succ (hsize : loadSize ≠ 0) :
    let n := min (min 32 loadSize) (s.file.bytes.length - s.file.pos)
    let data := (s.file.bytes.drop s.file.pos).take (min 32 loadSize)
    emitLoop loadOffset (fuel + 1) loadSize s =
      emitLoop loadOffset fuel (loadSize - n)
        { s with
          file := { s.file with pos := s.file.pos + n }
          loadAddr := s.loadAddr + UInt32.ofNat n
          out := s.out ++ [cstrAt (buildSRecord 3 (s.loadAddr + loadOffset) data)] } := by
  have hmin : (if 32 < loadSize then 32 else loadSize) = min 32 loadSize := by
    split_ifs <;> omega
  have hlen : ((s.file.bytes.drop s.file.pos).take (min 32 loadSize)).length =
      min (min 32 loadSize) (s.file.bytes.length - s.file.pos) := by
    rw [List.length_take, List.length_drop]
  dsimp only
  rw [emitLoop, if_neg hsize, hmin, fread_eq]
  dsimp only
  rw [srecLine_data (by omega), hlen]
  rfl

variable (loadOffset) in
theorem emitLoop_ends (hfuel : loadSize < fuel)
    (hfit : s.file.pos + loadSize ≤ s.file.bytes.length) :
    ∃ pieces s', emitLoop loadOffset fuel loadSize s = .ok (some s') ∧
      s'.out = s.out ++ recordsFrom (s.loadAddr + loadOffset) pieces ∧
      pieces.flatten = (s.file.bytes.drop s.file.pos).take loadSize ∧
      s'.file.bytes = s.file.bytes := by
  induction fuel generalizing loadSize s with
  | zero => exact absurd hfuel (Nat.not_lt_zero _)
  | succ fuel ih =>
    by_cases hsize : loadSize = 0
    · subst hsize
      exact ⟨[], s, rfl, (List.append_nil _).symm, rfl, rfl⟩
    have hn : min (min 32 loadSize) (s.file.bytes.length - s.file.pos) = min 32 loadSize := by omega
    rw [emitLoop_succ hsize]
    dsimp only
    rw [hn]
    generalize hdata : (s.file.bytes.drop s.file.pos).take (min 32 loadSize) = data
    have hlen : data.length = min 32 loadSize := by
      rw [← hdata, List.length_take, List.length_drop, hn]
    have hless : loadSize - min 32 loadSize < fuel := by omega
    obtain ⟨pieces, s', hrun, hout, hflat, hbytes⟩ := ih hless
      (s := { s with
        file := { s.file with pos := s.file.pos + min 32 loadSize }
        loadAddr := s.loadAddr + UInt32.ofNat (min 32 loadSize)
        out := s.out ++ [cstrAt (buildSRecord 3 (s.loadAddr + loadOffset) data)] })
      (by dsimp only; omega)
    refine ⟨data :: pieces, s', hrun, ?_, ?_, hbytes⟩
    · rw [hout, recordsFrom, hlen, List.append_assoc, List.singleton_append]
      congr 3
      rw [UInt32.add_assoc, UInt32.add_comm (UInt32.ofNat _), ← UInt32.add_assoc]
    · rw [List.flatten_cons, hflat, ← hdata, ← List.drop_drop, ← List.take_add,
        Nat.add_sub_cancel' (Nat.min_le_right ..)]

variable (loadOffset fuel loadSize s) in
theorem emitLoop_file : ∃ r, emitLoop loadOffset fuel loadSize s = .ok r ∧
    ∀ s', r = some s' → s'.file.bytes = s.file.bytes := by
  induction fuel generalizing loadSize s with
  | zero => exact ⟨none, rfl, fun _ h => absurd h (by simp)⟩
  | succ fuel ih =>
    by_cases hsize : loadSize = 0
    · subst hsize
      exact ⟨some s, rfl, fun _ h => by cases h; rfl⟩
    · rw [emitLoop_succ hsize]
      exact ih _ _

/-- A section that does not lie in the file is written without an end. -/
theorem emitLoop_hangs (hshort : s.file.bytes.length - s.file.pos < loadSize) :
    emitLoop loadOffset fuel loadSize s = .ok none := by
  induction fuel generalizing loadSize s with
  | zero => rfl
  | succ fuel ih =>
    rw [emitLoop_succ (by omega)]
    exact ih (by dsimp only; omega)

/-! ## All sections -/

theorem Shdr.Loads.size_ne {sh : Shdr} (h : sh.Loads) : sh.size.toNat ≠ 0 :=
  fun hzero => h.2 (UInt32.toNat_inj.mp hzero)

variable (loadOffset) in
theorem emitSections_ends {shs : List Shdr}
    (hfit : ∀ sh ∈ shs, sh.Loads → sh.offset.toNat + sh.size.toNat ≤ s.file.bytes.length)
    (hfuel : 2 ^ 32 ≤ fuel) :
    ∃ parts s', emitSections loadOffset fuel shs s = .ok (some s') ∧
      s'.out = s.out ++ parts.flatten ∧
      List.Forall₂ (Written s.file.bytes loadOffset) (shs.filter fun sh => sh.Loads) parts := by
  induction shs generalizing s with
  | nil => exact ⟨[], s, rfl, (List.append_nil _).symm, .nil⟩
  | cons sh shs ih =>
    obtain ⟨hsh, hshs⟩ := List.forall_mem_cons.mp hfit
    rw [emitSections]
    by_cases hloads : sh.Loads
    swap
    · rw [if_neg hloads, List.filter_cons_of_neg (by simpa using hloads)]
      exact ih hshs
    rw [if_pos hloads, List.filter_cons_of_pos (by simpa using hloads)]
    have hless : sh.size.toNat < fuel := sh.size.toNat_lt.trans_le hfuel
    have hbytes : (s.enter sh).file.bytes = s.file.bytes := rfl
    obtain ⟨pieces, s₁, hrun, hout, hflat, hsame⟩ := emitLoop_ends loadOffset hless
      (s := s.enter sh) (hsh hloads)
    rw [hbytes] at hsame hflat
    rw [hrun]
    obtain ⟨parts, s₂, hrest, hout₂, hparts⟩ := ih (s := s₁) (hsame ▸ hshs)
    rw [hsame] at hparts
    refine ⟨_ :: parts, s₂, hrest, ?_,
      .cons ⟨(s.enter sh).loadAddr, pieces, rfl, ?_, hflat, ?_⟩ hparts⟩
    · rw [hout₂, hout, List.flatten_cons, List.append_assoc]
      rfl
    · intro hflags
      exact if_pos hflags
    · rw [hflat, List.length_take, List.length_drop]
      have hlen : s.file.bytes.length - sh.offset.toNat ≥ sh.size.toNat := by
        have := hsh hloads
        omega
      exact Nat.min_eq_left hlen

theorem emitSections_hangs {shs : List Shdr}
    (hbad : ∃ sh ∈ shs, sh.Loads ∧ s.file.bytes.length < sh.offset.toNat + sh.size.toNat) :
    emitSections loadOffset fuel shs s = .ok none := by
  induction shs generalizing s with
  | nil =>
    obtain ⟨sh, hmem, -⟩ := hbad
    cases hmem
  | cons sh shs ih =>
    rw [emitSections]
    by_cases hhere : sh.Loads ∧ s.file.bytes.length < sh.offset.toNat + sh.size.toNat
    · obtain ⟨hloads, hshort⟩ := hhere
      have hsize := hloads.size_ne
      have hhang : emitLoop loadOffset fuel sh.size.toNat (s.enter sh) = .ok none := by
        refine emitLoop_hangs ?_
        show s.file.bytes.length - sh.offset.toNat < sh.size.toNat
        omega
      rw [if_pos hloads, hhang]
      rfl
    have hlater : ∃ sh ∈ shs, sh.Loads ∧ s.file.bytes.length < sh.offset.toNat + sh.size.toNat := by
      obtain ⟨sh', hmem, hsh'⟩ := hbad
      rcases List.mem_cons.mp hmem with rfl | hmem
      · exact absurd hsh' hhere
      · exact ⟨sh', hmem, hsh'⟩
    split_ifs with hloads
    · obtain ⟨r, hr, hsame⟩ := emitLoop_file loadOffset fuel sh.size.toNat (s.enter sh)
      rw [hr]
      cases r with
      | none => rfl
      | some s₁ =>
        have hbytes : s₁.file.bytes = s.file.bytes := hsame s₁ rfl
        exact ih (hbytes ▸ hlater)
    · exact ih hlater

/-! ## `ConvertELF` -/

variable {fileName : List UInt8}

theorem convertElf_eq :
    (¬ Executable bytes → convertElf fuel fileName bytes loadOffset = .ok (some none)) ∧
    (Executable bytes → convertElf fuel fileName bytes loadOffset =
      convertSections fuel fileName ⟨bytes, ehdrSize⟩ (elfHeaderOf bytes) loadOffset) := by
  unfold convertElf
  dsimp only
  have hread : (File.fread ⟨bytes, 0⟩ ehdrSize).1 = bytes.take ehdrSize := rfl
  have hlen : (bytes.take ehdrSize).length = min ehdrSize bytes.length := List.length_take
  have hheader : (min ehdrSize bytes.length ≠ ehdrSize ∨ (elfHeaderOf bytes).ident ≠ elfMag ∨
      (elfHeaderOf bytes).type ≠ etExec) ↔ ¬ Executable bytes := by
    unfold Executable
    have hfull : min ehdrSize bytes.length ≠ ehdrSize ↔ ¬ ehdrSize ≤ bytes.length := by omega
    rw [not_and_or, not_and_or, hfull]
  rw [hread, hlen]
  refine ⟨fun h => if_pos (hheader.mpr h), fun h => ?_⟩
  have hpos : (File.fread ⟨bytes, 0⟩ ehdrSize).2 = ⟨bytes, ehdrSize⟩ := by
    rw [fread_eq]
    dsimp only
    rw [Nat.sub_zero, Nat.min_eq_left h.1, Nat.zero_add]
  rw [hpos]
  exact if_neg (not_not.mpr h ∘ hheader.mp)

variable {file : File}

variable (file) in
theorem sections_read (hfile : file.bytes = bytes) :
    ((∃ k, Cut bytes k) → readSections (elfHeaderOf bytes).shnum
      (file.fseek (elfHeaderOf bytes).shoff) [] = .ok none) ∧
    ((¬ ∃ k, Cut bytes k) → readSections (elfHeaderOf bytes).shnum
      (file.fseek (elfHeaderOf bytes).shoff) [] = if (elfHeaderOf bytes).shnum ≤ maxSections
        then .ok (some (sectionsOf bytes)) else .error .write) := by
  have hspec := readSections_spec bytes (elfHeaderOf bytes).shnum (Nat.zero_le maxSections)
    (Nat.zero_add _)
  subst hfile
  simp only [Nat.zero_le, true_and, Nat.mul_zero, Nat.add_zero] at hspec
  exact hspec

theorem start_line : srecLine 0 0 data =
    if data.length ≤ 58 then .ok (cstrAt (buildSRecord 0 0 data)) else .error .write := by
  have hlen : addrLenOf 0 = some 2 := rfl
  have hroom : 2 * 2 + 2 * data.length + 7 ≤ srecLineSize ↔ data.length ≤ 58 := by
    unfold srecLineSize
    omega
  rw [srecLine_eq hlen]
  exact if_congr hroom rfl rfl

theorem stop_line : srecLine 7 addr [] = .ok (cstrAt (buildSRecord 7 addr [])) :=
  (srecLine_eq rfl).trans (if_pos (by decide))

variable (fuel loadOffset file) in
theorem convertSections_write (hfile : file.bytes = bytes) (hcut : ¬ ∃ k, Cut bytes k)
    (hroom : ¬ Room fileName bytes) :
    convertSections fuel fileName file (elfHeaderOf bytes) loadOffset = .error .write := by
  rw [convertSections, (sections_read file hfile).2 hcut]
  by_cases hnum : (elfHeaderOf bytes).shnum ≤ maxSections
  · rw [if_pos hnum]
    dsimp only [bind, Except.bind]
    rw [start_line, if_neg fun h => hroom ⟨hnum, h⟩]
  · rw [if_neg hnum]
    rfl

variable (fuel loadOffset file) in
theorem convertSections_room (hfile : file.bytes = bytes) (hcut : ¬ ∃ k, Cut bytes k)
    (hroom : Room fileName bytes) : ∃ start,
    (emitSections loadOffset fuel (sectionsOf bytes) ⟨file, ~~~0, 0, 0, [start]⟩ = .ok none →
      convertSections fuel fileName file (elfHeaderOf bytes) loadOffset = .ok none) ∧
    ∀ s, emitSections loadOffset fuel (sectionsOf bytes) ⟨file, ~~~0, 0, 0, [start]⟩ =
        .ok (some s) →
      ∃ stop, convertSections fuel fileName file (elfHeaderOf bytes) loadOffset =
        .ok (some (some (s.out ++ [stop]))) := by
  refine ⟨cstrAt (buildSRecord 0 0 (fileName.rtakeWhile (· ≠ 47))), ?_⟩
  rw [convertSections, (sections_read file hfile).2 hcut, if_pos hroom.1]
  dsimp only [bind, Except.bind]
  rw [start_line, if_pos hroom.2]
  dsimp only
  refine ⟨fun h => by rw [h]; rfl,
    fun s h => ⟨cstrAt (buildSRecord 7 (s.firstAddr + loadOffset) []), ?_⟩⟩
  rw [h]
  dsimp only
  rw [stop_line]
  rfl

/-! ## Every file -/

theorem converts_refused (h : Refused bytes) : Converts fileName bytes loadOffset := by
  refine ⟨0, none, ?_, fun _ h => by cases h⟩
  by_cases hexec : Executable bytes
  · have hcut := h.resolve_left (not_not.mpr hexec)
    rw [convertElf_eq.2 hexec, convertSections, (sections_read ⟨bytes, ehdrSize⟩ rfl).1 hcut]
    rfl
  · exact convertElf_eq.1 hexec

theorem not_converts_room (h : ¬ Refused bytes) (hroom : ¬ Room fileName bytes) :
    ¬ Converts fileName bytes loadOffset := by
  obtain ⟨hexec, hcut⟩ := not_or.mp h
  rintro ⟨fuel, r, hr, -⟩
  rw [convertElf_eq.2 (not_not.mp hexec),
    convertSections_write loadOffset fuel ⟨bytes, ehdrSize⟩ rfl hcut hroom] at hr
  cases hr

theorem not_converts_short (h : ¬ Refused bytes) (hroom : Room fileName bytes) {sh : Shdr}
    (hmem : sh ∈ sectionsOf bytes) (hloads : sh.Loads)
    (hshort : bytes.length < sh.offset.toNat + sh.size.toNat) :
    ¬ Converts fileName bytes loadOffset := by
  obtain ⟨hexec, hcut⟩ := not_or.mp h
  rintro ⟨fuel, r, hr, -⟩
  obtain ⟨start, hnone, -⟩ := convertSections_room loadOffset fuel ⟨bytes, ehdrSize⟩ rfl hcut hroom
  rw [convertElf_eq.2 (not_not.mp hexec), hnone (emitSections_hangs
    (s := ⟨⟨bytes, ehdrSize⟩, ~~~0, 0, 0, [start]⟩) ⟨sh, hmem, hloads, hshort⟩)] at hr
  cases hr

theorem converts_all (h : ¬ Refused bytes) (hroom : Room fileName bytes)
    (hfit : Complete bytes) : Converts fileName bytes loadOffset := by
  obtain ⟨hexec, hcut⟩ := not_or.mp h
  obtain ⟨fuel, hfuel⟩ : ∃ fuel, 2 ^ 32 ≤ fuel := ⟨_, le_rfl⟩
  obtain ⟨start, -, hsome⟩ := convertSections_room loadOffset fuel ⟨bytes, ehdrSize⟩ rfl hcut hroom
  obtain ⟨parts, s, hs, hout, hparts⟩ := emitSections_ends loadOffset
    (s := ⟨⟨bytes, ehdrSize⟩, ~~~0, 0, 0, [start]⟩) hfit hfuel
  obtain ⟨stop, hstop⟩ := hsome s hs
  refine ⟨fuel, _, (convertElf_eq.2 (not_not.mp hexec)).trans hstop,
    fun out h => ⟨start, parts, stop, ?_, hparts⟩⟩
  cases h
  rw [hout, List.append_assoc]
  rfl

end

/-- **`ConvertELF` converts a file** exactly if the file is refused, or there is room for its
section headers and for its name and the sections that are written lie in the file. -/
theorem convert_elf_iff (fileName bytes : List UInt8) (loadOffset : UInt32) :
    Converts fileName bytes loadOffset ↔ Refused bytes ∨ Room fileName bytes ∧ Complete bytes := by
  by_cases h : Refused bytes
  · exact iff_of_true (converts_refused h) (.inl h)
  rw [or_iff_right h]
  constructor
  · intro hconverts
    have hroom : Room fileName bytes := by_contra fun hroom => not_converts_room h hroom hconverts
    exact ⟨hroom, fun sh hmem hloads => Nat.le_of_not_lt fun hshort =>
      not_converts_short h hroom hmem hloads hshort hconverts⟩
  · rintro ⟨hroom, hfit⟩
    exact converts_all h hroom hfit

/-- An executable with one section of one byte, and nothing behind its section header. -/
def shortElf : List UInt8 :=
  elfMag ++ List.replicate 12 0 ++ [0, 2, 0, 20, 0, 0, 0, 1] ++ List.replicate 8 0 ++
    [0, 0, 0, 52] ++ List.replicate 4 0 ++ [0, 52, 0, 0, 0, 0, 0, 40, 0, 1, 0, 0] ++
    [0, 0, 0, 0, 0, 0, 0, 1, 0, 0, 0, 0, 0, 0, 0, 0, 0, 0, 0, 92, 0, 0, 0, 1] ++
    List.replicate 16 0

/-- The loop of that section has no end. -/
theorem convert_elf_hangs : ¬ Converts (ascii "a") shortElf 0 := by
  have hexec : Executable shortElf := ⟨by decide, by decide, by decide⟩
  have hnum : (elfHeaderOf shortElf).shnum = 1 := by decide
  have hmem : sectionAt shortElf 0 ∈ sectionsOf shortElf :=
    List.mem_map_of_mem (List.mem_range.mpr (by decide))
  refine not_converts_short (not_or.mpr ⟨not_not.mpr hexec, ?_⟩) ⟨by decide, by decide⟩ hmem
    (by decide) (by decide)
  rintro ⟨i, -, hi, hcut⟩
  obtain rfl : i = 0 := by omega
  exact absurd hcut (by decide)

end UBoot.Srec
