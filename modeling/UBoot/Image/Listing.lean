import UBoot.Image.Agree
import UBoot.Lib.Align

/-!
# The listing of an image (`tools/mkimage.c`)

`main` ends with `print_header`, which gives for each file of a script image where it is in the
image. It computes this from the table of lengths; `fileStarts` is where `copy_file` put the files.
`mkimage_listing_iff`: the two agree for no file but the first, whose place is not printed.
-/

namespace UBoot.Image

open UBoot.Lib UBoot.Env

/-- `len_ptr[0]`, `len_ptr[1]`, ... up to the zero. -/
def lenWords : List UInt8 → List UInt32
  | a :: b :: c :: d :: rest =>
    if beWord [a, b, c, d] = 0 then [] else beWord [a, b, c, d] :: lenWords rest
  | _ => []

/-- The loop of `print_header` over the files: what it prints of each, the size and, for a script,
the offset of all but the first. -/
def listFiles (type : UInt8) : ℕ → UInt32 → List UInt32 → List (UInt32 × Option UInt32)
  | _, _, [] => []
  | i, pos, size :: sizes =>
    (size, if type = ihTypeScript ∧ i > 0 then some pos else none) ::
      listFiles type (i + 1) (pos + ((size + 3) &&& ~~~3)) sizes

/-- The contents that `print_header` lists of an image file. -/
def printHeader (image : List UInt8) : List (UInt32 × Option UInt32) :=
  let type := image.getD 30 0
  let sizes := lenWords (image.drop headerSize)
  if type = ihTypeMulti ∨ type = ihTypeScript then
    listFiles type 0 (UInt32.ofNat (headerSize + sizes.length * 4)) sizes
  else []

/-- Where in the image each call of `copy_file` starts to write, with `out` behind the header so
far. -/
def fileStarts (xflag : Bool) : List UInt8 → List (List UInt8) → List ℕ
  | _, [] => []
  | out, file :: files =>
    (headerSize + out.length) ::
      match copyFile xflag out file (!files.isEmpty) with
      | some out => fileStarts xflag out files
      | none => []

/-- Each offset that is to be printed is printed, and it is where the file is. -/
def ListsOffsets (lines : List (UInt32 × Option UInt32)) (starts : List ℕ) : Prop :=
  ∀ i start, 0 < i → starts[i]? = some start →
    ∃ size pos, lines[i]? = some (size, some pos) ∧ pos.toNat = start

section
variable {xflag : Bool} {out body : List UInt8} {files : List (List UInt8)} {file : List UInt8}

theorem lenWords_beBytes {sizes : List UInt32} (hne : ∀ size ∈ sizes, size ≠ 0)
    (rest : List UInt8) : lenWords (sizes.flatMap beBytes ++ (beBytes 0 ++ rest)) = sizes := by
  induction sizes with
  | nil => rfl
  | cons size sizes ih =>
    rw [List.forall_mem_cons] at hne
    have hword : beWord (beBytes size) = size := beWord_beBytes size
    rw [beBytes] at hword
    rw [List.flatMap_cons, List.append_assoc, beBytes]
    simp only [List.cons_append, List.nil_append, lenWords, hword, if_neg hne.1, ih hne.2]

/-- The call of `copy_file` for a file, followed by others or not. -/
theorem copyFiles_cons (h : copyFiles xflag out (file :: files) = some body) :
    ∃ out', copyFile xflag out file (!files.isEmpty) = some out' ∧
      (files = [] ∨ copyFiles xflag out' files = some body) := by
  cases files with
  | nil => exact ⟨body, h, .inl rfl⟩
  | cons file' files =>
    rw [copyFiles.eq_3 _ _ _ _ (List.cons_ne_nil _ _)] at h
    cases hc : copyFile xflag out file true with
    | none =>
      rw [hc] at h
      cases h
    | some out' =>
      rw [hc] at h
      exact ⟨out', hc, .inr h⟩

theorem fileStarts_contents (h : copyFiles xflag out files = some body) (i start : ℕ)
    (hstart : (fileStarts xflag out files)[i]? = some start) (hfile : files[i]? = some file) :
    contents xflag file <+: body.drop (start - headerSize) := by
  induction files generalizing out i with
  | nil => cases h
  | cons f files ih =>
    obtain ⟨out', hcopy, hrest⟩ := copyFiles_cons h
    cases i with
    | zero =>
      cases hstart
      cases hfile
      obtain ⟨-, -, hbody⟩ := copyFiles_spec h
      obtain ⟨q, hq⟩ := layout_cons (contents xflag file) (files.map (contents xflag))
      rw [Nat.add_sub_cancel_left, hbody, List.map_cons, List.drop_left, hq]
      exact List.prefix_append _ _
    | succ i =>
      rw [fileStarts, hcopy, List.getElem?_cons_succ] at hstart
      rw [List.getElem?_cons_succ] at hfile
      rcases hrest with rfl | hrest
      · cases hfile
      · exact ih hrest i hstart hfile

/-- What the option `-x` leaves out of each file. -/
def leftOut (xflag : Bool) : ℕ := if xflag then headerSize else 0

theorem leftOut_le (xflag : Bool) : leftOut xflag ≤ 64 := by
  rw [leftOut]
  split <;> decide

theorem round_toNat {n : ℕ} (hn : n < 2 ^ 32 - 3) :
    ((UInt32.ofNat n + 3) &&& ~~~3).toNat = padLength n := by
  have hofNat : (UInt32.ofNat n).toNat = n := by
    rw [UInt32.toNat_ofNat']
    omega
  have hadd : (UInt32.ofNat n + 3).toNat = n + 3 := by
    have h3 : (3 : UInt32).toNat = 3 := rfl
    rw [UInt32.toNat_add, hofNat, h3]
    omega
  rw [toNat_and_not (show (3 : UInt32).toNat = 2 ^ 2 - 1 from rfl), hadd, padLength]
  omega

theorem padLength_contents (h : xflag = true → headerSize ≤ file.length) :
    padLength file.length = padLength (contents xflag file).length + leftOut xflag := by
  rw [contents, leftOut, List.length_drop, padLength, padLength]
  cases xflag with
  | false => simp
  | true =>
    have hle : 64 ≤ file.length := h rfl
    rw [if_pos rfl]
    show _ = file.length - 64 + (4 - (file.length - 64) % 4) % 4 + 64
    omega

/-- A file starts one word behind what the listing computes, less what is left out of the files in
front of it. -/
theorem listFiles_start (h : copyFiles xflag out files = some body) {pos : UInt32} {k : ℕ}
    (hpos : pos.toNat + 4 ≡ headerSize + out.length + leftOut xflag * k [MOD 2 ^ 32]) (i start : ℕ)
    (hstart : (fileStarts xflag out files)[i]? = some start) (hi : 0 < k + i) :
    ∃ size pos', (listFiles ihTypeScript k pos (lengths files))[i]? = some (size, some pos') ∧
      pos'.toNat + 4 ≡ start + leftOut xflag * (k + i) [MOD 2 ^ 32] := by
  induction files generalizing out pos k i with
  | nil => cases h
  | cons file files ih =>
    rw [lengths, List.map_cons, listFiles]
    obtain ⟨out', hcopy, hrest⟩ := copyFiles_cons h
    cases i with
    | zero =>
      cases hstart
      rw [if_pos ⟨rfl, hi⟩]
      exact ⟨_, pos, rfl, hpos⟩
    | succ i =>
      rw [fileStarts, hcopy, List.getElem?_cons_succ] at hstart
      rcases hrest with rfl | hrest
      · cases hstart
      obtain ⟨hx, hle, hout⟩ := copyFile_spec hcopy
      have hne : (!files.isEmpty) = true := by
        cases files with
        | nil => cases hrest
        | cons _ _ => rfl
      have hpad := padLength_contents hx
      have hlen : out'.length = out.length + padLength (contents xflag file).length := by
        rw [hout, if_pos hne, List.length_append, List.length_append, List.length_replicate]
        have hself : (contents xflag file).length ≤ padLength (contents xflag file).length :=
          Nat.le_add_right ..
        omega
      have hsmall : file.length < 2 ^ 32 - 3 := by
        have hcontents : (contents xflag file).length = file.length - leftOut xflag :=
          List.length_drop ..
        have hleft := leftOut_le xflag
        have hmax : (contents xflag file).length ≤ 0x7fffffff := hle
        omega
      have hround := round_toNat hsmall
      have hnext : (pos + ((UInt32.ofNat file.length + 3) &&& ~~~3)).toNat + 4 ≡
          headerSize + out'.length + leftOut xflag * (k + 1) [MOD 2 ^ 32] := by
        rw [UInt32.toNat_add, hround, hpad, hlen, Nat.mul_succ]
        have hadd := hpos.add_right (padLength (contents xflag file).length + leftOut xflag)
        unfold Nat.ModEq at hadd ⊢
        omega
      have hkeep := ih hrest hnext i hstart (by omega)
      rw [List.getElem?_cons_succ]
      rw [Nat.add_assoc, Nat.add_comm 1 i] at hkeep
      exact hkeep

/-- The image of a script is a header with the table of the files and the files. -/
theorem mkimage_script {o : Options} {mtime : UInt32} {image : List UInt8}
    (h : mkimage o mtime files = some image) (htype : o.type = ihTypeScript) :
    ∃ (hdr : ImageHeader) (body : List UInt8),
      copyFiles o.xflag (lengthTable files) files = some body ∧
      image = hdr.bytes ++ body ∧ hdr.type = ihTypeScript := by
  have htable : imageBody o files = copyFiles o.xflag (lengthTable files) files := by
    unfold imageBody
    refine if_pos ?_
    rw [Options.hasTable, htype]
    rfl
  rw [mkimage, htable] at h
  cases hentry : o.entry with
  | none =>
    rw [hentry] at h
    cases h
  | some ep =>
    cases hbody : copyFiles o.xflag (lengthTable files) files with
    | none =>
      rw [hentry, hbody] at h
      cases h
    | some body =>
      rw [hentry, hbody] at h
      exact ⟨_, body, rfl, (Option.some.inj h).symm, htype⟩

theorem printHeader_mkimage {o : Options} {mtime : UInt32} {image : List UInt8}
    (h : mkimage o mtime files = some image) (htype : o.type = ihTypeScript)
    (hne : ∀ file ∈ files, file ≠ []) :
    printHeader image = listFiles ihTypeScript 0
      (UInt32.ofNat (headerSize + files.length * 4)) (lengths files) ∧
    ∃ body, copyFiles o.xflag (lengthTable files) files = some body := by
  obtain ⟨hdr, body, hbody, rfl, hsame⟩ := mkimage_script h htype
  refine ⟨?_, body, hbody⟩
  obtain ⟨hx, hle, hout⟩ := copyFiles_spec hbody
  have hsmall : ∀ file ∈ files, file.length < 2 ^ 32 := by
    intro file hfile
    have hmax : file.length - leftOut o.xflag ≤ 0x7fffffff :=
      (List.length_drop ..).symm.trans_le (hle file hfile)
    have hleft := leftOut_le o.xflag
    omega
  have hat : (hdr.bytes ++ body).getD 30 0 = ihTypeScript := by
    rw [← hsame]
    rfl
  have hwords : lenWords ((hdr.bytes ++ body).drop headerSize) = lengths files := by
    have hdrop : (hdr.bytes ++ body).drop headerSize = body := by
      rw [← hdr.bytes_length, List.drop_left]
    rw [hdrop, hout, lengthTable_eq, List.append_assoc,
      lenWords_beBytes (lengths_ne_zero hne hsmall)]
  rw [printHeader, hat, hwords, lengths_length]
  exact if_pos (.inr rfl)

/-- The second file does not start where the listing says. -/
theorem not_listsOffsets {file file' : List UInt8}
    (h : copyFiles xflag (lengthTable (file :: file' :: files)) (file :: file' :: files) =
      some body) :
    ¬ ListsOffsets (listFiles ihTypeScript 0
        (UInt32.ofNat (headerSize + (file :: file' :: files).length * 4))
        (lengths (file :: file' :: files)))
      (fileStarts xflag (lengthTable (file :: file' :: files)) (file :: file' :: files)) := by
  intro hlists
  obtain ⟨out, hcopy, -⟩ := copyFiles_cons h
  have hstart : (fileStarts xflag (lengthTable (file :: file' :: files))
      (file :: file' :: files))[1]? = some (headerSize + out.length) := by
    rw [fileStarts, hcopy]
    rfl
  obtain ⟨size, pos, hline, hpos⟩ := hlists 1 _ one_pos hstart
  have hfirst : (UInt32.ofNat (headerSize + (file :: file' :: files).length * 4)).toNat + 4 ≡
      headerSize + (lengthTable (file :: file' :: files)).length + leftOut xflag * 0
        [MOD 2 ^ 32] := by
    rw [lengthTable_length, UInt32.toNat_ofNat', Nat.mul_zero, Nat.add_zero]
    unfold Nat.ModEq
    omega
  obtain ⟨size', pos', hline', hmod⟩ := listFiles_start h hfirst 1 _ hstart (by omega)
  rw [hline] at hline'
  cases hline'
  rw [hpos] at hmod
  have hleft : leftOut xflag = 0 ∨ leftOut xflag = 64 := by
    rw [leftOut]
    cases xflag
    · exact .inl rfl
    · exact .inr rfl
  unfold Nat.ModEq at hmod
  omega

end

/-- **The offsets of the files** in the listing of a script image are right exactly if there is one
file, for which none is printed. -/
theorem mkimage_listing_iff (o : Options) (mtime : UInt32) (files : List (List UInt8))
    (image : List UInt8) (h : mkimage o mtime files = some image) (htype : o.type = ihTypeScript)
    (hne : ∀ file ∈ files, file ≠ []) :
    ListsOffsets (printHeader image) (fileStarts o.xflag (lengthTable files) files) ↔
      files.length = 1 := by
  obtain ⟨hprint, body, hbody⟩ := printHeader_mkimage h htype hne
  rw [hprint]
  obtain _ | ⟨file, files⟩ := files
  · cases hbody
  obtain ⟨out, hcopy, -⟩ := copyFiles_cons hbody
  constructor
  · intro hlists
    obtain _ | ⟨file', files⟩ := files
    · rfl
    · exact absurd hlists (not_listsOffsets hbody)
  · intro hone i start hi hstart
    rw [List.length_cons, Nat.add_eq_right, List.length_eq_zero_iff] at hone
    subst hone
    rw [fileStarts, hcopy] at hstart
    cases i with
    | zero => cases hi
    | succ i => cases hstart

/-- A script, for which the entry point is where it is loaded. -/
def scriptOptions : Options := { Options.multi false with type := ihTypeScript }

/-- `a=1;` and a newline. -/
def oneLine : List UInt8 := [97, 61, 49, 59, 10]

/-- The script alone, and in front of another one. -/
theorem mkimage_listing_line :
    ListsOffsets (printHeader ((mkimage scriptOptions 0 [oneLine]).getD []))
      (fileStarts false (lengthTable [oneLine]) [oneLine]) ∧
    ¬ ListsOffsets (printHeader ((mkimage scriptOptions 0 [oneLine, [10]]).getD []))
      (fileStarts false (lengthTable [oneLine, [10]]) [oneLine, [10]]) := by
  constructor
  · exact (mkimage_listing_iff scriptOptions 0 [oneLine] _ rfl rfl (by decide)).mpr rfl
  · intro h
    have hone := (mkimage_listing_iff scriptOptions 0 [oneLine, [10]] _ rfl rfl (by decide)).mp h
    cases hone

/-- The second of two files of 4 bytes starts at 80; 76 is printed. -/
theorem mkimage_listing_two :
    ∃ image, mkimage scriptOptions 0 [[1, 2, 3, 4], [5, 6, 7, 8]] = some image ∧
      printHeader image = [(4, none), (4, some 76)] ∧
      ¬ ListsOffsets (printHeader image)
        (fileStarts false (lengthTable [[1, 2, 3, 4], [5, 6, 7, 8]])
          [[1, 2, 3, 4], [5, 6, 7, 8]]) := by
  obtain ⟨image, himage⟩ : ∃ image,
      mkimage scriptOptions 0 [[1, 2, 3, 4], [5, 6, 7, 8]] = some image := ⟨_, rfl⟩
  obtain ⟨hprint, -⟩ := printHeader_mkimage himage rfl (by simp)
  have hlines : printHeader image = [(4, none), (4, some 76)] := hprint.trans rfl
  refine ⟨image, himage, hlines, fun hlists => ?_⟩
  obtain ⟨size, pos, hline, hpos⟩ := hlists 1 80 one_pos rfl
  rw [hlines] at hline
  cases hline
  exact absurd hpos (by decide)

end UBoot.Image
