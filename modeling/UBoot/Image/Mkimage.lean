import UBoot.Env.Crc32
import UBoot.Image.Header

/-!
# Writing an image (`tools/mkimage.c`)

`mkimage` is `main` behind its option loop, for the `-d` of one file or, with the types multi and
script, of several. An image is its header and a body; `Layout` says what the body is,
`mkimage_spec` what both are.
-/

namespace UBoot.Image

open UBoot.Lib UBoot.Env

/-- The options of an image to be written. `ep` is `-e`. -/
structure Options where
  xflag : Bool
  os : UInt8
  arch : UInt8
  type : UInt8
  comp : UInt8
  addr : UInt32
  ep : Option UInt32
  name : CStr

/-- The entry point. For XIP it has to be behind the header. -/
def Options.entry (o : Options) : Option UInt32 :=
  let ep := o.ep.getD (if o.xflag then o.addr + 64 else o.addr)
  if o.xflag ∧ ep ≠ o.addr + 64 then none else some ep

/-- The types whose body starts with a table of lengths. -/
def Options.hasTable (o : Options) : Bool := o.type = ihTypeMulti || o.type = ihTypeScript

/-- What `write` can return; more in one call is an error. -/
abbrev ssizeMax : Nat := 0x7fffffff

def write (out buf : List UInt8) : Option (List UInt8) :=
  if buf.length ≤ ssizeMax then some (out ++ buf) else none

/-- `copy_file`: with `-x` the space that the file reserves for the header is left out. -/
def copyFile (xflag : Bool) (out file : List UInt8) (pad : Bool) : Option (List UInt8) :=
  let offset := if xflag then headerSize else 0
  if xflag ∧ (file.length < headerSize ∨ ∃ c ∈ file.take headerSize, c ≠ 0xff) then none
  else
    let tail := (file.drop offset).length % 4
    match write out (file.drop offset) with
    | none => none
    | some out =>
      if pad ∧ tail ≠ 0 then write out (List.replicate (4 - tail) 0) else some out

/-- The files, one after the other; the last one is not padded. -/
def copyFiles (xflag : Bool) : List UInt8 → List (List UInt8) → Option (List UInt8)
  | _, [] => none
  | out, [file] => copyFile xflag out file false
  | out, file :: files =>
    match copyFile xflag out file true with
    | none => none
    | some out => copyFiles xflag out files

/-- The table: for each file what `stat` says, and a zero. -/
def lengthTable (files : List (List UInt8)) : List UInt8 :=
  files.flatMap (fun file => beBytes (UInt32.ofNat file.length)) ++ beBytes 0

/-- What follows the header. Without a table, `-d` names one file. -/
def imageBody (o : Options) (files : List (List UInt8)) : Option (List UInt8) :=
  if o.hasTable then copyFiles o.xflag (lengthTable files) files
  else
    match files with
    | [file] => copyFile o.xflag [] file false
    | _ => none

/-- `strncpy` to `ih_name`. -/
def ihName (name : CStr) : Area ihNmlen :=
  ⟨name.bytes.take ihNmlen ++ List.replicate (ihNmlen - (name.bytes.take ihNmlen).length) 0, by
    rw [List.length_append, List.length_replicate, List.length_take]; omega⟩

def newHeader (o : Options) (mtime ep : UInt32) (body : List UInt8) : ImageHeader where
  magic := ihMagic
  hcrc := 0
  time := mtime
  size := UInt32.ofNat body.length
  load := o.addr
  ep := ep
  dcrc := crc32 0 body
  os := o.os
  arch := o.arch
  type := o.type
  comp := o.comp
  name := ihName o.name

def mkimage (o : Options) (mtime : UInt32) (files : List (List UInt8)) : Option (List UInt8) :=
  match o.entry, imageBody o files with
  | some ep, some body =>
    let hdr := newHeader o mtime ep body
    some ((hdr.withHcrc (crc32 0 hdr.bytes)).bytes ++ body)
  | _, _ => none

/-! ## What is written -/

/-- The bytes of a file that are for the image. -/
def contents (xflag : Bool) (file : List UInt8) : List UInt8 :=
  file.drop (if xflag then headerSize else 0)

/-- The length of `n` bytes that are padded to words. -/
def padLength (n : Nat) : Nat := n + (4 - n % 4) % 4

/-- The files of a multi-file image behind the table. -/
def layout : List (List UInt8) → List UInt8
  | [] => []
  | [c] => c
  | c :: cs => c ++ List.replicate (padLength c.length - c.length) 0 ++ layout cs

section
variable {xflag pad : Bool} {out file body : List UInt8} {files : List (List UInt8)}

theorem write_spec (h : write out file = some body) : body = out ++ file := by
  rw [write] at h
  split_ifs at h
  exact (Option.some.inj h).symm

theorem padLength_sub (n : Nat) : padLength n - n = (4 - n % 4) % 4 := by
  rw [padLength, Nat.add_sub_cancel_left]

theorem copyFile_spec (h : copyFile xflag out file pad = some body) :
    (xflag = true → headerSize ≤ file.length) ∧ (contents xflag file).length ≤ ssizeMax ∧
      body = out ++ (contents xflag file ++ if pad then
        List.replicate (padLength (contents xflag file).length - (contents xflag file).length) 0
        else []) := by
  have hdrop : file.drop (if xflag then headerSize else 0) = contents xflag file := rfl
  simp only [copyFile, hdrop] at h
  by_cases hx : xflag ∧ (file.length < headerSize ∨ ∃ c ∈ file.take headerSize, c ≠ 0xff)
  · rw [if_pos hx] at h
    cases h
  rw [if_neg hx] at h
  cases hw : write out (contents xflag file) with
  | none =>
    rw [hw] at h
    cases h
  | some out' =>
    rw [hw] at h
    have hle : (contents xflag file).length ≤ ssizeMax := by
      rw [write] at hw
      split_ifs at hw with hle
      exact hle
    refine ⟨fun hxt => ?_, hle, ?_⟩
    · by_contra hlt
      exact hx ⟨hxt, .inl (by omega)⟩
    · dsimp only at h
      rw [padLength_sub]
      split_ifs at h with hpad
      · rw [write_spec h, write_spec hw, if_pos hpad.1, List.append_assoc,
          Nat.mod_eq_of_lt (a := 4 - (contents xflag file).length % 4) (by omega)]
      · cases h
        rw [write_spec hw]
        by_cases hp : pad = true
        · have htail : (contents xflag file).length % 4 = 0 := by
            by_contra htail
            exact hpad ⟨hp, htail⟩
          rw [if_pos hp, htail]
          simp
        · rw [if_neg hp, List.append_nil]

theorem copyFiles_spec (h : copyFiles xflag out files = some body) :
    (xflag = true → ∀ file ∈ files, headerSize ≤ file.length) ∧
      (∀ file ∈ files, (contents xflag file).length ≤ ssizeMax) ∧
      body = out ++ layout (files.map (contents xflag)) := by
  induction files generalizing out with
  | nil => cases h
  | cons file files ih =>
    cases files with
    | nil =>
      obtain ⟨hx, hle, rfl⟩ := copyFile_spec h
      refine ⟨?_, ?_, ?_⟩
      · simpa using hx
      · simpa using hle
      · simp [layout]
    | cons file' files =>
      rw [copyFiles.eq_3 _ _ _ _ (List.cons_ne_nil _ _)] at h
      cases hc : copyFile xflag out file true with
      | none =>
        rw [hc] at h
        cases h
      | some out' =>
        rw [hc] at h
        obtain ⟨hx, hle, rfl⟩ := copyFile_spec hc
        obtain ⟨hxs, hles, rfl⟩ := ih h
        refine ⟨fun hxt => ?_, ?_, ?_⟩
        · exact List.forall_mem_cons.mpr ⟨hx hxt, hxs hxt⟩
        · exact List.forall_mem_cons.mpr ⟨hle, hles⟩
        · simp [layout]

end

theorem mkimage_spec {o : Options} {mtime : UInt32} {files : List (List UInt8)}
    {image : List UInt8} (h : mkimage o mtime files = some image) :
    ∃ ep body, imageBody o files = some body ∧
      image = ((newHeader o mtime ep body).withHcrc
        (crc32 0 (newHeader o mtime ep body).bytes)).bytes ++ body := by
  rw [mkimage] at h
  split at h
  · next ep body _ hbody => exact ⟨ep, body, hbody, (Option.some.inj h).symm⟩
  · cases h

end UBoot.Image
