import Mathlib.Data.List.GetD
import UBoot.Lib.Area
import UBoot.Lib.CInt

/-!
# The header of gzipped data (`common/cmd_bootm.c`)

`gunzip` skips the header of the compressed data (`skipHeader`) before it calls the inflater, and
compares with the length of the data only behind it. A `GzipHeader` is a header of RFC 1952.
`gunzip_header_iff`: for which buffers the header is skipped within them.
-/

namespace UBoot.Image

open UBoot.Lib

/-- `src` with `*lenp` bytes, which is an `int`. -/
structure GzipSrc where
  bytes : List UInt8
  fits : bytes.length < 2 ^ 31

abbrev headCrc : UInt8 := 2

abbrev extraField : UInt8 := 4

abbrev origName : UInt8 := 8

/-- `COMMENT` -/
abbrev commentFlag : UInt8 := 0x10

abbrev reserved : UInt8 := 0xe0

abbrev deflated : UInt8 := 8

/-- `src[i]` -/
def GzipSrc.get (src : GzipSrc) (i : ℕ) : Except Oob UInt8 :=
  match src.bytes[i]? with
  | some c => .ok c
  | none => .error .read

/-- `while (src[i++] != 0) ;` -/
def skipString (src : GzipSrc) (i : ℕ) : Except Oob ℕ :=
  if h : i < src.bytes.length then
    if src.bytes[i] ≠ 0 then skipString src (i + 1) else .ok (i + 1)
  else .error .read
termination_by src.bytes.length - i

def skipExtra (src : GzipSrc) (flags : UInt8) : Except Oob ℕ :=
  if flags &&& extraField ≠ 0 then do
    let low ← src.get 10
    let high ← src.get 11
    return 12 + low.toNat + (high.toNat <<< 8)
  else .ok 10

/-- A string that has the flag `f`. -/
def skipFlagged (src : GzipSrc) (flags f : UInt8) (i : ℕ) : Except Oob ℕ :=
  if flags &&& f ≠ 0 then skipString src i else .ok i

/-- The header part of `gunzip`: the index `i` of what is inflated, or `none` where it returns
-1. -/
def skipHeader (src : GzipSrc) : Except Oob (Option ℤ) := do
  let flags ← src.get 3
  let method ← src.get 2
  if method ≠ deflated ∨ flags &&& reserved ≠ 0 then return none
  else
    let i ← skipExtra src flags
    let i ← skipFlagged src flags origName i
    let i ← skipFlagged src flags commentFlag i
    let i : ℤ := if flags &&& headCrc ≠ 0 then int32 (i + 2) else i
    return if i ≥ src.bytes.length then none else some i

/-- `inflateInit2` and `inflate`: whether they are right, and what is written to `dst`. -/
structure Inflater where
  init : Bool
  inflate : GzipSrc → ℤ → ℕ → Bool × List UInt8

/-- The result of `gunzip`, what it has written to `dst`, and `*lenp`. -/
structure Gunzipped where
  ret : ℤ
  dst : List UInt8
  lenp : ℕ

def gunzip (z : Inflater) (dstlen : ℕ) (src : GzipSrc) : Except Oob Gunzipped := do
  match ← skipHeader src with
  | none => return ⟨-1, [], src.bytes.length⟩
  | some i =>
    if ¬ z.init then return ⟨-1, [], src.bytes.length⟩
    let (ok, out) := z.inflate src i dstlen
    if ¬ ok then return ⟨-1, out, src.bytes.length⟩
    return ⟨0, out, out.length⟩

/-! ## The header of RFC 1952 -/

/-- A header with what its flags announce. The bytes of its time and of what made the data are
`six`. -/
structure GzipHeader where
  id : UInt8 × UInt8
  flags : UInt8
  six : Area 6
  extra : Option { l : List UInt8 // l.length < 2 ^ 16 }
  name : Option CStr
  comment : Option CStr
  crc : Option (UInt8 × UInt8)
  reserved_zero : flags &&& reserved = 0
  extra_iff : extra.isSome ↔ flags &&& extraField ≠ 0
  name_iff : name.isSome ↔ flags &&& origName ≠ 0
  comment_iff : comment.isSome ↔ flags &&& commentFlag ≠ 0
  crc_iff : crc.isSome ↔ flags &&& headCrc ≠ 0

namespace GzipHeader

/-- The extra field with its length, low byte first. -/
def extraBytes (extra : Option { l : List UInt8 // l.length < 2 ^ 16 }) : List UInt8 :=
  match extra with
  | some l => UInt8.ofNat (l.val.length % 256) :: UInt8.ofNat (l.val.length / 256) :: l.val
  | none => []

def stringBytes (s : Option CStr) : List UInt8 :=
  match s with
  | some s => s.terminated
  | none => []

def crcBytes (crc : Option (UInt8 × UInt8)) : List UInt8 :=
  match crc with
  | some crc => [crc.1, crc.2]
  | none => []

def bytes (h : GzipHeader) : List UInt8 :=
  [h.id.1, h.id.2, deflated, h.flags] ++ (h.six.bytes ++ (extraBytes h.extra ++
    (stringBytes h.name ++ (stringBytes h.comment ++ crcBytes h.crc))))

end GzipHeader

/-- Nothing is read outside the buffer, what is inflated is what is behind a header, and where
nothing is inflated the result is -1 with nothing written. -/
structure SkipsHeader (src : GzipSrc) : Prop where
  inside : ∀ e, skipHeader src ≠ .error e
  header : ∀ i, skipHeader src = .ok (some i) → ∃ h : GzipHeader, ∃ rest,
    src.bytes = h.bytes ++ rest ∧ i = h.bytes.length
  refused : skipHeader src = .ok none → ∀ z dstlen,
    gunzip z dstlen src = .ok ⟨-1, [], src.bytes.length⟩

/-! ## What has to be in the buffer -/

def behindNul : List UInt8 → Option (List UInt8)
  | [] => none
  | c :: l => if c = 0 then some l else behindNul l

namespace GzipSrc

variable (src : GzipSrc)

def flags : UInt8 := src.bytes.getD 3 0

/-- Deflated data without a reserved flag. -/
def Deflated : Prop := src.bytes[2]? = some deflated ∧ src.flags &&& reserved = 0

/-- Where the strings are: behind the extra field. -/
def stringsAt : ℕ :=
  if src.flags &&& extraField ≠ 0 then
    12 + (src.bytes.getD 10 0).toNat + ((src.bytes.getD 11 0).toNat <<< 8)
  else 10

/-- What is behind the string of the flag `f`, if it is announced and has its NUL, or not
announced. -/
def behindString (f : UInt8) (l : List UInt8) : Option (List UInt8) :=
  if src.flags &&& f ≠ 0 then behindNul l else some l

def behindStrings : Option (List UInt8) :=
  (src.behindString origName (src.bytes.drop src.stringsAt)).bind (src.behindString commentFlag)

/-- The buffer has the flags and, for deflated data, the length of an extra field and the NUL of
each string that is announced; and a CRC does not take the index to `2 ^ 31`. -/
structure Whole : Prop where
  four : 4 ≤ src.bytes.length
  extra : src.Deflated → src.flags &&& extraField ≠ 0 → 12 ≤ src.bytes.length
  strings : src.Deflated → src.behindStrings.isSome
  crc : src.Deflated → src.flags &&& headCrc ≠ 0 → ∀ rest, src.behindStrings = some rest →
    src.bytes.length - rest.length + 2 < 2 ^ 31

end GzipSrc

/-! ## Strings -/

section
variable {src : GzipSrc} {i : ℕ} {l rest : List UInt8} {f : UInt8}

theorem behindNul_some (h : behindNul l = some rest) : ∃ s : CStr, l = s.terminated ++ rest := by
  induction l with
  | nil => cases h
  | cons c l ih =>
    rw [behindNul] at h
    by_cases hc : c = 0
    · rw [if_pos hc] at h
      cases h
      exact ⟨⟨[], List.not_mem_nil⟩, by rw [hc]; rfl⟩
    · rw [if_neg hc] at h
      obtain ⟨s, rfl⟩ := ih h
      refine ⟨⟨c :: s.bytes, ?_⟩, rfl⟩
      rw [List.mem_cons, not_or]
      exact ⟨Ne.symm hc, s.nonul⟩

theorem get_ok (h : i < src.bytes.length) : src.get i = .ok (src.bytes.getD i 0) := by
  rw [GzipSrc.get, List.getD_eq_getElem?_getD, List.getElem?_eq_getElem h]
  rfl

theorem get_error (h : src.bytes.length ≤ i) : src.get i = .error .read := by
  rw [GzipSrc.get, List.getElem?_eq_none h]

theorem skipString_eq (src : GzipSrc) (i : ℕ) : skipString src i =
    match behindNul (src.bytes.drop i) with
    | some rest => .ok (src.bytes.length - rest.length)
    | none => .error .read := by
  induction i using skipString.induct src with
  | case1 i hlt hc ih =>
    rw [skipString, dif_pos hlt, if_pos hc, ih, List.drop_eq_getElem_cons hlt, behindNul,
      if_neg hc]
  | case2 i hlt hc =>
    rw [skipString, dif_pos hlt, if_neg hc, List.drop_eq_getElem_cons hlt, behindNul,
      if_pos (not_not.mp hc)]
    dsimp only
    rw [List.length_drop]
    congr 1
    omega
  | case3 i hge =>
    rw [skipString, dif_neg hge, List.drop_eq_nil_of_le (not_lt.mp hge)]
    rfl

theorem skipFlagged_spec (src : GzipSrc) (f : UInt8) (i : ℕ) :
    (skipFlagged src src.flags f i = .error .read ∧
      src.behindString f (src.bytes.drop i) = none) ∨
    ∃ j s, skipFlagged src src.flags f i = .ok j ∧
      src.behindString f (src.bytes.drop i) = some (src.bytes.drop j) ∧
      (s.isSome ↔ src.flags &&& f ≠ 0) ∧ j = i + (GzipHeader.stringBytes s).length ∧
      src.bytes.drop i = GzipHeader.stringBytes s ++ src.bytes.drop j ∧
      (s.isSome → j ≤ src.bytes.length) := by
  rw [skipFlagged, GzipSrc.behindString]
  by_cases hf : src.flags &&& f ≠ 0
  · rw [if_pos hf, if_pos hf, skipString_eq]
    cases hnul : behindNul (src.bytes.drop i) with
    | none => exact .inl ⟨rfl, rfl⟩
    | some rest =>
      obtain ⟨s, hs⟩ := behindNul_some hnul
      have hlen := congrArg List.length hs
      rw [List.length_drop, List.length_append, CStr.terminated, List.length_append,
        List.length_singleton] at hlen
      have hj : src.bytes.length - rest.length = i + (GzipHeader.stringBytes (some s)).length := by
        show _ = i + s.terminated.length
        rw [CStr.terminated, List.length_append, List.length_singleton]
        omega
      have hdrop : src.bytes.drop (src.bytes.length - rest.length) = rest := by
        rw [hj, ← List.drop_drop, hs]
        exact List.drop_left
      refine .inr ⟨_, some s, rfl, by rw [hdrop], by simp [hf], hj, ?_, fun _ => Nat.sub_le _ _⟩
      rw [hdrop]
      exact hs
  · rw [if_neg hf, if_neg hf]
    exact .inr ⟨i, none, rfl, rfl, by simp [not_not.mp hf], rfl, rfl, by simp⟩

theorem skipStrings_spec (src : GzipSrc) (i : ℕ) :
    ((skipFlagged src src.flags origName i >>= skipFlagged src src.flags commentFlag) =
        .error .read ∧
      (src.behindString origName (src.bytes.drop i)).bind (src.behindString commentFlag) = none) ∨
    ∃ k name comment,
      (skipFlagged src src.flags origName i >>= skipFlagged src src.flags commentFlag) = .ok k ∧
      (src.behindString origName (src.bytes.drop i)).bind (src.behindString commentFlag) =
        some (src.bytes.drop k) ∧
      (name.isSome ↔ src.flags &&& origName ≠ 0) ∧
      (comment.isSome ↔ src.flags &&& commentFlag ≠ 0) ∧
      src.bytes.drop i = GzipHeader.stringBytes name ++ (GzipHeader.stringBytes comment ++
        src.bytes.drop k) ∧
      k = i + (GzipHeader.stringBytes name).length + (GzipHeader.stringBytes comment).length ∧
      (k = i ∨ k ≤ src.bytes.length) := by
  obtain ⟨hskip, hbehind⟩ | ⟨j, name, hskip, hbehind, hname, hj, hsplit, hjle⟩ :=
    skipFlagged_spec src origName i
  · rw [hskip, hbehind]
    exact .inl ⟨rfl, rfl⟩
  rw [hskip, hbehind]
  obtain ⟨hskip', hbehind'⟩ | ⟨k, comment, hskip', hbehind', hcomment, hk, hsplit', hkle⟩ :=
    skipFlagged_spec src commentFlag j
  · exact .inl ⟨hskip', hbehind'⟩
  refine .inr ⟨k, name, comment, hskip', hbehind', hname, hcomment, ?_, by omega, ?_⟩
  · rw [hsplit, hsplit']
  · cases comment with
    | some s => exact .inr (hkle rfl)
    | none =>
      cases name with
      | some s => exact .inr (hk.trans_le (hjle rfl))
      | none => exact .inl (hk.trans hj)

/-! ## The header -/

/-- The index behind the strings, with the CRC and the test for the end. -/
def GzipSrc.finish (src : GzipSrc) (k : ℕ) : Option ℤ :=
  let i : ℤ := if src.flags &&& headCrc ≠ 0 then int32 (k + 2) else k
  if i ≥ src.bytes.length then none else some i

theorem skipHeader_short (h : src.bytes.length < 4) : skipHeader src = .error .read := by
  rcases Nat.lt_or_ge 3 src.bytes.length with hlt | hle
  · omega
  · rw [skipHeader, get_error hle]
    rfl

theorem deflated_iff (h : 4 ≤ src.bytes.length) :
    src.Deflated ↔ ¬ (src.bytes.getD 2 0 ≠ deflated ∨ src.flags &&& reserved ≠ 0) := by
  have hget : src.bytes[2]? = some (src.bytes.getD 2 0) := by
    rw [List.getD_eq_getElem?_getD, List.getElem?_eq_getElem (by omega)]
    rfl
  rw [GzipSrc.Deflated, hget, Option.some_inj, not_or, not_not, not_not]

theorem skipHeader_refused (h : 4 ≤ src.bytes.length) (hd : ¬ src.Deflated) :
    skipHeader src = .ok none := by
  rw [deflated_iff h, not_not] at hd
  rw [skipHeader, get_ok (by omega), get_ok (by omega)]
  exact if_pos hd

theorem skipExtra_eq (hextra : src.flags &&& extraField ≠ 0 → 12 ≤ src.bytes.length) :
    skipExtra src src.flags = .ok src.stringsAt := by
  rw [skipExtra, GzipSrc.stringsAt]
  by_cases he : src.flags &&& extraField ≠ 0
  · have hle := hextra he
    rw [if_pos he, if_pos he, get_ok (by omega), get_ok (by omega)]
    rfl
  · rw [if_neg he, if_neg he]

theorem skipExtra_error (he : src.flags &&& extraField ≠ 0) (hlt : src.bytes.length < 12) :
    skipExtra src src.flags = .error .read := by
  rw [skipExtra, if_pos he]
  rcases Nat.lt_or_ge 10 src.bytes.length with hlt' | hle
  · rw [get_ok hlt', get_error (by omega)]
    rfl
  · rw [get_error hle]
    rfl

theorem skipHeader_deflated (h : 4 ≤ src.bytes.length) (hd : src.Deflated) :
    skipHeader src = skipExtra src src.flags >>= fun i =>
      (skipFlagged src src.flags origName i >>= skipFlagged src src.flags commentFlag).map
        src.finish := by
  rw [deflated_iff h] at hd
  rw [skipHeader, get_ok (by omega), get_ok (by omega)]
  refine (if_neg hd).trans ?_
  change (skipExtra src src.flags >>= fun i => skipFlagged src src.flags origName i >>= fun i =>
    skipFlagged src src.flags commentFlag i >>= fun i => Except.ok (src.finish i)) = _
  congr 1
  funext i
  cases skipFlagged src src.flags origName i with
  | error e => rfl
  | ok j =>
    change (skipFlagged src src.flags commentFlag j >>= _) =
      (skipFlagged src src.flags commentFlag j).map src.finish
    cases skipFlagged src src.flags commentFlag j <;> rfl

theorem stringsAt_lt (src : GzipSrc) : src.stringsAt < 2 ^ 17 := by
  have hlow := (src.bytes.getD 10 0).toNat_lt
  have hhigh := (src.bytes.getD 11 0).toNat_lt
  rw [GzipSrc.stringsAt, Nat.shiftLeft_eq]
  split <;> omega

theorem extra_split (src : GzipSrc) (h10 : 10 ≤ src.bytes.length)
    (hle : src.stringsAt ≤ src.bytes.length) :
    ∃ extra, (extra.isSome ↔ src.flags &&& extraField ≠ 0) ∧
      src.bytes.drop 10 = GzipHeader.extraBytes extra ++ src.bytes.drop src.stringsAt ∧
      src.stringsAt = 10 + (GzipHeader.extraBytes extra).length := by
  rw [GzipSrc.stringsAt] at hle ⊢
  by_cases he : src.flags &&& extraField ≠ 0
  · rw [if_pos he] at hle ⊢
    have hlow := (src.bytes.getD 10 0).toNat_lt
    have hhigh := (src.bytes.getD 11 0).toNat_lt
    set low := src.bytes.getD 10 0 with hlowdef
    set high := src.bytes.getD 11 0 with hhighdef
    rw [Nat.shiftLeft_eq] at hle ⊢
    have hlen : ((src.bytes.drop 12).take (low.toNat + high.toNat * 2 ^ 8)).length =
        low.toNat + high.toNat * 2 ^ 8 := by
      rw [List.length_take, List.length_drop]
      omega
    refine ⟨some ⟨(src.bytes.drop 12).take (low.toNat + high.toNat * 2 ^ 8), by omega⟩,
      by simp [he], ?_, ?_⟩
    · have h10' : 10 < src.bytes.length := by omega
      have h11' : 11 < src.bytes.length := by omega
      have hmod : (low.toNat + high.toNat * 2 ^ 8) % 256 = low.toNat := by omega
      have hdiv : (low.toNat + high.toNat * 2 ^ 8) / 256 = high.toNat := by omega
      have hsplit : src.bytes.drop 12 = (src.bytes.drop 12).take (low.toNat + high.toNat * 2 ^ 8) ++
          src.bytes.drop (12 + low.toNat + high.toNat * 2 ^ 8) := by
        rw [Nat.add_assoc, ← List.drop_drop, List.take_append_drop]
      rw [List.drop_eq_getElem_cons h10', List.drop_eq_getElem_cons h11',
        ← List.getD_eq_getElem _ 0 h10', ← List.getD_eq_getElem _ 0 h11', GzipHeader.extraBytes]
      dsimp only
      rw [hlen, hmod, hdiv, UInt8.ofNat_toNat, UInt8.ofNat_toNat, List.cons_append,
        List.cons_append]
      exact congrArg (fun l => low :: high :: l) hsplit
    · rw [GzipHeader.extraBytes, List.length_cons, List.length_cons, hlen]
      omega
  · rw [if_neg he]
    exact ⟨none, by simp [not_not.mp he], rfl, rfl⟩

/-- Behind the CRC of the header, if there is one at `k`. -/
def GzipSrc.behindCrc (src : GzipSrc) (k : ℕ) : ℕ :=
  if src.flags &&& headCrc ≠ 0 then k + 2 else k

/-- The CRC of the header is in the buffer where something is behind it. -/
theorem crc_split {k : ℕ} (hle : src.behindCrc k ≤ src.bytes.length) :
    ∃ crc, (crc.isSome ↔ src.flags &&& headCrc ≠ 0) ∧
      src.bytes.drop k = GzipHeader.crcBytes crc ++ src.bytes.drop (src.behindCrc k) ∧
      src.behindCrc k = k + (GzipHeader.crcBytes crc).length := by
  rw [GzipSrc.behindCrc] at hle ⊢
  by_cases hc : src.flags &&& headCrc ≠ 0
  · rw [if_pos hc] at hle ⊢
    refine ⟨some (src.bytes[k], src.bytes[k + 1]), by simp [hc], ?_, rfl⟩
    rw [List.drop_eq_getElem_cons (by omega), List.drop_eq_getElem_cons (by omega)]
    rfl
  · rw [if_neg hc]
    exact ⟨none, by simp [not_not.mp hc], rfl, rfl⟩

/-- What is inflated is behind a header, if the index is the one that `int` arithmetic gives. -/
theorem exists_header {k : ℕ} {name comment : Option CStr} (h : 4 ≤ src.bytes.length)
    (hd : src.Deflated) (hname : name.isSome ↔ src.flags &&& origName ≠ 0)
    (hcomment : comment.isSome ↔ src.flags &&& commentFlag ≠ 0)
    (hsplit : src.bytes.drop src.stringsAt = GzipHeader.stringBytes name ++
      (GzipHeader.stringBytes comment ++ src.bytes.drop k))
    (hk : k = src.stringsAt + (GzipHeader.stringBytes name).length +
      (GzipHeader.stringBytes comment).length)
    (hle : src.behindCrc k ≤ src.bytes.length) :
    ∃ hdr : GzipHeader, ∃ rest, src.bytes = hdr.bytes ++ rest ∧
      src.behindCrc k = hdr.bytes.length := by
  have hkle : k ≤ src.bytes.length := by
    rw [GzipSrc.behindCrc] at hle
    split at hle <;> omega
  have h10 : 10 ≤ src.stringsAt := by
    rw [GzipSrc.stringsAt]
    split <;> omega
  obtain ⟨extra, hextra, hextraBytes, hat⟩ := extra_split src (by omega) (by omega)
  obtain ⟨crc, hcrc, hcrcBytes, hend⟩ := crc_split hle
  have hsix : ((src.bytes.drop 4).take 6).length = 6 := by
    rw [List.length_take, List.length_drop]
    omega
  have hmethod : src.bytes[2] = deflated := by
    have h2 := hd.1
    rw [List.getElem?_eq_getElem (by omega)] at h2
    exact Option.some_inj.mp h2
  let hdr : GzipHeader := ⟨(src.bytes[0], src.bytes[1]), src.flags, ⟨_, hsix⟩, extra, name, comment,
    crc, hd.2, hextra, hname, hcomment, hcrc⟩
  have hbytes : src.bytes = hdr.bytes ++ src.bytes.drop (src.behindCrc k) := by
    have hfour : src.bytes = [src.bytes[0], src.bytes[1], deflated, src.flags] ++
        src.bytes.drop 4 := by
      have h3 : src.bytes[3] = src.flags := (List.getD_eq_getElem _ 0 (by omega)).symm
      conv_lhs => rw [← List.drop_zero (l := src.bytes)]
      rw [List.drop_eq_getElem_cons (by omega), List.drop_eq_getElem_cons (by omega),
        List.drop_eq_getElem_cons (by omega), List.drop_eq_getElem_cons (by omega), hmethod, h3]
      rfl
    have hrest : src.bytes.drop 4 = (src.bytes.drop 4).take 6 ++ src.bytes.drop 10 := by
      conv_lhs => rw [← List.take_append_drop 6 (src.bytes.drop 4), List.drop_drop]
    conv_lhs => rw [hfour, hrest, hextraBytes, hsplit, hcrcBytes]
    simp only [hdr, GzipHeader.bytes, List.append_assoc]
  refine ⟨hdr, _, hbytes, ?_⟩
  have hlen : hdr.bytes.length = 4 + (6 + ((GzipHeader.extraBytes extra).length +
      ((GzipHeader.stringBytes name).length + ((GzipHeader.stringBytes comment).length +
        (GzipHeader.crcBytes crc).length)))) := by
    simp only [hdr, GzipHeader.bytes, List.length_append, hsix]
    rfl
  omega

theorem finish_eq {k : ℕ} (hlt : src.flags &&& headCrc ≠ 0 → k + 2 < 2 ^ 31) :
    src.finish k =
      if src.bytes.length ≤ src.behindCrc k then none else some ↑(src.behindCrc k) := by
  have hi : (if src.flags &&& headCrc ≠ 0 then int32 (k + 2) else (k : ℤ)) =
      ↑(src.behindCrc k) := by
    rw [GzipSrc.behindCrc]
    by_cases hc : src.flags &&& headCrc ≠ 0
    · have hk := hlt hc
      rw [if_pos hc, if_pos hc, int32_of_lt (by omega) (by omega)]
      rfl
    · rw [if_neg hc, if_neg hc]
  rw [GzipSrc.finish, hi]
  simp only [ge_iff_le, Nat.cast_le]

/-- Behind the strings no index is beyond the buffer or what an extra field can have. -/
theorem behind_index {k : ℕ} (hk : k = src.stringsAt ∨ k ≤ src.bytes.length) :
    k + 2 < 2 ^ 31 ↔ src.bytes.length - (src.bytes.drop k).length + 2 < 2 ^ 31 := by
  have hfits := src.fits
  have hat := stringsAt_lt src
  rw [List.length_drop]
  omega

/-- A CRC of the header at the end of what an `int` counts: the index is negative, and below the
length. -/
theorem finish_wraps {k : ℕ} (hc : src.flags &&& headCrc ≠ 0) (hk : k < 2 ^ 31)
    (hover : ¬ k + 2 < 2 ^ 31) : ∃ i, src.finish k = some i ∧ i < 0 := by
  have hneg : int32 (k + 2) < 0 := by
    rw [int32, Int.bmod_def]
    split_ifs <;> omega
  refine ⟨int32 (k + 2), ?_, hneg⟩
  rw [GzipSrc.finish, if_pos hc]
  exact if_neg (by omega)

theorem skipsHeader_of_whole (h : src.Whole) : SkipsHeader src := by
  have hrefused : skipHeader src = .ok none → ∀ z dstlen,
      gunzip z dstlen src = .ok ⟨-1, [], src.bytes.length⟩ := by
    intro hnone z dstlen
    rw [gunzip, hnone]
    rfl
  by_cases hd : src.Deflated
  · have hskip := skipHeader_deflated h.four hd
    rw [skipExtra_eq (h.extra hd)] at hskip
    obtain ⟨-, hbehind⟩ |
        ⟨k, name, comment, hstrings, hbehind, hname, hcomment, hsplit, hk, hkle⟩ :=
      skipStrings_spec src src.stringsAt
    · have hsome := h.strings hd
      rw [GzipSrc.behindStrings, hbehind] at hsome
      cases hsome
    · have hcrc : src.flags &&& headCrc ≠ 0 → k + 2 < 2 ^ 31 := fun hc =>
        (behind_index hkle).mpr (h.crc hd hc _ hbehind)
      change skipHeader src = Except.map src.finish _ at hskip
      rw [hstrings] at hskip
      change skipHeader src = .ok (src.finish k) at hskip
      refine ⟨fun e he => ?_, fun i hi => ?_, hrefused⟩
      · rw [hskip] at he
        cases he
      · rw [hskip, finish_eq hcrc] at hi
        split_ifs at hi with hlen
        · cases hi
        · cases hi
          obtain ⟨hdr, rest, hbytes, hend⟩ := exists_header h.four hd hname hcomment hsplit hk
            (by omega)
          exact ⟨hdr, rest, hbytes, congrArg Nat.cast hend⟩
  · have hskip := skipHeader_refused h.four hd
    refine ⟨fun e he => ?_, fun i hi => ?_, hrefused⟩
    · rw [hskip] at he
      cases he
    · rw [hskip] at hi
      cases hi

theorem whole_of_skipsHeader (h : SkipsHeader src) : src.Whole := by
  have hfour : 4 ≤ src.bytes.length := by
    by_contra hlt
    exact h.inside _ (skipHeader_short (not_le.mp hlt))
  have hextra (hd : src.Deflated) (he : src.flags &&& extraField ≠ 0) : 12 ≤ src.bytes.length := by
    by_contra hlt
    refine h.inside .read ?_
    rw [skipHeader_deflated hfour hd, skipExtra_error he (not_le.mp hlt)]
    rfl
  have hskip (hd : src.Deflated) : skipHeader src =
      (skipFlagged src src.flags origName src.stringsAt >>=
        skipFlagged src src.flags commentFlag).map src.finish := by
    rw [skipHeader_deflated hfour hd, skipExtra_eq (hextra hd)]
    rfl
  refine ⟨hfour, hextra, fun hd => ?_, fun hd hc rest hrest => ?_⟩
  · obtain ⟨hstrings, -⟩ | ⟨k, -, -, -, hbehind, -⟩ := skipStrings_spec src src.stringsAt
    · refine absurd ?_ (h.inside .read)
      rw [hskip hd, hstrings]
      rfl
    · rw [GzipSrc.behindStrings, hbehind]
      rfl
  · obtain ⟨-, hbehind⟩ | ⟨k, -, -, hstrings, hbehind, -, -, -, -, hkle⟩ :=
      skipStrings_spec src src.stringsAt
    · rw [GzipSrc.behindStrings, hbehind] at hrest
      cases hrest
    · rw [GzipSrc.behindStrings, hbehind] at hrest
      cases hrest
      rw [← behind_index hkle]
      by_contra hover
      have hk : k < 2 ^ 31 := by
        have hat := stringsAt_lt src
        rcases hkle with heq | hle
        · omega
        · exact hle.trans_lt src.fits
      obtain ⟨i, hfinish, hneg⟩ := finish_wraps hc hk hover
      have hhdr := h.header i (by rw [hskip hd, hstrings, ← hfinish]; rfl)
      obtain ⟨hdr, rest, -, hlen⟩ := hhdr
      omega

end

/-- **The header of gzipped data** is skipped within the buffer, and what is inflated is what is
behind it, exactly if the buffer is `Whole`. -/
theorem gunzip_header_iff (src : GzipSrc) : SkipsHeader src ↔ src.Whole :=
  ⟨whole_of_skipsHeader, skipsHeader_of_whole⟩

/-- A name without its NUL. -/
def cutName : GzipSrc := ⟨[0x1f, 0x8b, 8, 8, 0, 0, 0, 0, 0, 3, 0x61, 0x62], by decide⟩

theorem gunzip_header_cut : ¬ SkipsHeader cutName := by
  intro h
  have hcut : skipHeader cutName = .error .read := by
    have hd : cutName.Deflated := ⟨rfl, by decide⟩
    obtain ⟨hstrings, -⟩ | ⟨k, -, -, -, hbehind, -⟩ := skipStrings_spec cutName cutName.stringsAt
    · rw [skipHeader_deflated (by decide) hd, skipExtra_eq (by decide)]
      change Except.map _ (_ >>= _) = _
      rw [hstrings]
      rfl
    · cases hbehind
  exact h.inside _ hcut

end UBoot.Image
