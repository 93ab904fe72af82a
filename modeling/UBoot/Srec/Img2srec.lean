import UBoot.Srec.RoundTrip

/-!
# S-records of `img2srec` (`tools/img2srec.c`)

`buildSRecord` writes a record of any type, in another program than the one that reads it: the
address goes out by shifts and the checksum is a `WORD`.
-/

namespace UBoot.Srec

open UBoot.Lib UBoot.Common

/-- `WriteHex`, with the text so far and the checksum. -/
def writeHex (out : List UInt8 × UInt16) (value : UInt8) : List UInt8 × UInt16 :=
  (out.1 ++ [hexChar (value.toNat / 16), hexChar (value.toNat % 16)], out.2 + value.toUInt16)

/-- `addrLen` -/
def addrLenOf (sType : UInt16) : Option ℕ :=
  if sType = 0 ∨ sType = 1 ∨ sType = 9 then some 2
  else if sType = 2 ∨ sType = 8 then some 3
  else if sType = 3 ∨ sType = 7 then some 4
  else none

/-- `BuildSRecord`: what it writes at `pa`. -/
def buildSRecord (sType : UInt16) (addr : UInt32) (data : List UInt8) : List UInt8 :=
  match addrLenOf sType with
  | none => []
  | some addrLen =>
    let sRLen := addrLen + data.length + 1
    let out := writeHex ([83, (sType + 48).toUInt8], 0) (UInt8.ofNat sRLen)
    let out := (List.range addrLen).foldl (fun out i =>
      writeHex out (addr >>> UInt32.ofNat (8 * (addrLen - (i + 1)))).toUInt8) out
    let out := data.foldl writeHex out
    (writeHex out (~~~out.2).toUInt8).1 ++ [0]

def addrBytes (addrLen : ℕ) (addr : UInt32) : List UInt8 :=
  (List.range addrLen).map fun i => (addr >>> UInt32.ofNat (8 * (addrLen - (i + 1)))).toUInt8

section
variable {sType : UInt16} {addr : UInt32} {out : List UInt8 × UInt16} {bytes data : List UInt8}
  {v : UInt8} {type : SrecType} {addrLen : ℕ}

theorem foldl_writeHex : bytes.foldl writeHex out =
    (out.1 ++ bytes.flatMap hexByte, out.2 + (bytes.map UInt8.toUInt16).sum) := by
  induction bytes generalizing out with
  | nil =>
    rw [List.flatMap_nil, List.append_nil, List.map_nil, List.sum_nil, UInt16.add_zero]
    rfl
  | cons b bytes ih =>
    rw [List.foldl_cons, ih, List.flatMap_cons, List.map_cons, List.sum_cons, writeHex,
      List.append_assoc, UInt16.add_assoc]
    rfl

theorem sum_toUInt8 : ((bytes.map UInt8.toUInt16).sum).toUInt8 = bytes.sum := by
  induction bytes with
  | nil => rfl
  | cons b bytes ih =>
    rw [List.map_cons, List.sum_cons, List.sum_cons, UInt16.toUInt8_add, ih,
      UInt8.toUInt8_toUInt16]

theorem buildSRecord_eq (h : addrLenOf sType = some addrLen) :
    buildSRecord sType addr data =
      recordLine (sType + 48).toUInt8 (addrBytes addrLen addr) data ++ [0] := by
  have haddr (out : List UInt8 × UInt16) : (List.range addrLen).foldl (fun out i =>
      writeHex out (addr >>> UInt32.ofNat (8 * (addrLen - (i + 1)))).toUInt8) out =
      (addrBytes addrLen addr).foldl writeHex out := by
    rw [addrBytes, List.foldl_map]
  have hlen : (addrBytes addrLen addr).length = addrLen := by
    rw [addrBytes, List.length_map, List.length_range]
  unfold buildSRecord recordLine
  rw [h]
  simp only [haddr, foldl_writeHex]
  simp only [writeHex, UInt16.toUInt8_not, UInt16.toUInt8_add, sum_toUInt8, hlen,
    UInt8.toUInt8_toUInt16, hexByte, UInt16.zero_add, List.cons_append, List.nil_append,
    List.append_assoc]

theorem nul_notMem_recordLine (hv : v ≠ 0) : 0 ∉ recordLine v bytes data := by
  have hhex (b : UInt8) : 0 ∉ hexByte b := fun h => absurd (le_of_mem_hexByte h) (by decide)
  have hhexs (bytes : List UInt8) : 0 ∉ bytes.flatMap hexByte :=
    fun h => absurd (le_of_mem_flatMap_hexByte h) (by decide)
  unfold recordLine
  simp only [List.mem_cons, List.mem_append, not_or]
  exact ⟨by decide, hv.symm, hhex _, hhexs _, hhexs _, hhex _⟩

theorem addrOf_addrBytes (hlen : addrLen = 2 ∨ addrLen = 3 ∨ addrLen = 4)
    (haddr : addr.toNat < 2 ^ (8 * addrLen)) : addrOf (addrBytes addrLen addr) = addr := by
  have ha := addr.toNat_lt
  apply UInt32.toNat_inj.mp
  rcases hlen with rfl | rfl | rfl <;>
  · simp [addrOf, addrBytes, List.range_succ, Nat.shiftRight_eq_div_pow, Nat.shiftLeft_eq]
    omega

end

/-- The types that `BuildSRecord` is called with, the record that `srec_decode` should find, and
the bytes of its address. -/
def srecTypes : List (UInt16 × SrecType × ℕ) :=
  [(0, .start, 2), (1, .data2, 2), (2, .data3, 3), (3, .data4, 4), (7, .end4, 4), (8, .end3, 3),
    (9, .end2, 2)]

theorem srecTypes_types {sType : UInt16} {type : SrecType} {width : ℕ}
    (h : (sType, type, width) ∈ srecTypes) :
    addrLenOf sType = some width ∧ recordType (sType + 48).toUInt8 = some (type, width) ∧
      type ≠ .count ∧ (width = 2 ∨ width = 3 ∨ width = 4) := by
  simp only [srecTypes, List.mem_cons, Prod.mk.injEq, List.not_mem_nil, or_false] at h
  rcases h with ⟨rfl, rfl, rfl⟩ | ⟨rfl, rfl, rfl⟩ | ⟨rfl, rfl, rfl⟩ | ⟨rfl, rfl, rfl⟩ |
    ⟨rfl, rfl, rfl⟩ | ⟨rfl, rfl, rfl⟩ | ⟨rfl, rfl, rfl⟩ <;> decide

/-- **What `BuildSRecord` writes is read back by `srec_decode`.** -/
theorem srec_decode_build {sType : UInt16} {type : SrecType} {width : ℕ}
    (htype : (sType, type, width) ∈ srecTypes) (addr : UInt32)
    (haddr : addr.toNat < 2 ^ (8 * width)) (data : List UInt8) (hlen : data.length ≤ 254 - width) :
    srecDecode (cstrAt (buildSRecord sType addr data)) = .ok ⟨type, data.length, addr, data⟩ := by
  obtain ⟨hwidth, hdigit, hdata, hsize⟩ := srecTypes_types htype
  have hlength : (addrBytes width addr).length = width := by
    rw [addrBytes, List.length_map, List.length_range]
  have hplain : (sType + 48).toUInt8 ≠ 0 := by
    intro hzero
    rw [hzero] at hdigit
    cases hdigit
  rw [buildSRecord_eq hwidth, cstrAt_append (nul_notMem_recordLine hplain)]
  rw [← hlength] at hdigit
  rw [srecDecode_recordLine hdigit hdata (by omega), addrOf_addrBytes hsize haddr]

theorem srec_decode_build_three :
    srecDecode (cstrAt (buildSRecord 2 0x123456 [1, 2, 3])) =
      .ok ⟨.data3, ([1, 2, 3] : List UInt8).length, 0x123456, [1, 2, 3]⟩ :=
  srec_decode_build (show (2, .data3, 3) ∈ srecTypes by decide) 0x123456 (by decide) [1, 2, 3]
    (by decide)

end UBoot.Srec
