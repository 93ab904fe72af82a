import Mathlib.Data.UInt
import UBoot.Common.Strings

/-!
# S-records (`common/s_record.c`)

`srecDecode` reads one line, given without its NUL: whatever follows the line's end reads as
the NUL, which is no hex digit. `readHex` is the loop that converts the address or the data
field. The checksum is kept in an `unsigned char`.

`fmtX` is `printf`'s `%X`, `fmtPad w` the same padded with zeros to `w` characters; the
lemmas say that `hex2_bin` reads back what they print.
-/

namespace UBoot.Srec

open UBoot.Common

/-- The record types that `srec_decode` returns. -/
inductive SrecType where
  | start | data2 | data3 | data4 | count | end4 | end3 | end2 | empty
  deriving DecidableEq, Repr

inductive SrecError where
  | badType | noSrec | badChks
  deriving DecidableEq, Repr

/-- What `srec_decode` leaves behind: its result, `*count`, `*addr` and the bytes in `data`. -/
structure Record where
  type : SrecType
  count : Int
  addr : UInt32
  data : List UInt8
  deriving DecidableEq

def hex1Bin (c : UInt8) : Option Nat :=
  if 48 ≤ c && c ≤ 57 then some (c.toNat - 48)
  else if 97 ≤ c && c ≤ 102 then some (c.toNat + 10 - 97)
  else if 65 ≤ c && c ≤ 70 then some (c.toNat + 10 - 65)
  else none

def hex2Bin : List UInt8 → Option Nat
  | c :: d :: _ => do
    let i ← hex1Bin c
    let j ← hex1Bin d
    return (i <<< 4) + j
  | _ => none

/-- `n` bytes in hex, and what is left of the line. -/
def readHex : Nat → List UInt8 → Option (List UInt8 × List UInt8)
  | 0, input => some ([], input)
  | n + 1, input => do
    let v ← hex2Bin input
    let (vs, input) ← readHex n (input.drop 2)
    return (UInt8.ofNat v :: vs, input)

/-- The record type of a digit and the size of its address field. -/
def recordType (v : UInt8) : Option (SrecType × Nat) :=
  if v = 48 then some (.start, 2)
  else if v = 49 then some (.data2, 2)
  else if v = 50 then some (.data3, 3)
  else if v = 51 then some (.data4, 4)
  else if v = 53 then some (.count, 2)
  else if v = 55 then some (.end4, 4)
  else if v = 56 then some (.end3, 3)
  else if v = 57 then some (.end2, 2)
  else none

/-- `*addr <<= 8; *addr += v;` for each byte of the address field. -/
def addrOf (bytes : List UInt8) : UInt32 :=
  bytes.foldl (fun addr v => (addr <<< 8) + v.toUInt32) 0

/-- `srec_decode`. Without a record type there is nothing to decode (`SREC_EMPTY`), and the
other results are left alone. -/
def srecDecode (input : List UInt8) : Except SrecError Record :=
  match (input.dropWhile (· ≠ 83)).tail with
  | [] => .ok ⟨.empty, 0, 0, []⟩
  | v :: input =>
    match hex2Bin input with
    | none => .error .noSrec
    | some len =>
      match recordType v with
      | none => .error .badType
      | some (type, addrLen) =>
        let count : Int := if type = .count then 0 else len - (addrLen + 1)
        match readHex addrLen (input.drop 2) with
        | none => .error .noSrec
        | some (addr, input) =>
          match readHex count.toNat input with
          | none => .error .noSrec
          | some (data, input) =>
            match hex2Bin input with
            | none => .error .noSrec
            | some v =>
              let chksum := UInt8.ofNat len + addr.sum + data.sum
              if UInt8.ofNat v ≠ ~~~chksum then .error .badChks
              else .ok ⟨type, count, addrOf addr, data⟩

/-- A character of `"0123456789ABCDEF"`. -/
def hexChar (d : Nat) : UInt8 := if d < 10 then UInt8.ofNat (48 + d) else UInt8.ofNat (55 + d)

/-- `%X`. -/
def fmtX (n : Nat) : List UInt8 :=
  if n < 16 then [hexChar n] else fmtX (n / 16) ++ [hexChar (n % 16)]

/-- `%02X`, `%08lX`. -/
def fmtPad (w n : Nat) : List UInt8 := List.replicate (w - (fmtX n).length) 48 ++ fmtX n

def hexByte (b : UInt8) : List UInt8 := [hexChar (b.toNat / 16), hexChar (b.toNat % 16)]

/-- A record of the type with the digit `v`. -/
def recordLine (v : UInt8) (addr data : List UInt8) : List UInt8 :=
  let length := UInt8.ofNat (addr.length + data.length + 1)
  83 :: v :: (hexByte length ++ (addr.flatMap hexByte ++ (data.flatMap hexByte ++
    hexByte (~~~(length + addr.sum + data.sum)))))

section Format
variable {w n : Nat} {b v : UInt8} {rest bytes data : List UInt8} {type : SrecType}

theorem hex1Bin_hexChar (h : n < 16) : hex1Bin (hexChar n) = some n := by
  interval_cases n <;> rfl

theorem hex2Bin_hexByte : hex2Bin (hexByte b ++ rest) = some b.toNat := by
  have hb := b.toNat_lt
  simp only [hexByte, List.cons_append, hex2Bin, hex1Bin_hexChar (n := b.toNat / 16) (by omega),
    hex1Bin_hexChar (Nat.mod_lt b.toNat (by decide : 16 > 0)), Option.bind_eq_bind,
    Option.bind_some, Option.pure_def, Nat.shiftLeft_eq]
  congr 1
  omega

theorem readHex_hexBytes (bytes : List UInt8) :
    readHex bytes.length (bytes.flatMap hexByte ++ rest) = some (bytes, rest) := by
  induction bytes with
  | nil => rfl
  | cons b bytes ih =>
    rw [List.flatMap_cons, List.append_assoc, List.length_cons, readHex, hex2Bin_hexByte]
    have hdrop : (hexByte b ++ (bytes.flatMap hexByte ++ rest)).drop 2 =
      bytes.flatMap hexByte ++ rest := rfl
    simp only [hdrop, ih, Option.bind_eq_bind, Option.bind_some, Option.pure_def,
      UInt8.ofNat_toNat]

theorem srecDecode_recordLine (htype : recordType v = some (type, bytes.length))
    (hdata : type ≠ .count) (hlen : bytes.length + data.length + 1 < 256) :
    srecDecode (recordLine v bytes data) = .ok ⟨type, data.length, addrOf bytes, data⟩ := by
  unfold recordLine
  have hcount : (UInt8.ofNat (bytes.length + data.length + 1)).toNat =
      bytes.length + data.length + 1 := UInt8.toNat_ofNat_of_lt hlen
  have hnat : ((bytes.length + data.length + 1 : ℕ) : ℤ) - (bytes.length + 1) = data.length := by
    omega
  generalize UInt8.ofNat (bytes.length + data.length + 1) = length at *
  have hsum := @hex2Bin_hexByte (~~~(length + bytes.sum + data.sum)) []
  rw [List.append_nil] at hsum
  have hdrop (b : UInt8) (s : List UInt8) : (hexByte b ++ s).drop 2 = s := rfl
  have hskip (s : List UInt8) : ((83 :: s).dropWhile (· ≠ 83)).tail = s := rfl
  simp only [srecDecode, hskip, hex2Bin_hexByte, hcount, htype, hdrop, readHex_hexBytes,
    if_neg hdata, hnat, Int.toNat_natCast, hsum, UInt8.ofNat_toNat]
  rw [← hcount, UInt8.ofNat_toNat, if_neg (not_not.mpr rfl)]

theorem fmtPad_succ (hw : 0 < w) : fmtPad (w + 1) n = fmtPad w (n / 16) ++ [hexChar (n % 16)] := by
  rw [fmtPad, fmtPad, fmtX]
  split
  · rename_i hn
    have h0 : n / 16 = 0 := by omega
    rw [h0, Nat.mod_eq_of_lt hn, fmtX, if_pos (by decide), List.append_assoc]
    have hz : [hexChar 0] ++ [hexChar n] = [48] ++ [hexChar n] := rfl
    rw [hz, ← List.append_assoc, ← List.replicate_succ']
    congr 2
    simp only [List.length_singleton]
    omega
  · rw [List.length_append, List.length_singleton, Nat.add_sub_add_right, List.append_assoc]

theorem exists_fmtX (hn : 0 < n) : ∃ c s, fmtX n = c :: s ∧ c ≠ 48 := by
  induction n using Nat.strong_induction_on with
  | h n ih =>
    rw [fmtX]
    split
    · refine ⟨hexChar n, [], rfl, ?_⟩
      interval_cases n <;> decide
    · obtain ⟨c, s, hs, hc⟩ := ih (n / 16) (by omega) (by omega)
      exact ⟨c, s ++ [hexChar (n % 16)], by rw [hs]; rfl, hc⟩

theorem fmtX_injective {m : Nat} (h : fmtX m = fmtX n) : m = n := by
  induction m using Nat.strong_induction_on generalizing n with
  | h m ih =>
    have hchar {a b : Nat} (ha : a < 16) (hb : b < 16) (hab : hexChar a = hexChar b) : a = b := by
      have hbin := congrArg hex1Bin hab
      rwa [hex1Bin_hexChar ha, hex1Bin_hexChar hb, Option.some.injEq] at hbin
    have hlong (k : Nat) : fmtX k ≠ [] := by
      rw [fmtX]
      split_ifs
      · exact List.cons_ne_nil _ _
      · exact List.append_ne_nil_of_right_ne_nil _ (List.cons_ne_nil _ _)
    rw [fmtX.eq_1 m, fmtX.eq_1 n] at h
    split_ifs at h with hm hn hn
    · exact hchar hm hn (List.singleton_inj.mp h)
    · exact absurd (List.append_eq_singleton_iff.mp h.symm) (by simp [hlong])
    · exact absurd (List.append_eq_singleton_iff.mp h) (by simp [hlong])
    · obtain ⟨hfront, hlast⟩ := List.append_inj' h rfl
      have hdiv := ih (m / 16) (by omega) hfront
      have hmod := hchar (Nat.mod_lt m (by decide)) (Nat.mod_lt n (by decide))
        (List.singleton_inj.mp hlast)
      omega

theorem digit_hexChar (hn : n < 16) :
    isxdigit (hexChar n) = true ∧ digitValue (hexChar n) = n := by
  interval_cases n <;> exact ⟨rfl, rfl⟩

theorem strtoulDigits_fmtX (hn : n < 2 ^ 32) (s : List UInt8) :
    strtoulDigits 16 (fmtX n ++ s) 0 = strtoulDigits 16 s n := by
  induction n using Nat.strong_induction_on generalizing s with
  | h n ih =>
    rw [fmtX]
    split
    · rename_i hlt
      obtain ⟨hx, hv⟩ := digit_hexChar hlt
      rw [List.singleton_append, strtoulDigits, hx, hv, decide_eq_true hlt, Nat.zero_mul,
        Nat.zero_add, Nat.mod_eq_of_lt hn]
      rfl
    · have hlt := Nat.mod_lt n (by decide : 16 > 0)
      obtain ⟨hx, hv⟩ := digit_hexChar hlt
      have hdiv : n / 16 * 16 + n % 16 = n := Nat.div_add_mod' n 16
      rw [List.append_assoc, ih (n / 16) (by omega) (by omega), List.singleton_append,
        strtoulDigits, hx, hv, decide_eq_true hlt, hdiv, Nat.mod_eq_of_lt hn]
      rfl

theorem simpleStrtoul_fmtX (hn : n < 2 ^ 32) : simpleStrtoul 16 (fmtX n) = (n, []) := by
  have hdigits := strtoulDigits_fmtX hn []
  rw [List.append_nil] at hdigits
  rcases Nat.eq_zero_or_pos n with rfl | hpos
  · rw [fmtX]
    rfl
  · obtain ⟨c, s, hs, hc⟩ := exists_fmtX hpos
    rw [hs] at hdigits ⊢
    unfold simpleStrtoul
    split
    · rename_i heq
      cases heq
      exact absurd rfl hc
    · rename_i heq
      cases heq
      exact absurd rfl hc
    · exact hdigits

theorem fmtPad_one (hn : n < 16) : fmtPad 1 n = [hexChar n] := by
  rw [fmtPad, fmtX, if_pos hn]
  rfl

theorem fmtPad_byte (b : UInt8) : fmtPad 2 b.toNat = hexByte b := by
  have hb := b.toNat_lt
  rw [fmtPad_succ Nat.one_pos, fmtPad_one (by omega)]
  rfl

/-- The four bytes of a word, most significant first. -/
def wordBytes (a : UInt32) : List UInt8 :=
  [(a >>> 24).toUInt8, (a >>> 16).toUInt8, (a >>> 8).toUInt8, a.toUInt8]

theorem fmtPad_word (a : UInt32) : fmtPad 8 a.toNat = (wordBytes a).flatMap hexByte := by
  have ha := a.toNat_lt
  simp only [fmtPad_succ (Nat.succ_pos _),
    fmtPad_one (n := a.toNat / 16 / 16 / 16 / 16 / 16 / 16 / 16)
    (by omega), wordBytes, List.flatMap_cons, List.flatMap_nil, hexByte, List.cons_append,
    List.nil_append, UInt32.toNat_toUInt8, UInt32.toNat_shiftRight, Nat.shiftRight_eq_div_pow]
  simp only [List.cons.injEq, and_true]
  refine ⟨?_, ?_, ?_, ?_, ?_, ?_, ?_, ?_⟩ <;> congr 1 <;> simp <;> omega

theorem addrOf_wordBytes (a : UInt32) : addrOf (wordBytes a) = a := by
  have ha := a.toNat_lt
  apply UInt32.toNat_inj.mp
  simp [addrOf, wordBytes, Nat.shiftRight_eq_div_pow, Nat.shiftLeft_eq]
  omega

end Format

end UBoot.Srec
