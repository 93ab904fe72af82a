import UBoot.Srec.Serial
import Mathlib.Tactic

/-!
# What `srec_decode` accepts

`Formed` says what a record is; `srec_decode_iff`: when a line that is accepted is one.
-/

namespace UBoot.Srec

open UBoot.Lib UBoot.Common UBoot.Flash

inductive Digits : List UInt8 → List UInt8 → Prop
  | nil : Digits [] []
  | cons {c d b : UInt8} {text bytes : List UInt8} :
    hex2Bin (c :: d :: text) = some b.toNat → Digits text bytes →
    Digits (c :: d :: text) (b :: bytes)

/-- What follows the first `S`. -/
def behindS (line : List UInt8) : List UInt8 := (line.dropWhile (· ≠ 83)).tail

/-- A type digit, a byte count, an address of the type's width, data and a checksum. -/
def Formed (line : List UInt8) (r : Record) : Prop :=
  ∃ v b chk text addr, behindS line = v :: text ∧ recordType v = some (r.type, addr.length) ∧
    Digits text (b :: (addr ++ (r.data ++ [chk]))) ∧ b.toNat = addr.length + r.data.length + 1 ∧
    r.count = r.data.length ∧ r.addr = addrOf addr ∧ chk = ~~~(b + addr.sum + r.data.sum)

/-- The byte count has room for the address and the checksum, and in a count record for no more;
and nothing follows the bytes it counts. -/
def Counted (line : List UInt8) : Prop :=
  ∀ v text b type width, behindS line = v :: text → hex2Bin text = some b →
    recordType v = some (type, width) →
    width + 1 ≤ b ∧ (type = .count → b = width + 1) ∧ text.length ≤ 2 * (b + 1)

/-! ## Digits -/

section
variable {c : UInt8} {n k : ℕ} {text input rest bytes more line : List UInt8} {r : Record}

theorem hex1Bin_lt (h : hex1Bin c = some n) : n < 16 := by
  unfold hex1Bin at h
  simp only [Bool.and_eq_true, decide_eq_true_eq, UInt8.le_iff_toNat_le] at h
  split_ifs at h with h₁ h₂ h₃ <;> simp only [Option.some.injEq] at h
  all_goals
    simp only [UInt8.reduceToNat] at *
    omega

theorem hex2Bin_lt (h : hex2Bin text = some n) : n < 256 := by
  match text, h with
  | c :: d :: _, h =>
    simp only [hex2Bin, Option.bind_eq_bind, Option.bind_eq_some_iff, Option.pure_def,
      Option.some.injEq] at h
    obtain ⟨i, hi, j, hj, rfl⟩ := h
    have hi' := hex1Bin_lt hi
    have hj' := hex1Bin_lt hj
    rw [Nat.shiftLeft_eq]
    omega

theorem hex2Bin_append (h : hex2Bin text = some n) : hex2Bin (text ++ more) = some n := by
  match text, h with
  | _ :: _ :: _, h => exact h

theorem exists_of_hex2Bin (h : hex2Bin input = some n) :
    ∃ c d, input = c :: d :: input.drop 2 ∧ n = (UInt8.ofNat n).toNat := by
  match input, h with
  | c :: d :: input, h => exact ⟨c, d, rfl, (UInt8.toNat_ofNat_of_lt (hex2Bin_lt h)).symm⟩

theorem Digits.length (h : Digits text bytes) : text.length = 2 * bytes.length := by
  induction h with
  | nil => rfl
  | cons _ _ ih =>
    simp only [List.length_cons, ih]
    omega

theorem Digits.head {b : UInt8} (h : Digits text (b :: bytes)) : hex2Bin text = some b.toNat := by
  cases h with
  | cons hb _ => exact hb

theorem Digits.append (h : Digits text bytes) {text' bytes' : List UInt8}
    (h' : Digits text' bytes') : Digits (text ++ text') (bytes ++ bytes') := by
  induction h with
  | nil => exact h'
  | cons hb _ ih => exact .cons (hex2Bin_append hb) ih

theorem readHex_spec (h : readHex n input = some (bytes, rest)) :
    ∃ text, input = text ++ rest ∧ Digits text bytes ∧ bytes.length = n := by
  induction n generalizing input bytes with
  | zero =>
    rw [readHex, Option.some.injEq, Prod.mk.injEq] at h
    obtain ⟨rfl, rfl⟩ := h
    exact ⟨[], rfl, .nil, rfl⟩
  | succ n ih =>
    simp only [readHex, Option.bind_eq_bind, Option.bind_eq_some_iff, Option.pure_def,
      Option.some.injEq, Prod.mk.injEq, Prod.exists] at h
    obtain ⟨v, hv, vs, input', hvs, rfl, rfl⟩ := h
    obtain ⟨c, d, hinput, hbyte⟩ := exists_of_hex2Bin hv
    obtain ⟨text, htext, hdigits, hlen⟩ := ih hvs
    refine ⟨c :: d :: text, ?_, .cons ?_ hdigits, by rw [List.length_cons, hlen]⟩
    · rw [hinput, htext]
      rfl
    · rw [← hbyte, ← hv, hinput]
      rfl

/-! ## `srec_decode` -/

theorem srecDecode_steps (h : srecDecode line = .ok r) :
    (behindS line = [] ∧ r = ⟨.empty, 0, 0, []⟩) ∨
    ∃ v input b addrLen addr input₁ input₂ chk, behindS line = v :: input ∧
      hex2Bin input = some b ∧ recordType v = some (r.type, addrLen) ∧
      readHex addrLen (input.drop 2) = some (addr, input₁) ∧
      r.count = (if r.type = .count then 0 else (b : ℤ) - (addrLen + 1)) ∧
      readHex r.count.toNat input₁ = some (r.data, input₂) ∧ hex2Bin input₂ = some chk ∧
      r.addr = addrOf addr ∧
      UInt8.ofNat chk = ~~~(UInt8.ofNat b + addr.sum + r.data.sum) := by
  unfold srecDecode at h
  rw [behindS]
  cases hline : (line.dropWhile (· ≠ 83)).tail with
  | nil =>
    rw [hline] at h
    cases h
    exact .inl ⟨rfl, rfl⟩
  | cons v input =>
  right
  simp only [hline] at h
  cases hb : hex2Bin input with
  | none => simp [hb] at h
  | some b =>
  cases htype : recordType v with
  | none => simp [hb, htype] at h
  | some p =>
  obtain ⟨type, addrLen⟩ := p
  simp only [hb, htype] at h
  cases haddr : readHex addrLen (input.drop 2) with
  | none => simp [haddr] at h
  | some p =>
  obtain ⟨addr, input₁⟩ := p
  simp only [haddr] at h
  generalize hcount : (if type = .count then (0 : ℤ) else b - (addrLen + 1)) = count at h
  cases hdata : readHex count.toNat input₁ with
  | none => simp [hdata] at h
  | some p =>
  obtain ⟨data, input₂⟩ := p
  simp only [hdata] at h
  cases hchk : hex2Bin input₂ with
  | none => simp [hchk] at h
  | some chk =>
  simp only [hchk] at h
  split_ifs at h with hsum
  cases h
  exact ⟨v, input, b, addrLen, addr, input₁, input₂, chk, rfl, hb, htype, haddr, hcount.symm, hdata,
    hchk, rfl, not_not.mp hsum⟩

/-- What a line holds that is accepted: digits for the byte count, for as many bytes of address and
data as it asks for, and for the checksum, and what follows. -/
theorem srecDecode_spec (h : srecDecode line = .ok r) (hne : r.type ≠ .empty) :
    ∃ v b chk text more addr, behindS line = v :: (text ++ more) ∧
      recordType v = some (r.type, addr.length) ∧
      Digits text (b :: (addr ++ (r.data ++ [chk]))) ∧
      r.count = (if r.type = .count then 0 else (b.toNat : ℤ) - (addr.length + 1)) ∧
      r.data.length = r.count.toNat ∧ r.addr = addrOf addr ∧
      chk = ~~~(b + addr.sum + r.data.sum) := by
  obtain ⟨-, rfl⟩ | ⟨v, input, b, addrLen, addr, input₁, input₂, chk, hline, hb, htype, haddr,
    hcount, hdata, hchk, haddrOf, hsum⟩ := srecDecode_steps h
  · exact absurd rfl hne
  obtain ⟨c₀, d₀, hinput, hbyte⟩ := exists_of_hex2Bin hb
  obtain ⟨text₁, htext₁, hdigits₁, hlen₁⟩ := readHex_spec haddr
  obtain ⟨text₂, htext₂, hdigits₂, hlen₂⟩ := readHex_spec hdata
  obtain ⟨c₃, d₃, hinput₃, hbyte₃⟩ := exists_of_hex2Bin hchk
  have hb' : hex2Bin (c₀ :: d₀ :: (text₁ ++ (text₂ ++ [c₃, d₃]))) =
      some (UInt8.ofNat b).toNat := by
    rw [← hbyte, ← hb, hinput]
    rfl
  have hchk' : hex2Bin [c₃, d₃] = some (UInt8.ofNat chk).toNat := by
    rw [← hbyte₃, ← hchk, hinput₃]
    rfl
  refine ⟨v, UInt8.ofNat b, UInt8.ofNat chk, c₀ :: d₀ :: (text₁ ++ (text₂ ++ [c₃, d₃])),
    input₂.drop 2, addr, ?_, hlen₁ ▸ htype,
    .cons hb' (hdigits₁.append (hdigits₂.append (.cons hchk' .nil))), ?_, hlen₂, haddrOf, hsum⟩
  · have htail : [c₃, d₃] ++ input₂.drop 2 = input₂ := hinput₃.symm
    rw [hline, List.cons_append, List.cons_append, List.append_assoc, List.append_assoc, htail,
      ← htext₂, ← htext₁, ← hinput]
  · rw [← hbyte, hlen₁, hcount]

/-- A line that is accepted is a record exactly if its byte count is right. -/
theorem formed_iff (h : srecDecode line = .ok r) (hne : r.type ≠ .empty) :
    Formed line r ↔ Counted line := by
  obtain ⟨v, b, chk, text, more, addr, hline, htype, hdigits, hcount, hdata, haddr, hchk⟩ :=
    srecDecode_spec h hne
  have hbyte : hex2Bin (text ++ more) = some b.toNat := hex2Bin_append hdigits.head
  have hlen := hdigits.length
  simp only [List.length_cons, List.length_append, List.length_nil] at hlen
  constructor
  · rintro ⟨v', b', chk', text', addr', hline', htype', hdigits', hb, hcount', -, -⟩
    have hlen' := hdigits'.length
    simp only [List.length_cons, List.length_append, List.length_nil] at hlen'
    intro v₁ text₁ b₁ type width hline₁ hbyte₁ htype₁
    obtain ⟨rfl, rfl⟩ := List.cons.inj (hline'.symm.trans hline₁)
    obtain rfl := Option.some.inj (hdigits'.head.symm.trans hbyte₁)
    obtain ⟨rfl, rfl⟩ := Prod.mk.inj (Option.some.inj (htype'.symm.trans htype₁))
    refine ⟨by omega, fun htype => ?_, by omega⟩
    rw [if_pos htype] at hcount
    omega
  · intro hcounted
    obtain ⟨hroom, hexact, hend⟩ := hcounted v (text ++ more) b.toNat r.type addr.length hline hbyte
      htype
    have hsize : b.toNat = addr.length + r.data.length + 1 ∧ r.count = r.data.length := by
      split_ifs at hcount with hc
      · have := hexact hc
        omega
      · omega
    have hmore : more = [] := by
      rw [List.length_append] at hend
      exact List.eq_nil_of_length_eq_zero (by omega)
    rw [hmore, List.append_nil] at hline
    exact ⟨v, b, chk, text, addr, hline, htype, hdigits, hsize.1, hsize.2, haddr, hchk⟩

/-! ## The buffer -/

/-- How many bytes the loop over the data stores. -/
def storedBytes : ℕ → List UInt8 → ℕ
  | 0, _ => 0
  | n + 1, input =>
    match hex2Bin input with
    | none => 0
    | some _ => storedBytes n (input.drop 2) + 1

/-- How many bytes `srec_decode` stores in `data`, whatever its result is. -/
def srecStores (line : List UInt8) : ℕ :=
  match behindS line with
  | [] => 0
  | v :: input =>
    match hex2Bin input, recordType v with
    | some len, some (type, addrLen) =>
      match readHex addrLen (input.drop 2) with
      | none => 0
      | some (_, input) =>
        storedBytes (if type = .count then (0 : ℤ) else len - (addrLen + 1)).toNat input
    | _, _ => 0

def srecMaxBinLen : ℕ := 255

theorem storedBytes_le : storedBytes n input ≤ n := by
  induction n generalizing input with
  | zero => exact le_rfl
  | succ n ih =>
    rw [storedBytes]
    cases hex2Bin input with
    | none => exact Nat.zero_le _
    | some _ => exact Nat.succ_le_succ ih

theorem storedBytes_eq (h : readHex n input = some (bytes, rest)) : storedBytes n input = n := by
  induction n generalizing input bytes with
  | zero => rfl
  | succ n ih =>
    simp only [readHex, Option.bind_eq_bind, Option.bind_eq_some_iff, Option.pure_def,
      Option.some.injEq, Prod.mk.injEq, Prod.exists] at h
    obtain ⟨v, hv, vs, input', hvs, -, rfl⟩ := h
    rw [storedBytes, hv]
    exact congrArg (· + 1) (ih hvs)

theorem srecStores_le : srecStores line ≤ srecMaxBinLen := by
  unfold srecStores srecMaxBinLen
  split
  · exact Nat.zero_le _
  rename_i v input _
  split
  · rename_i len type addrLen hlen _
    have hlt := hex2Bin_lt hlen
    split
    · exact Nat.zero_le _
    · refine storedBytes_le.trans ?_
      split_ifs <;> omega
  · exact Nat.zero_le _

theorem srecStores_eq (h : srecDecode line = .ok r) : srecStores line = r.data.length := by
  unfold srecStores
  obtain ⟨hline, rfl⟩ | ⟨v, input, b, addrLen, addr, input₁, input₂, chk, hline, hb, htype, haddr,
    hcount, hdata, -⟩ := srecDecode_steps h
  · rw [hline]
    rfl
  obtain ⟨-, -, -, hlen⟩ := readHex_spec hdata
  simp only [hline, hb, htype, haddr, ← hcount]
  rw [storedBytes_eq hdata, hlen]

/-! ## `load_serial` -/

variable (hangup : List UInt8 → Bool) (flashInfo : List FlashInfo)
  (writeBuff : ℕ → List UInt8 → UInt32 → Mem32 → ℤ × Mem32)

/-- The lines that `read_record` returns, one call after the other. -/
def recordsOf : ℕ → List UInt8 → List (List UInt8)
  | 0, _ => []
  | fuel + 1, input =>
    match readRecord hangup srecMaxRecLen input [] with
    | some (some line, input) => line :: recordsOf fuel input
    | _ => []

/-- With such byte counts no record of a negative length is stored. -/
theorem loadLoop_ok (offset : UInt32) (fuel : ℕ) (input : List UInt8) (l : Load)
    (h : ∀ line ∈ recordsOf hangup fuel input, Counted line) :
    ∃ r, loadLoop hangup flashInfo writeBuff offset fuel input l = .ok r := by
  induction fuel generalizing input l with
  | zero => exact ⟨none, rfl⟩
  | succ fuel ih =>
    rw [recordsOf] at h
    rw [loadLoop]
    cases hread : readRecord hangup srecMaxRecLen input [] with
    | none => exact ⟨none, rfl⟩
    | some p =>
    obtain ⟨_ | line, input'⟩ := p
    · exact ⟨some (~~~0, l, input'), rfl⟩
    simp only [hread, List.forall_mem_cons] at h
    dsimp only
    cases hline : srecDecode line with
    | error e => exact ⟨_, rfl⟩
    | ok r =>
    have hrest (l : Load) := ih input' l h.2
    have hstore (hne : r.type ≠ .empty) : ∃ r', (if r.count < 0 then .error .write else
        if (storeRecord flashInfo writeBuff l (r.addr + offset) r.data).1 ≠ 0 then
          .ok (some (~~~0, (storeRecord flashInfo writeBuff l (r.addr + offset) r.data).2, input'))
        else loadLoop hangup flashInfo writeBuff offset fuel input'
          (storeRecord flashInfo writeBuff l (r.addr + offset) r.data).2) = .ok r' := by
      obtain ⟨_, _, _, _, _, -, -, -, -, hcount, -⟩ := (formed_iff hline hne).mpr h.1
      rw [if_neg (by omega)]
      split_ifs
      · exact ⟨_, rfl⟩
      · exact hrest _
    dsimp only
    cases htype : r.type with
    | data2 => exact hstore (by rw [htype]; decide)
    | data3 => exact hstore (by rw [htype]; decide)
    | data4 => exact hstore (by rw [htype]; decide)
    | end2 => exact ⟨_, rfl⟩
    | end3 => exact ⟨_, rfl⟩
    | end4 => exact ⟨_, rfl⟩
    | start => exact hrest l
    | count => exact hrest l
    | empty => exact hrest l

end

/-- **A line that `srec_decode` accepts is a record** exactly if its byte count is right. No line is
stored behind the end of the buffer; and with such byte counts `load_serial` stores no record of a
negative length. -/
theorem srec_decode_iff (line : List UInt8) :
    (∀ r, srecDecode line = .ok r → r.type ≠ .empty → (Formed line r ↔ Counted line)) ∧
    srecStores line ≤ srecMaxBinLen ∧
    ∀ hangup flashInfo writeBuff offset input mem,
      (∀ line ∈ recordsOf hangup (input.length + 1) input, Counted line) →
      ∃ r, loadSerial hangup flashInfo writeBuff offset input mem = .ok r :=
  ⟨fun _ h hne => formed_iff h hne, srecStores_le,
    fun hangup flashInfo writeBuff offset input _ h =>
      loadLoop_ok hangup flashInfo writeBuff offset (input.length + 1) input _ h⟩

/-- Two data records and the end of a download. -/
def sampleRecords : List UInt8 := ascii "S1040000AA51\nS1050010BBCC63\nS9030000FC\n"

theorem sampleRecords_eq : recordsOf (fun _ => false) (sampleRecords.length + 1) sampleRecords =
    [ascii "S1040000AA51", ascii "S1050010BBCC63", ascii "S9030000FC"] := rfl

theorem sampleRecords_counted : ∀ line ∈ [ascii "S1040000AA51", ascii "S1050010BBCC63",
    ascii "S9030000FC"], Counted line := by
  refine List.forall_mem_cons.mpr ⟨?_, List.forall_mem_cons.mpr ⟨?_,
    List.forall_mem_singleton.mpr ?_⟩⟩ <;>
  · rintro v text b type width hv hb ht
    cases hv
    cases hb
    cases ht
    decide

theorem srec_decode_iff_data :
    Formed (ascii "S1050010BBCC63") ⟨.data2, 2, 0x10, [0xbb, 0xcc]⟩ ∧
    srecStores (ascii "S1050010BBCC63") ≤ srecMaxBinLen ∧
    ∃ r, loadSerial (fun _ => false) [] (fun _ _ _ m => (0, m)) 0 sampleRecords (fun _ => 0) =
      .ok r := by
  obtain ⟨hformed, hstores, hload⟩ := srec_decode_iff (ascii "S1050010BBCC63")
  have hcounted := sampleRecords_counted
  refine ⟨(hformed _ rfl (by decide)).mpr (hcounted _ (by simp)), hstores,
    hload _ _ _ _ _ _ fun line h => ?_⟩
  rw [sampleRecords_eq] at h
  exact hcounted line h

/-- A byte count of 0 is accepted; the length of the record is -3, and it is stored. -/
theorem srec_decode_negative :
    (∃ r, srecDecode (ascii "S1000000FF") = .ok r ∧ r.type ≠ .empty ∧ r.count = -3 ∧
      ¬ Formed (ascii "S1000000FF") r) ∧
    loadSerial (fun _ => false) [] (fun _ _ _ m => (0, m)) 0 (ascii "S1000000FF\n") (fun _ => 0) =
      .error .write := by
  have hdecode : srecDecode (ascii "S1000000FF") = .ok ⟨.data2, -3, 0, []⟩ := rfl
  refine ⟨⟨_, hdecode, by decide, rfl, ?_⟩, rfl⟩
  rintro ⟨_, _, _, _, _, -, -, -, -, hcount, -⟩
  cases hcount

end UBoot.Srec
