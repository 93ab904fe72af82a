import UBoot.Srec.Serial

/-!
# S-record upload and download

What `save_serial` sends, `load_serial` stores again. `dataLine` and `dataRecords` say in
closed form what is sent: a memory range cut into pieces of 16 bytes. The reading side takes
one record at a time; `After` is its state behind a number of bytes.
-/

namespace UBoot.Srec

open UBoot.Lib UBoot.Common UBoot.Flash

/-- A data record without its newline. -/
def dataLine (address : UInt32) (bytes : List UInt8) : List UInt8 :=
  ascii "S3" ++ hexByte (UInt8.ofNat (bytes.length + 5)) ++ (wordBytes address).flatMap hexByte ++
    bytes.flatMap hexByte ++
    hexByte (~~~(UInt8.ofNat (bytes.length + 5) + (wordBytes address).sum + bytes.sum))

/-- The data records for `bytes` at `address`. -/
def dataRecords (address : UInt32) (bytes : List UInt8) : List UInt8 :=
  if _h : bytes = [] then []
  else
    dataLine address (bytes.take srecBytesPerRecord) ++ [10] ++
      dataRecords (address + UInt32.ofNat srecBytesPerRecord) (bytes.drop srecBytesPerRecord)
termination_by bytes.length
decreasing_by
  have := List.length_pos_of_ne_nil _h
  rw [List.length_drop, srecBytesPerRecord]
  omega

/-- `n` bytes of memory. -/
def memRange (mem : Mem32) (address : UInt32) (n : Nat) : List UInt8 :=
  (List.range n).map fun i => mem (address + UInt32.ofNat i)

section Text
variable {mem : Mem32} {address : UInt32} {bytes : List UInt8} {n k : Nat}

theorem memRange_length : (memRange mem address n).length = n := by
  rw [memRange, List.length_map, List.length_range]

theorem memRange_succ :
    memRange mem address (n + 1) = memRange mem address n ++ [mem (address + UInt32.ofNat n)] := by
  rw [memRange, List.range_succ, List.map_append]
  rfl

theorem memRange_add : memRange mem address (n + k) =
    memRange mem address n ++ memRange mem (address + UInt32.ofNat n) k := by
  simp only [memRange, List.range_add, List.map_append, List.map_map]
  congr 1
  refine List.map_congr_left fun i _ => ?_
  simp only [Function.comp_apply, UInt32.ofNat_add, UInt32.add_assoc]

theorem digits_eq (c : UInt8) :
    [hexChar ((c >>> 4) &&& 0x0f).toNat, hexChar (c &&& 0x0f).toNat] = hexByte c := by
  have hc := c.toNat_lt
  have h1 : ((c >>> 4) &&& 0x0f).toNat = c.toNat / 16 := by
    have h := Nat.and_two_pow_sub_one_eq_mod (c.toNat >>> 4) 4
    simp only [UInt8.toNat_and, UInt8.toNat_shiftRight] at h ⊢
    have h2 := Nat.shiftRight_eq_div_pow c.toNat 4
    simp only [Nat.reducePow, Nat.reduceSub] at h h2
    refine h.trans ?_
    omega
  have h2 : (c &&& 0x0f).toNat = c.toNat % 16 := Nat.and_two_pow_sub_one_eq_mod c.toNat 4
  rw [h1, h2, hexByte]

theorem and_ff_toUInt8 (x : UInt32) : (x &&& 0xff).toUInt8 = x.toUInt8 := by
  apply UInt8.toNat_inj.mp
  have h := Nat.and_two_pow_sub_one_eq_mod x.toNat 8
  simp only [UInt32.toNat_toUInt8, UInt32.toNat_and]
  refine (congrArg (· % 2 ^ 8) h).trans ?_
  omega

theorem and_ff_toNat (x : UInt32) : (x &&& 0xff).toNat = x.toUInt8.toNat := by
  rw [UInt32.toNat_and, UInt32.toNat_toUInt8]
  exact Nat.and_two_pow_sub_one_eq_mod x.toNat 8

theorem toUInt8_sum : ((bytes.map UInt8.toUInt32).sum).toUInt8 = bytes.sum := by
  induction bytes with
  | nil => rfl
  | cons b bytes ih =>
    rw [List.map_cons, List.sum_cons, List.sum_cons, UInt32.toUInt8_add, ih,
      UInt8.toUInt8_toUInt32]

/-- The text that `save_serial` makes of the data collected for one record. -/
theorem recordText_eq (hlen : bytes.length ≤ srecBytesPerRecord) :
    recordText address bytes.length (bytes.map UInt8.toUInt32).sum (bytes.flatMap hexByte) =
      dataLine address bytes ++ [10] := by
  rw [srecBytesPerRecord] at hlen
  have hnat : (UInt32.ofNat (4 + bytes.length + 1)).toNat =
      (UInt8.ofNat (bytes.length + 5)).toNat := by
    rw [UInt32.toNat_ofNat', UInt8.toNat_ofNat']
    omega
  have hlow : (UInt32.ofNat (4 + bytes.length + 1)).toUInt8 = UInt8.ofNat (bytes.length + 5) := by
    apply UInt8.toNat_inj.mp
    rw [UInt32.toNat_toUInt8, hnat, Nat.mod_eq_of_lt (UInt8.toNat_lt _)]
  have hhigh : (UInt32.ofNat (4 + bytes.length + 1) >>> 8).toUInt8 = 0 := by
    apply UInt8.toNat_inj.mp
    have h2 := Nat.shiftRight_eq_div_pow (UInt8.ofNat (bytes.length + 5)).toNat 8
    have h3 := (UInt8.ofNat (bytes.length + 5)).toNat_lt
    rw [UInt32.toNat_toUInt8, UInt32.toNat_shiftRight, hnat]
    refine (congrArg (· % 2 ^ 8) h2).trans ?_
    simp only [UInt8.toNat_zero]
    omega
  have hsum : ∀ s : UInt32, ((List.range 4).foldl (fun sum i =>
      sum + ((address >>> UInt32.ofNat (8 * i)) &&& 0xff)) s).toUInt8 =
      s.toUInt8 + (wordBytes address).sum := by
    intro s
    simp only [List.range_succ, List.range_zero, List.nil_append, List.cons_append,
      List.foldl_cons, List.foldl_nil, UInt32.toUInt8_add, and_ff_toUInt8, wordBytes,
      List.sum_cons, List.sum_nil]
    have h0 : address >>> UInt32.ofNat (8 * 0) = address := by
      apply UInt32.toNat_inj.mp
      simp
    rw [h0]
    simp only [Nat.mul_one, Nat.reduceMul, UInt32.reduceOfNat]
    grind
  have hlensum : ∀ s : UInt32, ((List.range 2).foldl (fun sum i =>
      sum + ((UInt32.ofNat (4 + bytes.length + 1) >>> UInt32.ofNat (8 * i)) &&& 0xff)) s).toUInt8 =
      s.toUInt8 + UInt8.ofNat (bytes.length + 5) := by
    intro s
    have h0 : UInt32.ofNat (4 + bytes.length + 1) >>> UInt32.ofNat (8 * 0) =
        UInt32.ofNat (4 + bytes.length + 1) := by
      apply UInt32.toNat_inj.mp
      simp
    simp only [List.range_succ, List.range_zero, List.nil_append, List.cons_append,
      List.foldl_cons, List.foldl_nil, UInt32.toUInt8_add, and_ff_toUInt8, h0, hlow]
    simp only [Nat.mul_one, UInt32.reduceOfNat, hhigh]
    grind
  simp only [recordText, hnat, fmtPad_byte, fmtPad_word, and_ff_toNat, UInt32.toUInt8_not, hsum,
    hlensum, toUInt8_sum, dataLine]
  congr 4
  grind

end Text

section Save
variable {ctrlc : List UInt8 → Bool} {mem : Mem32} {address : UInt32} {bytes out : List UInt8}

theorem dataRecords_nil : dataRecords address [] = [] := by
  rw [dataRecords, dif_pos rfl]

theorem dataRecords_append {a b : List UInt8} (ha : a ≠ []) (hlen : a.length ≤ srecBytesPerRecord)
    (hfull : b ≠ [] → a.length = srecBytesPerRecord) :
    dataRecords address (a ++ b) = dataLine address a ++ [10] ++
      dataRecords (address + UInt32.ofNat a.length) b := by
  rw [dataRecords, dif_neg (by simp [ha])]
  by_cases hb : b = []
  · subst hb
    rw [List.append_nil, List.take_of_length_le hlen, List.drop_eq_nil_of_le hlen,
      dataRecords_nil, dataRecords_nil]
  · rw [← hfull hb, List.take_left, List.drop_left]

/-- The loop of an upload that was not aborted sends the records of the range. -/
theorem saveLoop_eq {count reclen : Nat}
    (h : (saveLoop ctrlc mem count address reclen
      ((memRange mem address reclen).map UInt8.toUInt32).sum
      ((memRange mem address reclen).flatMap hexByte) out).1 = 0)
    (hreclen : reclen < srecBytesPerRecord) (h0 : count = 0 → reclen = 0) :
    (saveLoop ctrlc mem count address reclen
      ((memRange mem address reclen).map UInt8.toUInt32).sum
      ((memRange mem address reclen).flatMap hexByte) out).2 =
      out ++ dataRecords address (memRange mem address (reclen + count)) := by
  induction count generalizing address reclen out with
  | zero =>
    obtain rfl := h0 rfl
    rw [saveLoop, memRange, List.range_zero, List.map_nil, dataRecords_nil, List.append_nil]
  | succ count ih =>
    have hsum : ((memRange mem address reclen).map UInt8.toUInt32).sum +
        (mem (address + UInt32.ofNat reclen)).toUInt32 =
        ((memRange mem address (reclen + 1)).map UInt8.toUInt32).sum := by
      rw [memRange_succ, List.map_append, List.sum_append]
      simp
    have hdata : (memRange mem address reclen).flatMap hexByte ++
        hexByte (mem (address + UInt32.ofNat reclen)) =
        (memRange mem address (reclen + 1)).flatMap hexByte := by
      rw [memRange_succ, List.flatMap_append, List.flatMap_singleton]
    have hlen := @memRange_length mem address (reclen + 1)
    simp only [saveLoop, digits_eq, hsum, hdata] at h ⊢
    have hadd : reclen + (count + 1) = reclen + 1 + count := by omega
    rw [hadd]
    split at h
    · rename_i hdump
      rw [if_pos hdump]
      have htext := @recordText_eq address (memRange mem address (reclen + 1)) (by omega)
      rw [hlen] at htext
      simp only [writeRecord, htext] at h ⊢
      split at h
      · cases h
      · rename_i hrc
        rw [if_neg hrc]
        have hrec := ih h
          (by decide) (fun _ => rfl)
        rw [Nat.zero_add] at hrec
        have hsplit := @memRange_add mem address (reclen + 1) count
        refine hrec.trans ?_
        rw [hsplit, dataRecords_append (by
            intro hnil
            rw [hnil] at hlen
            cases hlen) (by omega) (by
            intro hne
            have hpos := List.length_pos_of_ne_nil hne
            rw [memRange_length] at hpos
            omega), hlen, List.append_assoc]
    · rename_i hdump
      rw [if_neg hdump]
      obtain ⟨hne, hc⟩ := not_or.mp hdump
      exact ih h (by omega) (fun h => absurd h hc)

/-- What an upload that was not aborted sends. -/
theorem saveSerial_eq {count : UInt32} (h : (saveSerial ctrlc mem address count).1 = 0) :
    (saveSerial ctrlc mem address count).2 = ascii "S0030000FC\n" ++
      dataRecords address (memRange mem address count.toNat) ++ ascii "S70500000000FA\n" := by
  simp only [saveSerial] at h ⊢
  split at h
  · cases h
  · rename_i hstart
    rw [if_neg hstart]
    split at h
    · cases h
    · rename_i hloop
      rw [if_neg hloop]
      split at h
      · cases h
      · rename_i hend
        rw [if_neg hend]
        have hrec := saveLoop_eq (not_not.mp hloop)
          (by decide) (fun _ => rfl)
        rw [Nat.zero_add] at hrec
        exact congrArg (· ++ ascii "S70500000000FA\n") hrec

end Save

section Load
variable {hangup : List UInt8 → Bool} {flashInfo : List FlashInfo}
  {writeBuff : Nat → List UInt8 → UInt32 → Mem32 → Int × Mem32} {mem : Mem32}
  {address : UInt32} {bytes line rest : List UInt8} {l : Load}

theorem le_hexChar {d : Nat} (hd : d < 16) : 48 ≤ hexChar d := by
  interval_cases d <;> decide

theorem le_of_mem_hexByte {b c : UInt8} (h : c ∈ hexByte b) : 48 ≤ c := by
  have hb := b.toNat_lt
  rw [hexByte, List.mem_cons, List.mem_singleton] at h
  rcases h with rfl | rfl
  · exact le_hexChar (by omega)
  · exact le_hexChar (Nat.mod_lt _ (by decide))

theorem le_of_mem_flatMap_hexByte {c : UInt8} (h : c ∈ bytes.flatMap hexByte) : 48 ≤ c := by
  obtain ⟨b, _, hb⟩ := List.mem_flatMap.mp h
  exact le_of_mem_hexByte hb

theorem le_of_mem_dataLine {c : UInt8} (h : c ∈ dataLine address bytes) : 48 ≤ c := by
  simp only [dataLine, List.mem_append] at h
  rcases h with (((h | h) | h) | h) | h
  · have h : c ∈ [83, 51] := h
    simp only [List.mem_cons, List.not_mem_nil, or_false] at h
    rcases h with rfl | rfl <;> decide
  · exact le_of_mem_hexByte h
  · exact le_of_mem_flatMap_hexByte h
  · exact le_of_mem_flatMap_hexByte h
  · exact le_of_mem_hexByte h

theorem flatMap_hexByte_length : (bytes.flatMap hexByte).length = 2 * bytes.length := by
  induction bytes with
  | nil => rfl
  | cons b bytes ih =>
    rw [List.flatMap_cons, List.length_append, ih, List.length_cons]
    have : (hexByte b).length = 2 := rfl
    omega

theorem dataLine_length : (dataLine address bytes).length = 2 * bytes.length + 14 := by
  simp only [dataLine, List.length_append, flatMap_hexByte_length]
  have h1 : (ascii "S3").length = 2 := rfl
  have h2 : ∀ b, (hexByte b).length = 2 := fun _ => rfl
  have h3 : (wordBytes address).length = 4 := rfl
  rw [h1, h2, h2, h3]
  omega

/-- A line without a NUL, a `^C` or a carriage return is read up to its newline. -/
theorem readRecord_line (hh : ∀ input, hangup input = false)
    (hline : ∀ c ∈ line, c ≠ 0 ∧ c ≠ 3 ∧ c ≠ 10 ∧ c ≠ 13) {len : Nat} (hlen : line.length < len)
    (buf : List UInt8) :
    readRecord hangup len (line ++ 10 :: rest) buf = some (some (buf ++ line), rest) := by
  induction line generalizing len buf with
  | nil =>
    obtain ⟨len, rfl⟩ := Nat.exists_eq_succ_of_ne_zero (Nat.ne_of_gt hlen)
    rw [List.nil_append, List.append_nil, readRecord, if_pos (.inr rfl)]
  | cons c line ih =>
    obtain ⟨len, rfl⟩ := Nat.exists_eq_succ_of_ne_zero (Nat.ne_of_gt (Nat.zero_lt_of_lt hlen))
    obtain ⟨⟨h0, h3, h10, h13⟩, hline⟩ := List.forall_mem_cons.mp hline
    rw [List.cons_append, readRecord, if_neg (not_or.mpr ⟨h13, h10⟩),
      if_neg (not_or.mpr ⟨h0, h3⟩), hh]
    simp only [Bool.false_eq_true, if_false]
    rw [ih hline (by rw [List.length_cons] at hlen; omega), List.append_assoc]
    rfl

theorem plain_of_le (h : ∀ c ∈ line, 48 ≤ c) : ∀ c ∈ line, c ≠ 0 ∧ c ≠ 3 ∧ c ≠ 10 ∧ c ≠ 13 := by
  intro c hc
  have hne (d : UInt8) (hd : d < 48) : c ≠ d := by
    rintro rfl
    exact absurd (h c hc) (UInt8.not_le.mpr hd)
  exact ⟨hne 0 (by decide), hne 3 (by decide), hne 10 (by decide), hne 13 (by decide)⟩

theorem dataLine_eq : dataLine address bytes = recordLine 51 (wordBytes address) bytes := by
  have hlen : (wordBytes address).length + bytes.length + 1 = bytes.length + 5 := by
    have hword : (wordBytes address).length = 4 := rfl
    omega
  simp only [dataLine, recordLine, hlen, List.append_assoc]
  rfl

theorem srecDecode_dataLine (hlen : bytes.length ≤ srecBytesPerRecord) :
    srecDecode (dataLine address bytes) = .ok ⟨.data4, bytes.length, address, bytes⟩ := by
  rw [srecBytesPerRecord] at hlen
  have hword : (wordBytes address).length = 4 := rfl
  have htype : recordType 51 = some (.data4, (wordBytes address).length) := rfl
  rw [dataLine_eq, srecDecode_recordLine htype (by decide) (by omega), addrOf_wordBytes]

/-- The state of `load_serial` behind the bytes `done` at `address`. -/
structure After (mem : Mem32) (address : UInt32) (done : List UInt8) (l : Load) : Prop where
  mem_eq : l.mem = mem.store address done
  setenv : l.setenv = []
  bounds : (done = [] ∧ l.startAddr = ~~~0 ∧ l.endAddr = 0) ∨
    (done ≠ [] ∧ l.startAddr = address ∧ l.endAddr.toNat + 1 = address.toNat + done.length)

theorem After.step {done : List UInt8} (h : After mem address done l) (hne : bytes ≠ [])
    (hfit : address.toNat + done.length + bytes.length ≤ 2 ^ 32)
    (hflash : addr2info flashInfo (address + UInt32.ofNat done.length) = none) :
    ∃ l', storeRecord flashInfo writeBuff l (address + UInt32.ofNat done.length) bytes = (0, l') ∧
      After mem address (done ++ bytes) l' := by
  have hpos := List.length_pos_of_ne_nil hne
  have haddr := address.toNat_lt
  have hstore : (address + UInt32.ofNat done.length).toNat = address.toNat + done.length := by
    rw [UInt32.toNat_add, UInt32.toNat_ofNat']
    omega
  have hlast : (address + UInt32.ofNat done.length + UInt32.ofNat bytes.length - 1).toNat + 1 =
      address.toNat + (done ++ bytes).length := by
    rw [UInt32.toNat_sub, UInt32.toNat_add, hstore, UInt32.toNat_ofNat', UInt32.toNat_one,
      List.length_append]
    omega
  have hstart : (if address + UInt32.ofNat done.length < l.startAddr then
      address + UInt32.ofNat done.length else l.startAddr) = address := by
    rcases h.bounds with ⟨rfl, hs, _⟩ | ⟨_, hs, _⟩
    · have h0 : address + UInt32.ofNat ([] : List UInt8).length = address := UInt32.add_zero _
      rw [hs, h0]
      split
      · rfl
      · rename_i hnlt
        rw [UInt32.lt_iff_toNat_lt] at hnlt
        have hmax : (~~~0 : UInt32).toNat = 2 ^ 32 - 1 := rfl
        apply UInt32.toNat_inj.mp
        omega
    · rw [hs, if_neg]
      rw [UInt32.lt_iff_toNat_lt, hstore]
      omega
  simp only [storeRecord, hflash, ne_eq, not_true_eq_false, if_false, hstart]
  generalize address + UInt32.ofNat done.length + UInt32.ofNat bytes.length - 1 = last at hlast ⊢
  refine ⟨_, rfl, ?_, h.setenv, .inr ⟨by simp [hne], rfl, ?_⟩⟩
  · rw [h.mem_eq]
    exact Mem32.store_append (by omega)
  · simp only [gt_iff_lt, UInt32.lt_iff_toNat_lt]
    rw [List.length_append] at hlast ⊢
    split
    · exact hlast
    · rcases h.bounds with ⟨_, _, he⟩ | ⟨_, _, he⟩
      · have hz : l.endAddr.toNat = 0 := by rw [he]; rfl
        omega
      · omega

theorem loadLoop_dataLine (hh : ∀ input, hangup input = false) {done : List UInt8}
    (h : After mem address done l) (hne : bytes ≠ []) (hlen : bytes.length ≤ srecBytesPerRecord)
    (hfit : address.toNat + done.length + bytes.length ≤ 2 ^ 32)
    (hflash : addr2info flashInfo (address + UInt32.ofNat done.length) = none) (fuel : Nat) :
    ∃ l', After mem address (done ++ bytes) l' ∧
      loadLoop hangup flashInfo writeBuff 0 (fuel + 1)
        (dataLine (address + UInt32.ofNat done.length) bytes ++ 10 :: rest) l =
      loadLoop hangup flashInfo writeBuff 0 fuel rest l' := by
  obtain ⟨l', hstore, hafter⟩ := @After.step _ writeBuff _ _ _ _ _ h hne hfit hflash
  have hshort : (dataLine (address + UInt32.ofNat done.length) bytes).length < srecMaxRecLen := by
    rw [dataLine_length, srecMaxRecLen]
    rw [srecBytesPerRecord] at hlen
    omega
  refine ⟨l', hafter, ?_⟩
  rw [loadLoop, readRecord_line hh (plain_of_le fun c hc => le_of_mem_dataLine hc) hshort,
    List.nil_append]
  have hcount : ¬ ((bytes.length : Int) < 0) := by omega
  simp only [srecDecode_dataLine hlen, if_neg hcount, UInt32.add_zero, hstore, ne_eq,
    not_true_eq_false, if_false]

theorem loadLoop_dataRecords (hh : ∀ input, hangup input = false) {size : Nat}
    (hfit : address.toNat + size ≤ 2 ^ 32)
    (hflash : ∀ j < size, addr2info flashInfo (address + UInt32.ofNat j) = none)
    {done todo : List UInt8} (hsize : done.length + todo.length = size)
    (h : After mem address done l) (fuel : Nat) :
    ∃ fuel' l', fuel ≤ fuel' ∧ After mem address (done ++ todo) l' ∧
      loadLoop hangup flashInfo writeBuff 0
        ((dataRecords (address + UInt32.ofNat done.length) todo).length + fuel)
        (dataRecords (address + UInt32.ofNat done.length) todo ++ rest) l =
      loadLoop hangup flashInfo writeBuff 0 fuel' rest l' := by
  induction hn : todo.length using Nat.strong_induction_on generalizing done todo l fuel with
  | h n ih =>
    by_cases hnil : todo = []
    · subst hnil
      rw [dataRecords_nil, List.append_nil, List.length_nil, Nat.zero_add]
      exact ⟨fuel, l, le_rfl, h, rfl⟩
    have hpos := List.length_pos_of_ne_nil hnil
    obtain ⟨a, b, rfl, ha, hlen, hfull⟩ : ∃ a b, todo = a ++ b ∧ a ≠ [] ∧
        a.length ≤ srecBytesPerRecord ∧ (b ≠ [] → a.length = srecBytesPerRecord) := by
      have htake : (todo.take srecBytesPerRecord).length = min srecBytesPerRecord todo.length :=
        List.length_take
      rw [srecBytesPerRecord] at *
      refine ⟨todo.take 16, todo.drop 16, (List.take_append_drop _ _).symm, fun hz => ?_, by omega,
        fun hb => ?_⟩
      · rw [hz, List.length_nil] at htake
        omega
      · have hb := List.length_pos_of_ne_nil hb
        rw [List.length_drop] at hb
        omega
    have hapos := List.length_pos_of_ne_nil ha
    rw [List.length_append] at hn hsize
    rw [dataRecords_append ha hlen hfull, UInt32.add_assoc, ← UInt32.ofNat_add]
    generalize hR : dataRecords (address + UInt32.ofNat (done.length + a.length)) b = R
    -- the first record, then the others by induction, with the fuel its text has left over
    obtain ⟨l₁, hl₁, hrun₁⟩ := loadLoop_dataLine hh h ha
      hlen (by omega) (hflash _ (by omega))
      (R.length + ((dataLine (address + UInt32.ofNat done.length) a).length + fuel))
    obtain ⟨fuel', l', hfuel, hafter, hrun⟩ := ih b.length (by omega)
      (by rw [List.length_append]; omega) hl₁
      ((dataLine (address + UInt32.ofNat done.length) a).length + fuel) rfl
    rw [List.length_append, hR] at hrun
    refine ⟨fuel', l', by omega, by rwa [List.append_assoc] at hafter, ?_⟩
    rw [← hrun, ← hrun₁]
    simp only [List.append_assoc, List.length_append, List.length_cons, List.cons_append,
      List.nil_append]
    congr 1
    omega

set_option maxRecDepth 4000 in
theorem loadLoop_start (hh : ∀ input, hangup input = false) (fuel : Nat) :
    loadLoop hangup flashInfo writeBuff 0 (fuel + 1) (ascii "S0030000FC\n" ++ rest) l =
      loadLoop hangup flashInfo writeBuff 0 fuel rest l := by
  have htext : ascii "S0030000FC\n" ++ rest = ascii "S0030000FC" ++ 10 :: rest := rfl
  have hplain : ∀ c ∈ ascii "S0030000FC", 48 ≤ c := by decide
  have hdecode : srecDecode (ascii "S0030000FC") = .ok ⟨.start, 0, 0, []⟩ := rfl
  rw [htext, loadLoop, readRecord_line hh (plain_of_le hplain) (by decide), List.nil_append]
  simp only [hdecode]

set_option maxRecDepth 4000 in
theorem loadLoop_end (hh : ∀ input, hangup input = false) (fuel : Nat) :
    loadLoop hangup flashInfo writeBuff 0 (fuel + 1) (ascii "S70500000000FA\n" ++ rest) l =
      .ok (some (0, { l with setenv := l.setenv ++
        [(ascii "filesize", fmtX (l.endAddr - l.startAddr + 1).toNat)] }, rest)) := by
  have htext : ascii "S70500000000FA\n" ++ rest = ascii "S70500000000FA" ++ 10 :: rest := rfl
  have hplain : ∀ c ∈ ascii "S70500000000FA", 48 ≤ c := by decide
  have hdecode : srecDecode (ascii "S70500000000FA") = .ok ⟨.end4, 0, 0, []⟩ := rfl
  rw [htext, loadLoop, readRecord_line hh (plain_of_le hplain) (by decide), List.nil_append]
  simp only [hdecode]

end Load

theorem store_memRange {src dst : Mem32} {address : UInt32} {n : Nat}
    (hfit : address.toNat + n ≤ 2 ^ 32) (a : UInt32) :
    dst.store address (memRange src address n) a =
      if address.toNat ≤ a.toNat ∧ a.toNat < address.toNat + n then src a else dst a := by
  have haddr := address.toNat_lt
  have ha := a.toNat_lt
  have hlen := @memRange_length src address n
  have hsub : (a - address).toNat = (2 ^ 32 - address.toNat + a.toNat) % 2 ^ 32 :=
    UInt32.toNat_sub _ _
  rw [Mem32.store]
  split_ifs with h
  · have hlt : (a - address).toNat < n := by omega
    have hback : address + UInt32.ofNat (a - address).toNat = a := by
      rw [UInt32.ofNat_toNat]
      grind
    simp only [memRange, List.getElem?_map, List.getElem?_range hlt, Option.map_some, hback]
  · rw [List.getElem?_eq_none (by omega)]

/-- **The round trip.** The characters of an upload that was not aborted, received by
`load_serial (0)` with other characters behind them and outside the flash: exactly the bytes
of the range are stored, at their addresses; the entry address is 0 and `filesize` the
number of bytes in hex. -/
theorem load_save (ctrlc hangup : List UInt8 → Bool) (flashInfo : List FlashInfo)
    (writeBuff : Nat → List UInt8 → UInt32 → Mem32 → Int × Mem32) (src dst : Mem32)
    (address count : UInt32) (rest : List UInt8) (hcount : 1 ≤ count)
    (hfit : address.toNat + count.toNat ≤ 2 ^ 32)
    (hflash : ∀ j < count.toNat, addr2info flashInfo (address + UInt32.ofNat j) = none)
    (hsave : (saveSerial ctrlc src address count).1 = 0) (hload : ∀ input, hangup input = false) :
    ∃ l, loadSerial hangup flashInfo writeBuff 0 ((saveSerial ctrlc src address count).2 ++ rest)
        dst = .ok (some (0, l, rest)) ∧
      (∀ a, l.mem a = if address.toNat ≤ a.toNat ∧ a.toNat < address.toNat + count.toNat
        then src a else dst a) ∧
      l.setenv = [(ascii "filesize", fmtX count.toNat)] := by
  have hpos : 0 < count.toNat := UInt32.le_iff_toNat_le.mp hcount
  have hlen := @memRange_length src address count.toNat
  rw [saveSerial_eq hsave]
  generalize hR : dataRecords address (memRange src address count.toNat) = R
  have hafter0 : After dst address [] ⟨dst, ~~~0, 0, []⟩ := ⟨rfl, rfl, .inl ⟨rfl, rfl, rfl⟩⟩
  obtain ⟨fuel', l, hfuel, hafter, hrun⟩ := loadLoop_dataRecords
    hload hfit hflash
    (by rw [hlen, List.length_nil]; omega)
    hafter0 ((ascii "S0030000FC\n").length + (ascii "S70500000000FA\n").length + rest.length)
  have h0 : address + UInt32.ofNat ([] : List UInt8).length = address := UInt32.add_zero _
  rw [h0, hR] at hrun
  rw [List.nil_append] at hafter
  obtain ⟨fuel'', rfl⟩ : ∃ f, fuel' = f + 1 := by
    have h11 : (ascii "S0030000FC\n").length = 11 := rfl
    exact ⟨fuel' - 1, by omega⟩
  rw [loadLoop_end hload] at hrun
  have hserial : loadSerial hangup flashInfo writeBuff 0
      (ascii "S0030000FC\n" ++ R ++ ascii "S70500000000FA\n" ++ rest) dst =
      .ok (some (0, { l with setenv := l.setenv ++
        [(ascii "filesize", fmtX (l.endAddr - l.startAddr + 1).toNat)] }, rest)) := by
    rw [loadSerial, List.append_assoc, List.append_assoc, loadLoop_start hload]
    have hlength : (ascii "S0030000FC\n" ++ (R ++ (ascii "S70500000000FA\n" ++ rest))).length =
        R.length + ((ascii "S0030000FC\n").length + (ascii "S70500000000FA\n").length +
          rest.length) := by
      simp only [List.length_append]
      omega
    rw [hlength]
    exact hrun
  refine ⟨_, hserial, fun a => ?_, ?_⟩
  · rw [hafter.mem_eq]
    exact store_memRange hfit a
  · have hne : memRange src address count.toNat ≠ [] := fun h => by
      rw [h, List.length_nil] at hlen
      omega
    obtain ⟨hnil, _⟩ | ⟨_, hs, he⟩ := hafter.bounds
    · exact absurd hnil hne
    · have hsize : l.endAddr - l.startAddr + 1 = count := by
        apply UInt32.toNat_inj.mp
        have := count.toNat_lt
        rw [hs, UInt32.toNat_add, UInt32.toNat_sub, UInt32.toNat_one]
        omega
      rw [hafter.setenv, hsize]
      rfl

/-- Twenty bytes make two records. -/
theorem load_save_twenty :
    ∃ l, loadSerial (fun _ => false) [] (fun _ _ _ m => (0, m)) 0
        ((saveSerial (fun _ => false) (fun a => a.toUInt8) 0x10f8 20).2 ++ ascii "go")
        (fun _ => 0) = .ok (some (0, l, ascii "go")) ∧
      (∀ a, l.mem a = if (0x10f8 : UInt32).toNat ≤ a.toNat ∧
          a.toNat < (0x10f8 : UInt32).toNat + (20 : UInt32).toNat then a.toUInt8 else 0) ∧
      l.setenv = [(ascii "filesize", fmtX (20 : UInt32).toNat)] :=
  load_save (fun _ => false) (fun _ => false) [] (fun _ _ _ m => (0, m)) (fun a => a.toUInt8)
    (fun _ => 0) 0x10f8 20 (ascii "go") (by decide) (by decide) (fun _ _ => rfl) rfl (fun _ => rfl)

end UBoot.Srec
