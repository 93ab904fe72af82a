import UBoot.Env.Crc32
import UBoot.Lib.ShiftRegister

/-!
# The loops of CRC-32 (`lib_generic/crc32.c`)

`crc32Unrolled` is `crc32` as it is compiled, with its table and with eight bytes at a time; it is
the shift register of the comment in front of `make_crc_table`, fed with the bits of the bytes
(`crc32Unrolled_eq_feed`). So it tells apart messages that differ by a burst of at most 32 bits
(`crc32Unrolled_burst`).
-/

namespace UBoot.Env

open UBoot.Lib.ShiftRegister

/-- `crc_table` -/
def crcTableWords : List UInt32 := [
  0x00000000, 0x77073096, 0xee0e612c, 0x990951ba, 0x076dc419, 0x706af48f, 0xe963a535, 0x9e6495a3,
  0x0edb8832, 0x79dcb8a4, 0xe0d5e91e, 0x97d2d988, 0x09b64c2b, 0x7eb17cbd, 0xe7b82d07, 0x90bf1d91,
  0x1db71064, 0x6ab020f2, 0xf3b97148, 0x84be41de, 0x1adad47d, 0x6ddde4eb, 0xf4d4b551, 0x83d385c7,
  0x136c9856, 0x646ba8c0, 0xfd62f97a, 0x8a65c9ec, 0x14015c4f, 0x63066cd9, 0xfa0f3d63, 0x8d080df5,
  0x3b6e20c8, 0x4c69105e, 0xd56041e4, 0xa2677172, 0x3c03e4d1, 0x4b04d447, 0xd20d85fd, 0xa50ab56b,
  0x35b5a8fa, 0x42b2986c, 0xdbbbc9d6, 0xacbcf940, 0x32d86ce3, 0x45df5c75, 0xdcd60dcf, 0xabd13d59,
  0x26d930ac, 0x51de003a, 0xc8d75180, 0xbfd06116, 0x21b4f4b5, 0x56b3c423, 0xcfba9599, 0xb8bda50f,
  0x2802b89e, 0x5f058808, 0xc60cd9b2, 0xb10be924, 0x2f6f7c87, 0x58684c11, 0xc1611dab, 0xb6662d3d,
  0x76dc4190, 0x01db7106, 0x98d220bc, 0xefd5102a, 0x71b18589, 0x06b6b51f, 0x9fbfe4a5, 0xe8b8d433,
  0x7807c9a2, 0x0f00f934, 0x9609a88e, 0xe10e9818, 0x7f6a0dbb, 0x086d3d2d, 0x91646c97, 0xe6635c01,
  0x6b6b51f4, 0x1c6c6162, 0x856530d8, 0xf262004e, 0x6c0695ed, 0x1b01a57b, 0x8208f4c1, 0xf50fc457,
  0x65b0d9c6, 0x12b7e950, 0x8bbeb8ea, 0xfcb9887c, 0x62dd1ddf, 0x15da2d49, 0x8cd37cf3, 0xfbd44c65,
  0x4db26158, 0x3ab551ce, 0xa3bc0074, 0xd4bb30e2, 0x4adfa541, 0x3dd895d7, 0xa4d1c46d, 0xd3d6f4fb,
  0x4369e96a, 0x346ed9fc, 0xad678846, 0xda60b8d0, 0x44042d73, 0x33031de5, 0xaa0a4c5f, 0xdd0d7cc9,
  0x5005713c, 0x270241aa, 0xbe0b1010, 0xc90c2086, 0x5768b525, 0x206f85b3, 0xb966d409, 0xce61e49f,
  0x5edef90e, 0x29d9c998, 0xb0d09822, 0xc7d7a8b4, 0x59b33d17, 0x2eb40d81, 0xb7bd5c3b, 0xc0ba6cad,
  0xedb88320, 0x9abfb3b6, 0x03b6e20c, 0x74b1d29a, 0xead54739, 0x9dd277af, 0x04db2615, 0x73dc1683,
  0xe3630b12, 0x94643b84, 0x0d6d6a3e, 0x7a6a5aa8, 0xe40ecf0b, 0x9309ff9d, 0x0a00ae27, 0x7d079eb1,
  0xf00f9344, 0x8708a3d2, 0x1e01f268, 0x6906c2fe, 0xf762575d, 0x806567cb, 0x196c3671, 0x6e6b06e7,
  0xfed41b76, 0x89d32be0, 0x10da7a5a, 0x67dd4acc, 0xf9b9df6f, 0x8ebeeff9, 0x17b7be43, 0x60b08ed5,
  0xd6d6a3e8, 0xa1d1937e, 0x38d8c2c4, 0x4fdff252, 0xd1bb67f1, 0xa6bc5767, 0x3fb506dd, 0x48b2364b,
  0xd80d2bda, 0xaf0a1b4c, 0x36034af6, 0x41047a60, 0xdf60efc3, 0xa867df55, 0x316e8eef, 0x4669be79,
  0xcb61b38c, 0xbc66831a, 0x256fd2a0, 0x5268e236, 0xcc0c7795, 0xbb0b4703, 0x220216b9, 0x5505262f,
  0xc5ba3bbe, 0xb2bd0b28, 0x2bb45a92, 0x5cb36a04, 0xc2d7ffa7, 0xb5d0cf31, 0x2cd99e8b, 0x5bdeae1d,
  0x9b64c2b0, 0xec63f226, 0x756aa39c, 0x026d930a, 0x9c0906a9, 0xeb0e363f, 0x72076785, 0x05005713,
  0x95bf4a82, 0xe2b87a14, 0x7bb12bae, 0x0cb61b38, 0x92d28e9b, 0xe5d5be0d, 0x7cdcefb7, 0x0bdbdf21,
  0x86d3d2d4, 0xf1d4e242, 0x68ddb3f8, 0x1fda836e, 0x81be16cd, 0xf6b9265b, 0x6fb077e1, 0x18b74777,
  0x88085ae6, 0xff0f6a70, 0x66063bca, 0x11010b5c, 0x8f659eff, 0xf862ae69, 0x616bffd3, 0x166ccf45,
  0xa00ae278, 0xd70dd2ee, 0x4e048354, 0x3903b3c2, 0xa7672661, 0xd06016f7, 0x4969474d, 0x3e6e77db,
  0xaed16a4a, 0xd9d65adc, 0x40df0b66, 0x37d83bf0, 0xa9bcae53, 0xdebb9ec5, 0x47b2cf7f, 0x30b5ffe9,
  0xbdbdf21c, 0xcabac28a, 0x53b39330, 0x24b4a3a6, 0xbad03605, 0xcdd70693, 0x54de5729, 0x23d967bf,
  0xb3667a2e, 0xc4614ab8, 0x5d681b02, 0x2a6f2b94, 0xb40bbe37, 0xc30c8ea1, 0x5a05df1b, 0x2d02ef8d]

def do1 (crc : UInt32) (c : UInt8) : UInt32 :=
  crcTableWords.getD ((crc ^^^ c.toUInt32) &&& 0xff).toNat 0 ^^^ (crc >>> 8)

/-- The loops of `crc32` and `crc32_no_comp`. -/
def crcLoop : UInt32 → List UInt8 → UInt32
  | crc, a :: b :: c :: d :: e :: f :: g :: h :: buf =>
    crcLoop (do1 (do1 (do1 (do1 (do1 (do1 (do1 (do1 crc a) b) c) d) e) f) g) h) buf
  | crc, buf => buf.foldl do1 crc

def crc32Unrolled (crc : UInt32) (buf : List UInt8) : UInt32 :=
  crcLoop (crc ^^^ 0xffffffff) buf ^^^ 0xffffffff

def crc32NoCompUnrolled (crc : UInt32) (buf : List UInt8) : UInt32 := crcLoop crc buf

def byteBits (c : UInt8) : List Bool := (List.range 8).map c.toBitVec.getLsbD

def messageBits (m : List UInt8) : List Bool := m.flatMap byteBits

/-! ### The table -/

set_option maxRecDepth 4000 in
theorem crcTableWords_eq :
    crcTableWords = (List.range 256).map fun n => crcTable (UInt32.ofNat n) := by
  decide

theorem do1_eq (crc : UInt32) (c : UInt8) : do1 crc c = crcByte crc c := by
  have hlt : ((crc ^^^ c.toUInt32) &&& 0xff).toNat < 256 := by
    rw [UInt32.toNat_and]
    exact Nat.lt_succ_of_le Nat.and_le_right
  rw [do1, crcTableWords_eq, List.getD_eq_getElem?_getD, List.getElem?_map,
    List.getElem?_range hlt, Option.map_some, UInt32.ofNat_toNat, crcByte]
  rfl

theorem crcLoop_eq (crc : UInt32) (buf : List UInt8) : crcLoop crc buf = buf.foldl crcByte crc := by
  have hstep : do1 = crcByte := funext fun crc => funext (do1_eq crc)
  fun_induction crcLoop crc buf with
  | case1 crc a b c d e f g h buf ih =>
    rw [ih, hstep]
    simp only [List.foldl_cons]
  | case2 crc buf => rw [hstep]

theorem crc32Unrolled_eq (crc : UInt32) (buf : List UInt8) :
    crc32Unrolled crc buf = crc32 crc buf := by
  rw [crc32Unrolled, crcLoop_eq, crc32]

theorem crcShift_toBitVec (c : UInt32) :
    (crcShift c).toBitVec = shift crcPoly.toBitVec c.toBitVec := by
  have hlow : (c &&& 1 = 1) ↔ c.toBitVec.getLsbD 0 = true := by
    rw [← UInt32.toBitVec_inj, UInt32.toBitVec_and]
    change c.toBitVec &&& 1#32 = 1#32 ↔ _
    rw [BitVec.and_one_eq_setWidth_ofBool_getLsbD]
    cases c.toBitVec.getLsbD 0
    · exact iff_of_false (by decide) (by decide)
    · exact iff_of_true (by decide) rfl
  unfold crcShift shift
  by_cases h : c &&& 1 = 1
  · rw [if_pos h, if_pos (hlow.1 h), UInt32.toBitVec_xor, UInt32.toBitVec_shiftRight]
    rfl
  · rw [if_neg h, if_neg (mt hlow.2 h), UInt32.toBitVec_shiftRight]
    rfl

theorem crcTable_toBitVec (c : UInt32) :
    (crcTable c).toBitVec = (shift crcPoly.toBitVec)^[8] c.toBitVec :=
  (Function.Semiconj.iterate_right (f := UInt32.toBitVec) crcShift_toBitVec 8) c

theorem crcByte_toBitVec (crc : UInt32) (c : UInt8) :
    (crcByte crc c).toBitVec = feed crcPoly.toBitVec crc.toBitVec (byteBits c) := by
  have hword : word 32 (byteBits c) = c.toUInt32.toBitVec := by
    refine BitVec.eq_of_getLsbD_eq fun i hi => ?_
    rw [getLsbD_word _ hi, byteBits, List.getD_eq_getElem?_getD, List.getElem?_map]
    change _ = (c.toBitVec.setWidth 32).getLsbD i
    rw [BitVec.getLsbD_setWidth, decide_eq_true hi, Bool.true_and]
    rcases Nat.lt_or_ge i 8 with hlow | hhigh
    · rw [List.getElem?_range hlow]
      rfl
    · rw [List.getElem?_eq_none (by simpa using hhigh), BitVec.getLsbD_of_ge _ _ hhigh]
      rfl
  have hsplit (x : BitVec 32) : x = (x &&& 0xff#32) ^^^ ((x >>> 8) <<< 8) := by
    refine BitVec.eq_of_getLsbD_eq fun i hi => ?_
    have hmask : (0xff#32).getLsbD i = decide (i < 8) := by
      rw [BitVec.getLsbD_ofNat, decide_eq_true hi, Bool.true_and]
      exact Nat.testBit_two_pow_sub_one 8 i
    rw [BitVec.getLsbD_xor, BitVec.getLsbD_and, hmask, BitVec.getLsbD_shiftLeft,
      BitVec.getLsbD_ushiftRight]
    rcases Nat.lt_or_ge i 8 with hlow | hhigh
    · simp [hlow]
    · simp [hi, Nat.not_lt.2 hhigh, Nat.add_sub_cancel' hhigh]
  have hbyte : c.toUInt32.toBitVec >>> 8 = 0#32 := by
    refine BitVec.eq_of_getLsbD_eq fun i _ => ?_
    rw [BitVec.getLsbD_ushiftRight]
    change (c.toBitVec.setWidth 32).getLsbD (8 + i) = _
    rw [BitVec.getLsbD_setWidth, BitVec.getLsbD_of_ge _ _ (Nat.le_add_right 8 i), Bool.and_false,
      BitVec.getLsbD_zero]
  have hfeed : feed crcPoly.toBitVec crc.toBitVec (byteBits c) =
      (shift crcPoly.toBitVec)^[8] (crc.toBitVec ^^^ c.toUInt32.toBitVec) := by
    rw [feed_eq_iterate _ (by simp [byteBits]), hword]
    rfl
  rw [hfeed, hsplit (crc.toBitVec ^^^ c.toUInt32.toBitVec), shift_iterate_xor,
    BitVec.ushiftRight_xor_distrib, hbyte, BitVec.xor_zero, shift_iterate_shiftLeft, crcByte,
    UInt32.toBitVec_xor, crcTable_toBitVec, UInt32.toBitVec_shiftRight]
  · rfl
  · exact fun i hi => by rw [BitVec.getLsbD_ushiftRight, BitVec.getLsbD_of_ge _ _ (by omega)]

theorem crcLoop_toBitVec (crc : UInt32) (m : List UInt8) :
    (crcLoop crc m).toBitVec = feed crcPoly.toBitVec crc.toBitVec (messageBits m) := by
  rw [crcLoop_eq]
  induction m generalizing crc with
  | nil => rfl
  | cons c m ih =>
    rw [List.foldl_cons, ih, crcByte_toBitVec, messageBits, messageBits, List.flatMap_cons,
      feed_append]

/-- The table and the unrolled loop compute the register of the comment, a bit at a time. -/
theorem crc32Unrolled_eq_feed (crc : UInt32) (m : List UInt8) :
    crc32Unrolled crc m = crc32 crc m ∧
    (crc32Unrolled crc m).toBitVec =
      feed crcPoly.toBitVec (~~~crc.toBitVec) (messageBits m) ^^^ BitVec.allOnes 32 ∧
    (crc32NoCompUnrolled crc m).toBitVec = feed crcPoly.toBitVec crc.toBitVec (messageBits m) := by
  have hnot : (crc ^^^ 0xffffffff).toBitVec = ~~~crc.toBitVec := by
    rw [UInt32.toBitVec_xor]
    exact BitVec.xor_allOnes
  refine ⟨?_, ?_, crcLoop_toBitVec crc m⟩
  · exact crc32Unrolled_eq crc m
  · rw [crc32Unrolled, UInt32.toBitVec_xor, crcLoop_toBitVec, hnot]
    rfl

/-! ### Bursts -/

theorem byteBits_length (c : UInt8) : (byteBits c).length = 8 := rfl

theorem byteBits_injective : Function.Injective byteBits := fun c d h => by
  refine UInt8.eq_of_toBitVec_eq (BitVec.eq_of_getLsbD_eq fun i hi => ?_)
  have hbit := congrArg (·[i]?) h
  simpa [byteBits, hi] using hbit

theorem messageBits_length (m : List UInt8) : (messageBits m).length = 8 * m.length := by
  induction m with
  | nil => rfl
  | cons c m ih =>
    rw [messageBits, List.flatMap_cons, List.length_append, byteBits_length, List.length_cons,
      Nat.mul_succ, Nat.add_comm]
    exact congrArg (· + 8) ih

theorem messageBits_injective : Function.Injective messageBits := fun m n h => by
  induction m generalizing n with
  | nil =>
    have hlen := congrArg List.length h
    rw [messageBits_length, messageBits_length, List.length_nil] at hlen
    exact (List.length_eq_zero_iff.1 (by omega)).symm
  | cons c m ih =>
    cases n with
    | nil =>
      have hlen := congrArg List.length h
      rw [messageBits_length, messageBits_length, List.length_nil, List.length_cons] at hlen
      omega
    | cons d n =>
      rw [messageBits, messageBits, List.flatMap_cons, List.flatMap_cons] at h
      obtain ⟨hfirst, hrest⟩ := List.append_inj h rfl
      rw [byteBits_injective hfirst, ih n hrest]

/-- Messages of the same length that differ within 32 bits lead to different registers. -/
theorem feed_ne_of_window {s : BitVec 32} {as bs : List Bool} (hlen : as.length = bs.length)
    (hne : as ≠ bs) {i : ℕ} (hburst : ∀ j, as[j]? ≠ bs[j]? → i ≤ j ∧ j < i + 32) :
    feed crcPoly.toBitVec s as ≠ feed crcPoly.toBitVec s bs := by
  have hp : crcPoly.toBitVec.getLsbD (32 - 1) = true := by decide
  have hsame (j : ℕ) (hj : ¬ (i ≤ j ∧ j < i + 32)) : as[j]? = bs[j]? :=
    not_not.1 (mt (hburst j) hj)
  have hsplit (l : List Bool) : l = l.take i ++ ((l.drop i).take 32 ++ l.drop (i + 32)) := by
    rw [← List.drop_drop, List.take_append_drop, List.take_append_drop]
  have hfront : as.take i = bs.take i := List.ext_getElem? fun j => by
    rw [List.getElem?_take, List.getElem?_take]
    split_ifs with hj
    · exact hsame j (by omega)
    · rfl
  have hbehind : as.drop (i + 32) = bs.drop (i + 32) := List.ext_getElem? fun j => by
    rw [List.getElem?_drop, List.getElem?_drop]
    exact hsame _ (by omega)
  have hwindow : (as.drop i).take 32 ≠ (bs.drop i).take 32 := fun h => by
    rw [hsplit as, hsplit bs, hfront, hbehind, h] at hne
    exact hne rfl
  rw [hsplit as, hsplit bs, hfront, hbehind, feed_append, feed_append, feed_append, feed_append]
  refine fun h => feed_ne_of_burst hp ?_ ?_ hwindow (feed_injective hp _ h)
  · rw [List.length_take, List.length_take, List.length_drop, List.length_drop, hlen]
  · rw [List.length_take]
    exact Nat.min_le_left ..

/-- A burst of at most 32 bits is never missed, wherever it is and however long the message. -/
theorem crc32Unrolled_burst (crc : UInt32) {m n : List UInt8} (hlen : m.length = n.length)
    (hne : m ≠ n) {i : ℕ}
    (hburst : ∀ j, (messageBits m)[j]? ≠ (messageBits n)[j]? → i ≤ j ∧ j < i + 32) :
    crc32Unrolled crc m ≠ crc32Unrolled crc n ∧
      crc32NoCompUnrolled crc m ≠ crc32NoCompUnrolled crc n := by
  have hstate (s : UInt32) : crcLoop s m ≠ crcLoop s n := fun h => by
    refine feed_ne_of_window ?_ (messageBits_injective.ne hne) hburst (s := s.toBitVec) ?_
    · rw [messageBits_length, messageBits_length, hlen]
    · rw [← crcLoop_toBitVec, ← crcLoop_toBitVec, h]
  exact ⟨fun h => hstate _ (UInt32.xor_left_inj 0xffffffff |>.1 h), hstate crc⟩

theorem crc32Unrolled_burst_byte :
    crc32Unrolled 0 [1, 2, 3] ≠ crc32Unrolled 0 [1, 0x42, 3] ∧
      crc32NoCompUnrolled 0 [1, 2, 3] ≠ crc32NoCompUnrolled 0 [1, 0x42, 3] := by
  refine crc32Unrolled_burst 0 rfl (by decide) (i := 8) fun j hj => ?_
  by_contra hout
  refine hj ?_
  rcases Nat.lt_or_ge j 24 with hlt | hge
  · interval_cases j <;> first | rfl | omega
  · rw [List.getElem?_eq_none (by rw [messageBits_length]; exact hge),
      List.getElem?_eq_none (by rw [messageBits_length]; exact hge)]

end UBoot.Env
