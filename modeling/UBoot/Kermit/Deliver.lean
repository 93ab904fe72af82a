import UBoot.Kermit.Nack
import UBoot.Kermit.Sender

/-!
# One delivery of a packet

What `recvPacket` makes of the bytes of a packet: an intact one is acknowledged and decoded
(`recvPacket_bytes`); from any negative acknowledgement the memory below the write pointer comes
back unchanged (`recvPacket_nack`); and a packet that is cut off is refused when the next one
starts (`recvPacket_cut`).
-/

namespace UBoot.Kermit

open UBoot.Lib

/-! ## Data characters -/

section
variable {start : UInt32} {d : Decoded} {s : KRecv} {c : UInt8} {cs : List UInt8} {t : UInt8}

abbrev dataCharsTo (cs : List UInt8) (s : KRecv) : KRecv := cs.foldl (fun s c => dataChar c s) s

/-- The decoder's variables for what has been decoded. -/
def kdata (start : UInt32) (d : Decoded) : KData :=
  ⟨d.escape, 0, -d.bytes.length, start + UInt32.ofNat d.bytes.length⟩

/-- The first bytes of memory are those decoded. -/
def MemHolds (start : UInt32) (bytes : List UInt8) (s : KRecv) : Prop :=
  s.mem.HoldsUpTo start bytes bytes.length

structure Holds (start : UInt32) (d : Decoded) (s : KRecv) : Prop where
  data : s.data = kdata start d
  mem : MemHolds start d.bytes s

theorem MemHolds.of_prefix {bytes bytes' : List UInt8} (h : MemHolds start bytes' s)
    (hp : bytes <+: bytes') : MemHolds start bytes s := by
  obtain ⟨more, rfl⟩ := hp
  intro i hi _
  rw [h i (by rw [List.length_append]; omega) (by rw [List.length_append]; omega)]
  exact List.getElem_append_left hi

/-- Data characters change the decoder, the memory and the send parameters only. -/
theorem dataCharsTo_eq (cs : List UInt8) (s : KRecv) :
    ∃ data mem sendParms, dataCharsTo cs s =
      { s with data := data, mem := mem, sendParms := sendParms } := by
  induction cs generalizing s with
  | nil => exact ⟨_, _, _, rfl⟩
  | cons c cs ih =>
    obtain ⟨data, mem, sendParms, hcs⟩ := ih (dataChar c s)
    have hc : ∃ data mem sendParms, dataChar c s =
        { s with data := data, mem := mem, sendParms := sendParms } := by
      unfold dataChar kDataChar binDataChar
      split
      · split
        · split <;> exact ⟨_, _, _, rfl⟩
        · split
          · exact ⟨_, _, _, rfl⟩
          · split <;> exact ⟨_, _, _, rfl⟩
      · split <;> exact ⟨_, _, _, rfl⟩
    obtain ⟨_, _, _, hc⟩ := hc
    refine ⟨data, mem, sendParms, ?_⟩
    rw [dataCharsTo, List.foldl_cons]
    rw [dataCharsTo, hc] at hcs
    rw [hc, hcs]

/-- Other packets than data packets leave the decoder and the memory. -/
theorem dataCharsTo_other (h : s.kState ≠ dataType) :
    (dataCharsTo cs s).data = s.data ∧ (dataCharsTo cs s).mem = s.mem := by
  induction cs generalizing s with
  | nil => exact ⟨rfl, rfl⟩
  | cons c cs ih =>
    have hc : (dataChar c s).kState = s.kState ∧ (dataChar c s).data = s.data ∧
        (dataChar c s).mem = s.mem := by
      rw [dataChar, if_neg h]
      split_ifs <;> exact ⟨rfl, rfl, rfl⟩
    rw [dataCharsTo, List.foldl_cons]
    rw [← hc.2.1, ← hc.2.2]
    exact ih (hc.1.symm ▸ h)

theorem holds_binDataChar {b : UInt8} (h : Holds start d s) (hroom : d.bytes.length + 1 < 2 ^ 32) :
    Holds start ⟨d.escape, d.bytes ++ [b]⟩ (binDataChar b s) := by
  have hos : s.data.osState = 0 := by rw [h.data]; rfl
  have hb : binDataChar b s = { s with
      mem := s.mem.store s.data.osAddr [b]
      data := { s.data with osAddr := s.data.osAddr + 1, osCount := s.data.osCount - 1 } } := by
    rw [binDataChar, hos]
    rfl
  rw [hb, h.data]
  refine ⟨?_, ?_⟩
  · simp only [kdata, List.length_append, List.length_singleton, KData.mk.injEq, true_and]
    refine ⟨by push_cast; ring, ?_⟩
    rw [UInt32.ofNat_add, ← UInt32.add_assoc]
    rfl
  · have hprev : s.mem.HoldsUpTo start (d.bytes ++ [b]) d.bytes.length := by
      intro i hi hn
      rw [h.mem i hn hn, List.getElem_append_left hn]
    have hext := Mem32.store_extends (k := 1) (by simpa using hroom) (by simp) hprev
    rw [List.drop_left] at hext
    have hlen : (d.bytes ++ [b]).length = d.bytes.length + 1 := by simp
    rw [MemHolds, hlen]
    exact hext

theorem holds_dataChar (h : Holds start d s) (hs : s.kState = dataType)
    (hroom : d.bytes.length + 1 < 2 ^ 32) :
    Holds start (d.char s.his.quote c) (dataChar c s) := by
  have hesc : s.data.escape = d.escape := by rw [h.data]; rfl
  rw [dataChar, if_pos hs, kDataChar, Decoded.char, hesc]
  split_ifs
  · obtain ⟨hdata, hmem⟩ := holds_binDataChar (b := ktrans c) h hroom
    refine ⟨?_, hmem⟩
    dsimp only
    rw [hdata]
    rfl
  · refine ⟨?_, h.mem⟩
    rw [h.data]
    rfl
  · have hd := holds_binDataChar (b := c) h hroom
    rename_i hne _
    rwa [eq_false_of_ne_true hne] at hd

theorem holds_dataCharsTo (h : Holds start d s) (hs : s.kState = dataType)
    (hroom : d.bytes.length + cs.length < 2 ^ 32) :
    Holds start (cs.foldl (Decoded.char s.his.quote) d) (dataCharsTo cs s) := by
  induction cs generalizing d s with
  | nil => exact h
  | cons c cs ih =>
    rw [List.length_cons] at hroom
    obtain ⟨bytes, hb, hlen⟩ := Decoded.foldl_char s.his.quote d [c]
    obtain ⟨_, _, _, hc⟩ := dataCharsTo_eq [c] s
    have hlen' : (d.char s.his.quote c).bytes.length ≤ d.bytes.length + 1 := by
      rw [show d.char s.his.quote c = [c].foldl (Decoded.char s.his.quote) d from rfl, hb,
        List.length_append]
      exact Nat.add_le_add_left hlen _
    have hk : (dataChar c s).kState = dataType := by
      rw [show dataChar c s = _ from hc]
      exact hs
    have hq : (dataChar c s).his = s.his := by
      rw [show dataChar c s = _ from hc]
    have := ih (holds_dataChar (c := c) h hs (by omega)) hk (by omega)
    rwa [hq] at this

/-- Whatever characters come, the memory below the write pointer stays. -/
theorem memHolds_dataCharsTo (h : Holds start d s) (hroom : d.bytes.length + cs.length < 2 ^ 32) :
    MemHolds start d.bytes (dataCharsTo cs s) := by
  by_cases hs : s.kState = dataType
  · obtain ⟨bytes, hb, -⟩ := Decoded.foldl_char s.his.quote d cs
    exact (holds_dataCharsTo h hs hroom).mem.of_prefix ⟨bytes, hb.symm⟩
  · rw [MemHolds, (dataCharsTo_other hs).2]
    exact h.mem

end

/-! ## Negative acknowledgements -/

/-- More data characters than any header announces. -/
abbrev maxChars : Nat := 24480

section
variable {s s' s₀ : KRecv} {k sum length n : Nat} {input rest : List UInt8}

/-- A negative acknowledgement goes back to what was saved, behind at most `k` data characters. -/
def NackFrom (s : KRecv) (k : Nat) (r : Received) : Prop :=
  ∀ s' n rest, r = some (s', .nack n, rest) →
    s'.data = s.saved ∧ s'.saved = s.saved ∧ s'.his = s.his ∧ s'.done = s.done ∧
    ∃ cs, cs.length ≤ k ∧ s'.mem = (dataCharsTo cs s).mem

theorem packetError_from (input : List UInt8) : NackFrom s k (packetError s input) := by
  intro s' n rest h
  cases h
  exact ⟨rfl, rfl, rfl, rfl, [], Nat.zero_le _, rfl⟩

theorem none_from : NackFrom s k none := by
  intro s' n rest h
  cases h

theorem NackFrom.mono {r : Received} {k' : Nat} (h : NackFrom s k r) (hk : k ≤ k') :
    NackFrom s k' r := by
  intro s' n rest hr
  obtain ⟨h₁, h₂, h₃, h₄, cs, hcs, hmem⟩ := h s' n rest hr
  exact ⟨h₁, h₂, h₃, h₄, cs, hcs.trans hk, hmem⟩

theorem getLegal_from {next : UInt8 → List UInt8 → Received}
    (hnext : ∀ c input, NackFrom s k (next c input)) (input : List UInt8) :
    NackFrom s k (getLegal s next input) := by
  cases input with
  | nil => exact none_from
  | cons c input =>
    rw [getLegal]
    split_ifs
    · exact hnext c input
    · exact packetError_from input

theorem recvCheck_from (input : List UInt8) : NackFrom s k (recvCheck s sum input) := by
  refine getLegal_from (fun c input => ?_) input
  split_ifs
  · exact packetError_from input
  · cases input with
    | nil => exact none_from
    | cons c input =>
      rw [recvEnd]
      split_ifs
      · exact packetError_from input
      · intro s' n rest h
        cases h
      · intro s' n rest h
        cases h

theorem recvRest_from (input : List UInt8) : NackFrom s k (recvRest k s sum input) := by
  induction k generalizing s sum input with
  | zero => exact recvCheck_from input
  | succ k ih =>
    refine getLegal_from (fun c input s' n rest h => ?_) input
    obtain ⟨_, _, _, hc⟩ := dataCharsTo_eq [c] s
    have hc' : dataChar c s = _ := hc
    obtain ⟨h₁, h₂, h₃, h₄, cs, hcs, hmem⟩ := ih input s' n rest h
    rw [hc'] at h₁ h₂ h₃ h₄
    exact ⟨h₁, h₂, h₃, h₄, c :: cs, Nat.succ_le_succ hcs, hmem⟩

theorem untochar_le (c : UInt8) : untochar c ≤ 255 := Nat.le_of_lt_succ (UInt8.toNat_lt _)

theorem recvType_from (hlen : length ≤ 255) (input : List UInt8) :
    ∃ t, NackFrom { s with kState := t } maxChars (recvType s sum length input) := by
  cases input with
  | nil => exact ⟨s.kState, none_from⟩
  | cons c input =>
    rw [recvType, getLegal]
    split_ifs with hc h0
    · refine ⟨c, getLegal_from (fun hi => getLegal_from fun lo =>
        getLegal_from fun check input => ?_) input⟩
      have hhi := untochar_le hi
      have hlo := untochar_le lo
      split_ifs
      · exact packetError_from input
      · exact (recvRest_from input).mono (show untochar hi * 95 + untochar lo - 1 ≤ 24480 by omega)
    · exact ⟨c, (recvRest_from input).mono (show length - 3 ≤ 24480 by omega)⟩
    · exact ⟨s.kState, packetError_from input⟩

theorem checkpoint_saves (s : KRecv) : (checkpoint s).data = (checkpoint s).saved ∧
    (checkpoint s).mem = s.mem ∧ (checkpoint s).his = s.his ∧ (checkpoint s).done = s.done := by
  rw [checkpoint]
  split_ifs <;> exact ⟨rfl, rfl, rfl, rfl⟩

/-- **What a negative acknowledgement leaves.** The decoder is the saved one, and memory has
changed by data characters from there only. -/
theorem recvPacket_nack (h : recvPacket s input = some (s', .nack n, rest)) :
    s'.saved = s'.data ∧ s'.his = s.his ∧ s'.done = s.done ∧
    ∃ s₀ cs, cs.length ≤ maxChars ∧ s₀.data = s'.data ∧ s₀.mem = s.mem ∧
      s'.mem = (dataCharsTo cs s₀).mem := by
  have hfrom : ∃ s₀ : KRecv, s₀.data = s₀.saved ∧ s₀.mem = s.mem ∧ s₀.his = s.his ∧
      s₀.done = s.done ∧ NackFrom s₀ maxChars (recvPacket s input) := by
    have herr : ∀ (s₁ : KRecv) (r : Received), (r = none ∨ ∃ input, r = packetError s₁ input) →
        s₁.saved = s.saved → s₁.mem = s.mem → s₁.his = s.his → s₁.done = s.done →
        ∃ s₀ : KRecv, s₀.data = s₀.saved ∧ s₀.mem = s.mem ∧ s₀.his = s.his ∧
          s₀.done = s.done ∧ NackFrom s₀ maxChars r := by
      intro s₁ r hr hsaved hmem hhis hdone
      refine ⟨{ s₁ with data := s₁.saved }, rfl, hmem, hhis, hdone, fun s' n rest h => ?_⟩
      obtain rfl | ⟨input, rfl⟩ := hr
      · cases h
      · cases h
        exact ⟨rfl, rfl, rfl, rfl, [], Nat.zero_le _, rfl⟩
    rw [recvPacket]
    rcases input.dropWhile (· ≠ startChar) with - | ⟨-, - | ⟨len, packet⟩⟩
    · exact herr s none (.inl rfl) rfl rfl rfl rfl
    · exact herr s none (.inl rfl) rfl rfl rfl rfl
    dsimp only
    rw [recvLength, getLegal]
    split_ifs with hlen
    · cases packet with
      | nil => exact herr s none (.inl rfl) rfl rfl rfl rfl
      | cons seq packet =>
        rw [recvSeq, getLegal]
        split_ifs with hseq
        · obtain ⟨t, ht⟩ := recvType_from (s := checkpoint
            { s with sendParms := [], n := untochar seq }) (untochar_le len) packet
          obtain ⟨hdata, hmem, hhis, hdone⟩ :=
            checkpoint_saves { s with sendParms := [], n := untochar seq }
          exact ⟨{ checkpoint { s with sendParms := [], n := untochar seq } with kState := t },
            hdata, hmem, hhis, hdone, ht⟩
        · exact herr _ _ (.inr ⟨_, rfl⟩) rfl rfl rfl rfl
    · exact herr _ _ (.inr ⟨_, rfl⟩) rfl rfl rfl rfl
  obtain ⟨s₀, hdata, hmem, hhis, hdone, hfrom⟩ := hfrom
  obtain ⟨h₁, h₂, h₃, h₄, cs, hcs, hmem'⟩ := hfrom s' n rest h
  exact ⟨h₂.trans h₁.symm, h₃.trans hhis, h₄.trans hdone, s₀, cs, hcs, hdata.trans h₁.symm, hmem,
    hmem'⟩

/-! ## A packet that is cut off -/

/-- Where more input is awaited, a start character is an error. -/
def Stalls (f : List UInt8 → Received) : Prop :=
  ∀ input rest, f input = none → ∃ s n, f (input ++ startChar :: rest) = some (s, .nack n, rest)

theorem getLegal_stalls {next : UInt8 → List UInt8 → Received} (h : ∀ c, Stalls (next c)) :
    Stalls (getLegal s next) := by
  intro input rest hnone
  cases input with
  | nil => exact ⟨_, _, rfl⟩
  | cons c input =>
    rw [getLegal] at hnone
    rw [List.cons_append, getLegal]
    split_ifs at hnone ⊢
    · exact h c input rest hnone
    · cases hnone

theorem recvEnd_stalls : Stalls (recvEnd s) := by
  intro input rest hnone
  cases input with
  | nil => exact ⟨_, _, rfl⟩
  | cons c input =>
    rw [recvEnd] at hnone
    split_ifs at hnone
    cases hnone

theorem recvRest_stalls : Stalls (recvRest k s sum) := by
  induction k generalizing s sum with
  | zero =>
    refine getLegal_stalls fun c => ?_
    by_cases hc : c = checkChar sum
    · simp only [hc, ne_eq, not_true, if_false]
      exact recvEnd_stalls
    · intro input rest hnone
      simp only [ne_eq, hc, not_false_eq_true, if_true] at hnone
      cases hnone
  | succ k ih => exact getLegal_stalls fun c => ih

theorem recvLength_stalls : Stalls (recvLength s) := by
  refine getLegal_stalls fun len => getLegal_stalls fun seq => getLegal_stalls fun type => ?_
  by_cases h0 : untochar len = 0
  · simp only [h0, if_true]
    refine getLegal_stalls fun hi => getLegal_stalls fun lo => getLegal_stalls fun check => ?_
    intro input rest hnone
    split_ifs at hnone ⊢
    · cases hnone
    · exact recvRest_stalls input rest hnone
  · simp only [h0, if_false]
    exact recvRest_stalls

/-- **A packet that is cut off** is refused with the start character of the next one, which is
lost. -/
theorem recvPacket_cut (h : recvPacket s input = none)
    (hstart : input.dropWhile (· ≠ startChar) ≠ []) (rest : List UInt8) :
    ∃ s' n, recvPacket s (input ++ startChar :: rest) = some (s', .nack n, rest) := by
  rw [recvPacket] at h
  rw [recvPacket, List.dropWhile_append, if_neg (by simpa using hstart)]
  cases hd : input.dropWhile (· ≠ startChar) with
  | nil => exact absurd hd hstart
  | cons c input =>
    rw [hd] at h
    exact recvLength_stalls input rest h

/-! ## An intact packet -/

theorem recvRest_append {cs : List UInt8} (hlegal : ∀ c ∈ cs, legal c = true) (rest : List UInt8) :
    recvRest cs.length s sum (cs ++ rest) =
      recvCheck (dataCharsTo cs s) (sum + byteSum cs) rest := by
  induction cs generalizing s sum with
  | nil => rfl
  | cons c cs ih =>
    obtain ⟨hc, hcs⟩ := List.forall_mem_cons.mp hlegal
    rw [List.length_cons, List.cons_append, recvRest, getLegal, if_pos hc, ih hcs, byteSum, byteSum,
      List.map_cons, List.sum_cons, Nat.add_assoc]
    rfl

theorem untochar_tochar {x : Nat} (h : x < 224) : untochar (tochar x) = x := by
  rw [untochar, tochar, UInt8.ofNat_add, show UInt8.ofNat 32 = 32 from rfl, UInt8.add_sub_cancel,
    UInt8.toNat_ofNat_of_lt' (show x < 256 by omega)]

set_option maxRecDepth 4000 in
theorem legal_tochar {x : Nat} (h : x < 224) : legal (tochar x) = true :=
  (by decide : ∀ x : Fin 224, legal (tochar x) = true) ⟨x, h⟩

theorem recvCheck_ok (rest : List UInt8) :
    recvCheck s sum (checkChar sum :: rest) = recvEnd s rest := by
  have hlegal : legal (checkChar sum) = true := legal_tochar (by omega)
  rw [recvCheck, getLegal, if_pos hlegal, if_neg (not_not.mpr rfl)]

theorem recvLength_tochar (hlen : length < 224) (hn : n < 64) (input : List UInt8) :
    recvLength s (tochar length :: tochar n :: input) = recvType (checkpoint { s with n := n })
      ((tochar length).toNat + (tochar n).toNat) length input := by
  rw [recvLength, getLegal, if_pos (legal_tochar hlen), recvSeq, getLegal,
    if_pos (legal_tochar (by omega)), untochar_tochar hlen, untochar_tochar (by omega)]

theorem recvType_normal (p : Packet) (rest : List UInt8) :
    recvType s sum (p.fields.length + 3) (p.type :: (p.fields ++ rest)) =
      recvCheck (dataCharsTo p.fields { s with kState := p.type })
        (sum + p.type.toNat + byteSum p.fields) rest := by
  rw [recvType, getLegal, if_pos p.type_legal, if_neg (by omega), Nat.add_sub_cancel]
  exact recvRest_append p.fields_legal rest

theorem recvType_ext (p : Packet) {hi lo check : Nat} (hhi : hi < 224) (hlo : lo < 224)
    (hlen : hi * 95 + lo = p.fields.length + 1)
    (hcheck : sum + p.type.toNat + (tochar hi).toNat + (tochar lo).toNat = check)
    (rest : List UInt8) :
    recvType s sum 0 (p.type :: tochar hi :: tochar lo :: checkChar check :: (p.fields ++ rest)) =
      recvCheck (dataCharsTo p.fields { s with kState := p.type })
        (check + (checkChar check).toNat + byteSum p.fields) rest := by
  have hlegal : legal (checkChar check) = true := legal_tochar (by omega)
  rw [recvType, getLegal, if_pos p.type_legal, if_pos rfl, recvLenHi, getLegal,
    if_pos (legal_tochar hhi), recvLenLo, getLegal, if_pos (legal_tochar hlo), recvHeaderCheck,
    getLegal, if_pos hlegal, hcheck, if_neg (not_not.mpr rfl), untochar_tochar hhi,
    untochar_tochar hlo, hlen, Nat.add_sub_cancel]
  exact recvRest_append p.fields_legal rest

theorem byteSum_append (a b : List UInt8) : byteSum (a ++ b) = byteSum a + byteSum b := by
  rw [byteSum, List.map_append, List.sum_append]
  rfl

theorem recvPacket_bytes (p : Packet) (hn : n < 64)
    (hskip : input.dropWhile (· ≠ startChar) = []) (rest : List UInt8) :
    recvPacket s (input ++ p.bytes n ++ rest) =
      recvEnd (dataCharsTo p.fields
        { checkpoint { s with sendParms := [], n := n } with kState := p.type })
        (endChar :: rest) := by
  have hdrop : (input ++ p.bytes n ++ rest).dropWhile (· ≠ startChar) = p.bytes n ++ rest := by
    rw [List.append_assoc, List.dropWhile_append, hskip, List.isEmpty_nil, if_pos rfl]
    exact List.dropWhile_cons_of_neg (by simp)
  have hroom := p.room
  rw [recvPacket, hdrop, Packet.bytes]
  generalize hsum : byteSum (p.header n ++ p.fields) = total
  rw [byteSum_append] at hsum
  rw [Packet.header] at hsum ⊢
  cases hext : p.ext with
  | true =>
    rw [hext, if_pos rfl] at hroom hsum
    rw [if_pos rfl]
    simp only [List.cons_append, List.nil_append, List.append_assoc]
    generalize hhead : byteSum [tochar 0, tochar n, p.type, tochar ((p.fields.length + 1) / 95),
      tochar ((p.fields.length + 1) % 95)] = head at hsum ⊢
    have hcheck : (tochar 0).toNat + (tochar n).toNat + p.type.toNat +
        (tochar ((p.fields.length + 1) / 95)).toNat +
        (tochar ((p.fields.length + 1) % 95)).toNat = head := by
      rw [← hhead]
      simp [byteSum, Nat.add_assoc]
    have htotal : head + (checkChar head).toNat + byteSum p.fields = total := by
      rw [← hsum, byteSum_append, hhead]
      simp [byteSum]
    rw [recvLength_tochar (by omega) hn, recvType_ext p (by omega) (by omega) (by omega) hcheck,
      htotal, recvCheck_ok]
  | false =>
    rw [hext, if_neg (by simp)] at hroom hsum
    rw [if_neg (by simp)]
    simp only [List.cons_append, List.nil_append, List.append_assoc]
    rw [recvLength_tochar (by omega) hn, recvType_normal]
    have htotal : (tochar (p.fields.length + 3)).toNat + (tochar n).toNat + p.type.toNat +
        byteSum p.fields = total := by
      rw [← hsum]
      simp [byteSum, Nat.add_assoc]
    rw [htotal, recvCheck_ok]

theorem sendParms_dataCharsTo {cs : List UInt8} (hs : s.kState = sendType)
    (hlen : s.sendParms.length ≤ 19) :
    (dataCharsTo cs s).sendParms = (s.sendParms ++ cs).take 19 := by
  induction cs generalizing s with
  | nil => rw [List.append_nil, List.take_of_length_le hlen]; rfl
  | cons c cs ih =>
    have hc : dataChar c s = { s with sendParms := (s.sendParms ++ [c]).take 19 } := by
      rw [dataChar, if_neg (by rw [hs]; decide), if_pos hs]
      dsimp only
      rw [List.length_append, List.length_singleton]
      split_ifs with h20
      · rw [List.dropLast_concat, List.take_left' (by omega)]
      · rw [List.take_of_length_le (by simp; omega)]
    rw [dataCharsTo, List.foldl_cons, hc]
    refine (ih (s := { s with sendParms := (s.sendParms ++ [c]).take 19 }) hs
      (List.length_take_le _ _)).trans ?_
    have htake : ∀ a b : List UInt8, (a.take 19 ++ b).take 19 = (a ++ b).take 19 := by
      intro a b
      rw [List.take_append, List.take_append, List.take_take, Nat.min_self, List.length_take]
      congr 2
      omega
    rw [List.append_cons s.sendParms c cs]
    exact htake _ _

theorem quote_handleSendPacket {cs : List UInt8} (hs : s.sendParms = cs.take 19) :
    (handleSendPacket n s).his.quote = quoteOf cs := by
  have hquote : (handleSendPacket n s).his.quote =
      quoteOf (if s.sendParms.length = 19 then s.sendParms.dropLast else s.sendParms) := rfl
  rw [hquote, hs, List.length_take]
  rcases Nat.lt_or_ge cs.length 19 with hlt | hge
  · rw [if_neg (by omega), List.take_of_length_le (by omega)]
  · have h18 : (cs.take 19).dropLast = cs.take 18 := by
      rw [List.dropLast_eq_take, List.take_take, List.length_take]
      congr 1
      omega
    rw [if_pos (by omega), h18, quoteOf, quoteOf, if_pos (by rw [List.length_take]; omega),
      if_pos (by omega), List.getD_eq_getElem?_getD, List.getElem?_take_of_lt (by omega),
      List.getD_eq_getElem?_getD]

theorem recvEnd_end (rest : List UInt8) : ∃ s',
    recvEnd s (endChar :: rest) = some (s', .ack s.n, rest) ∧
    s'.data = s.data ∧ s'.saved = s.saved ∧ s'.lastN = s.lastN ∧ s'.mem = s.mem ∧
    s'.done = (s.done || decide (s.kState = breakType)) ∧
    s'.his = if s.kState = sendType then (handleSendPacket s.n s).his else s.his := by
  rw [recvEnd, if_neg (not_not.mpr rfl)]
  by_cases hsend : s.kState = sendType
  · rw [if_pos hsend, if_pos hsend]
    have hb : decide (s.kState = breakType) = false := by rw [hsend]; decide
    exact ⟨_, rfl, rfl, rfl, rfl, rfl, by rw [hb, Bool.or_false]; rfl, rfl⟩
  · rw [if_neg hsend, if_neg hsend]
    by_cases hb : s.kState = breakType
    · have hack : (sendAck s.n s).kState = breakType := hb
      simp only [hack, if_true]
      exact ⟨_, rfl, rfl, rfl, rfl, rfl, by simp [hb], rfl⟩
    · have hack : (sendAck s.n s).kState ≠ breakType := hb
      simp only [hack, if_false]
      exact ⟨_, rfl, rfl, rfl, rfl, rfl, by rw [decide_eq_false hb, Bool.or_false]; rfl, rfl⟩

/-- **An intact packet** is acknowledged, and does to the receiver what the packet means. -/
theorem recvPacket_ack {start : UInt32} {d : Decoded} (p : Packet) (hn : n < 64)
    (hskip : input.dropWhile (· ≠ startChar) = [])
    (hroom : d.bytes.length + p.fields.length < 2 ^ 32)
    (hdata : (if (n : Int) = s.lastN then s.saved else s.data) = kdata start d)
    (hmem : MemHolds start d.bytes s) (rest : List UInt8) :
    ∃ s', recvPacket s (input ++ p.bytes n ++ rest) = some (s', .ack n, rest) ∧ s'.lastN = n ∧
      s'.saved = kdata start d ∧ s'.done = (s.done || decide (p.type = breakType)) ∧
      s'.his.quote = (p.effect (s.his.quote, d)).1 ∧
      Holds start (p.effect (s.his.quote, d)).2 s' := by
  rw [recvPacket_bytes p hn hskip]
  have hs₁ : ∃ s₁ : KRecv,
      { checkpoint { s with sendParms := [], n := n } with kState := p.type } = s₁ ∧
      s₁.kState = p.type ∧ s₁.n = n ∧ s₁.lastN = n ∧ s₁.saved = kdata start d ∧
      Holds start d s₁ ∧ s₁.his = s.his ∧ s₁.done = s.done ∧ s₁.sendParms = [] := by
    refine ⟨_, rfl, rfl, ?_⟩
    rw [checkpoint]
    dsimp only
    split_ifs at hdata ⊢ with hseq
    · exact ⟨rfl, hseq.symm, hdata, ⟨hdata, hmem⟩, rfl, rfl, rfl⟩
    · exact ⟨rfl, rfl, hdata, ⟨hdata, hmem⟩, rfl, rfl, rfl⟩
  obtain ⟨s₁, heq, hk, hn₁, hlast, hsaved, hholds, hhis, hdone, hparms⟩ := hs₁
  rw [heq]
  obtain ⟨data, mem, sendParms, hs₂⟩ := dataCharsTo_eq p.fields s₁
  obtain ⟨s', hrecv, hdata', hsaved', hlast', hmem', hdone', hhis'⟩ :=
    @recvEnd_end (dataCharsTo p.fields s₁) rest
  have hn₂ : (dataCharsTo p.fields s₁).n = n := by rw [hs₂, hn₁]
  have hk₂ : (dataCharsTo p.fields s₁).kState = p.type := by rw [hs₂, hk]
  have hhis₂ : (dataCharsTo p.fields s₁).his = s.his := by rw [hs₂, hhis]
  rw [hn₂] at hrecv
  refine ⟨s', hrecv, ?_, ?_, ?_, ?_, ?_⟩
  · rw [hlast', hs₂, hlast]
  · rw [hsaved', hs₂, hsaved]
  · rw [hdone', hk₂, hs₂, hdone]
  · change s'.his.quote = p.quote s.his.quote
    rw [hhis', hk₂, Packet.quote]
    split_ifs with hsend
    · refine quote_handleSendPacket ?_
      rw [sendParms_dataCharsTo (by rw [hk, hsend]) (by rw [hparms]; simp), hparms, List.nil_append]
    · rw [hhis₂]
  · change Holds start
      (if p.type = dataType then p.fields.foldl (Decoded.char s.his.quote) d else d) s'
    split_ifs with hd
    · have h := holds_dataCharsTo hholds (hk.trans hd) hroom
      rw [hhis] at h
      exact ⟨hdata'.trans h.data, by rw [MemHolds, hmem']; exact h.mem⟩
    · obtain ⟨hdata₂, hmem₂⟩ := dataCharsTo_other (hk.symm ▸ hd)
      exact ⟨hdata'.trans (hdata₂.trans hholds.data), by
        rw [MemHolds, hmem', hmem₂]; exact hholds.mem⟩

end

end UBoot.Kermit
