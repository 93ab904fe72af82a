import UBoot.Kermit.Recv

/-!
# What a Kermit sender sends

Control quoting, the packets of a transfer, and what they mean to a receiver that gets each of
them once: the bytes of the data packets with their quoting undone (`decode_quote`), under the
quoting character that the send-initiate packet before them asked for.
-/

namespace UBoot.Kermit

open UBoot.Lib

/-! ## Control quoting -/

/-- A control character or DEL, with or without the eighth bit. -/
def isCtl (c : UInt8) : Bool := c &&& 0x7f < 0x20 || c &&& 0x7f = 0x7f

/-- A byte under the standard rule with the prefix `quote`. -/
def quoteByte (quote c : UInt8) : List UInt8 :=
  if isCtl c then [quote, c ^^^ 0x40]
  else if c &&& 0x7f = quote then [quote, c]
  else [c]

/-- The prefixes that Kermit allows: `!` to `>`, and from the grave accent to `~`. -/
def QuoteChar (quote : UInt8) : Prop :=
  (0x21 ≤ quote ∧ quote ≤ 0x3e) ∨ (0x60 ≤ quote ∧ quote ≤ 0x7e)

instance (quote : UInt8) : Decidable (QuoteChar quote) := inferInstanceAs (Decidable (_ ∨ _))

/-- The decoder of `k_data_char` without its memory: the escape flag and the bytes so far. -/
structure Decoded where
  escape : Bool
  bytes : List UInt8
  deriving DecidableEq

def Decoded.char (quote : UInt8) (d : Decoded) (c : UInt8) : Decoded :=
  if d.escape then ⟨false, d.bytes ++ [ktrans c]⟩
  else if c = quote then ⟨true, d.bytes⟩
  else ⟨false, d.bytes ++ [c]⟩

section
variable {quote c : UInt8} {d : Decoded} {cs : List UInt8}

theorem forall_uint8 {P : UInt8 → Prop} (h : ∀ n : Fin 256, P (UInt8.ofNat n)) (c : UInt8) :
    P c := by
  have := h ⟨c.toNat, c.toNat_lt⟩
  rwa [UInt8.ofNat_toNat] at this

set_option maxRecDepth 4000 in
theorem char_facts (c : UInt8) :
    (isCtl c = true → ktrans (c ^^^ 0x40) = c ∧ legal (c ^^^ 0x40) = true) ∧
    (QuoteChar (c &&& 0x7f) → ktrans c = c ∧ legal c = true) ∧
    (QuoteChar c → c &&& 0x7f = c) := by
  revert c
  exact forall_uint8 (by decide)

theorem ktrans_ctl : isCtl c = true → ktrans (c ^^^ 0x40) = c ∧ legal (c ^^^ 0x40) = true :=
  (char_facts c).1

theorem ktrans_quote : QuoteChar (c &&& 0x7f) → ktrans c = c ∧ legal c = true :=
  (char_facts c).2.1

theorem QuoteChar.seven : QuoteChar quote → quote &&& 0x7f = quote := (char_facts quote).2.2

theorem QuoteChar.legal (hq : QuoteChar quote) : legal quote = true := by
  rw [← hq.seven] at hq
  exact (ktrans_quote hq).2

theorem decode_quoteByte (hq : QuoteChar quote) (hd : d.escape = false) (c : UInt8) :
    (quoteByte quote c).foldl (Decoded.char quote) d = ⟨false, d.bytes ++ [c]⟩ := by
  rw [quoteByte]
  split_ifs with hctl hseven
  · simp [Decoded.char, hd, (ktrans_ctl hctl).1]
  · have hc : QuoteChar (c &&& 0x7f) := by rwa [hseven]
    simp [Decoded.char, hd, (ktrans_quote hc).1]
  · have hne : c ≠ quote := by
      rintro rfl
      exact hseven hq.seven
    simp [Decoded.char, hd, hne]

/-- **The receiver undoes the quoting.** -/
theorem decode_quote (hq : QuoteChar quote) (data : List UInt8) (hd : d.escape = false) :
    (data.flatMap (quoteByte quote)).foldl (Decoded.char quote) d = ⟨false, d.bytes ++ data⟩ := by
  induction data generalizing d with
  | nil => simp [← hd]
  | cons c data ih =>
    rw [List.flatMap_cons, List.foldl_append, decode_quoteByte hq hd, ih rfl, List.append_assoc]
    rfl

theorem Decoded.foldl_char (quote : UInt8) (d : Decoded) (cs : List UInt8) :
    ∃ bytes, (cs.foldl (Decoded.char quote) d).bytes = d.bytes ++ bytes ∧
      bytes.length ≤ cs.length := by
  induction cs generalizing d with
  | nil => exact ⟨[], by simp, le_rfl⟩
  | cons c cs ih =>
    obtain ⟨bytes, hb, hlen⟩ := ih (d.char quote c)
    have hchar : (d.char quote c).bytes = d.bytes ∨
        ∃ x, (d.char quote c).bytes = d.bytes ++ [x] := by
      rw [Decoded.char]
      split_ifs
      · exact .inr ⟨_, rfl⟩
      · exact .inl rfl
      · exact .inr ⟨_, rfl⟩
    rw [List.foldl_cons, hb]
    obtain h | ⟨x, h⟩ := hchar
    · exact ⟨bytes, by rw [h], Nat.le_succ_of_le hlen⟩
    · exact ⟨x :: bytes, by rw [h, List.append_assoc]; rfl, Nat.succ_le_succ hlen⟩

end

/-! ## Packets -/

/-- A packet, its sequence number apart. `ext` says that its length is sent in two bytes behind
the type. -/
structure Packet where
  type : UInt8
  fields : List UInt8
  ext : Bool
  type_legal : legal type = true
  fields_legal : ∀ c ∈ fields, legal c = true
  room : fields.length ≤ if ext then 9023 else 91

def byteSum (bytes : List UInt8) : Nat := (bytes.map UInt8.toNat).sum

/-- Length, sequence number and type; for an extended packet also the length of the rest, and
the checksum of the header. -/
def Packet.header (p : Packet) (n : Nat) : List UInt8 :=
  if p.ext then
    let head := [tochar 0, tochar n, p.type, tochar ((p.fields.length + 1) / 95),
      tochar ((p.fields.length + 1) % 95)]
    head ++ [checkChar (byteSum head)]
  else [tochar (p.fields.length + 3), tochar n, p.type]

/-- The packet with the sequence number `n`. -/
def Packet.bytes (p : Packet) (n : Nat) : List UInt8 :=
  startChar :: (p.header n ++ p.fields ++ [checkChar (byteSum (p.header n ++ p.fields)), endChar])

/-! ## A transfer -/

/-- The quoting character that a send-initiate packet asks for. -/
def quoteOf (fields : List UInt8) : UInt8 :=
  if fields.length ≥ 6 then fields.getD 5 0 else kEscape

def Packet.quote (p : Packet) (quote : UInt8) : UInt8 :=
  if p.type = sendType then quoteOf p.fields else quote

def Packet.effect (p : Packet) (st : UInt8 × Decoded) : UInt8 × Decoded :=
  (p.quote st.1, if p.type = dataType then p.fields.foldl (Decoded.char st.1) st.2 else st.2)

/-- The quoting character and the decoded bytes behind packets. -/
def after (ps : List Packet) : UInt8 × Decoded :=
  ps.foldl (fun st p => p.effect st) (kEscape, ⟨false, []⟩)

/-- Each data packet comes under the quoting character `quote`. -/
def QuotedBy (quote : UInt8) : UInt8 → List Packet → Prop
  | _, [] => True
  | q, p :: ps => (p.type = dataType → q = quote) ∧ QuotedBy quote (p.quote q) ps

def dataChars (ps : List Packet) : List UInt8 :=
  (ps.filter (·.type = dataType)).flatMap Packet.fields

theorem effect_dataChars {quote q : UInt8} {d : Decoded} {ps : List Packet}
    (h : QuotedBy quote q ps) : (ps.foldl (fun st p => p.effect st) (q, d)).2 =
      (dataChars ps).foldl (Decoded.char quote) d := by
  induction ps generalizing q d with
  | nil => rfl
  | cons p ps ih =>
    obtain ⟨hp, hps⟩ := h
    rw [List.foldl_cons, Packet.effect, ih hps, dataChars, dataChars]
    by_cases hd : p.type = dataType
    · rw [if_pos hd, List.filter_cons_of_pos (by simpa using hd), List.flatMap_cons,
        List.foldl_append, hp hd]
    · rw [if_neg hd, List.filter_cons_of_neg (by simpa using hd)]

theorem after_quoted {quote : UInt8} {ps : List Packet} {data : List UInt8}
    (hq : QuoteChar quote) (hps : QuotedBy quote kEscape ps)
    (hdata : dataChars ps = data.flatMap (quoteByte quote)) : (after ps).2 = ⟨false, data⟩ := by
  rw [after, effect_dataChars hps, hdata, decode_quote hq data rfl]
  rfl

theorem after_prefix (ps ps' : List Packet) :
    (after ps).2.bytes <+: (after (ps ++ ps')).2.bytes := by
  rw [after, after, List.foldl_append]
  generalize ps.foldl (fun st p => p.effect st) (kEscape, ⟨false, []⟩) = st
  induction ps' generalizing st with
  | nil => exact List.prefix_refl _
  | cons p ps' ih =>
    refine List.IsPrefix.trans ?_ (ih (p.effect st))
    rw [Packet.effect]
    dsimp only
    split_ifs
    · obtain ⟨bytes, hb, -⟩ := Decoded.foldl_char st.1 st.2 p.fields
      rw [hb]
      exact List.prefix_append _ _
    · exact List.prefix_refl _

end UBoot.Kermit
