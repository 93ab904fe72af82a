import UBoot.Eeprom.Access

/-!
# Writing an EEPROM and reading it back (`common/cmd_eeprom.c`)

`ideal` is a bus with an EEPROM on it: a write goes on within a write page and wraps there, a
read goes on within a block of 256 bytes. `logged` keeps a list of the operations of any bus and
of what they returned.

`WriteLaw` is what an access has to do. `eeprom_write` takes the offset in a page from the low
octet of the offset, which has no more than 8 bits; `eeprom_write_exact` says for which ranges
the law holds all the same with larger pages.
-/

namespace UBoot.Eeprom

open Lib

/-! ## The device -/

/-- The bytes of the devices on a bus, by chip address and address in the chip. -/
abbrev Cells := ℕ × ℕ → UInt8

def AddrLen.blockLen (a : AddrLen) : ℕ := 2 ^ (8 * a.bytes)

/-- The write page of the device: no more than a chip address selects, and a block of 256 bytes
where the board defines no size. -/
def EepromCfg.page (c : EepromCfg) : ℕ :=
  match c.pageWriteBits with
  | some bits => min (2 ^ bits.val) c.addrLen.blockLen
  | none => 256

/-- The address counter of the device: it wraps within a page. -/
def nextWord (page w : ℕ) : ℕ := w / page * page + (w % page + 1) % page

/-- A write operation stores byte after byte where the address counter stands. -/
def burst (page chip : ℕ) (m : Cells) : ℕ → List UInt8 → Cells
  | _, [] => m
  | w, x :: xs => burst page chip (Function.update m (chip, w) x) (nextWord page w) xs

def ideal (c : EepromCfg) : I2c Cells where
  read m chip addr alen _ :=
    let w := addr % 2 ^ (8 * alen)
    (0, fun i => m (chip, w / 256 * 256 + (w % 256 + i) % 256), m)
  write m chip addr alen data := (0, burst c.page chip m (addr % 2 ^ (8 * alen)) data)

section
variable {page chip w i : ℕ} {m : Cells} {data : List UInt8} {x : ℕ × ℕ}

theorem nextWord_eq (h : w % page + 1 < page) : nextWord page w = w + 1 := by
  have := Nat.div_add_mod' w page
  rw [nextWord, Nat.mod_eq_of_lt h]
  omega

theorem burst_miss (h : w % page + data.length ≤ page)
    (hx : ∀ i < data.length, x ≠ (chip, w + i)) : burst page chip m w data x = m x := by
  induction data generalizing m w with
  | nil => rfl
  | cons d ds ih =>
    have hne : x ≠ (chip, w) := hx 0 (Nat.succ_pos _)
    rw [burst]
    cases ds with
    | nil => rw [burst, Function.update_of_ne hne]
    | cons d' ds =>
      simp only [List.length_cons] at h hx
      have hlt : w % page + 1 < page := by omega
      have hmod := (pageEnd_add hlt).2
      rw [nextWord_eq hlt, ih (by rw [hmod, List.length_cons]; omega), Function.update_of_ne hne]
      intro i hi
      rw [Nat.add_assoc, Nat.add_comm 1 i]
      exact hx (i + 1) (by rw [List.length_cons] at hi; omega)

theorem burst_hit (h : w % page + data.length ≤ page) (hi : i < data.length) :
    burst page chip m w data (chip, w + i) = data[i] := by
  induction data generalizing m w i with
  | nil => cases hi
  | cons d ds ih =>
    rw [burst]
    cases ds with
    | nil =>
      obtain rfl : i = 0 := by simpa using hi
      rw [burst, Nat.add_zero, Function.update_self, List.getElem_cons_zero]
    | cons d' ds =>
      simp only [List.length_cons] at h hi
      have hlt : w % page + 1 < page := by omega
      have hlen : (w + 1) % page + (d' :: ds).length ≤ page := by
        rw [(pageEnd_add hlt).2, List.length_cons]
        omega
      rw [nextWord_eq hlt]
      cases i with
      | zero =>
        rw [burst_miss hlen, Nat.add_zero, Function.update_self, List.getElem_cons_zero]
        intro j _ heq
        have := (Prod.mk.inj heq).2
        omega
      | succ i =>
        rw [List.getElem_cons_succ, (by omega : w + (i + 1) = w + 1 + i)]
        exact ih hlen (by rw [List.length_cons]; omega)

end

namespace EepromCfg

variable {c : EepromCfg} {devAddr offset cnt o e k : ℕ} {p : ℕ × ℕ}

/-! ## Where the bytes are -/

def cellOf (c : EepromCfg) (devAddr o : ℕ) : ℕ × ℕ := (c.addr0 devAddr o, o % c.addrLen.blockLen)

/-- The block numbers of the range are octets, and the device address has none of their bits. -/
def Selectable (c : EepromCfg) (devAddr offset cnt : ℕ) : Prop :=
  ∀ o, offset ≤ o → o < offset + cnt →
    o / c.addrLen.blockLen < 256 ∧ o / c.addrLen.blockLen &&& devAddr % 256 = 0

theorem addr0_eq : c.addr0 devAddr o = o / c.addrLen.blockLen % 256 ||| devAddr % 256 := by
  cases h : c.addrLen <;> simp only [addr0, h, Nat.shiftRight_eq_div_pow, AddrLen.blockLen,
    AddrLen.bytes]

theorem two_pow_alen : 2 ^ (8 * c.alen) = c.addrLen.blockLen := rfl

theorem blockLen_pos : 0 < c.addrLen.blockLen := Nat.two_pow_pos _

theorem dvd_blockLen : 256 ∣ c.addrLen.blockLen := by
  cases h : c.addrLen <;> decide

theorem page_pos : 0 < c.page := by
  rw [page]
  split
  · exact lt_min (Nat.two_pow_pos _) blockLen_pos
  · decide

theorem page_dvd : c.page ∣ c.addrLen.blockLen := by
  rw [page]
  split
  · rename_i bits _
    rcases Nat.le_total bits.val (8 * c.addrLen.bytes) with h | h
    · rw [AddrLen.blockLen, Nat.min_eq_left (Nat.pow_le_pow_right two_pos h)]
      exact Nat.pow_dvd_pow 2 h
    · rw [AddrLen.blockLen, Nat.min_eq_right (Nat.pow_le_pow_right two_pos h)]
  · exact dvd_blockLen

/-- A step within a part of a block is a step within the block. -/
theorem block_add {d b : ℕ} (hd : d ∣ b) (hb : 0 < b) (h : o % d + k < d) :
    (o + k) / b = o / b ∧ (o + k) % b = o % b + k ∧ o % b % d = o % d := by
  have hlt : o % b + k < b := by
    obtain ⟨t, rfl⟩ := hd
    rw [Nat.mod_mul]
    have hq : o / d % t + 1 ≤ t := Nat.mod_lt _ (Nat.pos_of_mul_pos_left hb)
    have := Nat.mul_le_mul_left d hq
    rw [Nat.mul_add] at this
    omega
  have hmod := (pageEnd_add hlt).2
  refine ⟨?_, hmod, Nat.mod_mod_of_dvd _ hd⟩
  have h1 := Nat.div_add_mod o b
  have h2 := Nat.div_add_mod (o + k) b
  exact Nat.eq_of_mul_eq_mul_left hb (by omega)

theorem cellOf_add {d : ℕ} (hd : d ∣ c.addrLen.blockLen) (h : o % d + k < d) :
    c.cellOf devAddr (o + k) = (c.addr0 devAddr o, o % c.addrLen.blockLen + k) := by
  obtain ⟨hdiv, hmod, -⟩ := block_add hd blockLen_pos h
  rw [cellOf, addr0_eq, addr0_eq, hdiv, hmod]

theorem eq_of_or_eq {a b d : ℕ} (ha : a &&& d = 0) (hb : b &&& d = 0) (h : a ||| d = b ||| d) :
    a = b := by
  refine Nat.eq_of_testBit_eq fun i => ?_
  have h1 := congrArg (Nat.testBit · i) ha
  have h2 := congrArg (Nat.testBit · i) hb
  have h3 := congrArg (Nat.testBit · i) h
  simp only [Nat.testBit_and, Nat.testBit_or, Nat.zero_testBit] at h1 h2 h3
  cases hd : d.testBit i <;> simp_all

theorem cellOf_inj (hs : c.Selectable devAddr offset cnt) {x y : ℕ} (hx : offset ≤ x)
    (hx' : x < offset + cnt) (hy : offset ≤ y) (hy' : y < offset + cnt)
    (h : c.cellOf devAddr x = c.cellOf devAddr y) : x = y := by
  obtain ⟨hx1, hx2⟩ := hs x hx hx'
  obtain ⟨hy1, hy2⟩ := hs y hy hy'
  obtain ⟨h0, hw⟩ := Prod.mk.inj h
  rw [addr0_eq, addr0_eq, Nat.mod_eq_of_lt hx1, Nat.mod_eq_of_lt hy1] at h0
  have hdiv := eq_of_or_eq hx2 hy2 h0
  rw [← Nat.div_add_mod x c.addrLen.blockLen, ← Nat.div_add_mod y c.addrLen.blockLen, hdiv, hw]

/-! ## What the pieces do -/

theorem length_bytesAt (f : ℕ → UInt8) (n : ℕ) : (bytesAt f n).length = n := by
  rw [bytesAt, List.length_map, List.length_range]

theorem bytesAt_append (f : ℕ → UInt8) (n k : ℕ) :
    bytesAt f n ++ bytesAt (fun i => f (n + i)) k = bytesAt f (n + k) := by
  rw [bytesAt, bytesAt, bytesAt, List.range_add, List.map_append, List.map_map]
  rfl

theorem bytesAt_congr {f g : ℕ → UInt8} {n : ℕ} (h : ∀ i < n, f i = g i) :
    bytesAt f n = bytesAt g n :=
  List.map_congr_left fun i hi => h i (List.mem_range.mp hi)

/-- The pieces that are read lie in blocks, and the bytes are those of the range. -/
theorem readPieces_ideal {ps : List (ℕ × ℕ)} {m : Cells} {rcode : ℤ} (ht : Tiled e o ps)
    (hp : ∀ p ∈ ps, InPage 256 p) :
    c.readPieces (ideal c) devAddr ps rcode m =
      (rcode, bytesAt (fun i => m (c.cellOf devAddr (o + i))) (e - o), m) := by
  induction ps generalizing o with
  | nil =>
    obtain rfl : o = e := ht
    rw [readPieces, Nat.sub_self]
    rfl
  | cons p ps ih =>
    obtain ⟨rfl, hpos, ht⟩ := ht
    have hin : p.1 % 256 + p.2 ≤ 256 := hp p List.mem_cons_self
    have hle := ht.le
    have hbytes : bytesAt ((ideal c).read m (c.addr0 devAddr p.1) p.1 c.alen p.2).2.1 p.2 =
        bytesAt (fun i => m (c.cellOf devAddr (p.1 + i))) p.2 := by
      refine bytesAt_congr fun i hi => ?_
      have hlt : p.1 % 256 + i < 256 := by omega
      have hmod := (block_add dvd_blockLen (blockLen_pos (c := c)) hlt).2.2
      have hdiv := Nat.div_add_mod' (p.1 % c.addrLen.blockLen) 256
      simp only [ideal, two_pow_alen, cellOf_add dvd_blockLen hlt, hmod, Nat.mod_eq_of_lt hlt]
      rw [(by omega : p.1 % c.addrLen.blockLen / 256 * 256 + (p.1 % 256 + i) =
        p.1 % c.addrLen.blockLen + i)]
    have hnext : bytesAt (fun i => m (c.cellOf devAddr (p.1 + p.2 + i))) (e - (p.1 + p.2)) =
        bytesAt (fun i => m (c.cellOf devAddr (p.1 + (p.2 + i)))) (e - (p.1 + p.2)) :=
      bytesAt_congr fun i _ => by rw [Nat.add_assoc]
    have hrest := ih ht fun q hq => hp q (List.mem_cons_of_mem _ hq)
    rw [readPieces, hbytes]
    change (_, _ ++ _, _) = _
    change ((c.readPieces (ideal c) devAddr ps rcode m).1, _ ++
      (c.readPieces (ideal c) devAddr ps rcode m).2.1,
      (c.readPieces (ideal c) devAddr ps rcode m).2.2) = _
    rw [hrest, hnext, bytesAt_append (fun i => m (c.cellOf devAddr (p.1 + i))),
      (by omega : p.2 + (e - (p.1 + p.2)) = e - p.1)]

/-- The pieces that are written lie in pages, and the bytes go to the cells of the range. -/
theorem writePieces_ideal {ps : List (ℕ × ℕ)} (m : Cells) (rcode : ℤ) (image : ℕ → UInt8)
    (hs : c.Selectable devAddr offset cnt) (ho : offset ≤ o) (ht : Tiled (offset + cnt) o ps)
    (hp : ∀ p ∈ ps, InPage c.page p) :
    (c.writePieces (ideal c) devAddr image ps rcode m).1 = rcode ∧
    (∀ x, o ≤ x → x < offset + cnt →
      (c.writePieces (ideal c) devAddr image ps rcode m).2 (c.cellOf devAddr x) = image x) ∧
    ∀ x, (∀ y, o ≤ y → y < offset + cnt → x ≠ c.cellOf devAddr y) →
      (c.writePieces (ideal c) devAddr image ps rcode m).2 x = m x := by
  induction ps generalizing o m rcode with
  | nil =>
    obtain rfl : o = offset + cnt := ht
    exact ⟨rfl, fun x h h' => absurd h' (Nat.not_lt.mpr h), fun x _ => rfl⟩
  | cons p ps ih =>
    obtain ⟨rfl, hpos, ht⟩ := ht
    have hin : p.1 % c.page + p.2 ≤ c.page := hp p List.mem_cons_self
    have hle := ht.le
    obtain ⟨hrc, hhit, hmiss⟩ := ih
      (burst c.page (c.addr0 devAddr p.1) m (p.1 % c.addrLen.blockLen)
        (bytesAt (fun i => image (p.1 + i)) p.2)) rcode (by omega) ht
      fun q hq => hp q (List.mem_cons_of_mem _ hq)
    have hmod : p.1 % c.addrLen.blockLen % c.page = p.1 % c.page :=
      Nat.mod_mod_of_dvd _ page_dvd
    have hlen : p.1 % c.addrLen.blockLen % c.page +
        (bytesAt (fun i => image (p.1 + i)) p.2).length ≤ c.page := by
      rwa [hmod, length_bytesAt]
    rw [writePieces]
    refine ⟨hrc, fun x hx hx' => ?_, fun x hx => ?_⟩
    · rcases Nat.lt_or_ge x (p.1 + p.2) with hlt | hge
      · -- a byte of this piece, which the later ones leave
        have hstay := hmiss (c.cellOf devAddr x) fun y hy hy' heq => by
          have := cellOf_inj hs (ho.trans hx) hx' (by omega) hy' heq
          omega
        obtain ⟨k, rfl⟩ := Nat.exists_eq_add_of_le hx
        refine hstay.trans ?_
        rw [cellOf_add page_dvd (by omega), burst_hit hlen (by rw [length_bytesAt]; omega)]
        simp only [bytesAt, List.getElem_map, List.getElem_range]
      · exact hhit x hge hx'
    · refine (hmiss x fun y hy hy' => hx y (by omega) hy').trans (burst_miss hlen fun i hi => ?_)
      rw [length_bytesAt] at hi
      rw [← cellOf_add page_dvd (by omega)]
      exact hx _ (Nat.le_add_right _ _) (by omega)

/-! ## Larger pages -/

/-- The condition on the range: the pages have at most 256 bytes, or the range ends within its
first page, or its pieces meet the end of that page and it ends in the next page or pieces that
start with a page meet its end. -/
def KeepsPages (c : EepromCfg) (offset cnt : ℕ) : Prop :=
  match c.pageWriteBits with
  | none => True
  | some bits => bits.val ≤ 8 ∨ offset + cnt ≤ pageEnd c.page offset ∨
      (Cutter.Meets c.page c.rxtxLen c.writeBound offset ∧
        (offset + cnt ≤ pageEnd c.page offset + c.page ∨
          Cutter.Meets c.page c.rxtxLen c.writeBound 0))

theorem page_of_le {bits : Fin 31} (h : c.pageWriteBits = some bits) (hle : bits.val ≤ 8) :
    c.page = 2 ^ bits.val ∧ c.page ∣ 256 := by
  have hdvd : 2 ^ bits.val ∣ 256 := Nat.pow_dvd_pow 2 hle
  have hb := (Nat.le_of_dvd (by decide) hdvd).trans
    (Nat.le_of_dvd blockLen_pos (dvd_blockLen (c := c)))
  have hpage : c.page = 2 ^ bits.val := by
    rw [page, h]
    exact Nat.min_eq_left hb
  exact ⟨hpage, hpage ▸ hdvd⟩

theorem page_of_lt {bits : Fin 31} (h : c.pageWriteBits = some bits) (hlt : 8 < bits.val) :
    256 ∣ c.page ∧ 256 ∣ 2 ^ bits.val ∧ 512 ≤ 2 ^ bits.val ∧
      (c.page = 2 ^ bits.val ∨ 2 * c.page ≤ 2 ^ bits.val) := by
  have h512 : 2 ^ 9 ≤ 2 ^ bits.val := Nat.pow_le_pow_right two_pos hlt
  have h256 : 2 ^ 8 ∣ 2 ^ bits.val := Nat.pow_dvd_pow 2 (Nat.le_of_lt hlt)
  have hpage : c.page = min (2 ^ bits.val) c.addrLen.blockLen := by rw [page, h]
  rcases Nat.lt_or_ge (8 * c.addrLen.bytes) bits.val with hb | hb
  · have hpow : 2 * c.addrLen.blockLen ≤ 2 ^ bits.val := by
      rw [AddrLen.blockLen, ← Nat.pow_succ']
      exact Nat.pow_le_pow_right two_pos hb
    rw [hpage, Nat.min_eq_right (by omega)]
    exact ⟨dvd_blockLen, h256, h512, .inr hpow⟩
  · have hpow : 2 ^ bits.val ≤ c.addrLen.blockLen := Nat.pow_le_pow_right two_pos hb
    rw [hpage, Nat.min_eq_left hpow]
    exact ⟨h256, h256, h512, .inl rfl⟩

theorem writeBound_of_lt {bits : Fin 31} (h : c.pageWriteBits = some bits) (hlt : 8 < bits.val) :
    c.writeBound o = 2 ^ bits.val - o % 256 := by
  have := page_of_lt h hlt
  rw [writeBound, h]
  simp only
  rw [Nat.mod_eq_of_lt (by omega : o % 256 < 2 ^ bits.val)]

/-- With pages of more than 256 bytes the bound is never less than the rest of the page. -/
theorem overlong {bits : Fin 31} (h : c.pageWriteBits = some bits) (hlt : 8 < bits.val) :
    c.writes.Overlong c.page c.rxtxLen c.writeBound := by
  obtain ⟨hd, hd', h512, hor⟩ := page_of_lt h hlt
  have hsub : ∀ o, o % c.page % 256 = o % 256 := fun o => Nat.mod_mod_of_dvd o hd
  refine ⟨page_pos, c.writeMaxlen_eq, fun o => ?_, fun o hin hm => ?_, fun o => ?_⟩
  · have := hsub o
    rw [writeBound_of_lt h hlt]
    omega
  · have := hsub (o + c.rxtxLen)
    have hmod := (pageEnd_add hin).2
    rw [writeBound_of_lt h hlt] at hm
    omega
  · rw [writeBound_of_lt h hlt, writeBound_of_lt h hlt, hsub]

/-- The pieces that `eeprom_write` makes lie in pages exactly under the condition. -/
theorem crossFree_writes_iff :
    c.writes.CrossFree c.page (offset + cnt) offset ↔ c.KeepsPages offset cnt := by
  have hfit : (∀ o, c.writeBound o = c.page - o % c.page) →
      c.writes.CrossFree c.page (offset + cnt) offset := fun h p hm => by
    refine c.writes.inPage_of_len (fun o => ?_) page_pos hm
    rw [← h]
    exact (c.writeMaxlen_eq o).trans_le (Nat.min_le_left _ _)
  cases h : c.pageWriteBits with
  | none =>
    simp only [KeepsPages, h, iff_true]
    exact hfit fun o => by simp only [writeBound, page, h]
  | some bits =>
    simp only [KeepsPages, h]
    rcases Nat.lt_or_ge 8 bits.val with hlt | hle
    · rw [(overlong h hlt).inPage_cuts_iff]
      exact ⟨.inr, fun hor => hor.resolve_left (by omega)⟩
    · obtain ⟨hpage, hdvd⟩ := page_of_le h hle
      refine iff_of_true (hfit fun o => ?_) (.inl hle)
      simp only [writeBound, h]
      rw [← hpage, Nat.mod_mod_of_dvd _ hdvd]

end EepromCfg

/-! ## The law -/

inductive I2cOp where
  | read (chip addr alen len : ℕ)
  | write (chip addr alen : ℕ) (data : List UInt8)
  deriving DecidableEq, Repr

/-- A bus that keeps a list of the operations with their return codes. -/
def I2c.logged {σ : Type} (b : I2c σ) : I2c (σ × List (I2cOp × ℤ)) where
  read s chip addr alen len :=
    let r := b.read s.1 chip addr alen len
    (r.1, r.2.1, r.2.2, s.2 ++ [(.read chip addr alen len, r.1)])
  write s chip addr alen data :=
    let r := b.write s.1 chip addr alen data
    (r.1, r.2, s.2 ++ [(.write chip addr alen data, r.1)])

namespace EepromCfg

variable {c : EepromCfg} {devAddr offset cnt : ℕ} {σ : Type} {b : I2c σ}

/-- The operation that writes a piece of the buffer. -/
def writeOp (c : EepromCfg) (devAddr offset : ℕ) (buffer : ℕ → UInt8) (p : ℕ × ℕ) : I2cOp :=
  .write (c.addr0 devAddr p.1) p.1 c.alen (bytesAt (fun i => buffer (p.1 - offset + i)) p.2)

structure WriteLaw (c : EepromCfg) (devAddr offset cnt : ℕ) : Prop where
  /-- On any bus the operations tile the range in ascending order, and each stays within a write
  page and `I2C_RXTX_LEN`. -/
  pages : ∀ (σ : Type) (b : I2c σ) (s : σ) (buffer : ℕ → UInt8), ∃ ps,
    ((c.eepromWrite b.logged devAddr offset buffer cnt (s, [])).2.2.map Prod.fst =
      ps.map (c.writeOp devAddr offset buffer)) ∧
    Tiled (offset + cnt) offset ps ∧ ∀ p ∈ ps, InPage c.page p ∧ p.2 ≤ c.rxtxLen
  /-- On the ideal device a write succeeds and leaves all other bytes alone, and a read of the
  range returns the buffer. -/
  readBack : ∀ (m : Cells) (buffer : ℕ → UInt8),
    let r := c.eepromWrite (ideal c) devAddr offset buffer cnt m
    r.1 = 0 ∧
    (∀ x, (∀ o, offset ≤ o → o < offset + cnt → x ≠ c.cellOf devAddr o) → r.2 x = m x) ∧
    c.eepromRead (ideal c) devAddr offset cnt r.2 = (0, bytesAt buffer cnt, r.2)
  /-- A write operation that fails is reported. -/
  writeFails : ∀ (σ : Type) (b : I2c σ) (s : σ) (buffer : ℕ → UInt8),
    let r := c.eepromWrite b.logged devAddr offset buffer cnt (s, [])
    (∃ x ∈ r.2.2, x.2 ≠ 0) → r.1 ≠ 0
  /-- A read operation that fails is reported. -/
  readFails : ∀ (σ : Type) (b : I2c σ) (s : σ),
    let r := c.eepromRead b.logged devAddr offset cnt (s, [])
    (∃ x ∈ r.2.2.2, x.2 ≠ 0) → r.1 ≠ 0

section
variable {ps : List (ℕ × ℕ)} {image : ℕ → UInt8} {rcode : ℤ} {s : σ} {log : List (I2cOp × ℤ)}

/-- A return code of the list that is not zero is in the result. -/
def Reported (rcode : ℤ) (log : List (I2cOp × ℤ)) : Prop := (∃ x ∈ log, x.2 ≠ 0) → rcode ≠ 0

theorem Reported.snoc {op : I2cOp} {rc : ℤ} (h : Reported rcode log) :
    Reported (orFailed rcode rc) (log ++ [(op, rc)]) := by
  rintro ⟨x, hx, hne⟩
  rw [orFailed]
  split
  · decide
  · rename_i hrc
    rcases List.mem_append.mp hx with hx | hx
    · exact h ⟨x, hx, hne⟩
    · rw [List.mem_singleton.mp hx] at hne
      exact absurd hne hrc

theorem writePieces_reported (h : Reported rcode log) :
    Reported (c.writePieces b.logged devAddr image ps rcode (s, log)).1
      (c.writePieces b.logged devAddr image ps rcode (s, log)).2.2 := by
  induction ps generalizing rcode s log with
  | nil => exact h
  | cons p ps ih => exact ih h.snoc

theorem readPieces_reported (h : Reported rcode log) :
    Reported (c.readPieces b.logged devAddr ps rcode (s, log)).1
      (c.readPieces b.logged devAddr ps rcode (s, log)).2.2.2 := by
  induction ps generalizing rcode s log with
  | nil => exact h
  | cons p ps ih => exact ih h.snoc

theorem writePieces_log :
    (c.writePieces b.logged devAddr image ps rcode (s, log)).2.2.map Prod.fst =
      log.map Prod.fst ++ ps.map fun p =>
        .write (c.addr0 devAddr p.1) p.1 c.alen (bytesAt (fun i => image (p.1 + i)) p.2) := by
  induction ps generalizing rcode s log with
  | nil => exact (List.append_nil _).symm
  | cons p ps ih =>
    rw [List.map_cons, List.append_cons]
    refine ih.trans ?_
    rw [List.map_append]
    rfl

end

section
variable (hwrap : offset + cnt < 2 ^ 32) {buffer : ℕ → UInt8} {s : σ}

include hwrap

theorem eepromWrite_eq : c.eepromWrite b devAddr offset buffer cnt s =
    c.writePieces b devAddr (fun o => buffer (o - offset))
      (c.writes.cuts (offset + cnt) offset) 0 s := by
  rw [eepromWrite, Nat.mod_eq_of_lt hwrap]
  exact writeLoop_eq fun i => by rw [Nat.add_sub_cancel_left]

theorem eepromRead_eq : c.eepromRead b devAddr offset cnt s =
    c.readPieces b devAddr (c.reads.cuts (offset + cnt) offset) 0 s := by
  rw [eepromRead, Nat.mod_eq_of_lt hwrap, readLoop_eq]

theorem eepromWrite_log :
    (c.eepromWrite b.logged devAddr offset buffer cnt (s, [])).2.2.map Prod.fst =
      (c.writes.cuts (offset + cnt) offset).map (c.writeOp devAddr offset buffer) := by
  rw [eepromWrite_eq hwrap, writePieces_log, List.map_nil, List.nil_append]
  refine List.map_congr_left fun p hp => ?_
  have hle := (c.writes.of_mem_cuts hp).1
  rw [writeOp]
  congr 1
  exact bytesAt_congr fun i _ => by rw [Nat.sub_add_comm hle]

end

theorem writeOp_injective (buffer : ℕ → UInt8) :
    Function.Injective (c.writeOp devAddr offset buffer) := by
  rintro ⟨o, l⟩ ⟨o', l'⟩ h
  obtain ⟨-, ho, -, hdata⟩ := I2cOp.write.inj h
  have hlen := congrArg List.length hdata
  rw [length_bytesAt, length_bytesAt] at hlen
  exact Prod.ext ho hlen

theorem keepsPages_of_law (hwrap : offset + cnt < 2 ^ 32) (law : c.WriteLaw devAddr offset cnt) :
    c.KeepsPages offset cnt := by
  rw [← crossFree_writes_iff]
  intro p hp
  obtain ⟨ps, hlog, -, hin⟩ := law.pages _ (ideal c) (fun _ => 0) fun _ => 0
  rw [eepromWrite_log hwrap] at hlog
  have hps := List.map_injective_iff.mpr (writeOp_injective _) hlog
  exact (hin p (hps ▸ hp)).1

end EepromCfg

open EepromCfg

/-- **Where a write is right.** For a range that does not wrap, and a device address without the
bits of its block numbers, the law holds exactly if the write pages have no more than 256 bytes
or the range keeps to them all the same. -/
theorem eeprom_write_exact (c : EepromCfg) (devAddr offset cnt : ℕ)
    (hwrap : offset + cnt < 2 ^ 32) (hsel : c.Selectable devAddr offset cnt) :
    c.WriteLaw devAddr offset cnt ↔ c.KeepsPages offset cnt := by
  have htiled := c.writes.tiled_cuts (Nat.le_add_right offset cnt)
  constructor
  · exact keepsPages_of_law hwrap
  · intro hkeeps
    have hfree := crossFree_writes_iff.mpr hkeeps
    refine ⟨fun σ b s buffer => ?_, fun m buffer => ?_, fun σ b s buffer => ?_, fun σ b s => ?_⟩
    · refine ⟨_, eepromWrite_log hwrap, htiled, fun p hp => ⟨hfree p hp, ?_⟩⟩
      exact (c.writes.of_mem_cuts hp).2.2.2.trans
        ((c.writeMaxlen_eq p.1).trans_le (Nat.min_le_right _ _))
    · have hw := writePieces_ideal m 0 (fun o => buffer (o - offset)) hsel (Nat.le_refl offset)
        htiled hfree
      rw [← eepromWrite_eq hwrap] at hw
      obtain ⟨hrc, hhit, hmiss⟩ := hw
      refine ⟨hrc, hmiss, ?_⟩
      have hread : ∀ p ∈ c.reads.cuts (offset + cnt) offset, InPage 256 p := fun p hp =>
        c.reads.inPage_of_len (fun o => (c.readMaxlen_eq o).trans_le (Nat.min_le_left _ _))
          (by decide) hp
      rw [eepromRead_eq hwrap,
        readPieces_ideal (c.reads.tiled_cuts (Nat.le_add_right offset cnt)) hread,
        Nat.add_sub_cancel_left]
      refine Prod.ext rfl (Prod.ext (bytesAt_congr fun i hi => ?_) rfl)
      rw [hhit _ (Nat.le_add_right _ _) (by omega), Nat.add_sub_cancel_left]
    · rw [eepromWrite_eq hwrap]
      exact writePieces_reported fun ⟨_, hx, _⟩ => absurd hx List.not_mem_nil
    · rw [eepromRead_eq hwrap]
      exact readPieces_reported fun ⟨_, hx, _⟩ => absurd hx List.not_mem_nil

/-- A device of 2 KB in 16-byte pages, and a range over the end of its first block. -/
theorem eeprom_write_exact_sample :
    (⟨.one, some 4, 128, by decide⟩ : EepromCfg).WriteLaw 0x50 250 20 := by
  refine (eeprom_write_exact _ 0x50 250 20 (by decide) fun o h h' => ?_).mpr (.inl (by decide))
  have hblock : o / 256 = 0 ∨ o / 256 = 1 := by omega
  change o / 256 < 256 ∧ o / 256 &&& 80 = 0
  rcases hblock with hb | hb <;> rw [hb] <;> decide

/-- Two bytes over the end of a page of 512 bytes are one operation. -/
theorem eeprom_write_crosses :
    (⟨.two, some 9, 128, by decide⟩ : EepromCfg).Selectable 0x50 511 2 ∧
    ¬ (⟨.two, some 9, 128, by decide⟩ : EepromCfg).WriteLaw 0x50 511 2 := by
  constructor
  · intro o h h'
    have hblock : o / 65536 = 0 := by omega
    change o / 65536 < 256 ∧ o / 65536 &&& 80 = 0
    rw [hblock]
    decide
  · intro law
    have hkeeps := keepsPages_of_law (by decide) law
    have hnot : ¬ (9 ≤ 8 ∨ 511 + 2 ≤ pageEnd 512 511 ∨ (Cutter.Meets 512 128
        (⟨.two, some 9, 128, by decide⟩ : EepromCfg).writeBound 511 ∧
        (511 + 2 ≤ pageEnd 512 511 + 512 ∨ Cutter.Meets 512 128
          (⟨.two, some 9, 128, by decide⟩ : EepromCfg).writeBound 0))) := by decide
    exact hnot hkeeps

end UBoot.Eeprom
