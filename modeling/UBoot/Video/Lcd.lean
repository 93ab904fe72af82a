import Mathlib.Data.List.GetD
import Mathlib.Tactic
import UBoot.Lib.Buf
import UBoot.Lib.Bytes

/-!
# Text on a monochrome display (`lcd_drawchars`, `cpu/mpc8xx/lcd.c`)

The bits of the frame buffer are numbered line after line, from the left. A line of a text is drawn
at any bit, through the bytes that it lies in.
-/

namespace UBoot.Lcd

open UBoot.Lib

/-- `CONSOLE_COLOR_BLACK` and `CONSOLE_COLOR_WHITE` -/
inductive Color where
  | black
  | white
  deriving DecidableEq

def Color.code : Color → ℕ
  | .black => 0
  | .white => 1

def Color.bit : Color → Bool
  | .black => false
  | .white => true

/-- `COLOR_MASK`, its low byte. -/
def colorMask (c : ℕ) : BitVec 8 :=
  BitVec.ofNat 8 (c ||| c <<< 1 ||| c <<< 2 ||| c <<< 3 ||| c <<< 4 ||| c <<< 5 ||| c <<< 6 |||
    c <<< 7)

/-- The geometry of the panel, the colours and the font. -/
structure Panel where
  lineLength : ℕ
  rows : ℕ
  line_pos : 0 < lineLength
  fg : Color
  bg : Color
  fontdata : UInt8 → ℕ → BitVec 8

namespace Panel

variable (P : Panel)

abbrev Fb := Buf (BitVec 8) (P.lineLength * P.rows)

/-- `sym`, for a line of a glyph. -/
def sym (bits : BitVec 8) : BitVec 8 :=
  (colorMask P.fg.code &&& bits) ||| (colorMask P.bg.code &&& ~~~bits)

end Panel

section
variable {n : ℕ}

/-- The loop over the characters: `syms` are what is left of them. The bits of `rest` belong to the
byte at `d`. -/
def drawSyms (off : ℕ) : List (BitVec 8) → ℕ → BitVec 8 → Buf (BitVec 8) n →
    Except Oob (ℕ × BitVec 8 × Buf (BitVec 8) n)
  | [], d, rest, fb => .ok (d, rest, fb)
  | sym :: syms, d, rest, fb => do
    let fb ← fb.store d [rest ||| (sym >>> off)]
    drawSyms off syms (d + 1) (sym <<< (8 - off)) fb

def drawRow (off dest : ℕ) (syms : List (BitVec 8)) (fb : Buf (BitVec 8) n) :
    Except Oob (Buf (BitVec 8) n) := do
  let first ← fb.rd dest
  let (d, rest, fb) ← drawSyms off syms dest (first &&& -(1#8 <<< (8 - off))) fb
  let last ← fb.rd d
  fb.store d [rest ||| (last &&& (1#8 <<< (8 - off) - 1#8))]

end

namespace Panel

variable (P : Panel)

/-- The loop over the lines from `row` on, `k` of them. -/
def drawRows (off : ℕ) (str : List UInt8) : ℕ → ℕ → ℕ → P.Fb → Except Oob P.Fb
  | 0, _, _, fb => .ok fb
  | k + 1, row, dest, fb => do
    let fb ← drawRow off dest (str.map fun c => P.sym (P.fontdata c row)) fb
    drawRows off str k (row + 1) (dest + P.lineLength) fb

/-- `lcd_drawchars`, for the characters that `str` and `count` give. -/
def lcdDrawchars (x y : ℕ) (str : List UInt8) (fb : P.Fb) : Except Oob P.Fb :=
  P.drawRows (x % 8) str 16 0 (y * P.lineLength + x / 8) fb

end Panel

/-! ### Bits -/

section
variable {n : ℕ}

/-- Bit `q` of the frame buffer. -/
def bitAt (fb : Buf (BitVec 8) n) (q : ℕ) : Bool := (fb.get (q / 8)).getMsbD (q % 8)

/-- Bit `q` once the syms have been drawn from bit `s` on. -/
def drawn (fb : Buf (BitVec 8) n) (s : ℕ) (syms : List (BitVec 8)) (q : ℕ) : Bool :=
  if s ≤ q ∧ q < s + 8 * syms.length then (syms.getD ((q - s) / 8) 0).getMsbD ((q - s) % 8)
  else bitAt fb q

variable {fb fb₀ fb' : Buf (BitVec 8) n} {s d dest off : ℕ} {done syms : List (BitVec 8)}
  {rest : BitVec 8}

theorem store_byte (fb : Buf (BitVec 8) n) (v : BitVec 8) (hd : d < n) :
    ∃ fb', fb.store d [v] = .ok fb' ∧
      ∀ q, bitAt fb' q = if q / 8 = d then v.getMsbD (q % 8) else bitAt fb q := by
  refine ⟨fb.put d [v], if_pos (by simpa using hd), fun q => ?_⟩
  unfold bitAt
  split_ifs with hq
  · have hget := Buf.get_put (b := fb) (i := d) (l := [v]) (j := 0) (by simp)
    rw [hq]
    exact congrArg (BitVec.getMsbD · (q % 8)) hget
  · rcases Nat.lt_or_gt_of_ne hq with hlt | hgt
    · rw [Buf.get_put_of_lt hlt]
    · rw [Buf.get_put_of_ge (by simpa using hgt)]

/-- In front of the byte at `d` the text is there, behind it nothing has changed, and `rest` has its
first bits. -/
structure Upto (fb₀ : Buf (BitVec 8) n) (s : ℕ) (syms : List (BitVec 8)) (off d : ℕ)
    (rest : BitVec 8) (fb : Buf (BitVec 8) n) : Prop where
  before : ∀ q < 8 * d, bitAt fb q = drawn fb₀ s syms q
  behind : ∀ q, 8 * d ≤ q → bitAt fb q = bitAt fb₀ q
  rest : ∀ j < 8, rest.getMsbD j = (decide (j < off) && drawn fb₀ s syms (8 * d + j))

theorem drawn_sym (fb₀ : Buf (BitVec 8) n) (s : ℕ) (done syms : List (BitVec 8)) (sym : BitVec 8)
    {j : ℕ} (hj : j < 8) :
    drawn fb₀ s (done ++ sym :: syms) (s + 8 * done.length + j) = sym.getMsbD j := by
  have hquot : (s + 8 * done.length + j - s) / 8 = done.length := by omega
  have hrem : (s + 8 * done.length + j - s) % 8 = j := by omega
  have hlen : (done ++ sym :: syms).length = done.length + (syms.length + 1) := List.length_append
  unfold drawn
  rw [if_pos (by omega), hquot, hrem]
  simp

theorem Upto.step {sym : BitVec 8} (hoff : off < 8) (hs : s = 8 * dest + off)
    (hd : d = dest + done.length) (hn : d < n)
    (h : Upto fb₀ s (done ++ sym :: syms) off d rest fb) :
    ∃ fb', fb.store d [rest ||| (sym >>> off)] = .ok fb' ∧
      Upto fb₀ s (done ++ sym :: syms) off (d + 1) (sym <<< (8 - off)) fb' := by
  obtain ⟨fb', hstore, hbits⟩ := store_byte fb (rest ||| (sym >>> off)) hn
  have hbyte (j : ℕ) (hj : j < 8) :
      (rest ||| (sym >>> off)).getMsbD j = drawn fb₀ s (done ++ sym :: syms) (8 * d + j) := by
    rw [BitVec.getMsbD_or, h.rest j hj, BitVec.getMsbD_ushiftRight]
    by_cases hlt : j < off
    · simp [hlt]
    · have hsym := drawn_sym fb₀ s done syms sym (j := j - off) (by omega)
      rw [show s + 8 * done.length + (j - off) = 8 * d + j by omega] at hsym
      simp [hlt, hj, hsym]
  refine ⟨fb', hstore, ⟨fun q hq => ?_, fun q hq => ?_, fun j hj => ?_⟩⟩
  · rw [hbits]
    split_ifs with hqd
    · rw [hbyte (q % 8) (Nat.mod_lt q (by omega)), ← hqd, Nat.div_add_mod]
    · exact h.before q (by omega)
  · rw [hbits, if_neg (by omega)]
    exact h.behind q (by omega)
  · rw [BitVec.getMsbD_shiftLeft]
    by_cases hlt : j < off
    · have hsym := drawn_sym fb₀ s done syms sym (j := j + (8 - off)) (by omega)
      rw [show s + 8 * done.length + (j + (8 - off)) = 8 * (d + 1) + j by omega] at hsym
      simp [hlt, hsym]
    · have hout : sym.getMsbD (j + (8 - off)) = false := BitVec.getMsbD_of_ge _ _ (by omega)
      simp [hlt, hout]

theorem drawSyms_spec (hoff : off < 8) (hs : s = 8 * dest + off)
    (hd : d = dest + done.length) (hn : d + syms.length ≤ n)
    (h : Upto fb₀ s (done ++ syms) off d rest fb) :
    ∃ rest' fb', drawSyms off syms d rest fb = .ok (d + syms.length, rest', fb') ∧
      Upto fb₀ s (done ++ syms) off (d + syms.length) rest' fb' := by
  induction syms generalizing done d rest fb with
  | nil => exact ⟨rest, fb, rfl, h⟩
  | cons sym syms ih =>
    rw [List.length_cons] at hn
    obtain ⟨fb₁, hstore, hstep⟩ := h.step hoff hs hd (by omega)
    have hassoc : done ++ sym :: syms = done ++ [sym] ++ syms := by
      rw [List.append_assoc, List.singleton_append]
    rw [hassoc] at hstep
    have hlen : d + 1 + syms.length = d + (sym :: syms).length := by
      rw [List.length_cons]
      omega
    obtain ⟨rest', fb', hdraw, hupto⟩ := ih
      (by rw [List.length_append, List.length_singleton, hd]; omega) (by omega) hstep
    rw [hlen] at hdraw hupto
    refine ⟨rest', fb', ?_, hassoc ▸ hupto⟩
    unfold drawSyms
    rw [hstore]
    exact hdraw

theorem getMsbD_masks (hoff : off < 8) (byte : BitVec 8) {j : ℕ} (hj : j < 8) :
    (byte &&& -(1#8 <<< (8 - off))).getMsbD j = (decide (j < off) && byte.getMsbD j) ∧
    (byte &&& (1#8 <<< (8 - off) - 1#8)).getMsbD j = (decide (off ≤ j) && byte.getMsbD j) := by
  have hmasks : ∀ off < 8, ∀ j < 8, (-(1#8 <<< (8 - off))).getMsbD j = decide (j < off) ∧
      (1#8 <<< (8 - off) - 1#8).getMsbD j = decide (off ≤ j) := by decide
  obtain ⟨hhigh, hlow⟩ := hmasks off hoff j hj
  rw [BitVec.getMsbD_and, BitVec.getMsbD_and, hhigh, hlow]
  exact ⟨Bool.and_comm _ _, Bool.and_comm _ _⟩

theorem upto_start (hoff : off < 8) :
    Upto fb (8 * dest + off) syms off dest (fb.get dest &&& -(1#8 <<< (8 - off))) fb where
  before q hq := by
    unfold drawn
    rw [if_neg (by omega)]
  behind _ _ := rfl
  rest j hj := by
    rw [(getMsbD_masks hoff (fb.get dest) hj).1]
    by_cases hlt : j < off
    · have hquot : (8 * dest + j) / 8 = dest := by omega
      have hrem : (8 * dest + j) % 8 = j := by omega
      unfold drawn bitAt
      rw [if_neg (by omega), hquot, hrem]
    · simp [hlt]

theorem drawSyms_start (fb : Buf (BitVec 8) n) (hoff : off < 8) (hn : dest + syms.length ≤ n) :
    ∃ rest fb', drawSyms off syms dest (fb.get dest &&& -(1#8 <<< (8 - off))) fb =
      .ok (dest + syms.length, rest, fb') ∧
        Upto fb (8 * dest + off) syms off (dest + syms.length) rest fb' := by
  have hstart : dest = dest + ([] : List (BitVec 8)).length := rfl
  exact drawSyms_spec hoff rfl hstart hn (upto_start hoff)

/-- A line of the text is drawn when the byte behind its last one lies in the frame buffer, too. -/
theorem drawRow_spec (fb : Buf (BitVec 8) n) (dest : ℕ) (syms : List (BitVec 8)) (hoff : off < 8)
    (hn : dest + syms.length < n) :
    ∃ fb', drawRow off dest syms fb = .ok fb' ∧
      ∀ q, bitAt fb' q = drawn fb (8 * dest + off) syms q := by
  obtain ⟨rest, fb₁, hdraw, hupto⟩ := drawSyms_start fb hoff hn.le
  obtain ⟨fb', hstore, hbits⟩ := store_byte fb₁
    (rest ||| (fb₁.get (dest + syms.length) &&& (1#8 <<< (8 - off) - 1#8))) hn
  refine ⟨fb', ?_, fun q => ?_⟩
  · unfold drawRow
    rw [Buf.rd, if_pos (by omega), ok_bind, hdraw, ok_bind]
    dsimp only
    rw [Buf.rd, if_pos hn, ok_bind]
    exact hstore
  · rw [hbits]
    split_ifs with hq
    · have hj := Nat.mod_lt q (show 0 < 8 by omega)
      have hrest := hupto.rest (q % 8) hj
      rw [← hq, Nat.div_add_mod] at hrest
      rw [BitVec.getMsbD_or, (getMsbD_masks hoff _ hj).2, hrest, ← hq]
      by_cases hlt : q % 8 < off
      · simp [hlt, Nat.not_le.2 hlt]
      · -- behind the text
        have hold := hupto.behind q (by omega)
        have hdrawn : drawn fb (8 * dest + off) syms q = bitAt fb q := by
          unfold drawn
          rw [if_neg (by omega)]
        rw [hdrawn, ← hold]
        simp [hlt, Nat.not_lt.1 hlt, bitAt]
    · rcases Nat.lt_or_ge q (8 * (dest + syms.length)) with hlt | hge
      · exact hupto.before q hlt
      · rw [hupto.behind q hge]
        unfold drawn
        rw [if_neg (by omega)]

theorem drawRow_error (hoff : off < 8) (hn : dest + syms.length = n) :
    drawRow off dest syms fb = .error .read := by
  unfold drawRow
  by_cases hdest : dest < n
  · obtain ⟨rest, fb₁, hdraw, -⟩ := drawSyms_start fb hoff hn.le
    rw [Buf.rd, if_pos hdest, ok_bind, hdraw, ok_bind]
    dsimp only
    rw [Buf.rd, if_neg (by omega)]
    rfl
  · rw [Buf.rd, if_neg hdest]
    rfl

end

/-! ### The lines -/

namespace Panel

variable {P : Panel} {fb : P.Fb} {str : List UInt8} {off dest row k x y : ℕ}

theorem colorMask_bit (c : Color) {b : ℕ} (hb : b < 8) :
    (colorMask c.code).getMsbD b = c.bit := by
  have hall : ∀ b < 8, (colorMask c.code).getMsbD b = c.bit := by
    cases c <;> decide
  exact hall b hb

theorem sym_bit (bits : BitVec 8) {b : ℕ} (hb : b < 8) :
    (P.sym bits).getMsbD b = if bits.getMsbD b then P.fg.bit else P.bg.bit := by
  unfold sym
  rw [BitVec.getMsbD_or, BitVec.getMsbD_and, BitVec.getMsbD_and, BitVec.getMsbD_not,
    colorMask_bit _ hb, colorMask_bit _ hb]
  cases bits.getMsbD b <;> simp [hb]

theorem drawRows_spec (fb : P.Fb) (row dest k : ℕ) (hoff : off < 8)
    (hwidth : off + 8 * str.length ≤ 8 * P.lineLength)
    (hroom : ∀ r < k, dest + r * P.lineLength + str.length < P.lineLength * P.rows) :
    ∃ fb', P.drawRows off str k row dest fb = .ok fb' ∧
      (∀ r < k, ∀ i < 8 * str.length, bitAt fb' (8 * (dest + r * P.lineLength) + off + i) =
        ((str.map fun c => P.sym (P.fontdata c (row + r))).getD (i / 8) 0).getMsbD (i % 8)) ∧
      ∀ q, (∀ r < k, ¬ (8 * (dest + r * P.lineLength) + off ≤ q ∧
        q < 8 * (dest + r * P.lineLength) + off + 8 * str.length)) → bitAt fb' q = bitAt fb q := by
  induction k generalizing row dest fb with
  | zero => exact ⟨fb, rfl, fun r hr => absurd hr (Nat.not_lt_zero r), fun _ _ => rfl⟩
  | succ k ih =>
    have hfirst := hroom 0 (Nat.succ_pos k)
    rw [Nat.zero_mul, Nat.add_zero] at hfirst
    have hlines (r : ℕ) : dest + P.lineLength + r * P.lineLength =
        dest + (r + 1) * P.lineLength := by
      rw [Nat.succ_mul]
      omega
    obtain ⟨fb₁, hdraw, hbits⟩ := drawRow_spec fb dest
      (str.map fun c => P.sym (P.fontdata c row)) hoff (by rwa [List.length_map])
    obtain ⟨fb', hrest, htext, hkept⟩ := ih fb₁ (row + 1) (dest + P.lineLength) fun r hr => by
        rw [hlines]
        exact hroom (r + 1) (Nat.succ_lt_succ hr)
    refine ⟨fb', ?_, fun r hr i hi => ?_, fun q hq => ?_⟩
    · unfold drawRows
      rw [hdraw]
      exact hrest
    · cases r with
      | zero =>
        -- the later lines are behind this one
        rw [Nat.zero_mul, Nat.add_zero, hkept _ fun r _ => by omega, hbits]
        unfold drawn
        rw [List.length_map, if_pos (by omega), Nat.add_sub_cancel_left, Nat.add_zero]
      | succ r =>
        have hline := htext r (Nat.lt_of_succ_lt_succ hr) i hi
        rwa [hlines, Nat.add_right_comm row, Nat.add_assoc row] at hline
    · have hnext : ∀ r < k, ¬ (8 * (dest + P.lineLength + r * P.lineLength) + off ≤ q ∧
          q < 8 * (dest + P.lineLength + r * P.lineLength) + off + 8 * str.length) := by
        intro r hr
        rw [hlines]
        exact hq (r + 1) (Nat.succ_lt_succ hr)
      have hthis := hq 0 (Nat.succ_pos k)
      rw [Nat.zero_mul, Nat.add_zero] at hthis
      rw [hkept q hnext, hbits]
      unfold drawn
      rw [List.length_map, if_neg hthis]

theorem drawRows_error (hoff : off < 8)
    (hend : dest + k * P.lineLength + str.length = P.lineLength * P.rows) :
    P.drawRows off str (k + 1) row dest fb = .error .read := by
  induction k generalizing row dest fb with
  | zero =>
    rw [Nat.zero_mul, Nat.add_zero] at hend
    unfold drawRows
    rw [drawRow_error hoff (by rwa [List.length_map])]
    rfl
  | succ k ih =>
    rw [Nat.succ_mul] at hend
    have hline := P.line_pos
    obtain ⟨fb₁, hdraw, -⟩ := drawRow_spec fb dest
      (str.map fun c => P.sym (P.fontdata c row)) hoff (by rw [List.length_map]; omega)
    unfold drawRows
    rw [hdraw]
    exact ih (by omega)

def pixel (P : Panel) (fb : P.Fb) (x y : ℕ) : Bool := bitAt fb (8 * (y * P.lineLength) + x)

structure Inside (P : Panel) (x y : ℕ) (str : List UInt8) : Prop where
  width : x + 8 * str.length ≤ 8 * P.lineLength
  height : y + 16 ≤ P.rows

/-- The text is drawn, nothing else changes and nothing outside the frame buffer is accessed. -/
def Draws (P : Panel) (x y : ℕ) (str : List UInt8) (fb : P.Fb) : Prop :=
  ∃ fb', P.lcdDrawchars x y str fb = .ok fb' ∧
    (∀ i c, str[i]? = some c → ∀ b < 8, ∀ r < 16, P.pixel fb' (x + 8 * i + b) (y + r) =
      if (P.fontdata c r).getMsbD b then P.fg.bit else P.bg.bit) ∧
    ∀ x' < 8 * P.lineLength, ∀ y', ¬ (x ≤ x' ∧ x' < x + 8 * str.length ∧ y ≤ y' ∧ y' < y + 16) →
      P.pixel fb' x' y' = P.pixel fb x' y'

theorem not_draws_of_end (hx : x + 8 * str.length = 8 * P.lineLength)
    (hy : y + 16 = P.rows) : ¬ P.Draws x y str fb := by
  rintro ⟨fb', hdraw, -⟩
  have hend : y * P.lineLength + x / 8 + 15 * P.lineLength + str.length =
      P.lineLength * P.rows := by
    rw [← hy, Nat.mul_comm P.lineLength, Nat.add_mul]
    omega
  unfold lcdDrawchars at hdraw
  rw [drawRows_error (Nat.mod_lt x (by omega)) hend] at hdraw
  cases hdraw

/-- A text is drawn right exactly when it does not end at the last pixel of the frame. -/
theorem draws_iff (hin : P.Inside x y str) :
    P.Draws x y str fb ↔ ¬ (x + 8 * str.length = 8 * P.lineLength ∧ y + 16 = P.rows) := by
  refine ⟨fun h hend => not_draws_of_end hend.1 hend.2 h, fun hend => ?_⟩
  have hline := P.line_pos
  have hwidth := hin.width
  have hle (a b : ℕ) (hab : a < b) : a * P.lineLength + P.lineLength ≤ b * P.lineLength := by
    rw [← Nat.succ_mul]
    exact Nat.mul_le_mul_right _ hab
  have hstart (r : ℕ) : 8 * (y * P.lineLength + x / 8 + r * P.lineLength) + x % 8 =
      8 * ((y + r) * P.lineLength) + x := by
    rw [Nat.add_mul]
    omega
  obtain ⟨fb', hdraw, htext, hkept⟩ := drawRows_spec fb 0 (y * P.lineLength + x / 8) 16
    (Nat.mod_lt x (by omega)) (show _ + 8 * str.length ≤ _ by omega) fun r hr => by
      rw [Nat.mul_comm P.lineLength]
      have hrow := hle (y + r) (y + 16) (by omega)
      rw [Nat.add_mul y r] at hrow
      rcases Nat.eq_or_lt_of_le hin.height with heq | hlt
      · rw [← heq]
        omega
      · have hlast := hle (y + 16) P.rows hlt
        omega
  refine ⟨fb', hdraw, fun i c hc b hb r hr => ?_, fun x' hx' y' hout => ?_⟩
  · obtain ⟨hi, hget⟩ := List.getElem?_eq_some_iff.1 hc
    have hbit := htext r hr (8 * i + b) (by omega)
    have hquot : (8 * i + b) / 8 = i := by omega
    have hrem : (8 * i + b) % 8 = b := by omega
    rw [hstart, hquot, hrem, Nat.zero_add, List.getD_eq_getElem _ _ (by rwa [List.length_map]),
      List.getElem_map, hget, sym_bit _ hb] at hbit
    unfold pixel
    rw [← hbit]
    congr 1
    omega
  · refine hkept _ fun r hr hq => hout ?_
    rw [hstart] at hq
    rcases Nat.lt_trichotomy y' (y + r) with hlt | heq | hgt
    · have hbelow := hle y' (y + r) hlt
      omega
    · subst heq
      omega
    · have habove := hle (y + r) y' hgt
      omega

theorem draws_middle :
    (Panel.mk 40 240 (Nat.succ_pos 39) .black .white fun _ _ => 0x7e).Draws 5 7 [65, 66]
      ⟨fun _ => 0⟩ :=
  (draws_iff ⟨by decide, by decide⟩).2 (by decide)

/-- The last character of the last line. -/
theorem not_draws_corner :
    ¬ (Panel.mk 40 240 (Nat.succ_pos 39) .black .white fun _ _ => 0x7e).Draws 312 224 [65]
      ⟨fun _ => 0⟩ :=
  not_draws_of_end (by decide) (by decide)

end Panel

end UBoot.Lcd
