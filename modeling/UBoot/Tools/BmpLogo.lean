import Mathlib.Tactic
import UBoot.Lib.Buf
import UBoot.Lib.Bytes
import UBoot.Lib.CInt

/-!
# The converter of the logo (`tools/bmp_logo.c`)

The file is read from the front to the end, and the rows are placed from the last one up. What is
printed is the header, the palette and the bitmap.
-/

namespace UBoot.BmpLogo

open UBoot.Lib

def DEFAULT_CMAP_SIZE : ℕ := 16

def fgetc : List UInt8 → ℤ × List UInt8
  | [] => (-1, [])
  | c :: file => (c.toNat, file)

/-- The conversion to `uint8_t`. -/
def uint8 (z : ℤ) : UInt8 := UInt8.ofNat (z % 256).toNat

/-- The conversion to `uint16_t`. -/
def uint16 (z : ℤ) : ℕ := (z % 2 ^ 16).toNat

/-- `fread` of a `uint16_t`, which keeps what the file is too short for. -/
def fread16 (old : UInt8 × UInt8) : List UInt8 → (UInt8 × UInt8) × List UInt8
  | a :: b :: file => ((a, b), file)
  | [a] => ((a, old.2), [])
  | [] => (old, [])

def leShort (p : UInt8 × UInt8) : ℕ := p.1.toNat ||| p.2.toNat <<< 8

/-- The machine that the tool runs on: what the variables hold at first, the size of a `size_t` and
what `malloc` grants, with what the memory holds. -/
structure Host where
  width : UInt8 × UInt8
  height : UInt8 × UInt8
  nColors : UInt8 × UInt8
  sizeBits : ℕ
  le_sizeBits : 32 ≤ sizeBits
  malloc : ℕ → Option (ℕ → UInt8)

def Host.size (host : Host) (w h : ℕ) : ℕ := (int32 (w * h) % 2 ^ host.sizeBits).toNat

/-- What is printed: `palette` has the digits for R, G and B. -/
structure Output where
  width : ℕ
  height : ℕ
  colors : ℕ
  palette : List (UInt8 × UInt8 × UInt8)
  bitmap : List UInt8
  deriving DecidableEq

inductive Outcome where
  | notBitmap
  | noMemory
  | done (output : Output)
  deriving DecidableEq

def nibble (c : UInt8) : UInt8 := (c >>> 4) &&& 0x0f

/-- The loop over the palette; an entry is B, G, R and a byte that is not used. -/
def readPalette : ℕ → List UInt8 → List (UInt8 × UInt8 × UInt8) × List UInt8
  | 0, file => ([], file)
  | n + 1, file =>
    let (b, file) := fgetc file
    let (g, file) := fgetc file
    let (r, file) := fgetc file
    let (_, file) := fgetc file
    let (palette, file) := readPalette n file
    ((nibble (uint8 r), nibble (uint8 g), nibble (uint8 b)) :: palette, file)

section
variable {n : ℕ}

/-- The loop over the pixels of a row, for `k` more. -/
def readRow (i : ℕ) : ℕ → ℕ → List UInt8 → Buf UInt8 n → Except Oob (List UInt8 × Buf UInt8 n)
  | 0, _, file, data => .ok (file, data)
  | k + 1, x, file, data => do
    let (c, file) := fgetc file
    let data ← data.store (i + x) [uint8 c + UInt8.ofNat DEFAULT_CMAP_SIZE]
    readRow i k (x + 1) file data

/-- The loop over the rows; `none` while it still runs. -/
def readRows (w : ℕ) : ℕ → ℤ → List UInt8 → Buf UInt8 n → Except Oob (Option (Buf UInt8 n))
  | 0, _, _, _ => .ok none
  | fuel + 1, i, file, data =>
    if 0 ≤ i then do
      let (file, data) ← readRow (uint16 i) w 0 file data
      readRows w fuel (i - w) file data
    else .ok (some data)

end

def colors (n : ℕ) : ℕ :=
  if n = 0 ∨ 256 - DEFAULT_CMAP_SIZE < n then 256 - DEFAULT_CMAP_SIZE else n

/-- `main` behind the header of the file. -/
def convert (host : Host) (w h n : ℕ) (file : List UInt8) (fuel : ℕ) :
    Except Oob (Option Outcome) :=
  match host.malloc (host.size w h) with
  | none => .ok (some .noMemory)
  | some bytes => do
    let (palette, file) := readPalette (colors n) file
    let data : Buf UInt8 (host.size w h) := ⟨bytes⟩
    match ← readRows w fuel (int32 ((h - 1) * w)) file data with
    | none => return none
    | some data =>
      let bitmap ← data.load 0 (int32 (h * w)).toNat
      return some (.done ⟨w, h, colors n, palette, bitmap⟩)

/-- The fields of the header that are read, and the file behind it. -/
def readHeader (host : Host) (file : List UInt8) : ℕ × ℕ × ℕ × List UInt8 :=
  let (width, file) := fread16 host.width (file.drop 16)
  let (height, file) := fread16 host.height (file.drop 2)
  let (nColors, file) := fread16 host.nColors (file.drop 22)
  (leShort width, leShort height, leShort nColors, file.drop 6)

/-- `main`, with a file that can be opened. -/
def bmpLogo (host : Host) (file : List UInt8) (fuel : ℕ) : Except Oob (Option Outcome) :=
  let (c, file) := fgetc file
  if c ≠ 'B'.toNat then .ok (some .notBitmap)
  else
    let (c, file) := fgetc file
    if c ≠ 'M'.toNat then .ok (some .notBitmap)
    else
      let (w, h, n, file) := readHeader host file
      convert host w h n file fuel

/-! ### The rows -/

theorem fgetc_eq (file : List UInt8) :
    uint8 (fgetc file).1 = file.getD 0 255 ∧ (fgetc file).2 = file.drop 1 := by
  cases file with
  | nil => exact ⟨rfl, rfl⟩
  | cons c file =>
    refine ⟨?_, rfl⟩
    have hlt := c.toNat_lt
    have hmod : ((c.toNat : ℤ) % 256).toNat = c.toNat := by omega
    change UInt8.ofNat ((c.toNat : ℤ) % 256).toNat = c
    rw [hmod]
    exact UInt8.ofNat_toNat

variable {n : ℕ} {data : Buf UInt8 n} {file : List UInt8} {i k x w : ℕ}

theorem readRow_spec (file : List UInt8) (data : Buf UInt8 n) (hn : i + x + k ≤ n) :
    ∃ data', readRow i k x file data = .ok (file.drop k, data') ∧ ∀ j,
      data'.get j = if i + x ≤ j ∧ j < i + x + k then file.getD (j - (i + x)) 255 + 16
        else data.get j := by
  induction k generalizing x file data with
  | zero => exact ⟨data, rfl, fun j => by rw [if_neg (by omega)]⟩
  | succ k ih =>
    obtain ⟨hbyte, hrest⟩ := fgetc_eq file
    have hstore : data.store (i + x) [uint8 (fgetc file).1 + UInt8.ofNat DEFAULT_CMAP_SIZE] =
        .ok (data.put (i + x) [file.getD 0 255 + 16]) := by
      rw [hbyte]
      exact if_pos (by rw [List.length_singleton]; omega)
    obtain ⟨data', hread, hget⟩ := ih (x := x + 1) (file.drop 1)
      (data.put (i + x) [file.getD 0 255 + 16]) (by omega)
    rw [List.drop_drop, Nat.add_comm 1 k] at hread
    refine ⟨data', ?_, fun j => ?_⟩
    · unfold readRow
      dsimp only
      rw [hstore, ok_bind, hrest]
      exact hread
    · rw [hget]
      rcases Nat.lt_trichotomy j (i + x) with hlt | heq | hgt
      · rw [if_neg (by omega), if_neg (by omega), Buf.get_put_of_lt hlt]
      · subst heq
        have hput : (data.put (i + x) [file.getD 0 255 + 16]).get (i + x + 0) =
            file.getD 0 255 + 16 := Buf.get_put (by simp)
        rw [if_neg (by omega), if_pos (by omega), Nat.sub_self]
        exact hput
      · have hindex : 1 + (j - (i + (x + 1))) = j - (i + x) := by omega
        rw [Buf.get_put_of_ge (by rw [List.length_singleton]; omega), List.getD_eq_getElem?_getD,
          List.getD_eq_getElem?_getD, List.getElem?_drop, hindex]
        split_ifs with hnext hthis hthis
        · rfl
        · omega
        · omega
        · rfl

theorem uint16_natCast (m : ℕ) : uint16 m = m % 2 ^ 16 := by
  unfold uint16
  omega

theorem readRows_step (file : List UInt8) (data : Buf UInt8 n) {r : ℕ} (fuel : ℕ)
    (hn : r * w % 2 ^ 16 + w ≤ n) :
    ∃ data', readRows w (fuel + 1) (r * w : ℕ) file data =
        readRows w fuel ((r * w : ℕ) - w) (file.drop w) data' ∧
      ∀ j, data'.get j = if r * w % 2 ^ 16 ≤ j ∧ j < r * w % 2 ^ 16 + w then
        file.getD (j - r * w % 2 ^ 16) 255 + 16 else data.get j := by
  obtain ⟨data', hread, hget⟩ := readRow_spec (i := r * w % 2 ^ 16) (x := 0) (k := w) file data hn
  refine ⟨data', ?_, hget⟩
  rw [readRows, if_pos (Int.natCast_nonneg _), uint16_natCast, hread]
  rfl

/-- The rows from `k` down to 0: what lies in none of their places stays, and without an overflow
of the `uint16_t` each of them gets the bytes that follow. -/
theorem readRows_spec (file : List UInt8) (data : Buf UInt8 n) (hw : 0 < w) {fuel : ℕ}
    (hfuel : k + 1 < fuel) (hn : ∀ r ≤ k, r * w % 2 ^ 16 + w ≤ n) :
    ∃ data', readRows w fuel (k * w : ℕ) file data = .ok (some data') ∧
      (∀ j, (∀ r ≤ k, ¬ (r * w % 2 ^ 16 ≤ j ∧ j < r * w % 2 ^ 16 + w)) →
        data'.get j = data.get j) ∧
      (k * w < 2 ^ 16 → ∀ r ≤ k, ∀ x < w,
        data'.get (r * w + x) = file.getD ((k - r) * w + x) 255 + 16) := by
  induction k generalizing fuel file data with
  | zero =>
    obtain ⟨fuel, rfl⟩ : ∃ fuel', fuel = fuel' + 1 + 1 := ⟨fuel - 2, by omega⟩
    obtain ⟨data', hrow, hget⟩ := readRows_step file data (fuel + 1) (hn 0 (le_refl 0))
    refine ⟨data', ?_, fun j hj => ?_, fun _ r hr x hx => ?_⟩
    · rw [hrow, readRows, if_neg (by omega)]
    · rw [hget, if_neg (hj 0 (le_refl 0))]
    · obtain rfl := Nat.le_zero.1 hr
      rw [hget, if_pos (by omega)]
      simp
  | succ k ih =>
    obtain ⟨fuel, rfl⟩ : ∃ fuel', fuel = fuel' + 1 := ⟨fuel - 1, by omega⟩
    obtain ⟨data₁, hrow, hget₁⟩ := readRows_step file data fuel (hn (k + 1) (le_refl _))
    obtain ⟨data', hread, hkept, htext⟩ := ih (file.drop w) data₁ (by omega : k + 1 < fuel)
      fun r hr => hn r (by omega)
    have hnext : (((k + 1) * w : ℕ) : ℤ) - w = (k * w : ℕ) := by
      rw [Nat.succ_mul]
      omega
    refine ⟨data', ?_, fun j hj => ?_, fun hfit r hr x hx => ?_⟩
    · rw [hrow, hnext]
      exact hread
    · rw [hkept j fun r hr => hj r (by omega), hget₁, if_neg (hj (k + 1) (le_refl _))]
    · have hless (a b : ℕ) (hab : a < b) : a * w + w ≤ b * w := by
        rw [← Nat.succ_mul]
        exact Nat.mul_le_mul_right w hab
      have hmod (r : ℕ) (hr : r ≤ k + 1) : r * w % 2 ^ 16 = r * w :=
        Nat.mod_eq_of_lt ((Nat.mul_le_mul_right w hr).trans_lt hfit)
      have hstep := hless k (k + 1) (by omega)
      rcases Nat.eq_or_lt_of_le hr with rfl | hlt
      · -- the first of the rows is not written again
        rw [hkept _ fun r hr => by
          rw [hmod r (by omega)]
          have hbelow := hless r (k + 1) (by omega)
          omega, hget₁, hmod _ (le_refl _), if_pos (by omega)]
        simp
      · have hindex : w + ((k - r) * w + x) = (k + 1 - r) * w + x := by
          rw [Nat.sub_add_comm (by omega : r ≤ k), Nat.succ_mul]
          omega
        rw [htext (by omega) r (by omega) x hx, List.getD_eq_getElem?_getD,
          List.getD_eq_getElem?_getD, List.getElem?_drop, hindex]

/-- Whatever the fuel, the places of the rows are all that has to be there. -/
theorem readRows_ok (file : List UInt8) (data : Buf UInt8 n) (fuel : ℕ)
    (hn : ∀ r ≤ k, r * w % 2 ^ 16 + w ≤ n) :
    ∃ o, readRows w fuel (k * w : ℕ) file data = .ok o := by
  induction fuel generalizing k file data with
  | zero => exact ⟨none, rfl⟩
  | succ fuel ih =>
    obtain ⟨data₁, hrow, -⟩ := readRows_step file data fuel (hn k (le_refl k))
    rw [hrow]
    cases k with
    | zero =>
      rcases Nat.eq_zero_or_pos w with rfl | hw
      · exact ih (k := 0) _ _ hn
      · cases fuel with
        | zero => exact ⟨none, rfl⟩
        | succ fuel => exact ⟨some data₁, by rw [readRows, if_neg (by omega)]⟩
    | succ k =>
      have hnext : (((k + 1) * w : ℕ) : ℤ) - w = (k * w : ℕ) := by
        rw [Nat.succ_mul]
        omega
      rw [hnext]
      exact ih _ _ fun r hr => hn r (by omega)

theorem readRows_zero (file : List UInt8) (data : Buf UInt8 n) (fuel : ℕ) :
    readRows 0 fuel 0 file data = .ok none := by
  induction fuel generalizing file data with
  | zero => rfl
  | succ fuel ih => exact ih file data

theorem readRows_mono {fuel fuel' : ℕ} {i : ℤ} {r : Buf UInt8 n} (hle : fuel ≤ fuel')
    (h : readRows w fuel i file data = .ok (some r)) :
    readRows w fuel' i file data = .ok (some r) := by
  induction fuel generalizing fuel' i file data with
  | zero => cases h
  | succ fuel ih =>
    obtain ⟨fuel', rfl⟩ : ∃ m, fuel' = m + 1 := ⟨fuel' - 1, by omega⟩
    rw [readRows] at h ⊢
    split_ifs at h ⊢ with hi
    · obtain ⟨p, hp, hrest⟩ := bind_eq_ok.1 h
      rw [hp, ok_bind]
      exact ih (by omega) hrest
    · exact h

end UBoot.BmpLogo
