import UBoot.Tools.BmpLogo

/-!
# The bitmaps that the logo is made of

A file is right for the converter when its rows need no padding or there is only one, when the
header says how many colours there are and the converter has room for them, and when the row that
is read first starts below 65536. Every file ends, but for those of no width.
-/

namespace UBoot.BmpLogo

open UBoot.Lib

structure RgbQuad where
  blue : UInt8
  green : UInt8
  red : UInt8
  reserved : UInt8

def RgbQuad.bytes (q : RgbQuad) : List UInt8 := [q.blue, q.green, q.red, q.reserved]

def RgbQuad.nibbles (q : RgbQuad) : UInt8 × UInt8 × UInt8 := (q.red / 16, q.green / 16, q.blue / 16)

/-- The entries of the palette, with `c` for `biClrUsed`. -/
def entries (c : ℕ) : ℕ := if c = 0 then 256 else c

def padding (w : ℕ) : ℕ := (4 - w % 4) % 4

def le16 (n : ℕ) : List UInt8 := [UInt8.ofNat n, UInt8.ofNat (n / 2 ^ 8)]

def le32 (n : ℕ) : List UInt8 := le16 n ++ le16 (n / 2 ^ 16)

/-- An uncompressed bitmap of 8 bits a pixel, `w` pixels wide and `h` high. -/
structure Bmp (w h c : ℕ) where
  imageSize : ℕ
  xPelsPerMeter : ℕ
  yPelsPerMeter : ℕ
  clrImportant : ℕ
  palette : List RgbQuad
  palette_length : palette.length = entries c
  /-- Column and row from the top. -/
  pixel : ℕ → ℕ → UInt8
  pixel_lt : ∀ x < w, ∀ y < h, (pixel x y).toNat < colors c
  pad : ℕ → ℕ → UInt8

structure Shape (w h c : ℕ) : Prop where
  width_pos : 1 ≤ w
  width_le : w ≤ 65535
  height_pos : 1 ≤ h
  height_le : h ≤ 65535
  area_lt : w * h < 2 ^ 31
  colors_le : c ≤ 256

variable {w h c : ℕ}

def Bmp.row (bmp : Bmp w h c) (y : ℕ) : List UInt8 :=
  (List.range w).map (bmp.pixel · y) ++ (List.range (padding w)).map (bmp.pad · y)

def Bmp.rows (bmp : Bmp w h c) : List UInt8 :=
  (List.range h).flatMap fun k => bmp.row (h - 1 - k)

def Bmp.header (bmp : Bmp w h c) : List UInt8 :=
  [66, 77] ++ le32 (54 + 4 * entries c + h * (w + padding w)) ++ le32 0 ++
    le32 (54 + 4 * entries c) ++ le32 40 ++ le32 w ++ le32 h ++ le16 1 ++ le16 8 ++ le32 0 ++
    le32 bmp.imageSize ++ le32 bmp.xPelsPerMeter ++ le32 bmp.yPelsPerMeter ++ le32 c ++
    le32 bmp.clrImportant

def Bmp.bytes (bmp : Bmp w h c) : List UInt8 :=
  bmp.header ++ (bmp.palette.flatMap RgbQuad.bytes ++ bmp.rows)

structure Bmp.Shows (bmp : Bmp w h c) (output : Output) : Prop where
  width : output.width = w
  height : output.height = h
  bitmap_length : output.bitmap.length = w * h
  bitmap : ∀ x < w, ∀ y < h, output.bitmap[y * w + x]? = some (bmp.pixel x y + 16)
  palette : output.palette = bmp.palette.map RgbQuad.nibbles

/-- The bitmaps of a size are converted, wherever the memory for it is there. -/
def Faithful (w h c : ℕ) : Prop :=
  ∀ (bmp : Bmp w h c) (host : Host), (host.malloc (host.size w h)).isSome →
    ∃ fuel output, bmpLogo host bmp.bytes fuel = .ok (some (.done output)) ∧ bmp.Shows output

/-! ### The file -/

theorem leShort_le16 {n : ℕ} (hn : n ≤ 65535) :
    leShort (UInt8.ofNat n, UInt8.ofNat (n / 2 ^ 8)) = n := by
  unfold leShort
  dsimp only
  rw [UInt8.toNat_ofNat', UInt8.toNat_ofNat', Nat.or_comm,
    ← Nat.shiftLeft_add_eq_or_of_lt (Nat.mod_lt _ (by decide)), Nat.shiftLeft_eq]
  omega

theorem nibble_eq (b : UInt8) : nibble b = b / 16 := by
  apply UInt8.toNat_inj.1
  unfold nibble
  have hshift : (b >>> 4).toNat = b.toNat / 16 := by
    rw [UInt8.toNat_shiftRight, Nat.shiftRight_eq_div_pow]
    rfl
  have hmask : b.toNat / 16 &&& 15 = b.toNat / 16 % 2 ^ 4 := Nat.and_two_pow_sub_one_eq_mod _ 4
  have hlt := b.toNat_lt
  rw [UInt8.toNat_and, hshift, UInt8.toNat_div]
  exact hmask.trans (Nat.mod_eq_of_lt (by omega))

theorem readPalette_length (n : ℕ) (file : List UInt8) : (readPalette n file).1.length = n := by
  induction n generalizing file with
  | zero => rfl
  | succ n ih => exact congrArg Nat.succ (ih _)

theorem readPalette_spec (palette : List RgbQuad) (file : List UInt8) :
    readPalette palette.length (palette.flatMap RgbQuad.bytes ++ file) =
      (palette.map RgbQuad.nibbles, file) := by
  induction palette with
  | nil => rfl
  | cons q palette ih =>
    have hbyte (b : UInt8) : uint8 (b.toNat : ℤ) = b := (fgetc_eq [b]).1
    rw [List.length_cons, List.flatMap_cons, List.append_assoc, List.map_cons, RgbQuad.nibbles]
    change ((nibble (uint8 q.red.toNat), nibble (uint8 q.green.toNat),
        nibble (uint8 q.blue.toNat)) ::
          (readPalette palette.length (palette.flatMap RgbQuad.bytes ++ file)).1,
      (readPalette palette.length (palette.flatMap RgbQuad.bytes ++ file)).2) = _
    rw [ih, hbyte, hbyte, hbyte, nibble_eq, nibble_eq, nibble_eq]

theorem getElem?_flatMap_range {α : Type*} {f : ℕ → List α} {n k x : ℕ}
    (hf : ∀ k, (f k).length = n) (hk : k < h) (hx : x < n) :
    ((List.range h).flatMap f)[k * n + x]? = (f k)[x]? := by
  induction h with
  | zero => omega
  | succ h ih =>
    have hlen : ((List.range h).flatMap f).length = h * n := by
      rw [List.length_flatMap, List.map_congr_left fun k _ => hf k, List.map_const',
        List.sum_replicate, List.length_range, smul_eq_mul]
    rw [List.range_succ, List.flatMap_append, List.flatMap_singleton]
    rcases Nat.lt_or_eq_of_le (Nat.le_of_lt_succ hk) with hlt | rfl
    · have hin : k * n + n ≤ h * n := by
        rw [← Nat.succ_mul]
        exact Nat.mul_le_mul_right n hlt
      rw [List.getElem?_append_left (by omega)]
      exact ih hlt
    · rw [List.getElem?_append_right (by omega), hlen, Nat.add_sub_cancel_left]

theorem Bmp.row_length (bmp : Bmp w h c) (y : ℕ) : (bmp.row y).length = w + padding w := by
  simp [Bmp.row]

theorem Bmp.rows_pixel (bmp : Bmp w h c) {x k : ℕ} (hx : x < w) (hk : k < h) :
    bmp.rows[k * (w + padding w) + x]? = some (bmp.pixel x (h - 1 - k)) := by
  rw [Bmp.rows, getElem?_flatMap_range (fun k => bmp.row_length _) hk (by omega), Bmp.row,
    List.getElem?_append_left (by simpa using hx), List.getElem?_map, List.getElem?_range hx]
  rfl

theorem Bmp.rows_pad (bmp : Bmp w h c) (hh : 0 < h) (hpad : 0 < padding w) :
    bmp.rows[w]? = some (bmp.pad 0 (h - 1)) := by
  have hfirst := getElem?_flatMap_range (x := w) (fun k => bmp.row_length (h - 1 - k)) hh
    (by omega)
  rw [Nat.zero_mul, Nat.zero_add] at hfirst
  rw [Bmp.rows, hfirst, Bmp.row, List.getElem?_append_right (by simp), List.getElem?_map,
    List.length_map, List.length_range, Nat.sub_self, List.getElem?_range hpad]
  rfl

theorem readHeader_fields (host : Host) (a b n : ℕ) (front first second third : List UInt8)
    (file : List UInt8) (hfront : front.length = 16) (hfirst : first.length = 2)
    (hsecond : second.length = 22) (hthird : third.length = 6) :
    readHeader host (front ++ (le16 a ++ (first ++ (le16 b ++ (second ++ (le16 n ++
        (third ++ file))))))) =
      (leShort (UInt8.ofNat a, UInt8.ofNat (a / 2 ^ 8)),
        leShort (UInt8.ofNat b, UInt8.ofNat (b / 2 ^ 8)),
        leShort (UInt8.ofNat n, UInt8.ofNat (n / 2 ^ 8)), file) := by
  have hread (old : UInt8 × UInt8) (n : ℕ) (file : List UInt8) : fread16 old (le16 n ++ file) =
      ((UInt8.ofNat n, UInt8.ofNat (n / 2 ^ 8)), file) := rfl
  rw [readHeader, List.drop_left' hfront, hread]
  dsimp only
  rw [List.drop_left' hfirst, hread]
  dsimp only
  rw [List.drop_left' hsecond, hread]
  dsimp only
  rw [List.drop_left' hthird]

theorem bmpLogo_bytes (hs : Shape w h c) (bmp : Bmp w h c) (host : Host) (fuel : ℕ) :
    bmpLogo host bmp.bytes fuel =
      convert host w h c (bmp.palette.flatMap RgbQuad.bytes ++ bmp.rows) fuel := by
  have hcolors := hs.colors_le
  have hmagic (file : List UInt8) : bmpLogo host (66 :: 77 :: file) fuel =
      convert host (readHeader host file).1 (readHeader host file).2.1
        (readHeader host file).2.2.1 (readHeader host file).2.2.2 fuel := rfl
  have hfields := readHeader_fields host w h c
    (le32 (54 + 4 * entries c + h * (w + padding w)) ++ le32 0 ++ le32 (54 + 4 * entries c) ++
      le32 40)
    (le16 (w / 2 ^ 16))
    (le16 (h / 2 ^ 16) ++ le16 1 ++ le16 8 ++ le32 0 ++ le32 bmp.imageSize ++
      le32 bmp.xPelsPerMeter ++ le32 bmp.yPelsPerMeter)
    (le16 (c / 2 ^ 16) ++ le32 bmp.clrImportant)
    (bmp.palette.flatMap RgbQuad.bytes ++ bmp.rows) rfl rfl rfl rfl
  rw [leShort_le16 hs.width_le, leShort_le16 hs.height_le, leShort_le16 (by omega)] at hfields
  rw [Bmp.bytes, Bmp.header, le32.eq_def w, le32.eq_def h, le32.eq_def c]
  simp only [List.append_assoc, List.cons_append, List.nil_append] at hfields ⊢
  rw [hmagic, hfields]

/-! ### The conversion -/

theorem Host.size_eq (host : Host) (ha : w * h < 2 ^ 31) : host.size w h = w * h := by
  have hbits : 2 ^ 32 ≤ 2 ^ host.sizeBits := Nat.pow_le_pow_right (by decide) host.le_sizeBits
  have hint : int32 (w * h) = (w * h : ℕ) := int32_of_lt (z := (w * h : ℕ)) (by omega) (by omega)
  have hlt : ((w * h : ℕ) : ℤ) < 2 ^ host.sizeBits := by
    rw [← Nat.cast_ofNat, ← Nat.cast_pow, Nat.cast_lt]
    omega
  rw [Host.size, hint, Int.emod_eq_of_lt (Int.natCast_nonneg _) hlt, Int.toNat_natCast]

/-- The entries that no row covers are what the memory held; without an overflow of the `uint16_t`
the others are what the file has behind the palette, row by row. -/
theorem convert_spec (hw : 0 < w) (hh : 0 < h) (ha : w * h < 2 ^ 31) {host : Host}
    {bytes : ℕ → UInt8} (hm : host.malloc (host.size w h) = some bytes) (file : List UInt8)
    {fuel : ℕ} (hfuel : h < fuel) :
    ∃ bitmap : List UInt8,
      convert host w h c file fuel =
        .ok (some (.done ⟨w, h, colors c, (readPalette (colors c) file).1, bitmap⟩)) ∧
      bitmap.length = w * h ∧
      (∀ j < w * h, (∀ r < h, ¬ (r * w % 2 ^ 16 ≤ j ∧ j < r * w % 2 ^ 16 + w)) →
        bitmap[j]? = some (bytes j)) ∧
      ((h - 1) * w < 2 ^ 16 → ∀ r < h, ∀ x < w, bitmap[r * w + x]? =
        some ((readPalette (colors c) file).2.getD ((h - 1 - r) * w + x) 255 + 16)) := by
  obtain ⟨k, rfl⟩ : ∃ k, h = k + 1 := ⟨h - 1, by omega⟩
  have hsize := host.size_eq ha
  have hin (r : ℕ) (hr : r ≤ k) : r * w + w ≤ w * (k + 1) := by
    rw [← Nat.succ_mul, Nat.mul_comm w]
    exact Nat.mul_le_mul_right w (by omega)
  obtain ⟨data, hrows, hkept, htext⟩ := readRows_spec (readPalette (colors c) file).2
    (⟨bytes⟩ : Buf UInt8 (host.size w (k + 1))) hw hfuel fun r hr => by
      have := hin r hr
      have := Nat.mod_le (r * w) (2 ^ 16)
      omega
  have hlast : int32 (((k + 1 : ℕ) - 1) * w) = (k * w : ℕ) := by
    have := hin k (le_refl k)
    rw [Nat.cast_add_one, add_sub_cancel_right, ← Nat.cast_mul]
    exact int32_of_lt (by omega) (by omega)
  have harea : (int32 ((k + 1 : ℕ) * w)).toNat = w * (k + 1) := by
    rw [← Nat.cast_mul, Nat.mul_comm, int32_of_lt (by omega) (by omega), Int.toNat_natCast]
  refine ⟨data.slice 0 (w * (k + 1)), ?_, Buf.slice_length, fun j hj hout => ?_,
    fun hfit r hr x hx => ?_⟩
  · rw [convert, hm]
    dsimp only
    rw [hlast, hrows, ok_bind]
    dsimp only
    rw [harea, Buf.load, if_pos (by omega)]
    rfl
  · rw [Buf.getElem?_slice hj, Nat.zero_add, hkept j fun r hr => hout r (by omega)]
  · have := hin r (by omega)
    rw [Buf.getElem?_slice (by omega), Nat.zero_add, htext hfit r (by omega) x hx]
    rfl

theorem convert_mono {host : Host} {file : List UInt8} {fuel fuel' : ℕ} {o : Outcome}
    (hle : fuel ≤ fuel') (h' : convert host w h c file fuel = .ok (some o)) :
    convert host w h c file fuel' = .ok (some o) := by
  rw [convert] at h' ⊢
  cases hm : host.malloc (host.size w h) with
  | none => rwa [hm] at h'
  | some bytes =>
    rw [hm] at h'
    dsimp only at h' ⊢
    obtain ⟨d, hrows, hrest⟩ := bind_eq_ok.1 h'
    cases d with
    | none => cases hrest
    | some data =>
      rw [readRows_mono hle hrows, ok_bind]
      exact hrest

theorem bmpLogo_spec (hs : Shape w h c) (bmp : Bmp w h c) (host : Host) {bytes : ℕ → UInt8}
    (hm : host.malloc (host.size w h) = some bytes) :
    ∃ output : Output, bmpLogo host bmp.bytes (h + 1) = .ok (some (.done output)) ∧
      output.width = w ∧ output.height = h ∧
      output.palette = (readPalette (colors c)
        (bmp.palette.flatMap RgbQuad.bytes ++ bmp.rows)).1 ∧
      output.bitmap.length = w * h ∧
      (∀ j < w * h, (∀ r < h, ¬ (r * w % 2 ^ 16 ≤ j ∧ j < r * w % 2 ^ 16 + w)) →
        output.bitmap[j]? = some (bytes j)) ∧
      ((h - 1) * w < 2 ^ 16 → ∀ r < h, ∀ x < w, output.bitmap[r * w + x]? =
        some ((readPalette (colors c) (bmp.palette.flatMap RgbQuad.bytes ++ bmp.rows)).2.getD
          ((h - 1 - r) * w + x) 255 + 16)) := by
  obtain ⟨bitmap, hrun, hrest⟩ := convert_spec (c := c) hs.width_pos hs.height_pos hs.area_lt hm
    (bmp.palette.flatMap RgbQuad.bytes ++ bmp.rows) (Nat.lt_succ_self h)
  refine ⟨_, (bmpLogo_bytes hs bmp host (h + 1)).trans hrun, rfl, rfl, rfl, hrest⟩

theorem Faithful.shows (hf : Faithful w h c) (hs : Shape w h c) (bmp : Bmp w h c) {host : Host}
    {bytes : ℕ → UInt8} (hm : host.malloc (host.size w h) = some bytes) {output : Output}
    (hrun : bmpLogo host bmp.bytes (h + 1) = .ok (some (.done output))) : bmp.Shows output := by
  obtain ⟨fuel, output', hrun', hshows⟩ := hf bmp host (by rw [hm]; rfl)
  rw [bmpLogo_bytes hs] at hrun hrun'
  have hone := (convert_mono (le_max_left (h + 1) fuel) hrun).symm.trans
    (convert_mono (le_max_right (h + 1) fuel) hrun')
  cases hone
  exact hshows

/-! ### The bitmaps that are converted -/

theorem entries_eq_colors (hroom : 1 ≤ c ∧ c ≤ 240) : entries c = colors c := by
  unfold entries colors DEFAULT_CMAP_SIZE
  rw [if_neg (by omega), if_neg (by omega)]

theorem Bmp.readPalette_eq (bmp : Bmp w h c) (hroom : 1 ≤ c ∧ c ≤ 240) :
    readPalette (colors c) (bmp.palette.flatMap RgbQuad.bytes ++ bmp.rows) =
      (bmp.palette.map RgbQuad.nibbles, bmp.rows) := by
  rw [← entries_eq_colors hroom, ← bmp.palette_length]
  exact readPalette_spec bmp.palette bmp.rows

theorem faithful_of (hs : Shape w h c) (hpad : w % 4 = 0 ∨ h = 1) (hroom : 1 ≤ c ∧ c ≤ 240)
    (hfit : (h - 1) * w < 2 ^ 16) : Faithful w h c := by
  intro bmp host hm
  obtain ⟨bytes, hm⟩ := Option.isSome_iff_exists.1 hm
  obtain ⟨output, hrun, hwidth, hheight, hpalette, hlength, -, hbitmap⟩ :=
    bmpLogo_spec hs bmp host hm
  rw [bmp.readPalette_eq hroom] at hpalette hbitmap
  refine ⟨h + 1, output, hrun, hwidth, hheight, hlength, fun x hx y hy => ?_, hpalette⟩
  -- a row of the file is as long as one of the image, or there is one row
  have hplace : (h - 1 - y) * w = (h - 1 - y) * (w + padding w) := by
    rcases hpad with hfour | rfl
    · rw [padding, hfour]
      rfl
    · obtain rfl := Nat.lt_one_iff.1 hy
      exact (Nat.zero_mul w).trans (Nat.zero_mul (w + padding w)).symm
  have hpixel := bmp.rows_pixel (k := h - 1 - y) hx (by omega)
  rw [hbitmap hfit y hy x hx, hplace, List.getD_eq_getElem?_getD, hpixel,
    (by omega : h - 1 - (h - 1 - y) = y)]
  rfl

/-- A bitmap of one colour, with other bytes for the padding. -/
def plain (w h c : ℕ) : Bmp w h c where
  imageSize := 0
  xPelsPerMeter := 0
  yPelsPerMeter := 0
  clrImportant := 0
  palette := List.replicate (entries c) ⟨0, 0, 0, 0⟩
  palette_length := List.length_replicate
  pixel _ _ := 0
  pixel_lt _ _ _ _ := by
    unfold colors
    split_ifs with hfull
    · decide
    · change 0 < c
      omega
  pad _ _ := 1

/-- A machine of 64 bits with memory that is cleared. -/
def cleared : Host where
  width := (0, 0)
  height := (0, 0)
  nColors := (0, 0)
  sizeBits := 64
  le_sizeBits := by decide
  malloc _ := some fun _ => 0

theorem Faithful.room (hf : Faithful w h c) (hs : Shape w h c) : 1 ≤ c ∧ c ≤ 240 := by
  obtain ⟨output, hrun, -, -, hpalette, -⟩ := bmpLogo_spec hs (plain w h c) cleared rfl
  have hshown := congrArg List.length (hf.shows hs _ rfl hrun).palette
  rw [hpalette, readPalette_length, List.length_map, Bmp.palette_length] at hshown
  unfold colors entries DEFAULT_CMAP_SIZE at hshown
  split_ifs at hshown <;> omega

/-- The last entry is not written when the row that is read first starts too high. -/
theorem Faithful.fit (hf : Faithful w h c) (hs : Shape w h c) : (h - 1) * w < 2 ^ 16 := by
  by_contra hover
  obtain ⟨output, hrun, -, -, -, -, hkept, -⟩ :=
    bmpLogo_spec hs (plain w h c) cleared rfl
  have hshown := (hf.shows hs _ rfl hrun).bitmap
  have hw := hs.width_pos
  have hh := hs.height_pos
  have harea : w * h = (h - 1) * w + w := by
    rw [← Nat.succ_mul, Nat.mul_comm, Nat.succ_eq_add_one, Nat.sub_add_cancel hh]
  have hlast := hshown (w - 1) (by omega) (h - 1) (by omega)
  rw [hkept _ (by omega) fun r _ => by
    have := Nat.mod_lt (r * w) (by decide : 2 ^ 16 > 0)
    omega] at hlast
  exact absurd (Option.some.inj hlast) (by decide : (0 : UInt8) ≠ 0 + 16)

theorem Faithful.even (hf : Faithful w h c) (hs : Shape w h c) : w % 4 = 0 ∨ h = 1 := by
  by_contra hodd
  push Not at hodd
  obtain ⟨hfour, hrows⟩ := hodd
  have hw := hs.width_pos
  have hh := hs.height_pos
  have hpad : 0 < padding w := by
    unfold padding
    omega
  obtain ⟨output, hrun, -, -, -, -, -, hbitmap⟩ :=
    bmpLogo_spec hs (plain w h c) cleared rfl
  have hshown := (hf.shows hs _ rfl hrun).bitmap 0 hw (h - 2) (by omega)
  rw [hbitmap (hf.fit hs) _ (by omega) 0 hw, (plain w h c).readPalette_eq (hf.room hs),
    (by omega : h - 1 - (h - 2) = 1), Nat.one_mul, Nat.add_zero, List.getD_eq_getElem?_getD,
    (plain w h c).rows_pad hh hpad] at hshown
  exact absurd (Option.some.inj hshown) (by decide : (1 : UInt8) + 16 ≠ 0 + 16)

/-! ### All files -/

/-- Nothing outside the buffer is read or written, however long it runs. -/
def Confined (host : Host) (file : List UInt8) : Prop :=
  ∀ fuel, ∃ o, bmpLogo host file fuel = .ok o

def Ends (host : Host) (file : List UInt8) : Prop :=
  ∃ fuel o, bmpLogo host file fuel = .ok (some o)

/-- A bitmap whose header has no width, with a `malloc` that grants it. -/
def NoWidth (host : Host) (file : List UInt8) : Prop :=
  file.take 2 = [66, 77] ∧ (readHeader host (file.drop 2)).1 = 0 ∧
    (host.malloc (host.size 0 (readHeader host (file.drop 2)).2.1)).isSome

theorem leShort_lt (p : UInt8 × UInt8) : leShort p < 2 ^ 16 := by
  have hlow := p.1.toNat_lt
  have hhigh := p.2.toNat_lt
  refine Nat.or_lt_two_pow (by omega) ?_
  rw [Nat.shiftLeft_eq]
  omega

theorem int32_of_ge {z : ℤ} (hge : 2 ^ 31 ≤ z) (hlt : z < 2 ^ 32) : int32 z = z - 2 ^ 32 := by
  rw [int32, Int.bmod_def]
  omega

theorem area_lt_of_lt (hw : w < 2 ^ 16) (hh : h < 2 ^ 16) : w * h < 2 ^ 32 :=
  (Nat.mul_le_mul (Nat.le_of_lt_succ hw) (Nat.le_of_lt_succ hh)).trans_lt (by decide)

/-- The memory is large enough also where the product overflows an `int`. -/
theorem Host.area_le_size (host : Host) (hw : w < 2 ^ 16) (hh : h < 2 ^ 16) :
    w * h ≤ host.size w h := by
  have hall := area_lt_of_lt hw hh
  rcases Nat.lt_or_ge (w * h) (2 ^ 31) with hlt | hge
  · exact (host.size_eq hlt).ge
  · have hbits : 2 ^ 32 ≤ 2 ^ host.sizeBits := Nat.pow_le_pow_right (by decide) host.le_sizeBits
    have hcast : ((2 ^ host.sizeBits : ℕ) : ℤ) = 2 ^ host.sizeBits := by
      rw [Nat.cast_pow, Nat.cast_ofNat]
    have hint : int32 (w * h) = (w * h : ℕ) - 2 ^ 32 :=
      int32_of_ge (z := (w * h : ℕ)) (by omega) (by omega)
    rw [Host.size, hint, ← Int.add_emod_right, Int.emod_eq_of_lt (by omega) (by omega)]
    omega

theorem readRows_of_neg {n : ℕ} (file : List UInt8) (data : Buf UInt8 n) {i : ℤ} (hi : i < 0)
    (fuel : ℕ) : readRows w (fuel + 1) i file data = .ok (some data) := by
  rw [readRows, if_neg (by omega)]

theorem firstRow (hw : w < 2 ^ 16) (hh : h < 2 ^ 16) :
    int32 ((h - 1) * w) < 0 ∨ ∃ k, (k + 1) * w ≤ w * h ∧ int32 ((h - 1) * w) = (k * w : ℕ) := by
  have hall := area_lt_of_lt hw hh
  cases h with
  | zero =>
    have hneg : int32 (((0 : ℕ) - 1) * w) = -w := by
      rw [Nat.cast_zero, zero_sub, neg_one_mul]
      exact int32_neg (by omega) (by omega)
    rw [hneg]
    rcases Nat.eq_zero_or_pos w with rfl | hpos
    · exact .inr ⟨0, by omega, rfl⟩
    · exact .inl (by omega)
  | succ k =>
    have hfirst : (((k + 1 : ℕ) : ℤ) - 1) * w = (k * w : ℕ) := by
      rw [Nat.cast_add_one, add_sub_cancel_right, Nat.cast_mul]
    have hle : k * w ≤ w * (k + 1) := by
      rw [Nat.mul_comm w]
      exact Nat.mul_le_mul_right w (Nat.le_succ k)
    rw [hfirst]
    rcases Nat.lt_or_ge (k * w) (2 ^ 31) with hlt | hge
    · exact .inr ⟨k, (Nat.mul_comm _ _).le, int32_of_lt (by omega) (by omega)⟩
    · refine .inl ?_
      rw [int32_of_ge (by omega) (by omega)]
      omega

theorem row_in_area {k r n : ℕ} (hk : (k + 1) * w ≤ n) (hr : r ≤ k) : r * w % 2 ^ 16 + w ≤ n := by
  have hmod := Nat.mod_le (r * w) (2 ^ 16)
  have hrow : (r + 1) * w ≤ (k + 1) * w := Nat.mul_le_mul_right w (by omega)
  rw [Nat.succ_mul] at hrow
  omega

theorem convert_confined (host : Host) (hw : w < 2 ^ 16) (hh : h < 2 ^ 16) (file : List UInt8)
    (fuel : ℕ) : ∃ o, convert host w h c file fuel = .ok o := by
  have harea := host.area_le_size hw hh
  cases hm : host.malloc (host.size w h) with
  | none => exact ⟨some .noMemory, by rw [convert, hm]⟩
  | some bytes =>
    rw [convert, hm]
    dsimp only
    obtain ⟨o, hrows⟩ : ∃ o, readRows w fuel (int32 ((h - 1) * w))
        (readPalette (colors c) file).2 (⟨bytes⟩ : Buf UInt8 (host.size w h)) = .ok o := by
      rcases firstRow hw hh with hneg | ⟨k, hk, hfirst⟩
      · cases fuel with
        | zero => exact ⟨none, rfl⟩
        | succ fuel => exact ⟨_, readRows_of_neg _ _ hneg fuel⟩
      · rw [hfirst]
        exact readRows_ok _ _ fuel fun r hr => row_in_area (hk.trans harea) hr
    rw [hrows, ok_bind]
    cases o with
    | none => exact ⟨none, rfl⟩
    | some data =>
      have hin : 0 + (int32 (h * w)).toNat ≤ host.size w h := by
        have hall := area_lt_of_lt hw hh
        rw [← Nat.cast_mul, Nat.mul_comm]
        rcases Nat.lt_or_ge (w * h) (2 ^ 31) with hlt | hge
        · rw [int32_of_lt (by omega) (by omega)]
          omega
        · rw [int32_of_ge (by omega) (by omega)]
          omega
      dsimp only
      rw [Buf.load, if_pos hin]
      exact ⟨_, rfl⟩

theorem convert_ends {host : Host} (hw : w < 2 ^ 16) (hh : h < 2 ^ 16) (file : List UInt8) :
    (∃ fuel o, convert host w h c file fuel = .ok (some o)) ↔
      ¬ (w = 0 ∧ (host.malloc (host.size w h)).isSome) := by
  cases hm : host.malloc (host.size w h) with
  | none => exact iff_of_true ⟨0, .noMemory, by rw [convert, hm]⟩ fun h => Bool.noConfusion h.2
  | some bytes =>
    rcases Nat.eq_zero_or_pos w with rfl | hpos
    · refine iff_of_false ?_ fun h => h ⟨rfl, rfl⟩
      rintro ⟨fuel, o, hrun⟩
      have hzero : int32 0 = 0 := rfl
      rw [convert, hm] at hrun
      dsimp only at hrun
      rw [Nat.cast_zero, mul_zero, hzero, readRows_zero, ok_bind] at hrun
      cases hrun
    · refine iff_of_true ?_ fun h => hpos.ne' h.1
      obtain ⟨fuel, data, hrows⟩ : ∃ fuel data, readRows w fuel (int32 ((h - 1) * w))
          (readPalette (colors c) file).2 (⟨bytes⟩ : Buf UInt8 (host.size w h)) =
            .ok (some data) := by
        rcases firstRow hw hh with hneg | ⟨k, hk, hfirst⟩
        · exact ⟨1, _, readRows_of_neg _ _ hneg 0⟩
        · obtain ⟨data, hread, -⟩ := readRows_spec (readPalette (colors c) file).2
            (⟨bytes⟩ : Buf UInt8 (host.size w h)) hpos (Nat.lt_succ_self (k + 1)) fun r hr =>
              row_in_area (hk.trans (host.area_le_size hw hh)) hr
          exact ⟨_, data, by rw [hfirst]; exact hread⟩
      obtain ⟨o, hrun⟩ := convert_confined (c := c) host hw hh file fuel
      refine ⟨fuel, ?_⟩
      rw [convert, hm] at hrun ⊢
      dsimp only at hrun ⊢
      rw [hrows, ok_bind] at hrun ⊢
      dsimp only at hrun ⊢
      obtain ⟨bitmap, hload, -⟩ := bind_eq_ok.1 hrun
      rw [hload]
      exact ⟨_, rfl⟩

theorem bmpLogo_cases (host : Host) (file : List UInt8) :
    (file.take 2 ≠ [66, 77] ∧ ∀ fuel, bmpLogo host file fuel = .ok (some .notBitmap)) ∨
    (file.take 2 = [66, 77] ∧ ∀ fuel, bmpLogo host file fuel =
      convert host (readHeader host (file.drop 2)).1 (readHeader host (file.drop 2)).2.1
        (readHeader host (file.drop 2)).2.2.1 (readHeader host (file.drop 2)).2.2.2 fuel) := by
  match file with
  | [] => exact .inl ⟨by decide, fun _ => rfl⟩
  | [a] =>
    refine .inl ⟨?_, fun fuel => ?_⟩
    · simp
    · by_cases ha : (fgetc [a]).1 = 'B'.toNat
      · exact (if_neg (not_not_intro ha)).trans rfl
      · exact if_pos ha
  | a :: b :: file =>
    have hbyte (c : UInt8) (k : UInt8) : ((c.toNat : ℤ) = k.toNat) ↔ c = k := by
      rw [Nat.cast_inj, UInt8.toNat_inj]
    by_cases ha : a = 66
    · by_cases hb : b = 77
      · subst ha hb
        exact .inr ⟨rfl, fun _ => rfl⟩
      · exact .inl ⟨fun h => hb (by cases h; rfl), fun fuel => (if_neg (not_not_intro
          ((hbyte a 66).2 ha))).trans (if_pos (mt (hbyte b 77).1 hb))⟩
    · exact .inl ⟨fun h => ha (by cases h; rfl), fun fuel => if_pos (mt (hbyte a 66).1 ha)⟩

theorem readHeader_lt (host : Host) (file : List UInt8) :
    (readHeader host file).1 < 2 ^ 16 ∧ (readHeader host file).2.1 < 2 ^ 16 :=
  ⟨leShort_lt _, leShort_lt _⟩

theorem bmpLogo_confined (host : Host) (file : List UInt8) : Confined host file := by
  intro fuel
  rcases bmpLogo_cases host file with ⟨-, hrun⟩ | ⟨-, hrun⟩
  · exact ⟨_, hrun fuel⟩
  · rw [hrun]
    exact convert_confined host (readHeader_lt host _).1 (readHeader_lt host _).2 _ fuel

theorem bmpLogo_ends (host : Host) (file : List UInt8) : Ends host file ↔ ¬ NoWidth host file := by
  rcases bmpLogo_cases host file with ⟨hmagic, hrun⟩ | ⟨hmagic, hrun⟩
  · exact iff_of_true ⟨0, _, hrun 0⟩ fun h => hmagic h.1
  · simp only [Ends, hrun]
    rw [convert_ends (readHeader_lt host _).1 (readHeader_lt host _).2, NoWidth]
    refine not_congr ⟨fun ⟨hw, hm⟩ => ⟨hmagic, hw, hw ▸ hm⟩, fun ⟨_, hw, hm⟩ => ⟨hw, hw ▸ hm⟩⟩

/-! ### The law -/

/-- Bitmaps of a size are converted if and only if no padding is skipped, the palette has room and
no row starts at 65536 or above; no file makes the tool leave its buffer, and it ends but for files
of no width. -/
theorem bmpLogo_iff (hs : Shape w h c) :
    (Faithful w h c ↔
      (w % 4 = 0 ∨ h = 1) ∧ (1 ≤ c ∧ c ≤ 240) ∧ (h - 1) * w < 2 ^ 16) ∧
    ∀ host file, Confined host file ∧ (Ends host file ↔ ¬ NoWidth host file) :=
  ⟨⟨fun hf => ⟨hf.even hs, hf.room hs, hf.fit hs⟩,
      fun ⟨hpad, hroom, hfit⟩ => faithful_of hs hpad hroom hfit⟩,
    fun host file => ⟨bmpLogo_confined host file, bmpLogo_ends host file⟩⟩

theorem shape_four_by_two : Shape 4 2 16 :=
  ⟨by decide, by decide, by decide, by decide, by decide, by decide⟩

theorem bmpLogo_four_by_two : Faithful 4 2 16 :=
  (bmpLogo_iff shape_four_by_two).1.2 ⟨.inl rfl, by decide, by decide⟩

theorem shape_two_by_two : Shape 2 2 1 :=
  ⟨by decide, by decide, by decide, by decide, by decide, by decide⟩

/-- The padding of the lower row ends up in the upper one; and a file that is nothing but the two
letters and bytes of 0 is read for ever. -/
theorem bmpLogo_not_two_by_two :
    ¬ Faithful 2 2 1 ∧
    bmpLogo cleared (plain 2 2 1).bytes 3 =
      .ok (some (.done ⟨2, 2, 1, [(0, 0, 0)], [17, 17, 16, 16]⟩)) ∧
    ¬ Ends cleared (66 :: 77 :: List.replicate 52 0) := by
  refine ⟨fun hf => ?_, by decide, ?_⟩
  · rcases hf.even shape_two_by_two with hfour | hone
    · exact absurd hfour (by decide)
    · exact absurd hone (by decide)
  · rw [bmpLogo_ends, not_not]
    exact ⟨rfl, rfl, rfl⟩

end UBoot.BmpLogo
