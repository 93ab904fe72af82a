import Mathlib.Tactic

/-!
# The frame buffer of the console (`drivers/cfb_console.c`)

The console is a grid of cells of 8 by 16 pixels below the logo. `Shows` relates the frame buffer
to the pictures in the cells. Drawing a cell changes its picture and nothing else
(`Shows.putchar`), and scrolling moves the rows up (`Shows.scrollup`).
-/

namespace UBoot.Video

/-- The geometry and the pictures: `glyph` is a character of the font in the colours of the
console, `cursor` the colour of the cursor with `CONFIG_VIDEO_SW_CURSOR`. -/
structure Display (α : Type) where
  cols : ℕ
  rows : ℕ
  logoHeight : ℕ
  glyph : UInt8 → ℕ → ℕ → α
  bg : α
  cursor : Option α
  two_le_rows : 2 ≤ (rows - logoHeight) / 16
  two_le_cols : 2 ≤ cols / 8
  cols_lt : cols < 2 ^ 31
  glyph_blank : glyph 32 = fun _ _ => bg

abbrev Fb (α : Type) := ℕ → α

namespace Display

variable {α : Type} (D : Display α)

def consoleRows : ℕ := (D.rows - D.logoHeight) / 16

def consoleCols : ℕ := D.cols / 8

def rowSize : ℕ := 16 * D.cols

/-- `video_console_address` -/
def first : ℕ := D.logoHeight * D.cols

def drawLine (fb : Fb α) (dest : ℕ) (line : ℕ → α) : Fb α :=
  fun a => if dest ≤ a ∧ a < dest + 8 then line (a - dest) else fb a

/-- The lines of a character from line `y` on, `n` of them. -/
def drawLines (pic : ℕ → ℕ → α) : ℕ → ℕ → ℕ → Fb α → Fb α
  | 0, _, _, fb => fb
  | n + 1, y, dest, fb => drawLines pic n (y + 1) (dest + D.cols) (drawLine fb dest (pic y))

/-- `video_putchar`, for the picture of a character. -/
def putchar (fb : Fb α) (xx yy : ℤ) (pic : ℕ → ℕ → α) : Fb α :=
  D.drawLines pic 16 0 ((yy + D.logoHeight) * D.cols + xx).toNat fb

/-- `memcpyl`, pixel by pixel. -/
def memcpyl : ℕ → ℕ → ℕ → Fb α → Fb α
  | _, _, 0, fb => fb
  | d, s, c + 1, fb => memcpyl (d + 1) (s + 1) c (Function.update fb d (fb s))

/-- `memsetl`, pixel by pixel. -/
def memsetl : ℕ → ℕ → α → Fb α → Fb α
  | _, 0, _, fb => fb
  | p, c + 1, v, fb => memsetl (p + 1) c v (Function.update fb p v)

/-- `console_scrollup` -/
def scrollup (fb : Fb α) : Fb α :=
  let size := D.rowSize * D.consoleRows
  let fb := memcpyl D.first (D.first + D.rowSize) (size - D.rowSize) fb
  memsetl (D.first + size - D.rowSize) D.rowSize D.bg fb

/-! ## What the frame buffer shows -/

abbrev Pictures (α : Type) := ℕ → ℕ → ℕ → ℕ → α

def setCell (P : Pictures α) (r c : ℕ) (pic : ℕ → ℕ → α) : Pictures α :=
  fun r' c' => if r' = r ∧ c' = c then pic else P r' c'

/-- The pixel in line `y` and column `x` of the console. -/
def pixel (y x : ℕ) : ℕ := D.first + y * D.cols + x

/-- The cells of the console have these pictures. -/
def Shows (fb : Fb α) (P : Pictures α) : Prop :=
  ∀ r < D.consoleRows, ∀ c < D.consoleCols, ∀ y < 16, ∀ x < 8,
    fb (D.pixel (r * 16 + y) (c * 8 + x)) = P r c y x

def Framed (fb fb' : Fb α) : Prop :=
  ∀ a, a < D.first ∨ D.first + D.rowSize * D.consoleRows ≤ a → fb' a = fb a

variable {D} {fb fb' : Fb α} {P : Pictures α} {pic : ℕ → ℕ → α} {r c y x n a : ℕ}

theorem drawLines_miss (y₀ dest : ℕ)
    (ha : ∀ y < n, a < dest + y * D.cols ∨ dest + y * D.cols + 8 ≤ a) :
    D.drawLines pic n y₀ dest fb a = fb a := by
  induction n generalizing y₀ dest fb with
  | zero => rfl
  | succ n ih =>
    have hfirst := ha 0 (Nat.succ_pos n)
    rw [Nat.zero_mul, Nat.add_zero] at hfirst
    rw [drawLines, ih _ _ fun y hy => ?_, drawLine, if_neg (by omega)]
    have hnext := ha (y + 1) (Nat.succ_lt_succ hy)
    rw [Nat.add_one_mul] at hnext
    omega

theorem drawLines_hit (hcols : 8 ≤ D.cols) (hn : y < n) (hx : x < 8) (y₀ dest : ℕ) :
    D.drawLines pic n y₀ dest fb (dest + y * D.cols + x) = pic (y₀ + y) x := by
  induction n generalizing y₀ dest fb y with
  | zero => exact absurd hn (Nat.not_lt_zero y)
  | succ n ih =>
    rw [drawLines]
    cases y with
    | zero =>
      rw [drawLines_miss _ _ fun y _ => by omega, drawLine, if_pos (by omega)]
      congr 1
      omega
    | succ y =>
      have haddr : dest + (y + 1) * D.cols + x = dest + D.cols + y * D.cols + x := by
        rw [Nat.add_one_mul]
        omega
      rw [haddr, ih (Nat.lt_of_succ_lt_succ hn), Nat.add_assoc, Nat.add_comm 1]

theorem memcpyl_apply (s d c : ℕ) (hle : d ≤ s) :
    memcpyl d s c fb a = if d ≤ a ∧ a < d + c then fb (s + (a - d)) else fb a := by
  induction c generalizing s d fb with
  | zero => rw [memcpyl, if_neg (by omega)]
  | succ c ih =>
    rw [memcpyl, ih _ _ (by omega)]
    by_cases hd : a = d
    · subst hd
      rw [if_neg (by omega), if_pos (by omega), Function.update_self, Nat.sub_self, Nat.add_zero]
    · by_cases hin : d ≤ a ∧ a < d + (c + 1)
      · -- what is copied lies behind what was overwritten
        rw [if_pos (by omega), if_pos hin, Function.update_of_ne (by omega)]
        congr 1
        omega
      · rw [if_neg (by omega), if_neg hin, Function.update_of_ne hd]

theorem memsetl_apply (p c : ℕ) (v : α) :
    memsetl p c v fb a = if p ≤ a ∧ a < p + c then v else fb a := by
  induction c generalizing p fb with
  | zero => rw [memsetl, if_neg (by omega)]
  | succ c ih =>
    rw [memsetl, ih]
    by_cases hp : a = p
    · subst hp
      rw [if_neg (by omega), if_pos (by omega), Function.update_self]
    · by_cases hin : p ≤ a ∧ a < p + (c + 1)
      · rw [if_pos (by omega), if_pos hin]
      · rw [if_neg (by omega), if_neg hin, Function.update_of_ne hp]

/-! ## Pixels of cells -/

theorem sixteen_le_cols (D : Display α) : 16 ≤ D.cols := by
  have hcols := D.two_le_cols
  omega

theorem cell_lt_cols (hc : c < D.consoleCols) (hx : x < 8) : c * 8 + x < D.cols := by
  rw [consoleCols] at hc
  omega

theorem Framed.trans {fb'' : Fb α} (h : D.Framed fb fb') (h' : D.Framed fb' fb'') :
    D.Framed fb fb'' := fun a ha => (h' a ha).trans (h a ha)

theorem pixel_lt {l l' : ℕ} (hx : x < D.cols) (hl : l < l') : D.pixel l x < D.pixel l' 0 := by
  have hmul : (l + 1) * D.cols ≤ l' * D.cols := Nat.mul_le_mul_right _ hl
  rw [Nat.add_one_mul] at hmul
  unfold pixel
  omega

theorem pixel_mem (hy : y < 16) (hx : x < D.cols) :
    D.first + r * D.rowSize ≤ D.pixel (r * 16 + y) x ∧
      D.pixel (r * 16 + y) x < D.first + (r + 1) * D.rowSize := by
  have hstart : D.pixel (r * 16) 0 = D.first + r * D.rowSize := by
    rw [pixel, rowSize, Nat.mul_assoc, Nat.add_zero]
  have hend : D.pixel ((r + 1) * 16) 0 = D.first + (r + 1) * D.rowSize := by
    rw [pixel, rowSize, Nat.mul_assoc, Nat.add_zero]
  have hlow : r * 16 * D.cols ≤ (r * 16 + y) * D.cols := Nat.mul_le_mul_right _ (by omega)
  refine ⟨?_, hend ▸ pixel_lt hx (by omega)⟩
  rw [← hstart]
  unfold pixel
  omega

theorem pixel_next_row : D.pixel ((r + 1) * 16 + y) x = D.pixel (r * 16 + y) x + D.rowSize := by
  unfold pixel rowSize
  ring

theorem row_le {R : ℕ} (hr : r < R) : (r + 1) * D.rowSize ≤ D.rowSize * R := by
  rw [Nat.mul_comm D.rowSize]
  exact Nat.mul_le_mul_right _ hr

theorem pixel_apart {r' c' : ℕ} (y' : ℕ) (hc : c < D.consoleCols) (hc' : c' < D.consoleCols)
    (hy : y < 16) (hy' : y' < 16) (hx : x < 8) (hne : r ≠ r' ∨ c ≠ c') :
    D.pixel (r * 16 + y) (c * 8 + x) < D.pixel (r' * 16 + y') (c' * 8) ∨
      D.pixel (r' * 16 + y') (c' * 8) + 8 ≤ D.pixel (r * 16 + y) (c * 8 + x) := by
  have hin := cell_lt_cols hc hx
  have hin' : c' * 8 + 7 < D.cols := cell_lt_cols hc' (by omega)
  rcases Nat.lt_trichotomy (r * 16 + y) (r' * 16 + y') with hlt | heq | hgt
  · have hline := pixel_lt hin hlt
    unfold pixel at hline ⊢
    omega
  · obtain rfl : r = r' := by omega
    obtain rfl : y = y' := by omega
    unfold pixel
    omega
  · have hline := pixel_lt hin' hgt
    unfold pixel at hline ⊢
    omega

theorem putchar_eq : D.putchar fb (c * 8 : ℕ) (r * 16 : ℕ) pic =
    D.drawLines pic 16 0 (D.pixel (r * 16) (c * 8)) fb := by
  rw [Display.putchar]
  congr 1
  have hnat : (((r * 16 : ℕ) : ℤ) + D.logoHeight) * D.cols + ((c * 8 : ℕ) : ℤ) =
      ((D.pixel (r * 16) (c * 8) : ℕ) : ℤ) := by
    unfold pixel first
    push_cast
    ring
  rw [hnat, Int.toNat_natCast]

theorem pixel_line : D.pixel r c + y * D.cols + x = D.pixel (r + y) (c + x) := by
  unfold pixel
  ring

theorem Shows.putchar (h : D.Shows fb P) (hr : r < D.consoleRows) (hc : c < D.consoleCols)
    (pic : ℕ → ℕ → α) :
    D.Shows (D.putchar fb (c * 8 : ℕ) (r * 16 : ℕ) pic) (setCell P r c pic) ∧
      D.Framed fb (D.putchar fb (c * 8 : ℕ) (r * 16 : ℕ) pic) := by
  have hcols := sixteen_le_cols D
  rw [putchar_eq]
  refine ⟨fun r' hr' c' hc' y hy x hx => ?_, fun a ha => ?_⟩
  · by_cases hcell : r' = r ∧ c' = c
    · obtain ⟨rfl, rfl⟩ := hcell
      rw [setCell, if_pos ⟨rfl, rfl⟩, ← pixel_line, drawLines_hit (by omega) hy hx, Nat.zero_add]
    · rw [drawLines_miss, h r' hr' c' hc' y hy x hx, setCell, if_neg hcell]
      · intro y' hy'
        have hapart := pixel_apart y' hc' hc hy hy' hx (not_and_or.mp hcell)
        have hline := pixel_line (D := D) (r := r * 16) (c := c * 8) (y := y') (x := 0)
        rw [Nat.add_zero, Nat.add_zero] at hline
        rwa [hline]
  · refine drawLines_miss 0 _ fun y hy => ?_
    have hin : c * 8 + 7 < D.cols := cell_lt_cols hc (by omega)
    have hline := pixel_line (D := D) (r := r * 16) (c := c * 8) (y := y) (x := 7)
    obtain ⟨hlow, hhigh⟩ := pixel_mem (r := r) hy hin
    have hrow := row_le (D := D) hr
    rw [← hline] at hlow hhigh
    have hstart : D.first ≤ D.pixel (r * 16) (c * 8) := by
      unfold pixel
      omega
    omega

theorem Shows.scrollup (h : D.Shows fb P) :
    D.Shows (D.scrollup fb)
        (fun r => if r + 1 < D.consoleRows then P (r + 1) else fun _ => D.glyph 32) ∧
      D.Framed fb (D.scrollup fb) := by
  have hsize : D.rowSize ≤ D.rowSize * D.consoleRows := by
    have hrows : 0 < D.consoleRows := Nat.lt_of_lt_of_le Nat.zero_lt_two D.two_le_rows
    exact Nat.le_mul_of_pos_right _ hrows
  have hscroll (a : ℕ) : D.scrollup fb a =
      if D.first + D.rowSize * D.consoleRows - D.rowSize ≤ a ∧
          a < D.first + D.rowSize * D.consoleRows - D.rowSize + D.rowSize then D.bg
      else if D.first ≤ a ∧ a < D.first + (D.rowSize * D.consoleRows - D.rowSize) then
        fb (D.first + D.rowSize + (a - D.first))
      else fb a := by
    rw [Display.scrollup, memsetl_apply, memcpyl_apply _ _ _ (by omega)]
  refine ⟨fun r hr c hc y hy x hx => ?_, fun a ha => ?_⟩
  · obtain ⟨hlow, hhigh⟩ := pixel_mem (D := D) (r := r) hy (cell_lt_cols hc hx)
    have hrow := row_le (D := D) hr
    dsimp only
    by_cases hmore : r + 1 < D.consoleRows
    · have hnext := row_le (D := D) hmore
      rw [Nat.add_one_mul] at hnext
      rw [hscroll, if_neg (by omega), if_pos (by omega), if_pos hmore,
        ← h (r + 1) hmore c hc y hy x hx, pixel_next_row]
      congr 1
      omega
    · have hlast : D.rowSize * D.consoleRows = (r + 1) * D.rowSize := by
        rw [Nat.mul_comm, show D.consoleRows = r + 1 by omega]
      rw [Nat.add_one_mul] at hlast
      rw [hscroll, if_pos (by omega), if_neg hmore, D.glyph_blank]
  · rw [hscroll, if_neg (by omega), if_neg (by omega)]

end Display

end UBoot.Video
