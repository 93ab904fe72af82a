import UBoot.Lib.Align
import UBoot.Video.Screen

/-!
# The frame buffer console (`drivers/cfb_console.c`)

`video_putc` draws characters into the frame buffer and moves a cursor of two `int`s. `Term` is the
terminal it should be, a grid of characters. `console_is_terminal` says when the console agrees
with it after every character.
-/

namespace UBoot.Video

open UBoot.Lib

variable {α : Type}

/-- The frame buffer, `console_col` and `console_row`. -/
structure Console (α : Type) where
  fb : Fb α
  col : ℤ
  row : ℤ

namespace Display

variable (D : Display α)

/-- `video_putchar` at the cursor. -/
def drawAt (s : Console α) (pic : ℕ → ℕ → α) : Console α :=
  { s with fb := D.putchar s.fb (s.col * 8) (s.row * 16) pic }

def cursorOff (s : Console α) : Console α :=
  if D.cursor.isSome then D.drawAt s (D.glyph 32) else s

/-- `CURSOR_SET`: a blank in exchanged colours. -/
def cursorSet (s : Console α) : Console α :=
  match D.cursor with
  | some color => D.drawAt s fun _ _ => color
  | none => s

def consoleBack (s : Console α) : Console α :=
  let s := D.cursorOff s
  let s := { s with col := s.col - 1 }
  let s :=
    if s.col < 0 then
      { s with col := D.consoleCols - 1, row := if s.row - 1 < 0 then 0 else s.row - 1 }
    else s
  D.drawAt s (D.glyph 32)

/-- `console_newline` after the cursor was taken off. -/
def nextRow (s : Console α) : Console α :=
  let s := { s with row := s.row + 1, col := 0 }
  if (D.consoleRows : ℤ) ≤ s.row then { s with fb := D.scrollup s.fb, row := s.row - 1 } else s

def consoleNewline (s : Console α) : Console α := D.nextRow (D.cursorOff s)

/-- `console_col |= 0x0008; console_col &= ~0x0007;` -/
def tab8 (col : ℤ) : ℤ := ((BitVec.ofInt 32 col ||| 8#32) &&& ~~~7#32).toInt

def videoPutc (c : UInt8) (s : Console α) : Console α :=
  D.cursorSet
    (if c = 13 then s
    else if c = 10 then D.consoleNewline s
    else if c = 9 then
      let s := D.cursorOff s
      let s := { s with col := tab8 s.col }
      if (D.consoleCols : ℤ) ≤ s.col then D.consoleNewline s else s
    else if c = 8 then D.consoleBack s
    else
      let s := D.drawAt s (D.glyph c)
      let s := { s with col := s.col + 1 }
      if (D.consoleCols : ℤ) ≤ s.col then D.consoleNewline s else s)

def run (s : Console α) (cs : List UInt8) : Console α := cs.foldl (fun s c => D.videoPutc c s) s

end Display

/-! ## The terminal -/

/-- The characters in the cells, and the cursor. -/
@[ext] structure Term where
  cells : ℕ → ℕ → UInt8
  row : ℕ
  col : ℕ

namespace Term

def home : Term := ⟨fun _ _ => 32, 0, 0⟩

def put (t : Term) (c : UInt8) : Term :=
  { t with cells := Function.update t.cells t.row (Function.update (t.cells t.row) t.col c) }

/-- To the start of the next row; in the last one the rows move up. -/
def newline (rows : ℕ) (t : Term) : Term :=
  if t.row + 1 < rows then { t with row := t.row + 1, col := 0 }
  else { t with cells := fun r => if r + 1 < rows then t.cells (r + 1) else fun _ => 32, col := 0 }

def nextTab (t : Term) : ℕ := (t.col / 8 + 1) * 8

/-- To a column, or to the next row when there is none. -/
def goto (rows cols : ℕ) (t : Term) (col : ℕ) : Term :=
  if col < cols then { t with col := col } else t.newline rows

def back (cols : ℕ) (t : Term) : Term :=
  if 0 < t.col then { t with col := t.col - 1 }
  else if 0 < t.row then { t with row := t.row - 1, col := cols - 1 }
  else t

def putc (rows cols : ℕ) (t : Term) (c : UInt8) : Term :=
  if c = 13 then t
  else if c = 10 then t.newline rows
  else if c = 9 then t.goto rows cols t.nextTab
  else if c = 8 then (t.back cols).put 32
  else (t.put c).goto rows cols (t.col + 1)

def run (rows cols : ℕ) (t : Term) (cs : List UInt8) : Term := cs.foldl (putc rows cols) t

/-- The cursor is in the grid, and there is nothing from it on. -/
structure Ok (rows cols : ℕ) (t : Term) : Prop where
  row : t.row < rows
  col : t.col < cols
  blank : ∀ r < rows, ∀ c < cols, t.row < r ∨ t.row = r ∧ t.col ≤ c → t.cells r c = 32

variable {rows cols : ℕ} {t : Term}

theorem newline_ok (hrow : t.row < rows) (hcols : 0 < cols)
    (hblank : ∀ r < rows, ∀ c < cols, t.row < r → t.cells r c = 32) :
    (t.newline rows).Ok rows cols := by
  rw [Term.newline]
  split_ifs with hmore
  · refine ⟨hmore, hcols, fun r hr c hc hafter => hblank r hr c hc ?_⟩
    dsimp only at hafter
    omega
  · refine ⟨hrow, hcols, fun r hr c hc hafter => ?_⟩
    dsimp only at hafter ⊢
    split_ifs with hr'
    · exact absurd hafter (by omega)
    · rfl

theorem goto_ok {col : ℕ} (hrow : t.row < rows) (hcols : 0 < cols)
    (hblank : ∀ r < rows, ∀ c < cols, t.row < r ∨ t.row = r ∧ col ≤ c → t.cells r c = 32) :
    (t.goto rows cols col).Ok rows cols := by
  rw [Term.goto]
  split_ifs with hlt
  · exact ⟨hrow, hlt, hblank⟩
  · exact newline_ok hrow hcols fun r hr c hc hafter => hblank r hr c hc (.inl hafter)

theorem put_cells (t : Term) (c : UInt8) (r x : ℕ) :
    (t.put c).cells r x = if r = t.row ∧ x = t.col then c else t.cells r x := by
  simp only [put, Function.update_apply]
  split_ifs <;> grind

theorem back_ok (h : t.Ok rows cols) : ((t.back cols).put 32).Ok rows cols := by
  have hcol := h.col
  have hrow := h.row
  have hput {t' : Term} (hcells : t'.cells = t.cells) (hr' : t'.row < rows) (hc' : t'.col < cols)
      (hprev : ∀ r < rows, ∀ c < cols, t'.row < r ∨ t'.row = r ∧ t'.col < c →
        t.row < r ∨ t.row = r ∧ t.col ≤ c) : (t'.put 32).Ok rows cols := by
    refine ⟨hr', hc', fun r hr c hc hafter => ?_⟩
    rw [put_cells]
    split_ifs with hcell
    · rfl
    · rw [hcells]
      refine h.blank r hr c hc (hprev r hr c hc ?_)
      simp only [put] at hafter
      omega
  rw [Term.back]
  split_ifs
  · exact hput rfl hrow (by dsimp only; omega) fun r _ c _ hafter => by dsimp only at hafter; omega
  · exact hput rfl (by dsimp only; omega) (by dsimp only; omega) fun r _ c hc hafter => by
      dsimp only at hafter
      omega
  · exact hput rfl hrow hcol fun r _ c _ hafter => by omega

theorem Ok.putc (h : t.Ok rows cols) (c : UInt8) : (t.putc rows cols c).Ok rows cols := by
  have hcol := h.col
  have hpos : 0 < cols := Nat.zero_lt_of_lt hcol
  rw [Term.putc]
  split_ifs
  · exact h
  · exact newline_ok h.row hpos fun r hr c hc hafter => h.blank r hr c hc (.inl hafter)
  · refine goto_ok h.row hpos fun r hr c hc hafter => h.blank r hr c hc ?_
    unfold Term.nextTab at hafter
    omega
  · exact back_ok h
  · refine goto_ok h.row hpos fun r hr x hx hafter => ?_
    simp only [put] at hafter
    rw [put_cells, if_neg (by omega)]
    exact h.blank r hr x hx (by omega)

theorem home_ok (hrows : 0 < rows) (hcols : 0 < cols) : home.Ok rows cols :=
  ⟨hrows, hcols, fun _ _ _ _ _ => rfl⟩

end Term

/-! ## Agreement -/

namespace Display

variable (D : Display α)

/-- The pictures of a terminal, with or without the cursor. -/
def pictures (t : Term) (shown : Bool) : Pictures α := fun r c =>
  match D.cursor with
  | some color => if shown ∧ r = t.row ∧ c = t.col then fun _ _ => color else D.glyph (t.cells r c)
  | none => D.glyph (t.cells r c)

/-- The console agrees with a terminal, and nothing outside of it was drawn. -/
structure Agrees (fb : Fb α) (shown : Bool) (s : Console α) (t : Term) : Prop where
  row : s.row = t.row
  col : s.col = t.col
  row_lt : t.row < D.consoleRows
  col_lt : t.col < D.consoleCols
  shows : D.Shows s.fb (D.pictures t shown)
  framed : D.Framed fb s.fb

def Wraps (t : Term) (c : UInt8) : Prop :=
  c ≠ 13 ∧ c ≠ 10 ∧ c ≠ 8 ∧ D.consoleCols ≤ if c = 9 then t.nextTab else t.col + 1

/-- The characters that the console handles as the terminal does: no tab where bit 3 of the column
is set, no backspace at home, and with a drawn cursor nothing that wraps. -/
structure Handles (t : Term) (c : UInt8) : Prop where
  tab : c = 9 → t.col / 8 % 2 = 0
  back : c = 8 → 0 < t.row ∨ 0 < t.col
  wrap : D.cursor.isSome = true → ¬ D.Wraps t c

/-- All characters are handled, each at the cursor that the ones before it leave. -/
def HandlesAll : Term → List UInt8 → Prop
  | _, [] => True
  | t, c :: cs => D.Handles t c ∧ HandlesAll (t.putc D.consoleRows D.consoleCols c) cs

variable {D} {fb : Fb α} {s : Console α} {t : Term} {shown : Bool} {c : UInt8}

theorem or_one (k : ℕ) : k ||| 1 = k / 2 * 2 + 1 := by
  have hdiv : (k ||| 1) / 2 = k / 2 := by
    have h := Nat.or_div_two_pow (a := k) (b := 1) (n := 1)
    rw [Nat.pow_one] at h
    have hone : 1 / 2 = 0 := rfl
    rw [h, hone, Nat.or_zero]
  have hmod : (k ||| 1) % 2 = 1 := by
    rw [Nat.or_mod_two_eq_one]
    exact .inr rfl
  omega

/-- The tab goes to the start of the next 8 columns, or of these when bit 3 is set. -/
theorem tab8_of_lt {n : ℕ} (hn : n < 2 ^ 30) : tab8 n = ((n / 8 / 2 * 2 + 1) * 8 : ℕ) := by
  have hor : (BitVec.ofInt 32 n ||| 8#32).toNat = n ||| 8 := by
    rw [BitVec.toNat_or, BitVec.toNat_ofInt, BitVec.toNat_ofNat]
    congr 1
    omega
  have hdiv : (n ||| 8) / 8 = n / 8 / 2 * 2 + 1 := by
    have h := Nat.or_div_two_pow (a := n) (b := 8) (n := 3)
    rw [← or_one]
    exact h
  have hmask : ((BitVec.ofInt 32 n ||| 8#32) &&& ~~~7#32).toNat =
      (n ||| 8) - (n ||| 8) % 2 ^ 3 := by
    rw [← hor]
    exact toNat_and_not (x := UInt32.ofBitVec (BitVec.ofInt 32 n ||| 8#32)) (m := 7) rfl
  have hnat : ((BitVec.ofInt 32 n ||| 8#32) &&& ~~~7#32).toNat = (n / 8 / 2 * 2 + 1) * 8 := by
    rw [hmask, ← hdiv]
    omega
  rw [tab8, BitVec.toInt_eq_toNat_of_lt (by omega), hnat]

theorem pictures_false : D.pictures t false = fun r c => D.glyph (t.cells r c) := by
  funext r c
  unfold pictures
  cases D.cursor with
  | none => rfl
  | some color => exact if_neg fun h => absurd h.1 Bool.false_ne_true

variable (shown) in
theorem setCell_pictures (pic : ℕ → ℕ → α) :
    setCell (D.pictures t shown) t.row t.col pic =
      setCell (D.pictures t false) t.row t.col pic := by
  funext r c
  unfold setCell
  split_ifs with hcell
  · rfl
  · unfold pictures
    cases D.cursor with
    | none => rfl
    | some color =>
      dsimp only
      rw [if_neg fun h => hcell h.2, if_neg fun h => hcell h.2]

theorem pictures_put : D.pictures (t.put c) false =
    setCell (D.pictures t false) t.row t.col (D.glyph c) := by
  funext r x
  simp only [pictures_false, Term.put_cells, setCell]
  split_ifs <;> rfl

theorem Agrees.drawAt (h : D.Agrees fb shown s t) (pic : ℕ → ℕ → α) :
    D.Shows (D.drawAt s pic).fb (setCell (D.pictures t false) t.row t.col pic) ∧
      D.Framed fb (D.drawAt s pic).fb := by
  have hcol : s.col * 8 = (t.col * 8 : ℕ) := by
    rw [h.col]
    push_cast
    rfl
  have hrow : s.row * 16 = (t.row * 16 : ℕ) := by
    rw [h.row]
    push_cast
    rfl
  obtain ⟨hshows, hframed⟩ := h.shows.putchar h.row_lt h.col_lt pic
  rw [Display.drawAt, hcol, hrow, ← setCell_pictures shown]
  exact ⟨hshows, h.framed.trans hframed⟩

theorem Agrees.put (h : D.Agrees fb shown s t) (c : UInt8) :
    D.Agrees fb false (D.drawAt s (D.glyph c)) (t.put c) := by
  obtain ⟨hshows, hframed⟩ := h.drawAt (D.glyph c)
  exact ⟨h.row, h.col, h.row_lt, h.col_lt, pictures_put (D := D) ▸ hshows, hframed⟩

theorem Agrees.cursorSet (h : D.Agrees fb shown s t) : D.Agrees fb true (D.cursorSet s) t := by
  rw [Display.cursorSet]
  cases hcursor : D.cursor with
  | none =>
    have hpictures : D.pictures t true = D.pictures t shown := by
      unfold pictures
      rw [hcursor]
    exact ⟨h.row, h.col, h.row_lt, h.col_lt, hpictures ▸ h.shows, h.framed⟩
  | some color =>
    have hpictures : D.pictures t true =
        setCell (D.pictures t false) t.row t.col fun _ _ => color := by
      funext r c
      rw [pictures_false]
      unfold pictures setCell
      rw [hcursor]
      simp only [true_and]
    obtain ⟨hshows, hframed⟩ := h.drawAt fun _ _ => color
    exact ⟨h.row, h.col, h.row_lt, h.col_lt, hpictures ▸ hshows, hframed⟩

theorem Agrees.cursorOff (h : D.Agrees fb shown s t) (hblank : t.cells t.row t.col = 32) :
    D.Agrees fb false (D.cursorOff s) t := by
  rw [Display.cursorOff]
  cases hcursor : D.cursor with
  | none =>
    have hpictures : D.pictures t false = D.pictures t shown := by
      unfold pictures
      rw [hcursor]
    rw [if_neg (by exact Bool.false_ne_true)]
    exact ⟨h.row, h.col, h.row_lt, h.col_lt, hpictures ▸ h.shows, h.framed⟩
  | some color =>
    have hput : t.put 32 = t := by
      refine Term.ext (funext fun r => funext fun x => ?_) rfl rfl
      rw [Term.put_cells]
      split_ifs with hcell
      · rw [hcell.1, hcell.2, hblank]
      · rfl
    rw [if_pos (by exact rfl)]
    exact hput ▸ h.put 32

theorem nextRow_agrees (hrow : s.row = t.row) (hlt : t.row < D.consoleRows)
    (hshows : D.Shows s.fb (D.pictures t false)) (hframed : D.Framed fb s.fb) :
    D.Agrees fb false (D.nextRow s) (t.newline D.consoleRows) := by
  have hcols : 0 < D.consoleCols := Nat.lt_of_lt_of_le Nat.zero_lt_two D.two_le_cols
  rw [pictures_false] at hshows
  rw [Display.nextRow, Term.newline]
  dsimp only
  by_cases hmore : t.row + 1 < D.consoleRows
  · rw [if_neg (by omega), if_pos hmore]
    refine ⟨?_, rfl, hmore, hcols, ?_, hframed⟩
    · dsimp only
      rw [hrow]
      rfl
    · rw [pictures_false]
      exact hshows
  · rw [if_pos (by omega), if_neg hmore]
    obtain ⟨hscrolled, hframed'⟩ := hshows.scrollup
    refine ⟨?_, rfl, hlt, hcols, ?_, hframed.trans hframed'⟩
    · dsimp only
      omega
    · rw [pictures_false]
      convert hscrolled using 2 with r
      dsimp only
      split_ifs <;> rfl

theorem Agrees.move (h : D.Agrees fb false s t) {row col : ℕ} (hrow : row < D.consoleRows)
    (hcol : col < D.consoleCols) :
    D.Agrees fb false { s with row := row, col := col } { t with row := row, col := col } := by
  refine ⟨rfl, rfl, hrow, hcol, ?_, h.framed⟩
  have hshows := h.shows
  rw [pictures_false] at hshows ⊢
  exact hshows

theorem cursorOff_none (hcursor : ¬ D.cursor.isSome = true) : D.cursorOff s = s := if_neg hcursor

theorem cols_lt' : D.consoleCols < 2 ^ 28 := by
  have hcols := D.cols_lt
  rw [consoleCols]
  omega

/-- To the start of the next row, when the cursor was moved out of the grid. -/
theorem Agrees.wrap (h : D.Agrees fb false s t) (hcursor : ¬ D.cursor.isSome = true) (col : ℤ) :
    D.Agrees fb false (D.consoleNewline { s with col := col }) (t.newline D.consoleRows) := by
  rw [consoleNewline, cursorOff_none hcursor]
  exact nextRow_agrees h.row h.row_lt h.shows h.framed

theorem Agrees.tab (h : D.Agrees fb false s t) (htab : t.col / 8 % 2 = 0)
    (hwrap : D.cursor.isSome = true → t.nextTab < D.consoleCols) :
    D.Agrees fb false
      (if (D.consoleCols : ℤ) ≤ tab8 s.col then D.consoleNewline { s with col := tab8 s.col }
        else { s with col := tab8 s.col })
      (t.goto D.consoleRows D.consoleCols t.nextTab) := by
  have hlt := h.col_lt
  have hcols := cols_lt' (D := D)
  have hnext : tab8 s.col = (t.nextTab : ℕ) := by
    have hcol : (t.col / 8 / 2 * 2 + 1) * 8 = t.nextTab := by
      rw [Term.nextTab]
      omega
    rw [h.col, tab8_of_lt (by omega), hcol]
  rw [hnext, Term.goto]
  by_cases hin : t.nextTab < D.consoleCols
  · rw [if_neg (by omega), if_pos hin]
    have hmove := h.move h.row_lt hin
    rw [← h.row] at hmove
    exact hmove
  · rw [if_pos (by omega), if_neg hin]
    exact h.wrap (fun hsome => hin (hwrap hsome)) _

theorem Agrees.back {s' : Console α} (h : D.Agrees fb false s t)
    (hback : 0 < t.row ∨ 0 < t.col) (hoff : D.cursorOff s' = s) :
    D.Agrees fb false (D.consoleBack s') ((t.back D.consoleCols).put 32) := by
  have hrow := h.row
  have hcol := h.col
  have hrow_lt := h.row_lt
  have hcol_lt := h.col_lt
  rw [consoleBack, hoff, Term.back]
  dsimp only
  by_cases hpos : 0 < t.col
  · rw [if_neg (by omega), if_pos hpos]
    have hmove := h.move hrow_lt (show t.col - 1 < D.consoleCols by omega)
    rw [← hrow, show ((t.col - 1 : ℕ) : ℤ) = s.col - 1 by omega] at hmove
    exact hmove.put 32
  · have hrow_pos : 0 < t.row := hback.resolve_right hpos
    rw [if_pos (by omega), if_neg (by omega), if_neg hpos, if_pos hrow_pos]
    have hmove := h.move (show t.row - 1 < D.consoleRows by omega)
      (show D.consoleCols - 1 < D.consoleCols by omega)
    rw [show ((t.row - 1 : ℕ) : ℤ) = s.row - 1 by omega,
      show ((D.consoleCols - 1 : ℕ) : ℤ) = (D.consoleCols : ℤ) - 1 by omega] at hmove
    exact hmove.put 32

/-- **A character that is handled** keeps the console and the terminal in agreement. -/
theorem Agrees.putc (h : D.Agrees fb shown s t) (hok : t.Ok D.consoleRows D.consoleCols)
    (hh : D.Handles t c) :
    D.Agrees fb true (D.videoPutc c s) (t.putc D.consoleRows D.consoleCols c) := by
  have hoff := h.cursorOff (hok.blank _ h.row_lt _ h.col_lt (.inr ⟨rfl, le_refl _⟩))
  rw [videoPutc, Term.putc]
  by_cases h13 : c = 13
  · rw [if_pos h13, if_pos h13]
    exact h.cursorSet
  rw [if_neg h13, if_neg h13]
  by_cases h10 : c = 10
  · rw [if_pos h10, if_pos h10]
    exact (nextRow_agrees hoff.row hoff.row_lt hoff.shows hoff.framed).cursorSet
  rw [if_neg h10, if_neg h10]
  by_cases h9 : c = 9
  · rw [if_pos h9, if_pos h9]
    refine (hoff.tab (hh.tab h9) fun hsome => ?_).cursorSet
    by_contra hge
    exact hh.wrap hsome ⟨h13, h10, by rw [h9]; decide, by rw [if_pos h9]; omega⟩
  rw [if_neg h9, if_neg h9]
  by_cases h8 : c = 8
  · rw [if_pos h8, if_pos h8]
    exact (hoff.back (hh.back h8) rfl).cursorSet
  rw [if_neg h8, if_neg h8]
  dsimp only
  have hput := h.put c
  have hnext : (D.drawAt s (D.glyph c)).col + 1 = ((t.col + 1 : ℕ) : ℤ) := by
    rw [hput.col]
    rfl
  rw [hnext, Term.goto]
  by_cases hin : t.col + 1 < D.consoleCols
  · rw [if_neg (by omega), if_pos hin]
    have hmove := hput.move hput.row_lt hin
    rw [← hput.row] at hmove
    exact hmove.cursorSet
  · rw [if_pos (by omega), if_neg hin]
    refine (hput.wrap (fun hsome => hh.wrap hsome ⟨h13, h10, h8, ?_⟩) _).cursorSet
    rw [if_neg h9]
    omega

/-- **A character that is not handled** ends the agreement. -/
theorem Agrees.handles (h : D.Agrees fb shown s t) (hcursor : D.cursor = none)
    (hnext : D.Agrees fb true (D.videoPutc c s) (t.putc D.consoleRows D.consoleCols c)) :
    D.Handles t c := by
  have hset (s : Console α) : D.cursorSet s = s := by rw [Display.cursorSet, hcursor]
  have hoff (s : Console α) : D.cursorOff s = s :=
    cursorOff_none (by rw [hcursor]; exact Bool.false_ne_true)
  have hcol := hnext.col
  have hlt := h.col_lt
  have hcols := cols_lt' (D := D)
  have htwo : 2 ≤ D.consoleCols := D.two_le_cols
  rw [videoPutc, hset] at hcol
  refine ⟨fun h9 => ?_, fun h8 => ?_, fun hsome => by rw [hcursor] at hsome; cases hsome⟩
  · subst h9
    by_contra hodd
    have hstay : tab8 s.col = (t.col / 8 * 8 : ℕ) := by
      have heq : (t.col / 8 / 2 * 2 + 1) * 8 = t.col / 8 * 8 := by omega
      rw [h.col, tab8_of_lt (by omega), heq]
    have hterm : (t.putc D.consoleRows D.consoleCols 9).col = t.nextTab ∨
        (t.putc D.consoleRows D.consoleCols 9).col = 0 := by
      rw [Term.putc, if_neg (by decide), if_neg (by decide), if_pos rfl, Term.goto, Term.newline]
      split_ifs <;> simp
    rw [if_neg (by decide), if_neg (by decide), if_pos rfl, hoff] at hcol
    dsimp only at hcol
    rw [hstay, if_neg (by omega)] at hcol
    dsimp only at hcol
    unfold Term.nextTab at hterm
    omega
  · subst h8
    by_contra hhome
    have hzero : s.col = 0 := by
      rw [h.col]
      omega
    have hterm : (t.putc D.consoleRows D.consoleCols 8).col = 0 := by
      rw [Term.putc, if_neg (by decide), if_neg (by decide), if_neg (by decide), if_pos rfl,
        Term.back, if_neg (by omega), if_neg (by omega)]
      show t.col = 0
      omega
    rw [hterm, if_neg (by decide), if_neg (by decide), if_neg (by decide), if_pos rfl,
      consoleBack, hoff] at hcol
    dsimp only [Display.drawAt] at hcol
    rw [hzero, if_pos (by decide)] at hcol
    dsimp only at hcol
    omega

theorem Agrees.run {cs : List UInt8} (h : D.Agrees fb shown s t)
    (hok : t.Ok D.consoleRows D.consoleCols) (hall : D.HandlesAll t cs) {p : List UInt8}
    (hp : p <+: cs) (hne : p ≠ []) :
    D.Agrees fb true (D.run s p) (t.run D.consoleRows D.consoleCols p) := by
  induction cs generalizing p s t shown with
  | nil => exact absurd (List.prefix_nil.mp hp) hne
  | cons c cs ih =>
    obtain ⟨d, p, rfl⟩ := List.exists_cons_of_ne_nil hne
    obtain ⟨rfl, hrest⟩ := List.cons_prefix_cons.mp hp
    have hstep := h.putc hok hall.1
    cases p with
    | nil => exact hstep
    | cons e p => exact ih hstep (hok.putc d) hall.2 hrest (List.cons_ne_nil e p)

theorem Agrees.handlesAll {cs : List UInt8} (h : D.Agrees fb shown s t) (hcursor : D.cursor = none)
    (hrun : ∀ p, p <+: cs → p ≠ [] →
      D.Agrees fb true (D.run s p) (t.run D.consoleRows D.consoleCols p)) :
    D.HandlesAll t cs := by
  induction cs generalizing s t shown with
  | nil => trivial
  | cons c cs ih =>
    have hstep : D.Agrees fb true (D.videoPutc c s) (t.putc D.consoleRows D.consoleCols c) :=
      hrun [c] (List.cons_prefix_cons.mpr ⟨rfl, List.nil_prefix⟩) (List.cons_ne_nil c [])
    refine ⟨h.handles hcursor hstep, ih hstep fun p hp _ => ?_⟩
    exact hrun (c :: p) (List.cons_prefix_cons.mpr ⟨rfl, hp⟩) (List.cons_ne_nil c p)

/-- **The console is a terminal** after every character of a run, if all of them are handled; if
no cursor is drawn, only then. -/
theorem console_is_terminal (D : Display α) (fb : Fb α)
    (hclear : D.Shows fb fun _ _ => D.glyph 32) (cs : List UInt8) :
    (D.HandlesAll .home cs → ∀ p, p <+: cs → p ≠ [] →
      D.Agrees fb true (D.run ⟨fb, 0, 0⟩ p) (Term.home.run D.consoleRows D.consoleCols p)) ∧
    (D.cursor = none → (∀ p, p <+: cs → p ≠ [] →
      D.Agrees fb true (D.run ⟨fb, 0, 0⟩ p) (Term.home.run D.consoleRows D.consoleCols p)) →
      D.HandlesAll .home cs) := by
  have hrows : 0 < D.consoleRows := Nat.lt_of_lt_of_le Nat.zero_lt_two D.two_le_rows
  have hcols : 0 < D.consoleCols := Nat.lt_of_lt_of_le Nat.zero_lt_two D.two_le_cols
  have hstart : D.Agrees fb false ⟨fb, 0, 0⟩ .home :=
    ⟨rfl, rfl, hrows, hcols, pictures_false (D := D) ▸ hclear, fun _ _ => rfl⟩
  exact ⟨fun hall p hp hne => hstart.run (Term.home_ok hrows hcols) hall hp hne,
    fun hcursor hrun => hstart.handlesAll hcursor hrun⟩

end Display

/-- 640 by 480 pixels below a logo of 80 lines; the picture of a character is its code. -/
def vga : Display UInt8 where
  cols := 640
  rows := 560
  logoHeight := 80
  glyph := fun c _ _ => c
  bg := 32
  cursor := none
  two_le_rows := Nat.le_of_ble_eq_true rfl
  two_le_cols := Nat.le_of_ble_eq_true rfl
  cols_lt := Nat.le_of_ble_eq_true rfl
  glyph_blank := rfl

/-- `Hi`, a tab, a backspace and a newline. -/
theorem console_is_terminal_sample :
    vga.Agrees (fun _ => 32) true (vga.run ⟨fun _ => 32, 0, 0⟩ [72, 105, 9, 8, 10])
      (Term.home.run vga.consoleRows vga.consoleCols [72, 105, 9, 8, 10]) := by
  have hnone (t : Term) (c : UInt8) : vga.cursor.isSome = true → ¬ vga.Wraps t c :=
    fun h => by cases h
  refine (vga.console_is_terminal (fun _ => 32) (fun _ _ _ _ _ _ _ _ => rfl)
    [72, 105, 9, 8, 10]).1
    ⟨⟨by decide, by decide, hnone _ _⟩, ⟨by decide, by decide, hnone _ _⟩,
      ⟨by decide, by decide, hnone _ _⟩, ⟨by decide, by decide, hnone _ _⟩,
      ⟨by decide, by decide, hnone _ _⟩, trivial⟩ _ (List.prefix_refl _) (List.cons_ne_nil _ _)

/-- A tab behind eight characters stays where it is. -/
theorem tab_stays :
    (vga.run ⟨fun _ => 32, 0, 0⟩ (List.replicate 8 65 ++ [9])).col = 8 ∧
    (Term.home.run vga.consoleRows vga.consoleCols (List.replicate 8 65 ++ [9])).col = 16 ∧
    ¬ vga.Agrees (fun _ => 32) true (vga.run ⟨fun _ => 32, 0, 0⟩ (List.replicate 8 65 ++ [9]))
      (Term.home.run vga.consoleRows vga.consoleCols (List.replicate 8 65 ++ [9])) := by
  have hcode : (vga.run ⟨fun _ => 32, 0, 0⟩ (List.replicate 8 65 ++ [9])).col = 8 := by decide
  have hterm : (Term.home.run vga.consoleRows vga.consoleCols
      (List.replicate 8 65 ++ [9])).col = 16 := by decide
  refine ⟨hcode, hterm, fun h => ?_⟩
  have hcol := h.col
  rw [hcode, hterm] at hcol
  exact absurd hcol (by decide)

end UBoot.Video
