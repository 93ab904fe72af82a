import UBoot.Lib.Buf

/-!
# The line editor: `readline` and `delete_char` (`common/main.c`)

The build without `CONFIG_BOOT_RETRY_TIME`. `readline` keeps the line in `console_buffer`, its
length twice, and the screen column. `edit` is what the keys do to a line, `Holds` what the editor's
state has to do with the line, and `readline_edits` says that `readline` edits lines.
-/

namespace UBoot.Main

open UBoot.Lib

/-- `'\t'`, `' '` -/
abbrev tab : UInt8 := 9
abbrev blank : UInt8 := 32

def eraseSeq : List UInt8 := [8, 32, 8]

/-- The state of `readline`: `console_buffer`, of `CFG_CBSIZE = room + 2` characters, `p` as an
index, `n` and `col`, and what was written to the console. -/
structure Edit (room : ℕ) where
  buf : Buf UInt8 (room + 2)
  p : ℕ
  n : ℕ
  col : ℕ
  out : List UInt8

/-- Writing a character to the console, with `tab_seq` for a TAB. -/
def echo (s : ℕ × List UInt8) (c : UInt8) : ℕ × List UInt8 :=
  if c = tab then (s.1 + (8 - (s.1 &&& 7)), s.2 ++ List.replicate (8 - (s.1 &&& 7)) blank)
  else (s.1 + 1, s.2 ++ [c])

section
variable {room : ℕ} (plen : ℕ)

/-- `while (col > plen) { puts (erase_seq); --col; }` -/
def Edit.eraseLine (e : Edit room) : Edit room :=
  { e with
    col := min e.col plen
    out := e.out ++ (List.replicate (e.col - plen) eraseSeq).flatten }

/-- The whole line is typed again, up to the TAB at its end. -/
def Edit.retype (e : Edit room) (text : List UInt8) : Edit room :=
  let e := e.eraseLine plen
  let s := text.foldl echo (e.col, e.out)
  { e with p := e.p - 1, n := e.n - 1, col := s.1, out := s.2 }

def deleteChar (e : Edit room) : Except Oob (Edit room) :=
  if e.n = 0 then .ok e
  else do
    let c ← e.buf.rd (e.p - 1)
    if c = tab then do
      let text ← e.buf.load 0 (e.p - 1)
      return e.retype plen text
    else return { e with p := e.p - 1, n := e.n - 1, col := e.col - 1, out := e.out ++ eraseSeq }

/-- `while ((n > 0) && (*p != ' ')) p=delete_char(…);` with `n` as the number of turns that are
left; `p` is at the character deleted last. -/
def deleteWord : ℕ → Edit room → Except Oob (Edit room)
  | 0, e => .ok e
  | n + 1, e => do
    let c ← e.buf.rd e.p
    if c ≠ blank then
      let e ← deleteChar plen e
      deleteWord n e
    else return e

/-- The keys that do not end the line. -/
def key (e : Edit room) (c : UInt8) : Except Oob (Edit room) :=
  if c = 0x15 then .ok { e.eraseLine plen with p := 0, n := 0 }
  else if c = 0x17 then do
    let e ← deleteChar plen e
    deleteWord plen e.n e
  else if c = 0x08 ∨ c = 0x7f then deleteChar plen e
  else if e.n < room then do
    let s := echo (e.col, e.out) c
    let buf ← e.buf.store e.p [c]
    return ⟨buf, e.p + 1, e.n + 1, s.1, s.2⟩
  else .ok { e with out := e.out ++ [7] }

/-- What the loop comes to: it waits for a key, or returns. -/
inductive Result (room : ℕ) where
  | waiting (e : Edit room)
  | returned (rcode : ℤ) (buf : Buf UInt8 (room + 2))

/-- The loop of `readline`. -/
def readlineLoop : List UInt8 → Edit room → Except Oob (Result room)
  | [], e => .ok (.waiting e)
  | c :: input, e =>
    if c = 13 ∨ c = 10 then do
      let buf ← e.buf.store e.p [0]
      return .returned e.p buf
    else if c = 0x03 then do
      let buf ← e.buf.store 0 [0]
      return .returned (-1) buf
    else do
      let e ← key plen e c
      readlineLoop input e

def readline (prompt : Option (List UInt8)) (input : List UInt8) (buf : Buf UInt8 (room + 2)) :
    Except Oob (Result room) :=
  let text := prompt.getD []
  readlineLoop text.length input ⟨buf, 0, 0, text.length, text⟩

end

/-! ## Editing a line -/

/-- The column behind a text that starts in a column. -/
def column (col : ℕ) (text : List UInt8) : ℕ :=
  text.foldl (fun col c => if c = tab then col + (8 - col % 8) else col + 1) col

/-- The column of the terminal behind what was written to it. -/
def cursor (col : ℕ) (out : List UInt8) : ℕ :=
  out.foldl (fun col c =>
    if c = 8 then col - 1
    else if c = tab then col + (8 - col % 8)
    else if c = 13 then 0
    else if c = 10 ∨ c = 7 then col
    else col + 1) col

/-- A line, with what a key does to it. `erase` is what `^W` does. -/
def typed (erase : List UInt8 → List UInt8) (room : ℕ) (line : List UInt8) (c : UInt8) :
    List UInt8 :=
  if c = 0x15 then []
  else if c = 0x17 then erase line
  else if c = 0x08 ∨ c = 0x7f then line.dropLast
  else if line.length < room then line ++ [c]
  else line

inductive Outcome where
  | waiting (line : List UInt8)
  | entered (line : List UInt8)
  | broken

def edit (erase : List UInt8 → List UInt8) (room : ℕ) : List UInt8 → List UInt8 → Outcome
  | line, [] => .waiting line
  | line, c :: input =>
    if c = 13 ∨ c = 10 then .entered line
    else if c = 0x03 then .broken
    else edit erase room (typed erase room line c) input

/-- The last character, and what is left of the word it ends. -/
def dropWord (line : List UInt8) : List UInt8 :=
  if line.getLast? = some blank then line.dropLast
  else (line.reverse.dropWhile (· ≠ blank)).reverse

/-- The last character, and all back to the last blank and this blank itself, unless it was that
character. -/
def eraseWord (line : List UInt8) : List UInt8 := (line.reverse.dropWhile (· ≠ blank)).tail.reverse

def Graphic (c : UInt8) : Prop := 32 ≤ c ∧ c < 127

def Typed (c : UInt8) : Prop :=
  Graphic c ∨ c = tab ∨ c ∈ ([0x08, 0x7f, 0x17, 0x15, 0x03, 13, 10] : List UInt8)

/-- The state has the line: in the buffer, in its two lengths, and in the column. If only characters
were written whose width is known, the column is that of the screen. -/
structure Holds {room : ℕ} (plen : ℕ) (tidy : Prop) (line : List UInt8) (e : Edit room) :
    Prop where
  n : e.n = line.length
  p : e.p = line.length
  le : line.length ≤ room
  text : e.buf.slice 0 line.length = line
  col : e.col = column plen line
  screen : tidy → cursor 0 e.out = e.col
  chars : tidy → ∀ c ∈ line, Graphic c ∨ c = tab

def Shows {room : ℕ} (plen : ℕ) (tidy : Prop) : Outcome → Result room → Prop
  | .waiting line, .waiting e => Holds plen tidy line e
  | .entered line, .returned rcode buf =>
    line.length ≤ room ∧ rcode = line.length ∧ buf.slice 0 (line.length + 1) = line ++ [0]
  | .broken, .returned rcode buf => rcode = -1 ∧ buf.get 0 = 0
  | _, _ => False

/-- `readline` edits lines, with `erase` for `^W`. -/
def Edits (erase : List UInt8 → List UInt8) (room : ℕ) (prompt : Option (List UInt8))
    (input : List UInt8) (buf : Buf UInt8 (room + 2)) : Prop :=
  ∃ r, readline prompt input buf = .ok r ∧
    Shows (prompt.getD []).length ((∀ c ∈ prompt.getD [], Graphic c) ∧ ∀ c ∈ input, Typed c)
      (edit erase room [] input) r

/-! ## Columns -/

section
variable {room plen col k : ℕ} {tidy : Prop} {line text out : List UInt8} {c x : UInt8}
  {e : Edit room}

theorem column_snoc : column col (text ++ [c]) =
    if c = tab then column col text + (8 - column col text % 8) else column col text + 1 := by
  rw [column, List.foldl_append]
  rfl

theorem le_column : col ≤ column col text := by
  induction text using List.reverseRecOn with
  | nil => exact le_rfl
  | append_singleton text c ih =>
    rw [column_snoc]
    split_ifs <;> omega

theorem and_seven (n : ℕ) : n &&& 7 = n % 8 := Nat.and_two_pow_sub_one_eq_mod n 3

theorem cursor_append {out' : List UInt8} :
    cursor col (out ++ out') = cursor (cursor col out) out' :=
  List.foldl_append ..

theorem Graphic.ne (hc : Graphic c) (hx : ¬ Graphic x) : c ≠ x := fun h => hx (h ▸ hc)

theorem cursor_graphic (hc : Graphic c) : cursor col [c] = col + 1 := by
  have h8 : c ≠ 8 := hc.ne (by unfold Graphic; decide)
  have h9 : c ≠ tab := hc.ne (by unfold Graphic; decide)
  have h13 : c ≠ 13 := hc.ne (by unfold Graphic; decide)
  have h10 : c ≠ 10 := hc.ne (by unfold Graphic; decide)
  have h7 : c ≠ 7 := hc.ne (by unfold Graphic; decide)
  rw [cursor, List.foldl_cons, List.foldl_nil, if_neg h8, if_neg h9, if_neg h13,
    if_neg (not_or.mpr ⟨h10, h7⟩)]

theorem cursor_text (h : ∀ c ∈ text, Graphic c) : cursor col text = col + text.length := by
  induction text generalizing col with
  | nil => rfl
  | cons c text ih =>
    have hstep : cursor col (c :: text) = cursor (cursor col [c]) text := rfl
    rw [hstep, cursor_graphic (h c List.mem_cons_self),
      ih fun d hd => h d (List.mem_cons_of_mem _ hd), List.length_cons]
    omega

theorem cursor_blanks : cursor col (List.replicate k blank) = col + k := by
  induction k generalizing col with
  | zero => rfl
  | succ k ih =>
    have hstep : cursor col (List.replicate (k + 1) blank) =
        cursor (col + 1) (List.replicate k blank) := rfl
    rw [hstep, ih]
    omega

theorem cursor_erase : cursor (col + 1) eraseSeq = col := rfl

theorem cursor_eraseLine : cursor (col + k) (List.replicate k eraseSeq).flatten = col := by
  induction k with
  | zero => rfl
  | succ k ih =>
    rw [List.replicate_succ, List.flatten_cons, cursor_append, ← Nat.add_assoc, cursor_erase, ih]

theorem foldl_echo (text : List UInt8) (col : ℕ) (out : List UInt8) :
    (text.foldl echo (col, out)).1 = column col text ∧
    (cursor 0 out = col → (∀ c ∈ text, Graphic c ∨ c = tab) →
      cursor 0 (text.foldl echo (col, out)).2 = column col text) := by
  induction text using List.reverseRecOn with
  | nil => exact ⟨rfl, fun h _ => h⟩
  | append_singleton text c ih =>
    obtain ⟨hcol, hcursor⟩ := ih
    rw [List.foldl_append, column_snoc]
    simp only [List.foldl_cons, List.foldl_nil, echo]
    by_cases hc : c = tab
    · rw [if_pos hc, if_pos hc]
      refine ⟨by rw [hcol, and_seven], fun h hall => ?_⟩
      have hprev := hcursor h fun d hd => hall d (List.mem_append_left _ hd)
      rw [cursor_append, hprev, cursor_blanks, hcol, and_seven]
    · rw [if_neg hc, if_neg hc]
      refine ⟨by rw [hcol], fun h hall => ?_⟩
      have hprev := hcursor h fun d hd => hall d (List.mem_append_left _ hd)
      have hgraphic : Graphic c :=
        (hall c (List.mem_append_right _ (List.mem_singleton_self c))).resolve_right hc
      rw [cursor_append, hprev, cursor_graphic hgraphic]

/-! ## Keys -/

theorem slice_snoc {buf : Buf UInt8 (room + 2)}
    (h : buf.slice 0 (text ++ [x]).length = text ++ [x]) :
    buf.slice 0 text.length = text ∧ buf.get text.length = x := by
  rw [List.length_append, List.length_singleton, Buf.slice_append, Nat.zero_add] at h
  obtain ⟨htext, hlast⟩ := List.append_inj h (by simp)
  exact ⟨htext, (List.cons.inj hlast).1⟩

theorem deleteChar_holds (h : Holds plen tidy (line ++ [x]) e) :
    ∃ e', deleteChar plen e = .ok e' ∧ Holds plen tidy line e' ∧ e'.buf = e.buf := by
  have hlen : (line ++ [x]).length = line.length + 1 := List.length_append
  obtain ⟨hn, hp, hle, htext, hcol, hscreen, hchars⟩ := h
  obtain ⟨hslice, hget⟩ := slice_snoc htext
  have hchars' : tidy → ∀ c ∈ line, Graphic c ∨ c = tab := fun ht c hc =>
    hchars ht c (List.mem_append_left _ hc)
  have hrd : e.buf.rd (e.p - 1) = .ok x := by
    rw [hp, hlen, Nat.add_sub_cancel, ← hget]
    exact if_pos (by omega)
  have hload : e.buf.load 0 (e.p - 1) = .ok line := by
    rw [hp, hlen, Nat.add_sub_cancel]
    exact Buf.load_ok.mpr ⟨by omega, hslice.symm⟩
  rw [column_snoc] at hcol
  rw [deleteChar, if_neg (by omega), hrd]
  by_cases hx : x = tab
  · refine ⟨e.retype plen line, ?_, ?_, rfl⟩
    · refine (if_pos hx).trans ?_
      rw [hload]
      rfl
    · rw [if_pos hx] at hcol
      have hline : plen ≤ column plen line := le_column
      have hge : plen ≤ e.col := by omega
      obtain ⟨hback, hshow⟩ := foldl_echo line (min e.col plen)
        (e.out ++ (List.replicate (e.col - plen) eraseSeq).flatten)
      have herase : tidy → cursor 0 (e.out ++ (List.replicate (e.col - plen) eraseSeq).flatten) =
          min e.col plen := fun ht => by
        rw [cursor_append, hscreen ht, min_eq_right hge]
        conv_lhs => rw [← Nat.add_sub_cancel' hge, Nat.add_sub_cancel_left]
        exact cursor_eraseLine
      exact ⟨by show e.n - 1 = _; omega, by show e.p - 1 = _; omega, by omega, hslice,
        hback.trans (by rw [min_eq_right hge]), fun ht => (hshow (herase ht) (hchars' ht)).trans
        hback.symm, hchars'⟩
  · rw [if_neg hx] at hcol
    refine ⟨_, if_neg hx, ?_, rfl⟩
    refine ⟨by show e.n - 1 = _; omega, by show e.p - 1 = _; omega, by omega, hslice,
      by show e.col - 1 = _; omega, fun ht => ?_, hchars'⟩
    show cursor 0 (e.out ++ eraseSeq) = e.col - 1
    rw [cursor_append, hscreen ht, hcol, cursor_erase, Nat.add_sub_cancel]

theorem deleteChar_nil (h : Holds plen tidy [] e) : deleteChar plen e = .ok e := if_pos h.n

theorem eraseWord_snoc : eraseWord (line ++ [x]) = if x = blank then line else eraseWord line := by
  rw [eraseWord, List.reverse_append, List.reverse_singleton, List.singleton_append]
  by_cases hx : x = blank
  · rw [List.dropWhile_cons_of_neg (by simpa using hx), if_pos hx, List.tail_cons,
      List.reverse_reverse]
  · rw [List.dropWhile_cons_of_pos (by simpa using hx), if_neg hx, eraseWord]

theorem deleteWord_holds (h : Holds plen tidy line e) (hget : e.buf.get line.length = x) :
    ∃ e', deleteWord plen line.length e = .ok e' ∧
      Holds plen tidy (eraseWord (line ++ [x])) e' := by
  induction line using List.reverseRecOn generalizing e x with
  | nil =>
    refine ⟨e, rfl, ?_⟩
    rw [eraseWord_snoc]
    have hnil : eraseWord [] = [] := rfl
    rwa [hnil, ite_self]
  | append_singleton line y ih =>
    have hlen : (line ++ [y]).length = line.length + 1 := List.length_append
    have hrd : e.buf.rd e.p = .ok x := by
      rw [h.p, ← hget]
      exact if_pos (Nat.lt_succ_of_le (Nat.le_succ_of_le h.le))
    rw [hlen, deleteWord, hrd, eraseWord_snoc]
    by_cases hx : x = blank
    · rw [if_pos hx]
      exact ⟨e, if_neg (not_not.mpr hx), h⟩
    · obtain ⟨e', he', hholds, hbuf⟩ := deleteChar_holds h
      have hy : e'.buf.get line.length = y := by
        rw [hbuf]
        exact (slice_snoc h.text).2
      obtain ⟨e'', he'', hword⟩ := ih hholds hy
      rw [if_neg hx]
      refine ⟨e'', (if_pos hx).trans ?_, hword⟩
      rw [he']
      exact he''

/-- **One key.** -/
theorem key_holds (h : Holds plen tidy line e) (hc : tidy → Typed c) (hend : c ≠ 13 ∧ c ≠ 10)
    (hbreak : c ≠ 0x03) :
    ∃ e', key plen e c = .ok e' ∧ Holds plen tidy (typed eraseWord room line c) e' := by
  have hge : plen ≤ e.col := by
    rw [h.col]
    exact le_column
  rw [key, typed]
  by_cases hu : c = 0x15
  · rw [if_pos hu, if_pos hu]
    refine ⟨_, rfl, rfl, rfl, Nat.zero_le _, rfl, min_eq_right hge, fun ht => ?_, fun _ _ hmem =>
      absurd hmem List.not_mem_nil⟩
    show cursor 0 (e.out ++ (List.replicate (e.col - plen) eraseSeq).flatten) = min e.col plen
    rw [cursor_append, h.screen ht, min_eq_right hge]
    conv_lhs => rw [← Nat.add_sub_cancel' hge, Nat.add_sub_cancel_left]
    exact cursor_eraseLine
  rw [if_neg hu, if_neg hu]
  by_cases hw : c = 0x17
  · rw [if_pos hw, if_pos hw]
    induction line using List.reverseRecOn with
    | nil =>
      rw [deleteChar_nil h]
      refine ⟨e, ?_, h⟩
      show deleteWord plen e.n e = .ok e
      rw [h.n]
      rfl
    | append_singleton line x =>
      obtain ⟨e', he', hholds, hbuf⟩ := deleteChar_holds h
      have hx : e'.buf.get line.length = x := by
        rw [hbuf]
        exact (slice_snoc h.text).2
      obtain ⟨e'', he'', hword⟩ := deleteWord_holds hholds hx
      rw [he']
      refine ⟨e'', ?_, hword⟩
      rw [← he'', ← hholds.n]
      rfl
  rw [if_neg hw, if_neg hw]
  by_cases hbs : c = 0x08 ∨ c = 0x7f
  · rw [if_pos hbs, if_pos hbs]
    induction line using List.reverseRecOn with
    | nil => exact ⟨e, deleteChar_nil h, h⟩
    | append_singleton line x =>
      obtain ⟨e', he', hholds, -⟩ := deleteChar_holds h
      rw [List.dropLast_concat]
      exact ⟨e', he', hholds⟩
  rw [if_neg hbs, if_neg hbs]
  by_cases hroom : line.length < room
  · have hshown : tidy → Graphic c ∨ c = tab := fun ht => by
      refine (hc ht).imp_right fun h' => h'.resolve_right fun hmem => ?_
      simp only [List.mem_cons, List.not_mem_nil, or_false] at hmem
      tauto
    have hstore : e.buf.store e.p [c] = .ok (e.buf.put e.p [c]) :=
      Buf.store_ok.mpr ⟨by rw [h.p, List.length_singleton]; omega, rfl⟩
    have hlen : (line ++ [c]).length = line.length + 1 := List.length_append
    obtain ⟨hcol, hscreen⟩ := foldl_echo [c] e.col e.out
    have hsnoc : column e.col [c] = column plen (line ++ [c]) := by
      rw [h.col, column, column, column, ← List.foldl_append]
    rw [if_pos (h.n ▸ hroom), if_pos hroom, hstore]
    refine ⟨_, rfl, ?_, ?_, ?_, ?_, hcol.trans hsnoc, fun ht => ?_, fun ht d hd => ?_⟩
    · show e.n + 1 = _
      rw [h.n, hlen]
    · show e.p + 1 = _
      rw [h.p, hlen]
    · omega
    · show (e.buf.put e.p [c]).slice 0 (line ++ [c]).length = _
      rw [h.p, hlen, Buf.slice_append, Nat.zero_add, Buf.slice_put_of_le (by omega), h.text]
      exact congrArg _ Buf.slice_put
    · have hall : ∀ d ∈ [c], Graphic d ∨ d = tab := fun d hd =>
        List.mem_singleton.mp hd ▸ hshown ht
      exact (hscreen (h.screen ht) hall).trans hcol.symm
    · rcases List.mem_append.mp hd with hd | hd
      · exact h.chars ht d hd
      · exact List.mem_singleton.mp hd ▸ hshown ht
  · rw [if_neg (h.n ▸ hroom), if_neg hroom]
    refine ⟨_, rfl, h.n, h.p, h.le, h.text, h.col, fun ht => ?_, h.chars⟩
    show cursor 0 (e.out ++ [7]) = e.col
    rw [cursor_append, h.screen ht]
    rfl

/-! ## Runs -/

/-- **The loop**, from a state that has a line. -/
theorem readlineLoop_shows {input : List UInt8} (h : Holds plen tidy line e)
    (hinput : tidy → ∀ c ∈ input, Typed c) :
    ∃ r, readlineLoop plen input e = .ok r ∧
      Shows plen tidy (edit eraseWord room line input) r := by
  induction input generalizing line e with
  | nil => exact ⟨_, rfl, h⟩
  | cons c input ih =>
    have hhead : tidy → Typed c := fun ht => hinput ht c List.mem_cons_self
    have htail : tidy → ∀ d ∈ input, Typed d := fun ht d hd =>
      hinput ht d (List.mem_cons_of_mem _ hd)
    rw [readlineLoop, edit]
    by_cases hend : c = 13 ∨ c = 10
    · have hstore : e.buf.store e.p [0] = .ok (e.buf.put e.p [0]) :=
        Buf.store_ok.mpr ⟨by rw [h.p, List.length_singleton]; have := h.le; omega, rfl⟩
      rw [if_pos hend, if_pos hend, hstore]
      refine ⟨_, rfl, h.le, congrArg _ h.p, ?_⟩
      rw [h.p, Buf.slice_append, Nat.zero_add, Buf.slice_put_of_le (by omega), h.text]
      exact congrArg _ Buf.slice_put
    rw [if_neg hend, if_neg hend]
    by_cases hbreak : c = 0x03
    · have hstore : e.buf.store 0 [0] = .ok (e.buf.put 0 [0]) :=
        Buf.store_ok.mpr ⟨by rw [List.length_singleton]; omega, rfl⟩
      rw [if_pos hbreak, if_pos hbreak, hstore]
      have hget : (e.buf.put 0 [0]).get 0 = 0 :=
        Option.some.inj (Buf.get_put_zero (by rw [List.length_singleton]; omega))
      exact ⟨_, rfl, rfl, hget⟩
    · rw [if_neg hbreak, if_neg hbreak]
      obtain ⟨e', he', hholds⟩ := key_holds h hhead (not_or.mp hend) hbreak
      rw [he']
      exact ih hholds htail

end

/-- **The line editor.** `readline` edits lines, and `^W` takes the blank before the word too. -/
theorem readline_edits (room : ℕ) (prompt : Option (List UInt8)) (input : List UInt8)
    (buf : Buf UInt8 (room + 2)) : Edits eraseWord room prompt input buf := by
  refine readlineLoop_shows ⟨rfl, rfl, Nat.zero_le _, rfl, rfl, fun ht => ?_, fun _ _ hmem =>
    absurd hmem List.not_mem_nil⟩ fun ht => ht.2
  exact (cursor_text ht.1).trans (Nat.zero_add _)

/-- `ab c` and `^W` leave `ab`, and not `ab` with the blank. -/
theorem readline_not_edits : ¬ Edits dropWord 14 none [97, 98, 32, 99, 0x17, 13] ⟨fun _ => 0⟩ := by
  rintro ⟨r, hr, hshows⟩
  obtain ⟨out, hrun⟩ : ∃ out : Buf UInt8 16,
      readline none [97, 98, 32, 99, 0x17, 13] ⟨fun _ => 0⟩ = .ok (.returned 2 out) := ⟨_, rfl⟩
  have hedit : edit dropWord 14 [] [97, 98, 32, 99, 0x17, 13] = .entered [97, 98, 32] := rfl
  rw [hrun] at hr
  rw [← Except.ok.inj hr, hedit] at hshows
  exact absurd hshows.2.1 (by decide)

end UBoot.Main
