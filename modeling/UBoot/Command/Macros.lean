import UBoot.Command.Parse

/-!
# What `process_macros` makes of a string (`common/main.c`)

`pieces` is the reading of a string that the three states amount to: characters, and variables by
name. `macroLoop_dollar` says that the text of these pieces, cut to `CFG_CBSIZE`, is what is stored.
`expand` is the text a string should stand for; `process_macros_iff` compares the two.
-/

namespace UBoot.Command

inductive Piece where
  | char (c : UInt8)
  | var (name : List UInt8)
  deriving DecidableEq, Repr

/-- The text of a list of pieces; a variable that is not set stands for nothing. -/
def pieceText (getenv : List UInt8 → Option (List UInt8)) : Piece → List UInt8
  | .char c => [c]
  | .var name => (getenv name).getD []

def piecesText (getenv : List UInt8 → Option (List UInt8)) (ps : List Piece) : List UInt8 :=
  ps.flatMap (pieceText getenv)

/-- The next character with one level of escapes removed, the character before it, and the rest. -/
def nextChar (prev : UInt8) : List UInt8 → Option (UInt8 × UInt8 × List UInt8)
  | [] => none
  | c :: input =>
    if c = backslash ∧ prev ≠ backslash then
      match input with
      | [] => none
      | c :: input => some (c, backslash, input)
    else some (c, prev, input)

theorem nextChar_length {prev c p : UInt8} {input rest : List UInt8}
    (h : nextChar prev input = some (c, p, rest)) : rest.length < input.length := by
  cases input with
  | nil => cases h
  | cons d input =>
    rw [nextChar.eq_def] at h
    dsimp only at h
    split at h
    · cases input with
      | nil => cases h
      | cons e input =>
        cases h
        exact Nat.lt_succ_of_lt (Nat.lt_succ_self _)
    · cases h
      exact Nat.lt_succ_self _

/-- The name of a variable, up to the first `)`, and what follows it. -/
def scanName (start : List UInt8) (prev : UInt8) (input : List UInt8) :
    Option (List UInt8 × List UInt8) :=
  match h : nextChar prev input with
  | none => none
  | some (c, _, rest) =>
    if c = rparen then some (start.take (start.length - rest.length - 1), rest)
    else scanName start c rest
  termination_by input.length
  decreasing_by exact nextChar_length h

theorem scanName_length {start input name rest : List UInt8} {prev : UInt8}
    (h : scanName start prev input = some (name, rest)) : rest.length < input.length := by
  induction hn : input.length using Nat.strong_induction_on generalizing prev input with
  | _ n ih =>
    rw [scanName] at h
    split at h
    · cases h
    · rename_i c p rest' hnext
      have hlt := nextChar_length hnext
      split at h
      · cases h
        omega
      · have := ih rest'.length (by omega) h rfl
        omega

/-- The pieces of a string. What follows a `$` that is not escaped is a variable, or a character
that is not looked at again. -/
def pieces (prev : UInt8) (input : List UInt8) : List Piece :=
  match h : nextChar prev input with
  | none => []
  | some (c, p, rest) =>
    if c = dollar ∧ p ≠ backslash then
      match h' : nextChar c rest with
      | none => []
      | some (d, _, rest') =>
        if d = lparen then
          match h'' : scanName rest' d rest' with
          | none => []
          | some (name, rest'') => .var name :: pieces rparen rest''
        else .char dollar :: .char d :: pieces d rest'
    else .char c :: pieces c rest
  termination_by input.length
  decreasing_by
    · have := nextChar_length h
      have := nextChar_length h'
      have := scanName_length h''
      omega
    · have := nextChar_length h
      have := nextChar_length h'
      omega
    · exact nextChar_length h

section
variable {cbSize : ℕ} {getenv : List UInt8 → Option (List UInt8)} {input output text : List UInt8}
  {prev : UInt8}

theorem macroLoop_eq {m : MacroState × List UInt8} :
    macroLoop cbSize getenv input prev m =
      match nextChar prev input with
      | none => m.2
      | some (c, p, rest) =>
        if m.2.length = cbSize then m.2
        else macroLoop cbSize getenv rest c (macroStep cbSize getenv c rest p m) := by
  cases input with
  | nil => rfl
  | cons c input =>
    rw [macroLoop.eq_def, nextChar.eq_def]
    dsimp only
    by_cases hc : c = backslash ∧ prev ≠ backslash
    · rw [if_pos hc, if_pos hc]
      cases input with
      | nil => exact ite_self _
      | cons d input => rfl
    · rw [if_neg hc, if_neg hc]

theorem macroLoop_full {m : MacroState × List UInt8} (h : m.2.length = cbSize) :
    macroLoop cbSize getenv input prev m = m.2 := by
  rw [macroLoop_eq]
  split
  · rfl
  · rw [if_pos h]

theorem take_take_append {α : Type} (n : ℕ) (xs ys : List α) :
    (xs.take n ++ ys).take n = (xs ++ ys).take n := by
  rw [List.take_append, List.take_append, List.take_take, Nat.min_self, List.length_take]
  congr 2
  omega

theorem put_eq (h : output.length ≤ cbSize) :
    put cbSize output text = (output ++ text).take cbSize := by
  rw [put, List.take_append, List.take_of_length_le h]

theorem put_length (h : output.length ≤ cbSize) : (put cbSize output text).length ≤ cbSize := by
  rw [put_eq h]
  exact List.length_take_le ..

theorem macroLoop_rparen {start : List UInt8} (h : output.length < cbSize) :
    macroLoop cbSize getenv input prev (.rparen start, output) =
      match scanName start prev input with
      | none => output
      | some (name, rest) => macroLoop cbSize getenv rest rparen
          (.dollar, put cbSize output ((getenv name).getD [])) := by
  induction hn : input.length using Nat.strong_induction_on generalizing prev input with
  | _ n ih =>
    rw [macroLoop_eq, scanName]
    cases hnext : nextChar prev input with
    | none => rfl
    | some r =>
      obtain ⟨c, p, rest⟩ := r
      dsimp only
      rw [if_neg (Nat.ne_of_lt h), macroStep]
      by_cases hc : c = rparen
      · rw [if_pos hc, if_pos hc, hc]
        dsimp only
        cases getenv (start.take (start.length - rest.length - 1)) with
        | none => simp [put]
        | some envval => rfl
      · rw [if_neg hc, if_neg hc]
        exact ih rest.length (hn ▸ nextChar_length hnext) rfl

theorem macroLoop_lparen (h : output.length < cbSize) :
    macroLoop cbSize getenv input prev (.lparen, output) =
      match nextChar prev input with
      | none => output
      | some (d, _, rest) =>
        if d = lparen then
          match scanName rest d rest with
          | none => output
          | some (name, rest') => macroLoop cbSize getenv rest' rparen
              (.dollar, put cbSize output ((getenv name).getD []))
        else macroLoop cbSize getenv rest d
          (.dollar, put cbSize (put cbSize output [dollar]) [d]) := by
  rw [macroLoop_eq]
  cases nextChar prev input with
  | none => rfl
  | some r =>
    obtain ⟨d, p, rest⟩ := r
    dsimp only
    rw [if_neg (Nat.ne_of_lt h), macroStep]
    by_cases hd : d = lparen
    · rw [if_pos hd, if_pos hd, macroLoop_rparen h]
    · rw [if_neg hd, if_neg hd]

theorem piecesText_cons (p : Piece) (ps : List Piece) :
    piecesText getenv (p :: ps) = pieceText getenv p ++ piecesText getenv ps := by
  rw [piecesText, List.flatMap_cons, ← piecesText]

/-- **What is stored is the text of the pieces, cut to the buffer.** -/
theorem macroLoop_dollar (h : output.length ≤ cbSize) :
    macroLoop cbSize getenv input prev (.dollar, output) =
      (output ++ piecesText getenv (pieces prev input)).take cbSize := by
  induction hn : input.length using Nat.strong_induction_on generalizing prev input output with
  | _ n ih =>
    rcases Nat.eq_or_lt_of_le h with hfull | hroom
    · rw [macroLoop_full hfull, List.take_append_of_le_length (Nat.le_of_eq hfull.symm),
        List.take_of_length_le h]
    have hstep {text input : List UInt8} {prev : UInt8} {p : Piece} (hin : input.length < n)
        (hp : pieceText getenv p = text) :
        macroLoop cbSize getenv input prev (.dollar, put cbSize output text) =
          (output ++ piecesText getenv (p :: pieces prev input)).take cbSize := by
      rw [ih _ hin (put_length h) rfl, put_eq h, piecesText_cons, hp, ← List.append_assoc]
      exact take_take_append ..
    rw [macroLoop_eq, pieces]
    cases hnext : nextChar prev input with
    | none => simp [piecesText, List.take_of_length_le h]
    | some r =>
      obtain ⟨c, p, rest⟩ := r
      have hrest := nextChar_length hnext
      dsimp only
      rw [if_neg (Nat.ne_of_lt hroom), macroStep]
      by_cases hc : c = dollar ∧ p ≠ backslash
      swap
      · rw [if_neg hc, if_neg hc]
        exact hstep (hn ▸ hrest) rfl
      rw [if_pos hc, if_pos hc, macroLoop_lparen hroom]
      cases hnext' : nextChar c rest with
      | none => simp [piecesText, List.take_of_length_le h]
      | some r' =>
        obtain ⟨d, p', rest'⟩ := r'
        have hrest' := nextChar_length hnext'
        dsimp only
        by_cases hd : d = lparen
        · rw [if_pos hd, if_pos hd]
          cases hscan : scanName rest' d rest' with
          | none => simp [piecesText, List.take_of_length_le h]
          | some r'' =>
            obtain ⟨name, rest''⟩ := r''
            have hrest'' := scanName_length hscan
            exact hstep (by omega) rfl
        · rw [if_neg hd, if_neg hd, ih _ (by omega) (put_length (put_length h)) rfl,
            put_eq (put_length h), put_eq h, piecesText_cons, piecesText_cons, take_take_append,
            List.append_assoc _ [d], take_take_append]
          simp [pieceText]

end

/-! ## What a string should stand for -/

/-- A complete `$(name)` is its value, or nothing; every other character is itself. -/
def expand (getenv : List UInt8 → Option (List UInt8)) : List UInt8 → List UInt8
  | [] => []
  | c :: text =>
    if c = dollar ∧ text.head? = some lparen ∧ rparen ∈ text.tail then
      (getenv (text.tail.takeWhile (· ≠ rparen))).getD [] ++
        expand getenv (text.tail.dropWhile (· ≠ rparen)).tail
    else c :: expand getenv text
  termination_by text => text.length
  decreasing_by
    · have := (List.dropWhile_sublist (· ≠ rparen) (l := text.tail)).length_le
      simp only [List.length_tail, List.length_cons] at this ⊢
      omega
    · exact Nat.lt_succ_self _

/-- A `(name)` is at the start of the string. -/
def Closed (text : List UInt8) : Prop := text.head? = some lparen ∧ rparen ∈ text.tail

/-- From left to right, each `$` is followed by another character, each `$(` by its `)`, and a
second `$` is not the first character of a complete `$(name)`. -/
inductive Regular : List UInt8 → Prop where
  | nil : Regular []
  | char {c : UInt8} {text : List UInt8} : c ≠ dollar → Regular text → Regular (c :: text)
  | var {name text : List UInt8} : rparen ∉ name → Regular text →
      Regular (dollar :: lparen :: name ++ rparen :: text)
  | two {d : UInt8} {text : List UInt8} : d ≠ lparen → ¬ (d = dollar ∧ Closed text) →
      Regular text → Regular (dollar :: d :: text)

/-- Without backslashes the string is expanded, up to the last character there is room for; and
what is stored is terminated. -/
structure Expands (cbSize : ℕ) (getenv : List UInt8 → Option (List UInt8)) (input : List UInt8) :
    Prop where
  text : backslash ∉ input →
    processMacros cbSize getenv input = (expand getenv input).take (cbSize - 1)
  nul : (processMacros cbSize getenv input).length < cbSize

section
variable {cbSize : ℕ} {getenv : List UInt8 → Option (List UInt8)}
  {input text name rest start : List UInt8} {prev c d : UInt8} {n : ℕ}

/-! Without backslashes, characters are read as they are. -/

theorem plain_cons (h : backslash ∉ c :: text) : c ≠ backslash ∧ backslash ∉ text :=
  ⟨fun hc => h (hc ▸ List.mem_cons_self ..), fun ht => h (List.mem_cons_of_mem _ ht)⟩

theorem plain_var (h : backslash ∉ dollar :: lparen :: name ++ rparen :: text) :
    backslash ∉ name ∧ backslash ∉ text :=
  have hopen : backslash ∉ name ++ rparen :: text := (plain_cons (plain_cons h).2).2
  ⟨fun hn => hopen (List.mem_append_left _ hn),
    fun ht => hopen (List.mem_append_right _ (List.mem_cons_of_mem _ ht))⟩

theorem nextChar_plain (hc : c ≠ backslash) : nextChar prev (c :: input) =
    some (c, prev, input) := by
  rw [nextChar.eq_def]
  exact if_neg fun h => hc h.1

theorem scanName_none (hplain : backslash ∉ input) (hname : rparen ∉ input) :
    scanName start prev input = none := by
  induction input generalizing prev with
  | nil =>
    rw [scanName]
    rfl
  | cons c input ih =>
    obtain ⟨hc, hplain⟩ := plain_cons hplain
    have hp : c ≠ rparen := fun h => hname (h ▸ List.mem_cons_self ..)
    rw [scanName, nextChar_plain hc]
    exact (if_neg hp).trans (ih hplain fun h => hname (List.mem_cons_of_mem _ h))

theorem scanName_some (hplain : backslash ∉ name) (hname : rparen ∉ name)
    (hstart : start.length = n + name.length + rest.length + 1) :
    scanName start prev (name ++ rparen :: rest) = some (start.take (n + name.length), rest) := by
  induction name generalizing prev n with
  | nil =>
    rw [List.nil_append, scanName, nextChar_plain (by decide)]
    refine (if_pos rfl).trans ?_
    congr 3
    simp at hstart ⊢
    omega
  | cons c name ih =>
    obtain ⟨hc, hplain⟩ := plain_cons hplain
    have hp : c ≠ rparen := fun h => hname (h ▸ List.mem_cons_self ..)
    have hih : scanName start c (name ++ rparen :: rest) =
        some (start.take (n + 1 + name.length), rest) :=
      ih hplain (fun h => hname (List.mem_cons_of_mem _ h)) (by simp at hstart ⊢; omega)
    rw [List.cons_append, scanName, nextChar_plain hc]
    refine (if_neg hp).trans (hih.trans ?_)
    congr 3
    rw [List.length_cons]
    omega

theorem pieces_nil (prev : UInt8) : pieces prev [] = [] := by
  rw [pieces]
  rfl

theorem pieces_char (hplain : c ≠ backslash) (hc : c ≠ dollar) :
    pieces prev (c :: text) = .char c :: pieces c text := by
  rw [pieces, nextChar_plain hplain]
  exact if_neg fun h => hc h.1

theorem pieces_end (prev : UInt8) (hprev : prev ≠ backslash) : pieces prev [dollar] = [] := by
  rw [pieces, nextChar_plain (by decide)]
  exact (if_pos ⟨rfl, hprev⟩).trans rfl

theorem pieces_two (hprev : prev ≠ backslash) (hplain : d ≠ backslash) (hd : d ≠ lparen) :
    pieces prev (dollar :: d :: text) = .char dollar :: .char d :: pieces d text := by
  rw [pieces, nextChar_plain (by decide)]
  refine (if_pos ⟨rfl, hprev⟩).trans ?_
  rw [nextChar_plain hplain]
  exact if_neg hd

theorem pieces_open (hprev : prev ≠ backslash) (hplain : backslash ∉ text)
    (hopen : rparen ∉ text) : pieces prev (dollar :: lparen :: text) = [] := by
  rw [pieces, nextChar_plain (by decide)]
  refine (if_pos ⟨rfl, hprev⟩).trans ?_
  rw [nextChar_plain (by decide)]
  refine (if_pos rfl).trans ?_
  rw [scanName_none hplain hopen]

theorem pieces_var (hprev : prev ≠ backslash) (hplain : backslash ∉ name)
    (hname : rparen ∉ name) : pieces prev (dollar :: lparen :: name ++ rparen :: text) =
      .var name :: pieces rparen text := by
  have hscan : scanName (name ++ rparen :: text) lparen (name ++ rparen :: text) =
      some (name, text) := by
    rw [scanName_some (n := 0) hplain hname (by simp; omega), Nat.zero_add,
      List.take_left]
  rw [List.cons_append, List.cons_append, pieces, nextChar_plain (by decide)]
  refine (if_pos ⟨rfl, hprev⟩).trans ?_
  rw [nextChar_plain (by decide)]
  refine (if_pos rfl).trans ?_
  rw [hscan]

theorem expand_char (hc : c ≠ dollar) : expand getenv (c :: text) = c :: expand getenv text := by
  rw [expand]
  exact if_neg fun h => hc h.1

theorem expand_open (hopen : ¬ Closed text) :
    expand getenv (dollar :: text) = dollar :: expand getenv text := by
  rw [expand]
  exact if_neg fun h => hopen h.2

theorem expand_var (hname : rparen ∉ name) :
    expand getenv (dollar :: lparen :: name ++ rparen :: text) =
      (getenv name).getD [] ++ expand getenv text := by
  have hall : ∀ c ∈ name, (decide (c ≠ rparen)) = true := fun c hc =>
    decide_eq_true (ne_of_mem_of_not_mem hc hname)
  have htake : (name ++ rparen :: text).takeWhile (· ≠ rparen) = name := by
    rw [List.takeWhile_append_of_pos hall, List.takeWhile_cons_of_neg (by simp), List.append_nil]
  have hdrop : (name ++ rparen :: text).dropWhile (· ≠ rparen) = rparen :: text := by
    rw [List.dropWhile_append_of_pos hall, List.dropWhile_cons_of_neg (by simp)]
  rw [List.cons_append, List.cons_append, expand]
  refine (if_pos ⟨rfl, rfl, List.mem_append_right _ (List.mem_cons_self ..)⟩).trans ?_
  rw [List.tail_cons, htake, hdrop, List.tail_cons]

theorem expand_two (hd : d ≠ lparen) (hclosed : ¬ (d = dollar ∧ Closed text)) :
    expand getenv (dollar :: d :: text) = dollar :: d :: expand getenv text := by
  have hopen : ¬ Closed (d :: text) := fun h => hd (Option.some.inj h.1)
  rw [expand_open hopen, expand]
  exact congrArg _ (if_neg hclosed)

/-- The strings that are not regular. -/
inductive Misread : List UInt8 → Prop where
  | ends : Misread [dollar]
  | unclosed {text : List UInt8} : rparen ∉ text → Misread (dollar :: lparen :: text)
  | doubled {name text : List UInt8} : rparen ∉ name →
      Misread (dollar :: dollar :: lparen :: name ++ rparen :: text)
  | char {c : UInt8} {text : List UInt8} : c ≠ dollar → Misread text → Misread (c :: text)
  | var {name text : List UInt8} : rparen ∉ name → Misread text →
      Misread (dollar :: lparen :: name ++ rparen :: text)
  | two {d : UInt8} {text : List UInt8} : d ≠ lparen → ¬ (d = dollar ∧ Closed text) →
      Misread text → Misread (dollar :: d :: text)

theorem split_rparen (h : rparen ∈ text) :
    ∃ name rest, text = name ++ rparen :: rest ∧ rparen ∉ name :=
  List.eq_append_cons_of_mem h

theorem regular_or_misread (text : List UInt8) : Regular text ∨ Misread text := by
  induction hn : text.length using Nat.strong_induction_on generalizing text with
  | _ n ih =>
    subst hn
    match text with
    | [] => exact .inl .nil
    | c :: text =>
      by_cases hc : c = dollar
      swap
      · exact (ih text.length (Nat.lt_succ_self _) text rfl).imp (.char hc) (.char hc)
      subst hc
      match text with
      | [] => exact .inr .ends
      | d :: text =>
        by_cases hd : d = lparen
        · subst hd
          by_cases hclosed : rparen ∈ text
          · obtain ⟨name, rest, rfl, hname⟩ := split_rparen hclosed
            exact (ih rest.length (by simp only [List.length_cons, List.length_append]; omega) rest
              rfl).imp (.var hname) (.var hname)
          · exact .inr (.unclosed hclosed)
        · by_cases hdouble : d = dollar ∧ Closed text
          · obtain ⟨rfl, hhead, hclosed⟩ := hdouble
            obtain ⟨e, text, rfl⟩ : ∃ e rest, text = e :: rest := by
              cases text with
              | nil => cases hhead
              | cons e rest => exact ⟨e, rest, rfl⟩
            obtain rfl : e = lparen := Option.some.inj hhead
            obtain ⟨name, rest, hrest, hname⟩ := split_rparen hclosed
            rw [List.tail_cons] at hrest
            subst hrest
            exact .inr (.doubled hname)
          · exact (ih text.length (Nat.lt_succ_of_lt (Nat.lt_succ_self _)) text rfl).imp
              (.two hd hdouble) (.two hd hdouble)

theorem piecesText_regular (h : Regular text) (hplain : backslash ∉ text)
    (hprev : prev ≠ backslash) : piecesText getenv (pieces prev text) = expand getenv text := by
  induction h generalizing prev with
  | nil =>
    rw [pieces_nil, expand]
    rfl
  | @char c text hc _ ih =>
    obtain ⟨hcb, hplain⟩ := plain_cons hplain
    rw [pieces_char hcb hc, expand_char hc, piecesText_cons, ih hplain hcb]
    rfl
  | @var name text hname _ ih =>
    obtain ⟨hname', htext⟩ := plain_var hplain
    rw [pieces_var hprev hname' hname, expand_var hname, piecesText_cons, ih htext (by decide)]
    rfl
  | @two d text hd hdouble _ ih =>
    obtain ⟨hdb, hplain⟩ := plain_cons (plain_cons hplain).2
    rw [pieces_two hprev hdb hd, expand_two hd hdouble, piecesText_cons, piecesText_cons,
      ih hplain hdb]
    rfl

/-- An environment with one variable, whose value is a letter. -/
def onlyVar (x : List UInt8) (name : List UInt8) : Option (List UInt8) :=
  if name = x then some [120] else none

theorem onlyVar_length (x : List UInt8) : ((onlyVar x name).getD []).length ≤ 1 := by
  rw [onlyVar]
  split_ifs <;> simp

/-- With short values the text is not longer than the string. -/
theorem piecesText_length {x : List UInt8} (hplain : backslash ∉ text)
    (hprev : prev ≠ backslash) :
    (piecesText (onlyVar x) (pieces prev text)).length ≤ text.length := by
  induction hn : text.length using Nat.strong_induction_on generalizing text prev with
  | _ n ih =>
    subst hn
    have hstep {q : UInt8} {rest : List UInt8} (p : Piece) (hq : q ≠ backslash)
        (hrest : backslash ∉ rest) {m : ℕ} (hp : (pieceText (onlyVar x) p).length ≤ m) (hm : 0 < m)
        (hlen : rest.length + m ≤ text.length) :
        (piecesText (onlyVar x) (p :: pieces q rest)).length ≤ rest.length + m := by
      have hle := ih rest.length (by omega) hrest hq rfl
      rw [piecesText_cons, List.length_append]
      omega
    match text with
    | [] =>
      rw [pieces_nil]
      exact Nat.le_refl _
    | c :: text =>
      obtain ⟨hcb, htext⟩ := plain_cons hplain
      by_cases hc : c = dollar
      swap
      · rw [pieces_char hcb hc]
        exact hstep (.char c) hcb htext le_rfl Nat.one_pos le_rfl
      subst hc
      match text with
      | [] =>
        rw [pieces_end prev hprev]
        exact Nat.zero_le _
      | d :: text =>
        obtain ⟨hdb, hbehind⟩ := plain_cons htext
        by_cases hd : d = lparen
        · subst hd
          by_cases hclosed : rparen ∈ text
          · obtain ⟨name, rest, rfl, hname⟩ := split_rparen hclosed
            obtain ⟨hname', hrest⟩ := plain_var hplain
            rw [← List.cons_append, ← List.cons_append, pieces_var hprev hname' hname]
            have hlen : (dollar :: lparen :: name ++ rparen :: rest).length =
                rest.length + (name.length + 3) := by
              simp only [List.length_cons, List.length_append]
              omega
            rw [hlen]
            exact hstep (.var name) (by decide) hrest ((onlyVar_length x).trans (by omega))
              (by omega) hlen.ge
          · rw [pieces_open hprev hbehind hclosed]
            exact Nat.zero_le _
        · have hle := ih text.length (by simp) hbehind hdb rfl
          rw [pieces_two hprev hdb hd, piecesText_cons, piecesText_cons]
          simp only [pieceText, List.length_append, List.length_cons, List.length_nil]
          omega

theorem misread_differs (h : Misread text) (hplain : backslash ∉ text) :
    ∃ x, ∀ prev ≠ backslash, ∃ k < text.length,
      (piecesText (onlyVar x) (pieces prev text))[k]? ≠ (expand (onlyVar x) text)[k]? := by
  induction h with
  | ends =>
    refine ⟨[], fun prev hprev => ⟨0, Nat.one_pos, ?_⟩⟩
    rw [pieces_end prev hprev, expand_open fun h => by cases h.1]
    exact fun h => by cases h
  | @unclosed text hopen =>
    refine ⟨[], fun prev hprev => ⟨0, Nat.succ_pos _, ?_⟩⟩
    have hclosed : ¬ Closed (lparen :: text) := fun h => hopen h.2
    rw [pieces_open hprev (plain_cons (plain_cons hplain).2).2 hopen, expand_open hclosed]
    exact fun h => by cases h
  | @doubled name text hname =>
    refine ⟨name, fun prev hprev => ⟨1, by simp, ?_⟩⟩
    have htwo : pieces prev (dollar :: dollar :: lparen :: name ++ rparen :: text) = _ :=
      pieces_two hprev (by decide) (by decide)
    have hexpand : expand (onlyVar name) (dollar :: dollar :: lparen :: name ++ rparen :: text) =
        dollar :: expand (onlyVar name) (dollar :: lparen :: name ++ rparen :: text) :=
      expand_open fun h => by cases h.1
    rw [htwo, hexpand, expand_var hname, onlyVar, if_pos rfl]
    exact fun h => by cases h
  | @char c text hc _ ih =>
    obtain ⟨hcb, hplain⟩ := plain_cons hplain
    obtain ⟨x, hx⟩ := ih hplain
    refine ⟨x, fun prev hprev => ?_⟩
    obtain ⟨k, hk, hdiff⟩ := hx c hcb
    refine ⟨k + 1, Nat.succ_lt_succ hk, ?_⟩
    rw [pieces_char hcb hc, expand_char hc, piecesText_cons]
    exact hdiff
  | @var name text hname _ ih =>
    obtain ⟨hname', htext⟩ := plain_var hplain
    obtain ⟨x, hx⟩ := ih htext
    refine ⟨x, fun prev hprev => ?_⟩
    obtain ⟨k, hk, hdiff⟩ := hx rparen (by decide)
    have hshort : ((onlyVar x name).getD []).length ≤ 1 := onlyVar_length x
    refine ⟨((onlyVar x name).getD []).length + k, ?_, ?_⟩
    · simp only [List.length_cons, List.length_append]
      omega
    rw [pieces_var hprev hname' hname, expand_var hname, piecesText_cons, pieceText,
      List.getElem?_append_right (Nat.le_add_right ..), List.getElem?_append_right
      (Nat.le_add_right ..), Nat.add_sub_cancel_left]
    exact hdiff
  | @two d text hd hdouble _ ih =>
    obtain ⟨hdb, hplain⟩ := plain_cons (plain_cons hplain).2
    obtain ⟨x, hx⟩ := ih hplain
    refine ⟨x, fun prev hprev => ?_⟩
    obtain ⟨k, hk, hdiff⟩ := hx d hdb
    refine ⟨k + 2, by simpa using hk, ?_⟩
    rw [pieces_two hprev hdb hd, expand_two hd hdouble, piecesText_cons, piecesText_cons]
    exact hdiff

variable (cbSize input) in
/-- **When macros are expanded.** What is stored is terminated when the text of the pieces fits;
and exactly for the regular strings this is all that is needed, in every environment. -/
theorem process_macros_iff (hlen : input.length < cbSize) :
    (∀ getenv, Expands cbSize getenv input →
      (piecesText getenv (pieces 0 input)).length < cbSize) ∧
    ((∀ getenv, (piecesText getenv (pieces 0 input)).length < cbSize →
      Expands cbSize getenv input) ↔ (backslash ∉ input → Regular input)) := by
  have hstored (getenv) : processMacros cbSize getenv input =
      (piecesText getenv (pieces 0 input)).take cbSize := by
    rw [processMacros, macroLoop_dollar (Nat.zero_le _), List.nil_append]
  refine ⟨fun getenv h => ?_, fun h hplain => ?_, fun h getenv hfits => ⟨fun hplain => ?_, ?_⟩⟩
  · have hnul := h.nul
    rw [hstored, List.length_take] at hnul
    omega
  · refine (regular_or_misread input).resolve_right fun hmisread => ?_
    obtain ⟨x, hx⟩ := misread_differs hmisread hplain
    obtain ⟨k, hk, hdiff⟩ := hx 0 (by decide)
    have hshort : (piecesText (onlyVar x) (pieces 0 input)).length ≤ input.length :=
      piecesText_length hplain (by decide)
    have htext := (h (onlyVar x) (hshort.trans_lt hlen)).text hplain
    rw [hstored, List.take_of_length_le (hshort.trans hlen.le)] at htext
    rw [htext, List.getElem?_take_of_lt (by omega)] at hdiff
    exact hdiff rfl
  · have hread : piecesText getenv (pieces 0 input) = expand getenv input :=
      piecesText_regular (h hplain) hplain (by decide)
    rw [hstored, hread]
    rw [hread] at hfits
    rw [List.take_of_length_le hfits.le, List.take_of_length_le (Nat.le_sub_one_of_lt hfits)]
  · rw [hstored, List.length_take]
    exact (min_le_right ..).trans_lt hfits

end

/-- `$(a)b` in an environment where `a` is `x`. -/
theorem process_macros_iff_ab :
    Expands 16 (onlyVar [97]) (dollar :: lparen :: [97] ++ rparen :: [98]) := by
  have hregular : Regular (dollar :: lparen :: [97] ++ rparen :: [98]) :=
    .var (by decide) (.char (by decide) .nil)
  have hshort : (piecesText (onlyVar [97])
      (pieces 0 (dollar :: lparen :: [97] ++ rparen :: [98]))).length ≤ 5 :=
    piecesText_length (by decide) (by decide)
  exact (process_macros_iff 16 _ (by decide)).2.mpr (fun _ => hregular) _
    (hshort.trans_lt (by decide))

/-- The text behind a `$(` that is not closed is lost. -/
theorem process_macros_unclosed : ¬ Expands 16 (fun _ => none) [97, dollar, lparen, 98] := by
  have hopen : ¬ Closed [lparen, 98] := fun h => absurd h.2 (by decide)
  have hexpand : expand (fun _ => none) [97, dollar, lparen, 98] = [97, dollar, lparen, 98] := by
    rw [expand_char (by decide), expand_open hopen, expand_char (by decide),
      expand_char (by decide), expand]
  intro h
  have htext := h.text (by decide)
  rw [hexpand] at htext
  exact absurd htext (by decide)

end UBoot.Command
