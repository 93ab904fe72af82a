import UBoot.Command.Fits

/-!
# `parse_line` on the line's own memory (`common/main.c`)

The arguments are pointers into the line, and `parse_line` ends each of them where the blank
behind it was. `parse_line_iff` says for which lines the arguments are the words of the line with a
null pointer behind them.
-/

namespace UBoot.Command

/-- A string in memory: its characters, and what lies behind its NUL. -/
structure CLine where
  text : List UInt8
  behind : List UInt8
  no_nul : (0 : UInt8) ∉ text

def CLine.bytes (l : CLine) : List UInt8 := l.text ++ 0 :: l.behind

/-- What `parse_line` leaves: its result, `argv` with pointers into the line, the line, and
whether it said `Too many args`. -/
structure Parsed where
  nargs : ℕ
  argv : ℕ → Option ℕ
  line : List UInt8
  tooMany : Bool

/-- `++line` while `q` holds of `*line`. -/
def skipWhile (q : UInt8 → Bool) (buf : List UInt8) (line : ℕ) : Except Fault ℕ :=
  if h : line < buf.length then
    if q buf[line] then skipWhile q buf (line + 1) else .ok line
  else .error .overrun
  termination_by buf.length - line

/-- The loop of `parse_line`, with room for `left` more arguments. -/
def parseLineLoop (buf : List UInt8) (argv : ℕ → Option ℕ) (nargs line : ℕ) :
    ℕ → Except Fault Parsed
  | 0 => .ok ⟨nargs, argv, buf, true⟩
  | left + 1 => do
    let line ← skipWhile isBlank buf line
    if buf[line]? = some 0 then return ⟨nargs, Function.update argv nargs none, buf, false⟩
    let argv := Function.update argv nargs (some line)
    let line ← skipWhile (fun c => c ≠ 0 && !isBlank c) buf line
    if buf[line]? = some 0 then
      return ⟨nargs + 1, Function.update argv (nargs + 1) none, buf, false⟩
    parseLineLoop (buf.set line 0) argv (nargs + 1) (line + 1) left

def parseLine (maxArgs : ℕ) (line : List UInt8) (argv : ℕ → Option ℕ) : Except Fault Parsed :=
  parseLineLoop line argv 0 0 maxArgs

/-- The word number `i` of a text is at `p`. -/
structure WordAt (text : List UInt8) (i p : ℕ) (w : Word) : Prop where
  word : (words text)[i]? = some w
  parts : ∃ pre post, text = pre ++ w ++ post ∧ pre.length = p ∧ words pre = (words text).take i ∧
    (∀ b ∈ pre.getLast?, isBlank b = true) ∧ ∀ b ∈ post.head?, isBlank b = true

/-- The arguments are the words of the line, as strings in the line itself. -/
structure Parsed.Splits (r : Parsed) (maxArgs : ℕ) (text : List UInt8) : Prop where
  nargs : r.nargs = min (words text).length maxArgs
  args : ∀ i < r.nargs, ∃ p w, r.argv i = some p ∧ WordAt text i p w ∧
    w ++ [0] <+: r.line.drop p
  null : r.argv r.nargs = none
  message : r.tooMany = true → maxArgs < (words text).length

section
variable {text rest pre mid post w buf done behind : List UInt8} {b c : UInt8} {i p n : ℕ}
  {q : UInt8 → Bool}

variable (pre post) in
theorem skipWhile_eq (hmid : ∀ c ∈ mid, q c = true) (hc : q c = false)
    (hp : pre.length = p) : skipWhile q (pre ++ mid ++ c :: post) p =
      .ok (p + mid.length) := by
  induction mid generalizing pre p with
  | nil =>
    rw [skipWhile, dif_pos (by simp; omega)]
    simp [← hp, hc]
  | cons d mid ih =>
    obtain ⟨hd, hmid⟩ := List.forall_mem_cons.mp hmid
    have hnext : skipWhile q (pre ++ [d] ++ mid ++ c :: post) (p + 1) =
        .ok (p + 1 + mid.length) := ih _ hmid (by simp [hp])
    rw [List.append_assoc pre [d]] at hnext
    rw [skipWhile, dif_pos (by simp; omega), if_pos (by simp [← hp, hd])]
    rw [show d :: mid = [d] ++ mid from rfl, hnext, List.length_append, List.length_singleton,
      Nat.add_assoc]

inductive Parts : List UInt8 → Prop where
  | blank {blanks : List UInt8} : (∀ c ∈ blanks, isBlank c = true) → Parts blanks
  | word {blanks w : List UInt8} : (∀ c ∈ blanks, isBlank c = true) →
      (∀ c ∈ w, isBlank c = false) → w ≠ [] → Parts (blanks ++ w)
  | more {blanks w rest : List UInt8} {b : UInt8} : (∀ c ∈ blanks, isBlank c = true) →
      (∀ c ∈ w, isBlank c = false) → w ≠ [] → isBlank b = true →
      Parts (blanks ++ w ++ b :: rest)

theorem parts (text : List UInt8) : Parts text := by
  have hblanks := forall_takeWhile isBlank text
  have hsplit := List.takeWhile_append_dropWhile (p := isBlank) (l := text)
  cases lineShape text with
  | blank hd =>
    rw [hd, List.append_nil] at hsplit
    exact .blank (List.dropWhile_eq_nil_iff.mp hd)
  | @word w c hd ht =>
    rw [← hsplit, hd]
    refine .word hblanks (fun d hd' => ?_) (List.cons_ne_nil _ _)
    rw [← ht] at hd'
    simpa using forall_takeWhile _ _ d hd'
  | @more s w rest c b hd ht hd' hb =>
    have hword := List.takeWhile_append_dropWhile (p := fun c => !isBlank c) (l := c :: s)
    rw [ht, hd'] at hword
    rw [← hsplit, hd, ← hword, ← List.append_assoc]
    refine .more hblanks (fun d hmem => ?_) ?_ hb
    · rw [← ht] at hmem
      simpa using forall_takeWhile _ _ d hmem
    · rw [← ht, List.takeWhile_cons_of_pos (by simp [not_head_dropWhile hd])]
      exact List.cons_ne_nil _ _

theorem wordAt_zero (hpre : ∀ c ∈ pre, isBlank c = true) (hw : ∀ c ∈ w, isBlank c = false)
    (hne : w ≠ []) (hpost : ∀ b ∈ post.head?, isBlank b = true) :
    WordAt (pre ++ w ++ post) 0 pre.length w := by
  refine ⟨?_, pre, post, rfl, rfl, ?_, fun b hb => hpre b (List.mem_of_getLast? hb), hpost⟩
  · rw [List.append_assoc, words_blanks hpre]
    cases post with
    | nil => rw [List.append_nil, words_word hw hne]; rfl
    | cons b post => rw [words_word_blank hw hne (hpost b rfl)]; rfl
  · have hblank : words (pre ++ []) = words [] := words_blanks hpre
    rwa [List.append_nil, words_nil] at hblank

theorem wordAt_succ {v : Word} (hpre : ∀ c ∈ pre, isBlank c = true)
    (hw : ∀ c ∈ w, isBlank c = false) (hne : w ≠ []) (hb : isBlank b = true)
    (h : WordAt rest i p v) :
    WordAt (pre ++ w ++ b :: rest) (i + 1) (pre.length + w.length + 1 + p) v := by
  obtain ⟨hword, before, post, hrest, hlen, htake, hlast, hhead⟩ := h
  have hwords : ∀ text, words (pre ++ w ++ b :: text) = w :: words text := fun text => by
    rw [List.append_assoc, words_blanks hpre, words_word_blank hw hne hb]
  refine ⟨by rw [hwords]; exact hword, pre ++ w ++ b :: before, post, ?_, ?_, ?_, ?_, hhead⟩
  · rw [hrest]
    simp
  · simp
    omega
  · rw [hwords, hwords, htake, List.take_succ_cons]
  · intro d hd
    cases before with
    | nil =>
      obtain rfl : b = d := by simpa using hd
      exact hb
    | cons e before =>
      rw [List.getLast?_append_of_ne_nil _ (List.cons_ne_nil _ _)] at hd
      exact hlast d hd

/-- What the loop makes of the text it has not seen, behind the part of the line it is done
with. -/
structure LoopSpec (done text : List UInt8) (argv : ℕ → Option ℕ) (nargs left : ℕ) (r : Parsed) :
    Prop where
  spills : Spills left text → r.nargs = nargs + left ∧ r.argv r.nargs = argv r.nargs ∧
    r.tooMany = true
  fits : ¬ Spills left text → r.nargs = nargs + (words text).length ∧ r.argv r.nargs = none ∧
    r.tooMany = false
  args : ∀ i, nargs + i < r.nargs → ∃ p w, r.argv (nargs + i) = some (done.length + p) ∧
    WordAt text i p w ∧ w ++ [0] <+: r.line.drop (done.length + p)
  earlier : ∀ j < nargs, r.argv j = argv j
  done : done <+: r.line

theorem getElem?_nul (hp : pre.length = p) : (pre ++ 0 :: behind)[p]? = some 0 := by
  rw [← hp, List.getElem?_append_right le_rfl, Nat.sub_self]
  rfl

theorem loopSpec_end {argv : ℕ → Option ℕ} {left : ℕ} (hblank : ∀ c ∈ text, isBlank c = true) :
    LoopSpec done text argv n (left + 1)
      ⟨n, Function.update argv n none, done ++ text ++ 0 :: behind, false⟩ := by
  have hwords : words (text ++ []) = words [] := words_blanks hblank
  rw [List.append_nil, words_nil] at hwords
  refine ⟨fun h => ?_, fun _ => ⟨by rw [hwords]; rfl, Function.update_self .., rfl⟩,
    fun i hi => absurd hi (by dsimp only; omega), fun j hj => Function.update_of_ne (by omega) ..,
    ?_⟩
  · rw [Spills, hwords] at h
    simp at h
  · rw [List.append_assoc]
    exact List.prefix_append ..

theorem prefix_drop {x y z : List UInt8} (h : x ++ y <+: z) : y <+: z.drop x.length := by
  obtain ⟨t, rfl⟩ := h
  rw [List.append_assoc, List.drop_left]
  exact List.prefix_append ..

theorem loopSpec_word {argv : ℕ → Option ℕ} {left : ℕ} (hpre : ∀ c ∈ pre, isBlank c = true)
    (hw : ∀ c ∈ w, isBlank c = false) (hne : w ≠ []) :
    LoopSpec done (pre ++ w) argv n (left + 1)
      ⟨n + 1, Function.update (Function.update argv n (some (done.length + pre.length))) (n + 1)
        none, done ++ (pre ++ w) ++ 0 :: behind, false⟩ := by
  have hwords : words (pre ++ w) = [w] := (words_blanks hpre).trans (words_word hw hne)
  have hlast : (pre ++ w).getLast?.any isBlank = false := by
    rw [List.getLast?_append_of_ne_nil _ hne, List.getLast?_eq_some_getLast hne]
    exact hw _ (List.getLast_mem hne)
  refine ⟨fun h => ?_, fun _ => ⟨by rw [hwords]; rfl, Function.update_self .., rfl⟩,
    fun i hi => ?_, fun j hj => ?_, ?_⟩
  · rw [Spills, hwords, hlast] at h
    simp at h
  · obtain rfl : i = 0 := by dsimp only at hi; omega
    have hat : WordAt (pre ++ w ++ []) 0 pre.length w :=
      wordAt_zero hpre hw hne fun b hb => by cases hb
    rw [List.append_nil] at hat
    refine ⟨pre.length, w, ?_, hat, ?_⟩
    · dsimp only
      rw [Function.update_of_ne (by omega), Nat.add_zero, Function.update_self]
    · rw [← List.length_append]
      refine prefix_drop ⟨behind, ?_⟩
      simp
  · dsimp only
    rw [Function.update_of_ne (by omega), Function.update_of_ne (by omega)]
  · rw [List.append_assoc]
    exact List.prefix_append ..

/-- A word with a blank behind it, cut off before the rest of the line. -/
theorem loopSpec_more {argv : ℕ → Option ℕ} {left : ℕ} {r : Parsed}
    (hpre : ∀ c ∈ pre, isBlank c = true) (hw : ∀ c ∈ w, isBlank c = false) (hne : w ≠ [])
    (hb : isBlank b = true) (hzero : left = 0 → r.nargs = n + 1 ∧ r.tooMany = true ∧
      r.argv = Function.update argv n (some (done.length + pre.length)) ∧
      done ++ pre ++ w ++ [0] <+: r.line)
    (hpos : 0 < left → LoopSpec (done ++ pre ++ w ++ [0]) rest
      (Function.update argv n (some (done.length + pre.length))) (n + 1) left r) :
    LoopSpec done (pre ++ w ++ b :: rest) argv n (left + 1) r := by
  have hwords : words (pre ++ w ++ b :: rest) = w :: words rest := by
    rw [List.append_assoc, words_blanks hpre, words_word_blank hw hne hb]
  have hspills : Spills (left + 1) (pre ++ w ++ b :: rest) ↔ left = 0 ∨ Spills left rest :=
    spills_step hb hwords (List.getLast?_append_of_ne_nil _ (List.cons_ne_nil _ _))
  have hat : WordAt (pre ++ w ++ b :: rest) 0 pre.length w :=
    wordAt_zero hpre hw hne fun c hc => by cases hc; exact hb
  rcases Nat.eq_zero_or_pos left with rfl | hleft
  · obtain ⟨hnargs, hmany, hargv, hline⟩ := hzero rfl
    refine ⟨fun _ => ⟨hnargs, ?_, hmany⟩, fun h => absurd (hspills.mpr (.inl rfl)) h,
      fun i hi => ?_, fun j hj => ?_, ?_⟩
    · rw [hargv, hnargs, Function.update_of_ne (by omega)]
    · obtain rfl : i = 0 := by omega
      refine ⟨pre.length, w, by rw [hargv, Nat.add_zero, Function.update_self], hat, ?_⟩
      rw [← List.length_append]
      exact prefix_drop (by rwa [← List.append_assoc])
    · rw [hargv, Function.update_of_ne (by omega)]
    · refine List.IsPrefix.trans ?_ hline
      rw [List.append_assoc, List.append_assoc]
      exact List.prefix_append ..
  · obtain ⟨hspill, hfit, hargs, hearlier, hdone⟩ := hpos hleft
    rw [or_iff_right (by omega)] at hspills
    have hself : r.argv n = some (done.length + pre.length) := by
      rw [hearlier n (by omega), Function.update_self]
    refine ⟨fun h => ?_, fun h => ?_, fun i hi => ?_, fun j hj => ?_, ?_⟩
    · obtain ⟨hnargs, hargv, hmany⟩ := hspill (hspills.mp h)
      refine ⟨by omega, ?_, hmany⟩
      rw [hargv, Function.update_of_ne (by omega)]
    · obtain ⟨hnargs, hargv, hmany⟩ := hfit fun hs => h (hspills.mpr hs)
      rw [hwords, List.length_cons]
      exact ⟨by omega, hargv, hmany⟩
    · cases i with
      | zero =>
        refine ⟨pre.length, w, hself, hat, ?_⟩
        rw [← List.length_append]
        exact prefix_drop (by rwa [← List.append_assoc])
      | succ i =>
        obtain ⟨p, v, hptr, hword, hterm⟩ := hargs i (by omega)
        refine ⟨pre.length + w.length + 1 + p, v, ?_, wordAt_succ hpre hw hne hb hword, ?_⟩
        · rw [← Nat.add_assoc n, Nat.add_right_comm, hptr]
          simp
          omega
        · convert hterm using 2
          simp
          omega
    · rw [hearlier j (by omega), Function.update_of_ne (by omega)]
    · refine List.IsPrefix.trans ?_ hdone
      rw [List.append_assoc, List.append_assoc]
      exact List.prefix_append ..

/-- The two scans of a turn: to the word, and to the character behind it. -/
theorem scan_word (hbuf : buf = done ++ pre ++ w ++ c :: post)
    (hpre : ∀ c ∈ pre, isBlank c = true) (hw : ∀ c ∈ w, isBlank c = false)
    (hne : w ≠ []) (hnul : (0 : UInt8) ∉ w) (hc : (decide (c ≠ 0) && !isBlank c) = false) :
    skipWhile isBlank buf done.length = .ok (done.length + pre.length) ∧
    buf[done.length + pre.length]? ≠ some 0 ∧
    skipWhile (fun c => c ≠ 0 && !isBlank c) buf (done.length + pre.length) =
      .ok (done.length + pre.length + w.length) ∧
    buf[done.length + pre.length + w.length]? = some c := by
  obtain ⟨d, v, rfl⟩ := List.exists_cons_of_ne_nil hne
  subst hbuf
  have hhead := skipWhile_eq done (v ++ c :: post) hpre
    (hw d (List.mem_cons_self ..)) rfl
  have hplain : ∀ e ∈ d :: v, (decide (e ≠ 0) && !isBlank e) = true := fun e he => by
    rw [hw e he, Bool.not_false, Bool.and_true, decide_eq_true_eq]
    exact ne_of_mem_of_not_mem he hnul
  have htail := skipWhile_eq (done ++ pre) post hplain hc (List.length_append ..)
  refine ⟨?_, ?_, htail, ?_⟩
  · simpa using hhead
  · rw [List.append_assoc (done ++ pre), ← List.length_append,
      List.getElem?_append_right le_rfl, Nat.sub_self]
    intro hzero
    exact hnul (Option.some.inj hzero ▸ List.mem_cons_self ..)
  · rw [← List.length_append, ← List.length_append, List.getElem?_append_right le_rfl,
      Nat.sub_self]
    rfl

section
variable {argv : ℕ → Option ℕ} {left line : ℕ}

theorem turn_end (hskip : skipWhile isBlank buf line = .ok p) (hend : buf[p]? = some 0) :
    parseLineLoop buf argv n line (left + 1) =
      .ok ⟨n, Function.update argv n none, buf, false⟩ := by
  rw [parseLineLoop, hskip]
  exact if_pos hend

theorem turn_word {e : ℕ} (hskip : skipWhile isBlank buf line = .ok p) (hword : buf[p]? ≠ some 0)
    (hskip' : skipWhile (fun c => c ≠ 0 && !isBlank c) buf p = .ok e) :
    parseLineLoop buf argv n line (left + 1) =
      if buf[e]? = some 0 then
        .ok ⟨n + 1, Function.update (Function.update argv n (some p)) (n + 1) none, buf, false⟩
      else parseLineLoop (buf.set e 0) (Function.update argv n (some p)) (n + 1) (e + 1) left := by
  rw [parseLineLoop, hskip]
  refine (if_neg hword).trans ?_
  rw [hskip']
  rfl

/-- **The loop.** Each turn cuts off a word. -/
theorem parseLineLoop_spec (hleft : 0 < left) (hnul : (0 : UInt8) ∉ text) :
    ∃ r, parseLineLoop (done ++ text ++ 0 :: behind) argv n done.length left = .ok r ∧
      LoopSpec done text argv n left r := by
  induction left generalizing done text argv n with
  | zero => omega
  | succ left ih =>
    cases parts text with
    | blank hblank =>
      exact ⟨_, turn_end (skipWhile_eq _ _ hblank (by decide) rfl)
        (getElem?_nul (List.length_append ..)), loopSpec_end hblank⟩
    | @word pre w hpre hw hne =>
      have hassoc : done ++ (pre ++ w) ++ 0 :: behind = done ++ pre ++ w ++ 0 :: behind := by
        rw [← List.append_assoc]
      obtain ⟨hskip, hchar, hskip', hend⟩ := scan_word hassoc hpre hw hne
        (fun h => hnul (List.mem_append_right _ h)) (by decide)
      exact ⟨_, (turn_word hskip hchar hskip').trans (if_pos hend), loopSpec_word hpre hw hne⟩
    | @more pre w rest b hpre hw hne hb =>
      have hbz : b ≠ 0 := by
        rintro rfl
        exact absurd hb (by decide)
      have hassoc : done ++ (pre ++ w ++ b :: rest) ++ 0 :: behind =
          done ++ pre ++ w ++ b :: (rest ++ 0 :: behind) := by simp
      obtain ⟨hskip, hchar, hskip', hblank⟩ := scan_word hassoc hpre hw hne
        (fun h => hnul (List.mem_append_left _ (List.mem_append_right _ h))) (by simp [hb])
      have hset : (done ++ (pre ++ w ++ b :: rest) ++ 0 :: behind).set
          (done.length + pre.length + w.length) 0 =
          done ++ pre ++ w ++ [0] ++ rest ++ 0 :: behind := by
        rw [hassoc, ← List.length_append, ← List.length_append, List.set_append_right _ _ le_rfl,
          Nat.sub_self]
        simp
      have hnext : done.length + pre.length + w.length + 1 =
          (done ++ pre ++ w ++ [0]).length := by
        simp
        omega
      have hturn : parseLineLoop (done ++ (pre ++ w ++ b :: rest) ++ 0 :: behind) argv n
          done.length (left + 1) = parseLineLoop (done ++ pre ++ w ++ [0] ++ rest ++ 0 :: behind)
            (Function.update argv n (some (done.length + pre.length))) (n + 1)
            (done ++ pre ++ w ++ [0]).length left := by
        rw [turn_word hskip hchar hskip', if_neg (hblank ▸ fun h => hbz (Option.some.inj h)), hset,
          hnext]
      rw [hturn]
      rcases Nat.eq_zero_or_pos left with rfl | hpos
      · refine ⟨_, rfl, loopSpec_more hpre hw hne hb (fun _ => ⟨rfl, rfl, rfl, ?_⟩)
          fun h => absurd h (by omega)⟩
        rw [List.append_assoc _ rest]
        exact List.prefix_append ..
      · obtain ⟨r, hr, hspec⟩ : ∃ r, _ = Except.ok r ∧ LoopSpec (done ++ pre ++ w ++ [0]) rest
            (Function.update argv n (some (done.length + pre.length))) (n + 1) left r :=
          ih hpos fun h => hnul (List.mem_append_right _ (List.mem_cons_of_mem _ h))
        exact ⟨r, hr, loopSpec_more hpre hw hne hb (fun h => absurd h (by omega)) fun _ => hspec⟩

end

end

/-! ## The arguments of a command -/

theorem parseLine_spec (l : CLine) (argv : ℕ → Option ℕ) {max : ℕ} (hmax : 0 < max) :
    ∃ r, parseLine max l.bytes argv = .ok r ∧ LoopSpec [] l.text argv 0 max r :=
  @parseLineLoop_spec l.text [] l.behind 0 argv max hmax l.no_nul

section
variable (cfg : CmdCfg) (l : CLine) (argv : ℕ → Option ℕ)

/-- **`parse_line`.** It splits a line into its words unless there is text behind the last word
there is room for; the null pointer may then be there from before. -/
theorem parse_line_iff : ∃ r, parseLine cfg.maxArgs l.bytes argv = .ok r ∧
    (r.Splits cfg.maxArgs l.text ↔ ¬ Spills cfg.maxArgs l.text ∨
      cfg.maxArgs < (words l.text).length ∧ argv cfg.maxArgs = none) := by
  obtain ⟨r, hr, hspec⟩ := parseLine_spec l argv cfg.maxArgs_pos
  refine ⟨r, hr, ?_⟩
  have hargs : ∀ i < r.nargs, ∃ p w, r.argv i = some p ∧ WordAt l.text i p w ∧
      w ++ [0] <+: r.line.drop p := by
    intro i hi
    obtain ⟨p, w, hptr, hword⟩ := hspec.args i (by omega)
    rw [List.length_nil, Nat.zero_add] at hptr hword
    rw [Nat.zero_add] at hptr
    exact ⟨p, w, hptr, hword⟩
  by_cases hspills : Spills cfg.maxArgs l.text
  · obtain ⟨hnargs, hnull, hmany⟩ := hspec.spills hspills
    rw [Nat.zero_add] at hnargs
    rw [hnargs] at hnull
    rw [or_iff_right (not_not.mpr hspills)]
    constructor
    · intro h
      exact ⟨h.message hmany, by rw [← hnull, ← hnargs]; exact h.null⟩
    · rintro ⟨hlong, hnone⟩
      exact ⟨by omega, hargs, by rw [hnargs, hnull, hnone], fun _ => hlong⟩
  · obtain ⟨hnargs, hnull, hmany⟩ := hspec.fits hspills
    refine iff_of_true ⟨?_, hargs, hnull, fun h => ?_⟩ (.inl hspills)
    · rw [Spills] at hspills
      omega
    · rw [hmany] at h
      cases h

end

theorem fullText_no_nul : (0 : UInt8) ∉ (List.replicate 16 [97, 32]).flatten := by
  decide

/-- `CFG_MAXARGS` words of one letter, each with a blank behind it. -/
def fullLine : CLine where
  text := (List.replicate 16 [97, 32]).flatten
  behind := []
  no_nul := fullText_no_nul

/-- All words of the line fit, but the last one has a blank behind it. -/
theorem parse_line_unended : ¬ ∃ r, parseLine echoCfg.maxArgs fullLine.bytes (fun _ => some 0) =
    .ok r ∧ r.Splits echoCfg.maxArgs fullLine.text := by
  rintro ⟨r, hr, hsplits⟩
  obtain ⟨r', hr', hspec⟩ := parseLine_spec fullLine (fun _ => some 0) echoCfg.maxArgs_pos
  obtain rfl : r = r' := Except.ok.inj (hr.symm.trans hr')
  have hwords : (words fullLine.text).length = 16 := by decide
  have hspills : Spills echoCfg.maxArgs fullLine.text := .inr ⟨hwords, by decide⟩
  have hlong := hsplits.message (hspec.spills hspills).2.2
  rw [hwords] at hlong
  exact absurd hlong (by decide)

end UBoot.Command
