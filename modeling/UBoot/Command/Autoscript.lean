import UBoot.Command.Stack
import UBoot.Image.Agree

/-!
# Executing a script image: `autoscript` (`common/cmd_autoscript.c`)

`autoscript` checks the image, copies the first file of it into a buffer and runs it line by line,
with `run_command` as a parameter. `lines` are the lines of a text; `autoscript_iff` says when the
lines of the first file are what is run.
-/

namespace UBoot.Command

open UBoot.Lib UBoot.Image

/-- What ends `autoscript` with 1 before a line is run. -/
inductive Refused where
  | image (s : Stop)
  | badImageType
  | emptyScript
  | noMemory

/-- A result, the lines that `run_command` was called for, and the state behind them. -/
structure Ran (σ : Type) where
  rcode : ℤ
  calls : List (List UInt8)
  state : σ

/-- `while (*len_ptr++);` -/
def skipTable (m : Mem32) : ℕ → UInt32 → Except Refused UInt32
  | 0, _ => .error (.image .noEnd)
  | fuel + 1, lenPtr =>
    if m.word lenPtr = 0 then .ok (lenPtr + 4) else skipTable m fuel (lenPtr + 4)

/-- The buffer `cmd`: the script, and a NUL behind it. The checks of the image are those of
`do_bootm`; `malloc` may fail. -/
def scriptBuffer (b : Board) (malloc : UInt32 → Bool) (m : Mem32) (addr : UInt32) :
    Except Refused (List UInt8) := do
  let hdr ← (checkImage b m addr).mapError .image
  if hdr.type ≠ ihTypeScript then throw .badImageType
  let len := m.word (addr + 64)
  if len = 0 then throw .emptyScript
  if malloc (len + 1) = false then throw .noMemory
  let lenPtr ← skipTable m memWords (addr + 64)
  return m.read lenPtr len.toNat ++ [0]

/-- The string at `p`. -/
def strAt (cmd : List UInt8) (p : ℕ) : List UInt8 := (cmd.drop p).takeWhile (· ≠ 0)

section
variable {σ : Type} (run : List UInt8 → σ → ℤ × σ)

/-- The loop of `autoscript`; a newline is overwritten. -/
def scriptLoop (cmd : List UInt8) (line next : ℕ) (calls : List (List UInt8)) (s : σ) :
    Except Oob (Ran σ) :=
  if h : next < cmd.length then
    if cmd[next] = 0 then .ok ⟨0, calls, s⟩
    else if cmd[next] = 10 then
      if 1 < next - line then
        let text := strAt (cmd.set next 0) line
        let r := run text s
        if r.1 < 0 then .ok ⟨1, calls ++ [text], r.2⟩
        else scriptLoop (cmd.set next 0) (next + 1) (next + 1) (calls ++ [text]) r.2
      else scriptLoop (cmd.set next 0) (next + 1) (next + 1) calls s
    else scriptLoop cmd line (next + 1) calls s
  else .error .read
  termination_by cmd.length - next
  decreasing_by
    all_goals
      try rw [List.length_set]
      omega

/-- `autoscript`: the text that is taken, and what became of it. -/
def autoscript (b : Board) (malloc : UInt32 → Bool) (m : Mem32) (addr : UInt32) (s : σ) :
    Except Refused (List UInt8 × Except Oob (Ran σ)) :=
  (scriptBuffer b malloc m addr).map fun cmd => (cmd.dropLast, scriptLoop run cmd 0 0 [] s)

/-! ## What a script means -/

/-- The lines, in order, up to the first for which `run_command` is negative. -/
def runLines : List (List UInt8) → σ → Ran σ
  | [], s => ⟨0, [], s⟩
  | line :: lines, s =>
    let r := run line s
    if r.1 < 0 then ⟨1, [line], r.2⟩
    else
      let rest := runLines lines r.2
      ⟨rest.rcode, line :: rest.calls, rest.state⟩

/-- The lines of a text that are ended by a newline, and what is behind the last newline. -/
def ended (text : List UInt8) : List (List UInt8) := (text.splitOn 10).dropLast
def unended (text : List UInt8) : List UInt8 := (text.splitOn 10).getLastD []

/-- The lines that are not empty. -/
def lines (text : List UInt8) : List (List UInt8) :=
  (ended text ++ [unended text]).filter (· ≠ [])

/-- The text is that of the script, and its lines are run as they should. -/
structure RunsScript (script : List UInt8) (s : σ) (out : List UInt8 × Except Oob (Ran σ)) :
    Prop where
  text : out.1 = script
  ran : out.2 = .ok (runLines run (lines script) s)

/-- Every line that is reached has two characters and a newline behind it. -/
def LongEnded : List (List UInt8) → List UInt8 → σ → Prop
  | [], last, _ => last = []
  | line :: lines, last, s =>
    1 < line.length ∧ (0 ≤ (run line s).1 → LongEnded lines last (run line s).2)

end

section
variable {σ : Type} {run : List UInt8 → σ → ℤ × σ} {s : σ} {ls : List (List UInt8)}
  {last done cur rest : List UInt8} {calls : List (List UInt8)}

def Ran.after (r : Ran σ) (calls : List (List UInt8)) : Ran σ :=
  { r with calls := calls ++ r.calls }

theorem runLines_mem : ∀ line ∈ (runLines run ls s).calls, line ∈ ls := by
  induction ls generalizing s with
  | nil => exact fun line h => absurd h List.not_mem_nil
  | cons l ls ih =>
    intro line h
    rw [runLines] at h
    dsimp only at h
    split_ifs at h
    · exact List.mem_singleton.mp h ▸ List.mem_cons_self ..
    · rcases List.mem_cons.mp h with rfl | h
      · exact List.mem_cons_self ..
      · exact List.mem_cons_of_mem _ (ih line h)

theorem runLines_head (l : List UInt8) : l ∈ (runLines run (l :: ls) s).calls := by
  rw [runLines]
  dsimp only
  split_ifs
  · exact List.mem_singleton_self l
  · exact List.mem_cons_self ..

/-- Leaving out the lines of one character and the last one changes nothing exactly if none of
them is reached. -/
theorem runLines_iff (ls : List (List UInt8)) (last : List UInt8) (s : σ) :
    runLines run (ls.filter (1 < ·.length)) s = runLines run (ls ++ [last].filter (· ≠ [])) s ↔
      LongEnded run ls last s := by
  induction ls generalizing s with
  | nil =>
    rw [LongEnded]
    by_cases hlast : last = []
    · rw [hlast]
      exact iff_of_true rfl rfl
    · refine iff_of_false (fun h => ?_) hlast
      have hone : [last].filter (· ≠ []) = [last] :=
        List.filter_cons_of_pos (by simpa using hlast)
      rw [hone, List.nil_append] at h
      have hmem : last ∈ (runLines run [last] s).calls := runLines_head last
      rw [← h] at hmem
      exact absurd hmem List.not_mem_nil
  | cons l ls ih =>
    rw [LongEnded, List.cons_append]
    by_cases hl : 1 < l.length
    · rw [List.filter_cons_of_pos (by simpa using hl), runLines, runLines, and_iff_right hl]
      dsimp only
      by_cases hneg : (run l s).1 < 0
      · rw [if_pos hneg, if_pos hneg]
        exact iff_of_true rfl fun h => absurd hneg (by omega)
      · rw [if_neg hneg, if_neg hneg, ← ih, Ran.mk.injEq, List.cons.injEq]
        refine ⟨fun ⟨h, ⟨_, h'⟩, h''⟩ _ => ?_, fun h => ?_⟩
        · exact Ran.mk.injEq .. ▸ ⟨h, h', h''⟩
        · rw [h (by omega)]
          exact ⟨rfl, ⟨rfl, rfl⟩, rfl⟩
    · refine iff_of_false (fun h => ?_) fun h => hl h.1
      have hmem : l ∈ (runLines run ((l :: ls).filter (1 < ·.length)) s).calls := by
        rw [h]
        exact runLines_head l
      have hlong := List.of_mem_filter (runLines_mem _ hmem)
      exact hl (by simpa using hlong)

/-! ## The loop over the buffer -/

theorem scriptLines_eq (hcur : (10 : UInt8) ∉ cur) (hnul : (0 : UInt8) ∉ rest) :
    scriptLines cur rest = (ended (cur ++ rest)).filter (1 < ·.length) := by
  rw [ended]
  induction rest generalizing cur with
  | nil =>
    rw [List.append_nil, List.splitOn_eq_singleton hcur]
    rfl
  | cons c rest ih =>
    have hc : c ≠ 0 := fun h => hnul (h ▸ List.mem_cons_self ..)
    have hrest : (0 : UInt8) ∉ rest := fun h => hnul (List.mem_cons_of_mem _ h)
    rw [scriptLines, if_neg hc]
    by_cases hnl : c = 10
    · subst hnl
      rw [if_pos rfl, List.splitOn_append_cons_self_of_not_mem hcur,
        List.dropLast_cons_of_ne_nil (List.splitOn_ne_nil _ _)]
      have hih : scriptLines [] rest = ((rest.splitOn 10).dropLast).filter (1 < ·.length) :=
        ih List.not_mem_nil hrest
      by_cases hlong : 1 < cur.length
      · rw [if_pos hlong, List.filter_cons_of_pos (by simpa using hlong), hih]
      · rw [if_neg hlong, List.filter_cons_of_neg (by simpa using hlong), hih]
    · rw [if_neg hnl, ih (by simpa using ⟨hcur, Ne.symm hnl⟩) hrest, List.append_assoc]
      rfl

theorem scriptLoop_at {c : UInt8} {pre post : List UInt8} {line next : ℕ}
    (hnext : pre.length = next) : scriptLoop run (pre ++ c :: post) line next calls s =
      if c = 0 then .ok ⟨0, calls, s⟩
      else if c = 10 then
        if 1 < next - line then
          if (run (strAt (pre ++ 0 :: post) line) s).1 < 0 then
            .ok ⟨1, calls ++ [strAt (pre ++ 0 :: post) line],
              (run (strAt (pre ++ 0 :: post) line) s).2⟩
          else scriptLoop run (pre ++ 0 :: post) (next + 1) (next + 1)
            (calls ++ [strAt (pre ++ 0 :: post) line]) (run (strAt (pre ++ 0 :: post) line) s).2
        else scriptLoop run (pre ++ 0 :: post) (next + 1) (next + 1) calls s
      else scriptLoop run (pre ++ c :: post) line (next + 1) calls s := by
  subst hnext
  have hget (h : pre.length < (pre ++ c :: post).length) : (pre ++ c :: post)[pre.length] = c := by
    simp
  have hset : (pre ++ c :: post).set pre.length 0 = pre ++ 0 :: post := by simp
  rw [scriptLoop, dif_pos (by simp), hget, hset]

theorem strAt_line (hcur : (0 : UInt8) ∉ cur) :
    strAt (done ++ cur ++ 0 :: rest) done.length = cur := by
  have hall : ∀ c ∈ cur, (decide (c ≠ 0)) = true := fun c hc =>
    decide_eq_true (ne_of_mem_of_not_mem hc hcur)
  rw [strAt, List.append_assoc, List.drop_left, List.takeWhile_append_of_pos hall,
    List.takeWhile_cons_of_neg (by simp), List.append_nil]

/-- **The loop.** `done` is behind it, and `cur` is the line it is in. -/
theorem scriptLoop_eq (hcur : (10 : UInt8) ∉ cur) (hcur' : (0 : UInt8) ∉ cur)
    (hnul : (0 : UInt8) ∉ rest) :
    scriptLoop run (done ++ cur ++ (rest ++ [0])) done.length (done.length + cur.length) calls s =
      .ok ((runLines run (scriptLines cur rest) s).after calls) := by
  induction rest generalizing done cur calls s with
  | nil =>
    rw [List.nil_append, scriptLoop_at List.length_append, if_pos rfl, Ran.after]
    simp only [scriptLines, runLines, List.append_nil]
  | cons c rest ih =>
    have hc : c ≠ 0 := fun h => hnul (h ▸ List.mem_cons_self ..)
    have hrest : (0 : UInt8) ∉ rest := fun h => hnul (List.mem_cons_of_mem _ h)
    rw [List.cons_append, scriptLoop_at List.length_append, if_neg hc, scriptLines, if_neg hc,
      strAt_line hcur']
    by_cases hnl : c = 10
    · rw [if_pos hnl, if_pos hnl, Nat.add_sub_cancel_left]
      have hnext : ∀ calls s, scriptLoop run (done ++ cur ++ 0 :: (rest ++ [0]))
          (done.length + cur.length + 1) (done.length + cur.length + 1) calls s =
          .ok ((runLines run (scriptLines [] rest) s).after calls) := by
        intro calls s
        have hih : scriptLoop run (done ++ cur ++ [0] ++ [] ++ (rest ++ [0]))
            (done ++ cur ++ [0]).length ((done ++ cur ++ [0]).length + 0) calls s = _ :=
          ih List.not_mem_nil List.not_mem_nil hrest
        simpa [Nat.add_assoc] using hih
      by_cases hlong : 1 < cur.length
      · rw [if_pos hlong, if_pos hlong, runLines, hnext]
        dsimp only
        split_ifs
        · rfl
        · simp [Ran.after]
      · rw [if_neg hlong, if_neg hlong, hnext]
    · rw [if_neg hnl, if_neg hnl]
      have hih : scriptLoop run (done ++ (cur ++ [c]) ++ (rest ++ [0])) done.length
          (done.length + (cur ++ [c]).length) calls s = _ :=
        ih (by simpa using ⟨hcur, Ne.symm hnl⟩) (by simpa using ⟨hcur', Ne.symm hc⟩) hrest
      rw [← hih]
      simp [Nat.add_assoc]

theorem scriptLoop_lines {text : List UInt8} (hnul : (0 : UInt8) ∉ text) :
    scriptLoop run (text ++ [0]) 0 0 [] s =
      .ok (runLines run ((ended text).filter (1 < ·.length)) s) := by
  have hloop : scriptLoop run ([] ++ [] ++ (text ++ [0])) 0 0 [] s =
      .ok ((runLines run (scriptLines [] text) s).after []) :=
    scriptLoop_eq List.not_mem_nil List.not_mem_nil hnul
  rw [scriptLines_eq List.not_mem_nil hnul] at hloop
  exact hloop

/-- The lines of a text that are not empty, of those that are ended and of the last one. -/
theorem lines_eq (text : List UInt8) :
    lines text = (ended text).filter (· ≠ []) ++ [unended text].filter (· ≠ []) :=
  List.filter_append ..

theorem filter_long (ls : List (List UInt8)) :
    (ls.filter (· ≠ [])).filter (1 < ·.length) = ls.filter (1 < ·.length) := by
  rw [List.filter_filter]
  refine List.filter_congr fun l _ => ?_
  cases l <;> simp

end

/-! ## The script in an image -/

section
variable {σ : Type} {run : List UInt8 → σ → ℤ × σ} {s : σ} {b : Board} {malloc : UInt32 → Bool}
  {m : Mem32} {addr lenPtr : UInt32} {sizes : List UInt32} {fuel i : ℕ} {o : Options}
  {mtime : UInt32} {image first : List UInt8} {rest : List (List UInt8)}

theorem skipTable_of_table (h : TableAt m lenPtr sizes) (hne : ∀ x ∈ sizes, x ≠ 0)
    (hi : i ≤ sizes.length) (hfuel : sizes.length - i < fuel) :
    skipTable m fuel (lenPtr + UInt32.ofNat (4 * i)) =
      .ok (lenPtr + UInt32.ofNat (4 * (sizes.length + 1))) := by
  induction fuel generalizing i with
  | zero => omega
  | succ fuel ih =>
    have hnext (k : ℕ) :
        lenPtr + UInt32.ofNat (4 * k) + 4 = lenPtr + UInt32.ofNat (4 * (k + 1)) := by
      rw [Nat.mul_add, UInt32.ofNat_add, UInt32.add_assoc]
      rfl
    rw [skipTable, hnext]
    rcases Nat.lt_or_ge i sizes.length with hlt | hge
    · have hword : m.word (lenPtr + UInt32.ofNat (4 * i)) ≠ 0 := by
        rw [h.entry i hlt]
        exact hne _ (List.getElem_mem hlt)
      rw [if_neg hword, ih hlt (by omega)]
    · obtain rfl : i = sizes.length := by omega
      rw [if_pos h.stop]

theorem scriptBuffer_eq (h : mkimage o mtime (first :: rest) = some image)
    (hl : Loaded m addr image) (htype : o.type = ihTypeScript) (hx : o.xflag = false)
    (hne : ∀ file ∈ first :: rest, file ≠ [])
    (hmalloc : malloc (UInt32.ofNat first.length + 1) = true) :
    scriptBuffer b malloc m addr = .ok (first ++ [0]) := by
  obtain ⟨hdr, body, hbody, hf⟩ := mkimage_found b h hl
  obtain ⟨hmulti, -⟩ := multiBody_of_table hbody (by rw [Options.hasTable, htype]; decide)
  have htable := tableAt_of_found hf hmulti
  have hsizes := lengths_ne_zero hne hmulti.small
  have hzero : addr + 64 + UInt32.ofNat (4 * 0) = addr + 64 := UInt32.add_zero _
  have hlen : m.word (addr + 64) = UInt32.ofNat first.length := by
    rw [← hzero]
    exact htable.entry 0 (by simp [lengths])
  have hlen0 : UInt32.ofNat first.length ≠ 0 := hsizes _ (List.mem_cons_self ..)
  have hskip : skipTable m memWords (addr + 64) =
      .ok (addr + 64 + UInt32.ofNat (4 * ((lengths (first :: rest)).length + 1))) := by
    have hfew : (lengths (first :: rest)).length < memWords := by
      have hfits := hf.fits
      rw [hmulti.body, List.length_append, lengthTable_length] at hfits
      rw [lengths_length]
      show (first :: rest).length < 2 ^ 30
      omega
    have hskip := skipTable_of_table (i := 0) htable hsizes (Nat.zero_le _) hfew
    rwa [hzero] at hskip
  have hread := payload_multi hf hmulti hx
  rw [scriptBuffer, hf.check]
  simp only [Except.mapError, bind, Except.bind]
  rw [if_neg (by rw [hf.type, htype]; decide), hlen, if_neg hlen0, if_neg (by rw [hmalloc]; decide),
    hskip]
  exact congrArg (fun text => Except.ok (text ++ [0])) hread

variable (run s) in
theorem autoscript_eq (h : mkimage o mtime (first :: rest) = some image)
    (hl : Loaded m addr image) (htype : o.type = ihTypeScript) (hx : o.xflag = false)
    (hne : ∀ file ∈ first :: rest, file ≠ [])
    (hmalloc : malloc (UInt32.ofNat first.length + 1) = true) (hnul : (0 : UInt8) ∉ first) :
    autoscript run b malloc m addr s =
      .ok (first, .ok (runLines run ((ended first).filter (1 < ·.length)) s)) := by
  rw [autoscript, scriptBuffer_eq h hl htype hx hne hmalloc, Except.map, List.dropLast_concat,
    scriptLoop_lines hnul]

theorem runsScript_iff :
    RunsScript run first s (first, .ok (runLines run ((ended first).filter (1 < ·.length)) s)) ↔
      LongEnded run ((ended first).filter (· ≠ [])) (unended first) s := by
  rw [← runLines_iff, ← lines_eq, filter_long]
  exact ⟨fun h => Except.ok.inj h.ran, fun h => ⟨rfl, congrArg Except.ok h⟩⟩

/-- **The script of an image.** It is the first file, and its lines are run as they should exactly
when every line that is reached has two characters and a newline behind it. -/
theorem autoscript_iff (b : Board) (malloc : UInt32 → Bool) (run : List UInt8 → σ → ℤ × σ) (s : σ)
    (h : mkimage o mtime (first :: rest) = some image) (hl : Loaded m addr image)
    (htype : o.type = ihTypeScript) (hx : o.xflag = false)
    (hne : ∀ file ∈ first :: rest, file ≠ [])
    (hmalloc : malloc (UInt32.ofNat first.length + 1) = true) (hnul : (0 : UInt8) ∉ first) :
    ∃ out, autoscript run b malloc m addr s = .ok out ∧ (RunsScript run first s out ↔
      LongEnded run ((ended first).filter (· ≠ [])) (unended first) s) :=
  ⟨_, autoscript_eq run s h hl htype hx hne hmalloc hnul, runsScript_iff⟩

end

/-! ## Scripts of one file -/

def scriptOptions : Options := { Options.multi false with type := ihTypeScript }

def scriptImage (text : List UInt8) : List UInt8 := (mkimage scriptOptions 0 [text]).getD []

/-- `run_command` of a monitor that knows no command. -/
def runNothing (_ : List UInt8) (s : Unit) : ℤ × Unit := (0, s)

theorem script_ab : mkimage scriptOptions 0 [[97, 98, 10]] = some (scriptImage [97, 98, 10]) := by
  obtain ⟨image, himage⟩ : ∃ image, mkimage scriptOptions 0 [[97, 98, 10]] = some image :=
    Option.isSome_iff_exists.mp (by decide)
  rw [scriptImage, himage, Option.getD_some]

theorem script_ab_unended : mkimage scriptOptions 0 [[97, 98]] = some (scriptImage [97, 98]) := by
  obtain ⟨image, himage⟩ : ∃ image, mkimage scriptOptions 0 [[97, 98]] = some image :=
    Option.isSome_iff_exists.mp (by decide)
  rw [scriptImage, himage, Option.getD_some]

theorem autoscript_iff_ab : ∃ out, autoscript runNothing .linux (fun _ => true)
    (memWith (scriptImage [97, 98, 10])) 0x100000 () = .ok out ∧
      RunsScript runNothing [97, 98, 10] () out := by
  obtain ⟨out, hout, hiff⟩ := autoscript_iff .linux (fun _ => true) runNothing () script_ab
    (loaded_memWith (by decide)) rfl rfl (by decide) rfl (by decide)
  have hended : (ended [97, 98, 10]).filter (· ≠ []) = [[97, 98]] := by decide
  have hunended : unended [97, 98, 10] = [] := by decide
  refine ⟨out, hout, hiff.mpr ?_⟩
  rw [hended, hunended]
  exact ⟨by decide, fun _ => rfl⟩

/-- A last line without a newline is not run. -/
theorem autoscript_unended : ¬ ∃ out, autoscript runNothing .linux (fun _ => true)
    (memWith (scriptImage [97, 98])) 0x100000 () = .ok out ∧
      RunsScript runNothing [97, 98] () out := by
  rintro ⟨out, hout, hruns⟩
  rw [autoscript_eq runNothing () script_ab_unended (loaded_memWith (by decide)) rfl rfl
    (by decide) rfl (by decide)] at hout
  cases hout
  have hended : (ended [97, 98]).filter (· ≠ []) = [] := by decide
  have hlast := runsScript_iff.mp hruns
  rw [hended] at hlast
  exact absurd (show unended [97, 98] = [] from hlast) (by decide)

end UBoot.Command
