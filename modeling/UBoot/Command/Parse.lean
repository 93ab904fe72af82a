import UBoot.Common.Strings

/-!
# Parsing a command line (`common/main.c`, `common/command.c`)

Strings are their bytes before the NUL. `finaltoken` and `argv` are local arrays of fixed
size: `processMacros` gives the characters stored in `finaltoken`, which is terminated only
when fewer than `CFG_CBSIZE` of them were stored, and `argv` is passed on from one token to
the next with what earlier tokens, or nothing yet, left in it.
-/

namespace UBoot.Command

abbrev Word := List UInt8

/-- What the code does outside defined behaviour: a null pointer read, or a read behind the
end of `finaltoken`. -/
inductive Fault where
  | nullPointer
  | overrun
  deriving DecidableEq, Repr

/-- The commands that call `run_command` themselves, and all others. -/
inductive CmdFn where
  | doRun
  | doBootd
  | doAutoscript
  | other
  deriving DecidableEq, Repr

/-- A `cmd_tbl_t` without its help texts. -/
structure CmdTbl where
  name : List UInt8
  lmin : Nat
  maxargs : Nat
  repeatable : Bool
  cmd : CmdFn
  deriving DecidableEq, Repr

structure CmdCfg where
  cbSize : Nat
  maxArgs : Nat
  cmdTbl : List CmdTbl
  maxArgs_pos : 0 < maxArgs
  cmdTbl_ne : cmdTbl ≠ []
  lmin_pos : ∀ cmdtp ∈ cmdTbl, 0 < cmdtp.lmin

/-- `argv`; entries not yet written are whatever the stack held. -/
abbrev Argv := Nat → Option Word

def isBlank (c : UInt8) : Bool := c = 32 || c = 9

/-- `parse_line` with room for `left` more arguments. -/
def parseLineFrom (terminated : Bool) : Nat → Nat → List UInt8 → Argv → Except Fault (Nat × Argv)
  | 0, nargs, _, argv => .ok (nargs, argv)
  | left + 1, nargs, line, argv =>
    match line.dropWhile isBlank with
    | [] => if terminated then .ok (nargs, Function.update argv nargs none) else .error .overrun
    | c :: line =>
      let argv := Function.update argv nargs (some ((c :: line).takeWhile fun c => !isBlank c))
      match (c :: line).dropWhile fun c => !isBlank c with
      | [] =>
        if terminated then .ok (nargs + 1, Function.update argv (nargs + 1) none)
        else .error .overrun
      | _ :: line => parseLineFrom terminated left (nargs + 1) line argv

/-- `find_cmd`, with `strncmp` on the first `lmin` characters. -/
def findCmd : List CmdTbl → Option Word → Except Fault (Option CmdTbl)
  | [], _ => .ok none
  | cmdtp :: tbl, cmd =>
    if cmdtp.lmin = 0 then .ok (some cmdtp)
    else
      match cmd with
      | none => .error .nullPointer
      | some w =>
        if w.take cmdtp.lmin = cmdtp.name.take cmdtp.lmin then .ok (some cmdtp)
        else findCmd tbl (some w)

/-- `'\\'`, `'$'`, `'('`, `')'`, `';'`. -/
abbrev backslash : UInt8 := 92
abbrev dollar : UInt8 := 36
abbrev lparen : UInt8 := 40
abbrev rparen : UInt8 := 41
abbrev semicolon : UInt8 := 59

/-- The `state` of `process_macros`: waiting for `$`, for `(`, or for `)` with the input from
`varname_start` on. -/
inductive MacroState where
  | dollar
  | lparen
  | rparen (varnameStart : List UInt8)
  deriving DecidableEq, Repr

section
variable (cbSize : Nat) (getenv : List UInt8 → Option (List UInt8))

/-- Characters stored at `output` as far as there is room. -/
def put (output text : List UInt8) : List UInt8 := output ++ text.take (cbSize - output.length)

/-- The `switch` of `process_macros` for the character `c`, with `input` behind it. -/
def macroStep (c : UInt8) (input : List UInt8) (prev : UInt8) :
    MacroState × List UInt8 → MacroState × List UInt8
  | (.dollar, output) =>
    if c = dollar ∧ prev ≠ backslash then (.lparen, output) else (.dollar, put cbSize output [c])
  | (.lparen, output) =>
    if c = lparen then (.rparen input, output)
    else (.dollar, put cbSize (put cbSize output [dollar]) [c])
  | (.rparen start, output) =>
    if c = rparen then
      match getenv (start.take (start.length - input.length - 1)) with
      | some envval => (.dollar, put cbSize output envval)
      | none => (.dollar, output)
    else (.rparen start, output)

/-- The loop of `process_macros`; a backslash that is not itself escaped is dropped. -/
def macroLoop : List UInt8 → UInt8 → MacroState × List UInt8 → List UInt8
  | [], _, m => m.2
  | c :: input, prev, m =>
    if m.2.length = cbSize then m.2
    else if c = backslash ∧ prev ≠ backslash then
      match input with
      | [] => m.2
      | c :: input => macroLoop input c (macroStep cbSize getenv c input backslash m)
    else macroLoop input c (macroStep cbSize getenv c input prev m)

/-- `process_macros`: the characters stored in `finaltoken`. -/
def processMacros (input : List UInt8) : List UInt8 :=
  macroLoop cbSize getenv input 0 (.dollar, [])

end

/-- The search for the separator behind a character `prev` of the token: the rest of the token,
and what follows the separator. -/
def scanSep (prev : UInt8) : List UInt8 → List UInt8 × List UInt8
  | [] => ([], [])
  | c :: str =>
    if c = semicolon ∧ prev ≠ backslash then ([], str)
    else ((c :: (scanSep c str).1), (scanSep c str).2)

theorem scanSep_length (prev : UInt8) (str : List UInt8) :
    (scanSep prev str).2.length ≤ str.length := by
  induction str generalizing prev with
  | nil => exact le_rfl
  | cons c str ih =>
    rw [scanSep]
    split
    · exact Nat.le_succ _
    · exact Nat.le_succ_of_le (ih c)

/-- The tokens that the loop of `run_command` cuts off `cmdbuf`, one after the other. A `;` at
the start of a token belongs to it. -/
def tokens : List UInt8 → List (List UInt8)
  | [] => []
  | c :: str => (c :: (scanSep c str).1) :: tokens (scanSep c str).2
termination_by str => str.length
decreasing_by exact Nat.lt_succ_of_le (scanSep_length c str)

theorem tokens_nil : tokens [] = [] := by
  rw [tokens]

theorem scanSep_join (prev : UInt8) (str : List UInt8) :
    (str = (scanSep prev str).1 ∧ (scanSep prev str).2 = []) ∨
      str = (scanSep prev str).1 ++ semicolon :: (scanSep prev str).2 := by
  induction str generalizing prev with
  | nil => exact .inl ⟨rfl, rfl⟩
  | cons c str ih =>
    rw [scanSep]
    split
    · rename_i h
      exact .inr (by rw [h.1]; rfl)
    · exact (ih c).imp (fun h => ⟨congrArg (c :: ·) h.1, h.2⟩) (congrArg (c :: ·))

theorem scanSep_escaped (prev : UInt8) (str : List UInt8) :
    (prev :: (scanSep prev str).1).IsChain fun p c => c = semicolon → p = backslash := by
  induction str generalizing prev with
  | nil => exact .singleton _
  | cons c str ih =>
    rw [scanSep]
    split
    · exact .singleton _
    · rename_i h
      exact .cons_cons (fun hc => not_not.mp fun hp => h ⟨hc, hp⟩) (ih c)

/-- **The tokens are the text between unescaped separators.** Joined by `;` they give the
command line, less a separator at its end; and a `;` within one is escaped or its first
character. -/
theorem tokens_spec (str : List UInt8) :
    (str = [semicolon].intercalate (tokens str) ∨
      str = [semicolon].intercalate (tokens str) ++ [semicolon]) ∧
    ∀ token ∈ tokens str, token ≠ [] ∧
      token.IsChain fun p c => c = semicolon → p = backslash := by
  induction str using tokens.induct with
  | case1 =>
    rw [tokens_nil]
    exact ⟨.inl rfl, by simp⟩
  | case2 c str ih =>
    obtain ⟨hjoin, hplain⟩ := ih
    rw [tokens]
    refine ⟨?_, List.forall_mem_cons.mpr ⟨⟨List.cons_ne_nil _ _, scanSep_escaped c str⟩, hplain⟩⟩
    cases hrest : (scanSep c str).2 with
    | nil =>
      rw [tokens_nil]
      obtain ⟨h, -⟩ | h := scanSep_join c str
      · exact .inl (by rw [← h]; simp)
      · rw [hrest] at h
        exact .inr (by simpa using h)
    | cons d rest =>
      obtain ⟨-, h⟩ | h := scanSep_join c str
      · rw [hrest] at h
        cases h
      · rw [hrest] at h hjoin
        have hne : tokens (d :: rest) ≠ [] := by
          rw [tokens]
          exact List.cons_ne_nil _ _
        rw [List.intercalate_cons_of_ne_nil hne]
        refine hjoin.imp (fun hj => ?_) fun hj => ?_
        · rw [← hj]
          simpa using h
        · rw [List.append_assoc, List.append_assoc, ← hj]
          simpa using h

end UBoot.Command
