import UBoot.Command.Parse

/-!
# Executing a command line: `run_command` (`common/main.c`)

The rest of the monitor is a `System`: what `getenv` finds, whether Ctrl-C was pressed, and
what a command does when it is called. A command sees `argv[0]` to `argv[argc]`.

`runTokens` is the loop over the tokens of `cmdbuf`; its events are the commands called and
the messages of a refusal. `Executes` says what a command line means, token by token, with
no buffers: each token's words after macro expansion are looked up and called in order, up
to the first that is refused or fails.
-/

namespace UBoot.Command

def cmdFlagBootd : UInt32 := 2

/-- One call of a command: `flag` and `argv[0..argc]`. -/
structure Call where
  cmdtp : CmdTbl
  flag : UInt32
  args : List (Option Word)
  deriving DecidableEq

inductive Event where
  /-- `Unknown command '%s' - try 'help'`. -/
  | unknown (cmd : Option Word)
  /-- `Usage:` and the command's usage text. -/
  | usage (cmdtp : CmdTbl)
  /-- `'bootd' recursion detected`. -/
  | recursion
  | call (c : Call)
  deriving DecidableEq

/-- The monitor around `run_command`. -/
structure System (σ : Type) where
  getenv : σ → List UInt8 → Option (List UInt8)
  hadCtrlc : σ → Bool
  clearCtrlc : σ → σ
  exec : Call → σ → Int × σ

inductive Prepared where
  | refused (e : Event)
  | call (c : Call)
  deriving DecidableEq

section
variable {σ : Type} (cfg : CmdCfg) (sys : System σ)

/-- The loop body of `run_command` behind `parse_line`, up to the call of the command: command
table, argument count, `bootd` recursion. -/
def dispatch (flag : UInt32) (argc : Nat) (argv : Argv) : Except Fault (Prepared × Argv) := do
  match ← findCmd cfg.cmdTbl (argv 0) with
  | none => return (.refused (.unknown (argv 0)), argv)
  | some cmdtp =>
    if argc > cmdtp.maxargs then return (.refused (.usage cmdtp), argv)
    else if cmdtp.cmd = .doBootd then
      if flag &&& cmdFlagBootd ≠ 0 then return (.refused .recursion, argv)
      else return (.call ⟨cmdtp, flag ||| cmdFlagBootd, (List.range (argc + 1)).map argv⟩, argv)
    else return (.call ⟨cmdtp, flag, (List.range (argc + 1)).map argv⟩, argv)

/-- The loop body of `run_command` up to the call of the command. -/
def prepare (token : List UInt8) (argv : Argv) (flag : UInt32) (s : σ) :
    Except Fault (Prepared × Argv) := do
  let finaltoken := processMacros cfg.cbSize (sys.getenv s) token
  let (argc, argv) ←
    parseLineFrom (finaltoken.length < cfg.cbSize) cfg.maxArgs 0 finaltoken argv
  dispatch cfg flag argc argv

/-- The loop of `run_command`: its result, the state and the events. The flag of the call is
that of the loop from then on. -/
def runTokens : List (List UInt8) → Argv → UInt32 → Bool → σ → List Event →
    Except Fault (Int × σ × List Event)
  | [], _, _, repeatable, s, log => .ok (if repeatable then 1 else 0, s, log)
  | token :: tokens, argv, flag, repeatable, s, log => do
    match ← prepare cfg sys token argv flag s with
    | (.refused e, _) => return (-1, s, log ++ [e])
    | (.call c, argv) =>
      let (rc, s) := sys.exec c s
      if rc ≠ 0 then return (-1, s, log ++ [.call c])
      else if sys.hadCtrlc s then return (0, s, log ++ [.call c])
      else
        runTokens tokens argv c.flag (repeatable && c.cmdtp.repeatable) s (log ++ [.call c])

/-- `run_command`; a null string is `none`. -/
def runCommand (cmd : Option (List UInt8)) (flag : UInt32) (argv : Argv) (s : σ) :
    Except Fault (Int × σ × List Event) :=
  let s := sys.clearCtrlc s
  match cmd with
  | none => .ok (-1, s, [])
  | some cmd =>
    if cmd = [] then .ok (-1, s, [])
    else if cmd.length ≥ cfg.cbSize then .ok (-1, s, [])
    else runTokens cfg sys (tokens cmd) argv flag true s []

/-- The words of a text: what stands between its blanks. -/
def words (text : List UInt8) : List Word :=
  (text.splitOnP isBlank).filter (· ≠ [])

def lookup (w : Word) : Option CmdTbl :=
  cfg.cmdTbl.find? fun cmdtp => w.take cmdtp.lmin = cmdtp.name.take cmdtp.lmin

end

end UBoot.Command
