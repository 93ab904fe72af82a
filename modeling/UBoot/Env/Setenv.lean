import UBoot.Env.Lookup
import UBoot.Env.Crc32

/-!
# Changing the environment: `_do_setenv` (`common/cmd_nvedit.c`)

The function is cut at its own comments: `search` (in `Lookup`), `checkOldval`,
`deleteAt`, then `setNew` with `findEnd`, `append` and `updateSpecial`. Writes go
through `Area.wr`, so a result `.ok` wrote nothing outside `data[0..ENV_SIZE-1]`.

The configuration's macros are a `Build`. What comes from outside the function is an
`Outside`: the outcome of `console_assign`, and the number `simple_strtoul` finds at
address 0 when `baudrate` is deleted. Lengths are natural numbers: the strings of a call
are far shorter than the `int` that counts them.
-/

namespace UBoot.Env

open UBoot.Lib UBoot.Common

/-- `env_t`; the flags byte is there with `CFG_REDUNDAND_ENVIRONMENT` only. -/
structure EnvT (n : Nat) where
  crc : UInt32
  flags : UInt8
  data : Area n
  deriving DecidableEq

variable {n : Nat}

/-- `env_ptr->crc == crc32 (0, env_ptr->data, ENV_SIZE)`. -/
def EnvT.CrcOk (e : EnvT n) : Prop := crc32 0 e.data.bytes = e.crc

instance (e : EnvT n) : Decidable e.CrcOk := inferInstanceAs (Decidable (_ = _))

def envCrcUpdate (e : EnvT n) : EnvT n := { e with crc := crc32 0 e.data.bytes }

/-- The macros that steer `_do_setenv`. -/
structure Build where
  /-- `CONFIG_ENV_OVERWRITE` -/
  envOverwrite : Bool
  /-- `CONFIG_ETHADDR`, with `CONFIG_OVERWRITE_ETHADDR_ONCE` -/
  ethaddrOnce : Option CStr
  /-- `CONFIG_NET_MULTI` -/
  netMulti : Bool
  /-- `CFG_CMD_NET` -/
  cmdNet : Bool
  /-- `CFG_BAUDRATE_TABLE` -/
  baudrateTable : List Nat

inductive Console where
  | stdin
  | stdout
  | stderr
  deriving DecidableEq

/-- What the function learns from outside: whether `console_assign` succeeds, and the
number read at a null `argv[2]`. -/
structure Outside where
  consoleAssign : Console → Option CStr → Bool
  strtoulNull : Nat

/-- `argv[2]` and what follows it: `argc == 2`, a null `argv[2]` (`setenv (name, NULL)`),
or one or more words. -/
inductive Args where
  | missing
  | null
  | words (v : CStr) (vs : List CStr)

def Args.argv2 : Args → Option CStr
  | .words v _ => some v
  | _ => none

/-- The variables of the board that follow environment entries. `ethSet` lists the
calls of `eth_set_enetaddr`. -/
structure Globals where
  baudrate : Nat
  biEnetaddr : List UInt8
  biIpAddr : UInt32
  loadAddr : Nat
  bootFile : List UInt8
  ethSet : List (Nat × List UInt8)

/-- The messages of `_do_setenv`. -/
inductive Msg where
  /-- `Can't overwrite "%s"` -/
  | cantOverwrite (name : CStr)
  /-- `Can't delete "%s"` -/
  | cantDelete (name : CStr)
  /-- `## Baudrate %d bps not supported` -/
  | baudrateNotSupported (baudrate : Nat)
  /-- `## Switch baudrate to %d bps and press ENTER ...` -/
  | switchBaudrate (baudrate : Nat)
  /-- `## Error: environment overflow, "%s" deleted` -/
  | overflow (name : CStr)
  deriving DecidableEq

/-! ## The checks on an existing definition -/

/-- `strcmp (name, "...") == 0`. -/
def isName (name : CStr) (s : String) : Bool := name.bytes == ascii s

/-- `serial#` and `ethaddr` can be set only once; with
`CONFIG_OVERWRITE_ETHADDR_ONCE` an `ethaddr` that is still the default can be replaced. -/
def writeProtected (b : Build) (env : Area n) (name : CStr) (oldval : Nat) : Bool :=
  !b.envOverwrite && (isName name "serial#" || (isName name "ethaddr" &&
    match b.ethaddrOnce with
    | some ethaddr => cstrAt (env.bytes.drop oldval) != ethaddr.bytes
    | none => true))

def consoleOf (name : CStr) : Option Console :=
  if isName name "stdin" then some .stdin
  else if isName name "stdout" then some .stdout
  else if isName name "stderr" then some .stderr
  else none

/-- Console redirection: `false` when the function returns 1 here. -/
def checkConsole (o : Outside) (name : CStr) (args : Args) : Bool × List Msg :=
  match consoleOf name with
  | none => (true, [])
  | some console =>
    match args with
    | .missing => (false, [.cantDelete name])
    | args => (o.consoleAssign console args.argv2, [])

/-- The switch to a new baudrate: the number asked for, if it is supported. -/
def checkBaudrate (b : Build) (o : Outside) (g : Globals) (name : CStr) (args : Args) :
    Bool × Globals × List Msg :=
  if isName name "baudrate" then
    let baudrate := match args.argv2 with
      | some v => (simpleStrtoul 10 v.bytes).1
      | none => o.strtoulNull
    if baudrate ∈ b.baudrateTable then
      (true, { g with baudrate := baudrate }, [.switchBaudrate baudrate])
    else (false, g, [.baudrateNotSupported baudrate])
  else (true, g, [])

/-- Everything checked before an existing definition is deleted. -/
def checkOldval (b : Build) (o : Outside) (env : Area n) (g : Globals) (name : CStr) (args : Args)
    (oldval : Nat) : Bool × Globals × List Msg :=
  if writeProtected b env name oldval then (false, g, [.cantOverwrite name])
  else
    match checkConsole o name args with
    | (false, msgs) => (false, g, msgs)
    | (true, _) => checkBaudrate b o g name args

/-! ## Deleting in place -/

/-- `for (;;) { *env = *nxt++; if ((*env == '\0') && (*nxt == '\0')) break; ++env; }` -/
def shiftDown : Nat → Area n → Nat → Nat → Except Oob (Area n × Nat)
  | 0, _, _, _ => .error .read
  | fuel + 1, a, env, nxt => do
    let c ← a.rd nxt
    let a ← a.wr env c
    let nxt := nxt + 1
    if c = 0 then
      if (← a.rd nxt) = 0 then return (a, env)
    shiftDown fuel a (env + 1) nxt

/-- Delete the entry from `env` to its NUL at `nxt`. The last entry is cut off by moving
the end of the list back; the only one leaves an empty list; any other is overwritten by
those behind it. -/
def deleteAt (a : Area n) (env nxt : Nat) : Except Oob (Area n) := do
  let nxt := nxt + 1
  let (a, env) ←
    if (← a.rd nxt) = 0 then
      if env > 0 then pure (a, env - 1) else do pure (← a.wr env 0, env)
    else shiftDown (n + 1) a env nxt
  a.wr (env + 1) 0

/-! ## Appending at the end -/

/-- `for (env=env_data; *env || *(env+1); ++env) ;` -/
def findEndFrom : List UInt8 → Nat → Except Oob Nat
  | [], _ => .error .read
  | c :: rest, env =>
    if c ≠ 0 then findEndFrom rest (env + 1)
    else
      match rest with
      | [] => .error .read
      | d :: _ => if d ≠ 0 then findEndFrom rest (env + 1) else .ok env

def findEnd (a : Area n) : Except Oob Nat := do
  let env ← findEndFrom a.bytes 0
  return if env > 0 then env + 1 else env

/-- Copy a string and its NUL; the result is the index of the NUL. -/
def putStr : Area n → Nat → List UInt8 → Except Oob (Area n × Nat)
  | a, env, [] => do return (← a.wr env 0, env)
  | a, env, c :: s => do putStr (← a.wr env c) (env + 1) s

/-- The words of the value, `=` before the first and a blank before the others. -/
def putWords : Area n → Nat → UInt8 → List CStr → Except Oob (Area n × Nat)
  | a, env, _, [] => return (a, env)
  | a, env, sep, val :: vals => do
    let a ← a.wr env sep
    let (a, env) ← putStr a (env + 1) val.bytes
    putWords a env 32 vals

def append (a : Area n) (env : Nat) (name : CStr) (vals : List CStr) : Except Oob (Area n) := do
  let (a, env) ← putStr a env name.bytes
  let (a, env) ← putWords a env eqCh vals
  a.wr (env + 1) 0

/-- The room a definition needs: `"name" + "=" + "val" + "\0\0"`. -/
def newLen (name : CStr) (vals : List CStr) : Nat :=
  name.bytes.length + 2 + (vals.map fun v => v.bytes.length + 1).sum

/-! ## Variables with a meaning -/

/-- With `CONFIG_NET_MULTI`, `eth<num>addr` goes to the network device. -/
def setEthDevice (b : Build) (g : Globals) (name : CStr) (args : Args) : Globals :=
  if b.netMulti && name.bytes.take 3 == ascii "eth" then
    let (num, rest) := simpleStrtoul 10 (name.bytes.drop 3)
    if rest == ascii "addr" then
      { g with ethSet := g.ethSet ++ [(num, parseEnetaddr args.argv2)] }
    else g
  else g

/-- `sizeof(BootFile)` -/
def bootFileSize : Nat := 128

/-- The variables updated when the corresponding entry is changed. -/
def updateSpecial (b : Build) (g : Globals) (name v : CStr) : Globals :=
  if isName name "ethaddr" then
    { g with
      biEnetaddr := parseEnetaddr (some v)
      ethSet := if b.netMulti then g.ethSet ++ [(0, parseEnetaddr (some v))] else g.ethSet }
  else if isName name "ipaddr" then { g with biIpAddr := parseIPaddr (some v) }
  else if isName name "loadaddr" then { g with loadAddr := (simpleStrtoul 16 v.bytes).1 }
  else if b.cmdNet && isName name "bootfile" then
    { g with bootFile := copyFilename v.bytes bootFileSize }
  else g

/-! ## The function -/

/-- What a call of `_do_setenv` leaves behind. -/
structure Result (n : Nat) where
  rc : Nat
  env : EnvT n
  g : Globals
  msgs : List Msg

/-- The part after the old definition is gone: only delete, or append. -/
def setNew (b : Build) (e : EnvT n) (g : Globals) (name : CStr) (args : Args) (msgs : List Msg) :
    Except Oob (Result n) :=
  let g := setEthDevice b g name args
  match args with
  | .words v vs => do
    let env ← findEnd e.data
    if newLen name (v :: vs) > n - env then
      -- the one exit after a deletion that does not update the CRC
      return ⟨1, e, g, msgs ++ [.overflow name]⟩
    let data ← append e.data env name (v :: vs)
    return ⟨0, envCrcUpdate { e with data := data }, updateSpecial b g name v, msgs⟩
  | _ => return ⟨0, envCrcUpdate e, g, msgs⟩

def doSetenv (b : Build) (o : Outside) (e : EnvT n) (g : Globals) (name : CStr) (args : Args) :
    Except Oob (Result n) := do
  match ← search e.data name with
  | none => setNew b e g name args []
  | some (env, nxt, oldval) =>
    match checkOldval b o e.data g name args oldval with
    | (false, g, msgs) => return ⟨1, e, g, msgs⟩
    | (true, g, msgs) =>
      let data ← deleteAt e.data env nxt
      setNew b { e with data := data } g name args msgs

end UBoot.Env
