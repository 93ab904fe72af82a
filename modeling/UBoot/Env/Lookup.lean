import UBoot.Common.Strings

/-!
# Reading the environment (`common/cmd_nvedit.c`)

The environment area is the `data[ENV_SIZE]` of an `env_t`: NUL-terminated
`name=value` strings, the end of the list marked by a double NUL. A pointer into the
area that only moves forward is followed by the bytes from it on (`List.drop`), with its
index beside it. Every read outside the area ends in `Oob.read`.

The loops over entries restart at `nxt + 1`; their fuel is the size of the area plus
one, and each turn moves the index on, so they leave the area before the fuel is spent.
-/

namespace UBoot.Env

open UBoot.Lib UBoot.Common

/-- `'='`. -/
abbrev eqCh : UInt8 := 61

/-- The build's environment size; `CFG_REDUNDAND_ENVIRONMENT` adds the flags byte. -/
structure EnvCfg where
  envSize : Nat
  redundand : Bool
  fits : (if redundand then 5 else 4) ≤ envSize

/-- `ENV_HEADER_SIZE`. -/
def EnvCfg.headerSize (cfg : EnvCfg) : Nat := if cfg.redundand then 5 else 4

/-- `ENV_SIZE`. -/
def EnvCfg.dataSize (cfg : EnvCfg) : Nat := cfg.envSize - cfg.headerSize

variable {n : Nat}

/-- `envmatch` on the bytes from `s1` and from index `i2` on. The loop compares; it ends
at `=` in both, or at the first difference, where the name may have ended at the `=` of
the entry. `none` is the result -1. -/
def envmatchFrom : List UInt8 → List UInt8 → Nat → Except Oob (Option Nat)
  | c :: s1, d :: env, i2 =>
    if c = d then
      if c = eqCh then .ok (some (i2 + 1)) else envmatchFrom s1 env (i2 + 1)
    else if c = 0 ∧ d = eqCh then .ok (some (i2 + 1))
    else .ok none
  | _, _, _ => .error .read

def envmatch (env : Area n) (s1 : CStr) (i2 : Nat) : Except Oob (Option Nat) :=
  envmatchFrom s1.terminated (env.bytes.drop i2) i2

/-- `for (nxt=i; *nxt; ++nxt) ;` -/
def nulFrom : List UInt8 → Nat → Except Oob Nat
  | [], _ => .error .read
  | c :: env, nxt => if c = 0 then .ok nxt else nulFrom env (nxt + 1)

/-- The same loop in `getenv` and `getenv_r`, which give up (`none`) at an index of
`CFG_ENV_SIZE` or more. -/
def nulFromBounded (envSize : Nat) : List UInt8 → Nat → Except Oob (Option Nat)
  | [], _ => .error .read
  | c :: env, nxt =>
    if c = 0 then .ok (some nxt)
    else if envSize ≤ nxt then .ok none
    else nulFromBounded envSize env (nxt + 1)

/-- The search loop of `_do_setenv` and `do_printenv`: the index `env` of the matching
entry, the index `nxt` of its NUL, and `oldval`, the index of its value. -/
def searchFrom (env : Area n) (name : CStr) : Nat → Nat → Except Oob (Option (Nat × Nat × Nat))
  | 0, _ => .error .read
  | fuel + 1, i => do
    if (← env.rd i) = 0 then return none
    let nxt ← nulFrom (env.bytes.drop i) i
    match ← envmatch env name i with
    | some oldval => return some (i, nxt, oldval)
    | none => searchFrom env name fuel (nxt + 1)

def search (env : Area n) (name : CStr) : Except Oob (Option (Nat × Nat × Nat)) :=
  searchFrom env name (n + 1) 0

/-- The loop of `getenv` and `getenv_r`: the index of the value, `none` when there is no
such variable. -/
def lookupFrom (envSize : Nat) (env : Area n) (name : CStr) : Nat → Nat → Except Oob (Option Nat)
  | 0, _ => .error .read
  | fuel + 1, i => do
    if (← env.rd i) = 0 then return none
    match ← nulFromBounded envSize (env.bytes.drop i) i with
    | none => return none
    | some nxt =>
      match ← envmatch env name i with
      | some val => return some val
      | none => lookupFrom envSize env name fuel (nxt + 1)

section
variable (cfg : EnvCfg)

/-- `getenv`: the address (as an index) of the value. -/
def getenv (env : Area cfg.dataSize) (name : CStr) : Except Oob (Option Nat) :=
  lookupFrom cfg.envSize env name (cfg.dataSize + 1) 0

/-- The string a caller of `getenv` reads at the address it was given. -/
def getenvStr (env : Area cfg.dataSize) (name : CStr) : Except Oob (Option (List UInt8)) := do
  match ← getenv cfg env name with
  | none => return none
  | some val => return some (cstrAt (env.bytes.drop val))

/-- `while ((len > n++) && (*buf++ = env_get_char(val++)) != '\0') ;` from the value's
bytes on: the final `n` and the bytes stored at `buf`. -/
def copyOut (len : Nat) : List UInt8 → Nat → List UInt8 → Except Oob (Nat × List UInt8)
  | c :: val, n, buf =>
    if n < len then
      if c ≠ 0 then copyOut len val (n + 1) (buf ++ [c]) else .ok (n + 1, buf ++ [c])
    else .ok (n + 1, buf)
  | [], n, buf => if n < len then .error .read else .ok (n + 1, buf)

/-- `getenv_r`: the result and the bytes stored at `buf`; -1 is `none`. -/
def getenvR (env : Area cfg.dataSize) (name : CStr) (len : Nat) :
    Except Oob (Option (Nat × List UInt8)) := do
  match ← getenv cfg env name with
  | none => return none
  | some val =>
    let (n, buf) ← copyOut len (env.bytes.drop val) 0 []
    return some (n, if len = n then buf ++ [0] else buf)

/-- `do_printenv` without arguments: print each entry and a newline, ask `ctrlc` after
each. The result is the final index, or `none` after an abort, and the bytes printed. -/
def printAllFrom (ctrlc : Nat → Bool) (env : Area n) :
    Nat → Nat → List UInt8 → Except Oob (Option Nat × List UInt8)
  | 0, _, _ => .error .read
  | fuel + 1, i, out => do
    if (← env.rd i) = 0 then return (some i, out)
    let nxt ← nulFrom (env.bytes.drop i) i
    let out := out ++ (env.bytes.drop i).take (nxt - i) ++ [10]
    if ctrlc i then return (none, out)
    printAllFrom ctrlc env fuel (nxt + 1) out

/-- `do_printenv` of one name: `name=value`, or `none` when it is not defined. -/
def printOne (env : Area n) (name : CStr) : Except Oob (Option (List UInt8)) := do
  match ← search env name with
  | none => return none
  | some (_, nxt, k) =>
    return some (name.bytes ++ [eqCh] ++ (env.bytes.drop k).take (nxt - k) ++ [10])

/-- `do_printenv`: with no names every entry, else each name in turn; the result counts
the names that are not defined. -/
def doPrintenv (ctrlc : Nat → Bool) (env : Area n) (names : List CStr) :
    Except Oob (Nat × List UInt8) :=
  match names with
  | [] => do
    let (i, out) ← printAllFrom ctrlc env (n + 1) 0 []
    return (if i.isNone then 1 else 0, out)
  | names => names.foldlM (fun (rcode, out) name => do
      match ← printOne env name with
      | some text => return (rcode, out ++ text)
      | none => return (rcode + 1, out)) (0, [])

end

end UBoot.Env
