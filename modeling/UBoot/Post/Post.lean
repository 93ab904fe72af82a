import UBoot.Env.Map

/-!
# The power-on self test (`post/post.c`)

The tests are run twice in a boot, from ROM and from RAM. A test with `POST_REBOOT` may reset the
board; one word that survives the reset holds the boot mode, a running bit and the number of the
test, so that the next boot can resume.
-/

namespace UBoot.Post

open UBoot.Lib UBoot.Common UBoot.Env

def postPoweron : UInt32 := 0x01
def postPowernormal : UInt32 := 0x02
def postPowerfail : UInt32 := 0x04
def postPowertest : UInt32 := 0x08
def postRom : UInt32 := 0x0100
def postRam : UInt32 := 0x0200
def postManual : UInt32 := 0x0400
def postReboot : UInt32 := 0x0800
def postMem : UInt32 := postRam ||| postRom
def postAlways : UInt32 := postPowernormal ||| postPowerfail ||| postManual ||| postPoweron

def bootmodeMagic : UInt32 := 0xDEAD0000

/-- What `post_list` says of a test. -/
structure PostTest where
  cmd : CStr
  flags : UInt32

/-! ## The boot word -/

/-- `post_bootmode_get (0)` -/
def bootmodeGet (word : UInt32) : UInt32 :=
  if word &&& 0xFFFF0000 ≠ bootmodeMagic then 0 else word &&& 0xFF

/-- `*last_test` after `post_bootmode_get`, when the running bit is set. -/
def lastTest (word : UInt32) : ℕ := (word >>> 8 &&& 0xFF).toNat

def bootmodeInit (word : UInt32) : UInt32 :=
  if bootmodeGet word = 0 then bootmodeMagic ||| postPoweron
  else if bootmodeGet word = postPoweron then bootmodeMagic ||| postPowernormal
  else word

def bootmodeTestOn (i : ℕ) (word : UInt32) : UInt32 :=
  word ||| postPowertest ||| (UInt32.ofNat i &&& 0xFF) <<< 8

def bootmodeTestOff (word : UInt32) : UInt32 := word &&& ~~~postPowertest

/-! ## The flags of the tests -/

/-- The names in a string: the loop over `name` and `s`. -/
def namesOf (list : List UInt8) : List (List UInt8) :=
  match hlist : list.dropWhile (· = 32) with
  | [] => []
  | c :: cs => match hrest : cs.dropWhile (· ≠ 32) with
    | [] => [c :: cs]
    | _ :: rest => (c :: cs.takeWhile (· ≠ 32)) :: namesOf rest
  termination_by list.length
  decreasing_by
    have hcs : (c :: cs).length ≤ list.length :=
      hlist ▸ (List.dropWhile_suffix _).length_le
    have hle : (_ :: rest).length ≤ cs.length := hrest ▸ (List.dropWhile_suffix _).length_le
    rw [List.length_cons] at hcs hle
    omega

/-- The flag is set for the first test of that name. -/
def setNamed (postList : List PostTest) (flag : UInt32) (testFlags : List UInt32)
    (name : List UInt8) : List UInt32 :=
  testFlags.modify (postList.findIdx fun t => t.cmd.bytes = name) (· ||| flag)

/-- A variable that is set takes the flag from all tests and gives it to those it names. -/
def applyNames (postList : List PostTest) (flag : UInt32) (list : List UInt8)
    (testFlags : List UInt32) : List UInt32 :=
  (namesOf list).foldl (setNamed postList flag) (testFlags.map (· &&& ~~~flag))

def postVars : List (CStr × UInt32) :=
  [(⟨ascii "post_poweron", by decide⟩, postPoweron),
    (⟨ascii "post_normal", by decide⟩, postPowernormal),
    (⟨ascii "post_shutdown", by decide⟩, postPowerfail)]

variable (cfg : EnvCfg) (env : Area cfg.dataSize) (postList : List PostTest)

/-- `post_get_flags`. `list` has 128 bytes; `stack` is what follows it. A value of 127 characters
makes `getenv_r` store a NUL there. -/
def postGetFlags (stack : List UInt8) : Except Oob (List UInt32) :=
  postVars.foldlM (fun testFlags var => do
    match ← getenvR cfg env var.1 128 with
    | none => return testFlags
    | some (_, list) =>
      if 128 < list.length then throw .write
      else if 0 ∈ list ++ stack then
        return applyNames postList var.2 ((list ++ stack).takeWhile (· ≠ 0)) testFlags
      else throw .read) (postList.map (·.flags))

/-! ## Running tests -/

/-- A call of a test: its number, its argument, and the boot word before it was prepared. -/
structure Call where
  test : ℕ
  flags : UInt32
  word : UInt32
  reset : Bool
  deriving DecidableEq, Repr

/-- The result of a function, or `none` when the board was reset, with the boot word and the
calls. -/
structure Out where
  result : Option ℤ
  word : UInt32
  calls : List Call
  deriving DecidableEq, Repr

def selects (testFlags flags : UInt32) : Bool :=
  flags &&& testFlags &&& postAlways ≠ 0 ∧ flags &&& testFlags &&& postMem ≠ 0

/-- `post_run_single`. A test with `POST_REBOOT` may reset the board (`resets`) when it is called
without `POST_REBOOT`. -/
def postRunSingle (resets : ℕ → Bool) (testFlags flags : UInt32) (i : ℕ) (word : UInt32) : Out :=
  if selects testFlags flags then
    let word' :=
      if flags &&& postReboot = 0 ∧ testFlags &&& postReboot ≠ 0 ∧ flags &&& postManual = 0 then
        bootmodeTestOn i word
      else word
    if flags &&& postReboot = 0 ∧ testFlags &&& postReboot ≠ 0 ∧ resets i then
      ⟨none, word', [⟨i, flags, word, true⟩]⟩
    else
      ⟨some 0, if testFlags &&& postReboot ≠ 0 ∧ flags &&& postManual = 0
        then bootmodeTestOff word' else word', [⟨i, flags, word, false⟩]⟩
  else ⟨some (-1), word, []⟩

/-- What comes after, unless the board was reset. -/
def Out.andThen (o : Out) (f : UInt32 → Out) : Out :=
  if o.result.isSome then ⟨(f o.word).result, (f o.word).word, o.calls ++ (f o.word).calls⟩ else o

/-- The loops over the tests from number `i` on. -/
def runFrom (resets : ℕ → Bool) (flags : UInt32) : ℕ → List UInt32 → UInt32 → Out
  | _, [], word => ⟨some 0, word, []⟩
  | i, testFlags :: rest, word =>
    (postRunSingle resets testFlags flags i word).andThen (runFrom resets flags (i + 1) rest)

/-- `post_run` after `post_get_flags`. -/
def postRunWith (testFlags : List UInt32) (resets : ℕ → Bool) (name : Option (List UInt8))
    (flags word : UInt32) : Out :=
  match name with
  | none =>
    if bootmodeGet word &&& postPowertest ≠ 0 then
      match testFlags[lastTest word]? with
      | some f =>
        if selects f flags then
          (postRunSingle resets f (flags ||| postReboot) (lastTest word) word).andThen
            (runFrom resets flags (lastTest word + 1) (testFlags.drop (lastTest word + 1)))
        else ⟨some 0, word, []⟩
      | none => ⟨some 0, word, []⟩
    else runFrom resets flags 0 testFlags word
  | some name =>
    let i := postList.findIdx fun t => t.cmd.bytes = name
    match testFlags[i]? with
    | some f => postRunSingle resets f flags i word
    | none => ⟨some (-1), word, []⟩

def postRun (stack : List UInt8) (resets : ℕ → Bool) (name : Option (List UInt8))
    (flags word : UInt32) : Except Oob Out :=
  (postGetFlags cfg env postList stack).map fun testFlags =>
    postRunWith postList testFlags resets name flags word

/-! ## Boots -/

inductive Phase
  | rom
  | ram
  deriving DecidableEq, Repr

def Phase.flag : Phase → UInt32
  | .rom => postRom
  | .ram => postRam

/-- Which tests reset the board, and what is behind `list` on the stack, in each phase of each
boot. -/
structure Behaviour where
  resets : ℕ → Phase → ℕ → Bool
  stack : ℕ → Phase → List UInt8

structure Event where
  boot : ℕ
  phase : Phase
  call : Call
  deriving DecidableEq, Repr

structure Run where
  events : List Event
  word : UInt32
  /-- the last boot ran both phases to their end -/
  completed : Bool
  deriving DecidableEq, Repr

variable (β : Behaviour)

/-- `post_run (NULL, POST_ROM | post_bootmode_get (0))`, and the same from RAM. -/
def runPhase (b : ℕ) (ph : Phase) (word : UInt32) : Except Oob Out :=
  postRun cfg env postList (β.stack b ph) (β.resets b ph) none (ph.flag ||| bootmodeGet word) word

def Out.events (o : Out) (b : ℕ) (ph : Phase) : List Event := o.calls.map (Event.mk b ph)

/-- What `board_init_f` and `board_init_r` do for the tests. -/
def boot (b : ℕ) (word : UInt32) : Except Oob Run := do
  let rom ← runPhase cfg env postList β b .rom (bootmodeInit word)
  match rom.result with
  | none => return ⟨rom.events b .rom, rom.word, false⟩
  | some _ =>
    let ram ← runPhase cfg env postList β b .ram rom.word
    return ⟨rom.events b .rom ++ ram.events b .ram, ram.word, ram.result.isSome⟩

/-- Boots from number `b` on, up to the first that completes. -/
def run : ℕ → ℕ → UInt32 → Except Oob Run
  | 0, _, word => return ⟨[], word, false⟩
  | n + 1, b, word => do
    let r ← boot cfg env postList β b word
    match r.completed with
    | true => return r
    | false =>
      let r' ← run n (b + 1) r.word
      return ⟨r.events ++ r'.events, r'.word, r'.completed⟩

end UBoot.Post
