import UBoot.Command.Run
import UBoot.Lib.Runs

/-!
# The call stack of `run_command`

`run_command` (`common/main.c`), `do_run`, `do_bootd` (`common/cmd_bootm.c`) and `autoscript`
(`common/cmd_autoscript.c`) call one another. A `Machine` has their activations on its stack,
the innermost first; `next` takes the innermost one to its next call or to its end. A step that
cannot be taken is a null pointer or a read behind a buffer.
-/

namespace UBoot.Command

/-- One activation, with what is left of its loop. -/
inductive Frame where
  | runCommand (tokens : List (List UInt8)) (argv : Argv) (flag : UInt32) (repeatable : Bool)
  | doRun (args : List (Option Word)) (flag : UInt32) (argc rcode : Nat)
  | doBootd (flag : UInt32)
  | autoscript (lines : List (List UInt8))

/-- The stack, the value a call has just returned to its innermost activation, and the rest of
the monitor. -/
structure Machine (σ : Type) where
  stack : List Frame
  ret : Option Int
  state : σ

/-- What `run_command` and its callees meet besides: the contents of a fresh `argv`, and the
script that a command executes through `autoscript` when its own work is done. -/
structure Monitor (σ : Type) extends System σ where
  junk : σ → Argv
  script : Call → σ → Option (List UInt8)

def bootcmd : List UInt8 := [98, 111, 111, 116, 99, 109, 100]

/-- The lines that `autoscript` executes: those ended by a newline, before the NUL, with more
than one character. -/
def scriptLines (line : List UInt8) : List UInt8 → List (List UInt8)
  | [] => []
  | c :: next =>
    if c = 0 then []
    else if c = 10 then
      if line.length > 1 then line :: scriptLines [] next else scriptLines [] next
    else scriptLines (line ++ [c]) next

section
variable {σ : Type} (cfg : CmdCfg) (sys : Monitor σ)

/-- `run_command` up to its loop. -/
def enter (cmd : Option (List UInt8)) (flag : UInt32) (stack : List Frame) (s : σ) : Machine σ :=
  let s := sys.clearCtrlc s
  match cmd with
  | none => ⟨stack, some (-1), s⟩
  | some cmd =>
    if cmd = [] then ⟨stack, some (-1), s⟩
    else if cmd.length ≥ cfg.cbSize then ⟨stack, some (-1), s⟩
    else ⟨.runCommand (tokens cmd) (sys.junk s) flag true :: stack, none, s⟩

/-- The call of a command from `run_command`. -/
def enterCmd (c : Call) (stack : List Frame) (s : σ) : Machine σ :=
  match c.cmdtp.cmd with
  | .doBootd => enter cfg sys (sys.getenv s bootcmd) c.flag (.doBootd c.flag :: stack) s
  | .doRun =>
    let argc := c.args.length - 1
    if argc < 2 then ⟨stack, some 1, s⟩
    else ⟨.doRun (c.args.take argc).tail c.flag argc 1 :: stack, none, s⟩
  | _ =>
    let r := sys.exec c s
    match sys.script c r.2 with
    | none => ⟨stack, some r.1, r.2⟩
    | some text => ⟨.autoscript (scriptLines [] text) :: stack, none, r.2⟩

/-- One step, with the call or the refusal of a command as its event. -/
def next : Machine σ → Option (Option Event × Machine σ)
  | ⟨[], _, _⟩ => none
  | ⟨.runCommand [] _ _ repeatable :: stack, none, s⟩ =>
    some (none, ⟨stack, some (if repeatable then 1 else 0), s⟩)
  | ⟨.runCommand (token :: tokens) argv flag repeatable :: stack, none, s⟩ =>
    match prepare cfg sys.toSystem token argv flag s with
    | .error _ => none
    | .ok (.refused e, _) => some (some e, ⟨stack, some (-1), s⟩)
    | .ok (.call c, argv) => some (some (.call c), enterCmd cfg sys c
        (.runCommand tokens argv c.flag (repeatable && c.cmdtp.repeatable) :: stack) s)
  | ⟨.runCommand tokens argv flag repeatable :: stack, some rc, s⟩ =>
    if rc ≠ 0 then some (none, ⟨stack, some (-1), s⟩)
    else if sys.hadCtrlc s then some (none, ⟨stack, some 0, s⟩)
    else some (none, ⟨.runCommand tokens argv flag repeatable :: stack, none, s⟩)
  | ⟨.doRun [] _ argc rcode :: stack, none, s⟩ =>
    some (none, ⟨stack, some (if rcode = argc then 0 else 1), s⟩)
  | ⟨.doRun (none :: _) _ _ _ :: _, none, _⟩ => none
  | ⟨.doRun (some w :: args) flag argc rcode :: stack, none, s⟩ =>
    some (none, enter cfg sys (sys.getenv s w) flag (.doRun args flag argc rcode :: stack) s)
  | ⟨.doRun args flag argc rcode :: stack, some rc, s⟩ =>
    some (none, ⟨.doRun args flag argc (if rc ≠ -1 then rcode + 1 else rcode) :: stack, none, s⟩)
  -- `do_bootd` calls `run_command` as it is entered
  | ⟨.doBootd _ :: _, none, _⟩ => none
  | ⟨.doBootd _ :: stack, some rc, s⟩ => some (none, ⟨stack, some (if rc < 0 then 1 else 0), s⟩)
  | ⟨.autoscript [] :: stack, none, s⟩ => some (none, ⟨stack, some 0, s⟩)
  | ⟨.autoscript (line :: lines) :: stack, none, s⟩ =>
    some (none, enter cfg sys (some line) 0 (.autoscript lines :: stack) s)
  | ⟨.autoscript lines :: stack, some rc, s⟩ =>
    if rc < 0 then some (none, ⟨stack, some 1, s⟩)
    else some (none, ⟨.autoscript lines :: stack, none, s⟩)

def Step (m : Machine σ) (e : Option Event) (m' : Machine σ) : Prop := next cfg sys m = some (e, m')

variable {cfg sys} {stack : List Frame} {s : σ} {rc : Int} {tokens : List (List UInt8)}
  {argv : Argv} {flag : UInt32} {repeatable : Bool}

theorem next_token (token : List UInt8) :
    next cfg sys ⟨.runCommand (token :: tokens) argv flag repeatable :: stack, none, s⟩ =
      match prepare cfg sys.toSystem token argv flag s with
      | .error _ => none
      | .ok (.refused e, _) => some (some e, ⟨stack, some (-1), s⟩)
      | .ok (.call c, argv) => some (some (.call c), enterCmd cfg sys c
          (.runCommand tokens argv c.flag (repeatable && c.cmdtp.repeatable) :: stack) s) := rfl

theorem next_runCommand_ret :
    next cfg sys ⟨.runCommand tokens argv flag repeatable :: stack, some rc, s⟩ =
      if rc ≠ 0 then some (none, ⟨stack, some (-1), s⟩)
      else if sys.hadCtrlc s then some (none, ⟨stack, some 0, s⟩)
      else some (none, ⟨.runCommand tokens argv flag repeatable :: stack, none, s⟩) := by
  cases tokens <;> rfl

theorem next_autoscript_ret {lines : List (List UInt8)} :
    next cfg sys ⟨.autoscript lines :: stack, some rc, s⟩ =
      if rc < 0 then some (none, ⟨stack, some 1, s⟩)
      else some (none, ⟨.autoscript lines :: stack, none, s⟩) := by
  cases lines <;> rfl

theorem next_doRun_ret {args : List (Option Word)} {argc rcode : Nat} :
    next cfg sys ⟨.doRun args flag argc rcode :: stack, some rc, s⟩ = some (none,
      ⟨.doRun args flag argc (if rc ≠ -1 then rcode + 1 else rcode) :: stack, none, s⟩) := by
  rcases args with _ | ⟨_ | _, args⟩ <;> rfl

end

/-! ### The guard against recursion -/

def Frame.isBootd : Frame → Bool
  | .doBootd _ => true
  | _ => false

/-- The flag that an activation hands to `run_command`; `autoscript` has none. -/
def Frame.flag : Frame → Option UInt32
  | .runCommand _ _ flag _ => some flag
  | .doRun _ flag _ _ => some flag
  | .doBootd flag => some flag
  | .autoscript _ => none

/-- The activations of `do_bootd`. -/
def bootds (stack : List Frame) : Nat := stack.countP Frame.isBootd

/-- From a `do_bootd` on, every activation that has a flag has `CMD_FLAG_BOOTD` in it, and none
is another `do_bootd`. -/
def Guarded : List Frame → Prop
  | [] => True
  | f :: stack =>
    (∀ flag, f.flag = some flag → f.isBootd = true ∨ 0 < bootds stack → flag &&& cmdFlagBootd ≠ 0) ∧
    (f.isBootd = true → bootds stack = 0) ∧ Guarded stack

/-- The step to come executes a script's line under a `do_bootd`. -/
def scriptUnderBootd {σ : Type} : Machine σ → Bool
  | ⟨.autoscript (_ :: _) :: stack, none, _⟩ => 0 < bootds stack
  | _ => false

section
variable {σ : Type} {cfg : CmdCfg} {sys : Monitor σ} {stack : List Frame} {f f' : Frame}
  {flag : UInt32} {s : σ} {c : Call} {token : List UInt8} {argv argv' : Argv} {m m' : Machine σ}
  {e : Option Event} {cmd : Option (List UInt8)}

@[simp] theorem bootds_nil : bootds [] = 0 := rfl

@[simp] theorem bootds_cons : bootds (f :: stack) = bootds stack + if f.isBootd then 1 else 0 :=
  List.countP_cons

theorem Guarded.bootds_le (h : Guarded stack) : bootds stack ≤ 1 := by
  induction stack with
  | nil => exact Nat.zero_le _
  | cons f stack ih =>
    obtain ⟨-, hone, hstack⟩ := h
    rw [bootds_cons]
    split_ifs with hf
    · rw [hone hf]
    · exact ih hstack

theorem Guarded.replace (h : Guarded (f :: stack)) (hflag : f'.flag = f.flag)
    (hbootd : f'.isBootd = f.isBootd) : Guarded (f' :: stack) := by
  rw [Guarded, hflag, hbootd]
  exact h

theorem or_cmdFlagBootd (flag : UInt32) : (flag ||| cmdFlagBootd) &&& cmdFlagBootd ≠ 0 := by
  intro h
  have hbits := congrArg UInt32.toBitVec h
  rw [UInt32.toBitVec_and, UInt32.toBitVec_or, BitVec.and_or_distrib_right,
    BitVec.and_self] at hbits
  have hbit := congrArg (·.getLsbD 1) hbits
  simp [cmdFlagBootd] at hbit

theorem dispatch_call {argc : Nat} (h : dispatch cfg flag argc argv = .ok (.call c, argv')) :
    (c.cmdtp.cmd = .doBootd → flag &&& cmdFlagBootd = 0 ∧ c.flag = flag ||| cmdFlagBootd) ∧
    (c.cmdtp.cmd ≠ .doBootd → c.flag = flag) := by
  rw [dispatch] at h
  cases hfind : findCmd cfg.cmdTbl (argv 0) with
  | error f =>
    rw [hfind] at h
    cases h
  | ok r =>
    rw [hfind] at h
    cases r with
    | none => cases h
    | some cmdtp =>
      simp only [bind, Except.bind] at h
      split_ifs at h with hargc hbootd hflag
      · cases h
      · cases h
      · cases h
        exact ⟨fun _ => ⟨not_not.mp hflag, rfl⟩, fun hne => absurd hbootd hne⟩
      · cases h
        exact ⟨fun hb => absurd hb hbootd, fun _ => rfl⟩

theorem dispatch_recursion {argc : Nat} (hflag : flag &&& cmdFlagBootd ≠ 0)
    (hc : c.cmdtp.cmd = .doBootd) (h : dispatch cfg 0 argc argv = .ok (.call c, argv')) :
    dispatch cfg flag argc argv = .ok (.refused .recursion, argv') := by
  rw [dispatch] at h ⊢
  cases hfind : findCmd cfg.cmdTbl (argv 0) with
  | error f =>
    rw [hfind] at h
    cases h
  | ok r =>
    rw [hfind] at h
    cases r with
    | none => cases h
    | some cmdtp =>
      simp only [bind, Except.bind] at h ⊢
      split_ifs at h with hargc hbootd hzero
      · cases h
      · cases h
      · cases h
        rw [if_neg hargc, if_pos hbootd, if_pos hflag]
        rfl
      · cases h
        exact absurd hc hbootd

theorem bind_ok {ε α β : Type*} {x : Except ε α} {g : α → Except ε β} {b : β}
    (h : x.bind g = .ok b) : ∃ a, x = .ok a ∧ g a = .ok b := by
  cases x with
  | error _ => cases h
  | ok a => exact ⟨a, rfl, h⟩

theorem prepare_eq : prepare cfg sys.toSystem token argv flag s =
    (parseLineFrom ((processMacros cfg.cbSize (sys.getenv s) token).length < cfg.cbSize) cfg.maxArgs
      0 (processMacros cfg.cbSize (sys.getenv s) token) argv).bind
        fun r => dispatch cfg flag r.1 r.2 := rfl

/-- Only `do_bootd` adds to the flag of a call, and it is called without `CMD_FLAG_BOOTD` only. -/
theorem prepare_call (h : prepare cfg sys.toSystem token argv flag s = .ok (.call c, argv')) :
    (c.cmdtp.cmd = .doBootd → flag &&& cmdFlagBootd = 0 ∧ c.flag = flag ||| cmdFlagBootd) ∧
    (c.cmdtp.cmd ≠ .doBootd → c.flag = flag) := by
  rw [prepare_eq] at h
  obtain ⟨r, -, hd⟩ := bind_ok h
  exact dispatch_call hd

/-- With `CMD_FLAG_BOOTD` a token that would call `do_bootd` is refused. -/
theorem prepare_recursion (hflag : flag &&& cmdFlagBootd ≠ 0) (hc : c.cmdtp.cmd = .doBootd)
    (h : prepare cfg sys.toSystem token argv 0 s = .ok (.call c, argv')) :
    prepare cfg sys.toSystem token argv flag s = .ok (.refused .recursion, argv') := by
  rw [prepare_eq] at h ⊢
  obtain ⟨r, hr, hd⟩ := bind_ok h
  rw [hr]
  exact dispatch_recursion hflag hc hd

theorem Guarded.push (h : Guarded stack) (hb : f.isBootd = false)
    (hf : ∀ flag, f.flag = some flag → 0 < bootds stack → flag &&& cmdFlagBootd ≠ 0) :
    Guarded (f :: stack) := by
  rw [Guarded, hb]
  exact ⟨fun flag hflag hor => hf flag hflag (hor.resolve_left (by simp)), by simp, h⟩

theorem guarded_enter (h : Guarded stack) (hflag : 0 < bootds stack → flag &&& cmdFlagBootd ≠ 0) :
    Guarded (enter cfg sys cmd flag stack s).stack := by
  cases cmd with
  | none => exact h
  | some cmd =>
    rw [enter]
    split_ifs
    · exact h
    · exact h
    · refine h.push rfl ?_
      rintro _ ⟨⟩
      exact hflag

theorem guarded_enterCmd (h : Guarded (f :: stack)) (hf : f.flag = some c.flag)
    (hrun : f.isBootd = false)
    (hc : c.cmdtp.cmd = .doBootd → bootds stack = 0 ∧ c.flag &&& cmdFlagBootd ≠ 0) :
    Guarded (enterCmd cfg sys c (f :: stack) s).stack := by
  have hsame : 0 < bootds (f :: stack) → c.flag &&& cmdFlagBootd ≠ 0 := by
    rw [bootds_cons, hrun]
    exact fun hpos => h.1 _ hf (.inr hpos)
  rw [enterCmd]
  split
  · rename_i hb
    obtain ⟨hzero, hset⟩ := hc hb
    refine guarded_enter ⟨?_, fun _ => ?_, h⟩ fun _ => hset
    · rintro _ ⟨⟩ -
      exact hset
    · rw [bootds_cons, hrun, hzero]
      rfl
  · dsimp only
    split_ifs
    · exact h
    · refine h.push rfl ?_
      rintro _ ⟨⟩
      exact hsame
  · dsimp only
    split
    · exact h
    · refine h.push rfl ?_
      rintro _ ⟨⟩

theorem guarded_token {tokens : List (List UInt8)}
    (h : Guarded (.runCommand (token :: tokens) argv flag repeatable :: stack))
    (hn : next cfg sys ⟨.runCommand (token :: tokens) argv flag repeatable :: stack, none, s⟩ =
      some (e, m')) : Guarded m'.stack := by
  obtain ⟨hflag, -, hstack⟩ := id h
  rw [next_token] at hn
  cases hp : prepare cfg sys.toSystem token argv flag s with
  | error _ =>
    rw [hp] at hn
    cases hn
  | ok r =>
    obtain ⟨_ | c, argv'⟩ := r
    · rw [hp] at hn
      cases hn
      exact hstack
    · rw [hp] at hn
      cases hn
      obtain ⟨hbootd, hother⟩ := prepare_call hp
      have hnone : c.cmdtp.cmd = .doBootd → bootds stack = 0 := fun hc =>
        Nat.eq_zero_of_not_pos fun hpos => hflag flag rfl (.inr hpos) (hbootd hc).1
      refine guarded_enterCmd (hstack.push rfl ?_) rfl rfl fun hc => ⟨hnone hc, ?_⟩
      · rintro _ ⟨⟩ hpos
        rw [hother fun hc => Nat.ne_of_gt hpos (hnone hc)]
        exact hflag flag rfl (.inr hpos)
      · rw [(hbootd hc).2]
        exact or_cmdFlagBootd flag

theorem guarded_doRun (h : Guarded (.doRun args flag argc rcode :: stack))
    (hn : next cfg sys ⟨.doRun args flag argc rcode :: stack, ret, s⟩ = some (e, m')) :
    Guarded m'.stack := by
  obtain ⟨hflag, -, hstack⟩ := id h
  cases ret with
  | none =>
    cases args with
    | nil =>
      cases hn
      exact hstack
    | cons w args =>
      cases w with
      | none => cases hn
      | some w =>
        cases hn
        refine guarded_enter (h.replace rfl rfl) fun hpos => hflag flag rfl (.inr ?_)
        exact hpos
  | some rc =>
    rw [next_doRun_ret] at hn
    cases hn
    exact h.replace rfl rfl

theorem guarded_autoscript (h : Guarded (.autoscript lines :: stack))
    (hs : scriptUnderBootd ⟨.autoscript lines :: stack, ret, s⟩ = false)
    (hn : next cfg sys ⟨.autoscript lines :: stack, ret, s⟩ = some (e, m')) :
    Guarded m'.stack := by
  obtain ⟨-, -, hstack⟩ := id h
  cases ret with
  | none =>
    cases lines with
    | nil =>
      cases hn
      exact hstack
    | cons line lines =>
      cases hn
      refine guarded_enter (h.replace rfl rfl) fun hpos => ?_
      rw [scriptUnderBootd] at hs
      exact absurd hpos (of_decide_eq_false hs)
  | some rc =>
    rw [next_autoscript_ret] at hn
    split_ifs at hn
    · cases hn
      exact hstack
    · cases hn
      exact h

/-- **One step keeps the guard**, unless it executes a script's line under a `do_bootd`. -/
theorem guarded_next (h : Guarded m.stack) (hs : scriptUnderBootd m = false)
    (hn : next cfg sys m = some (e, m')) : Guarded m'.stack := by
  obtain ⟨_ | ⟨f, stack⟩, ret, s⟩ := m
  · cases hn
  obtain ⟨-, -, hstack⟩ := id h
  cases f with
  | runCommand tokens argv flag repeatable =>
    cases ret with
    | none =>
      cases tokens with
      | nil =>
        cases hn
        exact hstack
      | cons token tokens => exact guarded_token h hn
    | some rc =>
      rw [next_runCommand_ret] at hn
      split_ifs at hn
      · cases hn
        exact hstack
      · cases hn
        exact hstack
      · cases hn
        exact h
  | doRun args flag argc rcode => exact guarded_doRun h hn
  | doBootd flag =>
    cases ret with
    | none => cases hn
    | some rc =>
      cases hn
      exact hstack
  | autoscript lines => exact guarded_autoscript h hs hn

/-- A token that would call `do_bootd` is refused while one is active. -/
def RefusesBootd (cfg : CmdCfg) (sys : Monitor σ) (m : Machine σ) : Prop :=
  0 < bootds m.stack → ∀ token tokens argv flag repeatable stack c argv', m.ret = none →
    m.stack = .runCommand (token :: tokens) argv flag repeatable :: stack →
    prepare cfg sys.toSystem token argv 0 m.state = .ok (.call c, argv') →
    c.cmdtp.cmd = .doBootd →
    Step cfg sys m (some .recursion) ⟨stack, some (-1), m.state⟩

theorem Guarded.refuses (h : Guarded m.stack) : RefusesBootd cfg sys m := by
  obtain ⟨stack, ret, s⟩ := m
  rintro hpos token tokens argv flag repeatable stack c argv' rfl rfl hp hc
  have hflag : flag &&& cmdFlagBootd ≠ 0 := h.1 flag rfl (.inr hpos)
  rw [Step, next_token, prepare_recursion hflag hc hp]

/-- **`bootd` never recurses** in a run from `run_command (cmd, 0)` that executes no line of a
script under a `do_bootd`: at most one `do_bootd` is active, and while one is, another is refused
as a recursion. -/
theorem bootd_guarded (cfg : CmdCfg) (sys : Monitor σ) (cmd : Option (List UInt8)) (s : σ)
    {es : List (Option Event)} {m : Machine σ}
    (h : Lib.Run (Lib.Only (fun m _ => scriptUnderBootd m = false) (Step cfg sys))
      (enter cfg sys cmd 0 [] s) es m) :
    bootds m.stack ≤ 1 ∧ RefusesBootd cfg sys m := by
  have hstart : Guarded (enter cfg sys cmd 0 [] s).stack :=
    guarded_enter trivial fun hpos => absurd hpos (Nat.lt_irrefl 0)
  have hguard : Guarded m.stack :=
    h.invariant (I := fun m => Guarded m.stack)
      (fun _ _ _ hg hstep => guarded_next hg hstep.1 hstep.2) hstart
  exact ⟨hguard.bootds_le, hguard.refuses⟩

theorem bootds_enter : bootds (enter cfg sys cmd flag stack s).stack = bootds stack := by
  cases cmd with
  | none => rfl
  | some cmd =>
    rw [enter]
    split_ifs <;> rfl

/-- A script's line that would call `do_bootd` does so, whatever is active already. -/
theorem script_bootd_nests {line : List UInt8} {lines tokens' : List (List UInt8)}
    (hne : line ≠ []) (hlen : line.length < cfg.cbSize) (htokens : tokens line = token :: tokens')
    (hp : prepare cfg sys.toSystem token (sys.junk (sys.clearCtrlc s)) 0 (sys.clearCtrlc s) =
      .ok (.call c, argv'))
    (hc : c.cmdtp.cmd = .doBootd) :
    ∃ m₁ m₂, Step cfg sys ⟨.autoscript (line :: lines) :: stack, none, s⟩ none m₁ ∧
      Step cfg sys m₁ (some (.call c)) m₂ ∧ bootds m₂.stack = bootds stack + 1 := by
  have henter : enter cfg sys (some line) 0 (.autoscript lines :: stack) s =
      ⟨.runCommand (token :: tokens') (sys.junk (sys.clearCtrlc s)) 0 true ::
        .autoscript lines :: stack, none, sys.clearCtrlc s⟩ := by
    rw [enter, htokens, if_neg hne, if_neg (by omega)]
  have hcall : next cfg sys (enter cfg sys (some line) 0 (.autoscript lines :: stack) s) =
      some (some (.call c), enterCmd cfg sys c
        (.runCommand tokens' argv' c.flag (true && c.cmdtp.repeatable) ::
          .autoscript lines :: stack)
        (sys.clearCtrlc s)) := by
    rw [henter, next_token, hp]
  refine ⟨_, _, rfl, hcall, ?_⟩
  rw [enterCmd, hc]
  dsimp only
  rw [bootds_enter, bootds_cons, bootds_cons, bootds_cons]
  rfl

end

def bootd : List UInt8 := [98, 111, 111, 116, 100]

def autoscr : List UInt8 := [97, 117, 116, 111, 115, 99, 114]

theorem bootdCfg_maxArgs_pos : 0 < 16 := by decide

/-- `bootd` and `autoscr` only. -/
def bootdCfg : CmdCfg where
  cbSize := 256
  maxArgs := 16
  cmdTbl := [⟨bootd, 4, 1, true, .doBootd⟩, ⟨autoscr, 5, 2, false, .doAutoscript⟩]
  maxArgs_pos := bootdCfg_maxArgs_pos
  cmdTbl_ne := List.cons_ne_nil _ _
  lmin_pos := List.forall_mem_cons.mpr
    ⟨by decide, List.forall_mem_cons.mpr ⟨by decide, List.forall_mem_nil _⟩⟩

/-- A monitor with `cmd` for `bootcmd` and the script `bootd`. -/
def bootdMonitor (cmd : List UInt8) : Monitor Unit where
  getenv _ name := if name = bootcmd then some cmd else none
  hadCtrlc _ := false
  clearCtrlc := id
  exec _ _ := (0, ())
  junk _ _ := none
  script _ _ := some (bootd ++ [10])

/-- With `bootd` for `bootcmd` the second `bootd` is refused. -/
theorem bootd_guarded_bootd : ∃ es m,
    Lib.Run (Step bootdCfg (bootdMonitor bootd)) (enter bootdCfg (bootdMonitor bootd) bootd 0 [] ())
      es m ∧
    bootds m.stack = 1 ∧ m.ret = none ∧
    bootds m.stack ≤ 1 ∧ RefusesBootd bootdCfg (bootdMonitor bootd) m := by
  obtain ⟨es, m, hrun, hm⟩ := Lib.Run.of_follow (f := next bootdCfg (bootdMonitor bootd))
    (s := enter bootdCfg (bootdMonitor bootd) bootd 0 [] ()) (fun m => !scriptUnderBootd m)
    (fun m => bootds m.stack = 1 ∧ m.ret = none) 1 (by decide +kernel)
  have hone : bootds m.stack = 1 ∧ m.ret = none := of_decide_eq_true hm
  have hguard := bootd_guarded bootdCfg (bootdMonitor bootd) bootd ()
    (hrun.mono fun m e m' h => ⟨by simpa using h.1, h.2⟩)
  exact ⟨es, m, hrun.of_only, hone.1, hone.2, hguard⟩

/-- With `autoscr` for `bootcmd` the script's `bootd` is called under the first one. -/
theorem bootd_recurses : ∃ es m,
    Lib.Run (Step bootdCfg (bootdMonitor autoscr))
      (enter bootdCfg (bootdMonitor autoscr) bootd 0 [] ()) es m ∧ bootds m.stack = 2 := by
  obtain ⟨es, m, hrun, hm⟩ := Lib.Run.of_follow (f := next bootdCfg (bootdMonitor autoscr))
    (s := enter bootdCfg (bootdMonitor autoscr) bootd 0 [] ()) (fun _ => true)
    (fun m => bootds m.stack = 2) 4 (by decide +kernel)
  exact ⟨es, m, hrun.of_only, of_decide_eq_true hm⟩

end UBoot.Command
