import UBoot.Lib.Area

/-!
# Console selection (`common/console.c`)

`console_init_r` looks for the devices that `stdin`, `stdout` and `stderr` name in the environment,
and falls back to `serial`. `search_device` tells a name it does not find by `NULL` only when there
is no name: otherwise it returns the last device of the list. A device that does not start is not
assigned, and nothing takes its place. `console_selection_iff` says when each file gets the device
it should.
-/

namespace UBoot.Console

open UBoot.Lib

/-- `stdin`, `stdout` and `stderr`. -/
inductive File where
  | stdin
  | stdout
  | stderr
  deriving DecidableEq, Repr

def DEV_FLAGS_INPUT : UInt32 := 1

def DEV_FLAGS_OUTPUT : UInt32 := 2

/-- `device_t`, with functions from `F`. `start` may answer differently for each file that the
device is started for. -/
structure Device (F : Type) where
  flags : UInt32
  name : CStr
  start : Option (File → ℤ)
  putc : Option F
  puts : Option F
  tstc : Option F
  getc : Option F

/-- The functions that are there without a device. -/
structure Builtin (F : Type) where
  serialGetc : F
  serialTstc : F
  serialPutc : F
  serialPuts : F
  serialPrintf : F
  printf : F

/-- The entries of `syscall_tbl` that the console sets. -/
structure Syscalls (F : Type) where
  getc : Option F
  tstc : Option F
  putc : Option F
  puts : Option F
  printf : Option F

/-- `stdio_devices`, by the place in the list, and `syscall_tbl`. -/
structure State (F : Type) where
  stdioDevices : File → Option ℕ
  syscallTbl : Syscalls F

variable {F : Type}

/-- The loop of `search_device`: `dev` is the device it looked at last. -/
def searchFrom (flags : UInt32) (name : CStr) (i : ℕ) (dev : Option ℕ) :
    List (Device F) → Option ℕ
  | [] => dev
  | d :: rest =>
    if d.flags &&& flags ≠ 0 ∧ name = d.name then some i
    else searchFrom flags name (i + 1) (some i) rest

def searchDevice (devlist : List (Device F)) (flags : UInt32) (name : Option CStr) : Option ℕ :=
  match name with
  | none => none
  | some name => searchFrom flags name 0 none devlist

/-- Without `CFG_CONSOLE_OVERWRITE_ROUTINE`. -/
def overwriteConsole : ℤ := 0

/-- The entries of `syscall_tbl` that go with a file. -/
def Syscalls.assign (t : Syscalls F) (b : Builtin F) (file : File) (d : Device F) : Syscalls F :=
  match file with
  | .stdin => { t with getc := d.getc, tstc := d.tstc }
  | .stdout => { t with putc := d.putc, puts := d.puts, printf := some b.printf }
  | .stderr => t

/-- What `dev->start` returns, 0 where there is no such function. -/
def Device.startFor (d : Device F) (file : File) : ℤ :=
  match d.start with
  | some start => start file
  | none => 0

def consoleSetfile (devlist : List (Device F)) (b : Builtin F) (file : File) (dev : Option ℕ)
    (s : State F) : State F :=
  match dev with
  | none => s
  | some i =>
    match devlist[i]? with
    | none => s
    | some d =>
      if d.startFor file < 0 then s
      else { stdioDevices := Function.update s.stdioDevices file (some i)
             syscallTbl := s.syscallTbl.assign b file d }

/-- The flag that a device for a file has to have. -/
def File.flag : File → UInt32
  | .stdin => DEV_FLAGS_INPUT
  | .stdout => DEV_FLAGS_OUTPUT
  | .stderr => DEV_FLAGS_OUTPUT

/-- `serial` -/
def serialName : CStr := ⟨[115, 101, 114, 105, 97, 108], by decide⟩

/-- The device that `console_init_r` takes for a file: that of the variable, else the default. -/
def chosen (devlist : List (Device F)) (env : File → Option CStr) (file : File) : Option ℕ :=
  let dev := if overwriteConsole = 0 then searchDevice devlist file.flag (env file) else none
  match dev with
  | some i => some i
  | none => searchDevice devlist file.flag (some serialName)

def State.start (b : Builtin F) : State F where
  stdioDevices _ := none
  syscallTbl := ⟨some b.serialGetc, some b.serialTstc, some b.serialPutc, some b.serialPuts,
    some b.serialPrintf⟩

/-- `console_init_r` with `CFG_CONSOLE_IS_IN_ENV`; `env` has the values of the three variables. -/
def consoleInitR (devlist : List (Device F)) (b : Builtin F) (env : File → Option CStr) : State F :=
  consoleSetfile devlist b .stdin (chosen devlist env .stdin)
    (consoleSetfile devlist b .stderr (chosen devlist env .stderr)
      (consoleSetfile devlist b .stdout (chosen devlist env .stdout) (State.start b)))

/-! ## The device that a file should have -/

/-- The device has the name and can do what the file asks for. -/
def Device.Serves (file : File) (name : CStr) (d : Device F) : Prop :=
  d.flags &&& file.flag ≠ 0 ∧ name = d.name

instance (file : File) (name : CStr) (d : Device F) : Decidable (d.Serves file name) :=
  inferInstanceAs (Decidable (_ ∧ _))

/-- The first device with the name that can do what the file asks for. -/
def serving (devlist : List (Device F)) (file : File) (name : CStr) : Option ℕ :=
  devlist.findIdx? fun d => d.Serves file name

def Starts (devlist : List (Device F)) (file : File) (i : ℕ) : Prop :=
  devlist[i]?.any (fun d => 0 ≤ d.startFor file) = true

instance (devlist : List (Device F)) (file : File) (i : ℕ) : Decidable (Starts devlist file i) :=
  inferInstanceAs (Decidable (_ = _))

/-- For every file there is a working device `serial`. -/
structure HasSerial (devlist : List (Device F)) (k : File → ℕ) : Prop where
  found : ∀ file, serving devlist file serialName = some (k file)
  works : ∀ file, Starts devlist file (k file)

def wanted (devlist : List (Device F)) (env : File → Option CStr) (k : File → ℕ) (file : File) :
    ℕ :=
  match (env file).bind (serving devlist file) with
  | some i => if Starts devlist file i then i else k file
  | none => k file

/-- A device has the functions that its flags stand for. -/
structure Device.Complete (d : Device F) : Prop where
  input : d.flags &&& DEV_FLAGS_INPUT ≠ 0 → d.getc.isSome ∧ d.tstc.isSome
  output : d.flags &&& DEV_FLAGS_OUTPUT ≠ 0 → d.putc.isSome ∧ d.puts.isSome

/-- The functions that are called on the device of a file are there. -/
def Device.Callable (file : File) (d : Device F) : Prop :=
  match file with
  | .stdin => d.getc.isSome ∧ d.tstc.isSome
  | .stdout => d.putc.isSome ∧ d.puts.isSome
  | .stderr => d.putc.isSome ∧ d.puts.isSome

/-- The entries of `syscall_tbl` for a file are those of the device. -/
def Syscalls.Agrees (t : Syscalls F) (b : Builtin F) (file : File) (d : Device F) : Prop :=
  match file with
  | .stdin => t.getc = d.getc ∧ t.tstc = d.tstc
  | .stdout => t.putc = d.putc ∧ t.puts = d.puts ∧ t.printf = some b.printf
  | .stderr => True

/-- Every file designates the device it should, which can be used for it. -/
structure Selected (devlist : List (Device F)) (b : Builtin F) (env : File → Option CStr)
    (k : File → ℕ) (s : State F) : Prop where
  designates : ∀ file, s.stdioDevices file = some (wanted devlist env k file)
  flag : ∀ file i, s.stdioDevices file = some i → ∃ d, devlist[i]? = some d ∧
    d.flags &&& file.flag ≠ 0
  callable : (∀ d ∈ devlist, d.Complete) → ∀ file i d, s.stdioDevices file = some i →
    devlist[i]? = some d → d.Callable file
  agrees : ∀ file i d, s.stdioDevices file = some i → devlist[i]? = some d →
    s.syscallTbl.Agrees b file d

variable {devlist l : List (Device F)} {b : Builtin F} {env : File → Option CStr} {file g : File}
  {name : CStr} {i j : ℕ} {k : File → ℕ} {s : State F} {d : Device F} {dev : Option ℕ}

/-! ## The search -/

theorem getElem?_of_serving (h : serving devlist file name = some i) :
    ∃ d, devlist[i]? = some d ∧ d.Serves file name := by
  rw [serving, List.findIdx?_eq_some_iff_getElem] at h
  obtain ⟨hlt, hd, -⟩ := h
  exact ⟨devlist[i], List.getElem?_eq_getElem hlt, of_decide_eq_true hd⟩

/-- The loop stops at the first device that serves, and otherwise leaves the last one. -/
theorem searchFrom_eq : searchFrom file.flag name i dev l = match serving l file name with
    | some j => some (i + j)
    | none => if l.length = 0 then dev else some (i + l.length - 1) := by
  induction l generalizing i dev with
  | nil => rfl
  | cons d l ih =>
    rw [searchFrom, serving, List.findIdx?_cons]
    by_cases hd : d.flags &&& file.flag ≠ 0 ∧ name = d.name
    · have hserves : decide (d.Serves file name) = true := decide_eq_true hd
      rw [if_pos hd, if_pos hserves]
      rfl
    have hserves : ¬ decide (d.Serves file name) = true := mt of_decide_eq_true hd
    rw [if_neg hd, if_neg hserves, ih, ← serving]
    cases serving l file name with
    | some j =>
      rw [Option.map_some]
      exact congrArg some (by omega)
    | none =>
      rw [Option.map_none, List.length_cons]
      dsimp only
      rw [if_neg (Nat.succ_ne_zero _)]
      split_ifs with hl
      · exact congrArg some (by omega)
      · exact congrArg some (by omega)

theorem starts_iff : Starts devlist file i ↔ ∃ d, devlist[i]? = some d ∧ 0 ≤ d.startFor file := by
  rw [Starts]
  cases devlist[i]? with
  | none => exact iff_of_false (fun h => by cases h) fun ⟨d, hd, _⟩ => by cases hd
  | some d =>
    rw [Option.any_some, decide_eq_true_eq]
    exact ⟨fun h => ⟨d, rfl, h⟩, fun ⟨d', hd', h⟩ => Option.some.inj hd' ▸ h⟩

variable (env file) in
theorem chosen_eq (hserial : HasSerial devlist k) : chosen devlist env file = match env file with
    | none => some (k file)
    | some name => match serving devlist file name with
      | some i => some i
      | none => some (devlist.length - 1) := by
  have hne : devlist.length ≠ 0 := by
    obtain ⟨d, hd, -⟩ := starts_iff.mp (hserial.works file)
    exact Nat.ne_of_gt (Nat.zero_lt_of_lt (List.getElem?_eq_some_iff.mp hd).1)
  rw [chosen, overwriteConsole, if_pos rfl]
  cases henv : env file with
  | none =>
    show searchFrom file.flag serialName 0 none devlist = some (k file)
    rw [searchFrom_eq, hserial.found file]
    dsimp only
    rw [Nat.zero_add]
  | some name =>
    rw [searchDevice, searchFrom_eq]
    cases hs : serving devlist file name with
    | some i => simp only [hs, Nat.zero_add]
    | none => simp only [hs, if_neg hne, Nat.zero_add]

/-! ## The assignments -/

/-- A file gets the device if it starts, and otherwise stays as it is. -/
theorem stdioDevices_setfile (h : devlist[i]? = some d) :
    (consoleSetfile devlist b file (some i) s).stdioDevices file =
      if 0 ≤ d.startFor file then some i else s.stdioDevices file := by
  unfold consoleSetfile
  dsimp only
  rw [h]
  dsimp only
  by_cases hstart : d.startFor file < 0
  · rw [if_pos hstart, if_neg (Int.not_le.mpr hstart)]
  · rw [if_neg hstart, if_pos (Int.not_lt.mp hstart)]
    exact Function.update_self ..

theorem stdioDevices_setfile_of_ne (hg : g ≠ file) :
    (consoleSetfile devlist b file dev s).stdioDevices g = s.stdioDevices g := by
  unfold consoleSetfile
  cases dev with
  | none => rfl
  | some i =>
    dsimp only
    cases devlist[i]? with
    | none => rfl
    | some d =>
      dsimp only
      split_ifs
      · rfl
      · exact Function.update_of_ne hg ..

theorem agrees_assign {t : Syscalls F} : (t.assign b file d).Agrees b file d := by
  cases file with
  | stdin => exact ⟨rfl, rfl⟩
  | stdout => exact ⟨rfl, rfl, rfl⟩
  | stderr => trivial

theorem agrees_assign_of_ne {t : Syscalls F} {d' : Device F} (hg : g ≠ file)
    (h : t.Agrees b g d) : (t.assign b file d').Agrees b g d := by
  cases g <;> cases file <;> first | exact absurd rfl hg | exact h

/-- Every file that has a device has the one that was taken for it. -/
structure Assigned (devlist : List (Device F)) (b : Builtin F) (env : File → Option CStr)
    (s : State F) : Prop where
  taken : ∀ file i, s.stdioDevices file = some i → chosen devlist env file = some i
  agrees : ∀ file i d, s.stdioDevices file = some i → devlist[i]? = some d →
    s.syscallTbl.Agrees b file d

theorem Assigned.setfile (hs : Assigned devlist b env s) :
    Assigned devlist b env (consoleSetfile devlist b file (chosen devlist env file) s) := by
  cases hi : chosen devlist env file with
  | none => exact hs
  | some i =>
    unfold consoleSetfile
    dsimp only
    cases hd : devlist[i]? with
    | none => exact hs
    | some d =>
      dsimp only
      split_ifs with hstart
      · exact hs
      refine ⟨fun g j hg => ?_, fun g j d' hg hd' => ?_⟩ <;> dsimp only at hg ⊢
      · by_cases hgf : g = file
        · subst hgf
          rw [Function.update_self] at hg
          rw [hi, hg]
        · rw [Function.update_of_ne hgf] at hg
          exact hs.taken g j hg
      · by_cases hgf : g = file
        · subst hgf
          rw [Function.update_self] at hg
          obtain rfl := Option.some.inj hg
          obtain rfl := Option.some.inj (hd.symm.trans hd')
          exact agrees_assign
        · rw [Function.update_of_ne hgf] at hg
          exact agrees_assign_of_ne hgf (hs.agrees g j d' hg hd')

theorem assigned_initR : Assigned devlist b env (consoleInitR devlist b env) :=
  have hstart : Assigned devlist b env (State.start b) :=
    ⟨fun _ _ h => (by cases h), fun _ _ _ h => by cases h⟩
  hstart.setfile.setfile.setfile

/-- A file designates the device that was taken for it just if that starts. -/
theorem stdioDevices_initR (h : chosen devlist env file = some i) (hd : devlist[i]? = some d) :
    (consoleInitR devlist b env).stdioDevices file =
      if 0 ≤ d.startFor file then some i else none := by
  rw [consoleInitR]
  cases file with
  | stdin =>
    rw [h, stdioDevices_setfile hd, stdioDevices_setfile_of_ne (by decide),
      stdioDevices_setfile_of_ne (by decide)]
    rfl
  | stdout =>
    rw [stdioDevices_setfile_of_ne (by decide), stdioDevices_setfile_of_ne (by decide), h,
      stdioDevices_setfile hd]
    rfl
  | stderr =>
    rw [stdioDevices_setfile_of_ne (by decide), h, stdioDevices_setfile hd,
      stdioDevices_setfile_of_ne (by decide)]
    rfl

/-! ## When the files get their devices -/

/-- The variable of the file is not set, or it names a device for the file that starts, or it names
none and the last device of the list is `serial`. -/
def Found (devlist : List (Device F)) (env : File → Option CStr) (k : File → ℕ) (file : File) :
    Prop :=
  match env file with
  | none => True
  | some name => match serving devlist file name with
    | some i => Starts devlist file i
    | none => k file + 1 = devlist.length

theorem designates_iff (hserial : HasSerial devlist k) :
    (consoleInitR devlist b env).stdioDevices file = some (wanted devlist env k file) ↔
      Found devlist env k file := by
  obtain ⟨ds, hds, hstarts⟩ := starts_iff.mp (hserial.works file)
  have hlt : k file < devlist.length := (List.getElem?_eq_some_iff.mp hds).1
  have hchosen := chosen_eq env file hserial
  rw [Found, wanted]
  cases henv : env file with
  | none =>
    rw [henv] at hchosen
    rw [stdioDevices_initR hchosen hds, if_pos hstarts]
    exact iff_of_true rfl trivial
  | some name =>
    rw [Option.bind_some]
    cases hs : serving devlist file name with
    | some i =>
      obtain ⟨d, hd, -⟩ := getElem?_of_serving hs
      simp only [henv, hs] at hchosen ⊢
      rw [stdioDevices_initR hchosen hd]
      by_cases hstart : 0 ≤ d.startFor file
      · have hi : Starts devlist file i := starts_iff.mpr ⟨d, hd, hstart⟩
        rw [if_pos hstart, if_pos hi]
        exact iff_of_true rfl hi
      · have hi : ¬ Starts devlist file i := fun h => by
          obtain ⟨d', hd', h'⟩ := starts_iff.mp h
          obtain rfl := Option.some.inj (hd.symm.trans hd')
          exact hstart h'
        rw [if_neg hstart]
        exact iff_of_false (fun h => by cases h) hi
    | none =>
      simp only [henv, hs] at hchosen ⊢
      have hlast : devlist.length - 1 < devlist.length := by omega
      rw [stdioDevices_initR hchosen (List.getElem?_eq_getElem hlast)]
      constructor
      · intro h
        split_ifs at h
        have := Option.some.inj h
        omega
      · intro h
        have hk : devlist.length - 1 = k file := by omega
        obtain rfl : ds = devlist[devlist.length - 1] := by
          rw [← hk, List.getElem?_eq_getElem hlast] at hds
          exact (Option.some.inj hds).symm
        rw [if_pos hstarts, hk]

theorem wanted_serves (hserial : HasSerial devlist k) :
    ∃ d, devlist[wanted devlist env k file]? = some d ∧ d.flags &&& file.flag ≠ 0 := by
  have hk : ∃ d, devlist[k file]? = some d ∧ d.flags &&& file.flag ≠ 0 := by
    obtain ⟨d, hd, hserves⟩ := getElem?_of_serving (hserial.found file)
    exact ⟨d, hd, hserves.1⟩
  rw [wanted]
  cases hs : (env file).bind (serving devlist file) with
  | none => exact hk
  | some i =>
    dsimp only
    split_ifs
    · obtain ⟨name, -, hserving⟩ := Option.bind_eq_some_iff.mp hs
      obtain ⟨d, hd, hserves⟩ := getElem?_of_serving hserving
      exact ⟨d, hd, hserves.1⟩
    · exact hk

/-- **Each file gets the device it should, and one it can use, just if its variable is not set or
names a device for it that starts**, or `serial` is the last device of the list, which the search
takes for a name it does not find. -/
theorem console_selection_iff (hserial : HasSerial devlist k) :
    Selected devlist b env k (consoleInitR devlist b env) ↔ ∀ file, Found devlist env k file := by
  refine ⟨fun h file => (designates_iff hserial).mp (h.designates file), fun h => ?_⟩
  have hdes : ∀ file, (consoleInitR devlist b env).stdioDevices file =
      some (wanted devlist env k file) := fun file => (designates_iff hserial).mpr (h file)
  have hflag : ∀ file i, (consoleInitR devlist b env).stdioDevices file = some i →
      ∃ d, devlist[i]? = some d ∧ d.flags &&& file.flag ≠ 0 := fun file i hi => by
    obtain rfl := Option.some.inj ((hdes file).symm.trans hi)
    exact wanted_serves hserial
  refine ⟨hdes, hflag, fun hcomplete file i d hi hd => ?_, assigned_initR.agrees⟩
  obtain ⟨d', hd', hflags⟩ := hflag file i hi
  obtain rfl := Option.some.inj (hd.symm.trans hd')
  have hd := hcomplete d (List.mem_of_getElem? hd)
  cases file with
  | stdin => exact hd.input hflags
  | stdout => exact hd.output hflags
  | stderr => exact hd.output hflags

/-! ## Runs -/

def sampleBuiltin : Builtin ℕ := ⟨0, 1, 2, 3, 4, 5⟩

/-- `serial`, and the display `lcd`, which has no input. -/
def sampleDevices : List (Device ℕ) :=
  [⟨3, serialName, none, some 10, some 11, some 12, some 13⟩,
   ⟨2, ⟨[108, 99, 100], by decide⟩, none, some 20, some 21, none, none⟩]

theorem sampleDevices_hasSerial : HasSerial sampleDevices fun _ => 0 where
  found file := by cases file <;> decide
  works file := by cases file <;> decide

theorem console_selection_sample :
    Selected sampleDevices sampleBuiltin (fun _ => none) (fun _ => 0)
      (consoleInitR sampleDevices sampleBuiltin fun _ => none) ↔
    ∀ file, Found sampleDevices (fun _ => none) (fun _ => 0) file :=
  console_selection_iff sampleDevices_hasSerial

/-- `stdin` set to a name that no device has gets the display, which has no `getc`. -/
theorem console_selects_last :
    HasSerial sampleDevices (fun _ => 0) ∧
    (consoleInitR sampleDevices sampleBuiltin fun _ => some ⟨[107], by decide⟩).stdioDevices
      .stdin = some 1 ∧
    ¬ Selected sampleDevices sampleBuiltin (fun _ => some ⟨[107], by decide⟩) (fun _ => 0)
      (consoleInitR sampleDevices sampleBuiltin fun _ => some ⟨[107], by decide⟩) := by
  refine ⟨sampleDevices_hasSerial, by decide, fun h => ?_⟩
  have hin := h.designates .stdin
  revert hin
  decide

end UBoot.Console
