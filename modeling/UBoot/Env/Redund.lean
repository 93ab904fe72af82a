import UBoot.Env.Flash
import UBoot.Lib.Crash

/-!
# The redundant environment under power cuts (`CFG_ENV_ADDR_REDUND`)

Two copies in flash, `flash_addr` the one in use and `flash_addr_new` the other. A `Flash`
is the two copies, a `FlashOp` one erase or write; `envRelocateSpec` and `saveenv` are
programs of such operations, and power may be lost before any of them.

* `Sys` is the device with the monitor in one of its modes; `step` is one event.
* `Strict` and `Swapping` are the states of the two copies after a completed save; in both
  (`Settled`) it is determined what `envInit` selects.
* `redundant_env_safe` follows them over every run of boots, edits, saves and cuts.
-/

namespace UBoot.Env.Redund

open UBoot.Lib

/-! ## The two copies -/

/-- The copy at `CFG_ENV_ADDR` and the one at `CFG_ENV_ADDR_REDUND`. -/
inductive Slot where
  | addr
  | addrRedund
  deriving DecidableEq

def Slot.other : Slot → Slot
  | addr => addrRedund
  | addrRedund => addr

@[simp] theorem Slot.other_other (x : Slot) : x.other.other = x := by cases x <;> rfl

@[simp] theorem Slot.other_ne (x : Slot) : x.other ≠ x := by cases x <;> simp [other]

@[simp] theorem Slot.ne_other (x : Slot) : x ≠ x.other := (other_ne x).symm

/-- A copy, and which of its writes completed since its last erase. -/
structure Copy (n : Nat) where
  env : EnvT n
  dataWritten : Bool
  crcWritten : Bool

variable {n : Nat}

/-- The test of `env_init`; on a copy not completely written it fails. -/
def Copy.CrcOk (c : Copy n) : Prop := c.dataWritten = true ∧ c.crcWritten = true ∧ c.env.CrcOk

instance (c : Copy n) : Decidable c.CrcOk := inferInstanceAs (Decidable (_ ∧ _ ∧ _))

abbrev Flash (n : Nat) := Slot → Copy n

abbrev activeFlag : UInt8 := 1

abbrev obsoleteFlag : UInt8 := 0

/-- One operation on a copy: the erase of its sectors, or a `flash_write` to one of its
fields. -/
inductive Change (n : Nat) where
  | erase
  | data (data : Area n)
  | crc (crc : UInt32)
  | flags (flags : UInt8)

def Change.on : Change n → Copy n → Copy n
  | erase, _ => ⟨⟨0xffffffff, 0xff, ⟨List.replicate n 0xff, List.length_replicate⟩⟩, false, false⟩
  | data d, c => { c with env := { c.env with data := d }, dataWritten := true }
  | crc k, c => { c with env := { c.env with crc := k }, crcWritten := true }
  | flags b, c => { c with env := { c.env with flags := b } }

abbrev FlashOp (n : Nat) := Slot × Change n

def exec (o : FlashOp n) (f : Flash n) : Flash n := Function.update f o.1 (o.2.on (f o.1))

@[simp] theorem exec_self (x : Slot) (ch : Change n) (f : Flash n) :
    exec (x, ch) f x = ch.on (f x) := Function.update_self ..

@[simp] theorem exec_other (x : Slot) (ch : Change n) (f : Flash n) :
    exec (x, ch) f x.other = f x.other := Function.update_of_ne (Slot.other_ne x) ..

@[simp] theorem exec_of_other (x : Slot) (ch : Change n) (f : Flash n) :
    exec (x.other, ch) f x = f x := Function.update_of_ne (Slot.ne_other x) ..

/-! ## Boot and save -/

/-- `gd->env_addr` (no copy: the default environment, or not set) and `gd->env_valid`. -/
structure Gd where
  envAddr : Option Slot
  envValid : Nat

/-- `env_init`; it runs before relocation, when `flash_addr` is `CFG_ENV_ADDR`. The last
case leaves `gd` as the start-up code cleared it. -/
def envInit (f : Flash n) : Gd :=
  let crc1Ok := (f .addr).CrcOk
  let crc2Ok := (f .addrRedund).CrcOk
  let flag1 := (f .addr).env.flags
  let flag2 := (f .addrRedund).env.flags
  if crc1Ok ∧ ¬ crc2Ok then ⟨some .addr, 1⟩
  else if ¬ crc1Ok ∧ crc2Ok then ⟨some .addrRedund, 1⟩
  else if ¬ crc1Ok ∧ ¬ crc2Ok then ⟨none, 0⟩
  else if flag1 = activeFlag ∧ flag2 = obsoleteFlag then ⟨some .addr, 1⟩
  else if flag1 = obsoleteFlag ∧ flag2 = activeFlag then ⟨some .addrRedund, 1⟩
  else if flag1 = flag2 then ⟨some .addr, 2⟩
  else if flag1 = 0xff then ⟨some .addr, 2⟩
  else if flag2 = 0xff then ⟨some .addrRedund, 2⟩
  else ⟨none, 0⟩

abbrev FlashProg (n : Nat) := Prog (Flash n) (FlashOp n)

/-- `env_relocate_spec`: `flash_addr` and the RAM copy. It repairs the flags that a cut
`saveenv` left. -/
def envRelocateSpec (gd : Gd) : FlashProg n (Slot × EnvT n) :=
  let flashAddr := if gd.envAddr = some .addr then Slot.addr else .addrRedund
  let flashAddrNew := flashAddr.other
  .look fun f =>
    (Prog.opIf ((f flashAddrNew).env.flags ≠ obsoleteFlag ∧ (f flashAddrNew).CrcOk)
      (flashAddrNew, .flags obsoleteFlag)).bind fun _ =>
  .look fun f =>
    (Prog.opIf ((f flashAddr).env.flags ≠ activeFlag ∧
        (f flashAddr).env.flags &&& activeFlag = activeFlag)
      (flashAddr, .flags activeFlag)).bind fun _ =>
  .look fun f => .ret (flashAddr, (f flashAddr).env)

/-- `env_relocate`: `flash_addr` and the RAM copy. -/
def envRelocate (dflt : List UInt8) (malloced : EnvT n) (gd : Gd) : FlashProg n (Slot × EnvT n) :=
  if gd.envValid = 0 then .ret (.addr, relocateDefault dflt 0xff malloced)
  else envRelocateSpec gd

/-- `saveenv`: the result, and `flash_addr` after it. `protect` and `protectNew` say whether
the two copies can be unprotected. -/
def saveenv (flashAddr : Slot) (env : EnvT n) (protect protectNew : Bool) :
    FlashProg n (Nat × Slot) :=
  let flashAddrNew := flashAddr.other
  if !protect || !protectNew then .ret (1, flashAddr)
  else
    .op (flashAddrNew, .erase) <|
    .op (flashAddrNew, .data env.data) <|
    .op (flashAddrNew, .crc env.crc) <|
    .op (flashAddr, .flags obsoleteFlag) <|
    .op (flashAddrNew, .flags activeFlag) <|
    .ret (0, flashAddrNew)

/-! ## The device -/

inductive Mode (n : Nat) where
  | off
  | booting (p : FlashProg n (Slot × EnvT n))
  | ready (flashAddr : Slot) (m : Monitor n)
  | saving (m : Monitor n) (p : FlashProg n (Nat × Slot))

def Mode.isOff : Mode n → Bool
  | off => true
  | _ => false

theorem Mode.eq_off {m : Mode n} (h : m.isOff = true) : m = .off := by
  cases m <;> first | rfl | cases h

/-- The device. The last three fields only record what happened: the environment of the
last `saveenv` that returned 0, those of the ones interrupted since, and which of these
are not older than what the last `env_init` selected. -/
structure Sys (n : Nat) where
  flash : Flash n
  mode : Mode n
  lastOk : Option (Area n)
  cutSaves : List (Area n)
  newest : List (Area n)

inductive Ev (n : Nat) where
  /-- power on and `env_init`; `malloc` will return this memory -/
  | powerOn (malloced : EnvT n)
  /-- the next step of a boot or a save -/
  | go
  | booted (g : Globals)
  | setenv (c : Call)
  | saveenv (protect protectNew : Bool)
  | saved
  | cut

/-- The device with power off, before any save. -/
def Sys.start (flash : Flash n) : Sys n := ⟨flash, .off, none, [], []⟩

def step (b : Build) (dflt : List UInt8) (s : Sys n) : Ev n → Option (Sys n)
  | .powerOn malloced =>
    match s.mode with
    | .off =>
      let gd := envInit s.flash
      some { s with
        mode := .booting (envRelocate dflt malloced gd)
        newest := gd.envAddr.toList.map fun x => (s.flash x).env.data }
    | _ => none
  | .go =>
    match s.mode with
    | .booting p => (p.next exec s.flash).map fun r => { s with flash := r.1, mode := .booting r.2 }
    | .saving m p =>
      (p.next exec s.flash).map fun r => { s with flash := r.1, mode := .saving m r.2 }
    | _ => none
  | .booted g =>
    match s.mode with
    | .booting (.ret (flashAddr, env)) => some { s with mode := .ready flashAddr ⟨env, g⟩ }
    | _ => none
  | .setenv c =>
    match s.mode with
    | .ready flashAddr m =>
      match doSetenv b c.outside m.env m.g c.name c.args with
      | .ok r => some { s with mode := .ready flashAddr ⟨r.env, r.g⟩ }
      | .error _ => none
    | _ => none
  | .saveenv protect protectNew =>
    match s.mode with
    | .ready flashAddr m =>
      some { s with mode := .saving m (saveenv flashAddr m.env protect protectNew) }
    | _ => none
  | .saved =>
    match s.mode with
    | .saving m (.ret (rc, flashAddr)) =>
      if rc = 0 then some ⟨s.flash, .ready flashAddr m, some m.env.data, [], [m.env.data]⟩
      else some { s with mode := .ready flashAddr m }
    | _ => none
  | .cut =>
    match s.mode with
    | .off => none
    | .saving m _ => some { s with
        mode := .off
        cutSaves := m.env.data :: s.cutSaves
        newest := m.env.data :: s.newest }
    | _ => some { s with mode := .off }

def Step (b : Build) (dflt : List UInt8) (s : Sys n) (e : Ev n) (s' : Sys n) : Prop :=
  step b dflt s e = some s'

/-! ## The states of the two copies after a save -/

section
variable {f : Flash n} {x : Slot} {d : Area n}

/-- `x` is the active copy with data `d`, and the other one obsolete or being replaced. -/
structure Strict (f : Flash n) (x : Slot) (d : Area n) : Prop where
  crcOk : (f x).CrcOk
  data : (f x).env.data = d
  flags : (f x).env.flags = activeFlag
  other : (f x.other).env.flags = obsoleteFlag ∨
    ((f x.other).env.flags = 0xff ∧ ¬ (f x.other).CrcOk)

/-- `x` is completely written, but its flag is not. -/
structure Swapping (f : Flash n) (x : Slot) (d : Area n) : Prop where
  crcOk : (f x).CrcOk
  data : (f x).env.data = d
  flags : (f x).env.flags = 0xff
  otherOk : (f x.other).CrcOk
  other : (f x.other).env.flags = activeFlag ∨ (f x.other).env.flags = obsoleteFlag

def Settled (f : Flash n) (x : Slot) (d : Area n) : Prop := Strict f x d ∨ Swapping f x d

theorem Settled.crcOk (h : Settled f x d) : (f x).CrcOk := h.elim Strict.crcOk Swapping.crcOk

theorem Settled.data (h : Settled f x d) : (f x).env.data = d := h.elim Strict.data Swapping.data

/-- `envInit` selects the copy `x`. -/
def Selects (f : Flash n) (x : Slot) : Prop :=
  (envInit f).envAddr = some x ∧ (envInit f).envValid ≠ 0

theorem Settled.selects (h : Settled f x d) : Selects f x := by
  rcases h with ⟨hc, -, hf, ho⟩ | ⟨hc, -, hf, hoc, ho⟩
  · rcases ho with ho | ⟨ho, hoc⟩
    · by_cases hoc : (f x.other).CrcOk <;>
        cases x <;> simp_all [Selects, envInit, Slot.other, activeFlag, obsoleteFlag]
    · cases x <;> simp_all [Selects, envInit, Slot.other]
  · rcases ho with ho | ho <;>
      cases x <;> simp_all [Selects, envInit, Slot.other, activeFlag, obsoleteFlag]

/-! ## A boot -/

theorem Swapping.markObsolete (h : Swapping f x d) :
    Swapping (exec (x.other, .flags obsoleteFlag) f) x d ∧
      (exec (x.other, .flags obsoleteFlag) f x.other).env.flags = obsoleteFlag := by
  refine ⟨⟨?_, ?_, ?_, ?_, .inr ?_⟩, ?_⟩ <;> simp only [exec_of_other, exec_self]
  · exact h.crcOk
  · exact h.data
  · exact h.flags
  · exact h.otherOk
  · rfl
  · rfl

/-- A complete copy becomes the active one when the other is obsolete. -/
theorem Strict.of_markActive (hc : (f x).CrcOk) (hd : (f x).env.data = d)
    (ho : (f x.other).env.flags = obsoleteFlag) : Strict (exec (x, .flags activeFlag) f) x d := by
  refine ⟨?_, ?_, ?_, .inl ?_⟩ <;> simp only [exec_self, exec_other]
  · exact hc
  · exact hd
  · rfl
  · exact ho

theorem envRelocate_eq (dflt : List UInt8) (malloced : EnvT n) (h : Selects f x) :
    envRelocate dflt malloced (envInit f) = envRelocateSpec (envInit f) := if_neg h.2

theorem relocate_second (h : Strict f x d ∨ Swapping f x d ∧ (f x.other).env.flags = obsoleteFlag) :
    ((Prog.opIf ((f x).env.flags ≠ activeFlag ∧ (f x).env.flags &&& activeFlag = activeFlag)
      (x, .flags activeFlag)).bind fun _ => Prog.look fun f => .ret (x, (f x).env)).Safe exec
      (fun f => Settled f x d) (fun f r => Strict f x d ∧ r = (x, (f x).env)) f := by
  refine Prog.Safe.bind (Prog.Safe.opIf (h.imp id And.left) (fun hc => ?_) fun hc => ?_)
  · rcases h with h | ⟨h, ho⟩
    · exact absurd h.flags hc.1
    · have h' := Strict.of_markActive h.crcOk h.data ho
      exact ⟨.inl h', .inl h', h', rfl⟩
  · rcases h with h | ⟨h, -⟩
    · exact ⟨.inl h, h, rfl⟩
    · exact absurd (by rw [h.flags]; decide) hc

/-- A boot after a save ends with the copy selected in use, and whenever it is cut, the same
copy is selected again. -/
theorem envRelocate_safe (dflt : List UInt8) (malloced : EnvT n) (h : Settled f x d) :
    (envRelocate dflt malloced (envInit f)).Safe exec (fun f => Settled f x d)
      (fun f r => Strict f x d ∧ r = (x, (f x).env)) f := by
  have hx : (if some x = some Slot.addr then Slot.addr else .addrRedund) = x := by
    cases x <;> rfl
  rw [envRelocate_eq dflt malloced h.selects, envRelocateSpec, h.selects.1, hx]
  refine Prog.Safe.bind (Prog.Safe.opIf h (fun hc => ?_) fun hc => ?_)
  · rcases h with h | h
    · rcases h.other with ho | ⟨-, ho⟩
      · exact absurd ho hc.1
      · exact absurd hc.2 ho
    · have h' := h.markObsolete
      exact ⟨.inr h'.1, relocate_second (.inr h')⟩
  · rcases h with h | h
    · exact relocate_second (.inl h)
    · have ho : (f x.other).env.flags = obsoleteFlag :=
        Classical.not_not.mp fun ho => hc ⟨ho, h.otherOk⟩
      exact relocate_second (.inr ⟨h, ho⟩)

theorem selects_of_valid (h : (envInit f).envValid ≠ 0) : ∃ x, Selects f x ∧ (f x).CrcOk := by
  by_cases h1 : (f .addr).CrcOk <;> by_cases h2 : (f .addrRedund).CrcOk
  · obtain ⟨x, hx⟩ : ∃ x, (envInit f).envAddr = some x := by
      revert h
      simp only [envInit, h1, h2, not_true, and_false, and_true, if_false]
      repeat' split
      all_goals simp
    refine ⟨x, ⟨hx, h⟩, ?_⟩
    cases x
    · exact h1
    · exact h2
  · exact ⟨.addr, ⟨by simp [envInit, h1, h2], h⟩, h1⟩
  · exact ⟨.addrRedund, ⟨by simp [envInit, h1, h2], h⟩, h2⟩
  · exact absurd (by simp [envInit, h1, h2]) h

theorem envRelocate_crcOk (dflt : List UInt8) (malloced : EnvT n)
    (h : dflt.length ≤ n ∨ (envInit f).envValid ≠ 0) :
    (envRelocate dflt malloced (envInit f)).Safe exec (fun _ => True)
      (fun _ r => r.2.CrcOk) f := by
  by_cases hv : (envInit f).envValid = 0
  · rw [envRelocate, if_pos hv]
    exact ⟨trivial, relocateDefault_crcOk (h.resolve_right fun h => h hv) _ _⟩
  · obtain ⟨x, hx, hc⟩ := selects_of_valid hv
    have hx' : (if some x = some Slot.addr then Slot.addr else .addrRedund) = x := by
      cases x <;> rfl
    rw [envRelocate_eq dflt malloced hx, envRelocateSpec, hx.1, hx']
    have hend : ∀ f : Flash n, (f x).env.CrcOk →
        ((Prog.opIf ((f x).env.flags ≠ activeFlag ∧ (f x).env.flags &&& activeFlag = activeFlag)
          (x, .flags activeFlag)).bind fun _ => Prog.look fun f => .ret (x, (f x).env)).Safe exec
          (fun _ => True) (fun _ r => r.2.CrcOk) f := fun f hc =>
      Prog.Safe.bind (Prog.Safe.opIf trivial
        (fun _ => ⟨trivial, trivial, by rw [exec_self]; exact hc⟩) fun _ => ⟨trivial, hc⟩)
    exact Prog.Safe.bind (Prog.Safe.opIf trivial
      (fun _ => ⟨trivial, hend _ (by rw [exec_of_other]; exact hc.2.2)⟩) fun _ => hend _ hc.2.2)

/-! ## A save -/

section
variable {env : EnvT n}

theorem saveenv_protected {protect protectNew : Bool} (h : (!protect || !protectNew) = true) :
    saveenv x env protect protectNew = .ret (1, x) := if_pos h

theorem Strict.change_other {ch : Change n} (h : Strict f x d)
    (hf : (ch.on (f x.other)).env.flags = 0xff) (hc : ¬ (ch.on (f x.other)).CrcOk) :
    Strict (exec (x.other, ch) f) x d := by
  refine ⟨?_, ?_, ?_, .inr ⟨?_, ?_⟩⟩ <;> simp only [exec_of_other, exec_self]
  · exact h.crcOk
  · exact h.data
  · exact h.flags
  · exact hf
  · exact hc

/-- The flash after the erase of the other copy and the writes of its data and CRC. -/
def written (f : Flash n) (x : Slot) (env : EnvT n) : Flash n :=
  exec (x.other, .crc env.crc) (exec (x.other, .data env.data) (exec (x.other, .erase) f))

theorem written_other (f : Flash n) (x : Slot) (env : EnvT n) :
    written f x env x.other = ⟨{ env with flags := 0xff }, true, true⟩ := by
  simp only [written, exec_self]
  rfl

theorem written_self (f : Flash n) (x : Slot) (env : EnvT n) : written f x env x = f x := by
  simp only [written, exec_of_other]

theorem Strict.swapping (h : Strict f x d) (he : env.CrcOk) :
    Swapping (written f x env) x.other env.data := by
  refine ⟨?_, ?_, ?_, ?_, .inl ?_⟩ <;>
    simp only [Slot.other_other, written_other, written_self]
  · exact ⟨rfl, rfl, he⟩
  · exact h.crcOk
  · exact h.flags

theorem written_activated (f : Flash n) (x : Slot) (he : env.CrcOk) :
    Strict (exec (x.other, .flags activeFlag) (exec (x, .flags obsoleteFlag) (written f x env)))
      x.other env.data := by
  refine Strict.of_markActive ?_ ?_ ?_ <;>
    simp only [Slot.other_other, exec_other, exec_self, written_other]
  · exact ⟨rfl, rfl, he⟩
  · rfl

/-- A save on any flash: if it returns 0, the copy written is the active one. -/
theorem saveenv_writes (f : Flash n) (x : Slot) (he : env.CrcOk) (protect protectNew : Bool) :
    (saveenv x env protect protectNew).Safe exec (fun _ => True)
      (fun f r => r.1 = 0 → Strict f r.2 env.data) f := by
  cases h : (!protect || !protectNew) with
  | true =>
    rw [saveenv_protected h]
    exact ⟨trivial, fun h0 => absurd h0 Nat.one_ne_zero⟩
  | false =>
    rw [saveenv, h]
    exact ⟨trivial, trivial, trivial, trivial, trivial, trivial, fun _ => written_activated f x he⟩

/-- A save after a save: whenever it is cut, either copy is selected whole, the old one or
the one being written. -/
theorem saveenv_safe (h : Strict f x d) (he : env.CrcOk) (protect protectNew : Bool) :
    (saveenv x env protect protectNew).Safe exec
      (fun f => Settled f x d ∨ Settled f x.other env.data)
      (fun f r => r.1 ≠ 0 → Strict f r.2 d) f := by
  cases hp : (!protect || !protectNew) with
  | true =>
    rw [saveenv_protected hp]
    exact ⟨.inl (.inl h), fun _ => h⟩
  | false =>
    have h₁ : Strict (exec (x.other, .erase) f) x d :=
      h.change_other rfl fun hc => Bool.false_ne_true hc.1
    have h₂ : Strict (exec (x.other, .data env.data) (exec (x.other, .erase) f)) x d := by
      refine h₁.change_other ?_ fun hc => absurd hc.2.1 ?_ <;> rw [exec_self]
      · rfl
      · exact Bool.false_ne_true
    have h₃ := h.swapping he
    have h₄ := h₃.markObsolete.1
    rw [Slot.other_other] at h₄
    have h₅ := written_activated f x he
    rw [saveenv, hp]
    exact ⟨.inl (.inl h), .inl (.inl h₁), .inl (.inl h₂), .inr (.inr h₃), .inr (.inr h₄),
      .inr (.inl h₅), fun h0 => absurd rfl h0⟩

end

end

/-! ## Every run -/

variable {b : Build} {dflt : List UInt8} {s s' : Sys n} {e : Ev n}

/-- The steps that keep the RAM copy's CRC right: no call overflows after a deletion, and no
boot needs a default environment that is too large. -/
def Allowed (b : Build) (dflt : List UInt8) (s : Sys n) : Ev n → Prop
  | .setenv c => ∀ x m, s.mode = .ready x m → Keeps b m c
  | .powerOn _ => dflt.length ≤ n ∨ (envInit s.flash).envValid ≠ 0
  | _ => True

/-- A call of `saveenv`. -/
def Ev.IsSave : Ev n → Prop
  | .saveenv _ _ => True
  | _ => False

/-- Outside of a save the copy `x` with data `d` stays the one selected. -/
def Mode.Stays (f : Flash n) (x : Slot) (d : Area n) : Mode n → Prop
  | off => Settled f x d
  | booting p =>
    p.Safe exec (fun f => Settled f x d) (fun f r => Strict f x d ∧ r = (x, (f x).env)) f
  | ready y _ => y = x ∧ Strict f x d
  | saving _ _ => False

theorem stays_step {x : Slot} {d : Area n} (hs : Step b dflt s e s') (he : ¬ e.IsSave)
    (h : s.mode.Stays s.flash x d) : s'.mode.Stays s'.flash x d := by
  obtain ⟨flash, mode, lastOk, cutSaves, newest⟩ := s
  cases e with
  | powerOn malloced =>
    cases mode with
    | off => cases hs; exact envRelocate_safe dflt malloced h
    | _ => cases hs
  | go =>
    cases mode with
    | booting p =>
      obtain ⟨⟨f', p'⟩, hn, rfl⟩ := Option.map_eq_some_iff.mp hs
      exact Prog.Safe.step h hn
    | saving m p => exact h.elim
    | _ => cases hs
  | booted g =>
    cases mode with
    | booting p =>
      cases p with
      | ret r =>
        cases hs
        obtain ⟨-, h, hr⟩ := h
        exact ⟨congrArg Prod.fst hr, h⟩
      | _ => cases hs
    | _ => cases hs
  | setenv c =>
    cases mode with
    | ready y m =>
      simp only [Step, step] at hs
      split at hs
      · cases hs; exact h
      · cases hs
    | _ => cases hs
  | saveenv => exact absurd trivial he
  | saved =>
    cases mode with
    | saving m p => exact h.elim
    | _ => cases hs
  | cut =>
    cases mode with
    | off => cases hs
    | booting p =>
      cases hs
      simp only [Mode.Stays] at h
      exact h.crash
    | ready y m => cases hs; exact .inl h.2
    | saving m p => exact h.elim

/-- The CRC of the RAM copy is right, and a save will write a complete copy. -/
def Mode.Sound (f : Flash n) : Mode n → Prop
  | off => True
  | booting p => p.Safe exec (fun _ => True) (fun _ r => r.2.CrcOk) f
  | ready _ m => m.env.CrcOk
  | saving m p => m.env.CrcOk ∧
      p.Safe exec (fun _ => True) (fun f r => r.1 = 0 → Strict f r.2 m.env.data) f

theorem sound_step (hs : Only (Allowed b dflt) (Step b dflt) s e s') (h : s.mode.Sound s.flash) :
    s'.mode.Sound s'.flash := by
  obtain ⟨ha, hs⟩ := hs
  obtain ⟨flash, mode, lastOk, cutSaves, newest⟩ := s
  cases e with
  | powerOn malloced =>
    cases mode with
    | off => cases hs; exact envRelocate_crcOk dflt malloced ha
    | _ => cases hs
  | go =>
    cases mode with
    | booting p =>
      obtain ⟨⟨f', p'⟩, hn, rfl⟩ := Option.map_eq_some_iff.mp hs
      exact Prog.Safe.step h hn
    | saving m p =>
      obtain ⟨⟨f', p'⟩, hn, rfl⟩ := Option.map_eq_some_iff.mp hs
      exact ⟨h.1, Prog.Safe.step h.2 hn⟩
    | _ => cases hs
  | booted g =>
    cases mode with
    | booting p =>
      cases p with
      | ret r => cases hs; exact h.2
      | _ => cases hs
    | _ => cases hs
  | setenv c =>
    cases mode with
    | ready x m =>
      simp only [Step, step] at hs
      split at hs
      · next r hr => cases hs; exact doSetenv_crcOk hr h (ha x m rfl)
      · cases hs
    | _ => cases hs
  | saveenv protect protectNew =>
    cases mode with
    | ready x m => cases hs; exact ⟨h, saveenv_writes flash x h protect protectNew⟩
    | _ => cases hs
  | saved =>
    cases mode with
    | saving m p =>
      cases p with
      | ret r =>
        simp only [Step, step] at hs
        split at hs <;> cases hs <;> exact h.1
      | _ => cases hs
    | _ => cases hs
  | cut =>
    cases mode with
    | off => cases hs
    | _ => cases hs; trivial

/-- After a save that returned 0: which copies the next `env_init` may select. -/
def Tracks (s : Sys n) : Prop :=
  match s.mode with
  | .off => ∃ x d, d ∈ s.newest ∧ Settled s.flash x d
  | .saving m p => ∃ x d, s.newest = [d] ∧
      p.Safe exec (fun f => Settled f x d ∨ Settled f x.other m.env.data)
        (fun f r => r.1 ≠ 0 → Strict f r.2 d) s.flash
  | mode => ∃ x d, s.newest = [d] ∧ mode.Stays s.flash x d

theorem Tracks.of_stays {x : Slot} {d : Area n} (hn : s.newest = [d])
    (h : s.mode.Stays s.flash x d) :
    Tracks s := by
  obtain ⟨flash, mode, lastOk, cutSaves, newest⟩ := s
  cases mode with
  | off => exact ⟨x, d, hn ▸ List.mem_singleton_self d, h⟩
  | saving => exact h.elim
  | _ => exact ⟨x, d, hn, h⟩

/-- What a save that returned 0 left is known from then on. -/
structure Kept (s : Sys n) : Prop where
  sound : s.mode.Sound s.flash
  tracks : ∀ d, s.lastOk = some d → Tracks s ∧ ∀ a ∈ s.newest, a = d ∨ a ∈ s.cutSaves

theorem records_step (hs : Step b dflt s e s') (h₁ : s.mode ≠ .off)
    (h₂ : ∀ m p, s.mode ≠ .saving m p) :
    s'.lastOk = s.lastOk ∧ s'.cutSaves = s.cutSaves ∧ s'.newest = s.newest := by
  obtain ⟨flash, mode, lastOk, cutSaves, newest⟩ := s
  cases mode with
  | off => exact absurd rfl h₁
  | saving m p => exact absurd rfl (h₂ m p)
  | booting p =>
    cases e with
    | go =>
      obtain ⟨r, -, rfl⟩ := Option.map_eq_some_iff.mp hs
      exact ⟨rfl, rfl, rfl⟩
    | booted g => cases p <;> cases hs; exact ⟨rfl, rfl, rfl⟩
    | cut => cases hs; exact ⟨rfl, rfl, rfl⟩
    | _ => cases hs
  | ready y m =>
    cases e with
    | setenv c =>
      simp only [Step, step] at hs
      split at hs <;> cases hs
      exact ⟨rfl, rfl, rfl⟩
    | saveenv => cases hs; exact ⟨rfl, rfl, rfl⟩
    | cut => cases hs; exact ⟨rfl, rfl, rfl⟩
    | _ => cases hs

theorem kept_step (hs : Only (Allowed b dflt) (Step b dflt) s e s') (h : Kept s) : Kept s' := by
  refine ⟨sound_step hs h.sound, ?_⟩
  obtain ⟨hsound, htracks⟩ := h
  obtain ⟨-, hs⟩ := hs
  obtain ⟨flash, mode, lastOk, cutSaves, newest⟩ := s
  cases mode with
  | off =>
    cases e with
    | powerOn malloced =>
      cases hs
      intro d₀ h₀
      obtain ⟨⟨x, d, hd, h⟩, hnew⟩ := htracks d₀ h₀
      have hsel : (envInit flash).envAddr.toList.map (fun x => (flash x).env.data) = [d] := by
        rw [h.selects.1, ← h.data]; rfl
      refine ⟨.of_stays hsel (envRelocate_safe dflt malloced h), ?_⟩
      intro a ha
      rw [hsel] at ha
      exact hnew a (List.mem_singleton.mp ha ▸ hd)
    | _ => cases hs
  | saving m p =>
    cases e with
    | go =>
      obtain ⟨⟨f', p'⟩, hn, rfl⟩ := Option.map_eq_some_iff.mp hs
      intro d₀ h₀
      obtain ⟨⟨x, d, hd, h⟩, hnew⟩ := htracks d₀ h₀
      exact ⟨⟨x, d, hd, Prog.Safe.step h hn⟩, hnew⟩
    | saved =>
      cases p with
      | ret r =>
        obtain ⟨rc, y⟩ := r
        simp only [Step, step] at hs
        split at hs
        · next h0 =>
          cases hs
          rintro d₀ ⟨⟩
          exact ⟨⟨y, m.env.data, rfl, rfl, hsound.2.2 h0⟩,
            fun a ha => .inl (List.mem_singleton.mp ha)⟩
        · next h0 =>
          cases hs
          intro d₀ h₀
          obtain ⟨⟨x, d, hd, h⟩, hnew⟩ := htracks d₀ h₀
          exact ⟨⟨y, d, hd, rfl, h.2 h0⟩, hnew⟩
      | _ => cases hs
    | cut =>
      cases hs
      intro d₀ h₀
      obtain ⟨⟨x, d, hd, h⟩, hnew⟩ := htracks d₀ h₀
      constructor
      · rcases Prog.Safe.crash h with h | h
        · exact ⟨x, d, List.mem_cons_of_mem _ (hd ▸ List.mem_singleton_self d), h⟩
        · exact ⟨x.other, m.env.data, List.mem_cons_self, h⟩
      · intro a ha
        rcases List.mem_cons.mp ha with rfl | ha
        · exact .inr List.mem_cons_self
        · exact (hnew a ha).imp_right (List.mem_cons_of_mem _)
    | _ => cases hs
  | booting p =>
    obtain ⟨hl, hc, hn⟩ := records_step hs (by simp) (by simp)
    have he : ¬ e.IsSave := by cases e <;> first | exact id | cases hs
    intro d₀ h₀
    obtain ⟨⟨x, d, hd, h⟩, hnew⟩ := htracks d₀ (hl ▸ h₀)
    exact ⟨.of_stays (hn.trans hd) (stays_step hs he h), by rw [hn, hc]; exact hnew⟩
  | ready y m =>
    obtain ⟨hl, hc, hn⟩ := records_step hs (by simp) (by simp)
    intro d₀ h₀
    obtain ⟨⟨x, d, hd, hy, h⟩, hnew⟩ := htracks d₀ (hl ▸ h₀)
    refine ⟨?_, by rw [hn, hc]; exact hnew⟩
    by_cases he : e.IsSave
    · cases e with
      | saveenv protect protectNew =>
        cases hs
        subst hy
        exact ⟨y, d, hd, saveenv_safe h hsound protect protectNew⟩
      | _ => exact he.elim
    · exact .of_stays (hn.trans hd) (stays_step hs he ⟨hy, h⟩)

theorem kept_run {flash : Flash n} {es : List (Ev n)}
    (h : Run (Only (Allowed b dflt) (Step b dflt)) (.start flash) es s) : Kept s := by
  have h₀ : Kept (Sys.start flash) := ⟨trivial, nofun⟩
  exact h.invariant (fun _ _ _ hi hs => kept_step hs hi) h₀

/-- **A saved environment survives power cuts.** From any contents of the flash, along every
run of allowed steps: with power off after a `saveenv` that returned 0, the next `env_init`
selects a copy with a right CRC, which holds the environment of that `saveenv` or of one
interrupted since, and none older than what a boot in between selected. Until the next
`saveenv`, every boot, cut or not, selects that copy and finds the same environment. -/
theorem redundant_env_safe {flash : Flash n} {es : List (Ev n)} {d : Area n}
    (h : Run (Only (Allowed b dflt) (Step b dflt)) (.start flash) es s) (hoff : s.mode = .off)
    (hd : s.lastOk = some d) :
    ∃ x, Selects s.flash x ∧ (s.flash x).CrcOk ∧ (s.flash x).env.data ∈ s.newest ∧
      ((s.flash x).env.data = d ∨ (s.flash x).env.data ∈ s.cutSaves) ∧
      ∀ (es' : List (Ev n)) (s' : Sys n), Run (Step b dflt) s es' s' →
        (∀ e ∈ es', ¬ e.IsSave) → s'.mode = .off →
        Selects s'.flash x ∧ (s'.flash x).env.data = (s.flash x).env.data := by
  obtain ⟨ht, hnew⟩ := (kept_run h).tracks d hd
  simp only [Tracks, hoff] at ht
  obtain ⟨x, a, ha, hs⟩ := ht
  refine ⟨x, hs.selects, hs.crcOk, hs.data ▸ ha, hs.data ▸ hnew a ha, ?_⟩
  intro es' s' hrun hno hoff'
  have hst : s'.mode.Stays s'.flash x a := by
    refine hrun.invariant_of (I := fun s => s.mode.Stays s.flash x a) ?_ hno ?_
    · exact fun _ _ _ he hi hstep => stays_step hstep he hi
    · rw [hoff]; exact hs
  rw [hoff'] at hst
  exact ⟨hst.selects, hst.data.trans hs.data.symm⟩

/-- Two copies, the first with `a=1` and active. -/
def Flash.sample : Flash 6
  | .addr => ⟨{ Sector.sample.env with flags := 1 }, true, true⟩
  | .addrRedund => ⟨⟨0, 0, ⟨[0, 0, 0, 0, 0, 0], rfl⟩⟩, false, false⟩

def bootEvents : List (Ev 6) :=
  [.powerOn ⟨0, 0, ⟨[9, 9, 9, 9, 9, 9], rfl⟩⟩, .go, .go, .go, .booted .plain]

/-- `setenv a 4444` -/
def tooLong : Call := ⟨.plain, ⟨[97], by decide⟩, .words ⟨[52, 52, 52, 52], by decide⟩ []⟩

/-- A `saveenv` to its end. -/
def saveEvents : List (Ev 6) := [.saveenv true true, .go, .go, .go, .go, .go, .saved]

/-- A boot and a save, and a second save cut after its CRC. -/
def cutEvents : List (Ev 6) :=
  bootEvents ++ saveEvents ++ [.saveenv true true, .go, .go, .go, .cut]

/-- A boot and a save, and a save of an edit that overflows. -/
def staleEvents : List (Ev 6) := bootEvents ++ saveEvents ++ .setenv tooLong :: saveEvents ++ [.cut]

theorem cutEvents_allowed (e : Ev 6) (he : e ∈ cutEvents) (s : Sys 6) : Allowed .plain [0] s e := by
  have hall : ∀ e ∈ cutEvents, ∀ s : Sys 6, Allowed .plain [0] s e := by
    simp [cutEvents, bootEvents, saveEvents, Allowed]
  exact hall e he s

/-- A boot and a save, and a second save cut after its CRC: the next `env_init` selects the
copy it was writing. -/
theorem redundant_env_safe_sample : ∃ s : Sys 6, ∃ d,
    s.lastOk = some d ∧ ∃ x, Selects s.flash x ∧ (s.flash x).CrcOk ∧
      (s.flash x).env.data ∈ s.newest ∧
      ((s.flash x).env.data = d ∨ (s.flash x).env.data ∈ s.cutSaves) ∧
      ∀ (es' : List (Ev 6)) (s' : Sys 6), Run (Step .plain [0]) s es' s' →
        (∀ e ∈ es', ¬ e.IsSave) → s'.mode = .off →
        Selects s'.flash x ∧ (s'.flash x).env.data = (s.flash x).env.data := by
  obtain ⟨s, hrun, hc⟩ : ∃ s, Run (Step .plain [0]) (.start .sample) cutEvents s ∧
      decide (s.mode.isOff ∧ s.lastOk = some ⟨[97, 61, 49, 0, 0, 0], rfl⟩) = true :=
    Run.of_check (by decide +kernel)
  obtain ⟨hoff, hd⟩ := of_decide_eq_true hc
  exact ⟨s, _, hd, redundant_env_safe (hrun.only cutEvents_allowed) (Mode.eq_off hoff) hd⟩

/-- After an edit that overflows, `saveenv` returns 0 but writes a copy with a stale CRC: the
next `env_init` goes back to the copy before. -/
theorem redundant_env_stale_copy : ∃ es s, ∃ d : Area 6,
    Run (Step .plain [0]) (.start .sample) es s ∧ s.mode = .off ∧ s.lastOk = some d ∧
      s.cutSaves = [] ∧ Selects s.flash .addrRedund ∧
      (s.flash .addrRedund).env.data ≠ d := by
  obtain ⟨s, hrun, hc⟩ : ∃ s, Run (Step .plain [0]) (.start .sample) staleEvents s ∧
      decide (s.mode.isOff ∧ s.lastOk = some ⟨[0, 0, 49, 0, 0, 0], rfl⟩ ∧
        s.cutSaves = [] ∧ (envInit s.flash).envAddr = some .addrRedund ∧
        (envInit s.flash).envValid ≠ 0 ∧
        (s.flash .addrRedund).env.data ≠ ⟨[0, 0, 49, 0, 0, 0], rfl⟩) = true :=
    Run.of_check (by decide +kernel)
  obtain ⟨h₁, h₂, h₃, h₄, h₅, h₆⟩ := of_decide_eq_true hc
  exact ⟨_, s, _, hrun, Mode.eq_off h₁, h₂, h₃, ⟨h₄, h₅⟩, h₆⟩

end UBoot.Env.Redund
