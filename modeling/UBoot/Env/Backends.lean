import Mathlib.Data.UInt
import UBoot.Env.Chars
import UBoot.Env.Redund

/-!
# The environment before and after relocation

Before `env_relocate` the environment is read where it is stored, one character at a time
(`env_get_char_spec`); afterwards from a copy in RAM (`env_relocate_spec`). A `Storage` is what
one of `env_flash.c`, `env_eeprom.c` and `env_nvram.c` makes of this, `envGetCharInit` and
`envGetCharMemory` are the two readers of `env_common.c`.

`getenvR_relocate` says where `getenv_r` finds the same in both. `CFG_NVRAM_ACCESS_ROUTINE` is the
exception: its `env_get_char_spec` leaves out the CRC in front of the data.
-/

namespace UBoot.Env

open UBoot.Lib UBoot.Common

variable {n : Nat}

/-! ## Storage -/

/-- The functions of one storage backend. `envInit` gives `gd->env_addr` of a valid environment. -/
structure Storage (n : Nat) where
  Dev : Type
  Addr : Type
  envInit : Dev → Option Addr
  envGetCharSpec : Dev → Addr → Chars
  envRelocateSpec : Dev → Addr → EnvT n

/-- A stored `env_t`, and what follows it on its device. -/
structure Stored (n : Nat) where
  env : EnvT n
  behind : Chars

/-- An environment that is in the address space. -/
def mapped (n : Nat) : Storage n where
  Dev := Stored n
  Addr := Unit
  envInit d := if d.env.CrcOk then some () else none
  envGetCharSpec d _ := inMemory d.env.data.bytes d.behind
  envRelocateSpec d _ := d.env

/-- `env_flash.c` with one copy. -/
def envFlash (n : Nat) : Storage n := mapped n

/-- `env_nvram.c` without an access routine. -/
def envNvram (n : Nat) : Storage n := mapped n

/-- `env_flash.c` with two copies. -/
def envFlashRedund (n : Nat) : Storage n where
  Dev := Redund.Flash n × (Redund.Slot → Chars)
  Addr := Redund.Slot
  envInit d :=
    if (Redund.envInit d.1).envValid = 0 then none else (Redund.envInit d.1).envAddr
  envGetCharSpec d x := inMemory (d.1 x).env.data.bytes (d.2 x)
  envRelocateSpec d _ :=
    ((Redund.envRelocateSpec (Redund.envInit d.1)).run Redund.exec d.1).2.2

/-- The CRC loop of `env_eeprom.c`, in blocks of 64 bytes. -/
def eepromCrc (new : UInt32) (data : List UInt8) : UInt32 :=
  if data = [] then new else eepromCrc (crc32 new (data.take 64)) (data.drop 64)
termination_by data.length
decreasing_by
  rename_i hne
  have := List.length_pos_of_ne_nil hne
  rw [List.length_drop]
  omega

theorem eepromCrc_eq (new : UInt32) (data : List UInt8) :
    eepromCrc new data = crc32 new data := by
  induction new, data using eepromCrc.induct with
  | case1 new =>
    rw [eepromCrc, if_pos rfl]
    simp only [crc32, List.foldl_nil, UInt32.xor_assoc, UInt32.xor_self, UInt32.xor_zero]
  | case2 new data hne ih => rw [eepromCrc, if_neg hne, ih, ← crc32_append, List.take_append_drop]

/-- `env_eeprom.c` -/
def envEeprom (n : Nat) : Storage n where
  Dev := Stored n
  Addr := Unit
  envInit d := if eepromCrc 0 d.env.data.bytes = d.env.crc then some () else none
  envGetCharSpec d _ := inMemory d.env.data.bytes d.behind
  envRelocateSpec d _ := d.env

/-- A `long` as it is stored. -/
def longBytes (bigEndian : Bool) (x : UInt32) : List UInt8 :=
  let bytes := [(x >>> 24).toUInt8, (x >>> 16).toUInt8, (x >>> 8).toUInt8, x.toUInt8]
  if bigEndian then bytes else bytes.reverse

/-- `env_nvram.c` with `CFG_NVRAM_ACCESS_ROUTINE`: a character is read at its index from
`CFG_ENV_ADDR`, where the CRC is. -/
def envNvramAccess (bigEndian : Bool) (n : Nat) : Storage n where
  Dev := Stored n
  Addr := Unit
  envInit d := if d.env.CrcOk then some () else none
  envGetCharSpec d _ := inMemory (longBytes bigEndian d.env.crc ++ d.env.data.bytes) d.behind
  envRelocateSpec d _ := d.env

/-! ## `env_common.c` -/

/-- `default_environment`, with the empty string at its end, and what follows it in memory. -/
structure Default where
  bytes : List UInt8
  behind : Chars
  ends : Ends bytes

def envGetCharInit (st : Storage n) (dflt : Default) (d : st.Dev) : Chars :=
  match st.envInit d with
  | some addr => st.envGetCharSpec d addr
  | none => inMemory dflt.bytes dflt.behind

/-- `env_get_char_memory` behind `env_relocate`; `ram` follows the copy in memory. A default
environment that is too large stays in use where it is. -/
def envGetCharMemory (st : Storage n) (dflt : Default) (d : st.Dev) (flags : UInt8) (ram : Chars) :
    Chars :=
  match st.envInit d with
  | some addr => inMemory (st.envRelocateSpec d addr).data.bytes ram
  | none =>
    if h : dflt.bytes.length ≤ n then inMemory (defaultEnv dflt.bytes h flags).data.bytes ram
    else inMemory dflt.bytes dflt.behind

/-- `getenv_r` finds the same before and after `env_relocate`. -/
def SameLookup (envSize : Nat) (st : Storage n) (dflt : Default) (d : st.Dev) (flags : UInt8)
    (ram : Chars) (name : CStr) (len : Nat) : Prop :=
  getenvRWith envSize (envGetCharInit st dflt d) name len =
    getenvRWith envSize (envGetCharMemory st dflt d flags ram) name len

/-- The data that is read in place is the data that is copied. -/
def Storage.InPlace (st : Storage n) (d : st.Dev) : Prop :=
  ∀ addr, st.envInit d = some addr → ∃ behind,
    st.envGetCharSpec d addr = inMemory (st.envRelocateSpec d addr).data.bytes behind

def Storage.EndsIn (st : Storage n) (d : st.Dev) : Prop :=
  ∀ addr, st.envInit d = some addr → Ends (st.envRelocateSpec d addr).data.bytes

theorem sameLookup_of_inPlace {envSize : Nat} (hn : n ≤ envSize) (st : Storage n) (dflt : Default)
    (d : st.Dev) (flags : UInt8) (ram : Chars) (name : CStr) (len : Nat) (hplace : st.InPlace d)
    (hends : st.EndsIn d) : SameLookup envSize st dflt d flags ram name len := by
  rw [SameLookup, envGetCharInit, envGetCharMemory]
  cases hinit : st.envInit d with
  | some addr =>
    obtain ⟨behind, hchars⟩ := hplace addr hinit
    have hsize := (st.envRelocateSpec d addr).data.size
    dsimp only
    rw [hchars]
    exact getenvRWith_inMemory (hends addr hinit) (List.append_nil _).symm (List.append_nil _).symm
      (by omega) (by omega) behind ram name len
  | none =>
    dsimp only
    split_ifs with hfit
    · have hpad : (defaultEnv dflt.bytes hfit flags).data.bytes =
          dflt.bytes ++ List.replicate (n - dflt.bytes.length) 0 := rfl
      exact getenvRWith_inMemory dflt.ends (List.append_nil _).symm hpad (by omega)
        ((Area.size _).trans_le hn) dflt.behind ram name len
    · rfl

/-! ## The backends -/

theorem inPlace_mapped (d : Stored n) : (mapped n).InPlace d := fun _ _ => ⟨d.behind, rfl⟩

theorem inPlace_eeprom (d : Stored n) : (envEeprom n).InPlace d := fun _ _ => ⟨d.behind, rfl⟩

/-- `env_relocate_spec` repairs flags only. -/
theorem envRelocateSpec_data {f : Redund.Flash n} {x : Redund.Slot} (gd : Redund.Gd)
    (hx : gd.envAddr = some x) :
    ((Redund.envRelocateSpec gd).run Redund.exec f).2.2.data = (f x).env.data := by
  have haddr : (if some x = some Redund.Slot.addr then Redund.Slot.addr else .addrRedund) = x := by
    cases x <;> rfl
  have hsafe : (Redund.envRelocateSpec gd).Safe Redund.exec (fun _ => True)
      (fun _ r => r.2.data = (f x).env.data) f := by
    rw [Redund.envRelocateSpec, hx, haddr]
    refine Prog.Safe.bind (Prog.Safe.opIf trivial (fun _ => ⟨trivial, ?_⟩) fun _ => ?_)
    all_goals
      refine Prog.Safe.bind (Prog.Safe.opIf trivial (fun _ => ⟨trivial, trivial, ?_⟩)
        fun _ => ⟨trivial, ?_⟩)
      all_goals simp only [Redund.exec_self, Redund.exec_of_other, Redund.Change.on]
  exact hsafe.run

theorem inPlace_flashRedund (d : (envFlashRedund n).Dev) : (envFlashRedund n).InPlace d := by
  intro x hinit
  have hx : (Redund.envInit d.1).envAddr = some x := by
    simp only [envFlashRedund] at hinit
    split_ifs at hinit
    exact hinit
  refine ⟨d.2 x, ?_⟩
  simp only [envFlashRedund, envRelocateSpec_data _ hx]

inductive Backend where
  | flash
  | flashRedund
  | eeprom
  | nvram
  | nvramAccess (bigEndian : Bool)
  deriving DecidableEq

def Backend.storage (n : Nat) : Backend → Storage n
  | flash => envFlash n
  | flashRedund => envFlashRedund n
  | eeprom => envEeprom n
  | nvram => envNvram n
  | nvramAccess bigEndian => envNvramAccess bigEndian n

/-- Whether the backend reads through the access routine. -/
def Backend.IsAccess : Backend → Prop
  | nvramAccess _ => True
  | _ => False

/-- **`getenv_r` finds the same before and after `env_relocate`**, on every backend except the
access routine, which does so only when the default environment is in use. -/
theorem getenvR_relocate (cfg : EnvCfg) (k : Backend) (dflt : Default)
    (d : (k.storage cfg.dataSize).Dev) (flags : UInt8) (ram : Chars) (name : CStr) (len : Nat)
    (hplace : k.IsAccess → (k.storage cfg.dataSize).envInit d = none)
    (hends : (k.storage cfg.dataSize).EndsIn d) :
    SameLookup cfg.envSize (k.storage cfg.dataSize) dflt d flags ram name len := by
  refine sameLookup_of_inPlace (Nat.sub_le ..) _ dflt d flags ram name len ?_ hends
  cases k with
  | flash => exact inPlace_mapped d
  | flashRedund => exact inPlace_flashRedund d
  | eeprom => exact inPlace_eeprom d
  | nvram => exact inPlace_mapped d
  | nvramAccess bigEndian =>
    intro addr hinit
    rw [hplace trivial] at hinit
    cases hinit

/-! ## A stored variable -/

/-- `CFG_ENV_SIZE` for six bytes of data. -/
def tenBytes : EnvCfg := ⟨10, false, by decide⟩

theorem Stored.sample_size : ([97, 61, 49, 0, 0, 0] : List UInt8).length = 6 := rfl

/-- An environment in which `a` is `1`. -/
def Stored.sample : Stored 6 :=
  ⟨⟨1665965743, 0, ⟨[97, 61, 49, 0, 0, 0], Stored.sample_size⟩⟩, fun _ => 0⟩

def Default.empty : Default := ⟨[0], fun _ => 0, .nul []⟩

set_option maxRecDepth 4000 in
theorem Stored.sample_crcOk : sample.env.CrcOk := by decide

theorem Stored.sample_ends : Ends sample.env.data.bytes :=
  .string (w := [97, 61, 49]) (by decide) (by decide) (.nul [0])

theorem getenvR_relocate_eeprom :
    (Backend.eeprom.storage 6).envInit Stored.sample = some () ∧
      SameLookup 10 (Backend.eeprom.storage 6) .empty Stored.sample 0 (fun _ => 0)
        ⟨[97], by decide⟩ 8 := by
  constructor
  · exact if_pos ((eepromCrc_eq ..).trans Stored.sample_crcOk)
  · exact getenvR_relocate tenBytes .eeprom .empty Stored.sample 0 (fun _ => 0) ⟨[97], by decide⟩ 8
      (fun h => h.elim) (fun _ _ => Stored.sample_ends)

/-- The access routine does not find it before relocation. -/
theorem nvramAccess_misses :
    (Backend.storage 6 (.nvramAccess true)).envInit Stored.sample = some () ∧
      ¬ SameLookup 10 (Backend.storage 6 (.nvramAccess true)) .empty Stored.sample 0 (fun _ => 0)
        ⟨[97], by decide⟩ 8 := by
  constructor
  · simp only [Backend.storage, envNvramAccess, if_pos Stored.sample_crcOk]
  · have hbefore : getenvRWith 10
        (envGetCharInit (Backend.storage 6 (.nvramAccess true)) .empty Stored.sample)
        ⟨[97], by decide⟩ 8 = .ok none := by decide +kernel
    have hafter : getenvRWith 10
        (envGetCharMemory (Backend.storage 6 (.nvramAccess true)) .empty Stored.sample 0 fun _ => 0)
        ⟨[97], by decide⟩ 8 = .ok (some (2, [49, 0])) := by decide +kernel
    unfold SameLookup
    rw [hbefore, hafter]
    decide

end UBoot.Env
