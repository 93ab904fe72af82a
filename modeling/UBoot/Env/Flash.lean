import UBoot.Env.Map

/-!
# The environment in a flash sector (`common/env_flash.c`, `common/env_common.c`)

Without `CFG_ENV_ADDR_REDUND` there is one copy, in a sector it may share with other data:
`envInit` tests its CRC, `envRelocate` fills the RAM copy from it or from
`default_environment`, `saveenv` writes the sector back.

`crc_invariant` follows the CRC of the RAM copy over every sequence of `_do_setenv` calls.
One exit of `_do_setenv` leaves it stale: the overflow of a definition whose old value has
been deleted (`OverflowsAfterDelete`).
-/

namespace UBoot.Env

open UBoot.Lib UBoot.Common

variable {n : Nat}

/-! ## Boot and save -/

/-- `default_environment` over zeros; the redundant environment sets `flags` to 0xFF. -/
def defaultEnv (dflt : List UInt8) (h : dflt.length ≤ n) (flags : UInt8) : EnvT n :=
  envCrcUpdate ⟨0, flags, ⟨dflt ++ List.replicate (n - dflt.length) 0, by
    rw [List.length_append, List.length_replicate]; omega⟩⟩

/-- The branch `gd->env_valid == 0` of `env_relocate`: a default environment that is too
large leaves the memory as `malloc` returned it. -/
def relocateDefault (dflt : List UInt8) (flags : UInt8) (malloced : EnvT n) : EnvT n :=
  if h : dflt.length ≤ n then defaultEnv dflt h flags else malloced

/-- `CFG_ENV_SECT_SIZE` bytes of flash: the environment at `flash_addr`, and the rest of
the sector. -/
structure Sector (n : Nat) where
  before : List UInt8
  env : EnvT n
  after : List UInt8

/-- `env_init`: the value of `gd->env_valid`. -/
def envInit (flash : Sector n) : Nat := if flash.env.CrcOk then 1 else 0

/-- `env_relocate`: the RAM copy. -/
def envRelocate (dflt : List UInt8) (malloced : EnvT n) (flash : Sector n) : EnvT n :=
  if envInit flash = 0 then relocateDefault dflt 0 malloced else flash.env

/-- How the flash driver fares in a `saveenv`, and what a failed erase or write leaves. -/
inductive Driver (n : Nat) where
  | protectFails
  | eraseFails (left : Sector n)
  | writeFails (left : Sector n)
  | succeeds

/-- `saveenv`: the result and the sector. The buffer is the old sector with the RAM copy
over the environment. -/
def saveenv (driver : Driver n) (flash : Sector n) (env : EnvT n) : Nat × Sector n :=
  match driver with
  | .protectFails => (1, flash)
  | .eraseFails left => (1, left)
  | .writeFails left => (1, left)
  | .succeeds => (0, { flash with env := env })

/-! ## The exit that leaves the CRC -/

/-- The definition does not fit behind the list. -/
def Overflows (env : Area n) (name : CStr) (args : Args) : Prop :=
  ∃ v vs i, args = .words v vs ∧ findEnd env = .ok i ∧ n - i < newLen name (v :: vs)

/-- There is a definition of `name` that may be replaced, and without it there is still
too little room for the new one. -/
def OverflowsAfterDelete (b : Build) (o : Outside) (env : Area n) (g : Globals) (name : CStr)
    (args : Args) : Prop :=
  ∃ i nxt oldval g' msgs data, search env name = .ok (some (i, nxt, oldval)) ∧
    checkOldval b o env g name args oldval = (true, g', msgs) ∧
    deleteAt env i nxt = .ok data ∧ Overflows data name args

theorem envCrcUpdate_crcOk (e : EnvT n) : (envCrcUpdate e).CrcOk := rfl

theorem setNew_cases {b : Build} {e : EnvT n} {g : Globals} {name : CStr} {args : Args}
    {msgs : List Msg} {r : Result n} (h : setNew b e g name args msgs = .ok r) :
    r.env.CrcOk ∨ (r.env = e ∧ Overflows e.data name args) := by
  cases args with
  | missing => cases h; exact .inl (envCrcUpdate_crcOk _)
  | null => cases h; exact .inl (envCrcUpdate_crcOk _)
  | words v vs =>
    obtain ⟨i, hi, h⟩ := ok_of_bind h
    split at h
    · next hov =>
      cases h
      exact .inr ⟨rfl, v, vs, i, rfl, hi, hov⟩
    · obtain ⟨data, -, h⟩ := ok_of_bind h
      cases h
      exact .inl (envCrcUpdate_crcOk _)

/-- What a call does to the RAM copy: nothing, an update of the CRC, or a deletion
without one. -/
theorem doSetenv_cases {b : Build} {o : Outside} {e : EnvT n} {g : Globals} {name : CStr}
    {args : Args} {r : Result n} (h : doSetenv b o e g name args = .ok r) :
    r.env = e ∨ r.env.CrcOk ∨ OverflowsAfterDelete b o e.data g name args := by
  obtain ⟨found, hs, h⟩ := ok_of_bind h
  rcases found with _ | ⟨i, nxt, oldval⟩
  · rcases setNew_cases h with h | ⟨h, -⟩
    · exact .inr (.inl h)
    · exact .inl h
  · cases hc : checkOldval b o e.data g name args oldval with
    | mk ok gm =>
      obtain ⟨g', msgs⟩ := gm
      simp only [hc] at h
      cases ok with
      | false => cases h; exact .inl rfl
      | true =>
        obtain ⟨data, hd, h⟩ := ok_of_bind h
        rcases setNew_cases h with h | ⟨-, hov⟩
        · exact .inr (.inl h)
        · exact .inr (.inr ⟨i, nxt, oldval, g', msgs, data, hs, hc, hd, hov⟩)

/-- The step lemma: the CRC stays right at every other exit. -/
theorem doSetenv_crcOk {b : Build} {o : Outside} {e : EnvT n} {g : Globals} {name : CStr}
    {args : Args} {r : Result n} (h : doSetenv b o e g name args = .ok r) (he : e.CrcOk)
    (hov : ¬ OverflowsAfterDelete b o e.data g name args) : r.env.CrcOk := by
  rcases doSetenv_cases h with h | h | h
  · rwa [h]
  · exact h
  · exact absurd h hov

/-- The other direction: there the CRC stays that of the data before the deletion. -/
theorem doSetenv_stale {b : Build} {o : Outside} {e : EnvT n} {g : Globals} {name : CStr}
    {args : Args} (h : OverflowsAfterDelete b o e.data g name args) :
    ∃ r data, doSetenv b o e g name args = .ok r ∧ r.rc = 1 ∧ r.env = { e with data := data } := by
  obtain ⟨i, nxt, oldval, g', msgs, data, hs, hc, hd, v, vs, k, rfl, hf, hlt⟩ := h
  refine ⟨⟨1, { e with data := data }, setEthDevice b g' name (.words v vs),
    msgs ++ [.overflow name]⟩, data, ?_, rfl, rfl⟩
  simp only [doSetenv, hs, hc, hd, setNew, hf, bind, Except.bind]
  rw [if_pos hlt]
  rfl

/-! ## Every sequence of calls -/

theorem relocateDefault_crcOk {dflt : List UInt8} (h : dflt.length ≤ n) (flags : UInt8)
    (malloced : EnvT n) : (relocateDefault dflt flags malloced).CrcOk := by
  rw [relocateDefault, dif_pos h]
  exact envCrcUpdate_crcOk _

theorem envInit_eq_zero {flash : Sector n} : envInit flash = 0 ↔ ¬ flash.env.CrcOk := by
  unfold envInit
  split <;> simp_all

theorem envRelocate_crcOk {dflt : List UInt8} {malloced : EnvT n} {flash : Sector n}
    (h : dflt.length ≤ n ∨ flash.env.CrcOk) : (envRelocate dflt malloced flash).CrcOk := by
  unfold envRelocate
  split
  · next hi => exact relocateDefault_crcOk (h.resolve_right (envInit_eq_zero.mp hi)) _ _
  · next hi => exact Classical.not_not.mp fun hc => hi (envInit_eq_zero.mpr hc)

def Keeps (b : Build) (s : Monitor n) (c : Call) : Prop :=
  ¬ OverflowsAfterDelete b c.outside s.env.data s.g c.name c.args

/-- **The CRC invariant.** After `env_relocate`, along every sequence of calls none of which
overflows after a deletion, the CRC matches the data, and the sector a successful `saveenv`
leaves is accepted by the next `env_init`. -/
theorem crc_invariant (b : Build) {dflt : List UInt8} {malloced : EnvT n} {flash : Sector n}
    {g : Globals} {calls : List Call} {s : Monitor n} (hd : dflt.length ≤ n ∨ flash.env.CrcOk)
    (h : Run (Only (Keeps b) (SetenvStep b)) ⟨envRelocate dflt malloced flash, g⟩ calls s) :
    s.env.CrcOk ∧ ∀ driver flash', (saveenv driver flash' s.env).1 = 0 →
      envInit (saveenv driver flash' s.env).2 = 1 := by
  have hcrc : s.env.CrcOk := by
    refine h.invariant (I := fun s => s.env.CrcOk) ?_ (envRelocate_crcOk hd)
    rintro s c s' hs ⟨hk, r, hr, rfl⟩
    exact doSetenv_crcOk hr hs hk
  refine ⟨hcrc, fun driver flash' h0 => ?_⟩
  cases driver with
  | succeeds => exact if_pos hcrc
  | protectFails => cases h0
  | eraseFails left => cases h0
  | writeFails left => cases h0

/-- A sector that holds `a=1`. -/
def Sector.sample : Sector 6 := ⟨[], ⟨1665965743, 0, ⟨[97, 61, 49, 0, 0, 0], rfl⟩⟩, []⟩

set_option maxRecDepth 4000 in
theorem envRelocate_sample :
    envRelocate [0] ⟨0, 0, ⟨[9, 9, 9, 9, 9, 9], rfl⟩⟩ Sector.sample = Sector.sample.env := by
  decide

/-- `setenv a 2` from the sample sector. -/
theorem crc_invariant_sample : ∃ s : Monitor 6,
    Run (SetenvStep .plain) ⟨envRelocate [0] ⟨0, 0, ⟨[9, 9, 9, 9, 9, 9], rfl⟩⟩ .sample, .plain⟩
      [⟨.plain, ⟨[97], by decide⟩, .words ⟨[50], by decide⟩ []⟩] s ∧
    s.env.CrcOk ∧ ∀ driver flash', (saveenv driver flash' s.env).1 = 0 →
      envInit (saveenv driver flash' s.env).2 = 1 := by
  have hrun : Run (Only (Keeps .plain) (SetenvStep .plain))
      ⟨envRelocate [0] ⟨0, 0, ⟨[9, 9, 9, 9, 9, 9], rfl⟩⟩ Sector.sample, .plain⟩
      [⟨.plain, ⟨[97], by decide⟩, .words ⟨[50], by decide⟩ []⟩]
      ⟨envCrcUpdate ⟨1665965743, 0, ⟨[97, 61, 50, 0, 0, 0], rfl⟩⟩, .plain⟩ := by
    rw [envRelocate_sample]
    refine .single ⟨?_, _, rfl, rfl⟩
    rintro ⟨i, nxt, oldval, g', msgs, data, hs, -, hd, v, vs, k, ha, hf, hlt⟩
    cases hs; cases hd; cases ha; cases hf
    exact absurd hlt (by decide)
  exact ⟨_, hrun.of_only, crc_invariant .plain (.inl (by decide)) hrun⟩

/-- `setenv a 4444` from the sample sector: the entry is deleted, the new one does not fit,
and the CRC is that of the old data; the next `env_init` rejects the saved sector. -/
theorem crc_stale_after_overflow : ∃ s : Monitor 6,
    Run (SetenvStep .plain) ⟨envRelocate [0] ⟨0, 0, ⟨[9, 9, 9, 9, 9, 9], rfl⟩⟩ .sample, .plain⟩
      [⟨.plain, ⟨[97], by decide⟩, .words ⟨[52, 52, 52, 52], by decide⟩ []⟩] s ∧
    ¬ s.env.CrcOk ∧ (saveenv .succeeds .sample s.env).1 = 0 ∧
    envInit (saveenv .succeeds .sample s.env).2 = 0 := by
  rw [envRelocate_sample]
  exact ⟨⟨⟨1665965743, 0, ⟨[0, 0, 49, 0, 0, 0], rfl⟩⟩, .plain⟩, .single ⟨_, rfl, rfl⟩,
    by decide +kernel, rfl, by decide +kernel⟩

end UBoot.Env
