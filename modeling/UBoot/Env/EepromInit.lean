import UBoot.Env.Backends
import UBoot.Env.CrcTable
import UBoot.Eeprom.RoundTrip
import UBoot.Lib.BigEndian

/-!
# The environment of an EEPROM before relocation (`common/env_eeprom.c`, `lib_generic/crc32.c`)

`env_init` has no room for the environment. It reads the data in pieces and adds each to the CRC;
the verification of an image in `do_bootm` does the same when a watchdog has to be served.
`crcPieces_eq` is about any such sum, whatever the pieces.

`env_init_eeprom`: what is accepted is what `env_flash.c` and `env_nvram.c` accept.
-/

namespace UBoot.Env.InEeprom

open UBoot.Lib UBoot.Eeprom

theorem crc32_nil (crc : UInt32) : crc32 crc [] = crc := by
  rw [crc32, List.foldl_nil, UInt32.xor_assoc, UInt32.xor_self, UInt32.xor_zero]

/-! ## The CRC of pieces -/

/-- The CRC goes on with one piece after the other. -/
def crcPieces (image : ℕ → UInt8) (crc : UInt32) (ps : List (ℕ × ℕ)) : UInt32 :=
  ps.foldl (fun crc p => crc32Unrolled crc (bytesAt (fun i => image (p.1 + i)) p.2)) crc

theorem crcPieces_eq {e o : ℕ} {ps : List (ℕ × ℕ)} (h : Tiled e o ps) (image : ℕ → UInt8)
    (crc : UInt32) :
    crcPieces image crc ps = crc32 crc (bytesAt (fun i => image (o + i)) (e - o)) := by
  induction ps generalizing o crc with
  | nil =>
    obtain rfl : o = e := h
    rw [Nat.sub_self]
    exact (crc32_nil crc).symm
  | cons p ps ih =>
    obtain ⟨rfl, -, hrest⟩ := h
    have hle := hrest.le
    have hnext : bytesAt (fun i => image (p.1 + p.2 + i)) (e - (p.1 + p.2)) =
        bytesAt (fun i => image (p.1 + (p.2 + i))) (e - (p.1 + p.2)) :=
      EepromCfg.bytesAt_congr fun i _ => by rw [Nat.add_assoc]
    calc crcPieces image crc (p :: ps)
        = crc32 (crc32 crc (bytesAt (fun i => image (p.1 + i)) p.2))
            (bytesAt (fun i => image (p.1 + p.2 + i)) (e - (p.1 + p.2))) := by
          rw [crcPieces, List.foldl_cons, crc32Unrolled_eq]
          exact ih hrest _
      _ = crc32 crc (bytesAt (fun i => image (p.1 + i)) (e - p.1)) := by
          rw [hnext, ← crc32_append, EepromCfg.bytesAt_append (fun i => image (p.1 + i)),
            (by omega : p.2 + (e - (p.1 + p.2)) = e - p.1)]

/-- Pieces of a fixed length, and a last one that may be shorter. -/
def fixedCutter (size : ℕ) (h : 0 < size) : Cutter := ⟨fun _ => size, fun _ => h⟩

def chunkSz : ℕ := 64 * 1024

/-- The loop of `do_bootm` with a watchdog, from `cdata` to `edata`. -/
def verifyLoop (mem : ℕ → UInt8) (edata cdata : ℕ) (csum : UInt32) : UInt32 :=
  if cdata < edata then
    let chunk := clip (edata - cdata) chunkSz
    verifyLoop mem edata (cdata + chunk)
      (crc32Unrolled csum (bytesAt (fun i => mem (cdata + i)) chunk))
  else csum
termination_by edata - cdata
decreasing_by
  rw [clip_eq, chunkSz]
  omega

theorem verifyLoop_eq {mem : ℕ → UInt8} {edata cdata : ℕ} (h : cdata ≤ edata) (csum : UInt32) :
    verifyLoop mem edata cdata csum =
      crc32 csum (bytesAt (fun i => mem (cdata + i)) (edata - cdata)) := by
  have hpos : 0 < chunkSz := by decide
  rw [← crcPieces_eq ((fixedCutter chunkSz hpos).tiled_cuts h)]
  clear h
  fun_induction verifyLoop mem edata cdata csum with
  | case1 cdata csum hlt chunk ih =>
    have hchunk : min ((fixedCutter chunkSz hpos).len cdata) (edata - cdata) = chunk := by
      exact (clip_eq _ _).symm
    rw [Cutter.cuts_of_lt _ hlt, hchunk, ih]
    rfl
  | case2 cdata csum hge =>
    rw [Cutter.cuts_of_le _ (Nat.le_of_not_lt hge)]
    rfl

/-! ## `env_init` -/

/-- What the four bytes of a `long` are worth. -/
def longOf (bigEndian : Bool) (bytes : List UInt8) : UInt32 :=
  beWord (if bigEndian then bytes else bytes.reverse)

/-- Where the environment is: `CFG_DEF_EEPROM_ADDR` and `CFG_ENV_OFFSET`. -/
structure EnvArea (cfg : EnvCfg) where
  devAddr : ℕ
  offset : ℕ
  fits : offset + cfg.envSize < 2 ^ 32

/-- What `env_init` leaves in `gd`. -/
structure Gd where
  envAddr : ℕ
  envValid : ℕ
  deriving DecidableEq

section
variable {σ : Type} (c : EepromCfg) (b : I2c σ) {cfg : EnvCfg} (area : EnvArea cfg)

/-- The loop of `env_init` over the `len` bytes at `off`; it accumulates `new`. -/
def crcLoop (len off : ℕ) (new : UInt32) (s : σ) : UInt32 × σ :=
  if len > 0 then
    let n := clip len 64
    let r := c.eepromRead b area.devAddr (area.offset + off) n s
    crcLoop (len - n) (off + n) (crc32Unrolled new r.2.1) r.2.2
  else (new, s)
termination_by len
decreasing_by
  rw [clip_eq]
  omega

/-- `env_init`, with the CRC that it computes. -/
def envInit (bigEndian : Bool) (s : σ) : Gd × UInt32 × σ :=
  let r := c.eepromRead b area.devAddr area.offset 4 s
  let crc := longOf bigEndian r.2.1
  let t := crcLoop c b area cfg.dataSize cfg.headerSize 0 r.2.2
  (if crc = t.1 then ⟨cfg.headerSize, 1⟩ else ⟨0, 0⟩, t)

end

/-- The `env_t` at the start of an image. -/
def envAt (cfg : EnvCfg) (bigEndian : Bool) (image : ℕ → UInt8) : EnvT cfg.dataSize where
  crc := longOf bigEndian (bytesAt image 4)
  flags := if cfg.redundand then image 4 else 0
  data := ⟨bytesAt (fun i => image (cfg.headerSize + i)) cfg.dataSize,
    EepromCfg.length_bytesAt _ _⟩

section
variable {c : EepromCfg} {cfg : EnvCfg} {area : EnvArea cfg} {m : Cells} {off len : ℕ}

/-- The bytes of the environment in the EEPROM. -/
def EnvArea.image (area : EnvArea cfg) (c : EepromCfg) (m : Cells) (i : ℕ) : UInt8 :=
  m (c.cellOf area.devAddr (area.offset + i))

variable (c area m off len) in
theorem EnvArea.read_eq (h : off + len ≤ cfg.envSize) :
    c.eepromRead (ideal c) area.devAddr (area.offset + off) len m =
      (0, bytesAt (fun i => area.image c m (off + i)) len, m) := by
  have hfits := area.fits
  have hin : ∀ p ∈ c.reads.cuts (area.offset + off + len) (area.offset + off), InPage 256 p :=
    fun p hp => c.reads.inPage_of_len
      (fun o => (c.readMaxlen_eq o).trans_le (Nat.min_le_left _ _)) (by decide) hp
  rw [EepromCfg.eepromRead_eq (by omega), EepromCfg.readPieces_ideal
    (c.reads.tiled_cuts (Nat.le_add_right ..)) hin, Nat.add_sub_cancel_left]
  refine Prod.ext rfl (Prod.ext (EepromCfg.bytesAt_congr fun i _ => ?_) rfl)
  rw [EnvArea.image, Nat.add_assoc]

theorem header_add_data (cfg : EnvCfg) : cfg.headerSize + cfg.dataSize = cfg.envSize :=
  Nat.add_sub_cancel' cfg.fits

theorem crcLoop_eq (h : off + len ≤ cfg.envSize) (new : UInt32) :
    crcLoop c (ideal c) area len off new m =
      (crc32 new (bytesAt (fun i => area.image c m (off + i)) len), m) := by
  have hpos : 0 < 64 := by decide
  have hpieces := crcPieces_eq ((fixedCutter 64 hpos).tiled_cuts (Nat.le_add_right off len))
    (area.image c m) new
  rw [Nat.add_sub_cancel_left] at hpieces
  rw [← hpieces]
  clear hpieces
  induction len using Nat.strong_induction_on generalizing off new with
  | _ len ih =>
    rw [crcLoop]
    split
    · rename_i hlen
      have hn := clip_eq len 64
      have hcut : min ((fixedCutter 64 hpos).len off) (off + len - off) = clip len 64 := by
        rw [Nat.add_sub_cancel_left]
        exact hn.symm
      have hread := EnvArea.read_eq c area m off (clip len 64)
        (by omega : off + clip len 64 ≤ cfg.envSize)
      rw [Cutter.cuts_of_lt _ (by omega), hcut]
      simp only [hread]
      rw [ih (len - clip len 64) (by omega) (by omega),
        (by omega : off + clip len 64 + (len - clip len 64) = off + len)]
      rfl
    · rw [Cutter.cuts_of_le _ (by omega)]
      rfl

theorem envInit_eq (bigEndian : Bool) (behind : Chars) :
    let env := envAt cfg bigEndian (area.image c m)
    envInit c (ideal c) area bigEndian m =
      (if ((envEeprom cfg.dataSize).envInit ⟨env, behind⟩).isSome then ⟨cfg.headerSize, 1⟩
        else ⟨0, 0⟩, crc32 0 env.data.bytes, m) := by
  intro env
  have hcrc : crcLoop c (ideal c) area cfg.dataSize cfg.headerSize 0 m =
      (crc32 0 env.data.bytes, m) := crcLoop_eq (header_add_data cfg).le 0
  have hold : c.eepromRead (ideal c) area.devAddr area.offset 4 m =
      (0, bytesAt (area.image c m) 4, m) := by
    have hsize : 4 ≤ cfg.envSize := by
      have := cfg.fits
      split at this <;> omega
    have hread := EnvArea.read_eq c area m 0 4 (by omega)
    simpa only [Nat.add_zero, Nat.zero_add] using hread
  have hval : ((envEeprom cfg.dataSize).envInit ⟨env, behind⟩).isSome ↔
      env.crc = crc32 0 env.data.bytes := by
    show (if eepromCrc 0 env.data.bytes = env.crc then some () else none).isSome ↔ _
    rw [eepromCrc_eq, apply_ite Option.isSome]
    simp [eq_comm]
  simp only [envInit, hold, hcrc, hval]
  rfl

end

/-- **The environment of an EEPROM** is accepted exactly if flash or an NVRAM with the same
contents is, since the CRC of the pieces is that of the data at once. -/
theorem env_init_eeprom (c : EepromCfg) (cfg : EnvCfg) (area : EnvArea cfg) (bigEndian : Bool)
    (m : Cells) (behind : Chars) :
    (∀ crc buf, crc32Unrolled crc buf = crc32 crc buf) ∧
    (∀ x y, crc32Unrolled (crc32Unrolled 0 x) y = crc32Unrolled 0 (x ++ y)) ∧
    let env := envAt cfg bigEndian (area.image c m)
    let r := envInit c (ideal c) area bigEndian m
    r.2.1 = crc32 0 env.data.bytes ∧
    (r.1.envValid = 1 ↔ ((envFlash cfg.dataSize).envInit ⟨env, behind⟩).isSome) ∧
    (r.1.envValid = 1 ↔ ((envNvram cfg.dataSize).envInit ⟨env, behind⟩).isSome) ∧
    (r.1.envValid = 1 ↔ ((envNvramAccess bigEndian cfg.dataSize).envInit ⟨env, behind⟩).isSome) ∧
    r.2.2 = m := by
  refine ⟨crc32Unrolled_eq, fun x y => ?_, ?_⟩
  · simp only [crc32Unrolled_eq, crc32_append]
  · intro env r
    have hr : r = _ := envInit_eq bigEndian behind
    have hsome : ((envFlash cfg.dataSize).envInit ⟨env, behind⟩).isSome =
        ((envEeprom cfg.dataSize).envInit ⟨env, behind⟩).isSome := by
      show (if crc32 0 env.data.bytes = env.crc then some () else none).isSome =
        (if eepromCrc 0 env.data.bytes = env.crc then some () else none).isSome
      rw [eepromCrc_eq]
    have hvalid : r.1.envValid = 1 ↔ ((envFlash cfg.dataSize).envInit ⟨env, behind⟩).isSome := by
      rw [hr, hsome]
      dsimp only
      split
      · rename_i h
        exact iff_of_true rfl h
      · rename_i h
        exact iff_of_false (by decide) h
    refine ⟨?_, hvalid, hvalid, hvalid, ?_⟩
    all_goals rw [hr]

end UBoot.Env.InEeprom
