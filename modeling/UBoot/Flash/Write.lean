import UBoot.Flash.Banks

/-!
# Copying memory to flash: `flash_write` (`common/flash.c`)

`flash_write` looks up the banks of the first and of the last target address, then walks the
table from the one `info` pointer to the other: once to look for protected sectors, once to
hand each bank its part. The source bytes are the list `src`, so `cnt` is its length.
`write_buff` belongs to the board; here it is a parameter that acts on a state, and `logged`
is the one that records its calls and answers them from an oracle.

The banks visited are those between two positions of the table, whatever their addresses
are. `Protects` and `Completes` are what callers expect of a call.
-/

namespace UBoot.Flash

open FlashInfo

def errOk : Int := 0
def errProtected : Int := 4
def errInval : Int := 8

/-- A call of `write_buff`: the bank's index, the target address and the bytes. -/
structure Call where
  bank : Nat
  addr : UInt32
  data : List UInt8
  deriving DecidableEq

/-- The test of the check loop for sector `i`; `last` is the `end` of the source. -/
def FlashInfo.hits (info : FlashInfo) (addr last : UInt32) (i : Nat) : Bool :=
  info.start i ≤ last && addr < info.eAddr i && info.protect i != 0

/-- The banks from `info_first` to `info_last`. -/
def banksBetween (flashInfo : List FlashInfo) (first last : Nat) : List FlashInfo :=
  (flashInfo.drop first).take (last + 1 - first)

def protectedHit (banks : List FlashInfo) (addr last : UInt32) : Bool :=
  banks.any fun info => (List.range info.sectorCount.toNat).any (info.hits addr last)

variable {σ : Type*}

/-- The write loop, at the bank of index `k`. -/
def writeLoop (writeBuff : Nat → List UInt8 → UInt32 → σ → Int × σ) :
    List FlashInfo → Nat → List UInt8 → UInt32 → σ → Int × σ
  | [], _, _, _, s => (errOk, s)
  | info :: banks, k, src, addr, s =>
    if src.length = 0 then (errOk, s)
    else
      let len := (info.start 0 + info.size - addr).toNat
      let len := if len > src.length then src.length else len
      let (i, s) := writeBuff k (src.take len) addr s
      if i ≠ 0 then (i, s)
      else writeLoop writeBuff banks (k + 1) (src.drop len) (addr + UInt32.ofNat len) s

def lastAddr (addr : UInt32) (cnt : Nat) : UInt32 := addr + UInt32.ofNat cnt - 1

def flashWrite (flashInfo : List FlashInfo)
    (writeBuff : Nat → List UInt8 → UInt32 → σ → Int × σ) (src : List UInt8) (addr : UInt32)
    (s : σ) : Int × σ :=
  if src.length = 0 then (errOk, s)
  else
    match addr2info flashInfo addr, addr2info flashInfo (lastAddr addr src.length) with
    | some first, some last =>
      if protectedHit (banksBetween flashInfo first last) addr (lastAddr addr src.length) then
        (errProtected, s)
      else writeLoop writeBuff (banksBetween flashInfo first last) first src addr s
    | _, _ => (errInval, s)

/-- A `write_buff` that records its calls; `answer` gives the result of the latest one. -/
def logged (answer : List Call → Int) (k : Nat) (data : List UInt8) (addr : UInt32)
    (log : List Call) : Int × List Call :=
  (answer (log ++ [⟨k, addr, data⟩]), log ++ [⟨k, addr, data⟩])

/-- The target range meets a protected sector of a known bank. -/
def MeetsProtected (flashInfo : List FlashInfo) (addr : UInt32) (cnt : Nat) : Prop :=
  ∃ info ∈ flashInfo, info.known = true ∧ ∃ i, info.protect i ≠ 0 ∧
    ∃ j < cnt, info.InSector i (addr + UInt32.ofNat j)

/-- What callers rely on to keep protected sectors: an error, and nothing written. -/
def Protects (flashInfo : List FlashInfo) (src : List UInt8) (addr : UInt32) : Prop :=
  MeetsProtected flashInfo addr src.length → ∀ answer,
    (flashWrite flashInfo (logged answer) src addr []).1 ≠ errOk ∧
    (flashWrite flashInfo (logged answer) src addr []).2 = []

/-- A protected sector of a bank between the two looked up that starts at or before the last
address and ends behind the first one, not at the top of the address space. -/
def SeesProtected (flashInfo : List FlashInfo) (first last : Nat) (addr : UInt32) (cnt : Nat) :
    Prop :=
  ∃ k info i, first ≤ k ∧ k ≤ last ∧ flashInfo[k]? = some info ∧
    i < info.sectorCount.toNat ∧ info.protect i ≠ 0 ∧
    (info.start i).toNat ≤ (lastAddr addr cnt).toNat ∧ addr.toNat < info.sectorEnd i ∧
    info.sectorEnd i ≠ 2 ^ 32

variable {flashInfo : List FlashInfo} {src : List UInt8} {addr : UInt32} {first last k : Nat}
  {info : FlashInfo}

theorem mem_banksBetween : info ∈ banksBetween flashInfo first last ↔
    ∃ k, first ≤ k ∧ k ≤ last ∧ flashInfo[k]? = some info := by
  rw [banksBetween, List.mem_iff_getElem?]
  constructor
  · rintro ⟨j, hj⟩
    rw [List.getElem?_take] at hj
    split at hj
    · rw [List.getElem?_drop] at hj
      exact ⟨first + j, by omega, by omega, hj⟩
    · cases hj
  · rintro ⟨k, hf, hl, hk⟩
    refine ⟨k - first, ?_⟩
    rw [List.getElem?_take_of_lt (by omega), List.getElem?_drop, Nat.add_sub_cancel' hf, hk]

theorem sectorEnd_le (h : info.Ascending) (i : Nat) : info.sectorEnd i ≤ 2 ^ 32 := by
  rw [sectorEnd]
  split
  · exact h.end_le
  · exact (info.start (i + 1)).toNat_lt.le

/-- The test of a sector, in unbounded arithmetic: a sector that ends at the top of the
address space never meets it. -/
theorem hits_iff (h : info.Ascending) {l : UInt32} {i : Nat} :
    info.hits addr l i = true ↔ info.protect i ≠ 0 ∧ (info.start i).toNat ≤ l.toNat ∧
      addr.toNat < info.sectorEnd i ∧ info.sectorEnd i ≠ 2 ^ 32 := by
  have hle := sectorEnd_le h i
  simp only [hits, Bool.and_eq_true, decide_eq_true_eq, bne_iff_ne, UInt32.le_iff_toNat_le,
    UInt32.lt_iff_toNat_lt, eAddr_toNat h]
  constructor
  · rintro ⟨⟨hs, he⟩, hp⟩
    exact ⟨hp, hs, by omega, fun h => by rw [h] at he; omega⟩
  · rintro ⟨hp, hs, he, hne⟩
    exact ⟨⟨hs, by omega⟩, hp⟩

theorem protectedHit_iff (ht : ∀ info ∈ flashInfo, info.sectorCount ≠ 0 → info.Ascending) :
    protectedHit (banksBetween flashInfo first last) addr (lastAddr addr k) = true ↔
      SeesProtected flashInfo first last addr k := by
  simp only [protectedHit, List.any_eq_true, mem_banksBetween, List.mem_range]
  have hasc : ∀ info, (∃ k : Nat, flashInfo[k]? = some info) → ∀ i < info.sectorCount.toNat,
      info.Ascending := by
    rintro info ⟨k, hk⟩ i hi
    refine ht info (List.mem_of_getElem? hk) fun h0 => ?_
    rw [h0] at hi
    exact Nat.not_lt_zero _ hi
  constructor
  · rintro ⟨info, ⟨k, hf, hl, hk⟩, i, hi, hhit⟩
    have hhit := (hits_iff (hasc info ⟨k, hk⟩ i hi)).mp hhit
    exact ⟨k, info, i, hf, hl, hk, hi, hhit.1, hhit.2⟩
  · rintro ⟨k, info, i, hf, hl, hk, hi, hhit⟩
    exact ⟨info, ⟨k, hf, hl, hk⟩, i, hi, (hits_iff (hasc info ⟨k, hk⟩ i hi)).mpr hhit⟩

/-- The calls that the write loop makes when none of them fails. -/
def callsOf : List FlashInfo → Nat → List UInt8 → UInt32 → List Call
  | [], _, _, _ => []
  | info :: banks, k, src, addr =>
    if src.length = 0 then []
    else
      let len := min (info.bEnd - addr).toNat src.length
      ⟨k, addr, src.take len⟩ ::
        callsOf banks (k + 1) (src.drop len) (addr + UInt32.ofNat len)

theorem len_eq_min {a b : Nat} : (if a > b then b else a) = min a b := by
  split <;> omega

theorem writeLoop_ok {answer : List Call → Int} {banks : List FlashInfo} {log : List Call}
    (h : (writeLoop (logged answer) banks k src addr log).1 = errOk) :
    (writeLoop (logged answer) banks k src addr log).2 = log ++ callsOf banks k src addr := by
  induction banks generalizing k src addr log with
  | nil => exact (List.append_nil log).symm
  | cons info banks ih =>
    rw [writeLoop] at h ⊢
    rw [callsOf]
    split
    · exact (List.append_nil log).symm
    · rename_i hsrc
      simp only [if_neg hsrc, len_eq_min, logged] at h ⊢
      split at h
      · rename_i hne
        exact absurd h hne
      · rename_i heq
        rw [if_neg heq, ih h, List.append_assoc]
        rfl

theorem writeLoop_zero {banks : List FlashInfo} {log : List Call} :
    (writeLoop (logged fun _ => 0) banks k src addr log).1 = errOk := by
  induction banks generalizing k src addr log with
  | nil => rfl
  | cons info banks ih =>
    rw [writeLoop]
    split
    · rfl
    · simpa only [logged, ne_eq, not_true_eq_false, if_false] using ih

/-- The cases of `flash_write`: nothing to write, an end outside the known banks, a protected
sector found, or the write loop. -/
theorem flashWrite_cases (flashInfo : List FlashInfo) (src : List UInt8) (addr : UInt32) :
    (src.length = 0 ∧ ∀ wb (s : σ), flashWrite flashInfo wb src addr s = (errOk, s)) ∨
    (src.length ≠ 0 ∧ (addr2info flashInfo addr = none ∨
        addr2info flashInfo (lastAddr addr src.length) = none) ∧
      ∀ wb (s : σ), flashWrite flashInfo wb src addr s = (errInval, s)) ∨
    ∃ first last, src.length ≠ 0 ∧ addr2info flashInfo addr = some first ∧
      addr2info flashInfo (lastAddr addr src.length) = some last ∧
      ((protectedHit (banksBetween flashInfo first last) addr (lastAddr addr src.length) = true ∧
        ∀ wb (s : σ), flashWrite flashInfo wb src addr s = (errProtected, s)) ∨
      (protectedHit (banksBetween flashInfo first last) addr (lastAddr addr src.length) = false ∧
        ∀ wb (s : σ), flashWrite flashInfo wb src addr s =
          writeLoop wb (banksBetween flashInfo first last) first src addr s)) := by
  by_cases hsrc : src.length = 0
  · exact .inl ⟨hsrc, fun wb s => if_pos hsrc⟩
  refine .inr ?_
  simp only [flashWrite, if_neg hsrc]
  cases hf : addr2info flashInfo addr with
  | none => exact .inl ⟨hsrc, .inl rfl, fun wb s => rfl⟩
  | some first =>
    cases hl : addr2info flashInfo (lastAddr addr src.length) with
    | none => exact .inl ⟨hsrc, .inr rfl, fun wb s => rfl⟩
    | some last =>
      refine .inr ⟨first, last, hsrc, rfl, rfl, ?_⟩
      cases hp : protectedHit (banksBetween flashInfo first last) addr
        (lastAddr addr src.length) with
      | true => exact .inl ⟨rfl, fun wb s => if_pos hp⟩
      | false => exact .inr ⟨rfl, fun wb s => if_neg (by rw [hp]; exact Bool.false_ne_true)⟩

/-- Every bank that has sectors has them in ascending order. -/
def Sectored (flashInfo : List FlashInfo) : Prop :=
  ∀ info ∈ flashInfo, info.sectorCount ≠ 0 → info.Ascending

/-- **When `flash_write` keeps protected sectors.** A range that meets one is refused, with
nothing written, if and only if an end of the range is outside the known banks or the check
loop sees a protected sector: one in a bank between the two looked up, not at the top of
the address space. -/
theorem flashWrite_protects_iff (ht : Sectored flashInfo) :
    Protects flashInfo src addr ↔
      (MeetsProtected flashInfo addr src.length →
        addr2info flashInfo addr = none ∨
        addr2info flashInfo (lastAddr addr src.length) = none ∨
        ∃ first last, addr2info flashInfo addr = some first ∧
          addr2info flashInfo (lastAddr addr src.length) = some last ∧
          SeesProtected flashInfo first last addr src.length) := by
  refine imp_congr_right fun hmeets => ?_
  rcases flashWrite_cases (σ := List Call) flashInfo src addr with
    ⟨hsrc, _⟩ | ⟨_, hnone, hret⟩ | ⟨first, last, _, hf, hl, ⟨hp, hret⟩ | ⟨hp, hret⟩⟩
  · obtain ⟨_, _, _, _, _, j, hj, _⟩ := hmeets
    omega
  · simp only [hret]
    exact ⟨fun _ => hnone.imp_right .inl, fun _ _ => ⟨by decide, trivial⟩⟩
  · simp only [hret]
    refine ⟨fun _ => .inr (.inr ⟨first, last, hf, hl, (protectedHit_iff ht).mp hp⟩), ?_⟩
    exact fun _ _ => ⟨by decide, trivial⟩
  · constructor
    · intro h
      have h0 := (h fun _ => 0).1
      rw [hret] at h0
      exact absurd writeLoop_zero h0
    · rintro (h | h | ⟨first', last', hf', hl', hsees⟩)
      · rw [hf] at h; cases h
      · rw [hl] at h; cases h
      · rw [hf] at hf'; rw [hl] at hl'
        cases hf'; cases hl'
        rw [(protectedHit_iff ht).mpr hsees] at hp
        cases hp

/-- A bank of two sectors at the top of the address space, the upper one protected. -/
def topBank : FlashInfo where
  size := 0x10000
  sectorCount := 2
  flashId := 1
  start i := if i = 0 then 0xFFFF0000 else 0xFFFF8000
  protect i := if i = 1 then 1 else 0

theorem topBank_sectored : Sectored [topBank] := by
  intro info hinfo _
  obtain rfl := List.mem_singleton.mp hinfo
  refine ⟨⟨by decide, by decide⟩, by decide, by decide, fun i hi => ?_, by decide⟩
  obtain rfl : i = 0 := by
    have hi : i + 1 < 2 := hi
    omega
  decide

/-- One byte written to the protected top sector: its exclusive end is 0, the check loop does
not see it, and `write_buff` is called. -/
theorem flashWrite_writes_top_sector :
    Sectored [topBank] ∧ ¬ Protects [topBank] [0x55] 0xFFFF8000 := by
  refine ⟨topBank_sectored, fun h => ?_⟩
  have hmeets : MeetsProtected [topBank] 0xFFFF8000 1 :=
    ⟨topBank, List.mem_singleton.mpr rfl, by decide, 1, by decide, 0, by decide, by decide,
      by decide, by decide⟩
  exact absurd (h hmeets fun _ => 0).1 (by decide)

theorem flashWrite_protects_iff_top :
    Protects [topBank] [0x55] 0xFFFF8000 ↔
      (MeetsProtected [topBank] 0xFFFF8000 1 →
        addr2info [topBank] 0xFFFF8000 = none ∨
        addr2info [topBank] (lastAddr 0xFFFF8000 1) = none ∨
        ∃ first last, addr2info [topBank] 0xFFFF8000 = some first ∧
          addr2info [topBank] (lastAddr 0xFFFF8000 1) = some last ∧
          SeesProtected [topBank] first last 0xFFFF8000 1) :=
  flashWrite_protects_iff topBank_sectored

end UBoot.Flash
