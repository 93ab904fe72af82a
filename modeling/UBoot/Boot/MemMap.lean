import UBoot.Env.Map
import UBoot.Lib.Align

/-!
# The memory map at start-up (`lib_ppc/board.c`)

`board_init_f` reserves memory from the top of RAM down: protected RAM, the monitor, the `malloc`
arena, the board info, the global data and the stack. `board_init_f_layout` says when the regions
are disjoint and in RAM, for sizes that fit into it.
-/

namespace UBoot.Boot

open UBoot.Lib UBoot.Common UBoot.Env

/-- What the configuration of a board says. `env.envSize` is `CFG_ENV_SIZE`. -/
structure BoardCfg where
  sdramBase : UInt32
  monitorBase : UInt32
  monitorLen : UInt32
  mallocLen : UInt32
  env : EnvCfg
  envAddr : UInt32
  envIsInNvram : Bool
  veryBigRam : Bool
  pram : Option UInt32
  sizeofBd : UInt32
  sizeofGd : UInt32

/-- `TOTAL_MALLOC_LEN`: with room for the environment when it is not in the monitor's image. -/
def BoardCfg.totalMallocLen (c : BoardCfg) : UInt32 :=
  if c.envAddr.toNat + c.env.envSize < c.monitorBase.toNat ∨
      c.monitorBase.toNat + c.monitorLen.toNat ≤ c.envAddr.toNat ∨ c.envIsInNvram then
    c.mallocLen + UInt32.ofNat c.env.envSize
  else c.mallocLen

/-- The regions that are reserved: the first address of each, `top` the end of the first, `frame`
the words of the first stack frame. -/
structure MemMap where
  top : UInt32
  reg : UInt32
  prot : UInt32
  monitor : UInt32
  malloc : UInt32
  bd : UInt32
  id : UInt32
  frame : List UInt32
  sp : UInt32

/-- Where the reservations start. With `CONFIG_VERY_BIG_RAM` the sum is the condition. -/
def BoardCfg.ramTop (c : BoardCfg) (ramSize : UInt32) : UInt32 :=
  if c.veryBigRam then
    let max := (256 : UInt32) <<< 20
    if c.sdramBase + (if max < ramSize then 1 else 0) ≠ 0 then max else ramSize
  else c.sdramBase + ramSize

def pramName : CStr := ⟨ascii "pram", by decide⟩

/-- A size in kB as it stands in the environment. -/
def kbOf (s : List UInt8) : UInt32 := UInt32.ofNat (simpleStrtoul 10 s).1

/-- The size in kB of the protected RAM. `tmp` is the `uchar [64]` on the stack, and `stack` what
is behind it, where `getenv_r` stores a NUL for a value of 63 characters. -/
def BoardCfg.pramSize (c : BoardCfg) (env : Area c.env.dataSize) (stack : List UInt8) :
    Except Oob UInt32 :=
  match c.pram with
  | none => .ok 0
  | some pram => do
    match ← getenvR c.env env pramName 64 with
    | none => return pram
    | some (i, tmp) =>
      if 64 < tmp.length then throw .write
      return if 0 < i then kbOf (tmp ++ stack) else pram

/-- The reservations below `top`. -/
def BoardCfg.reserve (c : BoardCfg) (top reg len : UInt32) : MemMap :=
  let prot := top - (reg <<< 10)
  let addr := prot &&& ~~~(4096 - 1)
  let addr := (addr - len) &&& ~~~(4096 - 1)
  let malloc := addr - c.totalMallocLen
  let bd := malloc - c.sizeofBd
  let id := bd - c.sizeofGd
  let addrSp := (id - 16) &&& ~~~0xF
  { top, reg, prot, monitor := addr, malloc, bd, id, frame := [addrSp, addrSp - 4],
    sp := addrSp - 8 }

/-- `board_init_f`, up to the stack pointer; `none` is `hang`. -/
def boardInitF (c : BoardCfg) (endaddr ramSize : UInt32) (env : Area c.env.dataSize)
    (stack : List UInt8) : Except Oob (Option MemMap) := do
  let len := endaddr - c.monitorBase
  if c.monitorLen < len then return none
  let len := if len < c.monitorLen then c.monitorLen else len
  let reg ← c.pramSize env stack
  return some (c.reserve (c.ramTop ramSize) reg len)

/-! ## What the memory map should be -/

def BoardCfg.ramEnd (c : BoardCfg) (ramSize : UInt32) : ℕ :=
  if c.veryBigRam then min (c.sdramBase.toNat + ramSize.toNat) (2 ^ 28)
  else c.sdramBase.toNat + ramSize.toNat

/-- The size in kB that the environment, or else the configuration, asks for. -/
def BoardCfg.pramKb (c : BoardCfg) (es : List Entry) : UInt32 :=
  match c.pram with
  | none => 0
  | some pram =>
    match es.find? fun e => e.key = keyOf pramName.bytes with
    | none => pram
    | some e => kbOf e.val

/-- The sizes in whole pages fit between the base and the end of the RAM. The stack takes its gap
of 16 bytes, what is cut off to align it, and its two words. -/
def BoardCfg.Fits (c : BoardCfg) (ramSize : UInt32) (es : List Entry) : Prop :=
  alignUp 4096 c.sdramBase.toNat + alignUp 4096 (1024 * (c.pramKb es).toNat) +
    alignUp 4096 c.monitorLen.toNat +
    alignUp 4096 (c.totalMallocLen.toNat + c.sizeofBd.toNat + c.sizeofGd.toNat + (16 + 15 + 8)) ≤
  c.ramEnd ramSize / 4096 * 4096

/-- The regions lie below each other in RAM, and no subtraction wrapped. -/
structure Layout (c : BoardCfg) (ramSize : UInt32) (es : List Entry) (l : MemMap) : Prop where
  top : l.top.toNat ≤ c.ramEnd ramSize
  reg : l.reg = c.pramKb es
  prot : l.prot.toNat + 1024 * l.reg.toNat = l.top.toNat
  monitor : l.monitor.toNat + c.monitorLen.toNat ≤ l.prot.toNat
  page : 4096 ∣ l.monitor.toNat
  malloc : l.malloc.toNat + c.totalMallocLen.toNat = l.monitor.toNat
  bd : l.bd.toNat + c.sizeofBd.toNat = l.malloc.toNat
  id : l.id.toNat + c.sizeofGd.toNat = l.bd.toNat
  frame : ∀ w ∈ l.frame, l.sp.toNat < w.toNat ∧ w.toNat + 4 ≤ l.id.toNat
  aligned : 16 ∣ l.sp.toNat + 8
  base : c.sdramBase.toNat ≤ l.sp.toNat

/-! ## What it is -/

variable {c : BoardCfg} {ramSize top reg len endaddr : UInt32} {es : List Entry}
  {env : Area c.env.dataSize} {stack : List UInt8}

theorem toNat_sub_of_le {a b : UInt32} (hle : b.toNat ≤ a.toNat) :
    (a - b).toNat = a.toNat - b.toNat :=
  UInt32.toNat_sub_of_le _ _ (UInt32.le_iff_toNat_le.mpr hle)

theorem toNat_page (x : UInt32) : (x &&& ~~~(4096 - 1)).toNat = x.toNat - x.toNat % 4096 :=
  toNat_and_not (k := 12) rfl

theorem toNat_shiftKb {x : UInt32} (hx : 1024 * x.toNat < 2 ^ 32) :
    (x <<< 10).toNat = 1024 * x.toNat := by
  have hmod : (10 : UInt32).toNat % 32 = 10 := rfl
  rw [UInt32.toNat_shiftLeft, hmod, Nat.shiftLeft_eq, Nat.mod_eq_of_lt] <;> omega

/-- A region of whole pages below an address: nothing of it lies below `lower`. -/
theorem page_below {a len : UInt32} {size : ℕ} (lower : ℕ) (hsize : len.toNat ≤ size)
    (hd : 4096 ∣ size) (hlower : 4096 ∣ lower) (hle : lower + size ≤ a.toNat) :
    lower ≤ ((a - len) &&& ~~~(4096 - 1)).toNat ∧
      ((a - len) &&& ~~~(4096 - 1)).toNat + len.toNat ≤ a.toNat ∧
      4096 ∣ ((a - len) &&& ~~~(4096 - 1)).toNat := by
  have hsub : (a - len).toNat = a.toNat - len.toNat := toNat_sub_of_le (by omega)
  rw [toNat_page]
  refine ⟨le_sub_mod_of_dvd hlower (by omega), ?_, Nat.dvd_sub_mod _⟩
  have hmod := Nat.sub_le (a - len).toNat ((a - len).toNat % 4096)
  omega

theorem stack_below (id : UInt32) {base : ℕ} (hle : base + (16 + 15 + 8) ≤ id.toNat) :
    (∀ w ∈ [(id - 16) &&& ~~~0xF, ((id - 16) &&& ~~~0xF) - 4],
      (((id - 16) &&& ~~~0xF) - 8).toNat < w.toNat ∧ w.toNat + 4 ≤ id.toNat) ∧
    16 ∣ (((id - 16) &&& ~~~0xF) - 8).toNat + 8 ∧
    base ≤ (((id - 16) &&& ~~~0xF) - 8).toNat := by
  have hgap : (id - 16).toNat = id.toNat - 16 := toNat_sub_of_le (show 16 ≤ id.toNat by omega)
  have hframe : ((id - 16) &&& ~~~0xF).toNat = (id - 16).toNat - (id - 16).toNat % 16 :=
    toNat_and_not (k := 4) rfl
  have hmod := Nat.mod_lt (id - 16).toNat (show 16 > 0 by omega)
  have haligned : 16 ∣ ((id - 16) &&& ~~~0xF).toNat := hframe ▸ Nat.dvd_sub_mod (id - 16).toNat
  generalize (id - 16) &&& ~~~0xF = addrSp at hframe haligned ⊢
  have hword : (addrSp - 4).toNat = addrSp.toNat - 4 :=
    toNat_sub_of_le (show 4 ≤ addrSp.toNat by omega)
  have hsp : (addrSp - 8).toNat = addrSp.toNat - 8 :=
    toNat_sub_of_le (show 8 ≤ addrSp.toNat by omega)
  refine ⟨fun w hw => ?_, ?_, by omega⟩
  · obtain rfl | hw := List.mem_cons.mp hw
    · omega
    · obtain rfl := List.mem_singleton.mp hw
      omega
  · rwa [hsp, Nat.sub_add_cancel (by omega)]

/-- The regions below a top with enough room: from the top down, nothing wraps as long as the
sizes to come still fit. -/
theorem reserve_layout (hfits : c.Fits ramSize es) (htop : top.toNat = c.ramEnd ramSize) :
    Layout c ramSize es (c.reserve top (c.pramKb es) c.monitorLen) := by
  have hlt := top.toNat_lt
  rw [BoardCfg.Fits, ← htop] at hfits
  have hbase : c.sdramBase.toNat ≤ _ := le_alignUp (p := 4096) (by omega)
  have hpram : 1024 * (c.pramKb es).toNat ≤ _ := le_alignUp (p := 4096) (by omega)
  have hmon : c.monitorLen.toNat ≤ _ := le_alignUp (p := 4096) (by omega)
  have hrest : c.totalMallocLen.toNat + c.sizeofBd.toNat + c.sizeofGd.toNat + (16 + 15 + 8) ≤ _ :=
    le_alignUp (p := 4096) (by omega)
  have hend := Nat.div_mul_le_self top.toNat 4096
  have hshift := toNat_shiftKb (x := c.pramKb es) (by omega)
  have hlower : 4096 ∣ alignUp 4096 c.sdramBase.toNat +
      alignUp 4096 (c.totalMallocLen.toNat + c.sizeofBd.toNat + c.sizeofGd.toNat + (16 + 15 + 8)) :=
    Nat.dvd_add dvd_alignUp dvd_alignUp
  set lower := alignUp 4096 c.sdramBase.toNat +
    alignUp 4096 (c.totalMallocLen.toNat + c.sizeofBd.toNat + c.sizeofGd.toNat + (16 + 15 + 8))
  set mon := alignUp 4096 c.monitorLen.toNat
  have hprot : (top - c.pramKb es <<< 10).toNat = top.toNat - 1024 * (c.pramKb es).toNat := by
    rw [← hshift]
    exact toNat_sub_of_le (by omega)
  obtain ⟨hpage, -, -⟩ := page_below (lower + mon) (a := top)
    (hshift.trans_le hpram) dvd_alignUp (Nat.dvd_add hlower dvd_alignUp) (by omega)
  have hpage_le : ((top - c.pramKb es <<< 10) &&& ~~~(4096 - 1)).toNat ≤
      (top - c.pramKb es <<< 10).toNat := (toNat_page _).trans_le (Nat.sub_le ..)
  rw [BoardCfg.reserve]
  generalize top - c.pramKb es <<< 10 = prot at hprot hpage hpage_le ⊢
  generalize prot &&& ~~~(4096 - 1) = page at hpage hpage_le ⊢
  obtain ⟨hmonitor, hbelow, halign⟩ := page_below lower (a := page) hmon dvd_alignUp hlower hpage
  generalize (page - c.monitorLen) &&& ~~~(4096 - 1) = monitor at hmonitor hbelow halign ⊢
  have hroom : c.sdramBase.toNat + (c.totalMallocLen.toNat + c.sizeofBd.toNat +
      c.sizeofGd.toNat + (16 + 15 + 8)) ≤ monitor.toNat := by omega
  have hmalloc : (monitor - c.totalMallocLen).toNat = monitor.toNat - c.totalMallocLen.toNat :=
    toNat_sub_of_le (by omega)
  have hbd : (monitor - c.totalMallocLen - c.sizeofBd).toNat =
      (monitor - c.totalMallocLen).toNat - c.sizeofBd.toNat := toNat_sub_of_le (by omega)
  have hid : (monitor - c.totalMallocLen - c.sizeofBd - c.sizeofGd).toNat =
      (monitor - c.totalMallocLen - c.sizeofBd).toNat - c.sizeofGd.toNat :=
    toNat_sub_of_le (by omega)
  obtain ⟨hframe, haligned, hsp⟩ := stack_below
    (monitor - c.totalMallocLen - c.sizeofBd - c.sizeofGd)
    (show c.sdramBase.toNat + (16 + 15 + 8) ≤ _ by omega)
  refine ⟨htop.le, rfl, ?_, hbelow.trans hpage_le, halign, ?_, ?_, ?_, hframe, haligned, hsp⟩
  · rw [hprot, Nat.sub_add_cancel (by omega)]
  · rw [hmalloc, Nat.sub_add_cancel (by omega)]
  · rw [hbd, Nat.sub_add_cancel (by omega)]
  · rw [hid, Nat.sub_add_cancel (by omega)]

theorem strtoulDigits_nul (base : ℕ) (v x : List UInt8) (r : ℕ) :
    (strtoulDigits base (v ++ 0 :: x) r).1 = (strtoulDigits base v r).1 := by
  induction v generalizing r with
  | nil => rfl
  | cons c v ih =>
    rw [List.cons_append, strtoulDigits, strtoulDigits]
    split_ifs
    · exact ih _
    · rfl

theorem simpleStrtoul_nul (v x : List UInt8) :
    (simpleStrtoul 10 (v ++ 0 :: x)).1 = (simpleStrtoul 10 v).1 := by
  have h0 : isxdigit 0 = false := rfl
  rcases v with _ | ⟨a, _ | ⟨b, _ | ⟨d, cp⟩⟩⟩
  · rfl
  · by_cases ha : a = 48
    · subst ha
      rfl
    · simpa [simpleStrtoul, ha] using strtoulDigits_nul 10 [a] x 0
  · by_cases ha : a = 48
    · subst ha
      by_cases hb : b = 120
      · subst hb
        simpa [simpleStrtoul, h0] using strtoulDigits_nul 10 [120] x 0
      · simpa [simpleStrtoul, hb] using strtoulDigits_nul 10 [b] x 0
    · simpa [simpleStrtoul, ha] using strtoulDigits_nul 10 [a, b] x 0
  · by_cases ha : a = 48
    · subst ha
      by_cases hb : b = 120
      · subst hb
        rw [List.cons_append, List.cons_append, List.cons_append, simpleStrtoul, simpleStrtoul]
        cases isxdigit d with
        | true => exact strtoulDigits_nul 16 (d :: cp) x 0
        | false => exact strtoulDigits_nul 10 (120 :: d :: cp) x 0
      · simpa [simpleStrtoul, hb] using strtoulDigits_nul 10 (b :: d :: cp) x 0
    · simpa [simpleStrtoul, ha] using strtoulDigits_nul 10 (a :: b :: d :: cp) x 0

/-- The value fits into the buffer with both NULs, or it has none there and with what follows the
buffer it reads as the same number. -/
def BoardCfg.PramReads (c : BoardCfg) (es : List Entry) (stack : List UInt8) : Prop :=
  c.pram.isSome → ∀ e, es.find? (fun e => e.key = keyOf pramName.bytes) = some e →
    e.val.length + 1 < 64 ∨ (64 ≤ e.val.length ∧ kbOf (e.val.take 64 ++ stack) = kbOf e.val)

theorem pramSize_some {pram : UInt32} {e : Entry} (henv : Holds env es) (hc : c.pram = some pram)
    (hf : es.find? (fun e => e.key = keyOf pramName.bytes) = some e) :
    c.pramSize env stack = if 64 < (stored 64 e.val).length then .error .write
      else .ok (kbOf (stored 64 e.val ++ stack)) := by
  rw [BoardCfg.pramSize, hc]
  have hpos : 0 < min e.val.length 64 + 1 := Nat.succ_pos _
  simp only [getenvR_some henv hf, bind, Except.bind, if_pos hpos]
  split_ifs <;> rfl

theorem pramSize_iff (henv : Holds env es) :
    c.pramSize env stack = .ok (c.pramKb es) ↔ c.PramReads es stack := by
  unfold BoardCfg.pramKb BoardCfg.PramReads
  cases hc : c.pram with
  | none =>
    refine iff_of_true ?_ fun h => by cases h
    rw [BoardCfg.pramSize, hc]
  | some pram =>
    cases hf : es.find? fun e => e.key = keyOf pramName.bytes with
    | none =>
      refine iff_of_true ?_ fun _ e he => by cases he
      rw [BoardCfg.pramSize, hc]
      simp only [getenvR_none henv hf]
      rfl
    | some e =>
      rw [pramSize_some henv hc hf]
      simp only [Option.isSome_some, Option.some.injEq, forall_eq', forall_const]
      -- the second NUL is stored for 63 characters only
      rcases Nat.lt_trichotomy (e.val.length + 1) 64 with hlt | heq | hgt
      · have hx : stored 64 e.val = e.val ++ [0] := by
          rw [stored, if_pos (by omega), if_neg (by omega), List.append_nil]
        refine iff_of_true ?_ (.inl hlt)
        rw [hx, if_neg (by rw [List.length_append, List.length_singleton]; omega),
          List.append_assoc, List.singleton_append, kbOf, kbOf, simpleStrtoul_nul]
      · have hx : stored 64 e.val = e.val ++ [0] ++ [0] := by
          rw [stored, if_pos (by omega), if_pos heq]
        refine iff_of_false ?_ (by omega)
        rw [if_pos (by rw [hx]; simp only [List.length_append, List.length_singleton]; omega)]
        exact fun h => by cases h
      · have hx : stored 64 e.val = e.val.take 64 := by rw [stored, if_neg (by omega)]
        rw [hx, if_neg (by rw [List.length_take]; omega), Except.ok.injEq,
          or_iff_right (by omega), and_iff_right (by omega)]

theorem ramTop_big (hv : c.veryBigRam = true) (hbase : c.sdramBase.toNat < 2 ^ 28) :
    (c.ramTop ramSize).toNat =
      if c.sdramBase = 0 then min (2 ^ 28) ramSize.toNat else 2 ^ 28 := by
  have hmax : ((256 : UInt32) <<< 20).toNat = 2 ^ 28 := rfl
  rw [BoardCfg.ramTop, if_pos hv]
  dsimp only
  by_cases h0 : c.sdramBase = 0
  · rw [if_pos h0, h0]
    by_cases hlt : (256 : UInt32) <<< 20 < ramSize
    · have hlt' := UInt32.lt_iff_toNat_lt.mp hlt
      rw [if_pos hlt, if_pos (by decide), hmax, Nat.min_eq_left (by omega)]
    · have hle := UInt32.le_iff_toNat_le.mp (UInt32.not_lt.mp hlt)
      rw [if_neg hlt, if_neg (by decide), Nat.min_eq_right (by omega)]
  · have hpos : 0 < c.sdramBase.toNat := Nat.pos_of_ne_zero fun h => h0 (UInt32.toNat_inj.mp h)
    have hcond : c.sdramBase + (if (256 : UInt32) <<< 20 < ramSize then 1 else 0) ≠ 0 := by
      intro h
      have hsum := congrArg UInt32.toNat h
      rw [UInt32.toNat_add] at hsum
      split_ifs at hsum
      · have h1 : (1 : UInt32).toNat = 1 := rfl
        rw [h1, UInt32.toNat_zero] at hsum
        omega
      · rw [UInt32.toNat_zero] at hsum
        omega
    rw [if_neg h0, if_pos hcond, hmax]

theorem Fits.base_lt (hfits : c.Fits ramSize es) : c.sdramBase.toNat < c.ramEnd ramSize := by
  rw [BoardCfg.Fits] at hfits
  have hbase : c.sdramBase.toNat ≤ _ := le_alignUp (p := 4096) (by omega)
  have hrest : c.totalMallocLen.toNat + c.sizeofBd.toNat + c.sizeofGd.toNat + (16 + 15 + 8) ≤ _ :=
    le_alignUp (p := 4096) (by omega)
  have hend := Nat.div_mul_le_self (c.ramEnd ramSize) 4096
  omega

/-- The top is in RAM when it does not come from the condition and does not wrap. -/
theorem ramTop_iff (hbase : c.sdramBase.toNat < c.ramEnd ramSize) :
    (c.ramTop ramSize).toNat = c.ramEnd ramSize ↔
      (c.veryBigRam = true →
        c.sdramBase = 0 ∨ 2 ^ 28 ≤ c.sdramBase.toNat + ramSize.toNat) ∧
      (c.veryBigRam = false → c.sdramBase.toNat + ramSize.toNat < 2 ^ 32) := by
  have hsize := ramSize.toNat_lt
  rw [BoardCfg.ramEnd] at hbase ⊢
  cases hv : c.veryBigRam with
  | true =>
    rw [hv, if_pos rfl] at hbase
    rw [if_pos rfl, ramTop_big hv (by omega)]
    simp only [forall_const, Bool.true_eq_false, false_implies, and_true]
    by_cases h0 : c.sdramBase = 0
    · have hzero : c.sdramBase.toNat = 0 := congrArg UInt32.toNat h0
      rw [if_pos h0, hzero, Nat.zero_add, Nat.min_comm]
      exact iff_of_true rfl (.inl h0)
    · rw [if_neg h0, or_iff_right h0]
      omega
  | false =>
    have htop : (c.ramTop ramSize).toNat =
        (c.sdramBase.toNat + ramSize.toNat) % 2 ^ 32 := by
      rw [BoardCfg.ramTop, if_neg (by rw [hv]; exact Bool.false_ne_true), UInt32.toNat_add]
    rw [if_neg Bool.false_ne_true, htop]
    simp only [Bool.false_eq_true, false_implies, true_and, forall_const]
    omega

theorem ramTop_eq (hbase : c.sdramBase.toNat < c.ramEnd ramSize)
    (hle : (c.ramTop ramSize).toNat ≤ c.ramEnd ramSize)
    (hlt : c.sdramBase.toNat < (c.ramTop ramSize).toNat) :
    (c.ramTop ramSize).toNat = c.ramEnd ramSize := by
  rw [ramTop_iff hbase]
  have hsize := ramSize.toNat_lt
  rw [BoardCfg.ramEnd] at hbase hle
  refine ⟨fun hv => ?_, fun hv => ?_⟩
  · rw [if_pos hv] at hbase hle
    rw [ramTop_big hv (by omega)] at hle
    by_cases h0 : c.sdramBase = 0
    · exact .inl h0
    · rw [if_neg h0] at hle
      exact .inr (by omega)
  · have hnot : ¬ c.veryBigRam = true := by
      rw [hv]
      exact Bool.false_ne_true
    rw [BoardCfg.ramTop, if_neg hnot, UInt32.toNat_add] at hlt
    omega

theorem Layout.base_lt_top {l : MemMap} (h : Layout c ramSize es l) {w : UInt32}
    (hw : w ∈ l.frame) : c.sdramBase.toNat < l.top.toNat := by
  obtain ⟨hlow, hhigh⟩ := h.frame w hw
  have hbase := h.base
  have hid := h.id
  have hbd := h.bd
  have hmalloc := h.malloc
  have hmonitor := h.monitor
  have hprot := h.prot
  omega

/-- **The memory map of `board_init_f`** is right, for sizes that fit, just if the sum of base and
size of the RAM is not taken for a condition, or is 256 MB at least, or without
`CONFIG_VERY_BIG_RAM` if it does not wrap; and if the size of the protected RAM was read whole. -/
theorem board_init_f_layout (henv : Holds env es) (hlen : endaddr - c.monitorBase ≤ c.monitorLen)
    (hfits : c.Fits ramSize es) :
    (∃ l, boardInitF c endaddr ramSize env stack = .ok (some l) ∧ Layout c ramSize es l) ↔
      (c.veryBigRam = true →
        c.sdramBase = 0 ∨ 2 ^ 28 ≤ c.sdramBase.toNat + ramSize.toNat) ∧
      (c.veryBigRam = false → c.sdramBase.toNat + ramSize.toNat < 2 ^ 32) ∧
      c.PramReads es stack := by
  have hinit : boardInitF c endaddr ramSize env stack = c.pramSize env stack >>= fun reg =>
      .ok (some (c.reserve (c.ramTop ramSize) reg c.monitorLen)) := by
    have hnot : ¬ c.monitorLen < endaddr - c.monitorBase := UInt32.not_lt.mpr hlen
    have hmax : (if endaddr - c.monitorBase < c.monitorLen then c.monitorLen
        else endaddr - c.monitorBase) = c.monitorLen := by
      split_ifs with hlt
      · rfl
      · exact UInt32.le_antisymm hlen (UInt32.not_lt.mp hlt)
    rw [boardInitF]
    dsimp only
    rw [if_neg hnot, hmax]
    rfl
  rw [← and_assoc, ← ramTop_iff (Fits.base_lt hfits), ← pramSize_iff henv]
  refine ⟨fun ⟨l, hl, hlayout⟩ => ?_, fun ⟨htop, hreg⟩ => ?_⟩
  · obtain ⟨reg, hreg, hl⟩ := ok_of_bind (hinit.symm.trans hl)
    obtain rfl := Option.some.inj (Except.ok.inj hl)
    have hkb : reg = c.pramKb es := hlayout.reg
    exact ⟨ramTop_eq (Fits.base_lt hfits) hlayout.top
      (hlayout.base_lt_top (List.mem_cons_self ..)), hkb ▸ hreg⟩
  · exact ⟨_, by rw [hinit, hreg]; rfl, reserve_layout hfits htop⟩

/-- A monitor of 256 kB in flash, with its environment behind it. -/
def board (sdramBase : UInt32) (veryBigRam : Bool) (n : ℕ) : BoardCfg where
  sdramBase := sdramBase
  monitorBase := 0xfff00000
  monitorLen := 0x40000
  mallocLen := 0x20000
  env := .plain n
  envAddr := 0xfff40000
  envIsInNvram := false
  veryBigRam := veryBigRam
  pram := some 16
  sizeofBd := 80
  sizeofGd := 40

/-- 16 MB from 0 on, 8 kB of them protected by `pram=8`. -/
theorem board_init_f_sample : ∃ l,
    boardInitF (board 0 false 8) 0xfff20000 0x1000000
      ⟨[112, 114, 97, 109, 61, 56, 0, 0], rfl⟩ [] = .ok (some l) ∧
    Layout (board 0 false 8) 0x1000000
      [.ofBytes [112, 114, 97, 109, 61, 56] (by decide)] l :=
  (board_init_f_layout ⟨[], rfl⟩ (by decide) (by rw [BoardCfg.Fits]; decide)).mpr
    ⟨(fun h => by cases h), (fun _ => by decide), fun _ e he => .inl (by cases he; decide)⟩

/-- 32 MB from 64 MB on: with `CONFIG_VERY_BIG_RAM` the reservations start at 256 MB. -/
theorem very_big_ram_top :
    (board 0x4000000 true 2).Fits 0x2000000 [] ∧
    (board 0x4000000 true 2).ramTop 0x2000000 = 0x10000000 ∧
    (board 0x4000000 true 2).ramEnd 0x2000000 = 0x6000000 ∧
    ¬ ∃ l, boardInitF (board 0x4000000 true 2) 0xfff20000 0x2000000 ⟨[0, 0], rfl⟩ [] =
        .ok (some l) ∧ Layout (board 0x4000000 true 2) 0x2000000 [] l := by
  refine ⟨by rw [BoardCfg.Fits]; decide, rfl, rfl, fun ⟨l, hl, hlayout⟩ => ?_⟩
  obtain rfl := Option.some.inj (Except.ok.inj hl)
  exact absurd hlayout.top (by decide)

end UBoot.Boot
