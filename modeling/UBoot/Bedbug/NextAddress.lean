import UBoot.Bedbug.Opcodes

/-!
# Where the debugger stops next (`find_next_address`, `common/bedbug.c`)

`findNextAddress` against the branches of the processor: it is right unless the word is not in the
table, BO has no case, or a branch leads to a register with one of its low two bits set.
-/

namespace UBoot.Bedbug

open Lib Lib.PowerPC

/-- `struct pt_regs`, what is read of it. -/
structure PtRegs where
  nip : Word
  ctr : Word
  ccr : Word
  link : Word

/-- What the `switch` on the opcode leaves of a branch. -/
structure Operands where
  addr : Word
  aa : Word
  lk : Word
  bo : Word
  bi : Word
  conditional : Bool
  deriving DecidableEq

/-- `addr`, a signed field of `n` bits, times 4. -/
def signShift (n : ℕ) (addr : Word) : Word :=
  (if addr &&& 1#32 <<< (n - 1) ≠ 0 then addr - 1#32 <<< n else addr) <<< 2

/-- The `switch` on the opcode: `none` where an operand is missing, `some none` by default. -/
def operands (op : Opcode) (instr : Word) (regs : PtRegs) : Option (Option Operands) :=
  if op.opcode ∈ [bOpcode 16 0 0, bOpcode 16 0 1, bOpcode 16 1 0, bOpcode 16 1 1] then do
    let addr ← getOperandValue op instr .bd
    let bo ← getOperandValue op instr .bo
    let bi ← getOperandValue op instr .bi
    let aa ← getOperandValue op instr .aa
    let lk ← getOperandValue op instr .lk
    pure (some ⟨signShift 14 addr, aa, lk, bo, bi, true⟩)
  else if op.opcode ∈ [iOpcode 18 0 0, iOpcode 18 0 1, iOpcode 18 1 0, iOpcode 18 1 1] then do
    let addr ← getOperandValue op instr .li
    let aa ← getOperandValue op instr .aa
    let lk ← getOperandValue op instr .lk
    pure (some ⟨signShift 24 addr, aa, lk, 0, 0, false⟩)
  else if op.opcode ∈ [xlOpcode 19 528 0, xlOpcode 19 528 1] then do
    let bo ← getOperandValue op instr .bo
    let bi ← getOperandValue op instr .bi
    let lk ← getOperandValue op instr .lk
    pure (some ⟨regs.ctr, 1, lk, bo, bi, true⟩)
  else if op.opcode ∈ [xlOpcode 19 16 0, xlOpcode 19 16 1] then do
    let bo ← getOperandValue op instr .bo
    let bi ← getOperandValue op instr .bi
    let lk ← getOperandValue op instr .lk
    pure (some ⟨regs.link, 1, lk, bo, bi, true⟩)
  else
    some none

/-- The `switch` on BO: `ctr_ok` and `cond_ok`. -/
def branchOk (bo bi ctr cr : Word) : Bool × Bool :=
  let set : Bool := cr &&& 1#32 <<< (31 - bi.toNat) ≠ 0
  match ((bo &&& 0x1e) >>> 1).toNat with
  | 0 => (ctr - 1 ≠ 0, !set)
  | 1 => (ctr - 1 = 0, !set)
  | 2 => (true, !set)
  | 4 => (ctr - 1 ≠ 0, set)
  | 5 => (ctr - 1 = 0, set)
  | 6 => (true, set)
  | 8 => (ctr - 1 ≠ 0, ctr - 1 ≠ 0)
  | 9 => (ctr - 1 = 0, ctr - 1 = 0)
  | 10 => (true, true)
  | _ => (false, false)

/-- `find_next_address`, over the words of the memory; `none` for FALSE. -/
def findNextAddress (mem : Word → Word) (stepOver : Bool) (regs : PtRegs) : Option Word :=
  let pc := regs.nip &&& 0xfffffffc
  let instr := mem pc
  match findOpcode instr with
  | none => none
  | some op =>
    match operands op instr regs with
    | none => none
    | some none => some (pc + 4)
    | some (some x) =>
      let ok := branchOk x.bo x.bi regs.ctr regs.ccr
      if x.conditional = false ∨ (ok.1 && ok.2) = true then
        let step := if x.aa ≠ 0 then x.addr else x.addr + pc
        let next := if x.lk ≠ 0 then pc + 4 else step
        some (if stepOver then next else step)
      else some (pc + 4)

/-! ### Fields -/

theorem signExtend_append_zero {n : ℕ} (v : BitVec (n + 1)) :
    (v ++ 0#2).signExtend 32 = BitVec.ofInt 32 (4 * v.toInt) := by
  simp only [BitVec.signExtend, BitVec.toInt_append]
  simp

theorem signShift_eq {n : ℕ} (v : BitVec (n + 1)) (hn : n < 32) :
    signShift (n + 1) (v.setWidth 32) = (v ++ 0#2).signExtend 32 := by
  have hsign : v.setWidth 32 &&& 1#32 <<< n ≠ 0 ↔ v.msb = true := by
    have hpow : BitVec.twoPow 32 n ≠ 0#32 := by
      intro h
      have hbit := congrArg (BitVec.getLsbD · n) h
      simp [hn] at hbit
    have hone : 1#32 <<< n = BitVec.twoPow 32 n := (BitVec.twoPow_eq 32 n).symm
    rw [hone, BitVec.and_twoPow, BitVec.msb_eq_getLsbD_last, BitVec.getLsbD_setWidth,
      decide_eq_true hn, Bool.true_and, Nat.add_sub_cancel]
    split_ifs with h
    · exact ⟨fun _ => h, fun _ => hpow⟩
    · exact ⟨fun h' => absurd rfl h', fun h' => absurd h' h⟩
  have hval : v.setWidth 32 = BitVec.ofInt 32 v.toNat := by
    rw [BitVec.ofInt_natCast, BitVec.ofNat_toNat]
  have hpow : 1#32 <<< (n + 1) = BitVec.ofInt 32 (2 ^ (n + 1) : ℕ) := by
    apply BitVec.eq_of_toNat_eq
    rw [BitVec.ofInt_natCast, BitVec.toNat_shiftLeft, BitVec.toNat_ofNat, Nat.shiftLeft_eq]
    exact congrArg (· % 2 ^ 32) (Nat.one_mul _)
  have hsub (a b : ℤ) : BitVec.ofInt 32 a - BitVec.ofInt 32 b = BitVec.ofInt 32 (a - b) := by
    rw [BitVec.sub_eq_add_neg, ← BitVec.ofInt_neg, ← BitVec.ofInt_add, Int.sub_eq_add_neg]
  have hshift (a : ℤ) : BitVec.ofInt 32 a <<< 2 = BitVec.ofInt 32 (4 * a) := by
    rw [BitVec.shiftLeft_eq_mul_twoPow, BitVec.ofInt_mul, BitVec.mul_comm]
    rfl
  unfold signShift
  rw [signExtend_append_zero, BitVec.toInt_eq_msb_cond, Nat.add_sub_cancel]
  by_cases h : v.msb = true
  · rw [if_pos (hsign.2 h), if_pos h, hval, hpow, hsub, hshift]
  · rw [if_neg (mt hsign.1 h), if_neg h, hval, hshift]

theorem getOperandValue_eq {op : Opcode} {field : Field} {s b : ℕ} (w : Word)
    (hfield : field ∈ op.fields) (hop : field.operand = (b, s)) (hb : b < 32) :
    getOperandValue op w field = some ((w.extractLsb' s b).setWidth 32) := by
  have hmask : (1#32 <<< b - 1).toNat = 2 ^ b - 1 := by
    have hlt : 2 ^ b < 2 ^ 32 := Nat.pow_lt_pow_right (by omega) hb
    have hle : 1 ≤ 2 ^ b := Nat.one_le_two_pow
    have hone : (1#32 <<< b).toNat = 2 ^ b := by
      rw [BitVec.toNat_shiftLeft, Nat.shiftLeft_eq]
      exact (congrArg (· % 2 ^ 32) (Nat.one_mul _)).trans (Nat.mod_eq_of_lt hlt)
    have hsub : 1#32 ≤ 1#32 <<< b := by
      rw [BitVec.le_def, hone]
      exact hle
    exact (BitVec.toNat_sub_of_le hsub).trans (congrArg (· - 1) hone)
  unfold getOperandValue
  rw [if_pos hfield, hop]
  refine congrArg some (BitVec.eq_of_toNat_eq ?_)
  rw [BitVec.toNat_and, hmask, BitVec.toNat_ushiftRight, BitVec.toNat_setWidth,
    BitVec.extractLsb'_toNat, Nat.and_two_pow_sub_one_eq_mod]
  have hlt : w.toNat >>> s % 2 ^ b < 2 ^ 32 :=
    Nat.lt_trans (Nat.mod_lt _ (Nat.two_pow_pos b)) (Nat.pow_lt_pow_right (by omega) hb)
  exact (Nat.mod_eq_of_lt hlt).symm

theorem bit_ne_zero (w : Word) (n : ℕ) :
    (w.extractLsb' n 1).setWidth 32 ≠ 0 ↔ w.getLsbD n = true := by
  rw [ne_eq, ← BitVec.toNat_inj, BitVec.toNat_setWidth, BitVec.extractLsb'_toNat, BitVec.getLsbD,
    Nat.testBit_eq_decide_div_mod_eq, Nat.shiftRight_eq_div_pow, decide_eq_true_iff]
  change ¬ w.toNat / 2 ^ n % 2 ^ 1 % 2 ^ 32 = 0 ↔ _
  omega

/-! ### The `switch` on BO -/

def HasCase (bo : BitVec 5) : Prop := (bo >>> 1).toNat ∈ [0, 1, 2, 4, 5, 6, 8, 9, 10]

instance decHasCase (bo : BitVec 5) : Decidable (HasCase bo) :=
  inferInstanceAs (Decidable (_ ∈ _))

theorem branchOk_eq (v : BitVec 5) (bi ctr cr : Word) :
    ((branchOk (v.setWidth 32) bi ctr cr).1 && (branchOk (v.setWidth 32) bi ctr cr).2) =
      (decide (HasCase v) && ((v.getLsbD 2 || ((ctr - 1 != 0) ^^ v.getLsbD 1)) &&
        (v.getLsbD 4 || (decide (cr &&& 1#32 <<< (31 - bi.toNat) ≠ 0) == v.getLsbD 3)))) := by
  have hne : decide (ctr - 1 ≠ 0) = !decide (ctr - 1 = 0) := decide_not
  have hbne : (ctr - 1 != 0) = !decide (ctr - 1 = 0) := rfl
  simp only [branchOk, hne, hbne]
  generalize decide (cr &&& 1#32 <<< (31 - bi.toNat) ≠ 0) = set
  generalize decide (ctr - 1 = 0) = zero
  revert v set zero
  decide

/-! ### The operands of each kind of branch -/

theorem xo_and (w m : Word) : xo (w &&& m) = xo w &&& xo m := BitVec.extractLsb'_and

section
variable {w : Word} {op : Opcode} (regs : PtRegs)

set_option maxRecDepth 4000 in
/-- What the table has for `bc`: how the cases of the decoder tell it apart, and the bits that are
compared. -/
theorem bc_entries : ∀ p ∈ opcodes, opcd p.opcode = 16 →
    p.opcode ∈ [bOpcode 16 0 0, bOpcode 16 0 1, bOpcode 16 1 0, bOpcode 16 1 1] ∧
      p.fields = [.bo, .bi, .bd, .aa, .lk] ∧ bMask &&& p.mask = p.mask := by
  decide

set_option maxRecDepth 4000 in
theorem b_entries : ∀ p ∈ opcodes, opcd p.opcode = 18 →
    p.opcode ∉ [bOpcode 16 0 0, bOpcode 16 0 1, bOpcode 16 1 0, bOpcode 16 1 1] ∧
      p.opcode ∈ [iOpcode 18 0 0, iOpcode 18 0 1, iOpcode 18 1 0, iOpcode 18 1 1] ∧
        p.fields = [.li, .aa, .lk] ∧ bMask &&& p.mask = p.mask := by
  decide

set_option maxRecDepth 4000 in
theorem xl_entries : ∀ p ∈ opcodes, opcd p.opcode = 19 →
    p.opcode ∉ [bOpcode 16 0 0, bOpcode 16 0 1, bOpcode 16 1 0, bOpcode 16 1 1] ∧
      p.opcode ∉ [iOpcode 18 0 0, iOpcode 18 0 1, iOpcode 18 1 0, iOpcode 18 1 1] ∧
        xo p.mask = 1023#10 ∧ xlMask &&& p.mask = p.mask ∧
          (xo p.opcode = 528 → p.opcode ∈ [xlOpcode 19 528 0, xlOpcode 19 528 1] ∧
            p.fields = [.bo, .bi, .lk]) ∧
          (xo p.opcode = 16 → p.opcode ∉ [xlOpcode 19 528 0, xlOpcode 19 528 1] ∧
            p.opcode ∈ [xlOpcode 19 16 0, xlOpcode 19 16 1] ∧ p.fields = [.bo, .bi, .lk]) := by
  decide

theorem xo_opcode (hmem : op ∈ opcodes) (h : w &&& op.mask = op.opcode) (h19 : opcd w = 19) :
    xo op.opcode = xo w := by
  obtain ⟨-, -, hmask, -⟩ := xl_entries op hmem (by rw [opcd_opcode hmem h, h19])
  have hones : ∀ v : BitVec 10, v &&& 1023#10 = v := by decide
  rw [← h, xo_and, hmask, hones]

theorem operands_bc (hop : findOpcode w = some op) (hk : kind w = .bc) :
    operands op w regs = some (some ⟨(bd w ++ 0#2).signExtend 32, (w.extractLsb' 1 1).setWidth 32,
      (w.extractLsb' 0 1).setWidth 32, (bo w).setWidth 32, (bi w).setWidth 32, true⟩) := by
  obtain ⟨hmem, hmatch⟩ := findFrom_eq_some hop
  obtain ⟨hcase, hfields, -⟩ :=
    bc_entries op hmem ((opcd_opcode hmem hmatch).trans ((kind_eq_bc w).1 hk))
  unfold operands
  rw [if_pos hcase, getOperandValue_eq w (by simp [hfields]) rfl (by decide),
    getOperandValue_eq w (by simp [hfields]) rfl (by decide),
    getOperandValue_eq w (by simp [hfields]) rfl (by decide),
    getOperandValue_eq w (by simp [hfields]) rfl (by decide),
    getOperandValue_eq w (by simp [hfields]) rfl (by decide)]
  exact congrArg (fun a => some (some (Operands.mk a _ _ _ _ _))) (signShift_eq (bd w) (by decide))

theorem operands_b (hop : findOpcode w = some op) (hk : kind w = .b) :
    operands op w regs = some (some ⟨(li w ++ 0#2).signExtend 32, (w.extractLsb' 1 1).setWidth 32,
      (w.extractLsb' 0 1).setWidth 32, 0, 0, false⟩) := by
  obtain ⟨hmem, hmatch⟩ := findFrom_eq_some hop
  obtain ⟨hbc, hcase, hfields, -⟩ :=
    b_entries op hmem ((opcd_opcode hmem hmatch).trans ((kind_eq_b w).1 hk))
  unfold operands
  rw [if_neg hbc, if_pos hcase, getOperandValue_eq w (by simp [hfields]) rfl (by decide),
    getOperandValue_eq w (by simp [hfields]) rfl (by decide),
    getOperandValue_eq w (by simp [hfields]) rfl (by decide)]
  exact congrArg (fun a => some (some (Operands.mk a _ _ _ _ _))) (signShift_eq (li w) (by decide))

theorem operands_bcctr (hop : findOpcode w = some op) (hk : kind w = .bcctr) :
    operands op w regs = some (some ⟨regs.ctr, 1, (w.extractLsb' 0 1).setWidth 32,
      (bo w).setWidth 32, (bi w).setWidth 32, true⟩) := by
  obtain ⟨hmem, hmatch⟩ := findFrom_eq_some hop
  obtain ⟨h19, hxo⟩ := (kind_eq_bcctr w).1 hk
  obtain ⟨hbc, hb, -, -, hbcctr, -⟩ :=
    xl_entries op hmem ((opcd_opcode hmem hmatch).trans h19)
  obtain ⟨hcase, hfields⟩ := hbcctr ((xo_opcode hmem hmatch h19).trans hxo)
  unfold operands
  rw [if_neg hbc, if_neg hb, if_pos hcase,
    getOperandValue_eq w (by simp [hfields]) rfl (by decide),
    getOperandValue_eq w (by simp [hfields]) rfl (by decide),
    getOperandValue_eq w (by simp [hfields]) rfl (by decide)]
  rfl

theorem operands_bclr (hop : findOpcode w = some op) (hk : kind w = .bclr) :
    operands op w regs = some (some ⟨regs.link, 1, (w.extractLsb' 0 1).setWidth 32,
      (bo w).setWidth 32, (bi w).setWidth 32, true⟩) := by
  obtain ⟨hmem, hmatch⟩ := findFrom_eq_some hop
  obtain ⟨h19, hxo⟩ := (kind_eq_bclr w).1 hk
  obtain ⟨hbc, hb, -, -, -, hbclr⟩ :=
    xl_entries op hmem ((opcd_opcode hmem hmatch).trans h19)
  obtain ⟨hcctr, hcase, hfields⟩ := hbclr ((xo_opcode hmem hmatch h19).trans hxo)
  unfold operands
  rw [if_neg hbc, if_neg hb, if_neg hcctr, if_pos hcase,
    getOperandValue_eq w (by simp [hfields]) rfl (by decide),
    getOperandValue_eq w (by simp [hfields]) rfl (by decide),
    getOperandValue_eq w (by simp [hfields]) rfl (by decide)]
  rfl

theorem operands_other (hop : findOpcode w = some op) (hk : kind w = .other) :
    operands op w regs = some none := by
  obtain ⟨hmem, hmatch⟩ := findFrom_eq_some hop
  have hopcd := opcd_opcode hmem hmatch
  have hno : kind w ≠ .bc ∧ kind w ≠ .b ∧ kind w ≠ .bcctr ∧ kind w ≠ .bclr := by
    rw [hk]
    decide
  rw [ne_eq, ne_eq, ne_eq, ne_eq, kind_eq_bc, kind_eq_b, kind_eq_bcctr, kind_eq_bclr] at hno
  obtain ⟨hno_bc, hno_b, hno_cctr, hno_clr⟩ := hno
  have hbc : op.opcode ∉ [bOpcode 16 0 0, bOpcode 16 0 1, bOpcode 16 1 0, bOpcode 16 1 1] := by
    have hall : [bOpcode 16 0 0, bOpcode 16 0 1, bOpcode 16 1 0, bOpcode 16 1 1].all
        (opcd · = 16) = true := by decide
    intro h
    exact hno_bc (hopcd.symm.trans (of_decide_eq_true (List.all_eq_true.1 hall _ h)))
  have hb : op.opcode ∉ [iOpcode 18 0 0, iOpcode 18 0 1, iOpcode 18 1 0, iOpcode 18 1 1] := by
    have hall : [iOpcode 18 0 0, iOpcode 18 0 1, iOpcode 18 1 0, iOpcode 18 1 1].all
        (opcd · = 18) = true := by decide
    intro h
    exact hno_b (hopcd.symm.trans (of_decide_eq_true (List.all_eq_true.1 hall _ h)))
  have hcctr : op.opcode ∉ [xlOpcode 19 528 0, xlOpcode 19 528 1] := by
    have hall : [xlOpcode 19 528 0, xlOpcode 19 528 1].all
        (fun o => opcd o = 19 ∧ xo o = 528) = true := by decide
    intro h
    obtain ⟨h19, hxo⟩ := of_decide_eq_true (List.all_eq_true.1 hall _ h)
    have hw := hopcd.symm.trans h19
    exact hno_cctr ⟨hw, (xo_opcode hmem hmatch hw).symm.trans hxo⟩
  have hclr : op.opcode ∉ [xlOpcode 19 16 0, xlOpcode 19 16 1] := by
    have hall : [xlOpcode 19 16 0, xlOpcode 19 16 1].all
        (fun o => opcd o = 19 ∧ xo o = 16) = true := by decide
    intro h
    obtain ⟨h19, hxo⟩ := of_decide_eq_true (List.all_eq_true.1 hall _ h)
    have hw := hopcd.symm.trans h19
    exact hno_clr ⟨hw, (xo_opcode hmem hmatch hw).symm.trans hxo⟩
  unfold operands
  rw [if_neg hbc, if_neg hb, if_neg hcctr, if_neg hclr]

end

/-! ### The branches are in the table -/

theorem and_bMask (w : Word) : w &&& bMask = opcd w ++ (0#24 ++ w.extractLsb' 0 2) := by
  have hmask : ∀ i < 32, bMask.getLsbD i = (decide (i < 2) || decide (26 ≤ i)) := by
    decide
  refine BitVec.eq_of_getLsbD_eq fun i hi => ?_
  rw [BitVec.getLsbD_and, hmask i hi, BitVec.getLsbD_append, BitVec.getLsbD_append, opcd]
  simp only [BitVec.getLsbD_extractLsb', BitVec.getLsbD_zero]
  grind

theorem and_xlMask (w : Word) :
    w &&& xlMask = opcd w ++ (0#15 ++ (xo w ++ w.extractLsb' 0 1)) := by
  have hmask : ∀ i < 32, xlMask.getLsbD i = (decide (i < 11) || decide (26 ≤ i)) := by
    decide
  refine BitVec.eq_of_getLsbD_eq fun i hi => ?_
  rw [BitVec.getLsbD_and, hmask i hi, BitVec.getLsbD_append, BitVec.getLsbD_append,
    BitVec.getLsbD_append, opcd, xo]
  simp only [BitVec.getLsbD_extractLsb', BitVec.getLsbD_zero]
  grind

set_option maxRecDepth 4000 in
/-- The search in the words that have the bits of a branch and no others. -/
theorem found_bare :
    (∀ v : BitVec 2, (findOpcode (16#6 ++ (0#24 ++ v))).isSome = true ∧
      (findOpcode (18#6 ++ (0#24 ++ v))).isSome = true) ∧
    ∀ v : BitVec 1, (findOpcode (19#6 ++ (0#15 ++ (16#10 ++ v)))).isSome = true ∧
      (findOpcode (19#6 ++ (0#15 ++ (528#10 ++ v)))).isSome = true := by
  decide

theorem found_of_kind {w : Word} (hk : kind w ≠ .other) : (findOpcode w).isSome = true := by
  have hb (h : opcd w = 16 ∨ opcd w = 18) : (findOpcode w).isSome = true := by
    have hones : opcd bMask = 63#6 := by decide
    have hand : findOpcode w = findOpcode (w &&& bMask) := by
      refine findOpcode_and hones fun p hp hopcd => ?_
      rcases h with h | h
      · exact (bc_entries p hp (hopcd.trans h)).2.2
      · exact (b_entries p hp (hopcd.trans h)).2.2.2
    rw [hand, and_bMask]
    rcases h with h | h <;> rw [h]
    · exact (found_bare.1 _).1
    · exact (found_bare.1 _).2
  have hxl (h : opcd w = 19) (hxo : xo w = 16 ∨ xo w = 528) : (findOpcode w).isSome = true := by
    have hones : opcd xlMask = 63#6 := by decide
    have hand : findOpcode w = findOpcode (w &&& xlMask) :=
      findOpcode_and hones fun p hp hopcd =>
        (xl_entries p hp (hopcd.trans h)).2.2.2.1
    rw [hand, and_xlMask, h]
    rcases hxo with hxo | hxo <;> rw [hxo]
    · exact (found_bare.2 _).1
    · exact (found_bare.2 _).2
  cases h : kind w with
  | b => exact hb (.inr ((kind_eq_b w).1 h))
  | bc => exact hb (.inl ((kind_eq_bc w).1 h))
  | bclr => exact hxl ((kind_eq_bclr w).1 h).1 (.inl ((kind_eq_bclr w).1 h).2)
  | bcctr => exact hxl ((kind_eq_bcctr w).1 h).1 (.inr ((kind_eq_bcctr w).1 h).2)
  | other => exact absurd h hk

/-! ### Against the processor -/

/-- What the processor's branches read of the saved registers. -/
def PtRegs.regs (regs : PtRegs) : Regs := ⟨regs.nip &&& 0xfffffffc, regs.ccr, regs.ctr, regs.link⟩

theorem PtRegs.cia_regs (regs : PtRegs) : regs.nip &&& 0xfffffffc = regs.regs.cia := by
  simp only [PtRegs.regs]

/-- Where the debugger thinks that a taken branch leads to. -/
def leads (i : Word) (r : Regs) : Word :=
  match kind i with
  | .bclr => if HasCase (bo i) then r.lr else r.cia + 4
  | .bcctr => if HasCase (bo i) then r.ctr else r.cia + 4
  | .bc => if HasCase (bo i) then target i r else r.cia + 4
  | _ => target i r

/-- `find_next_address` answers with an address at which the processor goes on. -/
def Predicts (mem : Word → Word) (stepOver : Bool) (regs : PtRegs) : Prop :=
  ∃ a, findNextAddress mem stepOver regs = some a ∧
    GoesOn (mem regs.regs.cia) regs.regs stepOver a

theorem branchOk_field (w : Word) (r : Regs) :
    ((branchOk ((bo w).setWidth 32) ((bi w).setWidth 32) r.ctr r.cr).1 &&
      (branchOk ((bo w).setWidth 32) ((bi w).setWidth 32) r.ctr r.cr).2) =
        (decide (HasCase (bo w)) && (ctrOk w r && condOk w r)) := by
  have hlt := (bi w).isLt
  have hbi : ((bi w).setWidth 32).toNat = (bi w).toNat := by
    rw [BitVec.toNat_setWidth, Nat.mod_eq_of_lt (by omega)]
  have hset (n : ℕ) (hn : n < 32) : decide (r.cr &&& 1#32 <<< n ≠ 0) = r.cr.getLsbD n := by
    have hpow : BitVec.twoPow 32 n ≠ 0#32 := by
      intro h
      have hbit := congrArg (BitVec.getLsbD · n) h
      simp [hn] at hbit
    rw [← BitVec.twoPow_eq, BitVec.and_twoPow]
    split_ifs with h
    · rw [h]
      exact decide_eq_true hpow
    · rw [Bool.not_eq_true] at h
      rw [h]
      exact decide_eq_false (fun h' => h' rfl)
  rw [branchOk_eq, hbi, hset _ (by omega)]
  rfl

/-- Of a branch: the decision of the debugger, whose `switch` on BO may have no case. -/
theorem findNextAddress_branch {mem : Word → Word} {regs : PtRegs} {pc : Word} {op : Opcode}
    {x : Operands} (stepOver : Bool) (hpc : regs.nip &&& 0xfffffffc = pc)
    (hop : findOpcode (mem pc) = some op) (hx : operands op (mem pc) regs = some (some x))
    {c : Prop} [Decidable c]
    (hcase : (x.conditional = false ∨ ((branchOk x.bo x.bi regs.ctr regs.ccr).1 &&
      (branchOk x.bo x.bi regs.ctr regs.ccr).2) = true) ↔ c ∧ taken (mem pc) regs.regs = true)
    (hlk : x.lk ≠ 0 ↔ Calls (mem pc)) :
    findNextAddress mem stepOver regs = some
      (if taken (mem pc) regs.regs = true then
        if stepOver = true ∧ Calls (mem pc) then pc + 4
        else if c then (if x.aa ≠ 0 then x.addr else x.addr + pc)
        else pc + 4
      else pc + 4) := by
  unfold findNextAddress
  rw [hpc]
  simp only [hop, hx, hcase, hlk]
  clear hpc hop hx hcase hlk
  split_ifs <;> simp_all

theorem findNextAddress_none {mem : Word → Word} {regs : PtRegs} {pc : Word} (stepOver : Bool)
    (hpc : regs.nip &&& 0xfffffffc = pc) (hop : findOpcode (mem pc) = none) :
    findNextAddress mem stepOver regs = none := by
  unfold findNextAddress
  rw [hpc]
  simp only [hop]

theorem findNextAddress_other {mem : Word → Word} {regs : PtRegs} {pc : Word} {op : Opcode}
    (stepOver : Bool) (hpc : regs.nip &&& 0xfffffffc = pc) (hop : findOpcode (mem pc) = some op)
    (hx : operands op (mem pc) regs = some none) :
    findNextAddress mem stepOver regs = some (pc + 4) := by
  unfold findNextAddress
  rw [hpc]
  simp only [hop, hx]

theorem findNextAddress_eq (mem : Word → Word) (stepOver : Bool) (regs : PtRegs)
    (hop : (findOpcode (mem regs.regs.cia)).isSome = true) :
    findNextAddress mem stepOver regs = some
      (if taken (mem regs.regs.cia) regs.regs = true then
        if stepOver = true ∧ Calls (mem regs.regs.cia) then regs.regs.cia + 4
        else leads (mem regs.regs.cia) regs.regs
      else regs.regs.cia + 4) := by
  obtain ⟨op, hop⟩ := Option.isSome_iff_exists.1 hop
  have hcase (htaken : taken (mem regs.regs.cia) regs.regs =
      (ctrOk (mem regs.regs.cia) regs.regs && condOk (mem regs.regs.cia) regs.regs)) :
      (true = false ∨ ((branchOk ((bo (mem regs.regs.cia)).setWidth 32)
        ((bi (mem regs.regs.cia)).setWidth 32) regs.regs.ctr regs.regs.cr).1 &&
          (branchOk ((bo (mem regs.regs.cia)).setWidth 32)
            ((bi (mem regs.regs.cia)).setWidth 32) regs.regs.ctr regs.regs.cr).2) = true) ↔
              HasCase (bo (mem regs.regs.cia)) ∧ taken (mem regs.regs.cia) regs.regs = true := by
    rw [branchOk_field, htaken, Bool.and_eq_true, decide_eq_true_iff]
    exact ⟨fun h => h.resolve_left (by decide), .inr⟩
  have hlk (hk : kind (mem regs.regs.cia) ≠ .other) :
      ((mem regs.regs.cia).extractLsb' 0 1).setWidth 32 ≠ 0 ↔ Calls (mem regs.regs.cia) := by
    rw [bit_ne_zero]
    exact ⟨fun h => ⟨hk, h⟩, fun h => h.2⟩
  have htarget (v : Word) : (if ((mem regs.regs.cia).extractLsb' 1 1).setWidth 32 ≠ 0 then v
      else v + regs.regs.cia) = (if aa (mem regs.regs.cia) then 0 else regs.regs.cia) + v := by
    by_cases h : aa (mem regs.regs.cia) = true
    · rw [if_pos ((bit_ne_zero _ 1).2 h), if_pos h]
      exact (BitVec.zero_add v).symm
    · rw [if_neg (mt (bit_ne_zero _ 1).1 h), if_neg h, BitVec.add_comm]
  cases hk : kind (mem regs.regs.cia) with
  | b =>
    have htaken : taken (mem regs.regs.cia) regs.regs = true := by simp [taken, hk]
    rw [findNextAddress_branch stepOver regs.cia_regs hop (operands_b regs hop hk) (c := True)
      ⟨fun _ => ⟨trivial, htaken⟩, fun _ => .inl rfl⟩ (hlk (by simp [hk])), if_pos trivial,
      htarget]
    simp [leads, target, hk]
  | bc =>
    rw [findNextAddress_branch stepOver regs.cia_regs hop (operands_bc regs hop hk)
      (c := HasCase (bo (mem regs.regs.cia))) ?_ (hlk (by simp [hk])), htarget]
    · simp [leads, target, hk]
    · dsimp only
      exact hcase (by simp [taken, hk])
  | bclr =>
    rw [findNextAddress_branch stepOver regs.cia_regs hop (operands_bclr regs hop hk)
      (c := HasCase (bo (mem regs.regs.cia))) ?_ (hlk (by simp [hk]))]
    · simp only [leads, hk]
      rfl
    · dsimp only
      exact hcase (by simp [taken, hk])
  | bcctr =>
    rw [findNextAddress_branch stepOver regs.cia_regs hop (operands_bcctr regs hop hk)
      (c := HasCase (bo (mem regs.regs.cia))) ?_ (hlk (by simp [hk]))]
    · simp only [leads, hk]
      rfl
    · dsimp only
      exact hcase (by simp [taken, hk])
  | other =>
    have htaken : taken (mem regs.regs.cia) regs.regs = false := by simp [taken, hk]
    rw [htaken, findNextAddress_other stepOver regs.cia_regs hop (operands_other regs hop hk)]
    rfl

/-- A taken branch is followed to where it leads: BO has a case, and a register holds the address of
a word. -/
def Followed (i : Word) (r : Regs) : Prop :=
  match kind i with
  | .bc => HasCase (bo i) ∨ target i r = r.cia + 4
  | .bclr => if HasCase (bo i) then r.lr &&& 3 = 0 else target i r = r.cia + 4
  | .bcctr => if HasCase (bo i) then r.ctr &&& 3 = 0 else target i r = r.cia + 4
  | _ => True

theorem eq_and_iff (v : Word) : v = v &&& ~~~3 ↔ v &&& 3 = 0 := by
  constructor
  · intro h
    rw [h, BitVec.and_assoc]
    exact BitVec.and_zero
  · intro h
    have hall : v &&& (~~~3 ||| 3) = v := BitVec.and_allOnes
    rw [BitVec.and_or_distrib_left, h] at hall
    exact (BitVec.or_zero.symm.trans hall).symm

theorem leads_eq_target_iff (i : Word) (r : Regs) : leads i r = target i r ↔ Followed i r := by
  cases hk : kind i with
  | b => simp [leads, Followed, hk]
  | other => simp [leads, Followed, hk]
  | bc =>
    simp only [leads, Followed, hk]
    split_ifs with hcase
    · exact ⟨fun _ => .inl hcase, fun _ => rfl⟩
    · exact ⟨fun h => .inr h.symm, fun h => (h.resolve_left hcase).symm⟩
  | bclr =>
    simp only [leads, Followed, target, hk]
    split_ifs
    · exact eq_and_iff r.lr
    · exact eq_comm
  | bcctr =>
    simp only [leads, Followed, target, hk]
    split_ifs
    · exact eq_and_iff r.ctr
    · exact eq_comm

/-- The debugger is right exactly when the word is in the table and a branch that is taken, and not
stepped over, is one that is followed. -/
theorem predicts_iff (mem : Word → Word) (stepOver : Bool) (regs : PtRegs) :
    Predicts mem stepOver regs ↔
      (kind (mem regs.regs.cia) = .other → (findOpcode (mem regs.regs.cia)).isSome = true) ∧
        (Invalid (mem regs.regs.cia) ∨ taken (mem regs.regs.cia) regs.regs = false ∨
          (stepOver = true ∧ Calls (mem regs.regs.cia)) ∨
            Followed (mem regs.regs.cia) regs.regs) := by
  have hfound : (kind (mem regs.regs.cia) = .other →
      (findOpcode (mem regs.regs.cia)).isSome = true) ↔
        (findOpcode (mem regs.regs.cia)).isSome = true := by
    refine ⟨fun h => ?_, fun h _ => h⟩
    by_cases hk : kind (mem regs.regs.cia) = .other
    · exact h hk
    · exact found_of_kind hk
  rw [hfound, ← leads_eq_target_iff]
  constructor
  · rintro ⟨a, ha, hgo⟩
    have hop : (findOpcode (mem regs.regs.cia)).isSome = true := by
      cases h : findOpcode (mem regs.regs.cia) with
      | none =>
        rw [findNextAddress_none stepOver regs.cia_regs h] at ha
        cases ha
      | some _ => rfl
    refine ⟨hop, ?_⟩
    rw [findNextAddress_eq mem stepOver regs hop, Option.some.injEq] at ha
    rcases hgo with hinv | hgo
    · exact .inl hinv
    · unfold PowerPC.next at hgo
      grind
  · rintro ⟨hop, hwhen⟩
    refine ⟨_, findNextAddress_eq mem stepOver regs hop, ?_⟩
    rcases hwhen with hinv | hwhen
    · exact .inl hinv
    · refine .inr ?_
      unfold PowerPC.next
      grind

/-- `blr` to an address with its second lowest bit set, and `bc` with the ignored bit of BO set. -/
theorem blr_not_predicts :
    ¬ Predicts (fun _ => 0x4e800020) false ⟨0x1000, 0, 0, 0x2002⟩ ∧
      ¬ Predicts (fun _ => 0x40c00010) false ⟨0x1000, 0, 0, 0⟩ := by
  obtain ⟨hblr, hbc⟩ :
      findNextAddress (fun _ => 0x4e800020) false ⟨0x1000, 0, 0, 0x2002⟩ = some 0x2002 ∧
        findNextAddress (fun _ => 0x40c00010) false ⟨0x1000, 0, 0, 0⟩ = some 0x1004 := by
    decide +kernel
  constructor
  · rintro ⟨a, ha, hgo⟩
    rw [hblr, Option.some.injEq] at ha
    rw [← ha] at hgo
    exact absurd hgo (by decide)
  · rintro ⟨a, ha, hgo⟩
    rw [hbc, Option.some.injEq] at ha
    rw [← ha] at hgo
    exact absurd hgo (by decide)

end UBoot.Bedbug
