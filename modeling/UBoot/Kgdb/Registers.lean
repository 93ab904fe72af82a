import UBoot.Kgdb.Stub

/-!
# The registers that the debugger sees

A packet `g` shows the registers as 102 words. What `G` does with these words shows them again
(`putregs_getregs`); `P` changes the word of the register it names, but for the last one
(`putreg_shows_iff`).
-/

namespace UBoot.Kgdb

/-! ### Words -/

theorem or_shiftLeft {a b n : ℕ} (hb : b < 2 ^ n) : a <<< n ||| b = a * 2 ^ n + b := by
  rw [← Nat.shiftLeft_add_eq_or_of_lt hb, Nat.shiftLeft_eq]

theorem byte_shiftLeft (x : UInt8) {n : ℕ} (hn : n ≤ 24) :
    x.toNat <<< n % 2 ^ 32 = x.toNat <<< n := by
  have hpow : 2 ^ n ≤ 2 ^ 24 := Nat.pow_le_pow_right (by decide) hn
  rw [Nat.shiftLeft_eq]
  refine Nat.mod_eq_of_lt ?_
  calc x.toNat * 2 ^ n < 2 ^ 8 * 2 ^ n := Nat.mul_lt_mul_of_pos_right x.toNat_lt n.two_pow_pos
    _ ≤ 2 ^ 8 * 2 ^ 24 := Nat.mul_le_mul_left _ hpow

theorem join_bytes (a b c d : UInt8) :
    (a.toUInt32 <<< 24 ||| b.toUInt32 <<< 16 ||| c.toUInt32 <<< 8 ||| d.toUInt32).toNat =
      ((a.toNat * 256 + b.toNat) * 256 + c.toNat) * 256 + d.toNat := by
  have hb := b.toNat_lt
  have hc := c.toNat_lt
  have hd := d.toNat_lt
  have h1 : a.toNat <<< 24 ||| b.toNat <<< 16 = (a.toNat * 256 + b.toNat) <<< 16 := by
    rw [or_shiftLeft (by rw [Nat.shiftLeft_eq]; omega), Nat.shiftLeft_eq, Nat.shiftLeft_eq]
    omega
  have h2 : (a.toNat * 256 + b.toNat) <<< 16 ||| c.toNat <<< 8 =
      ((a.toNat * 256 + b.toNat) * 256 + c.toNat) <<< 8 := by
    rw [or_shiftLeft (by rw [Nat.shiftLeft_eq]; omega), Nat.shiftLeft_eq, Nat.shiftLeft_eq]
    omega
  simp only [UInt32.toNat_or, UInt32.toNat_shiftLeft, UInt8.toNat_toUInt32, UInt32.reduceToNat,
    Nat.reduceMod]
  rw [byte_shiftLeft a le_rfl, byte_shiftLeft b (by decide), byte_shiftLeft c (by decide), h1, h2,
    or_shiftLeft (by omega)]
  rfl

theorem join_word (w : UInt32) :
    (w >>> 24).toUInt8.toUInt32 <<< 24 ||| (w >>> 16).toUInt8.toUInt32 <<< 16 |||
      (w >>> 8).toUInt8.toUInt32 <<< 8 ||| w.toUInt8.toUInt32 = w := by
  have hw := w.toNat_lt
  rw [← UInt32.toNat_inj, join_bytes]
  simp only [UInt32.toNat_toUInt8, UInt32.toNat_shiftRight, Nat.shiftRight_eq_div_pow,
    UInt32.reduceToNat, Nat.reduceMod, Nat.reducePow]
  omega

variable {regs : PtRegs} {buf : List UInt8} {regno : ℕ}

theorem wordAt_words (ws : List UInt32) (i : ℕ) :
    wordAt (ws.flatMap wordBytes) i = ws.getD i 0 := by
  induction ws generalizing i with
  | nil =>
    simp only [wordAt, List.flatMap_nil, List.getD_nil]
    decide
  | cons w ws ih =>
    rw [List.flatMap_cons]
    cases i with
    | zero => exact join_word w
    | succ i => exact ih i

theorem words_length (ws : List UInt32) : (ws.flatMap wordBytes).length = 4 * ws.length := by
  induction ws with
  | nil => rfl
  | cons w ws ih =>
    rw [List.flatMap_cons, List.length_append, ih, List.length_cons, Nat.mul_succ, Nat.add_comm]
    rfl

/-! ### All registers -/

/-- The words of `kgdb_getregs`. -/
def regWords (regs : PtRegs) : List UInt32 :=
  (List.range 32).map regs.gpr ++ List.replicate 64 0 ++
    [regs.nip, regs.msr, regs.ccr, regs.link, regs.ctr, regs.xer]

theorem kgdbGetregs_eq : kgdbGetregs regs = (regWords regs).flatMap wordBytes := rfl

theorem regWords_gpr {i : ℕ} (hi : i < 32) : (regWords regs).getD i 0 = regs.gpr i := by
  rw [List.getD_eq_getElem?_getD, regWords, List.append_assoc,
    List.getElem?_append_left (by simpa using hi), List.getElem?_map, List.getElem?_range hi]
  rfl

/-- `G` of what `g` shows of some registers lets `g` show them again. -/
theorem putregs_getregs (regs old : PtRegs) :
    ∃ new, kgdbPutregs old (kgdbGetregs regs) = .ok new ∧ kgdbGetregs new = kgdbGetregs regs ∧
      new.trap = old.trap := by
  have hlen : (kgdbGetregs regs).length = SPACE_REQUIRED := by
    rw [kgdbGetregs_eq, words_length]
    rfl
  have hword : ∀ i, wordAt (kgdbGetregs regs) i = (regWords regs).getD i 0 :=
    fun i => wordAt_words _ i
  refine ⟨_, if_neg (by rw [hlen]; exact Nat.lt_irrefl _), ?_, rfl⟩
  have hgpr : (List.range 32).map (wordAt (kgdbGetregs regs)) = (List.range 32).map regs.gpr :=
    List.map_congr_left fun i hi => (hword i).trans (regWords_gpr (List.mem_range.1 hi))
  refine congrArg (List.flatMap wordBytes) ?_
  rw [hgpr]
  simp only [hword]
  rfl

/-! ### One register -/

def regSlot (regno : ℕ) : ℕ := if regno < 32 then regno else regno + 32

theorem range_map_update (f : ℕ → UInt32) (v : UInt32) {k n : ℕ} :
    (List.range n).map (Function.update f k v) = ((List.range n).map f).set k v := by
  refine List.ext_getElem (by simp only [List.length_map, List.length_set]) fun i h1 h2 => ?_
  rw [List.getElem_map, List.getElem_range, List.getElem_set, Function.update_apply]
  by_cases h : k = i
  · rw [if_pos h, if_pos h.symm]
  · rw [if_neg h, if_neg fun h' => h h'.symm, List.getElem_map, List.getElem_range]

theorem regWords_update {k : ℕ} (hk : k < 32) (v : UInt32) :
    regWords { regs with gpr := Function.update regs.gpr k v } = (regWords regs).set k v := by
  rw [regWords, regWords, List.append_assoc, List.append_assoc,
    List.set_append_left _ _ (by simpa using hk), range_map_update]

def PtRegs.zero : PtRegs := ⟨fun _ => 0, 0, 0, 0, 0, 0, 0, 0⟩

/-- **`P` sets the register it names**, which is the word of it that `g` shows, if and only if it is
not number 69: that sets `ctr` in place of `xer`. -/
theorem putreg_shows_iff (hreg : regno < 32 ∨ 64 ≤ regno ∧ regno < 70) (hbuf : 4 ≤ buf.length) :
    (∃ new, kgdbPutreg regs regno buf = .ok new ∧ kgdbGetregs new =
        ((regWords regs).set (regSlot regno) (wordAt buf 0)).flatMap wordBytes) ↔
      regno ≠ 69 ∨ regs.ctr = wordAt buf 0 ∧ regs.xer = wordAt buf 0 := by
  have hrest : ¬ ((regno : ℤ) < 0 ∨ (regno : ℤ) ≥ 70) := by omega
  have hshort : ¬ buf.length < (if (regno : ℤ) ≥ 32 ∧ (regno : ℤ) < 64 then 8 else 4) := by
    rw [if_neg (by omega)]
    omega
  rw [kgdbPutreg, if_neg hrest, if_neg hshort]
  rcases hreg with hgpr | ⟨hlow, hhigh⟩
  · rw [if_pos (by omega), regSlot, if_pos hgpr]
    refine iff_of_true ⟨_, rfl, ?_⟩ (.inl (by omega))
    rw [kgdbGetregs_eq, Int.toNat_natCast, regWords_update hgpr]
  · have hword : ¬ (regno : ℤ) < 32 := by omega
    have hslot : ¬ regno < 32 := by omega
    rw [if_neg hword, regSlot, if_neg hslot]
    clear hrest hshort hword hslot
    interval_cases regno
    · exact iff_of_true ⟨{ regs with nip := wordAt buf 0 }, rfl, rfl⟩ (.inl (by decide))
    · exact iff_of_true ⟨{ regs with msr := wordAt buf 0 }, rfl, rfl⟩ (.inl (by decide))
    · exact iff_of_true ⟨{ regs with ccr := wordAt buf 0 }, rfl, rfl⟩ (.inl (by decide))
    · exact iff_of_true ⟨{ regs with link := wordAt buf 0 }, rfl, rfl⟩ (.inl (by decide))
    · exact iff_of_true ⟨{ regs with ctr := wordAt buf 0 }, rfl, rfl⟩ (.inl (by decide))
    constructor
    · rintro ⟨new, hnew, hshow⟩
      obtain rfl := Except.ok.inj hnew
      have hword : ∀ i, _ := fun i => congrArg (wordAt · i) hshow
      simp only [kgdbGetregs_eq, wordAt_words] at hword
      exact .inr ⟨(hword 100).symm, hword 101⟩
    · rintro (h | ⟨hctr, hxer⟩)
      · exact absurd rfl h
      · have hsame : regs.xer = regs.ctr := hxer.trans hctr.symm
        refine ⟨{ regs with ctr := wordAt buf 0 }, rfl, congrArg (List.flatMap wordBytes) ?_⟩
        rw [← hctr]
        change regWords regs = (regWords regs).set 101 regs.ctr
        rw [← hsame]
        rfl

/-- Number 3 is a general register. -/
theorem putreg_shows_iff_gpr :
    (∃ new, kgdbPutreg PtRegs.zero (3 : ℕ) [0, 0, 1, 2] = .ok new ∧ kgdbGetregs new =
        ((regWords PtRegs.zero).set (regSlot 3) (wordAt [0, 0, 1, 2] 0)).flatMap wordBytes) ↔
      3 ≠ 69 ∨ PtRegs.zero.ctr = wordAt [0, 0, 1, 2] 0 ∧ PtRegs.zero.xer = wordAt [0, 0, 1, 2] 0 :=
  putreg_shows_iff (.inl (by decide)) (by decide)

end UBoot.Kgdb
