import UBoot.Flash.Chip

/-!
# Bytes into the flash (`write_buff` of `board/tqm8xx/flash.c`)

`write_buff` completes the first and the last word with what the bank holds. Both ends and the
aligned part are then one loop over words (`writeBuff_eq`), whose bytes are the bank's with the
source laid on top (`overlay`).
-/

namespace UBoot.Tqm8xx

open UBoot.Lib.Shifted UBoot.Flash

/-- A memory with the bytes of a list from `addr` on. -/
def overlay (f : ℕ → UInt8) (addr : ℕ) (src : List UInt8) (b : ℕ) : UInt8 :=
  if addr ≤ b ∧ b < addr + src.length then src.getD (b - addr) 0 else f b

/-- The words that `write_buff` touches. -/
def touched (addr cnt : ℕ) : ℕ := (addr % 4 + cnt + 3) / 4

structure Chip.Holds (chip : Chip) (addr cnt : ℕ) : Prop where
  le_base : chip.start ≤ addr / 4 * 4
  end_le : addr / 4 * 4 + 4 * touched addr cnt ≤ chip.start + chip.size

/-- A byte can become `b` without being erased. -/
def Fits (old b : UInt8) : Prop := old &&& b = b

/-- Words of `g`, one after the other, until one of them is refused. -/
def programWords (t : Timing) (info : FlashInfo) (g : ℕ → UInt8) : ℕ → ℕ → Chip → ℤ × Chip
  | 0, _, chip => (0, chip)
  | n + 1, wp, chip =>
    let (rc, chip) := writeWord t info chip wp (wordOf g wp)
    if rc ≠ 0 then (rc, chip) else programWords t info g n (wp + 4) chip

/-- The chip with `k` words of `g`. -/
def Chip.programs (chip : Chip) (g : ℕ → UInt8) (wp k : ℕ) : Chip :=
  { chip with
    cells := fun b => if wp ≤ b ∧ b < wp + 4 * k then g b else chip.cells b
    ops := chip.ops ++ (List.range k).map fun i => .program (wp + 4 * i) }

variable {t : Timing} {info : FlashInfo} {chip : Chip} {g : ℕ → UInt8} {data : Word}
  {src : List UInt8} {addr wp a k n : ℕ}

/-! ### The loop over words -/

theorem Chip.programs_zero : chip.programs g wp 0 = chip := by
  have hcells : (fun b => if wp ≤ b ∧ b < wp + 4 * 0 then g b else chip.cells b) = chip.cells :=
    funext fun b => if_neg (by omega)
  rw [Chip.programs, hcells, List.range_zero, List.map_nil, List.append_nil]

theorem Chip.stored_programs :
    (chip.stored wp (wordOf g wp)).programs g (wp + 4) k = chip.programs g wp (k + 1) := by
  have hcells : (fun b => if wp + 4 ≤ b ∧ b < wp + 4 + 4 * k then g b
      else (chip.stored wp (wordOf g wp)).cells b) =
      fun b => if wp ≤ b ∧ b < wp + 4 * (k + 1) then g b else chip.cells b := by
    funext b
    by_cases hfirst : wp ≤ b ∧ b < wp + 4
    · obtain ⟨i, rfl⟩ := Nat.exists_eq_add_of_le hfirst.1
      rw [if_neg (by omega), if_pos (by omega)]
      change (if _ then _ else _) = _
      rw [if_pos hfirst, Nat.add_sub_cancel_left, byteOf_wordOf (by omega)]
    · have hold : (chip.stored wp (wordOf g wp)).cells b = chip.cells b := if_neg hfirst
      rw [hold]
      exact if_congr (by omega) rfl rfl
  have hops : (chip.ops ++ [.program wp]) ++
      (List.range k).map (fun i => Op.program (wp + 4 + 4 * i)) =
      chip.ops ++ (List.range (k + 1)).map fun i => Op.program (wp + 4 * i) := by
    rw [List.append_assoc, List.range_succ_eq_map, List.map_cons, List.map_map, Nat.mul_zero,
      Nat.add_zero]
    refine congrArg (fun ops => chip.ops ++ .program wp :: ops)
      (congrArg (List.map · (List.range k)) (funext fun i => ?_))
    change _ = Op.program (wp + 4 * (i + 1))
    rw [Nat.mul_succ, Nat.add_assoc, Nat.add_comm 4]
  rw [Chip.programs, hcells]
  exact congrArg (fun ops => ({ chip.programs g wp (k + 1) with ops } : Chip)) hops

theorem Chip.stored_cell {b : ℕ} (hb : wp + 4 ≤ b) :
    (chip.stored wp data).cell b = chip.cell b := by
  have hcells : (chip.stored wp data).cells b = chip.cells b := if_neg (by omega)
  rw [Chip.cell, hcells]
  rfl

theorem Chip.Idle.stored (hidle : chip.Idle) : (chip.stored wp data).Idle :=
  ⟨hidle.phase, hidle.status⟩

/-- The words up to the first that does not fit are stored, and no other one. -/
theorem programWords_spec (hidle : chip.Idle) (hstart : chip.start = (info.start 0).toNat)
    (hlo : chip.start ≤ wp) (hhi : wp + 4 * n ≤ chip.start + chip.size) :
    ∃ k ≤ n, (∀ b, wp ≤ b → b < wp + 4 * k → Fits (chip.cell b) (g b)) ∧
      (k < n → ∃ b, wp + 4 * k ≤ b ∧ b < wp + 4 * k + 4 ∧ ¬ Fits (chip.cell b) (g b)) ∧
      programWords t info g n wp chip = (if k = n then 0 else 2, chip.programs g wp k) := by
  induction n generalizing wp chip with
  | zero =>
    refine ⟨0, le_rfl, fun b h1 h2 => absurd h1 (by omega), fun h => absurd h (lt_irrefl 0), ?_⟩
    rw [Chip.programs_zero]
    rfl
  | succ n ih =>
    have hhas : chip.Has wp := ⟨hlo, by omega⟩
    have hword := writeWord_spec (t := t) hidle hstart hhas (wordOf g wp)
    by_cases hfits : chip.word wp &&& wordOf g wp = wordOf g wp
    · obtain ⟨k, hkn, hbelow, hbad, hrun⟩ :=
        @ih (chip.stored wp (wordOf g wp)) (wp + 4) hidle.stored hstart
          (Nat.le_trans hlo (Nat.le_add_right wp 4)) (by
            change wp + 4 + 4 * n ≤ chip.start + chip.size
            omega)
      rw [if_pos hfits] at hword
      refine ⟨k + 1, Nat.succ_le_succ hkn, fun b h1 h2 => ?_, fun hk => ?_, ?_⟩
      · by_cases hfirst : b < wp + 4
        · obtain ⟨i, rfl⟩ := Nat.exists_eq_add_of_le h1
          exact and_wordOf_iff.1 hfits i (by omega)
        · rw [← Chip.stored_cell (Nat.le_of_not_lt hfirst)]
          exact hbelow b (Nat.le_of_not_lt hfirst) (by omega)
      · obtain ⟨b, h1, h2, hb⟩ := hbad (Nat.lt_of_succ_lt_succ hk)
        rw [Chip.stored_cell (by omega)] at hb
        exact ⟨b, by omega, by omega, hb⟩
      · rw [programWords, hword]
        change programWords t info g n (wp + 4) (chip.stored wp (wordOf g wp)) = _
        rw [hrun, Chip.stored_programs]
        exact congrArg (fun rc => (rc, chip.programs g wp (k + 1)))
          (if_congr Nat.succ_inj.symm rfl rfl)
    · rw [if_neg hfits] at hword
      refine ⟨0, Nat.zero_le _, fun b h1 h2 => absurd h1 (by omega), fun _ => ?_, ?_⟩
      · obtain ⟨i, hi, hb⟩ : ∃ i, i < 4 ∧ ¬ Fits (chip.cell (wp + i)) (g (wp + i)) := by
          by_contra hall
          refine hfits (and_wordOf_iff.2 fun i hi => ?_)
          by_contra hb
          exact hall ⟨i, hi, hb⟩
        exact ⟨wp + i, by omega, by omega, hb⟩
      · rw [programWords, hword, Chip.programs_zero]
        rfl

/-! ### Both ends of the source -/

theorem readBytes_eq (hidle : chip.Idle) :
    readBytes n a data chip = (shiftFrom chip.cell data n a, chip) := by
  induction n generalizing a data with
  | zero => rfl
  | succ n ih =>
    have hread : chip.readByte a = (chip.cell a, chip) := by rw [Chip.readByte, hidle.status]
    rw [readBytes, hread]
    exact ih

theorem takeBytes_eq (n : ℕ) (data : Word)
    (hsrc : ∀ i < src.length, i < n → g (a + i) = src.getD i 0) :
    takeBytes n data src =
      (n - src.length, shiftFrom g data (min n src.length) a, src.drop n) := by
  induction n generalizing src data a with
  | zero =>
    cases src <;> simp only [takeBytes, Nat.zero_sub, Nat.zero_min, shiftFrom, List.drop_zero]
  | succ n ih =>
    cases src with
    | nil => rfl
    | cons b src =>
      have hfirst : g a = b := hsrc 0 (Nat.succ_pos _) (Nat.succ_pos _)
      rw [takeBytes, ih (a := a + 1) _ fun i hi hin => by
        rw [Nat.add_assoc, Nat.add_comm 1 i]
        exact hsrc (i + 1) (Nat.succ_lt_succ hi) (Nat.succ_lt_succ hin)]
      rw [List.length_cons, Nat.succ_sub_succ, Nat.succ_min_succ, List.drop_succ_cons, shiftFrom,
        hfirst]

/-- `g` has the source at `a`, and what the bank holds behind it. -/
structure Chip.Lies (chip : Chip) (g : ℕ → UInt8) (src : List UInt8) (a : ℕ) : Prop where
  source : ∀ i < src.length, g (a + i) = src.getD i 0
  behind : ∀ b, a + src.length ≤ b → g b = chip.cell b

theorem Chip.Lies.drop (h : chip.Lies g src a) (hn : n ≤ src.length) :
    chip.Lies g (src.drop n) (a + n) := by
  refine ⟨fun i hi => ?_, fun b hb => h.behind b ?_⟩
  · rw [List.length_drop] at hi
    rw [Nat.add_assoc, h.source _ (by omega), List.getD_eq_getElem?_getD,
      List.getD_eq_getElem?_getD, List.getElem?_drop]
  · rw [List.length_drop] at hb
    omega

theorem Chip.Lies.stored (h : chip.Lies g src (wp + 4)) :
    (chip.stored wp data).Lies g src (wp + 4) :=
  ⟨h.source, fun b hb => by
    rw [Chip.stored_cell (Nat.le_trans (Nat.le_add_right _ _) hb)]
    exact h.behind b hb⟩

theorem programWords_one :
    programWords t info g 1 wp chip = writeWord t info chip wp (wordOf g wp) := by
  rcases hword : writeWord t info chip wp (wordOf g wp) with ⟨rc, chip'⟩
  rw [programWords, hword]
  change (if rc ≠ 0 then (rc, chip') else (0, chip')) = _
  split_ifs with hrc
  · rfl
  · rw [not_not.1 hrc]

/-- The bytes of the source that are left, and the bank's behind them, make the last word. -/
theorem tail_word (hidle : chip.Idle) (hlies : chip.Lies g src a) (hn : src.length ≤ n) :
    readBytes (n - src.length) (a + src.length) (shiftFrom g data (min n src.length) a) chip =
      (shiftFrom g data n a, chip) := by
  have hback : shiftFrom chip.cell (shiftFrom g data src.length a) (n - src.length)
      (a + src.length) =
      shiftFrom g (shiftFrom g data src.length a) (n - src.length) (a + src.length) :=
    shiftFrom_congr fun i _ => (hlies.behind _ (Nat.le_add_right _ i)).symm
  rw [readBytes_eq hidle, Nat.min_eq_right hn, hback, shiftFrom_add, Nat.add_sub_cancel' hn]

theorem programWords_step (hidle : chip.Idle) (hstart : chip.start = (info.start 0).toNat)
    (hhas : chip.Has wp) {rest : Chip → ℤ × Chip}
    (hrest : rest (chip.stored wp (wordOf g wp)) =
      programWords t info g n (wp + 4) (chip.stored wp (wordOf g wp))) :
    (let (rc, chip) := writeWord t info chip wp (wordOf g wp)
     if rc ≠ 0 then (rc, chip) else rest chip) = programWords t info g (n + 1) wp chip := by
  have hword := writeWord_spec (t := t) hidle hstart hhas (wordOf g wp)
  rw [programWords]
  split_ifs at hword with hfits
  · rw [hword]
    exact hrest
  · rw [hword]
    rfl

theorem writeAligned_tail (hpos : 0 < src.length) (hlt : src.length < 4) :
    writeAligned t info src wp chip =
      (let (n, data, _) := takeBytes 4 0 src
       let (data, chip) := readBytes n (wp + (4 - n)) data chip
       writeWord t info chip wp data) := by
  match src, hpos, hlt with
  | [_], _, _ => rfl
  | [_, _], _, _ => rfl
  | [_, _, _], _, _ => rfl

theorem exists_four (h : ¬ src.length < 4) :
    ∃ b0 b1 b2 b3 rest, src = b0 :: b1 :: b2 :: b3 :: rest := by
  match src, h with
  | b0 :: b1 :: b2 :: b3 :: rest, _ => exact ⟨b0, b1, b2, b3, rest, rfl⟩
  | [], h | [_], h | [_, _], h | [_, _, _], h =>
    simp only [List.length_cons, List.length_nil] at h
    omega

theorem writeAligned_eq (hidle : chip.Idle) (hstart : chip.start = (info.start 0).toNat)
    (hlies : chip.Lies g src wp) (hlo : chip.start ≤ wp)
    (hhi : wp + 4 * ((src.length + 3) / 4) ≤ chip.start + chip.size) :
    writeAligned t info src wp chip =
      programWords t info g ((src.length + 3) / 4) wp chip := by
  induction hlen : src.length using Nat.strong_induction_on generalizing src wp chip with
  | _ len ih =>
    rcases Nat.eq_zero_or_pos src.length with hnil | hpos
    · rw [List.length_eq_zero_iff.1 hnil, ← hlen, hnil]
      rfl
    · by_cases htail : src.length < 4
      · have hone : (len + 3) / 4 = 1 := by omega
        have htake := takeBytes_eq 4 0 fun i hi _ => hlies.source i hi
        rw [writeAligned_tail hpos htail, htake, hone, programWords_one]
        dsimp only
        rw [Nat.sub_sub_self (Nat.le_of_lt htail), tail_word hidle hlies (Nat.le_of_lt htail)]
        rfl
      · obtain ⟨b0, b1, b2, b3, src, rfl⟩ := exists_four htail
        have hword : shiftIn (shiftIn (shiftIn (shiftIn 0 b0) b1) b2) b3 = wordOf g wp := by
          have h0 : g wp = b0 := hlies.source 0 (by simp only [List.length_cons]; omega)
          have h1 : g (wp + 1) = b1 := hlies.source 1 (by simp only [List.length_cons]; omega)
          have h2 : g (wp + 2) = b2 := hlies.source 2 (by simp only [List.length_cons]; omega)
          have h3 : g (wp + 3) = b3 := hlies.source 3 (by simp only [List.length_cons]; omega)
          rw [← h0, ← h1, ← h2, ← h3]
          rfl
        simp only [List.length_cons] at hlen hhi
        have hlen4 : (len + 3) / 4 = (src.length + 3) / 4 + 1 := by omega
        have hrest : chip.Lies g src (wp + 4) :=
          hlies.drop (n := 4) (by simp only [List.length_cons]; omega)
        rw [writeAligned, hlen4, hword]
        refine programWords_step hidle hstart ⟨hlo, by omega⟩ ?_
        exact ih src.length (by omega) hidle.stored hstart hrest.stored
          (Nat.le_trans hlo (Nat.le_add_right _ _)) (by
            change wp + 4 + _ ≤ chip.start + chip.size
            omega) rfl

theorem writeBuff_eq (hidle : chip.Idle) (hstart : chip.start = (info.start 0).toNat)
    (hholds : chip.Holds addr src.length) :
    writeBuff t info src addr chip =
      programWords t info (overlay chip.cell addr src) (touched addr src.length)
        (addr / 4 * 4) chip := by
  obtain ⟨hlo, hhi⟩ := hholds
  set g := overlay chip.cell addr src
  have hlies : chip.Lies g src addr := by
    refine ⟨fun i hi => ?_, fun b hb => if_neg (by omega)⟩
    change (if _ then _ else _) = _
    rw [if_pos ⟨by omega, by omega⟩, Nat.add_sub_cancel_left]
  have hbefore : ∀ b < addr, g b = chip.cell b := fun b hb => if_neg (by omega)
  rw [touched] at hhi ⊢
  by_cases hl : addr - addr / 4 * 4 = 0
  · have hbase : addr / 4 * 4 = addr := by omega
    have hmod : addr % 4 = 0 := by omega
    rw [hmod, Nat.zero_add, hbase] at hhi ⊢
    rw [hbase] at hlo
    rw [writeBuff, hbase, Nat.sub_self]
    exact writeAligned_eq hidle hstart hlies hlo hhi
  · obtain ⟨l, hl0, hl4, hl⟩ : ∃ l, 0 < l ∧ l < 4 ∧ addr % 4 = l :=
      ⟨addr % 4, by omega, by omega, rfl⟩
    obtain ⟨wp, hwp⟩ : ∃ wp, addr / 4 * 4 = wp := ⟨_, rfl⟩
    have haddr : addr = wp + l := by omega
    have hhead : shiftFrom chip.cell 0 l wp = shiftFrom g 0 l wp :=
      shiftFrom_congr fun i hi => (hbefore _ (by omega)).symm
    have hword : shiftFrom g (shiftFrom g 0 l wp) (4 - l) addr = wordOf g wp := by
      rw [haddr, shiftFrom_add, Nat.add_sub_cancel' (Nat.le_of_lt hl4)]
      rfl
    have htake := takeBytes_eq (4 - l) (shiftFrom g 0 l wp)
      fun i hi _ => hlies.source i hi
    rw [hwp] at hlo hhi ⊢
    rw [hl] at hhi ⊢
    rw [writeBuff, hwp, (by omega : addr - wp = l), if_pos (by omega), readBytes_eq hidle, hhead]
    dsimp only
    rw [htake]
    dsimp only
    by_cases hshort : src.length ≤ 4 - l
    · have hdrop : (src.drop (4 - l)).length = 0 := by rw [List.length_drop]; omega
      have hone : (l + src.length + 3) / 4 = 0 + 1 := by omega
      have hbase : wp + (4 - (4 - l - src.length)) = addr + src.length := by omega
      rw [if_pos hdrop, hbase, tail_word hidle hlies hshort, hword, hone,
        List.length_eq_zero_iff.1 hdrop]
      exact programWords_step hidle hstart ⟨hlo, by omega⟩ rfl
    · have hdrop : (src.drop (4 - l)).length = src.length - (4 - l) := List.length_drop
      have hnext : chip.Lies g (src.drop (4 - l)) (wp + 4) := by
        rw [(by omega : wp + 4 = addr + (4 - l))]
        exact hlies.drop (by omega)
      have hmore : (src.drop (4 - l)).length ≠ 0 := by omega
      have hwords : (l + src.length + 3) / 4 = ((src.drop (4 - l)).length + 3) / 4 + 1 := by omega
      rw [if_neg hmore, Nat.min_eq_left (by omega), hword, hwords]
      refine programWords_step hidle hstart ⟨hlo, by omega⟩ ?_
      refine writeAligned_eq hidle.stored hstart hnext.stored ?_ ?_
      · exact Nat.le_trans hlo (Nat.le_add_right _ _)
      · change wp + 4 + _ ≤ chip.start + chip.size
        omega

/-! ### What a call leaves in the bank -/

theorem touched_end (addr cnt : ℕ) : addr + cnt ≤ addr / 4 * 4 + 4 * touched addr cnt := by
  rw [touched]
  omega

theorem Chip.Holds.cell (h : chip.Holds addr src.length) {b : ℕ} (hlo : addr / 4 * 4 ≤ b)
    (hhi : b < addr / 4 * 4 + 4 * touched addr src.length) : chip.cell b = chip.cells b :=
  if_pos ⟨Nat.le_trans h.le_base hlo, Nat.lt_of_lt_of_le hhi h.end_le⟩

theorem fits_self (b : UInt8) : Fits b b := UInt8.and_self

theorem fits_erased (b : UInt8) : Fits 0xff b := UInt8.neg_one_and

/-- The programmed words, with the rest of the bank: the source where it has been laid on. -/
theorem Chip.Holds.programs_cells (h : chip.Holds addr src.length)
    (hk : k ≤ touched addr src.length) :
    (chip.programs (overlay chip.cell addr src) (addr / 4 * 4) k).cells = fun b =>
      if b < addr / 4 * 4 + 4 * k then overlay chip.cells addr src b else chip.cells b := by
  funext b
  change (if _ then overlay chip.cell addr src b else _) = _
  by_cases hlow : b < addr / 4 * 4
  · have hb : overlay chip.cells addr src b = chip.cells b := if_neg (by omega)
    rw [if_neg (by omega), hb, ite_self]
  · refine ite_congr (propext (by omega)) (fun hb => ?_) fun _ => rfl
    have hcell : chip.cell b = chip.cells b := h.cell (by omega) (by omega)
    rw [overlay, overlay, hcell]

/-- The bank with the source in its first `k` touched words. -/
def Chip.buffered (chip : Chip) (src : List UInt8) (addr k : ℕ) : Chip :=
  { chip with
    cells := fun b => if b < addr / 4 * 4 + 4 * k then overlay chip.cells addr src b
      else chip.cells b
    ops := chip.ops ++ (List.range k).map fun i => .program (addr / 4 * 4 + 4 * i) }

/-- Byte `j` of the source cannot be stored. -/
def Chip.Refuses (chip : Chip) (src : List UInt8) (addr j : ℕ) : Prop :=
  j < src.length ∧ ¬ Fits (chip.cells (addr + j)) (src.getD j 0)

theorem writeBuff_stores (hidle : chip.Idle) (hstart : chip.start = (info.start 0).toNat)
    (hholds : chip.Holds addr src.length) :
    ∃ k ≤ touched addr src.length,
      writeBuff t info src addr chip =
        (if k = touched addr src.length then 0 else 2, chip.buffered src addr k) ∧
      (∀ j, chip.Refuses src addr j → addr / 4 + k ≤ (addr + j) / 4) ∧
      (k < touched addr src.length →
        ∃ j, chip.Refuses src addr j ∧ (addr + j) / 4 = addr / 4 + k) := by
  have hsource : ∀ j < src.length, overlay chip.cell addr src (addr + j) = src.getD j 0 := by
    intro j hj
    rw [overlay, if_pos (by omega), Nat.add_sub_cancel_left]
  have htarget : ∀ j < src.length, chip.cell (addr + j) = chip.cells (addr + j) := fun j hj => by
    have hend := touched_end addr src.length
    exact hholds.cell (by omega) (by omega)
  obtain ⟨k, hk, hbelow, hbad, hrun⟩ := programWords_spec (t := t) (n := touched addr src.length)
    (g := overlay chip.cell addr src) hidle hstart hholds.le_base hholds.end_le
  rw [writeBuff_eq hidle hstart hholds, hrun]
  refine ⟨k, hk, ?_, fun j ⟨hj, hb⟩ => ?_, fun hlt => ?_⟩
  · exact congrArg (fun cells => (if k = touched addr src.length then (0 : ℤ) else 2,
      ({ chip.programs (overlay chip.cell addr src) (addr / 4 * 4) k with cells } : Chip)))
      (hholds.programs_cells hk)
  · by_contra hlt
    rw [← hsource j hj, ← htarget j hj] at hb
    exact hb (hbelow _ (by omega) (by omega))
  · obtain ⟨b, hlo, hhi, hb⟩ := hbad hlt
    by_cases hin : addr ≤ b ∧ b < addr + src.length
    · obtain ⟨j, rfl⟩ := Nat.exists_eq_add_of_le hin.1
      have hj : j < src.length := by omega
      rw [hsource j hj, htarget j hj] at hb
      exact ⟨j, ⟨hj, hb⟩, by omega⟩
    · have hsame : overlay chip.cell addr src b = chip.cell b := if_neg hin
      rw [hsame] at hb
      exact absurd (fits_self _) hb

theorem Chip.buffered_all :
    (chip.buffered src addr (touched addr src.length)).cells = overlay chip.cells addr src := by
  funext b
  change (if _ then _ else _) = _
  have hend := touched_end addr src.length
  split_ifs with hb
  · rfl
  · exact (if_neg (by omega)).symm

/-- `write_buff` answers 0 or 2. After 0 the target holds the source and every other byte is as
before; it answers 2 if and only if a byte of the source does not fit, and then it has programmed
the words in front of the first one in which that is so, and no other one. -/
theorem writeBuff_spec (hidle : chip.Idle) (hstart : chip.start = (info.start 0).toNat)
    (hholds : chip.Holds addr src.length) :
    ((writeBuff t info src addr chip).1 = 0 ∧
      (writeBuff t info src addr chip).2.cells = overlay chip.cells addr src ∧
      ¬ ∃ j, chip.Refuses src addr j) ∨
    ((writeBuff t info src addr chip).1 = 2 ∧ ∃ k,
      (writeBuff t info src addr chip).2 = chip.buffered src addr k ∧
      (∀ j, chip.Refuses src addr j → addr / 4 + k ≤ (addr + j) / 4) ∧
      ∃ j, chip.Refuses src addr j ∧ (addr + j) / 4 = addr / 4 + k) := by
  obtain ⟨k, hk, hrun, hfirst, hbad⟩ := writeBuff_stores (t := t) hidle hstart hholds
  rw [hrun]
  rcases Nat.eq_or_lt_of_le hk with rfl | hlt
  · refine .inl ⟨if_pos rfl, Chip.buffered_all, ?_⟩
    rintro ⟨j, hj⟩
    have hlast := hfirst j hj
    have hin := hj.1
    rw [touched] at hlast
    omega
  · exact .inr ⟨if_neg (Nat.ne_of_lt hlt), k, rfl, hfirst, hbad hlt⟩

/-- Chips that show the complement of D7 once, with the timeouts of the board. -/
def onceBusy : Timing where
  busy _ data := [~~~data]
  erasing _ := [0]
  busy_d7 n data s hs h := by
    rw [List.mem_singleton.1 hs] at h
    have hbit := congrArg (BitVec.getLsbD · 7) h
    simp [D7] at hbit
  erasing_d7 n s hs := by
    rw [List.mem_singleton.1 hs]
    decide
  elapsed _ _ := 0
  CFG_FLASH_WRITE_TOUT := 500
  CFG_FLASH_ERASE_TOUT := 120000
  programs _ _ _ _ := Nat.zero_le _
  erases _ _ _ := Nat.zero_le _

/-- Two sectors of 128 kB, the first of them protected. -/
def smallInfo : FlashInfo where
  size := 0x40000
  sectorCount := 2
  flashId := 0x10000
  start i := 0x40000000 + UInt32.ofNat i * 0x20000
  protect i := if i = 0 then 1 else 0

def smallChip (cells : ℕ → UInt8) : Chip where
  start := 0x40000000
  size := 0x40000
  sector b :=
    if b < 0x40000000 then 2 else if b < 0x40020000 then 0 else if b < 0x40040000 then 1 else 2
  cells
  phase := .read
  status := []
  ops := []

theorem writeBuff_spec_unaligned :
    (writeBuff onceBusy smallInfo [0x12, 0x34] 0x40000003 (smallChip fun _ => 0xff)).2.cells =
      overlay (fun _ => 0xff) 0x40000003 [0x12, 0x34] := by
  obtain ⟨-, hcells, -⟩ | ⟨-, -, -, -, j, hj, -⟩ :=
    @writeBuff_spec onceBusy smallInfo (smallChip fun _ => 0xff) [0x12, 0x34] 0x40000003
      ⟨rfl, rfl⟩ rfl ⟨by decide, by decide⟩
  · exact hcells
  · exact absurd (fits_erased _) hj.2

end UBoot.Tqm8xx
