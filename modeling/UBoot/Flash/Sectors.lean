import UBoot.Flash.Complete

/-!
# Commands on a range of sectors (`common/cmd_flash.c`)

`flash_sect_erase` and `flash_sect_protect` look in every known bank for the sector that
begins at `addr_first` and for the one that ends at `addr_last`, and start the operation
where both are found in this order. What happens to the sectors is left to the board: a
driver acts on a state, and `recorded` notes which sectors it was called for.

In a table of disjoint banks a command reaches exactly the range, or no sector (`Exact`).
-/

namespace UBoot.Flash

open FlashInfo

/-- `end`, the last address in sector `sect`. -/
def FlashInfo.endOf (info : FlashInfo) (sect : Nat) : UInt32 :=
  if (sect : Int) = info.sEnd then info.start 0 + info.size - 1 else info.start (sect + 1) - 1

/-- The loop body over the sectors of a bank, on `s_first` and `s_last`. -/
def FlashInfo.scanSect (info : FlashInfo) (first last : UInt32) (s : Int × Int) (sect : Nat) :
    Int × Int :=
  if first > info.endOf sect then s
  else if last < info.start sect then s
  else (if first = info.start sect then sect else s.1,
    if last = info.endOf sect then sect else s.2)

/-- `s_first` and `s_last` behind the loop. -/
def FlashInfo.sectRange (info : FlashInfo) (first last : UInt32) : Int × Int :=
  (List.range info.sectorCount.toNat).foldl (info.scanSect first last) (-1, -1)

variable {σ : Type*}

/-- The loop over the banks of both commands, from bank `k` on. `act` is what is done with the
sectors found in a bank; it gets `rcode` and gives the new one. -/
def sectLoop (act : Nat → Nat → Nat → Int → σ → Int × σ) (first last : UInt32) :
    List FlashInfo → Nat → Int → Int → σ → Int × Int × σ
  | [], _, count, rcode, s => (count, rcode, s)
  | info :: banks, k, count, rcode, s =>
    if ¬ info.known then sectLoop act first last banks (k + 1) count rcode s
    else
      let (sFirst, sLast) := info.sectRange first last
      if 0 ≤ sFirst ∧ sFirst ≤ sLast then
        let (rcode, s) := act k sFirst.toNat sLast.toNat rcode s
        sectLoop act first last banks (k + 1) (count + (sLast - sFirst + 1)) rcode s
      else sectLoop act first last banks (k + 1) count rcode s

/-- A command, with the error for a range that is not on sector boundaries. -/
def flashSect (act : Nat → Nat → Nat → Int → σ → Int × σ) (flashInfo : List FlashInfo)
    (first last : UInt32) (s : σ) : Int × σ :=
  let (count, rcode, s) := sectLoop act first last flashInfo 0 0 0 s
  if count ≠ 0 then (rcode, s) else (1, s)

/-- `flash_sect_erase`. `flashErase` is called with the bank and its first and last sector. -/
def flashSectErase (flashErase : Nat → Nat → Nat → σ → Int × σ) (flashInfo : List FlashInfo)
    (first last : UInt32) (s : σ) : Int × σ :=
  flashSect (fun k sFirst sLast _ s => flashErase k sFirst sLast s) flashInfo first last s

/-- One sector in the loop of `flash_sect_protect`. -/
def protectSect (realProtect : Nat → Nat → UInt8 → σ → Int × σ) (p : UInt8) (k : Nat)
    (r : Int × σ) (i : Nat) : Int × σ :=
  let (rc, s) := realProtect k i p r.2
  (if rc ≠ 0 then 1 else r.1, s)

/-- The loop over the sectors found in bank `k`. -/
def protectSects (realProtect : Nat → Nat → UInt8 → σ → Int × σ) (p : UInt8)
    (k sFirst sLast : Nat) (rcode : Int) (s : σ) : Int × σ :=
  (List.range' sFirst (sLast + 1 - sFirst)).foldl (protectSect realProtect p k) (rcode, s)

/-- `flash_sect_protect`. `realProtect` is `flash_real_protect`, or the assignment to
`info->protect[i]` where `CFG_FLASH_PROTECTION` is not defined. -/
def flashSectProtect (realProtect : Nat → Nat → UInt8 → σ → Int × σ) (p : UInt8)
    (flashInfo : List FlashInfo) (first last : UInt32) (s : σ) : Int × σ :=
  flashSect (protectSects realProtect p) flashInfo first last s

/-- Sectors `i` to `j` of the bank are the range from `first` to `last`. -/
structure Whole (info : FlashInfo) (first last : UInt32) (i j : Nat) : Prop where
  le : i ≤ j
  lt : j < info.sectorCount.toNat
  first_eq : info.start i = first
  last_eq : last.toNat + 1 = info.sectorEnd j

/-- Disjoint banks; the sectors of a known one are in ascending order. -/
structure Table (flashInfo : List FlashInfo) : Prop extends Disjoint flashInfo where
  sectors : ∀ info ∈ flashInfo, info.known = true → info.sectorCount ≠ 0 → info.Ascending

variable {flashInfo banks : List FlashInfo} {info : FlashInfo} {first last : UInt32}
  {i j k n : Nat}

/-! ## The loop over the sectors -/

section Scan

/-- The last index below `n` that meets `P`, or `-1`. -/
def lastIdx (P : Nat → Prop) [DecidablePred P] : Nat → Int
  | 0 => -1
  | n + 1 => if P n then n else lastIdx P n

variable {P : Nat → Prop} [DecidablePred P]

theorem lastIdx_cases (P : Nat → Prop) [DecidablePred P] (n : Nat) :
    lastIdx P n = -1 ∨ ∃ i < n, P i ∧ lastIdx P n = i := by
  induction n with
  | zero => exact .inl rfl
  | succ n ih =>
    rw [lastIdx]
    split_ifs with h
    · exact .inr ⟨n, Nat.lt_succ_self n, h, rfl⟩
    · refine ih.imp_right ?_
      rintro ⟨i, hi, hP, heq⟩
      exact ⟨i, Nat.lt_succ_of_lt hi, hP, heq⟩

theorem lastIdx_unique (hi : i < n) (hP : P i) (huniq : ∀ j < n, P j → j = i) :
    lastIdx P n = i := by
  induction n with
  | zero => omega
  | succ n ih =>
    rw [lastIdx]
    split_ifs with h
    · rw [huniq n (Nat.lt_succ_self n) h]
    · have hne : i ≠ n := fun heq => h (heq ▸ hP)
      exact ih (by omega) fun j hj => huniq j (Nat.lt_succ_of_lt hj)

theorem sectRange_eq (info : FlashInfo) (first last : UInt32) :
    info.sectRange first last =
      (lastIdx (fun i => first ≤ info.endOf i ∧ info.start i ≤ last ∧ first = info.start i)
        info.sectorCount.toNat,
      lastIdx (fun i => first ≤ info.endOf i ∧ info.start i ≤ last ∧ last = info.endOf i)
        info.sectorCount.toNat) := by
  rw [sectRange]
  induction info.sectorCount.toNat with
  | zero => rfl
  | succ n ih =>
    rw [List.range_succ, List.foldl_append, ih, List.foldl_cons, List.foldl_nil, lastIdx, lastIdx,
      scanSect]
    by_cases hf : first > info.endOf n
    · rw [if_pos hf, if_neg fun h => absurd h.1 (UInt32.not_le.mpr hf),
        if_neg fun h => absurd h.1 (UInt32.not_le.mpr hf)]
    · by_cases hl : last < info.start n
      · rw [if_neg hf, if_pos hl, if_neg fun h => absurd h.2.1 (UInt32.not_le.mpr hl),
          if_neg fun h => absurd h.2.1 (UInt32.not_le.mpr hl)]
      · simp only [if_neg hf, if_neg hl, UInt32.not_lt.mp hf, UInt32.not_lt.mp hl, true_and]

end Scan

/-! ## The sectors found -/

theorem endOf_toNat (h : info.Ascending) (hi : i < info.sectorCount.toNat) :
    (info.endOf i).toNat + 1 = info.sectorEnd i ∧ (info.start i).toNat ≤ (info.endOf i).toNat := by
  have hle := h.count_le
  have hend : info.sEnd = (info.sectorCount.toNat : Int) - 1 := by
    rw [sEnd, Int.bmod_eq_of_le] <;> omega
  have hbank := h.end_le
  have hpos := h.size_pos
  by_cases hl : i + 1 = info.sectorCount.toNat
  · have hin := h.inside
    obtain rfl : i = info.sectorCount.toNat - 1 := by omega
    rw [endOf, if_pos (by omega), sectorEnd, if_pos hl, UInt32.toNat_sub, UInt32.toNat_add,
      UInt32.toNat_one]
    omega
  · have hasc := UInt32.lt_iff_toNat_lt.mp (h.ascending i (by omega))
    have hlt := (info.start (i + 1)).toNat_lt
    rw [endOf, if_neg (by omega), sectorEnd, if_neg hl, UInt32.toNat_sub, UInt32.toNat_one]
    omega

theorem start_mono (h : info.Ascending) (hij : i ≤ j) (hj : j < info.sectorCount.toNat) :
    (info.start i).toNat ≤ (info.start j).toNat := by
  induction j, hij using Nat.le_induction with
  | base => exact le_rfl
  | succ j hij ih =>
    have hasc := UInt32.lt_iff_toNat_lt.mp (h.ascending j hj)
    exact (ih (by omega)).trans hasc.le

theorem start_inj (h : info.Ascending) (hi : i < info.sectorCount.toNat)
    (hj : j < info.sectorCount.toNat) (heq : info.start i = info.start j) : i = j := by
  have key : ∀ i j, i < j → j < info.sectorCount.toNat →
      (info.start i).toNat < (info.start j).toNat := fun i j hij hj =>
    (UInt32.lt_iff_toNat_lt.mp (h.ascending i (by omega))).trans_le (start_mono h hij hj)
  have hnat := congrArg UInt32.toNat heq
  rcases Nat.lt_trichotomy i j with hlt | rfl | hlt
  · have := key i j hlt hj
    omega
  · rfl
  · have := key j i hlt hi
    omega

theorem sectorEnd_le_start (h : info.Ascending) (hij : i < j) (hj : j < info.sectorCount.toNat) :
    info.sectorEnd i ≤ (info.start j).toNat := by
  rw [sectorEnd, if_neg (by omega)]
  exact start_mono h hij hj

theorem endOf_inj (h : info.Ascending) (hi : i < info.sectorCount.toNat)
    (hj : j < info.sectorCount.toNat) (heq : info.endOf i = info.endOf j) : i = j := by
  obtain ⟨hei, hsi⟩ := endOf_toNat h hi
  obtain ⟨hej, hsj⟩ := endOf_toNat h hj
  have hnat := congrArg UInt32.toNat heq
  rcases Nat.lt_trichotomy i j with hlt | rfl | hlt
  · have := sectorEnd_le_start h hlt hj
    omega
  · rfl
  · have := sectorEnd_le_start h hlt hi
    omega

theorem sectRange_whole (h : info.Ascending) (hw : Whole info first last i j) :
    info.sectRange first last = ((i : Int), (j : Int)) := by
  obtain ⟨hij, hj, rfl, hlast⟩ := hw
  obtain ⟨hei, hsi⟩ := endOf_toNat h (Nat.lt_of_le_of_lt hij hj)
  obtain ⟨hej, hsj⟩ := endOf_toNat h hj
  have hmono := start_mono h hij hj
  have hle : last = info.endOf j := UInt32.toNat_inj.mp (by omega)
  rw [sectRange_eq]
  congr 1
  · refine lastIdx_unique (Nat.lt_of_le_of_lt hij hj)
      ⟨UInt32.le_iff_toNat_le.mpr hsi, UInt32.le_iff_toNat_le.mpr (by omega), rfl⟩ ?_
    rintro i' hi' ⟨-, -, heq⟩
    exact start_inj h hi' (by omega) heq.symm
  · refine lastIdx_unique hj
      ⟨UInt32.le_iff_toNat_le.mpr (by omega), UInt32.le_iff_toNat_le.mpr (by omega), hle⟩ ?_
    rintro j' hj' ⟨-, -, heq⟩
    exact endOf_inj h hj' hj (heq.symm.trans hle)

theorem whole_of_sectRange (h : info.sectorCount ≠ 0 → info.Ascending) {f l : Int}
    (hr : info.sectRange first last = (f, l)) (hf : 0 ≤ f) (hfl : f ≤ l) :
    Whole info first last f.toNat l.toNat := by
  rw [sectRange_eq] at hr
  obtain ⟨hrf, hrl⟩ := Prod.mk.inj hr
  rcases lastIdx_cases (fun i => first ≤ info.endOf i ∧ info.start i ≤ last ∧
    first = info.start i) info.sectorCount.toNat with hn | ⟨i, hi, ⟨-, -, hstart⟩, hpf⟩
  · omega
  rcases lastIdx_cases (fun i => first ≤ info.endOf i ∧ info.start i ≤ last ∧
    last = info.endOf i) info.sectorCount.toNat with hn | ⟨j, hj, ⟨-, -, hend⟩, hpl⟩
  · omega
  have hasc := h fun h0 => by
    rw [h0] at hi
    exact Nat.not_lt_zero _ hi
  obtain rfl : f = i := hrf.symm.trans hpf
  obtain rfl : l = j := hrl.symm.trans hpl
  refine ⟨by omega, hj, hstart.symm, ?_⟩
  rw [hend]
  exact (endOf_toNat hasc hj).1

/-! ## The loop over the banks -/

theorem Whole.count_ne (h : Whole info first last i j) : info.sectorCount ≠ 0 := fun h0 => by
  have hlt := h.lt
  rw [h0] at hlt
  exact Nat.not_lt_zero _ hlt

theorem Whole.start_le (h : Whole info first last i j) (hasc : info.Ascending) :
    first.toNat ≤ last.toNat := by
  obtain ⟨hij, hj, rfl, hlast⟩ := h
  obtain ⟨hej, hsj⟩ := endOf_toNat hasc hj
  have hmono := start_mono hasc hij hj
  omega

theorem Whole.holds_first (h : Whole info first last i j) (hasc : info.Ascending)
    (hk : info.known = true) : info.holds first = true := by
  obtain ⟨hij, hj, rfl, -⟩ := h
  refine (holds_iff hasc.toWellPlaced).mpr ⟨hk, start_mono hasc (Nat.zero_le i) (by omega), ?_⟩
  have hin := hasc.inside
  have hmono := start_mono hasc (show i ≤ info.sectorCount.toNat - 1 by omega) (by omega)
  omega

variable {act : Nat → Nat → Nat → Int → σ → Int × σ} {count rcode : Int} {s : σ}

/-- A bank in which the range is not a run of whole sectors is passed over. -/
theorem sectLoop_skip (hasc : info.known = true → info.sectorCount ≠ 0 → info.Ascending)
    (h : info.known = true → ∀ i j, ¬ Whole info first last i j) :
    sectLoop act first last (info :: banks) k count rcode s =
      sectLoop act first last banks (k + 1) count rcode s := by
  rw [sectLoop]
  by_cases hk : info.known = true
  · have hno : ¬ (0 ≤ (info.sectRange first last).1 ∧
        (info.sectRange first last).1 ≤ (info.sectRange first last).2) := fun hr =>
      h hk _ _ (whole_of_sectRange (hasc hk) rfl hr.1 hr.2)
    rw [if_neg (not_not.mpr hk)]
    exact if_neg hno
  · rw [if_pos hk]

theorem sectLoop_none
    (h : ∀ info ∈ banks, info.known = true → (info.sectorCount ≠ 0 → info.Ascending) ∧
      ∀ i j, ¬ Whole info first last i j) :
    sectLoop act first last banks k count rcode s = (count, rcode, s) := by
  induction banks generalizing k with
  | nil => rfl
  | cons info banks ih =>
    obtain ⟨hinfo, h⟩ := List.forall_mem_cons.mp h
    rw [sectLoop_skip (fun hk => (hinfo hk).1) fun hk => (hinfo hk).2]
    exact ih h

/-- The one bank in which it is a run of whole sectors gets the operation. -/
theorem sectLoop_whole {m : Nat} (hm : banks[m]? = some info) (hk : info.known = true)
    (hasc : info.Ascending) (hw : Whole info first last i j)
    (h : ∀ m' info', banks[m']? = some info' → m' ≠ m → info'.known = true →
      (info'.sectorCount ≠ 0 → info'.Ascending) ∧ ∀ i j, ¬ Whole info' first last i j) :
    sectLoop act first last banks k count rcode s =
      (count + ((j : Int) - i + 1), act (k + m) i j rcode s) := by
  induction banks generalizing k m with
  | nil => cases hm
  | cons info' banks ih =>
    cases m with
    | zero =>
      cases hm
      have hle : (0 : Int) ≤ i ∧ (i : Int) ≤ j := ⟨by omega, by exact_mod_cast hw.le⟩
      rw [sectLoop, if_neg (not_not.mpr hk), sectRange_whole hasc hw]
      simp only [if_pos hle, Int.toNat_natCast, Nat.add_zero]
      refine sectLoop_none fun info' hmem => ?_
      obtain ⟨m', hm'⟩ := List.mem_iff_getElem?.mp hmem
      exact h (m' + 1) info' hm' (Nat.succ_ne_zero m')
    | succ m =>
      have hother := h 0 info' rfl (Nat.succ_ne_zero m).symm
      rw [sectLoop_skip (fun hk => (hother hk).1) fun hk => (hother hk).2,
        ih hm fun m' info'' hm' hne => h (m' + 1) info'' hm' (by omega)]
      rw [Nat.add_assoc, Nat.add_comm 1 m]

/-- In a table of disjoint banks a range is a run of whole sectors of one bank at most. -/
theorem whole_unique (ht : Table flashInfo) {k' i' j' : Nat} {info' : FlashInfo}
    (hk : flashInfo[k]? = some info) (hkn : info.known = true) (hw : Whole info first last i j)
    (hk' : flashInfo[k']? = some info') (hkn' : info'.known = true)
    (hw' : Whole info' first last i' j') : k' = k := by
  have hasc := ht.sectors info (List.mem_of_getElem? hk) hkn hw.count_ne
  have hasc' := ht.sectors info' (List.mem_of_getElem? hk') hkn' hw'.count_ne
  exact (holds_unique ht.toDisjoint hk hk' (hw.holds_first hasc hkn)
    (hw'.holds_first hasc' hkn')).symm

theorem flashSect_none (ht : Table flashInfo)
    (h : ∀ info ∈ flashInfo, info.known = true → ∀ i j, ¬ Whole info first last i j) :
    flashSect act flashInfo first last s = (1, s) := by
  rw [flashSect, sectLoop_none fun info hinfo hk => ⟨ht.sectors info hinfo hk, h info hinfo hk⟩]
  rfl

theorem flashSect_whole (ht : Table flashInfo) (hk : flashInfo[k]? = some info)
    (hkn : info.known = true) (hw : Whole info first last i j) :
    flashSect act flashInfo first last s = act k i j 0 s := by
  have hasc := ht.sectors info (List.mem_of_getElem? hk) hkn hw.count_ne
  have hcount : (0 : Int) + ((j : Int) - i + 1) ≠ 0 := by
    have := hw.le
    omega
  rw [flashSect, sectLoop_whole hk hkn hasc hw fun m' info' hm' hne hkn' =>
    ⟨ht.sectors info' (List.mem_of_getElem? hm') hkn', fun i' j' hw' =>
      hne (whole_unique ht hk hkn hw hm' hkn' hw')⟩]
  simp only [if_pos hcount, Nat.zero_add]

/-- A write that stays in one bank is one call of `write_buff`, unless it is refused. -/
theorem flashWrite_one {src : List UInt8} {addr : UInt32}
    {writeBuff : Nat → List UInt8 → UInt32 → σ → Int × σ} (ht : Disjoint flashInfo)
    (hk : flashInfo[k]? = some info) (hfirst : info.holds addr = true)
    (hlast : info.holds (lastAddr addr src.length) = true) (h0 : 0 < src.length)
    (hcnt : src.length < 2 ^ 32) (hle : addr ≤ lastAddr addr src.length) :
    flashWrite flashInfo writeBuff src addr s = (errProtected, s) ∨
      flashWrite flashInfo writeBuff src addr s = writeBuff k src addr s := by
  have hw := ht.placed info (List.mem_of_getElem? hk) (known_of_holds hfirst)
  have hlen := le_bEnd_sub hw hfirst h0 hcnt hlast hle
  have hbank : ∀ {a}, info.holds a = true → addr2info flashInfo a = some k := fun {a} ha => by
    cases hfind : addr2info flashInfo a with
    | none =>
      rw [addr2info_eq_none.mp hfind info (List.mem_of_getElem? hk)] at ha
      cases ha
    | some k' =>
      obtain ⟨info', hk', ha'⟩ := exists_of_addr2info hfind
      rw [holds_unique ht hk' hk ha' ha]
  have hone : banksBetween flashInfo k k = [info] := by
    obtain ⟨hlt, rfl⟩ := List.getElem?_eq_some_iff.mp hk
    rw [banksBetween, Nat.add_sub_cancel_left, List.drop_eq_getElem_cons hlt, List.take_succ_cons,
      List.take_zero]
  rw [flashWrite, if_neg (Nat.ne_of_gt h0), hbank hfirst, hbank hlast]
  simp only [hone]
  split_ifs
  · exact .inl rfl
  · refine .inr ?_
    have hmin : (info.start 0 + info.size - addr).toNat > src.length ∨
        (info.start 0 + info.size - addr).toNat = src.length := hlen.lt_or_eq.imp_right Eq.symm
    have hsize : (if (info.start 0 + info.size - addr).toNat > src.length then src.length
        else (info.start 0 + info.size - addr).toNat) = src.length := by
      split_ifs with h
      · rfl
      · exact hmin.resolve_left h
    rw [writeLoop, if_neg (Nat.ne_of_gt h0)]
    simp only [hsize, List.take_length, writeLoop]
    split_ifs with hrc
    · rfl
    · exact Prod.ext (not_not.mp hrc).symm rfl

/-! ## What the commands reach -/

/-- A sector is a bank and a number. The sectors touched make up the range. -/
def Reaches (flashInfo : List FlashInfo) (touched : List (Nat × Nat)) (first last : UInt32) :
    Prop :=
  ∀ a, (∃ x ∈ touched, ∃ info, flashInfo[x.1]? = some info ∧ info.InSector x.2 a) ↔
    first ≤ a ∧ a ≤ last

/-- The range is a run of whole sectors of one known bank. -/
def Runs (flashInfo : List FlashInfo) (first last : UInt32) : Prop :=
  ∃ (k : Nat) (info : FlashInfo) (i j : Nat), flashInfo[k]? = some info ∧ info.known = true ∧
    Whole info first last i j

/-- A `flash_erase` that also notes the sectors it is called for. -/
def recordErase (flashErase : Nat → Nat → Nat → σ → Int × σ) (k sFirst sLast : Nat)
    (s : σ × List (Nat × Nat)) : Int × σ × List (Nat × Nat) :=
  ((flashErase k sFirst sLast s.1).1, (flashErase k sFirst sLast s.1).2,
    s.2 ++ (List.range' sFirst (sLast + 1 - sFirst)).map (k, ·))

/-- The same for `flash_real_protect`, with the flag it is given. -/
def recordProtect (realProtect : Nat → Nat → UInt8 → σ → Int × σ) (k i : Nat) (p : UInt8)
    (s : σ × List ((Nat × Nat) × UInt8)) : Int × σ × List ((Nat × Nat) × UInt8) :=
  ((realProtect k i p s.1).1, (realProtect k i p s.1).2, s.2 ++ [((k, i), p)])

/-- The command reached exactly the range and returned 0, or it touched nothing and failed; the
first where it can. -/
structure Exact (flashInfo : List FlashInfo) (first last : UInt32) (s : σ)
    (r : Int × σ × List (Nat × Nat)) : Prop where
  all_or_nothing : (r.1 = 0 ∧ Reaches flashInfo r.2.2 first last) ∨ (r.1 ≠ 0 ∧ r.2 = (s, []))
  whole : Runs flashInfo first last → r.1 = 0 ∧ Reaches flashInfo r.2.2 first last

theorem exists_inSector_iff (h : info.Ascending) (hij : i ≤ j) (hj : j < info.sectorCount.toNat)
    (a : UInt32) : (∃ x, i ≤ x ∧ x ≤ j ∧ info.InSector x a) ↔
      (info.start i).toNat ≤ a.toNat ∧ a.toNat < info.sectorEnd j := by
  induction j, hij using Nat.le_induction with
  | base =>
    constructor
    · rintro ⟨x, hix, hxi, hin⟩
      obtain rfl := Nat.le_antisymm hxi hix
      exact hin.2
    · exact fun hin => ⟨i, le_rfl, le_rfl, hj, hin⟩
  | succ j hij ih =>
    have hend : info.sectorEnd j = (info.start (j + 1)).toNat := if_neg (by omega)
    have hmono := start_mono h (show i ≤ j + 1 by omega) hj
    have hnext := (endOf_toNat h hj)
    constructor
    · rintro ⟨x, hix, hxj, hin⟩
      rcases Nat.lt_or_ge j x with hlt | hle
      · obtain rfl : x = j + 1 := by omega
        exact ⟨hmono.trans hin.2.1, hin.2.2⟩
      · have := (ih (by omega)).mp ⟨x, hix, hle, hin⟩
        omega
    · rintro ⟨hlo, hhi⟩
      rcases Nat.lt_or_ge a.toNat (info.sectorEnd j) with hlt | hge
      · obtain ⟨x, hix, hxj, hin⟩ := (ih (by omega)).mpr ⟨hlo, hlt⟩
        exact ⟨x, hix, by omega, hin⟩
      · exact ⟨j + 1, by omega, le_rfl, hj, hend ▸ hge, hhi⟩

theorem reaches_whole (ht : Table flashInfo) (hk : flashInfo[k]? = some info)
    (hkn : info.known = true) (hw : Whole info first last i j) :
    Reaches flashInfo ((List.range' i (j + 1 - i)).map (k, ·)) first last := by
  intro a
  have hasc := ht.sectors info (List.mem_of_getElem? hk) hkn hw.count_ne
  obtain ⟨hij, hj, rfl, hlast⟩ := hw
  have hin := exists_inSector_iff hasc hij hj a
  rw [← hlast, Nat.lt_succ_iff, ← UInt32.le_iff_toNat_le, ← UInt32.le_iff_toNat_le] at hin
  rw [← hin]
  constructor
  · rintro ⟨x, hx, info', hk', hsect⟩
    obtain ⟨m, hm, rfl⟩ := List.mem_map.mp hx
    rw [List.mem_range'_1] at hm
    rw [hk] at hk'
    cases hk'
    exact ⟨m, hm.1, by omega, hsect⟩
  · rintro ⟨x, hix, hxj, hsect⟩
    exact ⟨(k, x), List.mem_map.mpr ⟨x, List.mem_range'_1.mpr ⟨hix, by omega⟩, rfl⟩, info, hk,
      hsect⟩

theorem protectSects_record {realProtect : Nat → Nat → UInt8 → σ → Int × σ}
    (h : ∀ k i p s, (realProtect k i p s).1 = 0) (p : UInt8) (s : σ) :
    (protectSects (recordProtect realProtect) p k i j 0 (s, [])).1 = 0 ∧
    (protectSects (recordProtect realProtect) p k i j 0 (s, [])).2.2 =
      (List.range' i (j + 1 - i)).map fun m => ((k, m), p) := by
  have hfold : ∀ (is : List Nat) (s : σ × List ((Nat × Nat) × UInt8)),
      (is.foldl (protectSect (recordProtect realProtect) p k) (0, s)).1 = 0 ∧
      (is.foldl (protectSect (recordProtect realProtect) p k) (0, s)).2.2 =
        s.2 ++ is.map fun m => ((k, m), p) := by
    intro is
    induction is with
    | nil => exact fun s => ⟨rfl, (List.append_nil _).symm⟩
    | cons i is ih =>
      intro s
      obtain ⟨hrc, ht⟩ := ih (recordProtect realProtect k i p s).2
      have hz : (recordProtect realProtect k i p s).1 = 0 := h ..
      rw [List.foldl_cons, protectSect]
      simp only [hz, ne_eq, not_true_eq_false, if_false]
      refine ⟨hrc, ht.trans ?_⟩
      rw [List.map_cons, recordProtect, List.append_assoc, List.singleton_append]
  obtain ⟨hrc, ht⟩ := hfold (List.range' i (j + 1 - i)) (s, [])
  exact ⟨hrc, ht⟩

/-- A command is exact when its operation on the sectors of one bank is. The notes tell of the
sectors touched. -/
theorem exact_of_act {β : Type*} (note : Nat × Nat → β)
    {act : Nat → Nat → Nat → Int → σ × List β → Int × σ × List β} (ht : Table flashInfo)
    (first last : UInt32) (s : σ)
    (hact : ∀ k i j, (act k i j 0 (s, [])).1 = 0 ∧
      (act k i j 0 (s, [])).2.2 = (List.range' i (j + 1 - i)).map fun m => note (k, m)) :
    ∃ touched, (flashSect act flashInfo first last (s, [])).2.2 = touched.map note ∧
      Exact flashInfo first last s ((flashSect act flashInfo first last (s, [])).1,
        (flashSect act flashInfo first last (s, [])).2.1, touched) := by
  by_cases h : Runs flashInfo first last
  · obtain ⟨k, info, i, j, hk, hkn, hw⟩ := h
    obtain ⟨hrc, hnotes⟩ := hact k i j
    have hreach := reaches_whole ht hk hkn hw
    rw [flashSect_whole ht hk hkn hw, hnotes]
    refine ⟨(List.range' i (j + 1 - i)).map (k, ·), ?_, .inl ⟨hrc, hreach⟩, fun _ => ⟨hrc, hreach⟩⟩
    rw [List.map_map]
    rfl
  · rw [flashSect_none ht fun info hinfo hkn i j hw => ?_]
    · exact ⟨[], rfl, .inr ⟨one_ne_zero, rfl⟩, fun hrun => absurd hrun h⟩
    · obtain ⟨k, hk⟩ := List.mem_iff_getElem?.mp hinfo
      exact h ⟨k, info, i, j, hk, hkn, hw⟩

/-- **A range command is exact or does nothing.** With drivers that succeed, `flash_sect_erase`
and `flash_sect_protect` reach exactly the range and return 0, or touch no sector and fail; the
first for every run of whole sectors of a known bank. Every sector that `flash_sect_protect`
reaches gets the flag `p`. -/
theorem flash_sect_exact (ht : Table flashInfo) (first last : UInt32) (s : σ) :
    (∀ flashErase : Nat → Nat → Nat → σ → Int × σ, (∀ k i j s, (flashErase k i j s).1 = 0) →
      Exact flashInfo first last s
        (flashSectErase (recordErase flashErase) flashInfo first last (s, []))) ∧
    (∀ realProtect : Nat → Nat → UInt8 → σ → Int × σ, (∀ k i p s, (realProtect k i p s).1 = 0) →
      ∀ p, ∃ touched,
        (flashSectProtect (recordProtect realProtect) p flashInfo first last (s, [])).2.2 =
          touched.map (·, p) ∧
        Exact flashInfo first last s
          ((flashSectProtect (recordProtect realProtect) p flashInfo first last (s, [])).1,
            (flashSectProtect (recordProtect realProtect) p flashInfo first last (s, [])).2.1,
            touched)) := by
  refine ⟨fun flashErase h => ?_, fun _ h p =>
    exact_of_act (·, p) ht first last s fun _ _ _ => protectSects_record h p s⟩
  have hact (k i j : Nat) : (recordErase flashErase k i j (s, [])).1 = 0 ∧
      (recordErase flashErase k i j (s, [])).2.2 =
        (List.range' i (j + 1 - i)).map fun m => id (k, m) := ⟨h k i j s, List.nil_append _⟩
  obtain ⟨touched, hnotes, hexact⟩ :=
    @exact_of_act _ _ _ id (fun k i j _ s => recordErase flashErase k i j s) ht first last s hact
  rw [List.map_id] at hnotes
  subst hnotes
  exact hexact

theorem topBank_table : Table [topBank] := by
  refine ⟨⟨fun info hinfo _ => ?_, List.pairwise_singleton _ _⟩, fun info hinfo _ =>
    topBank_sectored info hinfo⟩
  obtain rfl := List.mem_singleton.mp hinfo
  exact ⟨by decide, by decide⟩

/-- The upper sector of a bank that ends at 0xFFFFFFFF. -/
theorem flash_sect_exact_top :
    Exact [topBank] 0xFFFF8000 0xFFFFFFFF ()
      (flashSectErase (recordErase fun _ _ _ s => (0, s)) [topBank] 0xFFFF8000 0xFFFFFFFF
        ((), [])) ∧
    (flashSectErase (recordErase fun _ _ _ s => (0, s)) [topBank] 0xFFFF8000 0xFFFFFFFF
      ((), [])).2.2 = [(0, 1)] :=
  ⟨(flash_sect_exact topBank_table _ _ ()).1 _ fun _ _ _ _ => rfl, by decide⟩

end UBoot.Flash
