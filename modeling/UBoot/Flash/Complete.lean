import UBoot.Flash.Write
import UBoot.Lib.Mem32

/-!
# What `flash_write` writes

`Completes` is the contract of a caller: `ERR_OK` means that every byte of the range went to
its address exactly once, each call inside its own bank; a range that leaves the known
banks is refused with `ERR_INVAL` and nothing is written.

The write loop hands each bank what is left of the source up to the bank's end, and goes on
to the next entry of the table. So it completes a range exactly when the entries from the
first to the last bank are known banks, each beginning where the one before ends
(`WritesThrough`).
-/

namespace UBoot.Flash

open FlashInfo UBoot.Lib

/-- The bytes `data` at `addr` and the addresses behind it. -/
def bytesAt (addr : UInt32) (data : List UInt8) : List (UInt32 × UInt8) :=
  data.zipIdx.map fun p => (addr + UInt32.ofNat p.2, p.1)

def written (calls : List Call) : List (UInt32 × UInt8) :=
  calls.flatMap fun c => bytesAt c.addr c.data

/-- The call is for a known bank and for addresses of that bank. -/
def InsideOwnBank (flashInfo : List FlashInfo) (c : Call) : Prop :=
  ∃ info, flashInfo[c.bank]? = some info ∧ info.known = true ∧
    ∀ j < c.data.length, info.holds (c.addr + UInt32.ofNat j) = true

/-- Every address of the range lies in a known bank. -/
def Covered (flashInfo : List FlashInfo) (addr : UInt32) (cnt : Nat) : Prop :=
  ∀ j < cnt, ∃ info ∈ flashInfo, info.holds (addr + UInt32.ofNat j) = true

/-- The contract of `flash_write`, for every behaviour of `write_buff`. -/
structure Completes (flashInfo : List FlashInfo) (src : List UInt8) (addr : UInt32) : Prop where
  ok : ∀ answer, (flashWrite flashInfo (logged answer) src addr []).1 = errOk →
    (written (flashWrite flashInfo (logged answer) src addr []).2).Perm (bytesAt addr src) ∧
    ∀ c ∈ (flashWrite flashInfo (logged answer) src addr []).2, InsideOwnBank flashInfo c
  inval : ¬ Covered flashInfo addr src.length → ∀ answer,
    flashWrite flashInfo (logged answer) src addr [] = (errInval, [])

/-- Known banks, each beginning where the one before it in the list ends. -/
def Contiguous (banks : List FlashInfo) : Prop :=
  (∀ info ∈ banks, info.known = true) ∧ banks.IsChain fun a b => b.start 0 = a.bEnd

/-- The table between the two banks leads through the range. A range inside one bank does not
wrap around the address space. -/
def WritesThrough (flashInfo : List FlashInfo) (first last : Nat) (addr : UInt32) (cnt : Nat) :
    Prop :=
  first ≤ last ∧ (first = last → addr ≤ lastAddr addr cnt) ∧
    Contiguous (banksBetween flashInfo first last)

/-- Known banks of positive size inside the address space, no two of which share an
address. -/
structure Disjoint (flashInfo : List FlashInfo) : Prop where
  placed : ∀ info ∈ flashInfo, info.known = true → info.WellPlaced
  disjoint : flashInfo.Pairwise fun a b => ∀ addr, ¬ (a.holds addr = true ∧ b.holds addr = true)

variable {flashInfo banks : List FlashInfo} {info : FlashInfo} {src : List UInt8}
  {addr : UInt32} {k cnt : Nat}

section Bytes

theorem bytesAt_length (data : List UInt8) : (bytesAt addr data).length = data.length := by
  rw [bytesAt, List.length_map, List.length_zipIdx]

theorem bytesAt_append (a b : List UInt8) :
    bytesAt addr (a ++ b) = bytesAt addr a ++ bytesAt (addr + UInt32.ofNat a.length) b := by
  simp only [bytesAt, List.zipIdx_append, List.map_append, Nat.zero_add]
  congr 1
  rw [List.zipIdx_eq_map_add, List.map_map]
  refine List.map_congr_left fun p _ => ?_
  simp only [Function.comp_apply, UInt32.ofNat_add, UInt32.add_assoc]

end Bytes

section Addresses

theorem known_of_holds (h : info.holds addr = true) : info.known = true := by
  simp only [holds, Bool.and_eq_true] at h
  exact h.1.1

theorem lastAddr_toNat (h0 : 0 < cnt) (h : cnt < 2 ^ 32) :
    (lastAddr addr cnt).toNat = (addr.toNat + cnt - 1) % 2 ^ 32 := by
  rw [lastAddr, UInt32.toNat_sub, UInt32.toNat_add, UInt32.toNat_ofNat', UInt32.toNat_one]
  omega

theorem lastAddr_step {len : Nat} (h : len ≤ cnt) :
    lastAddr (addr + UInt32.ofNat len) (cnt - len) = lastAddr addr cnt := by
  have hadd : UInt32.ofNat cnt = UInt32.ofNat len + UInt32.ofNat (cnt - len) := by
    rw [← UInt32.ofNat_add, Nat.add_sub_cancel' h]
  rw [lastAddr, lastAddr, hadd]
  grind

theorem holds_add (hw : info.WellPlaced) (ha : info.holds addr = true) {j : Nat}
    (hj : j < (info.bEnd - addr).toNat) : info.holds (addr + UInt32.ofNat j) = true := by
  rw [bEnd_sub_toNat hw ha] at hj
  obtain ⟨hkn, hlo, hhi⟩ := (holds_iff hw).mp ha
  have hle := hw.end_le
  refine (holds_iff hw).mpr ⟨hkn, ?_⟩
  rw [UInt32.toNat_add, UInt32.toNat_ofNat']
  omega

/-- A range that does not go past the end of its first bank ends inside it. -/
theorem holds_lastAddr (hw : info.WellPlaced) (ha : info.holds addr = true) (h0 : 0 < cnt)
    (h : cnt ≤ (info.bEnd - addr).toNat) :
    info.holds (lastAddr addr cnt) = true ∧ addr ≤ lastAddr addr cnt := by
  rw [bEnd_sub_toNat hw ha] at h
  obtain ⟨hkn, hlo, hhi⟩ := (holds_iff hw).mp ha
  have hle := hw.end_le
  have hsize := info.size.toNat_lt
  have hlast := @lastAddr_toNat addr cnt h0 (by omega)
  rw [UInt32.le_iff_toNat_le, hlast]
  refine ⟨(holds_iff hw).mpr ⟨hkn, ?_⟩, by omega⟩
  rw [hlast]
  omega

/-- A range that ends inside its first bank without wrapping does not go past its end. -/
theorem le_bEnd_sub (hw : info.WellPlaced) (ha : info.holds addr = true) (h0 : 0 < cnt)
    (hcnt : cnt < 2 ^ 32) (hlast : info.holds (lastAddr addr cnt) = true)
    (hle : addr ≤ lastAddr addr cnt) : cnt ≤ (info.bEnd - addr).toNat := by
  obtain ⟨_, hlo, hhi⟩ := (holds_iff hw).mp ha
  obtain ⟨_, hlo', hhi'⟩ := (holds_iff hw).mp hlast
  rw [UInt32.le_iff_toNat_le] at hle
  rw [lastAddr_toNat h0 hcnt] at hlo' hhi' hle
  rw [bEnd_sub_toNat hw ha]
  have := addr.toNat_lt
  omega

theorem add_bEnd_sub : addr + UInt32.ofNat (info.bEnd - addr).toNat = info.bEnd := by
  rw [UInt32.ofNat_toNat]
  grind

/-- What goes on in the next bank has the same last address. -/
theorem lastAddr_drop (h : (info.bEnd - addr).toNat ≤ src.length) :
    lastAddr info.bEnd (src.drop (info.bEnd - addr).toNat).length =
      lastAddr addr src.length := by
  have hstep := @lastAddr_step addr src.length (info.bEnd - addr).toNat h
  rw [add_bEnd_sub] at hstep
  rw [List.length_drop, hstep]

theorem holds_bEnd_sub_one (hw : info.WellPlaced) (hk : info.known = true) :
    info.holds (info.bEnd - 1) = true := by
  have hp := hw.size_pos
  have hle := hw.end_le
  refine (holds_iff hw).mpr ⟨hk, ?_⟩
  rw [UInt32.toNat_sub, bEnd_toNat, UInt32.toNat_one]
  omega

/-- A bank that holds the end of another one, but not the byte before it, begins there. -/
theorem start_eq_of_holds {a b : FlashInfo} (hb : b.WellPlaced) (hend : b.holds a.bEnd = true)
    (hnot : b.holds (a.bEnd - 1) ≠ true) : b.start 0 = a.bEnd := by
  obtain ⟨hk, hlo, hhi⟩ := (holds_iff hb).mp hend
  rw [ne_eq, holds_iff hb, not_and] at hnot
  have hnot := hnot hk
  have hlt := a.bEnd.toNat_lt
  apply UInt32.toNat_inj.mp
  rw [UInt32.toNat_sub, UInt32.toNat_one] at hnot
  omega

end Addresses

section Calls

theorem holds_unique (ht : Disjoint flashInfo) {k k' : Nat} {a b : FlashInfo}
    (hk : flashInfo[k]? = some a) (hk' : flashInfo[k']? = some b) (ha : a.holds addr = true)
    (hb : b.holds addr = true) : k = k' := by
  obtain ⟨hlt, rfl⟩ := List.getElem?_eq_some_iff.mp hk
  obtain ⟨hlt', rfl⟩ := List.getElem?_eq_some_iff.mp hk'
  have hpw := List.pairwise_iff_getElem.mp ht.disjoint
  rcases Nat.lt_trichotomy k k' with h | h | h
  · exact absurd ⟨ha, hb⟩ (hpw k k' hlt hlt' h addr)
  · exact h
  · exact absurd ⟨hb, ha⟩ (hpw k' k hlt' hlt h addr)

/-- The first call, for the bank that holds the address, and the calls behind it. -/
theorem callsOf_cons (hsrc : src.length ≠ 0) : callsOf (info :: banks) k src addr =
    ⟨k, addr, src.take (min (info.bEnd - addr).toNat src.length)⟩ ::
      callsOf banks (k + 1) (src.drop (min (info.bEnd - addr).toNat src.length))
        (addr + UInt32.ofNat (min (info.bEnd - addr).toNat src.length)) := by
  rw [callsOf, if_neg hsrc]

theorem callsOf_nil (hsrc : src.length = 0) : callsOf banks k src addr = [] := by
  cases banks with
  | nil => rfl
  | cons info banks => rw [callsOf, if_pos hsrc]

theorem written_cons (c : Call) (calls : List Call) :
    written (c :: calls) = bytesAt c.addr c.data ++ written calls := rfl

/-- The banks of a list are those of the table from index `k` on. -/
def From (flashInfo : List FlashInfo) (k : Nat) (banks : List FlashInfo) : Prop :=
  ∀ i (h : i < banks.length), flashInfo[k + i]? = some banks[i]

theorem From.head (h : From flashInfo k (info :: banks)) : flashInfo[k]? = some info :=
  h 0 (Nat.succ_pos _)

theorem From.tail (h : From flashInfo k (info :: banks)) : From flashInfo (k + 1) banks := by
  intro i hi
  have := h (i + 1) (Nat.succ_lt_succ hi)
  rwa [List.getElem_cons_succ, ← Nat.add_assoc, Nat.add_right_comm] at this

theorem From.placed (ht : Disjoint flashInfo) (h : From flashInfo k (info :: banks))
    (hk : info.known = true) : info.WellPlaced :=
  ht.placed info (List.mem_of_getElem? h.head) hk

theorem inside_take {n : Nat} (hw : info.WellPlaced) (hk : flashInfo[k]? = some info)
    (hfirst : info.holds addr = true) (hn : n ≤ (info.bEnd - addr).toNat) :
    InsideOwnBank flashInfo ⟨k, addr, src.take n⟩ :=
  ⟨info, hk, known_of_holds hfirst, fun _ hj =>
    holds_add hw hfirst (hj.trans_le ((List.length_take_le _ _).trans hn))⟩

/-- A range that ends in its first bank is written by one call. -/
theorem callsOf_inside (hw : info.WellPlaced) (hk : flashInfo[k]? = some info)
    (hfirst : info.holds addr = true) (h0 : 0 < src.length)
    (hge : src.length ≤ (info.bEnd - addr).toNat) :
    written (callsOf (info :: banks) k src addr) = bytesAt addr src ∧
      ∀ c ∈ callsOf (info :: banks) k src addr, InsideOwnBank flashInfo c := by
  rw [callsOf_cons (Nat.ne_of_gt h0), Nat.min_eq_right hge, List.take_length,
    callsOf_nil (by rw [List.length_drop, Nat.sub_self])]
  refine ⟨List.append_nil _, fun c hmem => ?_⟩
  obtain rfl := List.mem_singleton.mp hmem
  have hin : InsideOwnBank flashInfo ⟨k, addr, src.take src.length⟩ :=
    inside_take hw hk hfirst hge
  rwa [List.take_length] at hin

/-- The first call for a range that goes on in the next bank. -/
theorem callsOf_past (hlt : (info.bEnd - addr).toNat < src.length) :
    callsOf (info :: banks) k src addr = ⟨k, addr, src.take (info.bEnd - addr).toNat⟩ ::
      callsOf banks (k + 1) (src.drop (info.bEnd - addr).toNat) info.bEnd := by
  rw [callsOf_cons (by omega), Nat.min_eq_left hlt.le, add_bEnd_sub]

/-- **Contiguous banks take the whole range.** The first bank holds the first address, the last
one the last address. -/
theorem callsOf_contiguous (ht : Disjoint flashInfo) (hfrom : From flashInfo k (info :: banks))
    (hc : Contiguous (info :: banks)) (hfirst : info.holds addr = true)
    (h0 : 0 < src.length) (hcnt : src.length < 2 ^ 32)
    (hlast : ∀ b ∈ (info :: banks).getLast?, b.holds (lastAddr addr src.length) = true)
    (hone : banks = [] → addr ≤ lastAddr addr src.length) :
    written (callsOf (info :: banks) k src addr) = bytesAt addr src ∧
      ∀ c ∈ callsOf (info :: banks) k src addr, InsideOwnBank flashInfo c := by
  induction banks generalizing info k src addr with
  | nil =>
    have hw := hfrom.placed ht (known_of_holds hfirst)
    exact callsOf_inside hw hfrom.head hfirst h0
      (le_bEnd_sub hw hfirst h0 hcnt (hlast info rfl) (hone rfl))
  | cons next banks ih =>
    have hw := hfrom.placed ht (known_of_holds hfirst)
    rcases Nat.lt_or_ge (info.bEnd - addr).toNat src.length with hlt | hge
    · -- the range goes on in the next bank, which begins at the end of this one
      obtain ⟨hknown, hchain⟩ := hc
      obtain ⟨hstart, hchain⟩ := List.isChain_cons_cons.mp hchain
      have hnk : next.known = true := hknown next (by simp)
      have hnw := hfrom.tail.placed ht hnk
      have hnext : next.holds info.bEnd = true := by
        have := hnw.size_pos
        refine (holds_iff hnw).mpr ⟨hnk, ?_⟩
        rw [hstart]
        omega
      have hrest : 0 < (src.drop (info.bEnd - addr).toNat).length := by
        rw [List.length_drop]
        omega
      have hend := lastAddr_drop hlt.le
      have hnone : banks = [] →
          info.bEnd ≤ lastAddr info.bEnd (src.drop (info.bEnd - addr).toNat).length := by
        rintro rfl
        obtain ⟨_, hlo, _⟩ := (holds_iff hnw).mp (hlast next rfl)
        rwa [hend, ← hstart, UInt32.le_iff_toNat_le]
      obtain ⟨hwr, hin⟩ := ih (k := k + 1) hfrom.tail
        ⟨fun b hb => hknown b (List.mem_cons_of_mem _ hb), hchain⟩ hnext hrest
        (by rw [List.length_drop]; omega)
        (fun b hb => by rw [hend]; exact hlast b (by rwa [List.getLast?_cons_cons])) hnone
      rw [callsOf_past hlt, written_cons, hwr]
      refine ⟨?_, List.forall_mem_cons.mpr ⟨inside_take hw hfrom.head hfirst le_rfl, hin⟩⟩
      have hsplit := @bytesAt_append addr (src.take (info.bEnd - addr).toNat)
        (src.drop (info.bEnd - addr).toNat)
      rw [List.take_append_drop, List.length_take, Nat.min_eq_left hlt.le, add_bEnd_sub] at hsplit
      exact hsplit.symm
    · exact callsOf_inside hw hfrom.head hfirst h0 hge

/-- The call for the next bank is inside it, so this bank begins where the one before ends. -/
theorem next_begins {next : FlashInfo} (ht : Disjoint flashInfo)
    (hfrom : From flashInfo k (info :: next :: banks)) (hk : info.known = true)
    (hsrc : src.length ≠ 0)
    (hin : ∀ c ∈ callsOf (next :: banks) (k + 1) src info.bEnd, InsideOwnBank flashInfo c) :
    next.holds info.bEnd = true ∧ next.start 0 = info.bEnd := by
  rw [callsOf_cons hsrc] at hin
  obtain ⟨b, hb, hbk, hbin⟩ := (List.forall_mem_cons.mp hin).1
  rw [hfrom.tail.head] at hb
  cases hb
  have hnw := hfrom.tail.placed ht hbk
  have hnot : next.holds (info.bEnd - 1) ≠ true := fun h => by
    have := holds_unique ht hfrom.head hfrom.tail.head
      (holds_bEnd_sub_one (hfrom.placed ht hk) hk) h
    omega
  have hpos : (next.bEnd - info.bEnd).toNat ≠ 0 := fun h => by
    have heq : next.bEnd = info.bEnd := by
      have : next.bEnd - info.bEnd = 0 := UInt32.toNat_inj.mp h
      grind
    exact hnot (heq ▸ holds_bEnd_sub_one hnw hbk)
  have hh : next.holds (info.bEnd + 0) = true := hbin 0 (by rw [List.length_take]; omega)
  rw [UInt32.add_zero] at hh
  exact ⟨hh, start_eq_of_holds hnw hh hnot⟩

/-- A range whose last address is in a later bank goes past the end of its first one. -/
theorem goes_past {next : FlashInfo} (ht : Disjoint flashInfo)
    (hfrom : From flashInfo k (info :: next :: banks)) (hfirst : info.holds addr = true)
    (h0 : 0 < src.length)
    (hlast : ∀ b ∈ (info :: next :: banks).getLast?, b.holds (lastAddr addr src.length) = true) :
    (info.bEnd - addr).toNat < src.length := by
  by_contra hge
  have hw := hfrom.placed ht (known_of_holds hfirst)
  have hend := (holds_lastAddr hw hfirst h0 (Nat.le_of_not_lt hge)).1
  obtain ⟨b, hb⟩ : ∃ b, (info :: next :: banks).getLast? = some b :=
    ⟨_, List.getLast?_eq_some_getLast (List.cons_ne_nil _ _)⟩
  have hidx := hb
  rw [List.getLast?_eq_getElem?] at hidx
  obtain ⟨hi, rfl⟩ := List.getElem?_eq_some_iff.mp hidx
  have := holds_unique ht hfrom.head (hfrom _ hi) hend (hlast _ hb)
  simp only [List.length_cons] at this
  omega

/-- **Calls that take the whole range go through contiguous banks.** -/
theorem contiguous_of_callsOf (ht : Disjoint flashInfo)
    (hfrom : From flashInfo k (info :: banks)) (hfirst : info.holds addr = true)
    (h0 : 0 < src.length) (hcnt : src.length < 2 ^ 32)
    (hlast : ∀ b ∈ (info :: banks).getLast?, b.holds (lastAddr addr src.length) = true)
    (hall : (written (callsOf (info :: banks) k src addr)).length = src.length)
    (hin : ∀ c ∈ callsOf (info :: banks) k src addr, InsideOwnBank flashInfo c) :
    Contiguous (info :: banks) ∧ (banks = [] → addr ≤ lastAddr addr src.length) := by
  induction banks generalizing info k src addr with
  | nil =>
    have hw := hfrom.placed ht (known_of_holds hfirst)
    refine ⟨⟨by simpa using known_of_holds hfirst, .singleton _⟩, fun _ => ?_⟩
    rw [callsOf_cons (Nat.ne_of_gt h0), written_cons, List.length_append, bytesAt_length,
      List.length_take, callsOf] at hall
    have hall : min (min (info.bEnd - addr).toNat src.length) src.length + 0 = src.length := hall
    exact (holds_lastAddr hw hfirst h0 (by omega)).2
  | cons next banks ih =>
    have hk := known_of_holds hfirst
    have hlt := goes_past ht hfrom hfirst h0 hlast
    rw [callsOf_past hlt] at hall hin
    rw [written_cons, List.length_append, bytesAt_length, List.length_take,
      Nat.min_eq_left hlt.le] at hall
    have hrest := (List.forall_mem_cons.mp hin).2
    have hlen : (src.drop (info.bEnd - addr).toNat).length =
        src.length - (info.bEnd - addr).toNat := List.length_drop
    have hend := lastAddr_drop hlt.le
    obtain ⟨hnext, hstart⟩ := next_begins ht hfrom hk (by omega) hrest
    obtain ⟨⟨hknown, hchain⟩, -⟩ := ih (k := k + 1) hfrom.tail hnext (by omega) (by omega)
      (fun b hb => by rw [hend]; exact hlast b (by rwa [List.getLast?_cons_cons]))
      (by omega) hrest
    exact ⟨⟨List.forall_mem_cons.mpr ⟨hk, hknown⟩, List.isChain_cons_cons.mpr ⟨hstart, hchain⟩⟩,
      fun h => by cases h⟩

end Calls

section Contract
variable {first last : Nat}

theorem getElem_of_holds {k : Nat} (h : addr2info flashInfo addr = some k) :
    ∃ hk : k < flashInfo.length, flashInfo[k].holds addr = true := by
  obtain ⟨info, hinfo, hh⟩ := exists_of_addr2info h
  obtain ⟨hk, rfl⟩ := List.getElem?_eq_some_iff.mp hinfo
  exact ⟨hk, hh⟩

theorem from_banksBetween : From flashInfo first (banksBetween flashInfo first last) := by
  intro i hi
  have hlt : i < last + 1 - first :=
    Nat.lt_of_lt_of_le hi (by rw [banksBetween, List.length_take]; omega)
  have := List.getElem?_eq_getElem hi
  rw [← this, banksBetween, List.getElem?_take_of_lt hlt, List.getElem?_drop]

theorem banksBetween_cons (hf : first < flashInfo.length) (hle : first ≤ last) :
    banksBetween flashInfo first last =
      flashInfo[first] :: banksBetween flashInfo (first + 1) last := by
  rw [banksBetween, List.drop_eq_getElem_cons hf, Nat.succ_sub hle, List.take_succ_cons]
  congr 2
  omega

theorem banksBetween_nil (hlt : last < first) : banksBetween flashInfo first last = [] := by
  rw [banksBetween, Nat.sub_eq_zero_of_le hlt, List.take_zero]

theorem getLast_banksBetween (hl : last < flashInfo.length) (hle : first ≤ last) :
    (banksBetween flashInfo first last).getLast? = some flashInfo[last] := by
  have hlen : (banksBetween flashInfo first last).length = last + 1 - first := by
    rw [banksBetween, List.length_take, List.length_drop]
    omega
  rw [List.getLast?_eq_getElem?, hlen, banksBetween, List.getElem?_take_of_lt (by omega),
    List.getElem?_drop, show first + (last + 1 - first - 1) = last by omega]
  exact List.getElem?_eq_getElem hl

theorem banksBetween_ends {last : Nat} (hf : addr2info flashInfo addr = some first)
    (hl : addr2info flashInfo (lastAddr addr cnt) = some last) (hle : first ≤ last) :
    ∃ info banks, banksBetween flashInfo first last = info :: banks ∧ info.holds addr = true ∧
      (∀ b ∈ (info :: banks).getLast?, b.holds (lastAddr addr cnt) = true) ∧
      (banks = [] ↔ first = last) := by
  obtain ⟨hfl, hfirst⟩ := getElem_of_holds hf
  obtain ⟨hll, hlast⟩ := getElem_of_holds hl
  have hgl := getLast_banksBetween hll hle
  rw [banksBetween_cons hfl hle] at hgl
  refine ⟨_, _, banksBetween_cons hfl hle, hfirst, fun b hb => ?_, fun h => ?_, ?_⟩
  · rw [hgl] at hb
    cases hb
    exact hlast
  · have := congrArg List.length h
    rw [banksBetween, List.length_take, List.length_drop, List.length_nil] at this
    omega
  · rintro rfl
    exact banksBetween_nil (Nat.lt_succ_self _)

/-- The calls of the loop write the whole range if the table leads through it. -/
theorem callsOf_through (ht : Disjoint flashInfo) (h0 : src.length ≠ 0) (hcnt : src.length < 2 ^ 32)
    (hf : addr2info flashInfo addr = some first)
    (hl : addr2info flashInfo (lastAddr addr src.length) = some last)
    (hw : WritesThrough flashInfo first last addr src.length) :
    written (callsOf (banksBetween flashInfo first last) first src addr) = bytesAt addr src ∧
      ∀ c ∈ callsOf (banksBetween flashInfo first last) first src addr,
        InsideOwnBank flashInfo c := by
  obtain ⟨hle, hone, hc⟩ := hw
  obtain ⟨info, banks, heq, hfirst, hlast, hnil⟩ := banksBetween_ends hf hl hle
  have hfrom := @from_banksBetween flashInfo first last
  rw [heq] at hc hfrom ⊢
  exact callsOf_contiguous ht hfrom hc hfirst (by omega) hcnt hlast fun h => hone (hnil.mp h)

/-- The whole range is written by the calls of the loop exactly when the table leads through
it. -/
theorem callsOf_iff (ht : Disjoint flashInfo) (h0 : src.length ≠ 0) (hcnt : src.length < 2 ^ 32)
    (hf : addr2info flashInfo addr = some first)
    (hl : addr2info flashInfo (lastAddr addr src.length) = some last) :
    ((written (callsOf (banksBetween flashInfo first last) first src addr)).Perm
        (bytesAt addr src) ∧
      ∀ c ∈ callsOf (banksBetween flashInfo first last) first src addr,
        InsideOwnBank flashInfo c) ↔
      WritesThrough flashInfo first last addr src.length := by
  constructor
  · rintro ⟨hperm, hin⟩
    have hlen := hperm.length_eq
    rw [bytesAt_length] at hlen
    rcases Nat.lt_or_ge last first with hlt | hle
    · rw [banksBetween_nil hlt] at hlen
      exact absurd hlen.symm h0
    · obtain ⟨info, banks, heq, hfirst, hlast, hnil⟩ := banksBetween_ends hf hl hle
      have hfrom := @from_banksBetween flashInfo first last
      rw [heq] at hlen hin hfrom
      obtain ⟨hc, hone⟩ := contiguous_of_callsOf ht hfrom hfirst (by omega) hcnt hlast hlen hin
      exact ⟨hle, fun h => hone (hnil.mpr h), heq ▸ hc⟩
  · intro hw
    obtain ⟨hwr, hin⟩ := callsOf_through ht h0 hcnt hf hl hw
    exact ⟨hwr ▸ .refl _, hin⟩

/-! ## A `write_buff` that stores -/

/-- A `write_buff` that stores what it is given. -/
def storing (_ : Nat) (data : List UInt8) (addr : UInt32) (m : Mem32) : Int × Mem32 :=
  (errOk, m.store addr data)

theorem writeLoop_storing (m : Mem32) : writeLoop storing banks k src addr m =
    (errOk, (callsOf banks k src addr).foldl (fun m c => m.store c.addr c.data) m) := by
  induction banks generalizing k src addr m with
  | nil => rfl
  | cons info banks ih =>
    rw [writeLoop, callsOf]
    split
    · rfl
    · simp only [storing, len_eq_min, errOk, ne_eq, not_true_eq_false, if_false, List.foldl_cons]
      exact ih _

theorem store_eq_foldl {data : List UInt8} (h : data.length ≤ 2 ^ 32) (m : Mem32) :
    m.store addr data = (bytesAt addr data).foldl (fun m p => m.store p.1 [p.2]) m := by
  induction data generalizing addr m with
  | nil => rfl
  | cons c rest ih =>
    rw [List.length_cons] at h
    have hone : bytesAt addr (c :: rest) = (addr, c) :: bytesAt (addr + 1) rest := by
      have := @bytesAt_append addr [c] rest
      simpa [bytesAt] using this
    have hsplit := @Mem32.store_append m addr [c] rest (by simp only [List.length_singleton]; omega)
    rw [hone, List.foldl_cons, ← ih (by omega)]
    exact hsplit.symm

theorem foldl_store_written {calls : List Call} (h : ∀ c ∈ calls, c.data.length ≤ 2 ^ 32)
    (m : Mem32) : calls.foldl (fun m c => m.store c.addr c.data) m =
      (written calls).foldl (fun m p => m.store p.1 [p.2]) m := by
  induction calls generalizing m with
  | nil => rfl
  | cons c calls ih =>
    obtain ⟨hc, hcalls⟩ := List.forall_mem_cons.mp h
    rw [List.foldl_cons, written_cons, List.foldl_append, ← store_eq_foldl hc, ih hcalls]

theorem length_le_of_mem_callsOf {c : Call} (h : c ∈ callsOf banks k src addr) :
    c.data.length ≤ src.length := by
  induction banks generalizing k src addr with
  | nil => cases h
  | cons info banks ih =>
    rw [callsOf] at h
    split at h
    · cases h
    · rcases List.mem_cons.mp h with rfl | h
      · exact List.length_take_le' ..
      · exact (ih h).trans (by simp)

/-- Where the table leads through the range, a `write_buff` that stores what it is given stores
all of it. -/
theorem flashWrite_storing (ht : Disjoint flashInfo) (hcnt : src.length < 2 ^ 32)
    (hf : addr2info flashInfo addr = some first)
    (hl : addr2info flashInfo (lastAddr addr src.length) = some last)
    (hp : protectedHit (banksBetween flashInfo first last) addr (lastAddr addr src.length) = false)
    (hw : WritesThrough flashInfo first last addr src.length) (m : Mem32) :
    flashWrite flashInfo storing src addr m = (errOk, m.store addr src) := by
  by_cases h0 : src.length = 0
  · rw [List.eq_nil_of_length_eq_zero h0]
    rfl
  · simp only [flashWrite, if_neg h0, hf, hl, hp, Bool.false_eq_true, if_false, writeLoop_storing]
    rw [foldl_store_written fun c hc => (length_le_of_mem_callsOf hc).trans hcnt.le,
      (callsOf_through ht h0 hcnt hf hl hw).1, ← store_eq_foldl hcnt.le]

/-- **When `flash_write` completes a range.** There is nothing to write; or an end of the range
is outside the known banks; or the whole range is in known banks, and it is refused for a
protected sector or the entries of the table from the first to the last bank lead through
it. -/
theorem flashWrite_completes_iff (ht : Disjoint flashInfo) (hcnt : src.length < 2 ^ 32) :
    Completes flashInfo src addr ↔
      src.length = 0 ∨ addr2info flashInfo addr = none ∨
      addr2info flashInfo (lastAddr addr src.length) = none ∨
      (Covered flashInfo addr src.length ∧
        ∃ first last, addr2info flashInfo addr = some first ∧
          addr2info flashInfo (lastAddr addr src.length) = some last ∧
          (protectedHit (banksBetween flashInfo first last) addr
              (lastAddr addr src.length) = true ∨
            WritesThrough flashInfo first last addr src.length)) := by
  rcases flashWrite_cases (σ := List Call) flashInfo src addr with
    ⟨hsrc, hret⟩ | ⟨_, hnone, hret⟩ | ⟨first, last, hsrc, hf, hl, ⟨hp, hret⟩ | ⟨hp, hret⟩⟩
  · refine iff_of_true ⟨fun answer _ => ?_, fun hcov => ?_⟩ (.inl hsrc)
    · rw [hret, List.eq_nil_of_length_eq_zero hsrc]
      exact ⟨.refl _, fun c hc => by cases hc⟩
    · exact absurd (fun j hj => by omega) hcov
  · refine iff_of_true ⟨fun answer h => ?_, fun _ answer => hret _ _⟩ (.inr ?_)
    · rw [hret] at h
      exact absurd h (by decide)
    · exact hnone.imp_right .inl
  · constructor
    · intro h
      refine .inr (.inr (.inr ⟨?_, first, last, hf, hl, .inl hp⟩))
      by_contra hcov
      have := h.inval hcov fun _ => 0
      rw [hret] at this
      exact absurd (congrArg Prod.fst this) (by decide)
    · rintro (h | h | h | ⟨hcov, _⟩)
      · exact absurd h hsrc
      · rw [hf] at h; cases h
      · rw [hl] at h; cases h
      · refine ⟨fun answer h => ?_, fun h => absurd hcov h⟩
        rw [hret] at h
        exact absurd h (by decide)
  · constructor
    · intro h
      have hok := h.ok fun _ => 0
      rw [hret] at hok
      have hok := hok writeLoop_zero
      rw [writeLoop_ok writeLoop_zero, List.nil_append] at hok
      refine .inr (.inr (.inr ⟨?_, first, last, hf, hl, .inr ?_⟩))
      · by_contra hcov
        have := h.inval hcov fun _ => 0
        rw [hret] at this
        have h0 := congrArg Prod.fst this
        rw [writeLoop_zero] at h0
        exact absurd h0 (by decide)
      · exact (callsOf_iff ht hsrc hcnt hf hl).mp hok
    · rintro (h | h | h | ⟨hcov, first', last', hf', hl', h⟩)
      · exact absurd h hsrc
      · rw [hf] at h; cases h
      · rw [hl] at h; cases h
      · rw [hf] at hf'; rw [hl] at hl'
        cases hf'; cases hl'
        refine ⟨fun answer hans => ?_, fun h => absurd hcov h⟩
        rw [hret] at hans ⊢
        rw [writeLoop_ok hans, List.nil_append]
        rcases h with hp' | hthrough
        · rw [hp] at hp'; cases hp'
        · exact (callsOf_iff ht hsrc hcnt hf hl).mpr hthrough

/-- Two adjacent banks, the lower one second in the table. -/
def lowSecond : List FlashInfo :=
  [{ size := 0x1000, sectorCount := 1, flashId := 1, start := fun _ => 0x2000,
     protect := fun _ => 0 },
   { size := 0x1000, sectorCount := 1, flashId := 1, start := fun _ => 0x1000,
     protect := fun _ => 0 }]

theorem lowSecond_disjoint : Disjoint lowSecond := by
  have hp : ∀ info ∈ lowSecond, info.WellPlaced := by
    intro info hinfo
    simp only [lowSecond, List.mem_cons, List.not_mem_nil, or_false] at hinfo
    rcases hinfo with rfl | rfl <;> exact ⟨by decide, by decide⟩
  refine ⟨fun info hinfo _ => hp info hinfo, ?_⟩
  rw [List.pairwise_iff_forall_sublist]
  intro a b hab addr hboth
  have ha := hp a (hab.subset (by simp))
  have hb := hp b (hab.subset (by simp))
  obtain ⟨rfl, rfl⟩ : a = lowSecond[0] ∧ b = lowSecond[1] := by
    have := hab.eq_of_length rfl
    simp only [lowSecond, List.cons.injEq, and_true] at this ⊢
    exact this
  obtain ⟨_, hlo, _⟩ := (holds_iff ha).mp hboth.1
  obtain ⟨_, _, hhi⟩ := (holds_iff hb).mp hboth.2
  have h1 : (lowSecond[0].start 0).toNat = 0x2000 := rfl
  have h2 : (lowSecond[1].start 0).toNat + lowSecond[1].size.toNat = 0x2000 := rfl
  omega

/-- Two bytes across the border of the two banks: `ERR_OK`, and nothing is written. -/
theorem flashWrite_skips_low_second :
    Disjoint lowSecond ∧ ¬ Completes lowSecond [0xAA, 0xBB] 0x1FFF := by
  refine ⟨lowSecond_disjoint, fun h => ?_⟩
  have hret : flashWrite lowSecond (logged fun _ => 0) [0xAA, 0xBB] 0x1FFF [] = (errOk, []) := by
    decide
  have hperm := (h.ok (fun _ => 0) (congrArg Prod.fst hret)).1
  rw [hret] at hperm
  exact absurd hperm.length_eq (by decide)

theorem flashWrite_completes_iff_low_second :
    Completes lowSecond [0xAA, 0xBB] 0x1FFF ↔
      [0xAA, 0xBB].length = 0 ∨ addr2info lowSecond 0x1FFF = none ∨
      addr2info lowSecond (lastAddr 0x1FFF 2) = none ∨
      (Covered lowSecond 0x1FFF 2 ∧
        ∃ first last, addr2info lowSecond 0x1FFF = some first ∧
          addr2info lowSecond (lastAddr 0x1FFF 2) = some last ∧
          (protectedHit (banksBetween lowSecond first last) 0x1FFF (lastAddr 0x1FFF 2) = true ∨
            WritesThrough lowSecond first last 0x1FFF 2)) :=
  flashWrite_completes_iff lowSecond_disjoint (by decide)

end Contract

end UBoot.Flash
