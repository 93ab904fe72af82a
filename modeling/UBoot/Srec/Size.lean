import UBoot.Lib.Extrema
import UBoot.Srec.RoundTrip
import Mathlib.Order.Bounds.Basic
import Mathlib.Order.ConditionallyCompleteLattice.Basic
import Mathlib.Order.Lattice.Nat

/-!
# The size of an S-record download

`load_serial` keeps the lowest and the highest address of the data records, from `~0` and from 0
on. `srec_size_iff`: when the size it sets is that of the bytes it stored.
-/

namespace UBoot.Srec

open UBoot.Lib UBoot.Common UBoot.Flash

def Record.IsData (r : Record) : Prop := r.type = .data2 ∨ r.type = .data3 ∨ r.type = .data4

instance (r : Record) : Decidable r.IsData := inferInstanceAs (Decidable (_ ∨ _))

def Record.IsEnd (r : Record) : Prop := r.type = .end2 ∨ r.type = .end3 ∨ r.type = .end4

instance (r : Record) : Decidable r.IsEnd := inferInstanceAs (Decidable (_ ∨ _))

/-- A line that is received whole, and the record it is. -/
structure Line where
  text : List UInt8
  record : Record
  plain : ∀ c ∈ text, c ≠ 0 ∧ c ≠ 3 ∧ c ≠ 10 ∧ c ≠ 13
  fits : text.length < srecMaxRecLen
  decodes : srecDecode text = .ok record
  counted : 0 ≤ record.count

/-- Where the data of the records are stored, and how many bytes. -/
def storesOf (offset : UInt32) (rs : List Record) : List (UInt32 × ℕ) :=
  (rs.filter fun r => r.IsData).map fun r => (r.addr + offset, r.data.length)

/-- A byte is stored at address `a`. -/
def StoredAt (stores : List (UInt32 × ℕ)) (a : ℕ) : Prop :=
  ∃ s ∈ stores, s.1.toNat ≤ a ∧ a < s.1.toNat + s.2

/-- From the lowest to the highest address, or 0 if there is no byte. -/
def Extent (stores : List (UInt32 × ℕ)) (n : ℕ) : Prop :=
  (¬ ∃ a, StoredAt stores a) ∧ n = 0 ∨
    ∃ lo hi, IsLeast {a | StoredAt stores a} lo ∧ IsGreatest {a | StoredAt stores a} hi ∧
      n = hi - lo + 1

/-- Data records without data are in the range of the other bytes, or next behind it, and not at
address 0, and the range is not the whole memory. Without any byte, there is a data record, and
one at address 0 or all at one address. -/
def Sized (stores : List (UInt32 × ℕ)) : Prop :=
  ((∃ a, StoredAt stores a) →
    (∀ s ∈ stores, s.2 = 0 → s.1 ≠ 0 ∧ (∃ a, StoredAt stores a ∧ a ≤ s.1.toNat) ∧
      ∃ a, StoredAt stores a ∧ s.1.toNat ≤ a + 1) ∧
    ¬ (StoredAt stores 0 ∧ StoredAt stores (2 ^ 32 - 1))) ∧
  ((¬ ∃ a, StoredAt stores a) → stores ≠ [] ∧
    ((∃ s ∈ stores, s.1 = 0) ∨ ∀ s ∈ stores, ∀ t ∈ stores, s.1 = t.1))

/-! ## The two addresses -/

/-- The last address of a record, as `load_serial` computes it. -/
def lastOf (s : UInt32 × ℕ) : UInt32 := s.1 + UInt32.ofNat s.2 - 1

/-- The lowest and the highest address behind one record more. -/
def track (p : UInt32 × UInt32) (s : UInt32 × ℕ) : UInt32 × UInt32 :=
  (if s.1 < p.1 then s.1 else p.1, if lastOf s > p.2 then lastOf s else p.2)

section
variable {stores : List (UInt32 × ℕ)} {s : UInt32 × ℕ} {p : UInt32 × UInt32} {n : ℕ}

theorem lastOf_toNat (h : s.1.toNat + s.2 ≤ 2 ^ 32) :
    (lastOf s).toNat = if s.2 = 0 ∧ s.1.toNat = 0 then 2 ^ 32 - 1 else s.1.toNat + s.2 - 1 := by
  have hlt := s.1.toNat_lt
  rw [lastOf, UInt32.toNat_sub, UInt32.toNat_add, UInt32.toNat_ofNat', UInt32.toNat_one]
  split_ifs <;> omega

theorem track_toNat (p : UInt32 × UInt32) :
    (stores.foldl track p).1.toNat = stores.foldl (fun m s => min m s.1.toNat) p.1.toNat ∧
    (stores.foldl track p).2.toNat =
      stores.foldl (fun m s => max m (lastOf s).toNat) p.2.toNat := by
  induction stores generalizing p with
  | nil => exact ⟨rfl, rfl⟩
  | cons s stores ih =>
    have hmin : (track p s).1.toNat = min p.1.toNat s.1.toNat := by
      simp only [track, UInt32.lt_iff_toNat_lt]
      split_ifs <;> omega
    have hmax : (track p s).2.toNat = max p.2.toNat (lastOf s).toNat := by
      simp only [track, gt_iff_lt, UInt32.lt_iff_toNat_lt]
      split_ifs <;> omega
    rw [List.foldl_cons, List.foldl_cons, List.foldl_cons, ← hmin, ← hmax]
    exact ih (track p s)

theorem track_spec (hne : stores ≠ []) :
    IsLeast {b | ∃ s ∈ stores, s.1.toNat = b} (stores.foldl track (~~~0, 0)).1.toNat ∧
    IsGreatest {b | ∃ s ∈ stores, (lastOf s).toNat = b}
      (stores.foldl track (~~~0, 0)).2.toNat := by
  obtain ⟨s, hs⟩ := List.exists_mem_of_ne_nil stores hne
  have hmax : (~~~0 : UInt32).toNat = 2 ^ 32 - 1 := rfl
  have hs1 := s.1.toNat_lt
  rw [(track_toNat _).1, (track_toNat _).2]
  exact ⟨isLeast_of_insert _ (foldl_min_isLeast (fun s : UInt32 × ℕ => s.1.toNat) _ stores)
      ⟨s, hs, rfl⟩ (by dsimp only; omega),
    isGreatest_of_insert _ (foldl_max_isGreatest (fun s : UInt32 × ℕ => (lastOf s).toNat) _ stores)
      ⟨s, hs, rfl⟩ (Nat.zero_le _)⟩

/-! ## The size -/

variable (stores) in
/-- The size that `load_serial` computes. -/
def downloadSize : ℕ :=
  let addrs := stores.foldl track (~~~0, 0)
  (addrs.2 - addrs.1 + 1).toNat

/-- The records do not wrap around the end of the memory. -/
def NoWrap (stores : List (UInt32 × ℕ)) : Prop := ∀ s ∈ stores, s.1.toNat + s.2 ≤ 2 ^ 32

instance : Decidable (NoWrap stores) := List.decidableBAll _ stores

/-- The lowest and the highest address of the records, and the size as it comes of them. -/
theorem downloadSize_spec (hne : stores ≠ []) : ∃ a b, a < 2 ^ 32 ∧ b < 2 ^ 32 ∧
    IsLeast {x | ∃ s ∈ stores, s.1.toNat = x} a ∧
    IsGreatest {x | ∃ s ∈ stores, (lastOf s).toNat = x} b ∧
    downloadSize stores = (2 ^ 32 - a + b + 1) % 2 ^ 32 := by
  obtain ⟨hleast, hgreatest⟩ := track_spec hne
  refine ⟨_, _, UInt32.toNat_lt _, UInt32.toNat_lt _, hleast, hgreatest, ?_⟩
  rw [downloadSize, UInt32.toNat_add, UInt32.toNat_sub, UInt32.toNat_one]
  omega

theorem downloadSize_none (h : ¬ ∃ a, StoredAt stores a) :
    downloadSize stores = 0 ↔ Sized stores := by
  have hsized : Sized stores ↔ stores ≠ [] ∧
      ((∃ s ∈ stores, s.1 = 0) ∨ ∀ s ∈ stores, ∀ t ∈ stores, s.1 = t.1) :=
    ⟨fun hs => hs.2 h, fun hs => ⟨fun h' => absurd h' h, fun _ => hs⟩⟩
  rw [hsized]
  by_cases hne : stores = []
  · subst hne
    exact iff_of_false (by decide) fun h => h.1 rfl
  rw [and_iff_right hne]
  have hlast (s : UInt32 × ℕ) (hs : s ∈ stores) :
      (lastOf s).toNat = if s.1.toNat = 0 then 2 ^ 32 - 1 else s.1.toNat - 1 := by
    have hs1 := s.1.toNat_lt
    have hzero : s.2 = 0 := by
      by_contra hpos
      exact h ⟨s.1.toNat, s, hs, le_rfl, by omega⟩
    rw [lastOf_toNat (by omega), hzero]
    simp only [true_and, Nat.add_zero]
  obtain ⟨a, b, ha, hb, ⟨⟨s, hs, hsa⟩, hleast⟩, ⟨⟨t, ht, htb⟩, hgreatest⟩, hsize⟩ :=
    downloadSize_spec hne
  have ht1 := t.1.toNat_lt
  rw [hsize]
  constructor
  · intro hzero
    by_cases hstart : ∃ s ∈ stores, s.1 = 0
    · exact .inl hstart
    have hpos (u : UInt32 × ℕ) (hu : u ∈ stores) : u.1.toNat ≠ 0 := fun hu0 =>
      hstart ⟨u, hu, UInt32.toNat_inj.mp hu0⟩
    have hsame (u : UInt32 × ℕ) (hu : u ∈ stores) : u.1.toNat = a := by
      have hlow : a ≤ u.1.toNat := hleast ⟨u, hu, rfl⟩
      have hhigh : (lastOf u).toNat ≤ b := hgreatest ⟨u, hu, rfl⟩
      rw [hlast u hu, if_neg (hpos u hu)] at hhigh
      rw [hlast t ht, if_neg (hpos t ht)] at htb
      omega
    exact .inr fun u hu v hv => UInt32.toNat_inj.mp ((hsame u hu).trans (hsame v hv).symm)
  · rintro (⟨u, hu, hu0⟩ | hsame)
    · have hzero : u.1.toNat = 0 := by rw [hu0]; rfl
      have hlow : a ≤ u.1.toNat := hleast ⟨u, hu, rfl⟩
      have hhigh : (lastOf u).toNat ≤ b := hgreatest ⟨u, hu, rfl⟩
      rw [hlast u hu, if_pos hzero] at hhigh
      omega
    · rw [hlast t ht, ← hsame s hs t ht, hsa] at htb
      split_ifs at htb <;> omega

section
variable {lo hi : ℕ}

theorem range_of_store (hlo : IsLeast {a | StoredAt stores a} lo)
    (hhi : IsGreatest {a | StoredAt stores a} hi) (hs : s ∈ stores) (hpos : s.2 ≠ 0) :
    lo ≤ s.1.toNat ∧ s.1.toNat + s.2 - 1 ≤ hi :=
  ⟨hlo.2 ⟨s, hs, le_rfl, by omega⟩, hhi.2 ⟨s, hs, by omega, by omega⟩⟩

theorem storedAt_ends_iff (hlo : IsLeast {a | StoredAt stores a} lo)
    (hhi : IsGreatest {a | StoredAt stores a} hi) (hlt : hi < 2 ^ 32) :
    StoredAt stores 0 ∧ StoredAt stores (2 ^ 32 - 1) ↔ lo = 0 ∧ hi = 2 ^ 32 - 1 := by
  constructor
  · rintro ⟨h0, h1⟩
    have hlo0 : lo ≤ 0 := hlo.2 h0
    have hhi1 : 2 ^ 32 - 1 ≤ hi := hhi.2 h1
    omega
  · rintro ⟨h0, h1⟩
    exact ⟨h0 ▸ hlo.1, h1 ▸ hhi.1⟩

/-- The records without bytes do not widen the range. -/
theorem bounds_iff (hwrap : NoWrap stores) (hlo : IsLeast {a | StoredAt stores a} lo)
    (hhi : IsGreatest {a | StoredAt stores a} hi) (hlt : hi < 2 ^ 32)
    (hnot : ¬ (lo = 0 ∧ hi = 2 ^ 32 - 1)) :
    (∀ s ∈ stores, lo ≤ s.1.toNat ∧ (lastOf s).toNat ≤ hi) ↔
      ∀ s ∈ stores, s.2 = 0 → s.1 ≠ 0 ∧ (∃ a, StoredAt stores a ∧ a ≤ s.1.toNat) ∧
        ∃ a, StoredAt stores a ∧ s.1.toNat ≤ a + 1 := by
  constructor
  · intro hbounds s hs hzero
    obtain ⟨hlow, hhigh⟩ := hbounds s hs
    rw [lastOf_toNat (hwrap s hs), hzero] at hhigh
    have hne : s.1.toNat ≠ 0 := by
      intro h0
      rw [if_pos ⟨rfl, h0⟩] at hhigh
      omega
    rw [if_neg (by omega)] at hhigh
    exact ⟨fun h0 => hne (by rw [h0]; rfl), ⟨lo, hlo.1, hlow⟩, ⟨hi, hhi.1, by omega⟩⟩
  · intro hempty s hs
    rw [lastOf_toNat (hwrap s hs)]
    by_cases hzero : s.2 = 0
    · obtain ⟨hne, ⟨x, hx, hxs⟩, y, hy, hsy⟩ := hempty s hs hzero
      have hlox : lo ≤ x := hlo.2 hx
      have hyhi : y ≤ hi := hhi.2 hy
      have hne' : s.1.toNat ≠ 0 := fun h0 => hne (UInt32.toNat_inj.mp h0)
      rw [if_neg (by omega)]
      omega
    · rw [if_neg (by omega)]
      exact range_of_store hlo hhi hs hzero

theorem downloadSize_some (hwrap : NoWrap stores)
    (hlo : IsLeast {a | StoredAt stores a} lo) (hhi : IsGreatest {a | StoredAt stores a} hi) :
    downloadSize stores = hi - lo + 1 ↔ Sized stores := by
  have hbyte : ∃ a, StoredAt stores a := ⟨lo, hlo.1⟩
  have hsized : Sized stores ↔
      (∀ s ∈ stores, s.2 = 0 → s.1 ≠ 0 ∧ (∃ a, StoredAt stores a ∧ a ≤ s.1.toNat) ∧
        ∃ a, StoredAt stores a ∧ s.1.toNat ≤ a + 1) ∧
      ¬ (StoredAt stores 0 ∧ StoredAt stores (2 ^ 32 - 1)) :=
    ⟨fun hs => hs.1 hbyte, fun hs => ⟨fun _ => hs, fun h' => absurd hbyte h'⟩⟩
  obtain ⟨s, hs, hslo, hlos⟩ := hlo.1
  obtain ⟨t, ht, hthi, hhit⟩ := hhi.1
  obtain ⟨a, b, ha, hb, ⟨⟨u, hu, hua⟩, hleast⟩, ⟨⟨v, hv, hvb⟩, hgreatest⟩, hsize⟩ :=
    downloadSize_spec (List.ne_nil_of_mem hs)
  have hlohi : lo ≤ hi := hlo.2 hhi.1
  have halo : a ≤ lo := (hleast ⟨s, hs, rfl⟩).trans hslo
  have hhib : hi ≤ b := by
    have hbt : (lastOf t).toNat ≤ b := hgreatest ⟨t, ht, rfl⟩
    rw [lastOf_toNat (hwrap t ht), if_neg (by omega)] at hbt
    have hend := (range_of_store hlo hhi ht (by omega)).2
    omega
  have hmid : downloadSize stores = hi - lo + 1 ↔
      (a = lo ∧ b = hi) ∧ ¬ (lo = 0 ∧ hi = 2 ^ 32 - 1) := by omega
  rw [hsized, hmid, storedAt_ends_iff hlo hhi (by omega)]
  refine and_congr_left fun hnot => ?_
  rw [← bounds_iff hwrap hlo hhi (by omega) hnot]
  constructor
  · rintro ⟨rfl, rfl⟩ w hw
    exact ⟨hleast ⟨w, hw, rfl⟩, hgreatest ⟨w, hw, rfl⟩⟩
  · intro hbounds
    have hlow := (hbounds u hu).1
    have hhigh := (hbounds v hv).2
    omega

end

theorem extent_iff (hwrap : NoWrap stores) :
    Extent stores (downloadSize stores) ↔ Sized stores := by
  by_cases h : ∃ a, StoredAt stores a
  · have hbdd : BddAbove {a | StoredAt stores a} := by
      refine ⟨2 ^ 32, ?_⟩
      rintro a ⟨s, hs, -, hlt⟩
      have := hwrap s hs
      omega
    have hlo : IsLeast {a | StoredAt stores a} (sInf {a | StoredAt stores a}) :=
      ⟨Nat.sInf_mem h, fun _ => Nat.sInf_le⟩
    have hhi : IsGreatest {a | StoredAt stores a} (sSup {a | StoredAt stores a}) :=
      ⟨Nat.sSup_mem h hbdd, fun _ => le_csSup hbdd⟩
    rw [← downloadSize_some hwrap hlo hhi]
    constructor
    · rintro (⟨hnone, -⟩ | ⟨lo, hi, hlo', hhi', hsize⟩)
      · exact absurd h hnone
      · rw [hsize, hlo'.unique hlo, hhi'.unique hhi]
    · exact fun hsize => .inr ⟨_, _, hlo, hhi, hsize⟩
  · rw [← downloadSize_none h]
    constructor
    · rintro (⟨-, hzero⟩ | ⟨lo, hi, hlo, -⟩)
      · exact hzero
      · exact absurd ⟨lo, hlo.1⟩ h
    · exact fun hzero => .inl ⟨h, hzero⟩

end

/-! ## `load_serial` -/

section
variable (hangup : List UInt8 → Bool) (flashInfo : List FlashInfo)
  (writeBuff : ℕ → List UInt8 → UInt32 → Mem32 → ℤ × Mem32) (offset : UInt32)

/-- The state behind the records, if no write to the flash fails. -/
def storeAll : List Record → Load → Option Load
  | [], l => some l
  | r :: rs, l =>
    if r.IsData then
      let (rc, l) := storeRecord flashInfo writeBuff l (r.addr + offset) r.data
      if rc ≠ 0 then none else storeAll rs l
    else storeAll rs l

variable {hangup flashInfo writeBuff offset} {rs : List Record} {l l' : Load} {rest : List UInt8}
  {fuel : ℕ}

/-- A record that is stored counts with its address and its last address. -/
theorem storeRecord_track {a : UInt32} {data : List UInt8}
    (h : (storeRecord flashInfo writeBuff l a data).1 = 0) :
    let l' := (storeRecord flashInfo writeBuff l a data).2
    (l'.startAddr, l'.endAddr) = track (l.startAddr, l.endAddr) (a, data.length) ∧
      l'.setenv = l.setenv := by
  unfold storeRecord at h ⊢
  cases hinfo : addr2info flashInfo a with
  | none => exact ⟨rfl, rfl⟩
  | some info =>
    rw [hinfo] at h
    dsimp only at h ⊢
    generalize flashWrite flashInfo writeBuff data a l.mem = m at *
    by_cases hrc : m.1 ≠ 0
    · rw [if_pos hrc] at h
      exact absurd h hrc
    · rw [if_neg hrc]
      exact ⟨rfl, rfl⟩

theorem storeAll_track (h : storeAll flashInfo writeBuff offset rs l = some l') :
    (l'.startAddr, l'.endAddr) = (storesOf offset rs).foldl track (l.startAddr, l.endAddr) ∧
      l'.setenv = l.setenv := by
  induction rs generalizing l with
  | nil =>
    cases h
    exact ⟨rfl, rfl⟩
  | cons r rs ih =>
    rw [storeAll] at h
    unfold storesOf at ih ⊢
    by_cases hdata : r.IsData
    · rw [if_pos hdata] at h
      rw [List.filter_cons_of_pos (by simpa using hdata), List.map_cons, List.foldl_cons]
      dsimp only at h
      split_ifs at h with hrc
      obtain ⟨htrack, hset⟩ := storeRecord_track (not_not.mp hrc)
      rw [← htrack, ← hset]
      exact ih h
    · rw [if_neg hdata] at h
      rw [List.filter_cons_of_neg (by simpa using hdata)]
      exact ih h

variable (hangup flashInfo writeBuff offset) in
theorem loadLoop_line (hh : ∀ input, hangup input = false) (x : Line) (rest : List UInt8)
    (fuel : ℕ) (l : Load) :
    (x.record.IsData → loadLoop hangup flashInfo writeBuff offset (fuel + 1)
        (x.text ++ 10 :: rest) l =
      let (rc, l) := storeRecord flashInfo writeBuff l (x.record.addr + offset) x.record.data
      if rc ≠ 0 then .ok (some (~~~0, l, rest))
      else loadLoop hangup flashInfo writeBuff offset fuel rest l) ∧
    (x.record.IsEnd → loadLoop hangup flashInfo writeBuff offset (fuel + 1)
        (x.text ++ 10 :: rest) l = .ok (some (x.record.addr, { l with setenv := l.setenv ++
      [(ascii "filesize", fmtX (l.endAddr - l.startAddr + 1).toNat)] }, rest))) ∧
    (¬ x.record.IsData → ¬ x.record.IsEnd → loadLoop hangup flashInfo writeBuff offset (fuel + 1)
        (x.text ++ 10 :: rest) l = loadLoop hangup flashInfo writeBuff offset fuel rest l) := by
  have hcount : ¬ x.record.count < 0 := not_lt.mpr x.counted
  rw [loadLoop, readRecord_line hh x.plain x.fits, List.nil_append]
  simp only [x.decodes]
  unfold Record.IsData Record.IsEnd
  cases x.record.type <;> simp [hcount]

theorem loadLoop_lines (hh : ∀ input, hangup input = false) {lines : List Line}
    (hlines : ∀ x ∈ lines, ¬ x.record.IsEnd)
    (h : storeAll flashInfo writeBuff offset (lines.map Line.record) l = some l') :
    loadLoop hangup flashInfo writeBuff offset (lines.length + fuel)
      (lines.flatMap (fun x => x.text ++ [10]) ++ rest) l =
    loadLoop hangup flashInfo writeBuff offset fuel rest l' := by
  induction lines generalizing l with
  | nil =>
    cases h
    rw [List.length_nil, Nat.zero_add, List.flatMap_nil, List.nil_append]
  | cons x lines ih =>
    obtain ⟨hx, hlines⟩ := List.forall_mem_cons.mp hlines
    obtain ⟨hdata, -, hskip⟩ := loadLoop_line hangup flashInfo writeBuff offset hh x
      (lines.flatMap (fun x => x.text ++ [10]) ++ rest) (lines.length + fuel) l
    rw [List.flatMap_cons, List.append_assoc, List.append_assoc, List.singleton_append,
      List.length_cons, Nat.add_right_comm]
    rw [List.map_cons, storeAll] at h
    split_ifs at h with hx'
    · rw [hdata hx']
      dsimp only at h ⊢
      split_ifs at h with hrc
      rw [if_neg hrc]
      exact ih hlines h
    · rw [hskip hx' hx]
      exact ih hlines h

theorem length_le_flatMap (lines : List Line) :
    lines.length ≤ (lines.flatMap fun x => x.text ++ [10]).length := by
  induction lines with
  | nil => exact le_rfl
  | cons x lines ih =>
    rw [List.flatMap_cons, List.length_append, List.length_append, List.length_cons,
      List.length_singleton]
    omega

/-- **The size of a download** is that of the bytes it stored exactly if `Sized`. -/
theorem srec_size_iff (hh : ∀ input, hangup input = false) (mem : Mem32) (lines : List Line)
    (last : Line) (rest : List UInt8) (hlines : ∀ x ∈ lines, ¬ x.record.IsEnd)
    (hlast : last.record.IsEnd) (hwrap : NoWrap (storesOf offset (lines.map Line.record)))
    (hstored : storeAll flashInfo writeBuff offset (lines.map Line.record)
      ⟨mem, ~~~0, 0, []⟩ = some l) :
    (∃ l' n, loadSerial hangup flashInfo writeBuff offset
        ((lines ++ [last]).flatMap (fun x => x.text ++ [10]) ++ rest) mem =
          .ok (some (last.record.addr, l', rest)) ∧
      l'.setenv = [(ascii "filesize", fmtX n)] ∧
      Extent (storesOf offset (lines.map Line.record)) n) ↔
    Sized (storesOf offset (lines.map Line.record)) := by
  obtain ⟨haddrs, hset⟩ := storeAll_track hstored
  have hsize : (l.endAddr - l.startAddr + 1).toNat =
      downloadSize (storesOf offset (lines.map Line.record)) := by
    rw [downloadSize, ← haddrs]
  have hset' : l.setenv = [] := hset
  have hload : loadSerial hangup flashInfo writeBuff offset
      ((lines ++ [last]).flatMap (fun x => x.text ++ [10]) ++ rest) mem =
        .ok (some (last.record.addr, { l with setenv := [(ascii "filesize",
          fmtX (downloadSize (storesOf offset (lines.map Line.record))))] }, rest)) := by
    have hlen : lines.length ≤
        ((lines ++ [last]).flatMap (fun x : Line => x.text ++ [10]) ++ rest).length := by
      have hlines := length_le_flatMap lines
      rw [List.flatMap_append, List.append_assoc, List.length_append]
      omega
    obtain ⟨k, hk⟩ := Nat.exists_eq_add_of_le hlen
    rw [loadSerial, hk, Nat.add_assoc, List.flatMap_append, List.append_assoc,
      loadLoop_lines hh hlines hstored, List.flatMap_singleton, List.append_assoc,
      List.singleton_append,
      (loadLoop_line hangup flashInfo writeBuff offset hh last rest k l).2.1 hlast, hset', hsize]
    rfl
  rw [hload, ← extent_iff hwrap]
  constructor
  · rintro ⟨l', n, hl', hn, hextent⟩
    cases hl'
    obtain rfl := fmtX_injective (Prod.mk.inj (List.singleton_inj.mp hn)).2
    exact hextent
  · exact fun hextent => ⟨_, _, rfl, rfl, hextent⟩

end

def dataLineOne : Line where
  text := ascii "S1040000AA51"
  record := ⟨.data2, 1, 0, [0xaa]⟩
  plain := by decide +kernel
  fits := by decide
  decodes := rfl
  counted := by decide

def endLine : Line where
  text := ascii "S9030000FC"
  record := ⟨.end2, 0, 0, []⟩
  plain := by decide +kernel
  fits := by decide
  decodes := rfl
  counted := by decide

def dataLineTwo : Line where
  text := ascii "S1050010BBCC63"
  record := ⟨.data2, 2, 0x10, [0xbb, 0xcc]⟩
  plain := by decide +kernel
  fits := by decide
  decodes := rfl
  counted := by decide

theorem sized_gap : Sized (storesOf 0x1000 ([dataLineTwo, dataLineOne].map Line.record)) := by
  have hstores : storesOf 0x1000 ([dataLineTwo, dataLineOne].map Line.record) =
      [(0x1010, 2), (0x1000, 1)] := rfl
  rw [hstores]
  have hat : StoredAt [((0x1010 : UInt32), 2), (0x1000, 1)] 0x1000 :=
    ⟨(0x1000, 1), by simp, by decide, by decide⟩
  refine ⟨fun _ => ⟨fun s hs hempty => ?_, fun h => ?_⟩, fun h => absurd ⟨_, hat⟩ h⟩
  · rcases List.mem_pair.mp hs with rfl | rfl <;> cases hempty
  · obtain ⟨s, hs, hle, -⟩ := h.1
    rcases List.mem_pair.mp hs with rfl | rfl <;> exact absurd hle (by decide)

theorem srec_size_iff_gap :
    ∃ l' n, loadSerial (fun _ => false) [] (fun _ _ _ m => (0, m)) 0x1000
        (([dataLineTwo, dataLineOne] ++ [endLine]).flatMap (fun x : Line => x.text ++ [10]) ++ [])
          (fun _ => 0) = .ok (some (0, l', [])) ∧
      l'.setenv = [(ascii "filesize", fmtX n)] ∧
      Extent (storesOf 0x1000 ([dataLineTwo, dataLineOne].map Line.record)) n :=
  (srec_size_iff (fun _ => rfl) (fun _ => 0) [dataLineTwo, dataLineOne] endLine [] (by decide)
    (by decide) (by decide) rfl).mpr sized_gap

/-- Without a data record the size is 2. -/
theorem srec_size_two :
    ¬ ∃ l' n, loadSerial (fun _ => false) [] (fun _ _ _ m => (0, m)) 0
        (([] ++ [endLine]).flatMap (fun x : Line => x.text ++ [10]) ++ []) (fun _ => 0) =
          .ok (some (0, l', [])) ∧
      l'.setenv = [(ascii "filesize", fmtX n)] ∧ Extent (storesOf 0 []) n := by
  rintro ⟨l', n, hload, hset, hextent⟩
  have hend := (loadLoop_line (fun _ => false) [] (fun _ _ _ m => (0, m)) 0 (fun _ => rfl)
    endLine [] 11 ⟨fun _ => 0, ~~~0, 0, []⟩).2.1 (by decide)
  have hend' := hload.symm.trans hend
  have hset' : l'.setenv = [(ascii "filesize", fmtX 2)] := by
    cases hend'
    rfl
  obtain rfl := fmtX_injective (Prod.mk.inj (List.singleton_inj.mp (hset.symm.trans hset'))).2
  rcases hextent with ⟨-, hn⟩ | ⟨lo, -, ⟨⟨_, hmem, -⟩, -⟩, -⟩
  · cases hn
  · cases hmem

end UBoot.Srec
