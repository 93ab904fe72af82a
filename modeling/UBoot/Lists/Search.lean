import Mathlib.Data.List.GetD
import UBoot.Lib.Bisect
import UBoot.Lists.Holds

/-!
# Binary search (`BinSearch`, `common/lists.c`)

The search answers with the index of an equal element or with the place for the item, as long as
the `int` sum of the two ends of the interval does not overflow.
-/

namespace UBoot.Lists

open UBoot.Lib

def memcmp : List UInt8 → List UInt8 → ℕ → ℤ
  | a :: as, b :: bs, count + 1 =>
    if (a.toNat : ℤ) - b.toNat ≠ 0 then (a.toNat : ℤ) - b.toNat else memcmp as bs count
  | _, _, _ => 0

/-- `CompareFunction`, of the bytes that the two pointers lead to. -/
abbrev CompareFunction := Item → Item → ℤ

/-- `NULL` stands for `ListMemBlockCmp`. -/
def compareItems (compareFunction : Option CompareFunction) (size : ℕ) : CompareFunction :=
  match compareFunction with
  | some f => f
  | none => fun a b => memcmp a b size

/-- The loop of `BinSearch` and what follows it; `none` while it still runs. -/
def binSearchLoop (array : List UInt8) (elementSize : ℕ) (cmpItem : Item → ℤ) :
    ℕ → ℤ → ℤ → ℤ → ℤ → Except Oob (Option ℤ)
  | 0, _, _, _, _ => .ok none
  | fuel + 1, low, high, mid, cmp =>
    if low ≤ high then do
      let mid := int32 (low + high) / 2
      let arrayItem ← Bytes.load array (int32 (mid * elementSize)) elementSize
      let cmp := cmpItem arrayItem
      if cmp = 0 then return some mid
      else if cmp < 0 then binSearchLoop array elementSize cmpItem fuel low (mid - 1) mid cmp
      else binSearchLoop array elementSize cmpItem fuel (mid + 1) high mid cmp
    else
      let mid := if 0 < cmp then mid + 1 else mid
      return some (-mid - 1)

/-- `BinSearch`, in an array of `numElements` elements. -/
def binSearch (array : List UInt8) (numElements elementSize : ℕ) (item : Item)
    (compareFunction : Option CompareFunction) : Except Oob (Option ℤ) :=
  binSearchLoop array elementSize (compareItems compareFunction elementSize item)
    (numElements + 1) 0 (numElements - 1) 0 (-1)

/-! ### Orders -/

/-- The function compares items of `z` bytes by a total preorder. -/
structure TotalPreorder (cmp : CompareFunction) (z : ℕ) : Prop where
  swap : ∀ a b, a.length = z → b.length = z → (cmp a b < 0 ↔ 0 < cmp b a)
  trans : ∀ a b c, a.length = z → b.length = z → c.length = z →
    cmp a b ≤ 0 → cmp b c ≤ 0 → cmp a c ≤ 0

/-- An index that holds an equal element, or else the place where the item goes. -/
def Finds (cmp : CompareFunction) (xs : List Item) (item : Item) (r : Except Oob (Option ℤ)) :
    Prop :=
  (∃ i : ℕ, r = .ok (some i) ∧ ∃ x, xs[i]? = some x ∧ cmp item x = 0) ∨
  (∀ x ∈ xs, cmp item x ≠ 0) ∧ ∃ i : ℕ, i ≤ xs.length ∧ r = .ok (some (-i - 1)) ∧
    (∀ x ∈ xs.take i, cmp x item < 0) ∧ (∀ x ∈ xs.drop i, 0 < cmp x item) ∧
    (xs.take i ++ item :: xs.drop i).Pairwise fun a b => cmp a b ≤ 0

theorem memcmp_swap (a b : List UInt8) (z : ℕ) : memcmp a b z = -memcmp b a z := by
  induction a generalizing b z with
  | nil => cases b <;> simp [memcmp]
  | cons x xs ih =>
    cases b with
    | nil => simp [memcmp]
    | cons y ys =>
      cases z with
      | zero => simp [memcmp]
      | succ z =>
        have hrec := ih ys z
        simp only [memcmp]
        split_ifs <;> omega

theorem totalPreorder_memcmp (z : ℕ) : TotalPreorder (fun a b => memcmp a b z) z where
  swap a b _ _ := by
    have hswap := memcmp_swap a b z
    omega
  trans a b c ha hb hc := by
    induction z generalizing a b c with
    | zero =>
      rw [List.length_eq_zero_iff] at ha
      subst ha
      simp [memcmp]
    | succ z ih =>
      obtain ⟨x, xs, rfl⟩ := List.exists_cons_of_length_eq_add_one ha
      obtain ⟨y, ys, rfl⟩ := List.exists_cons_of_length_eq_add_one hb
      obtain ⟨w, ws, rfl⟩ := List.exists_cons_of_length_eq_add_one hc
      have hrec := ih xs ys ws (by simpa using ha) (by simpa using hb) (by simpa using hc)
      simp only [memcmp]
      split_ifs <;> omega

variable {cmp : CompareFunction} {xs : List Item} {item : Item} {z : ℕ}

theorem TotalPreorder.refl (hp : TotalPreorder cmp z) (hitem : item.length = z) :
    cmp item item = 0 := by
  have hswap := hp.swap item item hitem hitem
  omega

theorem TotalPreorder.falls (hp : TotalPreorder cmp z) (hitem : item.length = z)
    (huniform : ∀ x ∈ xs, x.length = z) (hsorted : xs.Pairwise fun a b => cmp a b ≤ 0) :
    Bisect.Falls (fun i => cmp item (xs.getD i [])) xs.length := by
  have hget (i : ℕ) (hi : i < xs.length) : (xs.getD i []).length = z := by
    rw [List.getD_eq_getElem xs [] hi]
    exact huniform _ (List.getElem_mem hi)
  have hle (i j : ℕ) (hij : i ≤ j) (hj : j < xs.length) :
      cmp (xs.getD i []) (xs.getD j []) ≤ 0 := by
    rcases Nat.eq_or_lt_of_le hij with rfl | hlt
    · exact (hp.refl (hget i hj)).le
    · rw [List.getD_eq_getElem xs [] hj, List.getD_eq_getElem xs [] (hlt.trans hj)]
      exact List.pairwise_iff_getElem.1 hsorted i j (hlt.trans hj) hj hlt
  constructor
  · intro i j hij hj hpos
    have hi := hij.trans_lt hj
    have htrans := hp.trans item _ _ hitem (hget i hi) (hget j hj)
    by_contra hneg
    exact absurd (htrans (not_lt.1 hneg) (hle i j hij hj)) (not_le.2 hpos)
  · intro i j hij hj hneg
    have hi := hij.trans_lt hj
    have hswap_i := hp.swap item _ hitem (hget i hi)
    have hswap_j := hp.swap item _ hitem (hget j hj)
    have htrans := hp.trans _ _ item (hget i hi) (hget j hj) hitem (hle i j hij hj)
    -- otherwise the item is below the one at `j`, and that at `i` is below both
    by_contra hpos
    have habove := htrans (not_lt.1 fun h => hpos (hswap_j.2 h))
    have hbelow := hswap_i.1 hneg
    omega

theorem finds_place (hp : TotalPreorder cmp z) (hitem : item.length = z)
    (huniform : ∀ x ∈ xs, x.length = z) (hsorted : xs.Pairwise fun a b => cmp a b ≤ 0) {l : ℕ}
    (hb : Bisect.Brackets (fun i => cmp item (xs.getD i [])) xs.length l l) :
    Finds cmp xs item (.ok (some (-l - 1))) := by
  have hbelow : ∀ x ∈ xs.take l, 0 < cmp item x := by
    intro x hx
    obtain ⟨i, hi, rfl⟩ := List.mem_take_iff_getElem.1 hx
    have hpos := hb.below i (by omega)
    rwa [List.getD_eq_getElem xs [] (by omega)] at hpos
  have habove : ∀ x ∈ xs.drop l, cmp item x < 0 := by
    intro x hx
    obtain ⟨i, hi, rfl⟩ := List.mem_drop_iff_getElem.1 hx
    have hneg := hb.above (l + i) (by omega) (by omega)
    rwa [List.getD_eq_getElem xs [] (by omega)] at hneg
  have hlow : ∀ x ∈ xs.take l, cmp x item < 0 := fun x hx =>
    (hp.swap x item (huniform x (List.mem_of_mem_take hx)) hitem).2 (hbelow x hx)
  have hhigh : ∀ x ∈ xs.drop l, 0 < cmp x item := fun x hx =>
    (hp.swap item x hitem (huniform x (List.mem_of_mem_drop hx))).1 (habove x hx)
  refine .inr ⟨fun x hx => ?_, l, hb.bound, rfl, hlow, hhigh, ?_⟩
  · rw [← List.take_append_drop l xs, List.mem_append] at hx
    rcases hx with hx | hx
    · exact (hbelow x hx).ne'
    · exact (habove x hx).ne
  · rw [List.pairwise_append, List.pairwise_cons]
    refine ⟨hsorted.sublist (List.take_sublist l xs),
      ⟨fun x hx => (habove x hx).le, hsorted.sublist (List.drop_sublist l xs)⟩, fun a ha b hb => ?_⟩
    have hlast : cmp a item ≤ 0 := (hlow a ha).le
    rcases List.mem_cons.1 hb with rfl | hb
    · exact hlast
    · exact hp.trans a item b (huniform a (List.mem_of_mem_take ha)) hitem
        (huniform b (List.mem_of_mem_drop hb)) hlast (habove b hb).le

/-! ### The loop -/

theorem load_elem {array : List UInt8} (huniform : ∀ x ∈ xs, x.length = z)
    (harray : xs.flatten <+: array) (hbytes : xs.length * z < 2 ^ 31) {i : ℕ}
    (hi : i < xs.length) :
    Bytes.load array (int32 ((i : ℤ) * z)) z = .ok (xs.getD i []) := by
  obtain ⟨rest, rfl⟩ := harray
  have hoff : (xs.take i).flatten.length = i * z := by
    rw [length_flatten fun x hx => huniform x (List.mem_of_mem_take hx), List.length_take,
      Nat.min_eq_left hi.le]
  have hlt : i * z < 2 ^ 31 := (Nat.mul_le_mul_right z hi.le).trans_lt hbytes
  have hsplit : xs.flatten ++ rest =
      (xs.take i).flatten ++ xs.getD i [] ++ ((xs.drop (i + 1)).flatten ++ rest) := by
    conv_lhs => rw [← List.take_append_drop i xs, List.drop_eq_getElem_cons hi,
      List.flatten_append, List.flatten_cons]
    rw [List.getD_eq_getElem xs [] hi]
    simp only [List.append_assoc]
  refine Bytes.load_split hsplit ?_ ?_
  · rw [← Nat.cast_mul, int32_of_lt (by omega) (by omega), hoff]
  · rw [List.getD_eq_getElem xs [] hi, huniform _ (List.getElem_mem hi)]

/-- A sum that overflows makes the probe stray in front of the array. -/
theorem load_overflow (array : List UInt8) {l h : ℕ} (hz : 0 < z)
    (hbytes : xs.length * z < 2 ^ 31) (hlt : l < h) (hh : h ≤ xs.length) (hsum : 2 ^ 31 < l + h) :
    Bytes.load array (int32 (int32 ((l : ℤ) + (h - 1)) / 2 * z)) z = .error .read := by
  have hone : z = 1 := by nlinarith
  subst hone
  have hwrap : int32 ((l : ℤ) + (h - 1)) = (l : ℤ) + (h - 1) - 2 ^ 32 := by
    unfold int32
    rw [Int.bmod_def]
    omega
  have hkeep (a : ℤ) (ha : -2 ^ 31 ≤ a) (hb : a < 0) : int32 a = a := by
    unfold int32
    rw [Int.bmod_def]
    omega
  rw [hwrap, Nat.cast_one, mul_one, hkeep _ (by omega) (by omega), Bytes.load, if_neg (by omega)]

/-- How the last probe and its comparison give the place once the interval is empty. -/
structure LastProbe (l h : ℕ) (mid cmp : ℤ) : Prop where
  pos : 0 < cmp → mid + 1 = l
  nonpos : cmp ≤ 0 → mid = h

theorem binSearchLoop_spec {array : List UInt8} (hp : TotalPreorder cmp z) (hz : 0 < z)
    (huniform : ∀ x ∈ xs, x.length = z) (hitem : item.length = z)
    (hsorted : xs.Pairwise fun a b => cmp a b ≤ 0) (hbytes : xs.length * z < 2 ^ 31)
    (harray : xs.flatten <+: array) (fuel : ℕ) {l h : ℕ} {mid c : ℤ} (hfuel : h - l < fuel)
    (hb : Bisect.Brackets (fun i => cmp item (xs.getD i [])) xs.length l h)
    (hlast : l < h ∨ LastProbe l h mid c) :
    (Bisect.Within (fun i => cmp item (xs.getD i [])) (2 ^ 31) (l, h) →
      Finds cmp xs item (binSearchLoop array z (cmp item) fuel l (h - 1) mid c)) ∧
    (¬ Bisect.Within (fun i => cmp item (xs.getD i [])) (2 ^ 31) (l, h) →
      binSearchLoop array z (cmp item) fuel l (h - 1) mid c = .error .read) := by
  have hfalls := hp.falls hitem huniform hsorted
  induction fuel generalizing l h mid c with
  | zero => exact absurd hfuel (Nat.not_lt_zero _)
  | succ fuel ih =>
    rw [binSearchLoop]
    by_cases hlt : l < h
    swap
    · -- the interval is empty
      have hle := hb.le
      have heq : h = l := by omega
      subst heq
      rw [if_neg (by omega)]
      refine ⟨fun _ => ?_, fun hw => absurd (Bisect.within_of_le (le_refl h)) hw⟩
      have hplace : (if 0 < c then mid + 1 else mid) = h := by
        have hlast := hlast.resolve_left hlt
        split_ifs with hc
        · exact hlast.pos hc
        · exact hlast.nonpos (not_lt.1 hc)
      rw [hplace]
      exact finds_place hp hitem huniform hsorted hb
    rw [if_pos (by omega)]
    by_cases hsum : l + h ≤ 2 ^ 31
    swap
    · have hload := load_overflow array hz hbytes hlt hb.bound (by omega)
      refine ⟨fun hw => absurd (hw _ .refl hlt) hsum, fun _ => ?_⟩
      dsimp only
      rw [hload]
      rfl
    -- the probe
    have hmid : int32 ((l : ℤ) + (h - 1)) / 2 = (Bisect.mid l h : ℕ) := by
      rw [int32_of_lt (by omega) (by omega)]
      unfold Bisect.mid
      omega
    have hmlt := Bisect.mid_lt hlt
    have hlm := Bisect.le_mid hlt
    have hmn := hmlt.trans_le hb.bound
    dsimp only
    rw [hmid, load_elem huniform harray hbytes hmn, ok_bind]
    rcases lt_trichotomy (cmp item (xs.getD (Bisect.mid l h) [])) 0 with hneg | hzero | hpos
    · rw [if_neg hneg.ne, if_pos hneg, Bisect.within_iff_of_step (.left hlt hneg) hsum]
      exact ih (by omega) (hb.left hfalls hlt hneg)
        (.inr ⟨fun h => absurd hneg (not_lt_of_gt h), fun _ => rfl⟩)
    · rw [if_pos hzero]
      refine ⟨fun _ => .inl ⟨_, rfl, _, ?_, hzero⟩,
        fun hw => absurd (Bisect.within_of_zero hzero hsum) hw⟩
      rw [List.getD_eq_getElem xs [] hmn]
      exact List.getElem?_eq_getElem hmn
    · rw [if_neg hpos.ne', if_neg (not_lt_of_gt hpos),
        Bisect.within_iff_of_step (.right hlt hpos) hsum]
      exact ih (by omega) (hb.right hfalls hlt hpos)
        (.inr ⟨fun _ => rfl, fun h => absurd hpos (not_lt_of_ge h)⟩)

theorem not_finds_error {e : Oob} : ¬ Finds cmp xs item (.error e) := by
  rintro (⟨_, h, _⟩ | ⟨_, _, _, h, _⟩) <;> cases h

section
variable {compareFunction : Option CompareFunction}
  (hp : TotalPreorder (compareItems compareFunction z) z) (hz : 0 < z)
  (huniform : ∀ x ∈ xs, x.length = z) (hitem : item.length = z)
  (hsorted : xs.Pairwise fun a b => compareItems compareFunction z a b ≤ 0)
  (hbytes : xs.length * z < 2 ^ 31)
include hp hz huniform hitem hsorted hbytes

theorem binSearch_spec {array : List UInt8} (harray : xs.flatten <+: array) :
    (Bisect.Within (fun i => compareItems compareFunction z item (xs.getD i [])) (2 ^ 31)
        (0, xs.length) →
      Finds (compareItems compareFunction z) xs item
        (binSearch array xs.length z item compareFunction)) ∧
    (¬ Bisect.Within (fun i => compareItems compareFunction z item (xs.getD i [])) (2 ^ 31)
        (0, xs.length) →
      binSearch array xs.length z item compareFunction = .error .read) := by
  have hlast : 0 < xs.length ∨ LastProbe 0 xs.length 0 (-1) := by
    rcases Nat.eq_zero_or_pos xs.length with h | h
    · exact .inr ⟨fun hc => absurd hc (by decide), fun _ => by rw [h, Nat.cast_zero]⟩
    · exact .inl h
  exact binSearchLoop_spec hp hz huniform hitem hsorted hbytes harray (xs.length + 1) (by omega)
    (Bisect.brackets_start xs.length) hlast

/-- The search is right exactly when no sum of two ends overflows. -/
theorem binSearch_finds_iff :
    Finds (compareItems compareFunction z) xs item
        (binSearch xs.flatten xs.length z item compareFunction) ↔
      Bisect.Within (fun i => compareItems compareFunction z item (xs.getD i [])) (2 ^ 31)
        (0, xs.length) := by
  obtain ⟨hright, hwrong⟩ :=
    binSearch_spec hp hz huniform hitem hsorted hbytes (List.prefix_refl xs.flatten)
  refine ⟨fun hfinds => ?_, hright⟩
  by_contra hw
  rw [hwrong hw] at hfinds
  exact not_finds_error hfinds

end

theorem binSearch_finds_byte : Finds (compareItems none 1) [[1], [3], [5]] [4]
    (binSearch [1, 3, 5] 3 1 [4] none) := by
  have hp : TotalPreorder (compareItems none 1) 1 := totalPreorder_memcmp 1
  have huniform : ∀ x ∈ ([[1], [3], [5]] : List Item), x.length = 1 := by decide
  have hsorted : ([[1], [3], [5]] : List Item).Pairwise fun a b => compareItems none 1 a b ≤ 0 := by
    decide
  exact (binSearch_finds_iff hp Nat.one_pos huniform rfl hsorted (by decide)).2
    ((Bisect.brackets_start 3).within (hp.falls rfl huniform hsorted) (by decide))

/-- An item above all of an array so long that the second sum overflows. -/
theorem not_finds_of_long {n : ℕ} (hn : n < 2 ^ 31) (hsum : 2 ^ 31 < (n - 1) / 2 + 1 + n) :
    ¬ Finds (compareItems none 1) (List.replicate n [0]) [1]
      (binSearch (List.replicate n [0]).flatten (List.replicate n ([0] : Item)).length 1 [1]
        none) := by
  have hp : TotalPreorder (compareItems none 1) 1 := totalPreorder_memcmp 1
  have huniform : ∀ x ∈ List.replicate n ([0] : Item), x.length = 1 := by
    intro x hx
    rw [List.eq_of_mem_replicate hx]
    rfl
  have hsorted : (List.replicate n [0]).Pairwise fun a b => compareItems none 1 a b ≤ 0 :=
    List.pairwise_replicate.2 (.inr (by decide))
  have hbytes : (List.replicate n ([0] : Item)).length * 1 < 2 ^ 31 := by
    rwa [List.length_replicate, Nat.mul_one]
  have hitem : ([1] : Item).length = 1 := rfl
  have hwrong :=
    (binSearch_spec hp Nat.one_pos huniform hitem hsorted hbytes (List.prefix_refl _)).2
  rw [hwrong ?_]
  · exact not_finds_error
  intro hw
  rw [List.length_replicate] at hw
  have hmid : Bisect.mid 0 n < n := Bisect.mid_lt (by omega)
  have hstep := hw (Bisect.mid 0 n + 1, n) (.single (.right (by omega) ?_))
  · unfold Bisect.mid at hstep
    simp only at hstep
    omega
  · rw [List.getD_eq_getElem _ _ (by rwa [List.length_replicate]), List.getElem_replicate]
    decide

/-- One byte above a gigabyte and a half of zeros. -/
theorem not_finds_gigabytes :
    ¬ Finds (compareItems none 1) (List.replicate (3 * 2 ^ 29) [0]) [1]
      (binSearch (List.replicate (3 * 2 ^ 29) [0]).flatten
        (List.replicate (3 * 2 ^ 29) ([0] : Item)).length 1 [1] none) :=
  not_finds_of_long (by omega) (by omega)

/-! ### In a list -/

def listBinSearch (l : ListT) (item : Item) (compareFunction : Option CompareFunction) :
    Except Oob (Option ℤ) := do
  let index ← binSearch l.itemList l.numItems.toNat l.itemSize.toNat item compareFunction
  return index.map fun index => if 0 ≤ index then index + 1 else 0

/-- A list is short enough when it has at most `2 ^ 30` items: the search answers with the position
of an equal item, or with 0. -/
theorem listBinSearch_spec {l : ListT} {n : ℕ} {compareFunction : Option CompareFunction}
    (hl : Holds l z n xs) (hp : TotalPreorder (compareItems compareFunction z) z) (hz : 0 < z)
    (hitem : item.length = z)
    (hsorted : xs.Pairwise fun a b => compareItems compareFunction z a b ≤ 0)
    (hlen : xs.length ≤ 2 ^ 30) :
    (∃ i : ℕ, listBinSearch l item compareFunction = .ok (some (i + 1)) ∧
      ∃ x, xs[i]? = some x ∧ compareItems compareFunction z item x = 0) ∨
    listBinSearch l item compareFunction = .ok (some 0) ∧
      ∀ x ∈ xs, compareItems compareFunction z item x ≠ 0 := by
  have hbytes : xs.length * z < 2 ^ 31 := (hl.fits.mono hl.room).mul_lt
  have hwithin := (Bisect.brackets_start xs.length).within
    (b := 2 ^ 31) (hp.falls hitem hl.uniform hsorted) (by omega)
  have hfinds := (binSearch_spec hp hz hl.uniform hitem hsorted hbytes hl.contents).1 hwithin
  rw [listBinSearch, hl.numItems, hl.itemSize, Int.toNat_natCast, Int.toNat_natCast]
  rcases hfinds with ⟨i, hi, hx⟩ | ⟨hnone, i, -, hi, -⟩
  · refine .inl ⟨i, ?_, hx⟩
    rw [hi, ok_bind, Option.map_some, if_pos (by omega)]
    rfl
  · refine .inr ⟨?_, hnone⟩
    rw [hi, ok_bind, Option.map_some, if_neg (by omega)]
    rfl

end UBoot.Lists
