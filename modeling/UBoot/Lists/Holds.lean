import UBoot.Lists.State

/-!
# What a list holds (`common/lists.c`)

`Holds l z n xs` says that the list has the items `xs` of `z` bytes each and room for `n`, and a
block of the size that goes with it. Each operation has one lemma that says what the list holds
after it.
-/

namespace UBoot.Lists

open UBoot.Lib

abbrev Item := List UInt8

/-- The position behind `n` items and their size in bytes are `int`s. -/
structure FitsInt (z n : ℕ) : Prop where
  count : n + 1 < 2 ^ 31
  bytes : sizeofListStruct + n * z < 2 ^ 31

structure Holds (l : ListT) (z n : ℕ) (xs : List Item) : Prop where
  itemSize : l.itemSize = z
  listSize : l.listSize = n
  numItems : l.numItems = xs.length
  uniform : ∀ x ∈ xs, x.length = z
  room : xs.length ≤ n
  contents : xs.flatten <+: l.itemList
  alloc : l.itemList.length = n * z + (sizeofListStruct - itemListAt)
  fits : FitsInt z n
  policy : 0 ≤ l.minNumItemsIncrease

variable {l l' : ListT} {h : Heap} {xs ys new : List Item} {z n m k : ℕ}

theorem FitsInt.mono (hf : FitsInt z n) (h : m ≤ n) : FitsInt z m :=
  ⟨(Nat.add_le_add_right h 1).trans_lt hf.count,
    (Nat.add_le_add_left (Nat.mul_le_mul_right z h) _).trans_lt hf.bytes⟩

theorem FitsInt.mul_lt (hf : FitsInt z n) : n * z < 2 ^ 31 :=
  (Nat.le_add_left _ _).trans_lt hf.bytes

theorem length_flatten (h : ∀ x ∈ xs, x.length = z) : xs.flatten.length = xs.length * z := by
  rw [List.length_flatten, List.map_congr_left h, List.map_const', List.sum_replicate, smul_eq_mul]

/-! ## Sizes and offsets -/

theorem sizeFor_eq (hz : l.itemSize = z) (hf : FitsInt z m) :
    l.sizeFor m = itemListAt + (m * z + (sizeofListStruct - itemListAt)) := by
  have hb := hf.bytes
  have hmul : ((m : ℤ) * z) = (m * z : ℕ) := (Nat.cast_mul m z).symm
  rw [ListT.sizeFor, hz, hmul, int32_of_lt (by omega) (by have := hf.mul_lt; omega),
    ← Nat.cast_add, uint32_natCast (by omega)]
  simp only [sizeofListStruct, itemListAt]
  omega

theorem itemPtr_eq (hz : l.itemSize = z) (hf : FitsInt z m) : l.itemPtr m = (m * z : ℕ) := by
  have hlt := hf.mul_lt
  rw [ListT.itemPtr, hz, ← Nat.cast_mul, Nat.mul_comm, int32_of_lt (by omega) (by omega)]

theorem bytes_eq (hz : l.itemSize = z) (hf : FitsInt z m) : l.bytes m = m * z := by
  have hlt := hf.mul_lt
  rw [ListT.bytes, hz, ← Nat.cast_mul, Nat.mul_comm, int32_of_lt (by omega) (by omega),
    uint32_natCast (by omega)]

/-! ## The block -/

/-- The list has a block with `k` bytes behind the header, and the same bytes as far as they go. -/
structure Resized (l l' : ListT) (k : ℕ) : Prop where
  percentIncrease : l'.percentIncrease = l.percentIncrease
  minNumItemsIncrease : l'.minNumItemsIncrease = l.minNumItemsIncrease
  listSize : l'.listSize = l.listSize
  itemSize : l'.itemSize = l.itemSize
  numItems : l'.numItems = l.numItems
  length : l'.itemList.length = k
  kept : ∀ p, p <+: l.itemList → p.length ≤ k → p <+: l'.itemList

theorem resize_resized (b : Block) : Resized l (l.resize b (itemListAt + k)) k where
  percentIncrease := rfl
  minNumItemsIncrease := rfl
  listSize := rfl
  itemSize := rfl
  numItems := rfl
  length := by
    rw [ListT.resize, Nat.add_sub_cancel_left, List.length_append, List.length_take,
      List.length_replicate]
    omega
  kept p hp hk := by
    rw [ListT.resize, Nat.add_sub_cancel_left]
    exact (List.prefix_take_iff.mpr ⟨hp, hk⟩).trans (List.prefix_append _ _)

/-- `SetHandleSize` fails only when it asks for a block and gets none. -/
theorem setHandleSize_spec :
    (∃ l' h', setHandleSize l (itemListAt + k) h = .ok (true, l', h') ∧ Resized l l' k ∧
      h'.refused = h.refused) ∨
    (∃ h', setHandleSize l (itemListAt + k) h = .ok (false, l, h') ∧
      h'.refused = h.refused + 1) := by
  by_cases hsize : l.size = itemListAt + k
  · have hk : l.itemList.length = k := Nat.add_left_cancel hsize
    exact .inl ⟨l, h, if_pos hsize, ⟨rfl, rfl, rfl, rfl, rfl, hk, fun p hp _ => hp⟩, rfl⟩
  rw [setHandleSize, if_neg hsize, if_neg (by omega), Heap.ask]
  cases hans : h.answers h.calls with
  | none => exact .inr ⟨_, rfl, rfl⟩
  | some b => exact .inl ⟨_, _, rfl, resize_resized b, rfl⟩

theorem Resized.holds (hr : Resized l l' (m * z + (sizeofListStruct - itemListAt)))
    (hl : Holds l z n xs) (hm : xs.length ≤ m) (hf : FitsInt z m) :
    Holds { l' with listSize := m } z m xs where
  itemSize := hr.itemSize.trans hl.itemSize
  listSize := rfl
  numItems := hr.numItems.trans hl.numItems
  uniform := hl.uniform
  room := hm
  contents := hr.kept _ hl.contents (by
    rw [length_flatten hl.uniform]
    exact (Nat.mul_le_mul_right z hm).trans (Nat.le_add_right _ _))
  alloc := hr.length
  fits := hf
  policy := hr.minNumItemsIncrease ▸ hl.policy

/-- The number of items that `ExpandListSpace` adds. -/
def ListT.growth (l : ListT) (numNewItems : ℤ) : ℤ :=
  if numNewItems = 0 then l.numItemsPerAlloc
  else if numNewItems < 0 then -numNewItems + l.numItemsPerAlloc
  else numNewItems

theorem expandListSpace_spec {c : ℤ} (hl : Holds l z n xs) (hc : -2 ^ 31 < c)
    (hm : (m : ℤ) = n + l.growth c) (hnm : n ≤ m) (hf : FitsInt z m) :
    (∃ l' h', expandListSpace l c h = .ok (true, l', h') ∧ Holds l' z m xs ∧
      h'.refused = h.refused) ∨
    (∃ h', expandListSpace l c h = .ok (false, l, h') ∧ h'.refused = h.refused + 1) := by
  have hcount := hf.count
  have hper : 0 ≤ l.numItemsPerAlloc := hl.policy.trans (le_max_right _ _)
  have hgrowth : (if c = 0 then l.numItemsPerAlloc
      else if c < 0 then int32 (int32 (-c) + l.numItemsPerAlloc) else c) = l.growth c := by
    rw [ListT.growth] at hm ⊢
    by_cases hzero : c = 0
    · rw [if_pos hzero, if_pos hzero]
    rw [if_neg hzero] at hm
    rw [if_neg hzero, if_neg hzero]
    by_cases hneg : c < 0
    · rw [if_pos hneg] at hm
      rw [if_pos hneg, if_pos hneg, int32_of_lt (z := -c) (by omega) (by omega),
        int32_of_lt (by omega) (by omega)]
    · rw [if_neg hneg, if_neg hneg]
  have htotal : int32 (l.listSize + l.growth c) = m := by
    rw [hl.listSize, ← hm, int32_of_lt (by omega) (by omega)]
  rw [expandListSpace]
  dsimp only
  rw [hgrowth, htotal, sizeFor_eq hl.itemSize hf]
  obtain ⟨l', h', heq, hr, href⟩ | ⟨h', heq, href⟩ := setHandleSize_spec (l := l) (h := h)
    (k := m * z + (sizeofListStruct - itemListAt))
  · refine .inl ⟨{ l' with listSize := m }, h', ?_, hr.holds hl (hl.room.trans hnm) hf, href⟩
    have hsize : int32 (l'.listSize + l.growth c) = m := by rw [hr.listSize, htotal]
    rw [heq]
    simp only [bind, Except.bind, if_true, pure, Except.pure, hsize]
  · refine .inr ⟨h', ?_, href⟩
    rw [heq]
    rfl

/-! ## The operations -/

theorem listCreate_spec {elementSize : ℕ} :
    (∃ l h', listCreate elementSize h = (some l, h') ∧ Holds l elementSize 0 [] ∧
      h'.refused = h.refused) ∨
    (∃ h', listCreate elementSize h = (none, h') ∧ h.refused < h'.refused) := by
  unfold listCreate Heap.ask
  dsimp only
  cases hmem : h.answers h.calls with
  | none =>
    refine .inr ⟨_, rfl, ?_⟩
    simp only [Option.isNone_none, if_true]
    split_ifs <;> omega
  | some b =>
    cases hrecord : h.answers (h.calls + 1) with
    | none =>
      refine .inr ⟨_, rfl, ?_⟩
      simp only [Option.isNone_none, Option.isNone_some, if_true]
      split_ifs <;> omega
    | some b' =>
      refine .inl ⟨_, _, rfl, ⟨rfl, rfl, rfl, fun x hx => absurd hx List.not_mem_nil, le_refl 0,
        List.nil_prefix, ?_, ⟨by decide, ?_⟩, Int.natCast_nonneg 4⟩, ?_⟩
      · rw [List.length_map, List.length_range]
        omega
      · rw [Nat.zero_mul]
        decide
      · simp only [Option.isNone_some]
        rfl

theorem listCompact_spec (hl : Holds l z n xs) : ∃ l' h' m,
    listCompact l h = .ok (l', h') ∧ Holds l' z m xs := by
  have hf : FitsInt z xs.length := hl.fits.mono hl.room
  rw [listCompact, hl.numItems, sizeFor_eq hl.itemSize hf]
  obtain ⟨l', h', heq, hr, -⟩ | ⟨h', heq, -⟩ := setHandleSize_spec (l := l) (h := h)
    (k := xs.length * z + (sizeofListStruct - itemListAt))
  · refine ⟨_, h', xs.length, ?_, hr.holds hl (le_refl _) hf⟩
    have hnum : (xs.length : ℤ) = l'.numItems := (hr.numItems.trans hl.numItems).symm
    rw [heq, hnum]
    rfl
  · exact ⟨l, h', n, by rw [heq]; rfl, hl⟩

theorem listClear_spec (hl : Holds l z n xs) : Holds (listClear l) z n [] where
  itemSize := hl.itemSize
  listSize := hl.listSize
  numItems := rfl
  uniform _ hx := absurd hx List.not_mem_nil
  room := Nat.zero_le n
  contents := List.nil_prefix
  alloc := hl.alloc
  fits := hl.fits
  policy := hl.policy

theorem listSetAllocationPolicy_spec {minItems percent : ℤ} (hl : Holds l z n xs)
    (hmin : 0 ≤ minItems) : Holds (listSetAllocationPolicy l minItems percent) z n xs :=
  { hl with policy := hmin }

def insertIndex (count : ℕ) (pos : ℤ) : ℕ :=
  if pos = LIST_START then 0 else if pos = LIST_END then count else pos.toNat - 1

def InsertPos (count : ℕ) (pos : ℤ) : Prop :=
  pos = LIST_START ∨ pos = LIST_END ∨ 1 ≤ pos ∧ pos ≤ count + 1

theorem insertPosition_spec {pos : ℤ} (hl : Holds l z n xs) (hpos : InsertPos xs.length pos) :
    insertIndex xs.length (l.insertPosition pos) = insertIndex xs.length pos ∧
    (l.insertPosition pos = LIST_END ∨
      1 ≤ l.insertPosition pos ∧ l.insertPosition pos ≤ xs.length) := by
  rw [ListT.insertPosition, hl.numItems]
  unfold InsertPos insertIndex LIST_START LIST_END at *
  by_cases hlast : pos = xs.length + 1
  · rw [if_pos hlast]
    refine ⟨?_, .inl rfl⟩
    rw [if_neg (by omega), if_pos rfl, if_neg (by omega), if_neg (by omega)]
    omega
  rw [if_neg hlast]
  by_cases hstart : pos = -1
  · rw [if_pos hstart, if_pos hstart]
    by_cases hempty : (xs.length : ℤ) = 0
    · rw [if_pos hempty]
      exact ⟨by rw [if_neg (by omega), if_pos rfl]; omega, .inl rfl⟩
    · rw [if_neg hempty]
      exact ⟨rfl, .inr ⟨le_refl _, by omega⟩⟩
  · rw [if_neg hstart]
    exact ⟨rfl, by omega⟩

theorem Holds.replace {itemList : List UInt8} {numItems : ℤ} (hl : Holds l z n xs)
    (huniform : ∀ x ∈ ys, x.length = z) (hnum : numItems = ys.length) (hroom : ys.length ≤ n)
    (hcontents : ys.flatten <+: itemList) (hlen : itemList.length = l.itemList.length) :
    Holds { l with itemList := itemList, numItems := numItems } z n ys where
  itemSize := hl.itemSize
  listSize := hl.listSize
  numItems := hnum
  uniform := huniform
  room := hroom
  contents := hcontents
  alloc := hlen.trans hl.alloc
  fits := hl.fits
  policy := hl.policy

theorem uniform_insert {i : ℕ} (hxs : ∀ x ∈ xs, x.length = z) (hnew : ∀ x ∈ new, x.length = z) :
    ∀ x ∈ xs.take i ++ new ++ xs.drop i, x.length = z := by
  intro x hx
  rw [List.mem_append, List.mem_append] at hx
  obtain (hx | hx) | hx := hx
  · exact hxs x (List.mem_of_mem_take hx)
  · exact hnew x hx
  · exact hxs x (List.mem_of_mem_drop hx)

theorem length_insert {i : ℕ} :
    (xs.take i ++ new ++ xs.drop i).length = xs.length + new.length := by
  rw [List.length_append, List.length_append, List.length_take, List.length_drop]
  omega

theorem insertAt_spec {pos : ℤ} {arg : Option (List UInt8)} (hl : Holds l z n xs)
    (hroom : xs.length + new.length ≤ n) (huniform : ∀ x ∈ new, x.length = z)
    (harg : itemBytes arg (l.bytes new.length) = .ok new.flatten)
    (hpos : pos = LIST_END ∨ 1 ≤ pos ∧ pos ≤ xs.length) :
    ∃ l', insertAt l arg pos new.length = .ok l' ∧
      Holds l' z n (xs.take (insertIndex xs.length pos) ++ new ++
        xs.drop (insertIndex xs.length pos)) := by
  have hf : FitsInt z xs.length := hl.fits.mono hl.room
  have hcount := hl.fits.count
  have hlenxs := length_flatten hl.uniform
  have hlennew := length_flatten huniform
  have hnum : int32 (l.numItems + new.length) = (xs.length + new.length : ℕ) := by
    rw [hl.numItems, int32_add (by omega)]
  have hspace : xs.flatten.length + new.flatten.length ≤ l.itemList.length := by
    rw [hlenxs, hlennew, hl.alloc, ← Nat.add_mul]
    exact (Nat.mul_le_mul_right z hroom).trans (Nat.le_add_right _ _)
  set i := insertIndex xs.length pos with hi
  have huni : ∀ x ∈ xs.take i ++ new ++ xs.drop i, x.length = z :=
    uniform_insert hl.uniform huniform
  have hlen : (xs.take i ++ new ++ xs.drop i).length = xs.length + new.length := length_insert
  rw [insertAt, harg, ok_bind]
  rcases hpos with rfl | ⟨hpos, hpos'⟩
  · have hix : i = xs.length := rfl
    have hptr : l.itemPtr l.numItems = (xs.flatten.length : ℕ) := by
      rw [hl.numItems, itemPtr_eq hl.itemSize hf, hlenxs]
    obtain ⟨b, hstore, hpre, hb⟩ := Bytes.store_prefix hl.contents hptr hspace
    refine ⟨{ l with itemList := b, numItems := int32 (l.numItems + new.length) }, ?_,
      hl.replace huni (by rw [hnum, hlen]) (hlen.trans_le hroom) ?_ hb⟩
    · rw [if_pos rfl, hstore]
      rfl
    · rwa [hix, List.take_length, List.drop_length, List.append_nil, List.flatten_append]
  · have hne : pos ≠ LIST_END := by
      unfold LIST_END
      omega
    have hix : i = pos.toNat - 1 := by
      rw [hi, insertIndex, if_neg (by unfold LIST_START; omega), if_neg hne]
    have hile : i ≤ xs.length := by omega
    have htake : (xs.take i).flatten.length = (xs.take i).length * z :=
      length_flatten fun x hx => hl.uniform x (List.mem_of_mem_take hx)
    have hdrop : (xs.drop i).flatten.length = (xs.drop i).length * z :=
      length_flatten fun x hx => hl.uniform x (List.mem_of_mem_drop hx)
    rw [List.length_take, Nat.min_eq_left hile] at htake
    rw [List.length_drop] at hdrop
    have hcontents : (xs.take i).flatten ++ (xs.drop i).flatten <+: l.itemList := by
      rw [← List.flatten_append, List.take_append_drop]
      exact hl.contents
    have hsrc : l.itemPtr (pos - 1) = ((xs.take i).flatten.length : ℕ) := by
      rw [show pos - 1 = (i : ℤ) by omega, itemPtr_eq hl.itemSize (hl.fits.mono (by omega)), htake]
    have hdst : l.itemPtr (pos - 1 + new.length) =
        (xs.take i).flatten.length + new.flatten.length := by
      rw [show pos - 1 + new.length = ((i + new.length : ℕ) : ℤ) by omega,
        itemPtr_eq hl.itemSize (hl.fits.mono (by omega)), htake, hlennew, Nat.add_mul, Nat.cast_add]
    have hmove : l.bytes (l.numItems + 1 - pos) = (xs.drop i).flatten.length := by
      rw [hl.numItems, show (xs.length : ℤ) + 1 - pos = ((xs.length - i : ℕ) : ℤ) by omega,
        bytes_eq hl.itemSize (hl.fits.mono (by omega)), hdrop]
    obtain ⟨b₁, b₂, hopen, hstore, hpre, hb⟩ := Bytes.open_hole (l := new.flatten) hcontents
      (by
        rw [← List.take_append_drop i xs, List.flatten_append, List.length_append] at hspace
        omega)
      hdst hsrc hmove
    refine ⟨{ l with itemList := b₂, numItems := int32 (l.numItems + new.length) }, ?_,
      hl.replace huni (by rw [hnum, hlen]) (hlen.trans_le hroom) ?_ hb⟩
    · rw [if_neg hne, hopen, ok_bind, hstore]
      rfl
    · rwa [List.flatten_append, List.flatten_append]

/-- There is room for `k` more items, or the list is full and makes the room first. -/
def Room (l : ListT) (z n k : ℕ) : Prop :=
  if l.listSize ≤ l.numItems then FitsInt z (n + k + l.numItemsPerAlloc.toNat)
  else l.numItems + k ≤ l.listSize

theorem listInsertItems_spec {pos : ℤ} {arg : Option (List UInt8)} (hl : Holds l z n xs)
    (hroom : Room l z n new.length) (huniform : ∀ x ∈ new, x.length = z)
    (harg : itemBytes arg (new.length * z) = .ok new.flatten) (hpos : InsertPos xs.length pos) :
    (∃ l' h' m, listInsertItems l arg pos new.length h = .ok (true, l', h') ∧
      Holds l' z m (xs.take (insertIndex xs.length pos) ++ new ++
        xs.drop (insertIndex xs.length pos)) ∧ h'.refused = h.refused) ∨
    (∃ h', listInsertItems l arg pos new.length h = .ok (false, l, h') ∧
      h'.refused = h.refused + 1) := by
  have hvalid : ¬ (pos ≠ l.numItems + 1 ∧ l.numItems < pos) := by
    rw [hl.numItems]
    unfold InsertPos LIST_START LIST_END at hpos
    omega
  obtain ⟨hindex, hplace⟩ := insertPosition_spec hl hpos
  -- the rest of the call, for a list with the same items and the room
  have hinsert {l' : ListT} {m : ℕ} (hl' : Holds l' z m xs) (hm : xs.length + new.length ≤ m) :
      ∃ l'', insertAt l' arg (l.insertPosition pos) new.length = .ok l'' ∧
        Holds l'' z m (xs.take (insertIndex xs.length pos) ++ new ++
          xs.drop (insertIndex xs.length pos)) := by
    rw [← hindex]
    refine insertAt_spec hl' hm huniform ?_ hplace
    rw [bytes_eq hl'.itemSize (hl'.fits.mono (by omega)), harg]
  rw [listInsertItems, if_neg hvalid]
  rw [Room] at hroom
  by_cases hfull : l.listSize ≤ l.numItems
  · rw [if_pos hfull] at hroom ⊢
    have hcount := hroom.count
    have hper : 0 ≤ l.numItemsPerAlloc := hl.policy.trans (le_max_right _ _)
    have hneg : int32 (-new.length) = -new.length := int32_neg (by omega) (by omega)
    have hgrowth : l.growth (-new.length) = new.length + l.numItemsPerAlloc := by
      rw [ListT.growth]
      split_ifs <;> omega
    rw [hneg]
    obtain ⟨l', h', heq, hl', href⟩ | ⟨h', heq, href⟩ := expandListSpace_spec (h := h)
      (c := -new.length) hl (by omega) (by rw [hgrowth]; omega) (by omega) hroom
    · have hroom' := hl.room
      obtain ⟨l'', hins, hl''⟩ := hinsert hl' (by omega)
      refine .inl ⟨l'', h', _, ?_, hl'', href⟩
      rw [heq, ok_bind]
      dsimp only
      rw [if_pos rfl, hins]
      rfl
    · refine .inr ⟨h', ?_, href⟩
      rw [heq]
      rfl
  · rw [if_neg hfull] at hroom ⊢
    rw [hl.numItems, hl.listSize] at hroom
    obtain ⟨l'', hins, hl''⟩ := hinsert hl (by omega)
    refine .inl ⟨l'', h, n, ?_, hl'', rfl⟩
    rw [ok_bind]
    dsimp only
    rw [if_pos rfl, hins]
    rfl

/-- The place of the first of `k` items that are there. -/
def itemIndex (count : ℕ) (pos : ℤ) : ℕ :=
  if pos = LIST_START then 0 else if pos = LIST_END then count - 1 else pos.toNat - 1

/-- A position of an item, from which on there are `k`. -/
structure ItemPos (count : ℕ) (pos : ℤ) (k : ℕ) : Prop where
  place : pos = LIST_START ∨ pos = LIST_END ∧ 0 < count ∨ 1 ≤ pos
  le : itemIndex count pos + k ≤ count

theorem position_eq {pos : ℤ} (hl : Holds l z n xs) (hpos : ItemPos xs.length pos k) :
    l.position pos = itemIndex xs.length pos + 1 := by
  obtain ⟨hpos, -⟩ := hpos
  rw [ListT.position, itemIndex, hl.numItems]
  unfold LIST_START LIST_END at *
  split_ifs <;> omega

theorem load_items {i : ℕ} (hl : Holds l z n xs) (hi : i + k ≤ xs.length) :
    Bytes.load l.itemList (l.itemPtr i) (l.bytes k) = .ok ((xs.drop i).take k).flatten := by
  obtain ⟨rest, hrest⟩ := hl.contents
  have hroom := hl.room
  have huniform {ys : List Item} (hys : ys ⊆ xs) : ∀ x ∈ ys, x.length = z :=
    fun x hx => hl.uniform x (hys hx)
  have hsplit : l.itemList = (xs.take i).flatten ++ ((xs.drop i).take k).flatten ++
      (((xs.drop i).drop k).flatten ++ rest) := by
    rw [← hrest, ← List.append_assoc, ← List.flatten_append, ← List.flatten_append,
      List.append_assoc, List.take_append_drop, List.take_append_drop]
  refine Bytes.load_split hsplit ?_ ?_
  · rw [itemPtr_eq hl.itemSize (hl.fits.mono (by omega)),
      length_flatten (huniform (List.take_subset _ _)), List.length_take,
      Nat.min_eq_left (by omega)]
  · rw [bytes_eq hl.itemSize (hl.fits.mono (by omega)),
      length_flatten (huniform (List.Subset.trans (List.take_subset _ _) (List.drop_subset _ _))),
      List.length_take, List.length_drop, Nat.min_eq_left (by omega)]

theorem listGetItems_spec {pos : ℤ} (hl : Holds l z n xs) (hpos : ItemPos xs.length pos k) :
    listGetItems l pos k = .ok ((xs.drop (itemIndex xs.length pos)).take k).flatten := by
  rw [listGetItems, position_eq hl hpos, Int.add_sub_cancel]
  exact load_items hl hpos.le

theorem listRemoveItems_spec {pos : ℤ} {dest : Bool} (hl : Holds l z n xs)
    (hpos : ItemPos xs.length pos k) : ∃ l',
    listRemoveItems l dest pos k = .ok
      (if dest then ((xs.drop (itemIndex xs.length pos)).take k).flatten else [], l') ∧
    Holds l' z n (xs.take (itemIndex xs.length pos) ++ xs.drop (itemIndex xs.length pos + k)) := by
  have hle := hpos.le
  have hroom := hl.room
  have hcount := hl.fits.count
  rw [listRemoveItems, position_eq hl hpos]
  set i := itemIndex xs.length pos with hi
  have hout : l.copyOut dest (i + 1) k =
      .ok (if dest then ((xs.drop i).take k).flatten else []) := by
    rw [ListT.copyOut, Int.add_sub_cancel]
    cases dest with
    | false => rfl
    | true => exact load_items hl hle
  have hafter : int32 ((i : ℤ) + 1 + k) = (i + 1 + k : ℕ) := by
    rw [int32_of_lt (by omega) (by omega)]
    omega
  have hmove : int32 (l.numItems - (((i + 1 + k : ℕ) : ℤ) - 1)) = (xs.length - (i + k) : ℕ) := by
    rw [hl.numItems, int32_of_lt (by omega) (by omega)]
    omega
  have hnum : int32 (l.numItems - k) = (xs.length - k : ℕ) := by
    rw [hl.numItems, int32_of_lt (by omega) (by omega)]
    omega
  have huni : ∀ x ∈ xs.take i ++ xs.drop (i + k), x.length = z := fun x hx =>
    (List.mem_append.mp hx).elim (fun hx => hl.uniform x (List.mem_of_mem_take hx))
      fun hx => hl.uniform x (List.mem_of_mem_drop hx)
  have hlen : (xs.take i ++ xs.drop (i + k)).length = xs.length - k := by
    rw [List.length_append, List.length_take, List.length_drop]
    omega
  have hsplit : (xs.take i).flatten ++ ((xs.drop i).take k).flatten ++ (xs.drop (i + k)).flatten =
      xs.flatten := by
    rw [← List.flatten_append, ← List.flatten_append, List.append_assoc, ← List.drop_drop,
      List.take_append_drop, List.take_append_drop]
  -- the items before the hole and behind it
  have hclose : ∃ b, l.closeUp (i + 1) (i + 1 + k : ℕ) (xs.length - (i + k) : ℕ) = .ok b ∧
      (xs.take i).flatten ++ (xs.drop (i + k)).flatten <+: b ∧
      b.length = l.itemList.length := by
    by_cases hlast : xs.length - (i + k) = 0
    · refine ⟨l.itemList, if_neg (by omega), ?_, rfl⟩
      rw [List.drop_eq_nil_of_le (by omega), List.flatten_nil, List.append_nil]
      rw [List.append_assoc] at hsplit
      exact (List.prefix_append _ _).trans (hsplit ▸ hl.contents)
    have htake : (xs.take i).flatten.length = (xs.take i).length * z :=
      length_flatten fun x hx => hl.uniform x (List.mem_of_mem_take hx)
    have hmid : ((xs.drop i).take k).flatten.length = ((xs.drop i).take k).length * z :=
      length_flatten fun x hx => hl.uniform x (List.mem_of_mem_drop (List.mem_of_mem_take hx))
    have hdrop : (xs.drop (i + k)).flatten.length = (xs.drop (i + k)).length * z :=
      length_flatten fun x hx => hl.uniform x (List.mem_of_mem_drop hx)
    rw [List.length_take, Nat.min_eq_left (by omega)] at htake
    rw [List.length_take, List.length_drop, Nat.min_eq_left (by omega)] at hmid
    rw [List.length_drop] at hdrop
    have hdst : l.itemPtr ((i : ℤ) + 1 - 1) = ((xs.take i).flatten.length : ℕ) := by
      rw [Int.add_sub_cancel, itemPtr_eq hl.itemSize (hl.fits.mono (by omega)), htake]
    have hsrc : l.itemPtr (((i + 1 + k : ℕ) : ℤ) - 1) =
        (xs.take i).flatten.length + ((xs.drop i).take k).flatten.length := by
      rw [show ((i + 1 + k : ℕ) : ℤ) - 1 = ((i + k : ℕ) : ℤ) by omega,
        itemPtr_eq hl.itemSize (hl.fits.mono (by omega)), htake, hmid, Nat.add_mul, Nat.cast_add]
    rw [ListT.closeUp, if_pos (by omega)]
    exact Bytes.close_hole (hsplit.symm ▸ hl.contents) hdst hsrc
      ((bytes_eq hl.itemSize (hl.fits.mono (by omega))).trans hdrop.symm)
  obtain ⟨b, hclose, hpre, hb⟩ := hclose
  refine ⟨{ l with itemList := b, numItems := (xs.length - k : ℕ) }, ?_,
    hl.replace huni (by rw [hlen]) (by omega) (by rwa [List.flatten_append]) hb⟩
  dsimp only
  rw [hout, ok_bind, hafter, hmove, hnum, hclose]
  rfl

end UBoot.Lists
