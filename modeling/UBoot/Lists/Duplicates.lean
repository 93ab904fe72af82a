import UBoot.Lib.Firsts
import UBoot.Lists.Search

/-!
# Removing duplicates (`ListRemoveDuplicates`, `common/lists.c`)

The items behind each one are searched for equal ones, which are removed from under the search. What
stays are the first occurrences.
-/

namespace UBoot.Lists

open UBoot.Lib

/-- The item at a position, through `ITEMPTR`. -/
def ListT.item (l : ListT) (index : ℤ) : Except Oob Item :=
  Bytes.load l.itemList (l.itemPtr (index - 1)) l.itemSize.toNat

/-- The loop of `ListFindItem`, for `fuel` more positions. -/
def listFindLoop (l : ListT) (cmpItem : Item → ℤ) : ℕ → ℤ → Except Oob ℤ
  | 0, _ => .ok 0
  | fuel + 1, index => do
    let listItem ← l.item index
    if cmpItem listItem = 0 then return index else listFindLoop l cmpItem fuel (index + 1)

def listFindItem (l : ListT) (item : Item) (startingPosition : ℤ)
    (compareFunction : Option CompareFunction) : Except Oob ℤ :=
  if l.numItems = 0 then .ok 0
  else
    let start := l.position startingPosition
    listFindLoop l (compareItems compareFunction l.itemSize.toNat item)
      (l.numItems + 1 - start).toNat start

/-- `ListRemoveItem`, for a destination of `NULL`. -/
def listRemoveItem (l : ListT) (itemPosition : ℤ) : Except Oob ListT := do
  let (_, l) ← listRemoveItems l false itemPosition 1
  return l

/-- The inner loop of `ListRemoveDuplicates`; `none` while it still runs. -/
def removeEqual (compareFunction : Option CompareFunction) (index : ℤ) :
    ℕ → ListT → ℤ → ℤ → Except Oob (Option (ListT × ℤ))
  | 0, _, _, _ => .ok none
  | fuel + 1, l, numItems, startIndexForFind =>
    if startIndexForFind ≤ numItems then do
      let item ← l.item (l.position index)
      let duplicatesIndex ← listFindItem l item startIndexForFind compareFunction
      if 0 < duplicatesIndex then
        let l ← listRemoveItem l duplicatesIndex
        removeEqual compareFunction index fuel l (numItems - 1) duplicatesIndex
      else return some (l, numItems)
    else return some (l, numItems)

/-- The outer loop, from `index` on. -/
def removeDuplicatesFrom (compareFunction : Option CompareFunction) :
    ℕ → ListT → ℤ → ℤ → Except Oob (Option ListT)
  | 0, _, _, _ => .ok none
  | fuel + 1, l, numItems, index =>
    if index < numItems then do
      match ← removeEqual compareFunction index (numItems.toNat + 1) l numItems (index + 1) with
      | none => return none
      | some (l, numItems) => removeDuplicatesFrom compareFunction fuel l numItems (index + 1)
    else return some l

def listRemoveDuplicates (l : ListT) (compareFunction : Option CompareFunction) :
    Except Oob (Option ListT) :=
  removeDuplicatesFrom compareFunction (l.numItems.toNat + 1) l l.numItems 1

/-- Two items of `z` bytes are equal. -/
def Equal (compareFunction : Option CompareFunction) (z : ℕ) (a b : Item) : Prop :=
  compareItems compareFunction z a b = 0

instance decEqual (compareFunction : Option CompareFunction) (z : ℕ) :
    DecidableRel (Equal compareFunction z) := fun _ _ => inferInstanceAs (Decidable (_ = _))

variable {compareFunction : Option CompareFunction} {l : ListT} {z n : ℕ}
  {xs front tail : List Item} {x : Item}

theorem item_eq {i : ℕ} (hl : Holds l z n xs) (hx : xs[i]? = some x) :
    l.item (i + 1 : ℕ) = .ok x := by
  obtain ⟨hi, hget⟩ := List.getElem?_eq_some_iff.1 hx
  have hcount := hl.fits.count
  have hroom := hl.room
  have hload := load_items (k := 1) hl hi
  rw [bytes_eq hl.itemSize (hl.fits.mono (by omega)), Nat.one_mul, List.drop_eq_getElem_cons hi,
    List.take_succ_cons, List.take_zero, List.flatten_singleton, hget] at hload
  rw [ListT.item, hl.itemSize, Int.toNat_natCast, Nat.cast_succ, Int.add_sub_cancel]
  exact hload

theorem listFindLoop_spec {cmpItem : Item → ℤ} (hl : Holds l z n (front ++ tail)) :
    (∀ y ∈ tail, cmpItem y ≠ 0) ∧
      listFindLoop l cmpItem tail.length (front.length + 1 : ℕ) = .ok 0 ∨
    ∃ passed y rest, tail = passed ++ y :: rest ∧ (∀ y ∈ passed, cmpItem y ≠ 0) ∧
      cmpItem y = 0 ∧ listFindLoop l cmpItem tail.length (front.length + 1 : ℕ) =
        .ok ((front ++ passed).length + 1 : ℕ) := by
  induction tail generalizing front with
  | nil => exact .inl ⟨by simp, rfl⟩
  | cons y tail ih =>
    have hitem : l.item (front.length + 1 : ℕ) = .ok y := item_eq hl (by simp)
    rw [List.length_cons, listFindLoop, hitem, ok_bind]
    by_cases hy : cmpItem y = 0
    · refine .inr ⟨[], y, tail, rfl, by simp, hy, ?_⟩
      rw [if_pos hy, List.append_nil]
      rfl
    · rw [if_neg hy]
      rw [← List.singleton_append, ← List.append_assoc] at hl
      have hnext := ih hl
      rw [List.length_append, List.length_singleton] at hnext
      rcases hnext with ⟨hall, hloop⟩ | ⟨passed, d, rest, rfl, hpassed, hd, hloop⟩
      · exact .inl ⟨List.forall_mem_cons.2 ⟨hy, hall⟩, hloop⟩
      · refine .inr ⟨y :: passed, d, rest, rfl, List.forall_mem_cons.2 ⟨hy, hpassed⟩, hd, ?_⟩
        rw [List.append_assoc, List.singleton_append] at hloop
        exact hloop

variable (compareFunction x) in
theorem listFindItem_spec (hl : Holds l z n (front ++ tail)) (hfront : 0 < front.length) :
    (∀ y ∈ tail, ¬ Equal compareFunction z x y) ∧
      listFindItem l x (front.length + 1 : ℕ) compareFunction = .ok 0 ∨
    ∃ passed y rest, tail = passed ++ y :: rest ∧ (∀ y ∈ passed, ¬ Equal compareFunction z x y) ∧
      Equal compareFunction z x y ∧ listFindItem l x (front.length + 1 : ℕ) compareFunction =
        .ok ((front ++ passed).length + 1 : ℕ) := by
  have hnum := hl.numItems
  rw [List.length_append] at hnum
  have hpos : l.position (front.length + 1 : ℕ) = (front.length + 1 : ℕ) := by
    unfold ListT.position LIST_START LIST_END
    rw [if_neg (by omega), if_neg (by omega)]
  have hfuel : (l.numItems + 1 - (front.length + 1 : ℕ)).toNat = tail.length := by omega
  unfold listFindItem
  rw [if_neg (by omega)]
  dsimp only
  rw [hpos, hfuel, hl.itemSize, Int.toNat_natCast]
  exact listFindLoop_spec hl

theorem listRemoveItem_spec {passed rest : List Item} {y : Item}
    (hl : Holds l z n (front ++ (passed ++ y :: rest))) :
    ∃ l', listRemoveItem l ((front ++ passed).length + 1 : ℕ) = .ok l' ∧
      Holds l' z n (front ++ passed ++ rest) := by
  rw [← List.append_assoc] at hl
  have hindex : itemIndex (front ++ passed ++ y :: rest).length
      ((front ++ passed).length + 1 : ℕ) = (front ++ passed).length := by
    unfold itemIndex LIST_START LIST_END
    rw [if_neg (by omega), if_neg (by omega)]
    omega
  have hpos : ItemPos (front ++ passed ++ y :: rest).length
      ((front ++ passed).length + 1 : ℕ) 1 := by
    refine ⟨.inr (.inr (by omega)), ?_⟩
    have hlen : (front ++ passed ++ y :: rest).length =
        (front ++ passed).length + (rest.length + 1) := List.length_append
    omega
  obtain ⟨l', hremove, hl'⟩ := listRemoveItems_spec hl hpos
  refine ⟨l', ?_, ?_⟩
  · rw [Nat.cast_one] at hremove
    unfold listRemoveItem
    rw [hremove]
    rfl
  · rwa [hindex, List.take_left, ← List.drop_drop, List.drop_left] at hl'

variable (compareFunction) in
/-- One turn of the outer loop removes what is equal to the item from behind `front`. -/
theorem removeEqual_spec {i fuel : ℕ} (hl : Holds l z n (front ++ tail))
    (hx : front[i]? = some x) (hfuel : tail.length < fuel) :
    ∃ l', removeEqual compareFunction (i + 1 : ℕ) fuel l (front ++ tail).length
        (front.length + 1 : ℕ) = .ok (some (l',
          (front ++ tail.filter fun b => decide (Equal compareFunction z x b) = false).length)) ∧
      Holds l' z n
        (front ++ tail.filter fun b => decide (Equal compareFunction z x b) = false) := by
  have hi := (List.getElem?_eq_some_iff.1 hx).1
  induction fuel generalizing l front tail with
  | zero => exact absurd hfuel (Nat.not_lt_zero _)
  | succ fuel ih =>
    have hlen : (front ++ tail).length = front.length + tail.length := List.length_append
    rw [removeEqual]
    by_cases hempty : tail = []
    · subst hempty
      rw [if_neg (by rw [List.append_nil]; omega)]
      exact ⟨l, rfl, hl⟩
    have hpos := List.length_pos_iff.2 hempty
    have hposition : l.position (i + 1 : ℕ) = (i + 1 : ℕ) := by
      unfold ListT.position LIST_START LIST_END
      rw [if_neg (by omega), if_neg (by omega)]
    have hitem : l.item (i + 1 : ℕ) = .ok x := item_eq hl (by rwa [List.getElem?_append_left hi])
    rw [if_pos (by omega), hposition, hitem, ok_bind]
    rcases listFindItem_spec compareFunction x hl (by omega) with
      ⟨hall, hfind⟩ | ⟨passed, y, rest, rfl, hpassed, hy, hfind⟩
    · have hfilter : (tail.filter fun b => decide (Equal compareFunction z x b) = false) = tail :=
        List.filter_eq_self.2 fun y hy => by simpa using hall y hy
      rw [hfind, ok_bind, if_neg (lt_irrefl 0), hfilter]
      exact ⟨l, rfl, hl⟩
    · -- the search goes on where the item was
      obtain ⟨l', hremove, hl'⟩ := listRemoveItem_spec hl
      have hfilter : ((passed ++ y :: rest).filter fun b =>
          decide (Equal compareFunction z x b) = false) =
            passed ++ rest.filter fun b => decide (Equal compareFunction z x b) = false := by
        rw [List.filter_append, List.filter_cons_of_neg (by simpa using hy),
          List.filter_eq_self.2 fun y hy => by simpa using hpassed y hy]
      have hnum : ((front ++ (passed ++ y :: rest)).length : ℤ) - 1 =
          (front ++ passed ++ rest).length := by
        simp only [List.length_append, List.length_cons, Nat.cast_add, Nat.cast_one]
        omega
      rw [hfind, ok_bind, if_pos (by omega), hremove, ok_bind, hnum, hfilter, ← List.append_assoc]
      refine ih hl' (by rwa [List.getElem?_append_left hi]) ?_ (by rw [List.length_append]; omega)
      rw [List.length_append, List.length_cons] at hfuel
      omega

variable (compareFunction) in
theorem removeDuplicatesFrom_spec {fuel : ℕ} (hl : Holds l z n (front ++ tail))
    (hfuel : tail.length < fuel) :
    ∃ l', removeDuplicatesFrom compareFunction fuel l (front ++ tail).length
        (front.length + 1 : ℕ) = .ok (some l') ∧
      Holds l' z n
        (front ++ tail.eraseDupsBy fun b a => decide (Equal compareFunction z a b)) := by
  induction fuel generalizing l front tail with
  | zero => exact absurd hfuel (Nat.not_lt_zero _)
  | succ fuel ih =>
    have hlen : (front ++ tail).length = front.length + tail.length := List.length_append
    rw [removeDuplicatesFrom]
    rcases tail with _ | ⟨x, _ | ⟨y, tail⟩⟩
    · rw [List.length_nil] at hlen
      rw [if_neg (by omega)]
      exact ⟨l, rfl, hl⟩
    · rw [List.length_singleton] at hlen
      rw [if_neg (by omega)]
      exact ⟨l, rfl, hl⟩
    · rw [← List.singleton_append, ← List.append_assoc] at hl
      rw [List.length_cons, List.length_cons] at hlen hfuel
      have hlonger : (front ++ x :: y :: tail).length = (front ++ [x] ++ (y :: tail)).length := by
        rw [List.append_assoc, List.singleton_append]
      have hfront : (front ++ [x]).length = front.length + 1 := by simp
      obtain ⟨l', hremove, hl'⟩ := removeEqual_spec compareFunction (i := front.length)
        (x := x) (n := n) (z := z) hl (by simp)
        (show (y :: tail).length < (front ++ x :: y :: tail).length + 1 by
          rw [hlen, List.length_cons]; omega)
      have hshort := List.length_filter_le
        (fun b => decide (decide (Equal compareFunction z x b) = false)) (y :: tail)
      rw [List.length_cons] at hshort
      obtain ⟨l'', hrest, hl''⟩ := ih hl' (by omega)
      rw [hfront, ← hlonger] at hremove
      rw [hfront] at hrest
      refine ⟨l'', ?_, ?_⟩
      · rw [if_pos (by omega), Int.toNat_natCast, ← Nat.cast_succ, hremove, ok_bind]
        exact hrest
      · rwa [List.eraseDupsBy_cons, ← List.singleton_append, ← List.append_assoc]

/-- The first occurrences of the items stay, as many as there are classes. -/
theorem listRemoveDuplicates_spec (hl : Holds l z n xs)
    (hequal : EquivalenceOn (Equal compareFunction z) xs) :
    ∃ l', listRemoveDuplicates l compareFunction = .ok (some l') ∧
      Holds l' z n (firstOccurrences (Equal compareFunction z) xs) ∧
      l'.numItems = (classes (Equal compareFunction z) xs).ncard := by
  obtain ⟨l', hremove, hl'⟩ :=
    removeDuplicatesFrom_spec compareFunction (List.nil_append xs ▸ hl) (Nat.lt_succ_self xs.length)
  rw [List.nil_append, ← firstOccurrences_eq hequal] at hl'
  refine ⟨l', ?_, hl', ?_⟩
  · rw [listRemoveDuplicates, hl.numItems, Int.toNat_natCast]
    exact hremove
  · rw [hl'.numItems, length_firstOccurrences hequal]

theorem listRemoveDuplicates_bytes :
    ∃ l', listRemoveDuplicates ⟨0, 10, 4, 3, 1, 3, [1, 2, 1, 0, 0, 0, 0]⟩ none = .ok (some l') ∧
      Holds l' 1 3 (firstOccurrences (Equal none 1) [[1], [2], [1]]) ∧
      l'.numItems = (classes (Equal none 1) [[1], [2], [1]]).ncard :=
  listRemoveDuplicates_spec
    ⟨rfl, rfl, rfl, by decide, by decide, ⟨[0, 0, 0, 0], rfl⟩, rfl, ⟨by decide, by decide⟩,
      by decide⟩
    ⟨by decide, by decide, by decide⟩

end UBoot.Lists
