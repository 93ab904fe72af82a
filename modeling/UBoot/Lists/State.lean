import UBoot.Lib.Bytes
import UBoot.Lib.CInt

/-!
# Resizable lists (`common/lists.c`)

A list is a handle to one block, which holds a header of counts and behind it the items, as bytes.
Counts, positions and sizes are `int`s. `malloc` and `realloc` answer what `Heap.answers` says; a
block that `realloc` grants may lie at another address.
-/

namespace UBoot.Lists

open UBoot.Lib

def LIST_START : ℤ := -1

def LIST_END : ℤ := 0

/-- `sizeof (ListStruct)`: the header, and padding behind the first byte of `itemList`. -/
def sizeofListStruct : ℕ := 28

/-- The offset of `itemList`. -/
def itemListAt : ℕ := 24

/-- A block that the allocator grants. What it holds is left from its last use. -/
structure Block where
  addr : ℕ
  fresh : ℕ → UInt8

/-- The answers of the allocator, how many were asked for, and how many of these were `NULL`. -/
structure Heap where
  answers : ℕ → Option Block
  calls : ℕ
  refused : ℕ

/-- `ListStruct`, with all the bytes of the block from `itemList` on, and the address of the
block. -/
structure ListT where
  addr : ℕ
  percentIncrease : ℤ
  minNumItemsIncrease : ℤ
  listSize : ℤ
  itemSize : ℤ
  numItems : ℤ
  itemList : List UInt8

def Heap.ask (h : Heap) : Option Block × Heap :=
  (h.answers h.calls, { h with
    calls := h.calls + 1
    refused := if (h.answers h.calls).isNone then h.refused + 1 else h.refused })

/-- `GetHandleSize` -/
def ListT.size (l : ListT) : ℕ := itemListAt + l.itemList.length

/-- `realloc` keeps the bytes that have room, and `memset` clears what is behind them. -/
def ListT.resize (l : ListT) (b : Block) (newSize : ℕ) : ListT :=
  let room := newSize - itemListAt
  { l with
    addr := b.addr
    itemList := l.itemList.take room ++ List.replicate (room - l.itemList.length) 0 }

/-- `SetHandleSize`. A size that has no room for the header makes the next access to it stray. -/
def setHandleSize (l : ListT) (newSize : ℕ) (h : Heap) : Except Oob (Bool × ListT × Heap) :=
  if l.size = newSize then .ok (true, l, h)
  else if newSize < itemListAt then .error .write
  else
    match h.ask with
    | (some b, h) => .ok (true, l.resize b newSize, h)
    | (none, h) => .ok (false, l, h)

def ListT.numItemsPerAlloc (l : ListT) : ℤ :=
  max ((int32 (l.listSize * int32 (l.percentIncrease + 100))).tdiv 100) l.minNumItemsIncrease

/-- The size in bytes of a list with room for `n` items. -/
def ListT.sizeFor (l : ListT) (n : ℤ) : ℕ := uint32 (sizeofListStruct + int32 (n * l.itemSize))

/-- The number of bytes of `n` items. -/
def ListT.bytes (l : ListT) (n : ℤ) : ℕ := uint32 (int32 (l.itemSize * n))

/-- `ITEMPTR`, from `itemList` on. -/
def ListT.itemPtr (l : ListT) (item : ℤ) : ℤ := int32 (l.itemSize * item)

def expandListSpace (l : ListT) (numNewItems : ℤ) (h : Heap) :
    Except Oob (Bool × ListT × Heap) := do
  let numNewItems :=
    if numNewItems = 0 then l.numItemsPerAlloc
    else if numNewItems < 0 then int32 (int32 (-numNewItems) + l.numItemsPerAlloc)
    else numNewItems
  let (ok, l, h) ← setHandleSize l (l.sizeFor (int32 (l.listSize + numNewItems))) h
  if ok then return (true, { l with listSize := int32 (l.listSize + numNewItems) }, h)
  else return (false, l, h)

def listCompact (l : ListT) (h : Heap) : Except Oob (ListT × Heap) := do
  let (ok, l, h) ← setHandleSize l (l.sizeFor l.numItems) h
  if ok then return ({ l with listSize := l.numItems }, h) else return (l, h)

/-- `NewHandle` for a header, and the fields that `ListCreate` sets. -/
def listCreate (elementSize : ℤ) (h : Heap) : Option ListT × Heap :=
  match h.ask with
  | (mem, h) =>
    match h.ask with
    | (record, h) =>
      match mem, record with
      | some b, some _ => (some {
          addr := b.addr
          percentIncrease := 10
          minNumItemsIncrease := 4
          listSize := 0
          itemSize := elementSize
          numItems := 0
          itemList := (List.range (sizeofListStruct - itemListAt)).map fun i => b.fresh i }, h)
      | _, _ => (none, h)

def listSetAllocationPolicy (l : ListT) (minItemsPerAlloc percentIncreasePerAlloc : ℤ) : ListT :=
  { l with percentIncrease := percentIncreasePerAlloc, minNumItemsIncrease := minItemsPerAlloc }

def listClear (l : ListT) : ListT := { l with numItems := 0 }

/-- The copy of the items in `ListCopy`, into the new list. -/
def copyItems (temp original : ListT) : Except Oob ListT := do
  let src ← Bytes.load original.itemList (original.itemPtr 0) (uint32 (int32
    (original.numItems * temp.itemSize)))
  let itemList ← Bytes.store temp.itemList (temp.itemPtr 0) src
  return { temp with itemList := itemList }

def listCopy (original : ListT) (h : Heap) : Except Oob (Option ListT × Heap) :=
  match listCreate original.itemSize h with
  | (none, h) => .ok (none, h)
  | (some temp, h) => do
    let (ok, temp, h) ← setHandleSize temp (temp.sizeFor original.numItems) h
    if ok then
      let temp ← copyItems { temp with
        numItems := original.numItems
        listSize := original.numItems
        itemSize := original.itemSize
        percentIncrease := original.percentIncrease
        minNumItemsIncrease := original.minNumItemsIncrease } original
      return (some temp, h)
    else return (none, h)

/-- The bytes that `memcpy` takes from `ptrToItems`, or those that `memset` writes. -/
def itemBytes (ptrToItems : Option (List UInt8)) (n : ℕ) : Except Oob (List UInt8) :=
  match ptrToItems with
  | none => .ok (List.replicate n 0)
  | some items => Bytes.load items 0 n

/-- The room is there, and the position is one of `LIST_END` and 1 to `numItems`. -/
def insertAt (l : ListT) (ptrToItems : Option (List UInt8)) (firstItemPosition : ℤ)
    (numItemsToInsert : ℤ) : Except Oob ListT := do
  let items ← itemBytes ptrToItems (l.bytes numItemsToInsert)
  if firstItemPosition = LIST_END then
    let itemList ← Bytes.store l.itemList (l.itemPtr l.numItems) items
    return { l with itemList := itemList, numItems := int32 (l.numItems + numItemsToInsert) }
  else
    let moved ← Bytes.move l.itemList (l.itemPtr (firstItemPosition - 1 + numItemsToInsert))
      (l.itemPtr (firstItemPosition - 1)) (l.bytes (l.numItems + 1 - firstItemPosition))
    let itemList ← Bytes.store moved (l.itemPtr (firstItemPosition - 1)) items
    return { l with itemList := itemList, numItems := int32 (l.numItems + numItemsToInsert) }

/-- What stands for the first position or the last one. -/
def ListT.insertPosition (l : ListT) (firstItemPosition : ℤ) : ℤ :=
  if firstItemPosition = l.numItems + 1 then LIST_END
  else if firstItemPosition = LIST_START then if l.numItems = 0 then LIST_END else 1
  else firstItemPosition

def listInsertItems (l : ListT) (ptrToItems : Option (List UInt8)) (firstItemPosition : ℤ)
    (numItemsToInsert : ℤ) (h : Heap) : Except Oob (Bool × ListT × Heap) :=
  if firstItemPosition ≠ l.numItems + 1 ∧ l.numItems < firstItemPosition then .ok (false, l, h)
  else do
    let (ok, grown, h) ←
      if l.listSize ≤ l.numItems then expandListSpace l (int32 (-numItemsToInsert)) h
      else .ok (true, l, h)
    if ok then
      let l ← insertAt grown ptrToItems (l.insertPosition firstItemPosition) numItemsToInsert
      return (true, l, h)
    else return (false, grown, h)

def listInsertItem (l : ListT) (ptrToItem : Option (List UInt8)) (itemPosition : ℤ) (h : Heap) :
    Except Oob (Bool × ListT × Heap) := listInsertItems l ptrToItem itemPosition 1 h

def ListT.position (l : ListT) (firstItemPosition : ℤ) : ℤ :=
  if firstItemPosition = LIST_START then 1
  else if firstItemPosition = LIST_END then l.numItems
  else firstItemPosition

def listGetItems (l : ListT) (firstItemPosition numItemsToGet : ℤ) : Except Oob (List UInt8) :=
  Bytes.load l.itemList (l.itemPtr (l.position firstItemPosition - 1)) (l.bytes numItemsToGet)

/-- What `ListRemoveItems` copies to `itemsDestination` where it is not `NULL`. -/
def ListT.copyOut (l : ListT) (itemsDestination : Bool) (first numItemsToRemove : ℤ) :
    Except Oob (List UInt8) :=
  if itemsDestination then Bytes.load l.itemList (l.itemPtr (first - 1)) (l.bytes numItemsToRemove)
  else .ok []

/-- The move that covers the hole left by the removed items. -/
def ListT.closeUp (l : ListT) (first firstItemAfterChunk numToMove : ℤ) : Except Oob (List UInt8) :=
  if 0 < numToMove then
    Bytes.move l.itemList (l.itemPtr (first - 1)) (l.itemPtr (firstItemAfterChunk - 1))
      (l.bytes numToMove)
  else .ok l.itemList

def listRemoveItems (l : ListT) (itemsDestination : Bool) (firstItemPosition numItemsToRemove : ℤ) :
    Except Oob (List UInt8 × ListT) := do
  let first := l.position firstItemPosition
  let removed ← l.copyOut itemsDestination first numItemsToRemove
  let firstItemAfterChunk := int32 (first + numItemsToRemove)
  let numToMove := int32 (l.numItems - (firstItemAfterChunk - 1))
  let itemList ← l.closeUp first firstItemAfterChunk numToMove
  return (removed, { l with
    itemList := itemList, numItems := int32 (l.numItems - numItemsToRemove) })

def listPreAllocate (l : ListT) (numItems : ℤ) (h : Heap) : Except Oob (Bool × ListT × Heap) :=
  if int32 (l.listSize - l.numItems) < numItems then
    expandListSpace l (int32 (numItems - int32 (l.listSize - l.numItems))) h
  else .ok (true, l, h)

/-- The lists that the variables of a program hold, or `NULL`. -/
abbrev Vars := ℕ → Option ListT

/-- The second half of `ListAppend`, once `list1` has room. Its `list2` may be the same list. -/
def appendItems (vars : Vars) (list1 list2 : ℕ) (numItemsL1 numItemsL2 : ℤ) : Except Oob Vars :=
  match vars list1, vars list2 with
  | some l1, some l2 => do
    let src ← Bytes.load l2.itemList (l2.itemPtr 0) (l2.bytes numItemsL2)
    let itemList ← Bytes.store l1.itemList (l1.itemPtr numItemsL1) src
    return Function.update vars list1 (some { l1 with itemList := itemList })
  | _, _ => .ok vars

/-- `ListAppend`, of the lists that two variables hold. -/
def listAppend (vars : Vars) (list1 list2 : ℕ) (h : Heap) : Except Oob (Bool × Vars × Heap) :=
  match vars list2, vars list1 with
  | none, _ => .ok (true, vars, h)
  | some _, none => .ok (false, vars, h)
  | some l2, some l1 =>
    if l1.itemSize ≠ l2.itemSize then .ok (false, vars, h)
    else if l2.numItems = 0 then .ok (true, vars, h)
    else do
      let total := int32 (l1.numItems + l2.numItems)
      let (ok, grown, h) ← setHandleSize l1 (l1.sizeFor total) h
      if ok then
        let vars ← appendItems (Function.update vars list1
          (some { grown with numItems := total, listSize := total })) list1 list2 l1.numItems
          l2.numItems
        return (true, vars, h)
      else return (false, vars, h)

end UBoot.Lists
