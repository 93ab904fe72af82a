import UBoot.Lib.Area

/-!
# Objects of a bounded size

A `Buf α n` is an object of `n` elements. `load` copies a stretch out of it and `store` one into
it; both answer `Oob` unless the whole stretch lies in the object, so a computation that ends in
`.ok` touched nothing outside. What lies in the object after a `store` is said element by element
(`get_put`), and for a stretch that the `store` wrote or missed (`slice_put`, `slice_put_of_ge`,
`slice_put_of_le`).
-/

namespace UBoot.Lib

theorem bind_eq_ok {ε α β : Type} {x : Except ε α} {f : α → Except ε β} {r : β} :
    x >>= f = .ok r ↔ ∃ a, x = .ok a ∧ f a = .ok r :=
  ⟨ok_of_bind, fun ⟨_, ha, hf⟩ => by rw [ha]; exact hf⟩

/-- An object of `n` elements. -/
structure Buf (α : Type*) (n : Nat) where
  get : Nat → α

namespace Buf

variable {α : Type*} {n : Nat}

/-- The `k` elements from `i` on. -/
def slice (b : Buf α n) (i k : Nat) : List α := (List.range k).map fun j => b.get (i + j)

/-- The object with the list at `i`. -/
def put (b : Buf α n) (i : Nat) (l : List α) : Buf α n where
  get j := if i ≤ j then (l[j - i]?).getD (b.get j) else b.get j

def load (b : Buf α n) (i k : Nat) : Except Oob (List α) :=
  if i + k ≤ n then .ok (b.slice i k) else .error .read

def store (b : Buf α n) (i : Nat) (l : List α) : Except Oob (Buf α n) :=
  if i + l.length ≤ n then .ok (b.put i l) else .error .write

def rd (b : Buf α n) (i : Nat) : Except Oob α :=
  if i < n then .ok (b.get i) else .error .read

variable {b : Buf α n} {l : List α} {i j k m : Nat}

@[simp] theorem slice_length : (b.slice i k).length = k := by
  rw [slice, List.length_map, List.length_range]

theorem getElem?_slice (h : j < k) : (b.slice i k)[j]? = some (b.get (i + j)) := by
  rw [slice, List.getElem?_map, List.getElem?_range h, Option.map_some]

theorem slice_congr {b' : Buf α n} (h : ∀ j < k, b.get (i + j) = b'.get (i + j)) :
    b.slice i k = b'.slice i k :=
  List.map_congr_left fun j hj => h j (List.mem_range.mp hj)

theorem slice_append : b.slice i (k + m) = b.slice i k ++ b.slice (i + k) m := by
  rw [slice, List.range_add, List.map_append, List.map_map, slice, slice]
  congr 1
  exact List.map_congr_left fun j _ => congrArg b.get (Nat.add_assoc i k j).symm

theorem get_put (h : j < l.length) : (b.put i l).get (i + j) = l[j] := by
  show (if i ≤ i + j then (l[i + j - i]?).getD _ else _) = _
  rw [if_pos (Nat.le_add_right i j), Nat.add_sub_cancel_left, List.getElem?_eq_getElem h]
  rfl

theorem get_put_of_lt (h : j < i) : (b.put i l).get j = b.get j := if_neg (by omega)

theorem get_put_of_ge (h : i + l.length ≤ j) : (b.put i l).get j = b.get j := by
  show (if i ≤ j then (l[j - i]?).getD _ else _) = _
  rw [if_pos (by omega), List.getElem?_eq_none (by omega)]
  rfl

theorem get_put_zero (h : j < l.length) : some ((b.put 0 l).get j) = l[j]? := by
  have hget := get_put (b := b) (i := 0) h
  rw [Nat.zero_add] at hget
  rw [hget, List.getElem?_eq_getElem]

theorem slice_put : (b.put i l).slice i l.length = l := by
  refine List.ext_getElem slice_length fun j hj hj' => ?_
  simp only [slice, List.getElem_map, List.getElem_range]
  exact get_put hj'

theorem slice_put_part (h : j + k ≤ l.length) :
    (b.put i l).slice (i + j) k = (l.drop j).take k := by
  have hlen : ((l.drop j).take k).length = k := by
    rw [List.length_take, List.length_drop]
    omega
  refine List.ext_getElem (by rw [slice_length, hlen]) fun m hm hm' => ?_
  simp only [slice, List.getElem_map, List.getElem_range, List.getElem_take, List.getElem_drop]
  rw [Nat.add_assoc]
  exact get_put (by rw [hlen] at hm'; omega)

theorem slice_put_of_le (h : m + k ≤ i) : (b.put i l).slice m k = b.slice m k :=
  slice_congr fun _ hj => get_put_of_lt (by omega)

theorem slice_put_of_ge (h : i + l.length ≤ m) : (b.put i l).slice m k = b.slice m k :=
  slice_congr fun _ _ => get_put_of_ge (by omega)

@[simp] theorem put_nil : b.put i [] = b := by
  have : (b.put i []).get = b.get := by
    funext j
    rw [put]
    dsimp only
    rw [List.getElem?_nil, Option.getD_none, ite_self]
  cases b
  exact congrArg Buf.mk this

theorem load_ok {r : List α} : b.load i k = .ok r ↔ i + k ≤ n ∧ r = b.slice i k := by
  rw [load]
  split_ifs with h
  · exact ⟨fun hr => ⟨h, (Except.ok.inj hr).symm⟩, fun hr => congrArg _ hr.2.symm⟩
  · exact iff_of_false (fun hr => by cases hr) fun hr => h hr.1

theorem store_ok {b' : Buf α n} : b.store i l = .ok b' ↔ i + l.length ≤ n ∧ b' = b.put i l := by
  rw [store]
  split_ifs with h
  · exact ⟨fun hr => ⟨h, (Except.ok.inj hr).symm⟩, fun hr => congrArg _ hr.2.symm⟩
  · exact iff_of_false (fun hr => by cases hr) fun hr => h hr.1

theorem rd_ok {r : α} : b.rd i = .ok r ↔ i < n ∧ r = b.get i := by
  rw [rd]
  split_ifs with h
  · exact ⟨fun hr => ⟨h, (Except.ok.inj hr).symm⟩, fun hr => congrArg _ hr.2.symm⟩
  · exact iff_of_false (fun hr => by cases hr) fun hr => h hr.1

end Buf

end UBoot.Lib
