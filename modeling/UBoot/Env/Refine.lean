import UBoot.Env.Entries
import UBoot.Lib.FirstMatch

/-!
# `_do_setenv` on the list of entries

What the function is for: take the first entry with the name's key out of the list, and
put a new entry at its end if there is a value and it fits. `Sets` states that as a
relation between lists; `doSetenv_refines` says that the code, run on an area holding a
list, ends without leaving the area and leaves an area holding a list so related.

The in-place loops are followed by splitting the bytes: `shiftDown` moves a `Body` (bytes
whose only double NUL is at their end) down over a gap, `findEnd` finds its end.
-/

namespace UBoot.Env

open UBoot.Lib UBoot.Common

variable {n : Nat}

/-! ## Bytes without a double NUL -/

/-- Nonempty bytes that end in a NUL and hold no two NULs in a row. -/
def Body : List UInt8 → Prop
  | [] => False
  | [c] => c = 0
  | c :: d :: w => (c = 0 → d ≠ 0) ∧ Body (d :: w)

theorem body_string {s : List UInt8} (h0 : (0 : UInt8) ∉ s) (hne : s ≠ []) : Body (s ++ [0]) := by
  induction s with
  | nil => exact absurd rfl hne
  | cons c s ih =>
    rw [List.mem_cons, not_or] at h0
    cases s with
    | nil => exact ⟨fun h => absurd h.symm h0.1, rfl⟩
    | cons d s => exact ⟨fun h => absurd h.symm h0.1, ih h0.2 (List.cons_ne_nil _ _)⟩

theorem Body.append {u w : List UInt8} {c : UInt8} (hu : Body u) (hw : Body (c :: w))
    (hc : c ≠ 0) : Body (u ++ c :: w) := by
  induction u with
  | nil => exact hu.elim
  | cons b u ih =>
    cases u with
    | nil => exact ⟨fun _ => hc, hw⟩
    | cons d u => exact ⟨hu.1, ih hu.2⟩

theorem Entry.bytes_ne_nil (e : Entry) : e.bytes ≠ [] := by simp [Entry.bytes]

/-- The first byte of a nonempty list of entries is not NUL. -/
theorem flat_head (e : Entry) (es : List Entry) : ∃ c w, flat (e :: es) = c :: w ∧ c ≠ 0 := by
  cases h : e.bytes with
  | nil => exact absurd h e.bytes_ne_nil
  | cons c s =>
    have hc := e.nonul
    rw [h, List.mem_cons, not_or] at hc
    exact ⟨c, s ++ 0 :: flat es, by rw [flat_cons, h]; rfl, Ne.symm hc.1⟩

theorem body_flat {es : List Entry} (hne : es ≠ []) : Body (flat es) := by
  induction es with
  | nil => exact absurd rfl hne
  | cons e es ih =>
    cases es with
    | nil => simpa using body_string e.nonul e.bytes_ne_nil
    | cons e' es =>
      obtain ⟨c, w, hw, hc⟩ := flat_head e' es
      have hb := ih (List.cons_ne_nil _ _)
      rw [hw] at hb
      have := (body_string e.nonul e.bytes_ne_nil).append hb hc
      rwa [List.append_assoc, List.singleton_append, ← hw, ← flat_cons] at this

/-! ## Deleting -/

/-- The loop moves `w` down to `pre`, over a gap of at least one byte. -/
theorem shiftDown_spec {w : List UInt8} (hw : Body w) {a : Area n} {p z q : List UInt8}
    {fuel env nxt : Nat} (h : a.bytes = p ++ (z ++ (w ++ 0 :: q))) (hg : z ≠ [])
    (henv : env = p.length) (hnxt : nxt = p.length + z.length) (hf : w.length ≤ fuel) :
    ∃ a' rest, shiftDown fuel a env nxt = .ok (a', env + w.length - 1) ∧
      a'.bytes = p ++ (w ++ rest) ∧ rest ≠ [] := by
  induction w generalizing a p z fuel env nxt with
  | nil => exact hw.elim
  | cons c w ih =>
    rw [List.length_cons] at hf
    obtain ⟨fuel, rfl⟩ : ∃ m, fuel = m + 1 := ⟨fuel - 1, by omega⟩
    obtain ⟨g, z, rfl⟩ := List.exists_cons_of_ne_nil hg
    have hr : a.rd nxt = .ok c :=
      Area.rd_split (p := p ++ g :: z) (q := w ++ 0 :: q) (by rw [h]; simp)
        (by rw [hnxt]; simp)
    obtain ⟨a₁, hw₁, hb₁⟩ := Area.wr_split (c := c) (x := g) (q := z ++ (c :: w ++ 0 :: q))
      h henv
    have hb₁' : a₁.bytes = (p ++ [c]) ++ ((z ++ [c]) ++ (w ++ 0 :: q)) := by
      rw [hb₁]; simp
    have henv' : env + 1 = (p ++ [c]).length := by rw [henv]; simp
    have hnxt' : nxt + 1 = (p ++ [c]).length + (z ++ [c]).length := by
      rw [hnxt]; simp; omega
    cases w with
    | nil =>
      -- the last NUL has been copied, and the next byte closes the list
      have hc : c = 0 := hw
      subst hc
      have hr₁ : a₁.rd (nxt + 1) = .ok 0 :=
        Area.rd_split (p := (p ++ [0]) ++ (z ++ [0])) (q := q) (by rw [hb₁']; simp)
          (by rw [hnxt']; simp; omega)
      refine ⟨a₁, z ++ (0 :: 0 :: q), ?_, by rw [hb₁]; simp, by simp⟩
      simp [shiftDown, hr, hw₁, hr₁, bind, Except.bind, pure, Except.pure]
    | cons d w =>
      have hr₁ : a₁.rd (nxt + 1) = .ok d :=
        Area.rd_split (p := (p ++ [c]) ++ (z ++ [c])) (q := w ++ 0 :: q)
          (by rw [hb₁']; simp) (by rw [hnxt']; simp; omega)
      obtain ⟨a', rest, he, hb', hne⟩ := ih hw.2 hb₁' (by simp) henv' hnxt'
        (Nat.le_of_succ_le_succ hf)
      refine ⟨a', rest, ?_, by rw [hb']; simp, hne⟩
      have hlen : env + 1 + (d :: w).length - 1 = env + (c :: d :: w).length - 1 := by
        simp only [List.length_cons]; omega
      rw [hlen] at he
      by_cases hc : c = 0
      · subst hc
        simp only [shiftDown, hr, hw₁, hr₁, bind, Except.bind, if_true, if_neg (hw.1 rfl), he]
      · simp only [shiftDown, hr, hw₁, bind, Except.bind, if_neg hc, he]

theorem deleteAt_holds {a : Area n} {es₁ es₂ : List Entry} {e : Entry}
    (h : Holds a (es₁ ++ e :: es₂)) :
    ∃ a', deleteAt a (flat es₁).length ((flat es₁).length + e.bytes.length) = .ok a' ∧
      Holds a' (es₁ ++ es₂) := by
  obtain ⟨post, hs⟩ := h.split
  have hs' : a.bytes = (flat es₁ ++ e.bytes ++ [0]) ++ (flat es₂ ++ 0 :: post) := by
    rw [hs]; simp
  have hn : (flat es₁).length + e.bytes.length + 1 = (flat es₁ ++ e.bytes ++ [0]).length := by
    simp only [List.length_append, List.length_singleton]
  cases es₂ with
  | nil =>
    have hr : a.rd ((flat es₁).length + e.bytes.length + 1) = .ok 0 :=
      Area.rd_split (q := post) hs' hn
    obtain ⟨c, s, hc⟩ := List.exists_cons_of_ne_nil e.bytes_ne_nil
    cases es₁ with
    | nil =>
      -- the only entry: its first two bytes become the double NUL
      obtain ⟨a₁, hw₁, hb₁⟩ := Area.wr_split (c := 0) (a := a) (p := []) (i := 0) (x := c)
        (q := s ++ 0 :: 0 :: post) (by rw [hs', hc]; simp) rfl
      obtain ⟨d, t, ht⟩ : ∃ d t, s ++ 0 :: 0 :: post = d :: t :=
        List.exists_cons_of_ne_nil (by simp)
      rw [ht] at hb₁
      obtain ⟨a₂, hw₂, hb₂⟩ := Area.wr_split (c := 0) (a := a₁) (p := [0]) (i := 1) (x := d)
        (q := t) hb₁ rfl
      refine ⟨a₂, ?_, Holds.of_nil hb₂⟩
      simp only [flat_nil, List.length_nil, Nat.zero_add] at hr ⊢
      simpa [deleteAt, hr, bind, Except.bind, hw₁, pure, Except.pure] using hw₂
    | cons e₁ es₁ =>
      -- the last entry: the end of the list moves back to where it began
      obtain ⟨a', hw', hb'⟩ := Area.wr_split (c := 0) (a := a) (p := flat (e₁ :: es₁))
        (i := (flat (e₁ :: es₁)).length) (x := c) (q := s ++ 0 :: 0 :: post)
        (by rw [hs', hc]; simp) rfl
      have hpos : 0 < (flat (e₁ :: es₁)).length := by
        rw [List.length_pos_iff]; exact fun h => absurd (flat_eq_nil.mp h) (List.cons_ne_nil _ _)
      refine ⟨a', ?_, by rw [List.append_nil]; exact .of_split (List.cons_ne_nil _ _) hb'⟩
      simp only [deleteAt, hr, bind, Except.bind, if_true, if_pos hpos, pure, Except.pure]
      rw [Nat.sub_add_cancel hpos]
      exact hw'
  | cons e₂ es₂ =>
    obtain ⟨c, w, hw, hc⟩ := flat_head e₂ es₂
    have hr : a.rd ((flat es₁).length + e.bytes.length + 1) = .ok c :=
      Area.rd_split (q := w ++ 0 :: post) (by rw [hs', hw]; rfl) hn
    have hb := body_flat (List.cons_ne_nil e₂ es₂)
    have hfuel : (flat (e₂ :: es₂)).length ≤ n + 1 := by
      have := h.length_lt
      simp only [flat_append, flat_cons e, List.length_append, List.length_cons] at this
      omega
    obtain ⟨a₁, rest, hd, hb₁, hne⟩ := shiftDown_spec hb (a := a) (p := flat es₁)
      (z := e.bytes ++ [0]) (q := post) (by rw [hs']; simp) (by simp) rfl
      (show (flat es₁).length + e.bytes.length + 1 = _ by
        rw [List.length_append, List.length_singleton, Nat.add_assoc]) hfuel
    obtain ⟨r, rest, rfl⟩ := List.exists_cons_of_ne_nil hne
    have hlen : (flat es₁).length + (flat (e₂ :: es₂)).length - 1 + 1 =
        (flat es₁ ++ flat (e₂ :: es₂)).length := by
      rw [List.length_append, hw, List.length_cons]; omega
    obtain ⟨a', hw', hb'⟩ := Area.wr_split (c := 0) (a := a₁) (p := flat es₁ ++ flat (e₂ :: es₂))
      (i := (flat es₁).length + (flat (e₂ :: es₂)).length - 1 + 1) (x := r) (q := rest)
      (by rw [hb₁]; simp) hlen
    refine ⟨a', ?_, .of_split (by simp) (q := rest) (by rw [hb']; simp)⟩
    simp only [deleteAt, hr, hd, bind, Except.bind, if_neg hc]
    exact hw'

/-! ## Appending -/

theorem findEndFrom_body {w : List UInt8} (hw : Body w) (post : List UInt8) (i : Nat) :
    findEndFrom (w ++ 0 :: post) i = .ok (i + w.length - 1) := by
  induction w generalizing i with
  | nil => exact hw.elim
  | cons c w ih =>
    cases w with
    | nil =>
      have hc : c = 0 := hw
      simp [findEndFrom, hc]
    | cons d w =>
      have ih := ih hw.2 (i + 1)
      simp only [List.cons_append] at ih ⊢
      have hlen : i + 1 + (d :: w).length - 1 = i + (c :: d :: w).length - 1 := by simp; omega
      by_cases hc : c = 0
      · rw [findEndFrom, if_neg (by simpa using hc), if_pos (hw.1 hc), ih, hlen]
      · rw [findEndFrom, if_pos hc, ih, hlen]

theorem findEnd_holds {a : Area n} {es : List Entry} (h : Holds a es) :
    findEnd a = .ok (flat es).length := by
  cases es with
  | nil =>
    obtain ⟨rest, h⟩ := h
    simp [findEnd, ← h, image, findEndFrom, bind, Except.bind, pure, Except.pure]
  | cons e es =>
    obtain ⟨post, h⟩ := h.split
    have hlen := length_le_flat (e :: es)
    rw [List.length_cons] at hlen
    simp only [findEnd, h, findEndFrom_body (body_flat (List.cons_ne_nil e es)), bind, Except.bind,
      Nat.zero_add, if_pos (show (flat (e :: es)).length - 1 > 0 by omega)]
    exact congrArg Except.ok (Nat.sub_add_cancel (by omega))

theorem putStr_spec {s : List UInt8} {a : Area n} {p m q : List UInt8} {i : Nat}
    (h : a.bytes = p ++ (m ++ q)) (hi : i = p.length) (hm : m.length = s.length + 1) :
    ∃ a', putStr a i s = .ok (a', i + s.length) ∧ a'.bytes = p ++ (s ++ 0 :: q) := by
  induction s generalizing a p m i with
  | nil =>
    obtain ⟨x, rfl⟩ := List.length_eq_one_iff.mp hm
    obtain ⟨a', hw, hb⟩ := Area.wr_split (c := 0) h hi
    exact ⟨a', by simp [putStr, hw, bind, Except.bind, pure, Except.pure], hb⟩
  | cons c s ih =>
    obtain ⟨x, m, rfl⟩ := List.exists_cons_of_length_eq_add_one hm
    obtain ⟨a₁, hw, hb⟩ := Area.wr_split (c := c) (q := m ++ q) h hi
    obtain ⟨a', he, hb'⟩ := ih (a := a₁) (p := p ++ [c]) (m := m) (i := i + 1)
      (by rw [hb]; simp) (by rw [hi]; simp) (by simpa using hm)
    refine ⟨a', ?_, by rw [hb']; simp⟩
    simp only [putStr, hw, bind, Except.bind, he, List.length_cons]
    congr 2; omega

/-- The words of a value with their separators. -/
def spaced (sep : UInt8) : List CStr → List UInt8
  | [] => []
  | v :: vs => sep :: (v.bytes ++ spaced 32 vs)

theorem spaced_length (sep : UInt8) (vs : List CStr) :
    (spaced sep vs).length = (vs.map fun v => v.bytes.length + 1).sum := by
  induction vs generalizing sep with
  | nil => rfl
  | cons v vs ih => simp [spaced, ih]; omega

theorem putWords_spec (vs : List CStr) {a : Area n} {p m q : List UInt8} {i : Nat}
    {y : UInt8} (h : a.bytes = p ++ (m ++ q)) (hi : i = p.length)
    (hm : m.length = (spaced y vs).length + 1) (h0 : m.head? = some 0) :
    ∃ a', putWords a i y vs = .ok (a', i + (spaced y vs).length) ∧
      a'.bytes = p ++ (spaced y vs ++ 0 :: q) := by
  induction vs generalizing a p m i y with
  | nil =>
    obtain ⟨x, rfl⟩ := List.length_eq_one_iff.mp hm
    obtain rfl : x = 0 := by simpa using h0
    exact ⟨a, rfl, h⟩
  | cons v vs ih =>
    obtain ⟨x, m, rfl⟩ := List.exists_cons_of_length_eq_add_one hm
    obtain ⟨a₁, hw, hb⟩ := Area.wr_split (c := y) (q := m ++ q) h hi
    have hm' : m.length = v.bytes.length + 1 + (spaced 32 vs).length := by
      simp [spaced] at hm; omega
    obtain ⟨a₂, he, hb₂⟩ := putStr_spec (s := v.bytes) (a := a₁) (p := p ++ [y])
      (m := m.take (v.bytes.length + 1)) (q := m.drop (v.bytes.length + 1) ++ q)
      (i := i + 1) (by rw [hb, ← List.append_assoc (m.take _), List.take_append_drop]; simp)
      (by rw [hi]; simp) (by simp; omega)
    obtain ⟨a', he', hb'⟩ := ih (a := a₂) (p := p ++ y :: v.bytes)
      (m := 0 :: m.drop (v.bytes.length + 1)) (i := i + 1 + v.bytes.length) (y := 32)
      (by rw [hb₂]; simp) (by rw [hi]; simp; omega) (by simp; omega) rfl
    refine ⟨a', ?_, by rw [hb']; simp [spaced]⟩
    simp only [putWords, hw, bind, Except.bind, he, he', spaced, List.length_cons,
      List.length_append]
    congr 2; omega

theorem append_spec {a : Area n} {p m q : List UInt8} {i : Nat} (name : CStr)
    (vals : List CStr) (h : a.bytes = p ++ (m ++ q)) (hi : i = p.length)
    (hm : m.length = newLen name vals) :
    ∃ a', append a i name vals = .ok a' ∧
      a'.bytes = p ++ (name.bytes ++ spaced eqCh vals ++ 0 :: 0 :: q) := by
  have hlen := spaced_length eqCh vals
  simp only [newLen] at hm
  obtain ⟨a₁, he₁, hb₁⟩ := putStr_spec (s := name.bytes) (a := a) (p := p)
    (m := m.take (name.bytes.length + 1)) (q := m.drop (name.bytes.length + 1) ++ q)
    (i := i) (by rw [h, ← List.append_assoc (m.take _), List.take_append_drop]) hi
    (by simp; omega)
  obtain ⟨x, mid', hmid⟩ : ∃ x mid', m.drop (name.bytes.length + 1) = mid' ++ [x] :=
    List.eq_nil_or_concat' _ |>.resolve_left (by rw [List.drop_eq_nil_iff]; omega) |>
      fun ⟨l, b, h⟩ => ⟨b, l, h⟩
  have hm' : mid'.length = (spaced eqCh vals).length := by
    have := congrArg List.length hmid
    simp at this; omega
  obtain ⟨a₂, he₂, hb₂⟩ := putWords_spec vals (a := a₁) (p := p ++ name.bytes)
    (m := 0 :: mid') (q := x :: q) (i := i + name.bytes.length) (y := eqCh)
    (by rw [hb₁, hmid]; simp) (by rw [hi]; simp) (by simp [hm']) rfl
  obtain ⟨a₃, he₃, hb₃⟩ := Area.wr_split (c := 0) (a := a₂)
    (p := p ++ (name.bytes ++ spaced eqCh vals ++ [0]))
    (i := i + name.bytes.length + (spaced eqCh vals).length + 1) (x := x) (q := q)
    (by rw [hb₂]; simp) (by rw [hi]; simp; omega)
  refine ⟨a₃, ?_, by rw [hb₃]; simp⟩
  simp only [append, he₁, he₂, he₃, bind, Except.bind]

/-! ## The refinement -/

theorem spaced_nonul {sep : UInt8} (hsep : sep ≠ 0) (vs : List CStr) :
    (0 : UInt8) ∉ spaced sep vs := by
  induction vs generalizing sep with
  | nil => simp [spaced]
  | cons v vs ih =>
    simp only [spaced, List.mem_cons, List.mem_append, not_or]
    exact ⟨Ne.symm hsep, v.nonul, ih (by decide)⟩

/-- The definition of `name` with the words `v`, `vs`. -/
def newEntry (name v : CStr) (vs : List CStr) : Entry :=
  .ofBytes (name.bytes ++ spaced eqCh (v :: vs)) fun h =>
    (List.mem_append.mp h).elim name.nonul (spaced_nonul (by decide) _)

theorem newEntry_bytes (name v : CStr) (vs : List CStr) :
    (newEntry name v vs).bytes = name.bytes ++ spaced eqCh (v :: vs) :=
  Entry.ofBytes_bytes _ (by simp [spaced])

theorem keyOf_append_eq (s t : List UInt8) : keyOf (s ++ eqCh :: t) = keyOf s := by
  induction s with
  | nil => simp [keyOf]
  | cons c s ih =>
    by_cases hc : c = eqCh
    · simp [keyOf, hc]
    · simpa [keyOf, hc] using ih

theorem newEntry_key (name v : CStr) (vs : List CStr) :
    (newEntry name v vs).key = keyOf name.bytes := keyOf_append_eq _ _

/-- The list without its first entry of key `k`. -/
def dropKey (k : List UInt8) (es : List Entry) : List Entry := es.eraseP fun e => e.key = k

/-- Putting the new definition at the end of a list, with the return code: nothing to put,
it fits into the `n` bytes, or it does not. -/
inductive Puts (n : Nat) (name : CStr) (es : List Entry) : Args → Nat → List Entry → Prop where
  | nothing {args : Args} (h : args.argv2 = none) : Puts n name es args 0 es
  | stored {v : CStr} {vs : List CStr} (h : (flat es).length + newLen name (v :: vs) ≤ n) :
      Puts n name es (.words v vs) 0 (es ++ [newEntry name v vs])
  | overflow {v : CStr} {vs : List CStr} (h : n < (flat es).length + newLen name (v :: vs)) :
      Puts n name es (.words v vs) 1 es

/-- A call of `_do_setenv` on a list: an existing definition may be refused; otherwise it
is taken out and the new one put. -/
inductive Sets (n : Nat) (name : CStr) (es : List Entry) (args : Args) :
    Nat → List Entry → Prop where
  | rejected (h : ∃ e ∈ es, e.key = keyOf name.bytes) : Sets n name es args 1 es
  | done {rc : Nat} {es' : List Entry}
      (h : Puts n name (dropKey (keyOf name.bytes) es) args rc es') :
      Sets n name es args rc es'

theorem setNew_refines {e : EnvT n} {es : List Entry} (h : Holds e.data es) (b : Build)
    (g : Globals) (name : CStr) (args : Args) (msgs : List Msg) :
    ∃ r es', setNew b e g name args msgs = .ok r ∧ Puts n name es args r.rc es' ∧
      Holds r.env.data es' := by
  cases args with
  | missing => exact ⟨_, es, rfl, .nothing rfl, h⟩
  | null => exact ⟨_, es, rfl, .nothing rfl, h⟩
  | words v vs =>
    have hlt := h.length_lt
    by_cases hfit : n < (flat es).length + newLen name (v :: vs)
    · refine ⟨⟨1, e, setEthDevice b g name (.words v vs), msgs ++ [.overflow name]⟩, es, ?_,
        .overflow hfit, h⟩
      simp only [setNew, findEnd_holds h, bind, Except.bind]
      rw [if_pos (by omega)]
      rfl
    · obtain ⟨post, hs⟩ := h.split
      have hl := congrArg List.length hs
      rw [e.data.size, List.length_append, List.length_cons] at hl
      -- the new definition overwrites the end mark and what lies behind it
      obtain ⟨a', ha, hb⟩ := append_spec name (v :: vs) (a := e.data) (p := flat es)
        (m := (0 :: post).take (newLen name (v :: vs)))
        (q := (0 :: post).drop (newLen name (v :: vs)))
        (by rw [hs, List.take_append_drop]) rfl (by rw [List.length_take, List.length_cons]; omega)
      refine ⟨⟨0, envCrcUpdate { e with data := a' },
        updateSpecial b (setEthDevice b g name (.words v vs)) name v, msgs⟩,
        es ++ [newEntry name v vs], ?_, .stored (Nat.le_of_not_lt hfit), ?_⟩
      · simp only [setNew, findEnd_holds h, bind, Except.bind]
        rw [if_neg (by omega), ha]
        rfl
      · exact .of_split (a := a') (q := (0 :: post).drop (newLen name (v :: vs))) (by simp)
          (by rw [hb, flat_append, flat_cons, newEntry_bytes]; simp)

/-- **`_do_setenv` refines `Sets`.** On an area that holds a list of entries the call stays
inside the area, and leaves it holding the list it should. -/
theorem doSetenv_refines {e : EnvT n} {es : List Entry} (h : Holds e.data es) (b : Build)
    (o : Outside) (g : Globals) (name : CStr) (args : Args) :
    ∃ r es', doSetenv b o e g name args = .ok r ∧ Sets n name es args r.rc es' ∧
      Holds r.env.data es' := by
  cases hl : locate (keyOf name.bytes) es 0 with
  | none =>
    obtain ⟨r, es', he, hp, hh⟩ := setNew_refines h b g name args []
    have hd : dropKey (keyOf name.bytes) es = es :=
      List.eraseP_of_forall_not (by simpa using locate_eq_none.mp hl)
    refine ⟨r, es', ?_, .done (by rw [hd]; exact hp), hh⟩
    simp only [doSetenv, search_holds h, hl, bind, Except.bind, he]
  | some t =>
    obtain ⟨p, q, v⟩ := t
    obtain ⟨es₁, e₀, es₂, rfl, h1, h2, rfl, rfl, -⟩ := locate_eq_some hl
    rw [Nat.zero_add] at hl
    cases hc : checkOldval b o e.data g name args v with
    | mk ok gm =>
      obtain ⟨g', msgs⟩ := gm
      cases ok with
      | false =>
        refine ⟨⟨1, e, g', msgs⟩, es₁ ++ e₀ :: es₂, ?_, .rejected ⟨e₀, by simp, h2⟩, h⟩
        simp only [doSetenv, search_holds h, hl, bind, Except.bind, hc]
        rfl
      | true =>
        obtain ⟨a', ha, hh'⟩ := deleteAt_holds h
        obtain ⟨r, es', he, hp, hh⟩ :=
          setNew_refines (e := { e with data := a' }) hh' b g' name args msgs
        have hd : dropKey (keyOf name.bytes) (es₁ ++ e₀ :: es₂) = es₁ ++ es₂ := by
          rw [dropKey, List.eraseP_append_right _ (by simpa using h1),
            List.eraseP_cons_of_pos (by simp [h2])]
        refine ⟨r, es', ?_, .done (by rw [hd]; exact hp), hh⟩
        simp only [doSetenv, search_holds h, hl, bind, Except.bind, hc, ha, he]

end UBoot.Env
