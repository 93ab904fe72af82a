import UBoot.Env.Setenv
import Mathlib.Data.List.TakeWhile

/-!
# The environment as a list of entries

The format of `include/environment.h`: `flat es` is the entries one after another, each
with its NUL; `image es` adds what closes the list, so that it ends in a double NUL (an
empty list is the double NUL alone). `Holds a es` says that the area `a` begins with the
image of `es`; what lies behind it is not part of the environment.

An `Entry` carries its well-formedness: a key without `=`, a value, no NUL in either.
Reading an area that holds `es` is then a search of the list (`search_holds`,
`getenv_holds`): the scans end inside the area and `envmatch` compares keys.
-/

namespace UBoot.Env

open UBoot.Lib UBoot.Common

structure Entry where
  key : List UInt8
  val : List UInt8
  key_ok : ∀ c ∈ key, c ≠ 0 ∧ c ≠ eqCh
  val_ok : (0 : UInt8) ∉ val

/-- `name=value`. -/
def Entry.bytes (e : Entry) : List UInt8 := e.key ++ eqCh :: e.val

/-- The name up to its first `=`: what `envmatch` compares. -/
def keyOf (s : List UInt8) : List UInt8 := s.takeWhile (· ≠ eqCh)

def flat (es : List Entry) : List UInt8 := es.flatMap fun e => e.bytes ++ [0]

def image : List Entry → List UInt8
  | [] => [0, 0]
  | e :: es => flat (e :: es) ++ [0]

variable {n : Nat}

def Holds (a : Area n) (es : List Entry) : Prop := image es <+: a.bytes

/-! ## Entries and their bytes -/

theorem Entry.nonul (e : Entry) : (0 : UInt8) ∉ e.bytes := by
  simp only [Entry.bytes, List.mem_append, List.mem_cons, not_or]
  exact ⟨fun h => (e.key_ok _ h).1 rfl, by decide, e.val_ok⟩

theorem Entry.bytes_length (e : Entry) : e.bytes.length = e.key.length + 1 + e.val.length := by
  simp [Entry.bytes]; omega

theorem keyOf_ok {s : List UInt8} (h0 : (0 : UInt8) ∉ s) : ∀ c ∈ keyOf s, c ≠ 0 ∧ c ≠ eqCh := by
  intro c hc
  refine ⟨fun e => h0 (e ▸ (List.takeWhile_subset _ hc)), ?_⟩
  simpa using List.mem_takeWhile_imp hc

def Entry.ofBytes (s : List UInt8) (h0 : (0 : UInt8) ∉ s) : Entry where
  key := keyOf s
  val := (s.dropWhile (· ≠ eqCh)).tail
  key_ok := keyOf_ok h0
  val_ok h := h0 ((List.dropWhile_suffix _).subset (List.mem_of_mem_tail h))

theorem Entry.ofBytes_bytes {s : List UInt8} (h0 : (0 : UInt8) ∉ s) (heq : eqCh ∈ s) :
    (Entry.ofBytes s h0).bytes = s := by
  have hne : s.dropWhile (· ≠ eqCh) ≠ [] := by
    intro h
    rw [List.dropWhile_eq_nil_iff] at h
    simpa using h _ heq
  have hhead : (s.dropWhile (· ≠ eqCh)).head hne = eqCh := by
    simpa using List.head_dropWhile_not (· ≠ eqCh) hne
  have hcons : eqCh :: (s.dropWhile (· ≠ eqCh)).tail = s.dropWhile (· ≠ eqCh) := by
    rw [← List.cons_head_tail hne, hhead, List.tail_cons]
  show keyOf s ++ eqCh :: (s.dropWhile (· ≠ eqCh)).tail = s
  rw [hcons]
  exact List.takeWhile_append_dropWhile

@[simp] theorem flat_nil : flat [] = [] := rfl

@[simp] theorem flat_cons (e : Entry) (es : List Entry) :
    flat (e :: es) = e.bytes ++ 0 :: flat es := by
  simp [flat]

@[simp] theorem flat_append (es fs : List Entry) : flat (es ++ fs) = flat es ++ flat fs := by
  simp [flat]

theorem length_le_flat (es : List Entry) : 2 * es.length ≤ (flat es).length := by
  induction es with
  | nil => simp
  | cons e es ih =>
    rw [flat_cons, List.length_append, List.length_cons, List.length_cons, e.bytes_length]
    omega

theorem flat_eq_nil {es : List Entry} : flat es = [] ↔ es = [] := by
  cases es <;> simp

/-- An area holding entries begins with them and a NUL; an empty one with two. -/
theorem Holds.split {a : Area n} {es : List Entry} (h : Holds a es) :
    ∃ post, a.bytes = flat es ++ 0 :: post := by
  obtain ⟨rest, h⟩ := h
  cases es with
  | nil => exact ⟨0 :: rest, by rw [← h]; rfl⟩
  | cons e es => exact ⟨rest, by rw [← h]; simp [image]⟩

theorem Holds.of_split {a : Area n} {es : List Entry} {q : List UInt8} (hne : es ≠ [])
    (h : a.bytes = flat es ++ 0 :: q) : Holds a es := by
  cases es with
  | nil => exact absurd rfl hne
  | cons e es => exact ⟨q, by rw [h]; simp [image]⟩

theorem Holds.of_nil {a : Area n} {q : List UInt8} (h : a.bytes = 0 :: 0 :: q) :
    Holds a [] := ⟨q, by rw [h]; rfl⟩

theorem Holds.length_lt {a : Area n} {es : List Entry} (h : Holds a es) :
    (flat es).length < n := by
  obtain ⟨post, h⟩ := h.split
  exact Area.lt_of_split h

/-! ## Scanning -/

theorem nulFrom_append {s : List UInt8} (h0 : (0 : UInt8) ∉ s) (rest : List UInt8) (i : Nat) :
    nulFrom (s ++ 0 :: rest) i = .ok (i + s.length) := by
  induction s generalizing i with
  | nil => rfl
  | cons c s ih =>
    rw [List.mem_cons, not_or] at h0
    simp only [List.cons_append, nulFrom, if_neg (Ne.symm h0.1), ih h0.2, List.length_cons]
    congr 1; omega

theorem nulFromBounded_append {s : List UInt8} (h0 : (0 : UInt8) ∉ s) (rest : List UInt8)
    {envSize i : Nat} (hi : i + s.length ≤ envSize) :
    nulFromBounded envSize (s ++ 0 :: rest) i = .ok (some (i + s.length)) := by
  induction s generalizing i with
  | nil => rfl
  | cons c s ih =>
    rw [List.mem_cons, not_or] at h0
    rw [List.length_cons] at hi
    simp only [List.cons_append, nulFromBounded, if_neg (Ne.symm h0.1),
      if_neg (show ¬ envSize ≤ i by omega), ih h0.2 (show i + 1 + s.length ≤ envSize by omega),
      List.length_cons]
    congr 2; omega

/-- `envmatch` of a name at the first byte of an entry compares the keys. Its reads stop at
the entry's `=` or before, and at the name's NUL or before. -/
theorem envmatchFrom_key {s k : List UInt8} (hs : (0 : UInt8) ∉ s)
    (hk : ∀ c ∈ k, c ≠ 0 ∧ c ≠ eqCh) (rest : List UInt8) (i : Nat) :
    envmatchFrom (s ++ [0]) (k ++ eqCh :: rest) i =
      .ok (if k = keyOf s then some (i + k.length + 1) else none) := by
  induction k generalizing s i with
  | nil =>
    cases s with
    | nil => rfl
    | cons c s =>
      rw [List.mem_cons, not_or] at hs
      by_cases hc : c = eqCh
      · subst hc
        simp [envmatchFrom, keyOf]
      · simp [envmatchFrom, keyOf, hc, Ne.symm hs.1]
  | cons d k ih =>
    obtain ⟨hd, hk'⟩ := List.forall_mem_cons.mp hk
    cases s with
    | nil => simp [envmatchFrom, keyOf, Ne.symm hd.1, hd.2]
    | cons c s =>
      rw [List.mem_cons, not_or] at hs
      by_cases hcd : c = d
      · subst hcd
        have h := ih hs.2 hk' (i + 1)
        simp only [List.cons_append, envmatchFrom, if_true, if_neg hd.2, h]
        have hkey : keyOf (c :: s) = c :: keyOf s :=
          List.takeWhile_cons_of_pos (decide_eq_true hd.2)
        rw [hkey]
        simp only [List.cons.injEq, true_and, List.length_cons, Nat.add_right_comm i 1,
          Nat.add_assoc]
      · simp only [List.cons_append, envmatchFrom, if_neg hcd, if_neg (show ¬ (c = 0 ∧ d = eqCh)
          from fun h => hd.2 h.2)]
        by_cases hc : c = eqCh
        · simp [keyOf, hc]
        · simp [keyOf, hc, Ne.symm hcd]

theorem envmatch_entry {a : Area n} {p rest : List UInt8} {e : Entry} {i : Nat} (name : CStr)
    (h : a.bytes = p ++ (e.bytes ++ rest)) (hi : i = p.length) :
    envmatch a name i =
      .ok (if e.key = keyOf name.bytes then some (i + e.key.length + 1) else none) := by
  subst hi
  have hdrop : a.bytes.drop p.length = e.key ++ eqCh :: (e.val ++ rest) := by
    rw [h, List.drop_left]
    simp [Entry.bytes]
  rw [envmatch, hdrop]
  exact envmatchFrom_key name.nonul e.key_ok _ _

/-! ## Searching -/

/-- Where the first entry with key `k` lies: the index of the entry, of its NUL and of its
value, for entries laid out from `i` on. -/
def locate (k : List UInt8) : List Entry → Nat → Option (Nat × Nat × Nat)
  | [], _ => none
  | e :: es, i =>
    if e.key = k then some (i, i + e.bytes.length, i + e.key.length + 1)
    else locate k es (i + e.bytes.length + 1)

theorem locate_eq_none {k : List UInt8} {es : List Entry} {i : Nat} :
    locate k es i = none ↔ ∀ e ∈ es, e.key ≠ k := by
  induction es generalizing i with
  | nil => simp [locate]
  | cons e es ih =>
    simp only [locate]
    split
    · next h => simp [h]
    · next h => simp [h, ih]

theorem locate_eq_some {k : List UInt8} {es : List Entry} {i p q v : Nat}
    (h : locate k es i = some (p, q, v)) :
    ∃ es₁ e es₂, es = es₁ ++ e :: es₂ ∧ (∀ x ∈ es₁, x.key ≠ k) ∧ e.key = k ∧
      p = i + (flat es₁).length ∧ q = p + e.bytes.length ∧ v = p + e.key.length + 1 := by
  induction es generalizing i with
  | nil => cases h
  | cons e es ih =>
    simp only [locate] at h
    split at h
    · next hk =>
      cases h
      exact ⟨[], e, es, rfl, by simp, hk, by simp, rfl, rfl⟩
    · next hk =>
      obtain ⟨es₁, e', es₂, rfl, h1, h2, h3, h4, h5⟩ := ih h
      refine ⟨e :: es₁, e', es₂, rfl, ?_, h2, ?_, h4, h5⟩
      · simpa using ⟨hk, h1⟩
      · rw [h3, flat_cons, List.length_append, List.length_cons]; omega

private theorem entry_split {p q : List UInt8} {e : Entry} {es : List Entry} :
    p ++ (flat (e :: es) ++ 0 :: q) = p ++ (e.bytes ++ 0 :: (flat es ++ 0 :: q)) := by
  simp

private theorem entry_ne {e : Entry} : ∃ c s, e.bytes = c :: s ∧ c ≠ 0 := by
  cases h : e.bytes with
  | nil => simp [Entry.bytes] at h
  | cons c s =>
    have := e.nonul
    rw [h, List.mem_cons, not_or] at this
    exact ⟨c, s, rfl, Ne.symm this.1⟩

theorem searchFrom_spec {a : Area n} (name : CStr) {es : List Entry} {p q : List UInt8}
    {k i : Nat} (h : a.bytes = p ++ (flat es ++ 0 :: q)) (hi : i = p.length)
    (hf : es.length < k) :
    searchFrom a name k i = .ok (locate (keyOf name.bytes) es i) := by
  induction es generalizing p k i with
  | nil =>
    obtain ⟨k, rfl⟩ : ∃ m, k = m + 1 := ⟨k - 1, by omega⟩
    have hr : a.rd i = .ok 0 := Area.rd_split (by rw [h]; rfl) hi
    simp [searchFrom, hr, locate, bind, Except.bind, pure, Except.pure]
  | cons e es ih =>
    obtain ⟨k, rfl⟩ : ∃ m, k = m + 1 := ⟨k - 1, by omega⟩
    rw [entry_split] at h
    obtain ⟨c, s, hc, hc0⟩ := entry_ne (e := e)
    have hr : a.rd i = .ok c := Area.rd_split (by rw [h, hc]; rfl) hi
    have hd : a.bytes.drop i = e.bytes ++ 0 :: (flat es ++ 0 :: q) := by
      rw [h, hi, List.drop_left]
    have hn : nulFrom (a.bytes.drop i) i = .ok (i + e.bytes.length) := by
      rw [hd]; exact nulFrom_append e.nonul _ _
    have hm := envmatch_entry name h hi
    have ih' := ih (p := p ++ (e.bytes ++ [0])) (k := k) (i := i + e.bytes.length + 1)
      (by rw [h]; simp) (by rw [hi]; simp; omega) (by simpa using hf)
    simp only [searchFrom, hr, hn, hm, bind, Except.bind, if_neg hc0, locate]
    by_cases hk : e.key = keyOf name.bytes
    · simp [hk, pure, Except.pure]
    · simpa [hk] using ih'

theorem lookupFrom_spec {a : Area n} (name : CStr) {envSize : Nat} (hn : n ≤ envSize)
    {es : List Entry} {p q : List UInt8} {k i : Nat}
    (h : a.bytes = p ++ (flat es ++ 0 :: q)) (hi : i = p.length) (hf : es.length < k) :
    lookupFrom envSize a name k i =
      .ok ((locate (keyOf name.bytes) es i).map fun p => p.2.2) := by
  induction es generalizing p k i with
  | nil =>
    obtain ⟨k, rfl⟩ : ∃ m, k = m + 1 := ⟨k - 1, by omega⟩
    have hr : a.rd i = .ok 0 := Area.rd_split (by rw [h]; rfl) hi
    simp [lookupFrom, hr, locate, bind, Except.bind, pure, Except.pure]
  | cons e es ih =>
    obtain ⟨k, rfl⟩ : ∃ m, k = m + 1 := ⟨k - 1, by omega⟩
    rw [entry_split] at h
    obtain ⟨c, s, hc, hc0⟩ := entry_ne (e := e)
    have hr : a.rd i = .ok c := Area.rd_split (by rw [h, hc]; rfl) hi
    have hd : a.bytes.drop i = e.bytes ++ 0 :: (flat es ++ 0 :: q) := by
      rw [h, hi, List.drop_left]
    have hlen : i + e.bytes.length ≤ envSize := by
      have := congrArg List.length h
      rw [a.size] at this
      simp at this
      omega
    have hn : nulFromBounded envSize (a.bytes.drop i) i = .ok (some (i + e.bytes.length)) := by
      rw [hd]; exact nulFromBounded_append e.nonul _ hlen
    have hm := envmatch_entry name h hi
    have ih' := ih (p := p ++ (e.bytes ++ [0])) (k := k) (i := i + e.bytes.length + 1)
      (by rw [h]; simp) (by rw [hi]; simp; omega) (by simpa using hf)
    simp only [lookupFrom, hr, hn, hm, bind, Except.bind, if_neg hc0, locate]
    by_cases hk : e.key = keyOf name.bytes
    · simp [hk, pure, Except.pure]
    · simpa [hk] using ih'

/-- The search of `_do_setenv` and `do_printenv` is a search of the list. -/
theorem search_holds {a : Area n} {es : List Entry} (h : Holds a es) (name : CStr) :
    search a name = .ok (locate (keyOf name.bytes) es 0) := by
  obtain ⟨post, hs⟩ := h.split
  have := length_le_flat es
  have := h.length_lt
  exact searchFrom_spec name (p := []) hs rfl (by omega)

theorem EnvCfg.dataSize_le (cfg : EnvCfg) : cfg.dataSize ≤ cfg.envSize := Nat.sub_le _ _

theorem getenv_holds {cfg : EnvCfg} {a : Area cfg.dataSize} {es : List Entry} (h : Holds a es)
    (name : CStr) :
    getenv cfg a name = .ok ((locate (keyOf name.bytes) es 0).map fun p => p.2.2) := by
  obtain ⟨post, hs⟩ := h.split
  have := length_le_flat es
  have := h.length_lt
  exact lookupFrom_spec name cfg.dataSize_le (p := []) hs rfl (by omega)

theorem getenv_none {cfg : EnvCfg} {a : Area cfg.dataSize} {es : List Entry} (h : Holds a es)
    {name : CStr} (hf : es.find? (fun e => e.key = keyOf name.bytes) = none) :
    getenv cfg a name = .ok none := by
  have hl : locate (keyOf name.bytes) es 0 = none :=
    locate_eq_none.mpr fun e he => by simpa using List.find?_eq_none.mp hf e he
  rw [getenv_holds h, hl]
  rfl

/-- The index that `getenv` finds is that of the value of the first entry with the name's key. -/
theorem getenv_some {cfg : EnvCfg} {a : Area cfg.dataSize} {es : List Entry} (h : Holds a es)
    {name : CStr} {e : Entry} (hf : es.find? (fun e => e.key = keyOf name.bytes) = some e) :
    ∃ v x, getenv cfg a name = .ok (some v) ∧ a.bytes.drop v = e.val ++ 0 :: x := by
  cases hl : locate (keyOf name.bytes) es 0 with
  | none =>
    have hkey := locate_eq_none.mp hl e (List.mem_of_find?_eq_some hf)
    exact absurd (by simpa using List.find?_some hf) hkey
  | some t =>
    obtain ⟨p, q, v⟩ := t
    obtain ⟨es₁, e', es₂, rfl, h1, h2, h3, -, h5⟩ := locate_eq_some hl
    rw [List.find?_append, List.find?_eq_none.mpr (by simpa using h1)] at hf
    obtain rfl : e' = e := by simpa [h2] using hf
    obtain ⟨post, hs⟩ := h.split
    refine ⟨v, flat es₂ ++ 0 :: post, by rw [getenv_holds h, hl]; rfl, ?_⟩
    have hs' : a.bytes =
        (flat es₁ ++ e'.key ++ [eqCh]) ++ (e'.val ++ 0 :: (flat es₂ ++ 0 :: post)) := by
      rw [hs]; simp [Entry.bytes]
    rw [hs', h5, h3]
    exact List.drop_left' (by simp; omega)

theorem getenvStr_holds {cfg : EnvCfg} {a : Area cfg.dataSize} {es : List Entry} (h : Holds a es)
    (name : CStr) :
    getenvStr cfg a name = .ok ((es.find? fun e => e.key = keyOf name.bytes).map Entry.val) := by
  rw [getenvStr]
  cases hf : es.find? fun e => e.key = keyOf name.bytes with
  | none => rw [getenv_none h hf]; rfl
  | some e =>
    obtain ⟨v, x, hget, hd⟩ := getenv_some h hf
    simp [hget, hd, bind, Except.bind, pure, Except.pure, cstrAt_append e.val_ok]

/-! ## `getenv_r` -/

/-- What `getenv_r` stores of a value in a buffer of `len` bytes. A value that fills the buffer up
to its NUL has a second NUL stored behind the buffer, one that does not fit has none. -/
def stored (len : Nat) (v : List UInt8) : List UInt8 :=
  if v.length < len then v ++ [0] ++ (if v.length + 1 = len then [0] else []) else v.take len

theorem copyOut_value {v : List UInt8} (h0 : (0 : UInt8) ∉ v) (x : List UInt8) {len n : Nat}
    (hn : n ≤ len) (buf : List UInt8) : copyOut len (v ++ 0 :: x) n buf =
      .ok (if n + v.length < len then (n + v.length + 1, buf ++ v ++ [0])
        else (len + 1, buf ++ v.take (len - n))) := by
  induction v generalizing n buf with
  | nil =>
    by_cases hlt : n < len
    · simp [copyOut, hlt]
    · obtain rfl : n = len := by omega
      simp [copyOut]
  | cons c v ih =>
    rw [List.mem_cons, not_or] at h0
    rw [List.cons_append, copyOut]
    by_cases hlt : n < len
    · rw [if_pos hlt, if_pos (Ne.symm h0.1), ih h0.2 hlt, List.length_cons,
        show n + 1 + v.length = n + (v.length + 1) by omega,
        show len - n = len - (n + 1) + 1 by omega]
      simp
    · obtain rfl : n = len := by omega
      rw [if_neg hlt, List.length_cons, if_neg (by omega), Nat.sub_self, List.take_zero,
        List.append_nil]

/-- The copy of a whole value; the count is that of its bytes with the NUL, and one more when the
value did not fit. -/
theorem copyOut_stored {v : List UInt8} (h0 : (0 : UInt8) ∉ v) (x : List UInt8) (len : Nat) :
    ∃ buf, copyOut len (v ++ 0 :: x) 0 [] = .ok (min v.length len + 1, buf) ∧
      (if len = min v.length len + 1 then buf ++ [0] else buf) = stored len v := by
  rw [copyOut_value h0 x (Nat.zero_le len) [], Nat.zero_add, List.nil_append, List.nil_append,
    Nat.sub_zero, stored]
  by_cases hlt : v.length < len
  · rw [if_pos hlt, if_pos hlt, Nat.min_eq_left (by omega)]
    refine ⟨_, rfl, ?_⟩
    by_cases heq : v.length + 1 = len
    · rw [if_pos heq, if_pos heq.symm]
    · rw [if_neg heq, if_neg (Ne.symm heq), List.append_nil]
  · rw [if_neg hlt, if_neg hlt, Nat.min_eq_right (by omega)]
    exact ⟨_, rfl, if_neg (by omega)⟩

theorem getenvR_none {cfg : EnvCfg} {a : Area cfg.dataSize} {es : List Entry} (h : Holds a es)
    {name : CStr} (hf : es.find? (fun e => e.key = keyOf name.bytes) = none) (len : Nat) :
    getenvR cfg a name len = .ok none := by
  rw [getenvR, getenv_none h hf]
  rfl

theorem getenvR_some {cfg : EnvCfg} {a : Area cfg.dataSize} {es : List Entry} (h : Holds a es)
    {name : CStr} {e : Entry} (hf : es.find? (fun e => e.key = keyOf name.bytes) = some e)
    (len : Nat) :
    getenvR cfg a name len = .ok (some (min e.val.length len + 1, stored len e.val)) := by
  obtain ⟨v, x, hget, hd⟩ := getenv_some h hf
  obtain ⟨buf, hcopy, hstored⟩ := copyOut_stored e.val_ok x len
  rw [getenvR, hget]
  simp only [bind, Except.bind, hd, hcopy, hstored]
  rfl

end UBoot.Env
