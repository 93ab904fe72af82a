import UBoot.Env.Entries

/-!
# `getenv_r` through `env_get_char`

`getenv_r` sees memory through `env_get_char`, which answers for every index. It gives up behind
`CFG_ENV_SIZE`, so the `CFG_ENV_SIZE + 2` bytes of a `view` are all it can reach, and the
definitions for a bounded area run on them. `getenvRWith_inMemory` says that nothing behind the
last string of an environment takes part: an environment that `Ends` reads the same whatever
follows it in memory.
-/

namespace UBoot.Env

open UBoot.Lib UBoot.Common

/-- What `env_get_char` answers for each index. -/
abbrev Chars := Nat → UInt8

/-- The bytes that `getenv_r` can reach. -/
def view (envSize : Nat) (chars : Chars) : Area (envSize + 2) :=
  ⟨(List.range (envSize + 2)).map chars, by simp⟩

/-- An object in memory, and what follows it there. -/
def inMemory (bytes : List UInt8) (behind : Chars) : Chars :=
  fun i => bytes[i]?.getD (behind (i - bytes.length))

/-- `getenv_r` on an area of any size. -/
def getenvRIn {m : Nat} (envSize : Nat) (env : Area m) (name : CStr) (len : Nat) :
    Except Oob (Option (Nat × List UInt8)) := do
  match ← lookupFrom envSize env name (m + 1) 0 with
  | none => return none
  | some val =>
    let (n, buf) ← copyOut len (env.bytes.drop val) 0 []
    return some (n, if len = n then buf ++ [0] else buf)

theorem getenvR_eq (cfg : EnvCfg) (env : Area cfg.dataSize) (name : CStr) (len : Nat) :
    getenvR cfg env name len = getenvRIn cfg.envSize env name len := rfl

/-- `getenv_r` with an `env_get_char`. -/
def getenvRWith (envSize : Nat) (chars : Chars) (name : CStr) (len : Nat) :
    Except Oob (Option (Nat × List UInt8)) :=
  getenvRIn envSize (view envSize chars) name len

inductive Ends : List UInt8 → Prop where
  | nul (q : List UInt8) : Ends (0 :: q)
  | string {w q : List UInt8} : w ≠ [] → 0 ∉ w → Ends q → Ends (w ++ 0 :: q)

section
variable {n m envSize i val : Nat} {w s x y : List UInt8} {a : Area n} {b : Area m} {name : CStr}

theorem Ends.append (h : Ends s) (q : List UInt8) : Ends (s ++ q) := by
  induction h with
  | nul q' => exact .nul _
  | string hne h0 _ ih =>
    rw [List.append_assoc]
    exact .string hne h0 ih

/-- `envmatch` reads a string to its NUL at most, and the index it gives is in the string. -/
theorem envmatchFrom_string {k : List UInt8} (hk : (0 : UInt8) ∉ k) (hw : (0 : UInt8) ∉ w) :
    ∃ r, (∀ x, envmatchFrom (k ++ [0]) (w ++ 0 :: x) i = r) ∧
      ∀ val, r = .ok (some val) → ∃ p u, w = p ++ u ∧ val = i + p.length := by
  induction w generalizing k i with
  | nil =>
    cases k with
    | nil => exact ⟨.error .read, fun x => by cases x <;> rfl, fun val h => by cases h⟩
    | cons c k =>
      have hc : c ≠ 0 := fun h => hk (by simp [h])
      refine ⟨.ok none, fun x => ?_, fun val h => by cases h⟩
      simp [envmatchFrom, hc]
  | cons d w ih =>
    rw [List.mem_cons, not_or] at hw
    cases k with
    | nil =>
      by_cases hd : d = eqCh
      · refine ⟨.ok (some (i + 1)), fun x => ?_, fun val h => ?_⟩
        · simp [envmatchFrom, hd]
        · cases h
          exact ⟨[d], w, rfl, rfl⟩
      · refine ⟨.ok none, fun x => ?_, fun val h => by cases h⟩
        simp [envmatchFrom, hd, hw.1]
    | cons c k =>
      rw [List.mem_cons, not_or] at hk
      by_cases hcd : c = d
      · subst hcd
        by_cases hc : c = eqCh
        · refine ⟨.ok (some (i + 1)), fun x => ?_, fun val h => ?_⟩
          · simp [envmatchFrom, hc]
          · cases h
            exact ⟨[c], w, rfl, rfl⟩
        · obtain ⟨r, hr, hval⟩ := ih (i := i + 1) hk.2 hw.2
          refine ⟨r, fun x => ?_, fun val h => ?_⟩
          · rw [← hr x]
            simp [envmatchFrom, hc]
          · obtain ⟨p, u, rfl, rfl⟩ := hval val h
            exact ⟨c :: p, u, rfl, by rw [List.length_cons]; omega⟩
      · refine ⟨.ok none, fun x => ?_, fun val h => by cases h⟩
        simp [envmatchFrom, hcd, Ne.symm hk.1]

theorem copyOut_string {u : List UInt8} (hu : (0 : UInt8) ∉ u) (len k : Nat) (buf : List UInt8) :
    copyOut len (u ++ 0 :: x) k buf = copyOut len (u ++ 0 :: y) k buf := by
  induction u generalizing k buf with
  | nil =>
    simp only [List.nil_append, copyOut, ne_eq, not_true, if_false]
  | cons c u ih =>
    rw [List.mem_cons, not_or] at hu
    rw [List.cons_append, List.cons_append, copyOut, copyOut, ih hu.2]

/-- The value at `val` is the same string in both. -/
def SameValue (a : Area n) (b : Area m) (val : Nat) : Prop :=
  ∃ u x y, 0 ∉ u ∧ a.bytes.drop val = u ++ 0 :: x ∧ b.bytes.drop val = u ++ 0 :: y

/-- The search in two areas that agree up to the end of the environment. -/
theorem lookupFrom_agree {p : List UInt8} {j k : Nat} (h : Ends s)
    (ha : a.bytes = p ++ (s ++ x)) (hb : b.bytes = p ++ (s ++ y)) (hi : i = p.length)
    (hsize : p.length + s.length ≤ envSize) (hj : s.length < j) (hk : s.length < k) :
    lookupFrom envSize a name j i = lookupFrom envSize b name k i ∧
      ∀ val, lookupFrom envSize a name j i = .ok (some val) → SameValue a b val := by
  induction h generalizing p j k i with
  | nul q =>
    obtain ⟨j, rfl⟩ : ∃ l, j = l + 1 := ⟨j - 1, by omega⟩
    obtain ⟨k, rfl⟩ : ∃ l, k = l + 1 := ⟨k - 1, by omega⟩
    have hra : a.rd i = .ok 0 := Area.rd_split ha hi
    have hrb : b.rd i = .ok 0 := Area.rd_split hb hi
    have hl : lookupFrom envSize a name (j + 1) i = .ok none := by
      simp [lookupFrom, hra, bind, Except.bind, pure, Except.pure]
    refine ⟨hl.trans ?_, fun val hval => ?_⟩
    · simp [lookupFrom, hrb, bind, Except.bind, pure, Except.pure]
    · rw [hl] at hval
      cases hval
  | @string w q hne hw hends ih =>
    obtain ⟨j, rfl⟩ : ∃ l, j = l + 1 := ⟨j - 1, by omega⟩
    obtain ⟨k, rfl⟩ : ∃ l, k = l + 1 := ⟨k - 1, by omega⟩
    simp only [List.append_assoc, List.cons_append] at ha hb
    rw [List.length_append, List.length_cons] at hsize hj hk
    obtain ⟨c, w', rfl⟩ := List.exists_cons_of_ne_nil hne
    have hc0 : c ≠ 0 := fun h => hw (by simp [h])
    have hra : a.rd i = .ok c := Area.rd_split ha hi
    have hrb : b.rd i = .ok c := Area.rd_split hb hi
    have hda : a.bytes.drop i = (c :: w') ++ 0 :: (q ++ x) := by rw [ha, hi, List.drop_left]
    have hdb : b.bytes.drop i = (c :: w') ++ 0 :: (q ++ y) := by rw [hb, hi, List.drop_left]
    have hna : nulFromBounded envSize (a.bytes.drop i) i = .ok (some (i + (c :: w').length)) := by
      rw [hda]
      exact nulFromBounded_append hw _ (by omega)
    have hnb : nulFromBounded envSize (b.bytes.drop i) i = .ok (some (i + (c :: w').length)) := by
      rw [hdb]
      exact nulFromBounded_append hw _ (by omega)
    obtain ⟨r, hr, hval⟩ := envmatchFrom_string (i := i) name.nonul hw
    have hma : envmatch a name i = r := by
      rw [envmatch, hda]
      exact hr _
    have hmb : envmatch b name i = r := by
      rw [envmatch, hdb]
      exact hr _
    simp only [lookupFrom, hra, hrb, hna, hnb, hma, hmb, bind, Except.bind, if_neg hc0]
    cases r with
    | error e => exact ⟨rfl, fun val h => by cases h⟩
    | ok r =>
      cases r with
      | none =>
        exact ih (p := p ++ ((c :: w') ++ [0])) (by rw [ha]; simp) (by rw [hb]; simp)
          (by rw [hi]; simp; omega) (by simp at hsize ⊢; omega) (by omega) (by omega)
      | some val =>
        refine ⟨rfl, fun val' h => ?_⟩
        cases h
        obtain ⟨pre, u, hpre, rfl⟩ := hval val rfl
        refine ⟨u, q ++ x, q ++ y, ?_, ?_, ?_⟩
        · rw [hpre] at hw
          exact fun h => hw (List.mem_append_right _ h)
        · rw [← List.drop_drop, hda, hpre, List.append_assoc, List.drop_left]
        · rw [← List.drop_drop, hdb, hpre, List.append_assoc, List.drop_left]

/-- `getenv_r` in two areas that agree up to the end of the environment. -/
theorem getenvRIn_agree (h : Ends s) (ha : a.bytes = s ++ x) (hb : b.bytes = s ++ y)
    (hsize : s.length ≤ envSize) (name : CStr) (len : Nat) :
    getenvRIn envSize a name len = getenvRIn envSize b name len := by
  have hna : s.length ≤ n := by rw [← a.size, ha, List.length_append]; omega
  have hnb : s.length ≤ m := by rw [← b.size, hb, List.length_append]; omega
  have hagree : lookupFrom envSize a name (n + 1) 0 = lookupFrom envSize b name (m + 1) 0 ∧
      ∀ val, lookupFrom envSize a name (n + 1) 0 = .ok (some val) → SameValue a b val :=
    lookupFrom_agree (p := []) h ha hb rfl (by simpa using hsize) (by omega) (by omega)
  obtain ⟨heq, hval⟩ := hagree
  rw [getenvRIn, getenvRIn, ← heq]
  cases hl : lookupFrom envSize a name (n + 1) 0 with
  | error e => rfl
  | ok r =>
    cases r with
    | none => rfl
    | some val =>
      obtain ⟨u, x', y', hu, hda, hdb⟩ := hval val hl
      simp only [bind, Except.bind, hda, hdb, copyOut_string (y := y') hu]

theorem view_inMemory {bytes : List UInt8} (hsize : bytes.length ≤ envSize) (behind : Chars) :
    ∃ q, (view envSize (inMemory bytes behind)).bytes = bytes ++ q := by
  refine ⟨(List.range (envSize + 2 - bytes.length)).map behind, List.ext_getElem ?_ ?_⟩
  · simp [view]
    omega
  · intro i hi hi'
    simp only [view, List.getElem_map, List.getElem_range, inMemory]
    rcases Nat.lt_or_ge i bytes.length with hlt | hge
    · rw [List.getElem?_eq_getElem hlt, List.getElem_append_left hlt, Option.getD_some]
    · rw [List.getElem?_eq_none hge, List.getElem_append_right hge, Option.getD_none]
      simp

/-- **What follows an environment in memory takes no part.** -/
theorem getenvRWith_inMemory {bytes bytes' q q' : List UInt8} (h : Ends s) (hb : bytes = s ++ q)
    (hb' : bytes' = s ++ q') (hsize : bytes.length ≤ envSize) (hsize' : bytes'.length ≤ envSize)
    (behind behind' : Chars) (name : CStr) (len : Nat) :
    getenvRWith envSize (inMemory bytes behind) name len =
      getenvRWith envSize (inMemory bytes' behind') name len := by
  obtain ⟨x, hx⟩ := view_inMemory hsize behind
  obtain ⟨y, hy⟩ := view_inMemory hsize' behind'
  rw [hb, List.append_assoc] at hx
  rw [hb', List.append_assoc] at hy
  rw [hb, List.length_append] at hsize
  exact getenvRIn_agree h (by rw [← hx, ← hb]) (by rw [← hy, ← hb']) (by omega) name len

end

end UBoot.Env
