import UBoot.Env.Chars

/-!
# The buffer of `getenv_r`

Whatever memory holds, `getenv_r` ends, and it gives up without a store or copies one string
(`lookupFrom_view`). `getenv_r_iff`: the copy is what its caller can use exactly if it leaves a
byte of the buffer over.
-/

namespace UBoot.Env

open UBoot.Lib UBoot.Common

/-- A string of an environment, up to the empty one at the end. -/
inductive IsString : List UInt8 → List UInt8 → Prop where
  | head {w : List UInt8} (q : List UInt8) : w ≠ [] → 0 ∉ w → IsString (w ++ 0 :: q) w
  | tail {v q w : List UInt8} : v ≠ [] → 0 ∉ v → IsString q w → IsString (v ++ 0 :: q) w

/-- `getenv` with an `env_get_char`. -/
def getenvWith (envSize : Nat) (chars : Chars) (name : CStr) : Except Oob (Option Nat) :=
  lookupFrom envSize (view envSize chars) name (envSize + 2 + 1) 0

/-- The string at the address that `getenv` gives. -/
def getenvStrWith (envSize : Nat) (chars : Chars) (name : CStr) :
    Except Oob (Option (List UInt8)) := do
  match ← getenvWith envSize chars name with
  | none => return none
  | some val => return some (cstrAt ((view envSize chars).bytes.drop val))

/-- The stores are in the `len` bytes of the buffer, and leave the value there with its NUL, or as
many of its characters as go in front of one. -/
structure Copied (len : Nat) (value old stores : List UInt8) : Prop where
  inside : stores.length ≤ len
  string : value.take (len - 1) ++ [0] <+: stores ++ old.drop stores.length

/-- What `getenv_r` is for: with no such variable -1 and no store, else a copy of the value. -/
def Answers (envSize : Nat) (chars : Chars) (name : CStr) (len : Nat) (old : List UInt8) : Prop :=
  match getenvStrWith envSize chars name with
  | .error _ => False
  | .ok none => getenvRWith envSize chars name len = .ok none
  | .ok (some value) => ∃ n stores, getenvRWith envSize chars name len = .ok (some (n, stores)) ∧
      Copied len value old stores

section
variable {n envSize i len : Nat} {k w l value old : List UInt8} {name : CStr}

theorem IsString.eqCh_mem (es : List Entry) {x : List UInt8} (h : IsString (flat es ++ 0 :: x) w) :
    eqCh ∈ w := by
  have hsplit {v v' q q' : List UInt8} (hv : (0 : UInt8) ∉ v) (hv' : (0 : UInt8) ∉ v')
      (heq : v ++ 0 :: q = v' ++ 0 :: q') : v = v' ∧ q = q' := by
    obtain rfl : v = v' := by rw [← cstrAt_append hv, heq, cstrAt_append hv']
    exact ⟨rfl, (List.cons.inj (List.append_cancel_left heq)).2⟩
  induction es with
  | nil =>
    generalize hbytes : flat [] ++ 0 :: x = bytes at h
    cases h with
    | head q hne h0 => exact absurd (hsplit List.not_mem_nil h0 hbytes).1.symm hne
    | tail hne h0 _ => exact absurd (hsplit List.not_mem_nil h0 hbytes).1.symm hne
  | cons e es ih =>
    generalize hbytes : flat (e :: es) ++ 0 :: x = bytes at h
    rw [flat_cons, List.append_assoc, List.cons_append] at hbytes
    cases h with
    | head q hne h0 =>
      obtain ⟨rfl, -⟩ := hsplit e.nonul h0 hbytes
      exact List.mem_append_right _ List.mem_cons_self
    | tail hne h0 h =>
      obtain ⟨-, rfl⟩ := hsplit e.nonul h0 hbytes
      exact ih h

/-- The scan for the end of a string ends, at its NUL or too far behind. -/
theorem nulFromBounded_ok (hne : l ≠ []) (hsize : envSize < i + l.length) :
    ∃ r, nulFromBounded envSize l i = .ok r ∧
      ∀ nxt, r = some nxt → ∃ w q, l = w ++ 0 :: q ∧ 0 ∉ w ∧ nxt = i + w.length ∧
        (w ≠ [] → nxt ≤ envSize) := by
  induction l generalizing i with
  | nil => exact absurd rfl hne
  | cons c l ih =>
    rw [List.length_cons] at hsize
    rw [nulFromBounded]
    split_ifs with hc hi
    · refine ⟨_, rfl, fun nxt h => ?_⟩
      cases h
      exact ⟨[], l, by rw [hc]; rfl, List.not_mem_nil, rfl, fun h => absurd rfl h⟩
    · exact ⟨none, rfl, fun nxt h => by cases h⟩
    · obtain ⟨r, hr, hnul⟩ := ih (i := i + 1) (by rintro rfl; simp at hsize; omega) (by omega)
      refine ⟨r, hr, fun nxt h => ?_⟩
      obtain ⟨w, q, rfl, hw, rfl, hle⟩ := hnul nxt h
      refine ⟨c :: w, q, rfl, ?_, by rw [List.length_cons]; omega, fun _ => ?_⟩
      · rw [List.mem_cons, not_or]
        exact ⟨Ne.symm hc, hw⟩
      · cases w with
        | nil => exact Nat.not_le.mp hi
        | cons d w => exact hle (List.cons_ne_nil d w)

/-- `envmatch` reads behind the NUL of the name only where the string is the name, without a
`=`. -/
theorem envmatchFrom_ok (hk : (0 : UInt8) ∉ k) (hw : (0 : UInt8) ∉ w) (h : eqCh ∈ k ∨ k ≠ w)
    (x : List UInt8) : ∃ r, envmatchFrom (k ++ [0]) (w ++ 0 :: x) i = .ok r := by
  induction k generalizing w i with
  | nil =>
    cases w with
    | nil => simp at h
    | cons d w =>
      rw [List.mem_cons, not_or] at hw
      by_cases hd : d = eqCh
      · exact ⟨some (i + 1), by simp [envmatchFrom, hd]⟩
      · exact ⟨none, by simp [envmatchFrom, hd, hw.1]⟩
  | cons c k ih =>
    rw [List.mem_cons, not_or] at hk
    cases w with
    | nil => exact ⟨none, by simp [envmatchFrom, Ne.symm hk.1]⟩
    | cons d w =>
      rw [List.mem_cons, not_or] at hw
      simp only [List.cons_append, envmatchFrom]
      by_cases hcd : c = d
      · rw [if_pos hcd]
        by_cases hc : c = eqCh
        · exact ⟨_, if_pos hc⟩
        · rw [if_neg hc]
          refine ih hk.2 hw.2 (h.imp (fun h => ?_) fun h hkw => h (by rw [hcd, hkw]))
          exact (List.mem_cons.mp h).resolve_left (Ne.symm hc)
      · rw [if_neg hcd, if_neg (fun h => hk.1 h.1.symm)]
        exact ⟨none, rfl⟩

/-- The search in any memory ends, and finds nothing or a string inside it. -/
theorem lookupFrom_view {a : Area (envSize + 2)} {p rest : List UInt8} {fuel : Nat}
    (ha : a.bytes = p ++ rest) (hi : i = p.length) (hend : i ≤ envSize + 1)
    (hname : eqCh ∈ name.bytes ∨ ¬ IsString rest name.bytes) (hfuel : rest.length < fuel) :
    lookupFrom envSize a name fuel i = .ok none ∨
      ∃ val u x, lookupFrom envSize a name fuel i = .ok (some val) ∧ 0 ∉ u ∧
        a.bytes.drop val = u ++ 0 :: x := by
  induction fuel generalizing p rest i with
  | zero => omega
  | succ fuel ih =>
    have hsize : i + rest.length = envSize + 2 := by
      rw [← a.size, ha, List.length_append, hi]
    obtain ⟨c, l, rfl⟩ : ∃ c l, rest = c :: l :=
      List.exists_cons_of_ne_nil (by rintro rfl; simp at hsize; omega)
    have hrd : a.rd i = .ok c := Area.rd_split ha hi
    have hdrop : a.bytes.drop i = c :: l := by rw [ha, hi, List.drop_left]
    rw [lookupFrom, hrd]
    by_cases hc : c = 0
    · exact .inl (by simp [hc, bind, Except.bind, pure, Except.pure])
    have hscan : envSize < i + (c :: l).length := by omega
    obtain ⟨r, hr, hnul⟩ := nulFromBounded_ok (List.cons_ne_nil c l) hscan
    simp only [bind, Except.bind, if_neg hc, hdrop, hr]
    cases r with
    | none => exact .inl rfl
    | some nxt =>
      obtain ⟨w, q, hcl, hw, rfl, hle⟩ := hnul nxt rfl
      have hwne : w ≠ [] := by
        rintro rfl
        exact hc (List.cons.inj hcl).1
      have hother : eqCh ∈ name.bytes ∨ name.bytes ≠ w := by
        refine hname.imp_right fun h heq => h ?_
        rw [hcl, heq]
        exact .head q hwne hw
      obtain ⟨m, hm⟩ := envmatchFrom_ok (i := i) name.nonul hw hother q
      obtain ⟨m', hm', hval⟩ := envmatchFrom_string (i := i) name.nonul hw
      have hmatch : envmatch a name i = .ok m := by
        rw [envmatch, hdrop, hcl]
        exact hm
      simp only [hmatch]
      cases m with
      | some val =>
        obtain ⟨pre, u, rfl, rfl⟩ := hval val ((hm' q).symm.trans hm)
        refine .inr ⟨_, u, q, rfl, fun h => hw (List.mem_append_right _ h), ?_⟩
        rw [← List.drop_drop, hdrop, hcl, List.append_assoc, List.drop_left]
      | none =>
        rw [hcl] at ha hname hsize hfuel
        refine ih (p := p ++ (w ++ [0])) (by rw [ha]; simp) (by simp [hi]; omega)
          (Nat.succ_le_succ (hle hwne)) (hname.imp_right fun h hq => h (.tail hwne hw hq)) ?_
        rw [List.length_append, List.length_cons] at hfuel
        omega

/-- A copy is right exactly if one byte of the buffer is left over. -/
theorem copied_stored_iff (h0 : (0 : UInt8) ∉ value) (hlen : 1 ≤ len) :
    Copied len value old (stored len value) ↔ value.length + 1 < len := by
  constructor
  · rintro ⟨hinside, hstring⟩
    by_contra hnot
    rw [stored] at hinside hstring
    split_ifs at hinside hstring with hlt hfit
    · simp at hinside
      omega
    · omega
    · -- the NUL would be a character of the value
      have hpre := List.prefix_of_prefix_length_le hstring (List.prefix_append _ _)
        (by simp; omega)
      exact h0 (List.take_subset _ _ (hpre.subset (by simp)))
  · intro hlt
    have hstored : stored len value = value ++ [0] := by
      rw [stored, if_pos (by omega), if_neg (by omega), List.append_nil]
    rw [hstored]
    refine ⟨by simp; omega, ?_⟩
    rw [List.take_of_length_le (by omega)]
    exact List.prefix_append _ _

/-- **`getenv_r` and its buffer.** A copy is right exactly if the value, its NUL and one byte more
go in the buffer. -/
theorem getenv_r_iff (chars : Chars) (old : List UInt8) (hlen : 1 ≤ len)
    (hname : eqCh ∈ name.bytes ∨ ¬ IsString (view envSize chars).bytes name.bytes) :
    Answers envSize chars name len old ↔
      ∀ value, getenvStrWith envSize chars name = .ok (some value) → value.length + 1 < len := by
  have hfuel : (view envSize chars).bytes.length < envSize + 2 + 1 := by
    rw [(view envSize chars).size]
    exact Nat.lt_succ_self _
  have hlookup := lookupFrom_view (a := view envSize chars) (p := []) (i := 0) rfl rfl
    (Nat.zero_le _) hname hfuel
  rcases hlookup with hnone | ⟨val, value, x, hsome, h0, hdrop⟩
  · have hstr : getenvStrWith envSize chars name = .ok none := by
      rw [getenvStrWith, getenvWith, hnone]
      rfl
    have hget : getenvRWith envSize chars name len = .ok none := by
      rw [getenvRWith, getenvRIn, hnone]
      rfl
    rw [Answers, hstr]
    exact ⟨fun _ value h => (by cases h), fun _ => hget⟩
  · have hstr : getenvStrWith envSize chars name = .ok (some value) := by
      simp only [getenvStrWith, getenvWith, hsome, bind, Except.bind, hdrop, cstrAt_append h0]
      rfl
    obtain ⟨n, hget⟩ : ∃ n, getenvRWith envSize chars name len =
        .ok (some (n, stored len value)) := by
      obtain ⟨buf, hcopy, hstored⟩ := copyOut_stored h0 x len
      refine ⟨min value.length len + 1, ?_⟩
      simp only [getenvRWith, getenvRIn, hsome, bind, Except.bind, hdrop, hcopy, hstored]
      rfl
    rw [Answers, hstr]
    constructor
    · rintro ⟨n', stores, hget', hcopied⟩ value' hvalue
      cases hget.symm.trans hget'
      cases hvalue
      exact (copied_stored_iff h0 hlen).mp hcopied
    · exact fun hlt => ⟨n, _, hget, (copied_stored_iff h0 hlen).mpr (hlt value rfl)⟩

end

/-- `a=bc`. -/
def oneEntry : Entry := ⟨[97], [98, 99], by decide +kernel, by decide +kernel⟩

def oneChars : Chars := inMemory (image [oneEntry]) fun _ => 255

theorem getenv_r_iff_one : Answers 8 oneChars ⟨[97], by decide⟩ 4 [1, 1, 1, 1, 1, 1] ↔
    ∀ value, getenvStrWith 8 oneChars ⟨[97], by decide⟩ = .ok (some value) →
      value.length + 1 < 4 :=
  getenv_r_iff oneChars _ (by decide)
    (.inr fun h => absurd (IsString.eqCh_mem [oneEntry] (x := [255, 255, 255, 255]) h) (by decide))

/-- A value that fits exactly has a second NUL, behind the buffer. -/
theorem getenv_r_behind : ¬ Answers 8 oneChars ⟨[97], by decide⟩ 3 [1, 1, 1, 1, 1, 1] := by
  have hstr : getenvStrWith 8 oneChars ⟨[97], by decide⟩ = .ok (some [98, 99]) := by decide
  have hget : getenvRWith 8 oneChars ⟨[97], by decide⟩ 3 = .ok (some (3, [98, 99, 0, 0])) := by
    decide
  rw [Answers, hstr]
  rintro ⟨n, stores, hget', hcopied⟩
  cases hget.symm.trans hget'
  exact absurd hcopied.inside (by decide)

end UBoot.Env
