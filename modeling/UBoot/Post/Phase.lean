import UBoot.Post.Post

/-!
# One phase of the power-on self test

What the variables make of the flags of the tests, what the boot word says before and after a
test, and how far the tests of a phase get before one of them resets the board.
-/

namespace UBoot.Post

open UBoot.Lib UBoot.Common UBoot.Env

variable {cfg : EnvCfg} {env : Area cfg.dataSize} {es : List Entry} {postList : List PostTest}
  {stack : List UInt8} {word : UInt32} {i : ℕ}

/-! ## The flags -/

def flagsOf (es : List Entry) (postList : List PostTest) : List UInt32 :=
  postVars.foldl (fun testFlags var =>
    match es.find? fun e => e.key = keyOf var.1.bytes with
    | none => testFlags
    | some e => applyNames postList var.2 e.val testFlags) (postList.map (·.flags))

theorem applyNames_length (postList : List PostTest) (flag : UInt32) (list : List UInt8)
    (testFlags : List UInt32) : (applyNames postList flag list testFlags).length =
      testFlags.length := by
  have hfold (names : List (List UInt8)) (fs : List UInt32) :
      (names.foldl (setNamed postList flag) fs).length = fs.length := by
    induction names generalizing fs with
    | nil => rfl
    | cons name names ih =>
      rw [List.foldl_cons, ih]
      exact List.length_modify ..
  rw [applyNames, hfold, List.length_map]

theorem flagsOf_length (es : List Entry) (postList : List PostTest) :
    (flagsOf es postList).length = postList.length := by
  unfold flagsOf
  rw [← List.length_map (f := PostTest.flags)]
  generalize postList.map PostTest.flags = fs
  induction postVars generalizing fs with
  | nil => rfl
  | cons var vars ih =>
    rw [List.foldl_cons, ih]
    cases es.find? fun e => e.key = keyOf var.1.bytes with
    | none => rfl
    | some e => exact applyNames_length ..

/-- The values fit into `list` with both NULs. -/
def VarsFit (es : List Entry) : Prop :=
  ∀ var ∈ postVars, ∀ e, es.find? (fun e => e.key = keyOf var.1.bytes) = some e → e.val.length < 127

theorem stored_of_fits {v : List UInt8} (h : v.length < 127) : stored 128 v = v ++ [0] := by
  rw [stored, if_pos (by omega), if_neg (by omega), List.append_nil]

theorem takeWhile_value {v : List UInt8} (h0 : (0 : UInt8) ∉ v) (x : List UInt8) :
    (v ++ 0 :: x).takeWhile (· ≠ 0) = v := by
  have hall : ∀ c ∈ v, decide (c ≠ 0) = true := fun c hc =>
    decide_eq_true fun h : c = 0 => h0 (h ▸ hc)
  rw [List.takeWhile_append_of_pos hall]
  simp

theorem postGetFlags_ok (henv : Holds env es) (hfit : VarsFit es) (stack : List UInt8) :
    postGetFlags cfg env postList stack = .ok (flagsOf es postList) := by
  unfold postGetFlags flagsOf VarsFit at *
  generalize postVars = vars at hfit ⊢
  generalize postList.map (·.flags) = testFlags
  induction vars generalizing testFlags with
  | nil => rfl
  | cons var vars ih =>
    rw [List.foldlM_cons, List.foldl_cons]
    have htail := ih fun v hv => hfit v (List.mem_cons_of_mem var hv)
    cases hf : es.find? fun e => e.key = keyOf var.1.bytes with
    | none =>
      rw [getenvR_none henv hf]
      exact htail testFlags
    | some e =>
      have hlen := hfit var (List.mem_cons_self ..) e hf
      have hx := stored_of_fits hlen
      have hin : ¬ 128 < (stored 128 e.val).length := by
        rw [hx, List.length_append, List.length_singleton]
        omega
      have hmem : 0 ∈ stored 128 e.val ++ stack := by simp [hx]
      have hval : (stored 128 e.val ++ stack).takeWhile (· ≠ 0) = e.val := by
        rw [hx, List.append_assoc, List.cons_append, takeWhile_value e.val_ok]
      rw [getenvR_some henv hf]
      simp only [bind, Except.bind, pure, Except.pure]
      rw [if_neg hin, if_pos hmem, hval]
      exact htail _

/-! ## The boot word -/

/-- The boot word of a power-on boot with these running bits. -/
structure Mode (mode word : UInt32) : Prop where
  magic : word &&& 0xFFFF0000 = bootmodeMagic
  mode : word &&& 0xFF = mode

theorem Mode.get {mode : UInt32} (h : Mode mode word) : bootmodeGet word = mode := by
  rw [bootmodeGet, if_neg (not_not.mpr h.magic), h.mode]

theorem and_or_right (a b m : UInt32) : (a ||| b) &&& m = a &&& m ||| b &&& m := by
  rw [← UInt32.toNat_inj]
  simp only [UInt32.toNat_and, UInt32.toNat_or, Nat.and_or_distrib_right]

theorem testOn_and (i : ℕ) (word m : UInt32) : bootmodeTestOn i word &&& m =
    word &&& m ||| postPowertest &&& m ||| (UInt32.ofNat i &&& 0xFF) <<< 8 &&& m := by
  rw [bootmodeTestOn, and_or_right, and_or_right]

theorem number_bits : ∀ i < 32, (UInt32.ofNat i &&& 0xFF) <<< 8 &&& 0xFFFF0000 = 0 ∧
    (UInt32.ofNat i &&& 0xFF) <<< 8 &&& 0xFF = 0 ∧
    ((UInt32.ofNat i &&& 0xFF) <<< 8 >>> 8 &&& 0xFF).toNat = i := by
  decide

theorem Mode.on (h : Mode postPoweron word) (hi : i < 32) :
    Mode (postPoweron ||| postPowertest) (bootmodeTestOn i word) := by
  obtain ⟨hhigh, hlow, -⟩ := number_bits i hi
  refine ⟨?_, ?_⟩
  · rw [testOn_and, h.magic, hhigh]
    rfl
  · rw [testOn_and, h.mode, hlow]
    rfl

theorem Mode.off {mode : UInt32} (h : Mode mode word)
    (hmode : mode &&& ~~~postPowertest = postPoweron) :
    Mode postPoweron (bootmodeTestOff word) := by
  have hcomm (m : UInt32) : bootmodeTestOff word &&& m = word &&& m &&& ~~~postPowertest := by
    rw [bootmodeTestOff, UInt32.and_assoc, UInt32.and_comm (~~~postPowertest), UInt32.and_assoc]
  refine ⟨?_, ?_⟩
  · rw [hcomm, h.magic]
    rfl
  · rw [hcomm, h.mode, hmode]

theorem lastTest_on (word : UInt32) (hi : i < 32) :
    lastTest (bootmodeTestOn i word) = lastTest word ||| i := by
  obtain ⟨-, -, hnum⟩ := number_bits i hi
  have hbit : ((postPowertest >>> 8) &&& 0xFF : UInt32) = 0 := rfl
  rw [lastTest, bootmodeTestOn, UInt32.shiftRight_or, UInt32.shiftRight_or, and_or_right,
    and_or_right, hbit, UInt32.toNat_or, UInt32.toNat_or, hnum, UInt32.toNat_zero, Nat.or_zero]
  rfl

/-! ## One test -/

def selected (testFlags : List UInt32) (ph : Phase) (i : ℕ) : Bool :=
  testFlags[i]?.any fun f => selects f (ph.flag ||| postPoweron)

/-- What a phase passes to the tests, up to the bits that select. -/
structure IsArg (ph : Phase) (flags : UInt32) : Prop where
  always : flags &&& postAlways = postPoweron
  mem : flags &&& postMem = ph.flag
  manual : flags &&& postManual = 0

theorem selects_eq {ph : Phase} {f flags : UInt32} (h : IsArg ph flags) :
    selects f flags = selects f (ph.flag ||| postPoweron) := by
  have hcomm (g m : UInt32) : g &&& f &&& m = g &&& m &&& f := by
    rw [UInt32.and_assoc, UInt32.and_comm f, ← UInt32.and_assoc]
  have hsel : (ph.flag ||| postPoweron) &&& postAlways = postPoweron ∧
      (ph.flag ||| postPoweron) &&& postMem = ph.flag := by
    cases ph <;> exact ⟨rfl, rfl⟩
  unfold selects
  rw [hcomm, hcomm flags, hcomm, hcomm (ph.flag ||| postPoweron), h.always, h.mem, hsel.1, hsel.2]

theorem IsArg.or {ph : Phase} {flags : UInt32} (h : IsArg ph flags) :
    IsArg ph (flags ||| postReboot) := by
  refine ⟨?_, ?_, ?_⟩
  · rw [and_or_right, h.always]
    rfl
  · rw [and_or_right, h.mem]
    cases ph <;> rfl
  · rw [and_or_right, h.manual]
    rfl

/-- The argument of a call without `POST_REBOOT`. -/
def Plain (ph : Phase) (flags : UInt32) : Prop := IsArg ph flags ∧ flags &&& postReboot = 0

theorem plain_arg (ph : Phase) {mode : UInt32}
    (hmode : mode = postPoweron ∨ mode = postPoweron ||| postPowertest) :
    Plain ph (ph.flag ||| mode) := by
  obtain rfl | rfl := hmode <;> cases ph <;> exact ⟨⟨rfl, rfl, rfl⟩, rfl⟩

section
variable {resets : ℕ → Bool} {ph : Phase} {f flags : UInt32}

theorem single_unselected (hf : selects f flags = false) :
    postRunSingle resets f flags i word = ⟨some (-1), word, []⟩ := by
  rw [postRunSingle, hf, if_neg Bool.false_ne_true]

variable (resets) in
/-- A call without `POST_REBOOT` returns, or the board is reset with the test in the boot word. -/
theorem single_plain (hflags : Plain ph flags) (hw : Mode postPoweron word) (hi : i < 32)
    (hf : selects f flags = true) :
    (∃ word', Mode postPoweron word' ∧ postRunSingle resets f flags i word =
      ⟨some 0, word', [⟨i, flags, word, false⟩]⟩) ∨
    f &&& postReboot ≠ 0 ∧ postRunSingle resets f flags i word =
      ⟨none, bootmodeTestOn i word, [⟨i, flags, word, true⟩]⟩ := by
  rw [postRunSingle, if_pos hf]
  simp only [hflags.2, hflags.1.manual, true_and, and_true]
  by_cases hreboot : f &&& postReboot = 0
  · left
    simp only [hreboot, ne_eq, not_true_eq_false, if_false, false_and]
    exact ⟨word, hw, rfl⟩
  · simp only [hreboot, ne_eq, not_false_eq_true, if_true, true_and]
    by_cases hreset : resets i = true
    · right
      rw [if_pos hreset]
    · left
      rw [if_neg hreset]
      exact ⟨_, (hw.on hi).off rfl, rfl⟩

theorem single_reboot (hflags : Plain ph flags)
    (hf : selects f (flags ||| postReboot) = true) (hreboot : f &&& postReboot ≠ 0) :
    postRunSingle resets f (flags ||| postReboot) i word =
      ⟨some 0, bootmodeTestOff word, [⟨i, flags ||| postReboot, word, false⟩]⟩ := by
  have hset : (flags ||| postReboot) &&& postReboot ≠ 0 := by
    rw [and_or_right, hflags.2]
    decide
  rw [postRunSingle, if_pos hf]
  simp only [hset, false_and, if_false, hreboot, ne_eq, not_false_eq_true, hflags.1.or.manual,
    and_self, if_true]

end

/-! ## The tests of a phase -/

def todo (testFlags : List UInt32) (ph : Phase) (i : ℕ) : List ℕ :=
  (List.range' i (testFlags.length - i)).filter (selected testFlags ph)

def Returned (flags : UInt32) (cs : List Call) (js : List ℕ) : Prop :=
  List.Forall₂ (fun c j => c.test = j ∧ c.flags = flags ∧ c.reset = false) cs js

section
variable {resets : ℕ → Bool} {ph : Phase} {flags : UInt32} {testFlags fs : List UInt32}

theorem todo_cons {f : UInt32} (hfs : testFlags.drop i = f :: fs) : todo testFlags ph i =
    if selects f (ph.flag ||| postPoweron) then i :: todo testFlags ph (i + 1)
    else todo testFlags ph (i + 1) := by
  have hget : testFlags[i]? = some f := by
    rw [← Nat.add_zero i, ← List.getElem?_drop, hfs]
    rfl
  have hlt : i < testFlags.length := (List.getElem?_eq_some_iff.mp hget).1
  have hsub : testFlags.length - i = testFlags.length - (i + 1) + 1 := by omega
  have hsel : selected testFlags ph i = selects f (ph.flag ||| postPoweron) := by
    rw [selected, hget, Option.any_some]
  rw [todo, hsub, List.range'_succ, List.filter_cons, hsel]
  rfl

variable (resets) in
/-- A phase runs to its end, or up to the test that resets the board. -/
theorem runFrom_cases (hflags : Plain ph flags) (hlen : testFlags.length ≤ 32)
    (hfs : testFlags.drop i = fs) (hw : Mode postPoweron word) :
    (∃ word' cs, runFrom resets flags i fs word = ⟨some 0, word', cs⟩ ∧ Mode postPoweron word' ∧
      Returned flags cs (todo testFlags ph i)) ∨
    ∃ cs js k word', runFrom resets flags i fs word =
        ⟨none, bootmodeTestOn k word', cs ++ [⟨k, flags, word', true⟩]⟩ ∧
      Mode postPoweron word' ∧ Returned flags cs js ∧
      todo testFlags ph i = js ++ k :: todo testFlags ph (k + 1) ∧
      (∃ f, testFlags[k]? = some f ∧ f &&& postReboot ≠ 0) := by
  induction fs generalizing i word with
  | nil =>
    have hle := List.drop_eq_nil_iff.mp hfs
    have htodo : todo testFlags ph i = [] := by
      rw [todo, Nat.sub_eq_zero_of_le hle]
      rfl
    exact .inl ⟨word, [], rfl, hw, htodo ▸ .nil⟩
  | cons f fs ih =>
    have hget : testFlags[i]? = some f := by
      rw [← Nat.add_zero i, ← List.getElem?_drop, hfs]
      rfl
    have hi : i < 32 := (List.getElem?_eq_some_iff.mp hget).1.trans_le hlen
    have hnext : testFlags.drop (i + 1) = fs := by rw [← List.tail_drop, hfs, List.tail_cons]
    have hsel := selects_eq (f := f) hflags.1
    rw [runFrom, todo_cons hfs, ← hsel]
    cases hf : selects f flags with
    | false =>
      rw [single_unselected hf, if_neg Bool.false_ne_true]
      exact ih hnext hw
    | true =>
      rw [if_pos rfl]
      obtain ⟨word₁, hw₁, hsingle⟩ | ⟨hreboot, hsingle⟩ :=
        single_plain resets hflags hw hi hf
      · rw [hsingle]
        obtain ⟨word', cs, hrun, hw', hcs⟩ | ⟨cs, js, k, word', hrun, hw', hcs, htodo, hk⟩ :=
          ih hnext hw₁
        · refine .inl ⟨word', ⟨i, flags, word, false⟩ :: cs, ?_, hw', .cons ⟨rfl, rfl, rfl⟩ hcs⟩
          simp only [Out.andThen, hrun]
          rfl
        · refine .inr ⟨⟨i, flags, word, false⟩ :: cs, i :: js, k, word', ?_, hw',
            .cons ⟨rfl, rfl, rfl⟩ hcs, ?_, hk⟩
          · simp only [Out.andThen, hrun]
            rfl
          · rw [htodo, List.cons_append]
      · rw [hsingle]
        exact .inr ⟨[], [], i, word, rfl, hw, .nil, rfl, f, hget, hreboot⟩

end

end UBoot.Post
