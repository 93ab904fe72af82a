import UBoot.I8042.Track

/-!
# Delivery of the characters

`i8042_tstc` and `i8042_getc` hand characters over in `kbd_input`. A call of `i8042_getc` is one
turn of its loop after the other; scan codes arrive at any time. `kbd_delivers_iff`: the
characters come out once and in order, and `i8042_tstc` sees them, exactly as long as it is not
called while one is waiting, unless the scan code that it then reads types nothing.
-/

namespace UBoot.I8042

open Lib

/-- The driver with the controller: the scan codes that have arrived, and the history: the
characters returned, and for each call of `i8042_tstc` its result and whether a character was
pending. -/
structure Port where
  kbd : Kbd
  arrived : List UInt8
  inGetc : Bool
  returned : List UInt8
  polls : List (Nat × Bool)

/-- `i8042_tstc` with its result; the cursor that it may blink is left out. -/
def i8042Tstc (s : Port) : Nat × Port :=
  match s.arrived with
  | [] => (0, s)
  | scanCode :: arrived =>
    let s := { s with arrived }
    if scanCode = 0xfa then (0, s)
    else
      let s := { s with kbd := kbdConvChar s.kbd scanCode }
      if s.kbd.kbdInput ≠ none then (1, s) else (0, s)

/-- The next turn of `i8042_getc`, which is called if it is not running. -/
def i8042Getc (s : Port) : Port :=
  match s.kbd.kbdInput with
  | some retChr =>
    { s with
      kbd := { s.kbd with kbdInput := none }
      inGetc := false
      returned := s.returned ++ [retChr] }
  | none =>
    match s.arrived with
    | [] => { s with inGetc := true }
    | scanCode :: arrived =>
      { s with
        kbd := if scanCode ≠ 0xfa then kbdConvChar s.kbd scanCode else s.kbd
        arrived
        inGetc := true }

inductive PortAction where
  | arrive (scanCode : UInt8)
  | tstc
  | getc

/-- A character has been produced and not returned. -/
def Port.pending (s : Port) : Bool := decide (s.returned.length < s.kbd.produced.length)

/-- One step; while `i8042_getc` runs there are no other calls. -/
def portStep (s : Port) : PortAction → Port
  | .arrive scanCode => { s with arrived := s.arrived ++ [scanCode] }
  | .tstc =>
    if s.inGetc then s
    else
      let (result, s) := i8042Tstc s
      { s with polls := s.polls ++ [(result, s.pending)] }
  | .getc => i8042Getc s

def portInit (kbdMapping : Mapping) : Port := ⟨kbdInit kbdMapping, [], false, [], []⟩

/-- **The characters are delivered**: each has been returned once, in order, but for one that waits,
and `i8042_tstc` returned 1 whenever one was pending. -/
structure Delivers (s : Port) : Prop where
  order : s.returned ++ s.kbd.kbdInput.toList = s.kbd.produced
  polls : ∀ poll ∈ s.polls, poll.2 = true → poll.1 = 1

/-- The character that the function of an index leaves, on a make code. -/
def Kbd.fctChar (k : Kbd) (fct scanCode : UInt8) : Option UInt8 :=
  if fct = as then
    let chr := k.keyAt scanCode
    if chr = 0xff ∨ chr = 0x00 then none else some (capsed k.kbdFlags chr)
  else if fct = st then
    if k.kbdFlags &&& Flag.stp.mask = 0 then some 0x13 else some 0x11
  else none

/-- The character that a scan code types: none for a prefix, a break code and a code of the pause
key. -/
def Kbd.charOf (k : Kbd) (scanCode : UInt8) : Option UInt8 :=
  let code := scanCode &&& 0x7f
  if scanCode &&& 0x80 ≠ 0 ∨ k.test .e1 then none
  else if k.test .ext then
    (extKeyMap.idxOf? code).bind fun i =>
      k.fctChar (kbdFctMap.getD (0x80 + i) 0) (0x80 + UInt8.ofNat i)
  else k.fctChar (kbdFctMap.getD code.toNat 0) code

/-- `i8042_tstc` is called while no character waits, or reads a code that types none and is not the
acknowledgement of the keyboard. -/
def Polite (s : Port) : PortAction → Prop
  | .tstc => s.inGetc ∨ s.kbd.kbdInput = none ∨
      ∃ scanCode, s.arrived.head? = some scanCode ∧ scanCode ≠ 0xfa ∧ s.kbd.charOf scanCode = none
  | _ => True

section
variable {k : Kbd} {s : Port} {code fct : UInt8} {a : PortAction}

/-- What a code leaves in `kbd_input`, and in the history. -/
structure Leaves (k : Kbd) (chr : Option UInt8) (k' : Kbd) : Prop where
  input : k'.kbdInput = chr.or k.kbdInput
  produced : k'.produced = k.produced ++ chr.toList

theorem Leaves.nothing {k' : Kbd} (hinput : k'.kbdInput = k.kbdInput)
    (hproduced : k'.produced = k.produced) : Leaves k none k' :=
  ⟨hinput, by rw [hproduced, Option.toList_none, List.append_nil]⟩

theorem Leaves.char (k : Kbd) (chr : UInt8) : Leaves k (some chr) (k.input chr) := ⟨rfl, rfl⟩

/-- Only `kbd_normal` and `kbd_scroll` leave a character, and only on a make code. -/
theorem kbdFct_leaves : Leaves k
    (if k.test .brk then none else k.fctChar fct code) (kbdFct fct code k) := by
  have hzero : k.kbdFlags &&& Flag.brk.mask = 0 ↔ k.test .brk = false := by
    rw [mask_eq, FlagBits.and_mask_eq_zero]
    rfl
  unfold kbdFct Kbd.fctChar
  by_cases hnormal : fct = as
  · rw [if_pos hnormal, if_pos hnormal, kbdNormal]
    dsimp only
    cases hbrk : k.test .brk with
    | true =>
      rw [if_neg (mt hzero.mp (by rw [hbrk]; decide)), if_pos rfl]
      exact .nothing rfl rfl
    | false =>
      rw [if_pos (hzero.mpr hbrk), if_neg Bool.false_ne_true]
      split_ifs
      · exact .nothing rfl rfl
      · exact .char _ _
  rw [if_neg hnormal, if_neg hnormal]
  by_cases hscroll : fct = st
  · subst hscroll
    change Leaves k _ (kbdScroll k)
    rw [if_pos rfl, kbdScroll]
    dsimp only
    cases hbrk : k.test .brk with
    | true =>
      rw [if_neg (mt hzero.mp (by rw [hbrk]; decide)), if_pos rfl]
      exact .nothing rfl rfl
    | false =>
      have hstp : (kbdLedSet { k with kbdFlags := k.kbdFlags ^^^ Flag.stp.mask }).kbdFlags &&&
          Flag.stp.mask ≠ 0 ↔ k.kbdFlags &&& Flag.stp.mask = 0 := by
        change ¬ ((k.kbdFlags ^^^ Flag.stp.mask) &&& Flag.stp.mask = 0) ↔ _
        rw [mask_eq, FlagBits.and_mask_eq_zero, FlagBits.and_mask_eq_zero, FlagBits.test_xor]
        simp
      rw [if_pos (hzero.mpr hbrk), if_neg Bool.false_ne_true]
      simp only [hstp]
      split_ifs <;> exact ⟨rfl, rfl⟩
  rw [if_neg hscroll, if_neg hscroll, ite_self]
  split_ifs
  · unfold kbdShift
    split_ifs <;> exact .nothing rfl rfl
  · unfold kbdCtrl
    split_ifs <;> exact .nothing rfl rfl
  · unfold kbdNum
    split_ifs <;> exact .nothing rfl rfl
  · unfold kbdCaps
    split_ifs <;> exact .nothing rfl rfl
  · unfold kbdAlt
    split_ifs <;> exact .nothing rfl rfl
  · exact .nothing rfl rfl

/-- The character of a key depends on the caps and stop flags only. -/
theorem fctChar_congr {flags : BitVec 32}
    (hcaps : kbdBits.test flags .caps = k.test .caps)
    (hstp : kbdBits.test flags .stp = k.test .stp) :
    Kbd.fctChar { k with kbdFlags := flags } fct code = k.fctChar fct code := by
  have hcapsed : capsed flags = capsed k.kbdFlags := by
    funext chr
    unfold capsed
    simp only [mask_eq, FlagBits.and_mask_eq_mask, hcaps]
    rfl
  have hzero : flags &&& Flag.stp.mask = 0 ↔ k.kbdFlags &&& Flag.stp.mask = 0 := by
    rw [mask_eq, FlagBits.and_mask_eq_zero, FlagBits.and_mask_eq_zero, hstp]
    rfl
  unfold Kbd.fctChar
  simp only [hcapsed, hzero]
  rfl

/-- **What a scan code leaves.** -/
theorem kbdConvChar_leaves : Leaves k (k.charOf code) (kbdConvChar k code) := by
  unfold kbdConvChar Kbd.charOf
  by_cases he0 : code = 0xe0
  · subst he0
    rw [if_pos rfl, if_pos (.inl (by decide))]
    exact .nothing rfl rfl
  rw [if_neg he0]
  dsimp only
  have hflag (f : Flag) (hf : f ≠ .brk) :
      setBrk k.kbdFlags code &&& f.mask ≠ 0 ↔ k.test f = true := by
    rw [mask_eq, ne_eq, FlagBits.and_mask_eq_zero, setBrk_test, if_neg hf, Bool.not_eq_false]
    rfl
  simp only [hflag .e1 (by decide), hflag .ext (by decide)]
  by_cases he1 : code = 0xe1 ∨ k.test .e1 = true
  · rw [if_pos he1, if_pos]
    · split_ifs <;> exact .nothing rfl rfl
    · exact he1.imp_left fun h => by rw [h]; decide
  have hpause : k.test .e1 = false := Bool.eq_false_of_not_eq_true fun h => he1 (.inr h)
  rw [if_neg he1, hpause]
  -- the function of the key finds the break flag set, and else what was there
  have hfct (flags : BitVec 32) (fct scanCode : UInt8)
      (hbrk : kbdBits.test flags .brk = decide (code &&& 0x80 ≠ 0))
      (hcaps : kbdBits.test flags .caps = k.test .caps)
      (hstp : kbdBits.test flags .stp = k.test .stp) :
      Leaves k (if code &&& 0x80 ≠ 0 then none else k.fctChar fct scanCode)
        (kbdFct fct scanCode { k with kbdFlags := flags }) := by
    have h := @kbdFct_leaves { k with kbdFlags := flags } scanCode fct
    rw [fctChar_congr hcaps hstp, Kbd.test, hbrk] at h
    simp only [decide_eq_true_eq] at h
    exact ⟨h.input, h.produced⟩
  have hset (f : Flag) (hf : f ≠ .brk) :
      kbdBits.test (setBrk k.kbdFlags code) f = k.test f := by
    rw [setBrk_test, if_neg hf]
    rfl
  have hbrk : kbdBits.test (setBrk k.kbdFlags code) .brk = decide (code &&& 0x80 ≠ 0) := by
    rw [setBrk_test, if_pos rfl]
  by_cases hext : k.test .ext = true
  · have hxor (f : Flag) (hf : f ≠ .ext) :
        kbdBits.test (setBrk k.kbdFlags code ^^^ Flag.ext.mask) f =
          kbdBits.test (setBrk k.kbdFlags code) f := by
      rw [mask_eq, FlagBits.test_xor, decide_eq_false (Ne.symm hf), Bool.xor_false]
    simp only [if_pos hext]
    cases extKeyMap.idxOf? (code &&& 0x7f) with
    | none =>
      rw [Option.bind_none, ite_self]
      exact .nothing rfl rfl
    | some i =>
      have h := hfct (setBrk k.kbdFlags code ^^^ Flag.ext.mask) (kbdFctMap.getD (0x80 + i) 0)
        (0x80 + UInt8.ofNat i) ((hxor _ (by decide)).trans hbrk)
        ((hxor _ (by decide)).trans (hset _ (by decide)))
        ((hxor _ (by decide)).trans (hset _ (by decide)))
      simpa using h
  · have h := hfct (setBrk k.kbdFlags code) (kbdFctMap.getD (code &&& 0x7f).toNat 0)
      (code &&& 0x7f) hbrk (hset _ (by decide)) (hset _ (by decide))
    simp only [if_neg hext]
    simpa using h

theorem pending_eq (h : s.returned ++ s.kbd.kbdInput.toList = s.kbd.produced) :
    s.pending = s.kbd.kbdInput.isSome := by
  rw [Port.pending, ← h, List.length_append]
  cases s.kbd.kbdInput <;> simp

/-- A scan code is converted while nothing waits, or types nothing. -/
theorem order_conv (h : s.returned ++ s.kbd.kbdInput.toList = s.kbd.produced)
    (hfree : s.kbd.kbdInput = none ∨ s.kbd.charOf code = none) :
    s.returned ++ (kbdConvChar s.kbd code).kbdInput.toList =
      (kbdConvChar s.kbd code).produced := by
  obtain ⟨hinput, hproduced⟩ := @kbdConvChar_leaves s.kbd code
  rw [hinput, hproduced, ← h]
  rcases hfree with hfree | hfree
  · rw [hfree, Option.or_none, Option.toList_none, List.append_nil]
  · rw [hfree, Option.none_or, Option.toList_none, List.append_nil]

theorem portInit_delivers (kbdMapping : Mapping) : Delivers (portInit kbdMapping) :=
  ⟨rfl, List.forall_mem_nil _⟩

/-- A turn of `i8042_getc` reads a scan code only while nothing waits. -/
theorem Delivers.getc (h : Delivers s) : Delivers (i8042Getc s) := by
  unfold i8042Getc
  cases hinput : s.kbd.kbdInput with
  | some retChr =>
    refine ⟨?_, h.polls⟩
    have horder := h.order
    rw [hinput] at horder
    simpa using horder
  | none =>
    cases s.arrived with
    | nil => exact ⟨h.order, h.polls⟩
    | cons code arrived =>
      refine ⟨?_, h.polls⟩
      dsimp only
      split_ifs
      · exact order_conv h.order (.inl hinput)
      · exact h.order

/-- A call of `i8042_tstc` that reads no character over one that waits. -/
theorem Delivers.tstc (h : Delivers s) (hgetc : s.inGetc = false) (hpolite : Polite s .tstc) :
    Delivers (portStep s .tstc) := by
  have hpolite : s.kbd.kbdInput = none ∨
      ∃ code, s.arrived.head? = some code ∧ code ≠ 0xfa ∧ s.kbd.charOf code = none := by
    rcases hpolite with hpolite | hpolite
    · exact absurd (hgetc.symm.trans hpolite) Bool.false_ne_true
    · exact hpolite
  have hempty : ∀ arrived, s.kbd.kbdInput = none →
      Port.pending { s with arrived } = false := fun arrived hnone => by
    refine (pending_eq (s := { s with arrived }) h.order).trans ?_
    rw [hnone]
    rfl
  rw [portStep, if_neg (by rw [hgetc]; exact Bool.false_ne_true), i8042Tstc]
  cases harrived : s.arrived with
  | nil =>
    have hnone : s.kbd.kbdInput = none := hpolite.resolve_right fun ⟨_, hhead, _⟩ => by
      rw [harrived] at hhead
      cases hhead
    refine ⟨h.order, ?_⟩
    rw [List.forall_mem_append]
    refine ⟨h.polls, List.forall_mem_singleton.mpr fun hpend => ?_⟩
    exact absurd ((hempty _ hnone).symm.trans hpend) Bool.false_ne_true
  | cons code arrived =>
    dsimp only
    by_cases hack : code = 0xfa
    · have hnone : s.kbd.kbdInput = none := hpolite.resolve_right fun ⟨_, hhead, hne, _⟩ => by
        rw [harrived] at hhead
        exact hne ((Option.some.inj hhead).symm.trans hack)
      rw [if_pos hack]
      refine ⟨h.order, ?_⟩
      rw [List.forall_mem_append]
      refine ⟨h.polls, List.forall_mem_singleton.mpr fun hpend => ?_⟩
      exact absurd ((hempty arrived hnone).symm.trans hpend) Bool.false_ne_true
    · have hfree : s.kbd.kbdInput = none ∨ s.kbd.charOf code = none :=
        hpolite.imp_right fun ⟨_, hhead, _, hchar⟩ => by
          rw [harrived] at hhead
          rwa [← Option.some.inj hhead] at hchar
      have horder := order_conv h.order hfree
      rw [if_neg hack]
      by_cases hinput : (kbdConvChar s.kbd code).kbdInput ≠ none
      · rw [if_pos hinput]
        exact ⟨horder, List.forall_mem_append.mpr
          ⟨h.polls, List.forall_mem_singleton.mpr fun _ => rfl⟩⟩
      · rw [if_neg hinput]
        refine ⟨horder, List.forall_mem_append.mpr
          ⟨h.polls, List.forall_mem_singleton.mpr fun hpend => ?_⟩⟩
        have hpending := pending_eq (s := { s with arrived, kbd := kbdConvChar s.kbd code }) horder
        rw [not_not.mp hinput] at hpending
        exact absurd (hpending.symm.trans hpend) Bool.false_ne_true

/-- A call of `i8042_tstc` while a character waits, that misses it or reads another over it. -/
theorem Delivers.rude (h : Delivers s) (hrude : ¬ Polite s .tstc) :
    ¬ Delivers (portStep s .tstc) := by
  intro hafter
  obtain ⟨hgetc, hinput, hnext⟩ := by simpa only [Polite, not_or] using hrude
  obtain ⟨chr, hchr⟩ := Option.ne_none_iff_exists'.mp hinput
  have hpend : ∀ arrived, Port.pending { s with arrived } = true := fun arrived => by
    refine (pending_eq (s := { s with arrived }) h.order).trans ?_
    rw [hchr]
    rfl
  rw [portStep, if_neg hgetc, i8042Tstc] at hafter
  cases harrived : s.arrived with
  | nil =>
    rw [harrived] at hafter
    exact Nat.zero_ne_one
      (hafter.polls _ (List.mem_append_right _ (List.mem_singleton.mpr rfl)) (hpend _))
  | cons code arrived =>
    rw [harrived] at hafter
    dsimp only at hafter
    by_cases hack : code = 0xfa
    · rw [if_pos hack] at hafter
      exact Nat.zero_ne_one
        (hafter.polls _ (List.mem_append_right _ (List.mem_singleton.mpr rfl)) (hpend arrived))
    · have hsome : s.kbd.charOf code ≠ none := fun hnone =>
        hnext ⟨code, by rw [harrived]; rfl, hack, hnone⟩
      obtain ⟨chr', hchr'⟩ := Option.ne_none_iff_exists'.mp hsome
      obtain ⟨hin, hproduced⟩ := @kbdConvChar_leaves s.kbd code
      rw [hchr'] at hin hproduced
      rw [if_neg hack, if_pos (by rw [hin]; exact Option.some_ne_none _)] at hafter
      -- one more was produced, and still only one waits
      have horder : s.returned ++ (kbdConvChar s.kbd code).kbdInput.toList =
        (kbdConvChar s.kbd code).produced := hafter.order
      have hlen := congrArg List.length horder
      have hlen' := congrArg List.length h.order
      rw [hin, hproduced] at hlen
      rw [hchr] at hlen'
      simp only [List.length_append, Option.toList_some, List.length_singleton,
        Option.some_or] at hlen hlen'
      omega

end

/-- **The characters are delivered** in every state of a run if and only if every call of
`i8042_tstc` that finds one waiting reads a scan code that types nothing. -/
theorem kbd_delivers_iff (kbdMapping : Mapping) (as : List PortAction) :
    (∀ as', as' <+: as → Delivers (as'.foldl portStep (portInit kbdMapping))) ↔
      Along portStep Polite (portInit kbdMapping) as := by
  refine forall_prefix_iff_along (portInit_delivers kbdMapping) (fun _ h => h)
    (fun s a h hpolite => ?_) fun s a h hrude => ?_
  · cases a with
    | arrive scanCode => exact ⟨h.order, h.polls⟩
    | tstc =>
      cases hgetc : s.inGetc with
      | true =>
        rw [portStep, if_pos hgetc]
        exact h
      | false => exact h.tstc hgetc hpolite
    | getc => exact h.getc
  · cases a with
    | arrive | getc => exact absurd trivial hrude
    | tstc => exact h.rude hrude

/-- `a` is typed, and a second call of `i8042_tstc` does not see it. -/
theorem kbd_tstc_misses :
    ¬ ∀ kbdMapping as, Delivers (List.foldl portStep (portInit kbdMapping) as) := fun h =>
  absurd ((h .us [.arrive 0x1e, .tstc, .tstc]).polls (0, true)) (by decide)

/-- `b` takes the place of `a`. -/
example :
    let s := List.foldl portStep (portInit .us) [.arrive 0x1e, .tstc, .arrive 0x30, .tstc, .getc]
    s.kbd.produced = [0x61, 0x62] ∧ s.returned = [0x62] := by decide

end UBoot.I8042
