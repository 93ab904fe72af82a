import UBoot.I8042.Conv
import UBoot.Lib.Runs

/-!
# Shift and lock keys

`Typed` reads the scan codes as key events: 0xe0 extends the next code, and the codes between two
0xe1 belong to the pause key. A lock key is on after an odd number of make codes, a modifier as
long as its last code was a make code. `kbd_tracks_iff`: `kbd_flags` says so after every code up
to the first make code of right Alt, for which `kbd_alt` clears the flag word where it should set
a flag.
-/

namespace UBoot.I8042

open Lib

/-- The keys whose state `kbd_flags` has. -/
inductive Key where
  | caps
  | num
  | scroll
  | shift
  | ctrl
  | alt
  deriving DecidableEq

def Key.flag : Key → Flag
  | .caps => .caps
  | .num => .num
  | .scroll => .stp
  | .shift => .shift
  | .ctrl => .ctrl
  | .alt => .alt

def Key.locks : Key → Bool
  | .caps | .num | .scroll => true
  | .shift | .ctrl | .alt => false

/-- The key of a scan code without its high bit; `ext` when 0xe0 is before it. -/
def keyOf (ext : Bool) (code : UInt8) : Option Key :=
  if ext then
    if code = 0x1d then some .ctrl
    else if code = 0x38 then some .alt
    else if code = 0x46 then some .scroll
    else none
  else if code = 0x1d then some .ctrl
  else if code = 0x2a ∨ code = 0x36 then some .shift
  else if code = 0x3a then some .caps
  else if code = 0x45 then some .num
  else if code = 0x46 then some .scroll
  else none

/-- What has been typed: the prefixes that are in force, and the events of the keys, `true` for a
make code. -/
structure Typed where
  ext : Bool
  e1 : Bool
  events : List (Key × Bool)

def Typed.event (t : Typed) (code : UInt8) : Option (Key × Bool) :=
  if code = 0xe0 ∨ code = 0xe1 ∨ t.e1 then none
  else (keyOf t.ext (code &&& 0x7f)).map fun key => (key, decide (code &&& 0x80 = 0))

def Typed.see (t : Typed) (code : UInt8) : Typed where
  ext := if code = 0xe0 then true else if code = 0xe1 ∨ t.e1 then t.ext else false
  e1 := t.e1 ^^ decide (code = 0xe1)
  events := t.events ++ (t.event code).toList

def typed (codes : List UInt8) : Typed := codes.foldl Typed.see ⟨false, false, []⟩

/-- A key is on: a lock key after an odd number of make codes, a modifier when its last code was a
make code. -/
def Key.On (events : List (Key × Bool)) (key : Key) : Prop :=
  if key.locks then Odd (events.count (key, true))
  else (events.filter fun e => e.1 = key).getLast? = some (key, true)

def Kbd.Has (k : Kbd) (key : Key) : Prop := k.kbdFlags &&& key.flag.mask ≠ 0

def typing (kbdMapping : Mapping) (codes : List UInt8) : Kbd :=
  codes.foldl kbdConvChar (kbdInit kbdMapping)

/-- **The flags follow the keys** after `codes`, and the next code changes only the flag of its own
key. -/
structure Tracks (kbdMapping : Mapping) (codes next : List UInt8) : Prop where
  flags : ∀ key, (typing kbdMapping codes).Has key ↔ key.On (typed codes).events
  frame : ∀ code, next.head? = some code →
    ∀ key, (∀ make, (typed codes).event code ≠ some (key, make)) →
      ((typing kbdMapping (codes ++ [code])).Has key ↔ (typing kbdMapping codes).Has key)

/-! ## The flag word -/

def Flag.bit : Flag → Nat
  | .stp => 0
  | .num => 1
  | .caps => 2
  | .shift => 3
  | .ctrl => 4
  | .ext => 5
  | .e1 => 7
  | .brk => 8
  | .alt => 9

/-- The flags as bits of `kbd_flags`. -/
def kbdBits : FlagBits Flag 32 where
  bit := Flag.bit
  bit_lt f := by cases f <;> decide
  inj f g h := by cases f <;> cases g <;> first | rfl | cases h

@[simp] theorem mask_eq (f : Flag) : f.mask = kbdBits.mask f := by cases f <;> rfl

def Kbd.test (k : Kbd) (f : Flag) : Bool := kbdBits.test k.kbdFlags f

section
variable {k : Kbd} {t : Typed} {key : Key} {code : UInt8} {f : Flag} {flags : BitVec 32}
  {events : List (Key × Bool)} {s : Kbd × Typed}

theorem has_iff : k.Has key ↔ k.test key.flag = true := by
  rw [Kbd.Has, mask_eq, ne_eq, FlagBits.and_mask_eq_zero, Bool.not_eq_false]
  rfl

theorem setBrk_test : kbdBits.test (setBrk flags code) f =
    if f = .brk then decide (code &&& 0x80 ≠ 0) else kbdBits.test flags f := by
  unfold setBrk
  simp only [mask_eq]
  by_cases hhigh : code &&& 0x80 ≠ 0
  · rw [if_pos hhigh, FlagBits.test_or, decide_eq_true hhigh]
    by_cases hf : f = .brk
    · simp [hf]
    · simp [hf, Ne.symm hf]
  · rw [if_neg hhigh, FlagBits.test_and_not, decide_eq_false hhigh]
    by_cases hf : f = .brk
    · simp [hf]
    · simp [hf, Ne.symm hf]

def keyOfFct (fct : UInt8) : Option Key :=
  if fct = sh then some .shift
  else if fct = cn then some .ctrl
  else if fct = nm then some .num
  else if fct = cp then some .caps
  else if fct = st then some .scroll
  else if fct = ak then some .alt
  else none

/-- What the function of a key does to the flag word. -/
def keyFlags (flags : BitVec 32) (key : Key) : BitVec 32 :=
  if flags &&& Flag.brk.mask = 0 then
    match key with
    | .caps | .num | .scroll => flags ^^^ key.flag.mask
    | .shift | .ctrl => flags ||| key.flag.mask
    | .alt => flags &&& key.flag.mask
  else
    match key with
    | .caps | .num | .scroll => flags
    | .shift | .ctrl | .alt => flags &&& ~~~key.flag.mask

theorem brk_iff : k.kbdFlags &&& Flag.brk.mask = Flag.brk.mask ↔
    ¬ k.kbdFlags &&& Flag.brk.mask = 0 := by
  rw [mask_eq, FlagBits.and_mask_eq_mask, FlagBits.and_mask_eq_zero, Bool.not_eq_false]

theorem kbdNormal_flags : (kbdNormal code k).kbdFlags = k.kbdFlags := by
  unfold kbdNormal
  dsimp only
  split_ifs <;> rfl

theorem kbdShift_flags : (kbdShift k).kbdFlags = keyFlags k.kbdFlags .shift := by
  unfold kbdShift keyFlags
  simp only [brk_iff, ite_not]
  split_ifs <;> rfl

theorem kbdCtrl_flags : (kbdCtrl k).kbdFlags = keyFlags k.kbdFlags .ctrl := by
  unfold kbdCtrl keyFlags
  simp only [brk_iff, ite_not]
  split_ifs <;> rfl

theorem kbdAlt_flags : (kbdAlt k).kbdFlags = keyFlags k.kbdFlags .alt := by
  unfold kbdAlt keyFlags
  simp only [brk_iff, ite_not]
  split_ifs <;> rfl

theorem kbdCaps_flags : (kbdCaps k).kbdFlags = keyFlags k.kbdFlags .caps := by
  unfold kbdCaps keyFlags
  split_ifs <;> rfl

theorem kbdNum_flags : (kbdNum k).kbdFlags = keyFlags k.kbdFlags .num := by
  unfold kbdNum keyFlags
  split_ifs <;> rfl

theorem kbdScroll_flags : (kbdScroll k).kbdFlags = keyFlags k.kbdFlags .scroll := by
  unfold kbdScroll keyFlags
  dsimp only
  split_ifs <;> rfl

/-- **The switch.** The function called for an index changes the flags as its key says. -/
theorem kbdFct_flags (fct : UInt8) :
    (kbdFct fct code k).kbdFlags = ((keyOfFct fct).map (keyFlags k.kbdFlags)).getD k.kbdFlags := by
  unfold kbdFct keyOfFct
  by_cases hnormal : fct = as
  · subst hnormal
    exact kbdNormal_flags
  rw [if_neg hnormal]
  split_ifs
  · exact kbdShift_flags
  · exact kbdCtrl_flags
  · exact kbdNum_flags
  · exact kbdCaps_flags
  · exact kbdScroll_flags
  · exact kbdAlt_flags
  · rfl

theorem keyOfFct_map (hcode : code.toNat < 128) :
    keyOfFct (kbdFctMap.getD code.toNat 0) = keyOf false code := by
  have h : ∀ n < 128, keyOfFct (kbdFctMap.getD n 0) = keyOf false (UInt8.ofNat n) := by
    decide
  rw [h _ hcode, UInt8.ofNat_toNat]

theorem keyOfFct_ext (hcode : code.toNat < 128) :
    (extKeyMap.idxOf? code).bind (fun i => keyOfFct (kbdFctMap.getD (0x80 + i) 0)) =
      keyOf true code := by
  have h : ∀ n < 128, (extKeyMap.idxOf? (UInt8.ofNat n)).bind
      (fun i => keyOfFct (kbdFctMap.getD (0x80 + i) 0)) = keyOf true (UInt8.ofNat n) := by
    decide
  have := h _ hcode
  rwa [UInt8.ofNat_toNat] at this

/-- A code of a key: the break flag is set, the prefix cleared, and the function of the key
called. -/
theorem kbdConvChar_key (he0 : code ≠ 0xe0) (hne1 : code ≠ 0xe1) (he1 : k.test .e1 = false) :
    ∃ flags, (kbdConvChar k code).kbdFlags =
        ((keyOf (k.test .ext) (code &&& 0x7f)).map (keyFlags flags)).getD flags ∧
      kbdBits.test flags .brk = decide (code &&& 0x80 ≠ 0) ∧ kbdBits.test flags .ext = false ∧
      ∀ f, f ≠ .brk → f ≠ .ext → kbdBits.test flags f = k.test f := by
  have hlt : (code &&& 0x7f).toNat < 128 := by
    rw [UInt8.toNat_and]
    exact Nat.lt_of_le_of_lt Nat.and_le_right (by decide)
  have hbrk (f : Flag) (hf : f ≠ .brk) : kbdBits.test (setBrk k.kbdFlags code) f = k.test f := by
    rw [setBrk_test, if_neg hf]
    rfl
  have hcond : ¬ (code = 0xe1 ∨ setBrk k.kbdFlags code &&& Flag.e1.mask ≠ 0) := by
    rw [mask_eq, ne_eq, FlagBits.and_mask_eq_zero, hbrk _ (by decide), he1]
    exact fun h => h.elim hne1 fun h => h rfl
  have hext : setBrk k.kbdFlags code &&& Flag.ext.mask ≠ 0 ↔ k.test .ext = true := by
    rw [mask_eq, ne_eq, FlagBits.and_mask_eq_zero, hbrk _ (by decide), Bool.not_eq_false]
  rw [kbdConvChar, if_neg he0]
  dsimp only
  rw [if_neg hcond]
  by_cases h : k.test .ext = true
  · refine ⟨setBrk k.kbdFlags code ^^^ Flag.ext.mask, ?_, ?_, ?_, fun f hf hf' => ?_⟩
    · rw [if_pos (hext.mpr h), h, ← keyOfFct_ext hlt]
      cases extKeyMap.idxOf? (code &&& 0x7f) with
      | none => rfl
      | some i => exact kbdFct_flags _
    · rw [mask_eq, FlagBits.test_xor, setBrk_test, if_pos rfl]
      simp
    · rw [mask_eq, FlagBits.test_xor, hbrk _ (by decide), h]
      rfl
    · rw [mask_eq, FlagBits.test_xor, hbrk _ hf, decide_eq_false (Ne.symm hf'), Bool.xor_false]
  · refine ⟨setBrk k.kbdFlags code, ?_, ?_, ?_, fun f hf _ => hbrk f hf⟩
    · rw [if_neg (mt hext.mp h), Bool.eq_false_of_not_eq_true h, ← keyOfFct_map hlt]
      exact kbdFct_flags _
    · rw [setBrk_test, if_pos rfl]
    · rw [hbrk _ (by decide), Bool.eq_false_of_not_eq_true h]

def Key.after (key : Key) (on : Bool) : Option (Key × Bool) → Bool
  | none => on
  | some (key', make) => if key' = key then if key.locks then on ^^ make else make else on

theorem keyFlags_test {key' : Key} (h : (key', kbdBits.test flags .brk) ≠ (.alt, false)) :
    kbdBits.test (keyFlags flags key') key.flag =
      key.after (kbdBits.test flags key.flag) (some (key', !kbdBits.test flags .brk)) := by
  have hzero := @FlagBits.and_mask_eq_zero _ _ kbdBits flags Flag.brk
  rw [← mask_eq] at hzero
  unfold keyFlags Key.after
  cases hbrk : kbdBits.test flags .brk with
  | false =>
    rw [if_pos (hzero.mpr hbrk)]
    rw [hbrk] at h
    cases key' <;> cases key <;> simp [Key.flag, Key.locks] at h ⊢
  | true =>
    rw [if_neg (mt hzero.mp (by rw [hbrk]; decide))]
    cases key' <;> cases key <;> simp [Key.flag, Key.locks]

/-- The prefixes are in the flag word too, and no function of a key touches them. -/
theorem keyFlags_front {key' : Key} (h : (key', kbdBits.test flags .brk) ≠ (.alt, false))
    (hf : f = .ext ∨ f = .e1) : kbdBits.test (keyFlags flags key') f = kbdBits.test flags f := by
  have hzero := @FlagBits.and_mask_eq_zero _ _ kbdBits flags Flag.brk
  rw [← mask_eq] at hzero
  unfold keyFlags
  cases hbrk : kbdBits.test flags .brk with
  | false =>
    rw [if_pos (hzero.mpr hbrk)]
    rw [hbrk] at h
    rcases hf with rfl | rfl <;> cases key' <;> simp [Key.flag] at h ⊢
  | true =>
    rw [if_neg (mt hzero.mp (by rw [hbrk]; decide))]
    rcases hf with rfl | rfl <;> cases key' <;> simp [Key.flag]

/-! ## Sequences of codes -/

/-- The flag word says which prefixes are in force and which keys are on. -/
structure Follows (k : Kbd) (t : Typed) : Prop where
  ext : k.test .ext = t.ext
  e1 : k.test .e1 = t.e1
  keys : ∀ key : Key, k.test key.flag = true ↔ key.On t.events

theorem on_append (e : Option (Key × Bool)) {on : Bool} (h : on = true ↔ key.On events) :
    key.after on e = true ↔ key.On (events ++ e.toList) := by
  cases e with
  | none => rwa [Option.toList_none, List.append_nil]
  | some e =>
    obtain ⟨key', make⟩ := e
    rw [Option.toList_some]
    unfold Key.after Key.On at *
    rw [List.count_append, List.filter_append]
    dsimp only
    by_cases hkey : key' = key
    · subst hkey
      cases hlocks : key'.locks with
      | false => cases make <;> simp
      | true =>
        rw [if_pos hlocks] at h
        cases make with
        | false => simpa using h
        | true =>
          simp only [if_true, List.count_singleton_self, Nat.odd_add_one, ← h]
          cases on <;> decide
    · rw [if_neg hkey, h]
      simp [hkey]

theorem Key.flag_ne (key : Key) : key.flag ≠ .ext ∧ key.flag ≠ .e1 ∧ key.flag ≠ .brk := by
  cases key <;> decide

theorem Follows.see_ext (h : Follows k t) : Follows (kbdConvChar k 0xe0) (t.see 0xe0) := by
  have hconv (f : Flag) : (kbdConvChar k 0xe0).test f = (k.test f || decide (Flag.ext = f)) := by
    rw [kbdConvChar, if_pos rfl, Kbd.test, mask_eq, FlagBits.test_or]
    rfl
  have hevent : t.event 0xe0 = none := if_pos (.inl rfl)
  refine ⟨?_, ?_, fun key => ?_⟩
  · rw [hconv, Typed.see, if_pos rfl, decide_eq_true rfl, Bool.or_true]
  · rw [hconv, h.e1, Typed.see]
    simp
  · rw [hconv, decide_eq_false (Ne.symm key.flag_ne.1), Bool.or_false, Typed.see, hevent]
    exact on_append none (h.keys key)

theorem Follows.see_e1 (h : Follows k t) : Follows (kbdConvChar k 0xe1) (t.see 0xe1) := by
  have he0 : ¬ (0xe1 : UInt8) = 0xe0 := by decide
  have hconv (f : Flag) (hf : f ≠ .brk) :
      (kbdConvChar k 0xe1).test f = (k.test f ^^ decide (Flag.e1 = f)) := by
    rw [kbdConvChar, if_neg he0]
    dsimp only
    rw [if_pos (.inl rfl), if_pos rfl, Kbd.test, mask_eq, mask_eq, FlagBits.test_xor,
      FlagBits.test_xor, setBrk_test, if_neg hf, decide_eq_false (Ne.symm hf), Bool.xor_false]
    rfl
  have hevent : t.event 0xe1 = none := if_pos (.inr (.inl rfl))
  refine ⟨?_, ?_, fun key => ?_⟩
  · rw [hconv _ (by decide), h.ext, Typed.see, if_neg he0, if_pos (.inl rfl)]
    simp
  · rw [hconv _ (by decide), h.e1, Typed.see]
    simp
  · rw [hconv _ key.flag_ne.2.2, decide_eq_false (Ne.symm key.flag_ne.2.1), Bool.xor_false,
      Typed.see, hevent]
    exact on_append none (h.keys key)

theorem Follows.see_pause (h : Follows k t) (he0 : code ≠ 0xe0) (he1 : code ≠ 0xe1)
    (hpause : t.e1 = true) : Follows (kbdConvChar k code) (t.see code) := by
  have hmask : setBrk k.kbdFlags code &&& Flag.e1.mask ≠ 0 := by
    rw [mask_eq, ne_eq, FlagBits.and_mask_eq_zero, setBrk_test, if_neg (by decide)]
    exact fun hf => Bool.noConfusion ((hf.symm.trans h.e1).trans hpause)
  have hconv (f : Flag) (hf : f ≠ .brk) : (kbdConvChar k code).test f = k.test f := by
    rw [kbdConvChar, if_neg he0]
    dsimp only
    rw [if_pos (.inr hmask), if_neg he1, Kbd.test, setBrk_test, if_neg hf]
    rfl
  have hevent : t.event code = none := if_pos (.inr (.inr hpause))
  refine ⟨?_, ?_, fun key => ?_⟩
  · rw [hconv _ (by decide), h.ext, Typed.see, if_neg he0, if_pos (.inr hpause)]
  · rw [hconv _ (by decide), h.e1, Typed.see]
    simp [he1]
  · rw [hconv _ key.flag_ne.2.2, Typed.see, hevent]
    exact on_append none (h.keys key)

/-- The code of a key, except a make code of right Alt. -/
theorem Follows.see_key (h : Follows k t) (he0 : code ≠ 0xe0) (he1 : code ≠ 0xe1)
    (hpause : t.e1 = false) (halt : t.event code ≠ some (.alt, true)) :
    Follows (kbdConvChar k code) (t.see code) := by
  obtain ⟨flags, hconv, hbrk, hext, hflags⟩ :=
    kbdConvChar_key he0 he1 (h.e1.trans hpause)
  have hevent : t.event code =
      (keyOf t.ext (code &&& 0x7f)).map fun key => (key, decide (code &&& 0x80 = 0)) :=
    if_neg (by rw [hpause]; simp [he0, he1])
  have hsee : (t.see code).ext = false ∧ (t.see code).e1 = false := by
    rw [Typed.see, if_neg he0, if_neg (by rw [hpause]; simp [he1]), hpause, decide_eq_false he1]
    exact ⟨rfl, rfl⟩
  have hbrk' : (!kbdBits.test flags .brk) = decide (code &&& 0x80 = 0) := by
    rw [hbrk, decide_not, Bool.not_not]
  have he1' : kbdBits.test flags .e1 = false := by
    rw [hflags _ (by decide) (by decide), h.e1, hpause]
  rw [h.ext] at hconv
  cases hkey : keyOf t.ext (code &&& 0x7f) with
  | none =>
    rw [hkey] at hconv hevent
    refine ⟨?_, ?_, fun key => ?_⟩
    · rw [Kbd.test, hconv, hsee.1]
      exact hext
    · rw [Kbd.test, hconv, hsee.2]
      exact he1'
    · rw [Kbd.test, hconv, Typed.see, hevent]
      change kbdBits.test flags key.flag = true ↔ _
      rw [hflags _ key.flag_ne.2.2 key.flag_ne.1]
      exact on_append none (h.keys key)
  | some key' =>
    rw [hkey] at hconv hevent
    have halt' : (key', kbdBits.test flags .brk) ≠ (.alt, false) := fun heq => by
      obtain ⟨rfl, hb⟩ := Prod.mk.inj heq
      rw [hb] at hbrk'
      exact halt (by rw [hevent, Option.map_some, ← hbrk']; rfl)
    refine ⟨?_, ?_, fun key => ?_⟩
    · rw [Kbd.test, hconv, hsee.1]
      exact (keyFlags_front halt' (.inl rfl)).trans hext
    · rw [Kbd.test, hconv, hsee.2]
      exact (keyFlags_front halt' (.inr rfl)).trans he1'
    · rw [Kbd.test, hconv, Typed.see, hevent, Option.map_some, ← hbrk']
      change kbdBits.test (keyFlags flags key') key.flag = true ↔ _
      rw [keyFlags_test halt', hflags _ key.flag_ne.2.2 key.flag_ne.1]
      exact on_append _ (h.keys key)

/-- **One code**, unless it is a make code of right Alt. -/
theorem Follows.see (h : Follows k t) (halt : t.event code ≠ some (.alt, true)) :
    Follows (kbdConvChar k code) (t.see code) := by
  by_cases he0 : code = 0xe0
  · subst he0
    exact h.see_ext
  by_cases he1 : code = 0xe1
  · subst he1
    exact h.see_e1
  by_cases hpause : t.e1 = true
  · exact h.see_pause he0 he1 hpause
  · exact h.see_key he0 he1 (Bool.eq_false_of_not_eq_true hpause) halt

theorem Follows.alt (h : Follows k t) (halt : t.event code = some (.alt, true))
    (hoff : k.test .alt = false) : (kbdConvChar k code).test .alt = false := by
  unfold Typed.event at halt
  split_ifs at halt with hprefix
  obtain ⟨he0, he1, hpause⟩ := by simpa only [not_or] using hprefix
  obtain ⟨flags, hconv, hbrk, -, hflags⟩ :=
    kbdConvChar_key he0 he1 (h.e1.trans (Bool.eq_false_of_not_eq_true hpause))
  obtain ⟨key, hkey, heq⟩ := Option.map_eq_some_iff.mp halt
  obtain ⟨rfl, hmake⟩ := Prod.mk.inj heq
  rw [h.ext, hkey] at hconv
  have hzero := @FlagBits.and_mask_eq_zero _ _ kbdBits flags Flag.brk
  rw [← mask_eq, hbrk] at hzero
  have hlow : decide (code &&& 0x80 ≠ 0) = false := by
    rw [decide_not, hmake]
    rfl
  rw [Kbd.test, hconv]
  change kbdBits.test (keyFlags flags .alt) .alt = false
  rw [keyFlags, if_pos (hzero.mpr hlow), Key.flag, mask_eq, FlagBits.test_and,
    hflags _ (by decide) (by decide), hoff, Bool.false_and]

/-- No make code of right Alt has been received, and the flag word says what has. -/
structure Settled (s : Kbd × Typed) : Prop where
  follows : Follows s.1 s.2
  noAlt : (Key.alt, true) ∉ s.2.events

theorem Settled.has_iff (h : Settled s) (key : Key) : s.1.Has key ↔ key.On s.2.events :=
  I8042.has_iff.trans (h.follows.keys key)

/-- The next code, for the driver and for what has been typed. -/
def typeCode (s : Kbd × Typed) (code : UInt8) : Kbd × Typed :=
  (kbdConvChar s.1 code, s.2.see code)

theorem foldl_typeCode (codes : List UInt8) :
    codes.foldl typeCode s = (codes.foldl kbdConvChar s.1, codes.foldl Typed.see s.2) := by
  induction codes generalizing s with
  | nil => rfl
  | cons code codes ih => exact ih

theorem settled_init (kbdMapping : Mapping) : Settled (kbdInit kbdMapping, ⟨false, false, []⟩) := by
  have hzero (f : Flag) : (kbdInit kbdMapping).test f = false := BitVec.getLsbD_zero
  refine ⟨⟨hzero _, hzero _, fun key => ?_⟩, List.not_mem_nil⟩
  rw [hzero]
  cases key <;> simp [Key.On, Key.locks]

theorem Settled.step (h : Settled s) (halt : s.2.event code ≠ some (.alt, true)) :
    Settled (typeCode s code) := by
  refine ⟨h.follows.see halt, fun hmem => ?_⟩
  rcases List.mem_append.mp hmem with hmem | hmem
  · exact h.noAlt hmem
  · exact halt (Option.mem_toList.mp hmem)

theorem Settled.leave (h : Settled s) (halt : s.2.event code = some (.alt, true)) :
    ¬ ∀ key, (typeCode s code).1.Has key ↔ key.On (typeCode s code).2.events := by
  intro hflags
  have hoff : s.1.test .alt = false := by
    refine Bool.eq_false_of_not_eq_true fun hon => h.noAlt ?_
    have hlast : (s.2.events.filter fun e => e.1 = .alt).getLast? = some (.alt, true) :=
      (h.follows.keys .alt).mp hon
    exact List.mem_of_mem_filter (List.mem_of_getLast? hlast)
  have hon : Key.alt.On (typeCode s code).2.events := by
    change Key.alt.On (s.2.events ++ (s.2.event code).toList)
    rw [halt]
    exact (on_append (some (.alt, true)) (h.follows.keys .alt)).mp rfl
  have htest := I8042.has_iff.mp ((hflags .alt).mpr hon)
  exact Bool.noConfusion ((h.follows.alt halt hoff).symm.trans htest)

theorem mem_events {e : Key × Bool} (codes : List UInt8) (h : e ∈ t.events) :
    e ∈ (codes.foldl Typed.see t).events := by
  induction codes generalizing t with
  | nil => exact h
  | cons code codes ih => exact ih (List.mem_append_left _ h)

theorem along_iff (codes : List UInt8) (h : (Key.alt, true) ∉ s.2.events) :
    Along typeCode (fun s code => s.2.event code ≠ some (.alt, true)) s codes ↔
      (Key.alt, true) ∉ (codes.foldl Typed.see s.2).events := by
  induction codes generalizing s with
  | nil => exact iff_of_true trivial h
  | cons code codes ih =>
    by_cases halt : s.2.event code = some (.alt, true)
    · refine iff_of_false (fun hal => hal.1 halt) (not_not.mpr ?_)
      refine mem_events codes (List.mem_append_right _ ?_)
      rw [halt]
      exact List.mem_singleton.mpr rfl
    · rw [List.foldl_cons]
      refine (and_iff_right halt).trans (@ih (typeCode s code) fun hmem => ?_)
      rcases List.mem_append.mp hmem with hmem | hmem
      · exact h hmem
      · exact halt (Option.mem_toList.mp hmem)

theorem on_other {e : Option (Key × Bool)} (h : ∀ make, e ≠ some (key, make)) :
    key.On (events ++ e.toList) ↔ key.On events := by
  cases e with
  | none => rw [Option.toList_none, List.append_nil]
  | some e =>
    obtain ⟨key', make⟩ := e
    have hkey : key' ≠ key := fun heq => h make (by rw [heq])
    unfold Key.On
    simp [hkey]

end

/-- **The flags follow the keys** after every code of a sequence if and only if it has no make code
of right Alt. -/
theorem kbd_tracks_iff (kbdMapping : Mapping) (codes : List UInt8) :
    (∀ codes' next, codes' ++ next = codes → Tracks kbdMapping codes' next) ↔
      (Key.alt, true) ∉ (typed codes).events := by
  have hsettled := settled_init kbdMapping
  have hrun : (∀ codes', codes' <+: codes → ∀ key,
      (codes'.foldl typeCode (kbdInit kbdMapping, ⟨false, false, []⟩)).1.Has key ↔
        key.On (codes'.foldl typeCode (kbdInit kbdMapping, ⟨false, false, []⟩)).2.events) ↔
      Along typeCode (fun s code => s.2.event code ≠ some (.alt, true))
        (kbdInit kbdMapping, ⟨false, false, []⟩) codes :=
    @forall_prefix_iff_along _ _ _ _ _ _ Settled (fun s => ∀ key, s.1.Has key ↔ key.On s.2.events)
      hsettled (fun s hs => hs.has_iff) (fun s code hs halt => hs.step halt)
      (fun s code hs halt => hs.leave (not_not.mp halt))
  simp only [foldl_typeCode] at hrun
  refine Iff.trans ?_ (hrun.trans (along_iff codes List.not_mem_nil))
  constructor
  · rintro h codes' ⟨next, rfl⟩
    exact (h codes' next rfl).flags
  · rintro h codes' next rfl
    refine ⟨h codes' ⟨next, rfl⟩, fun code hcode key hother => ?_⟩
    obtain ⟨next, rfl⟩ : ∃ rest, next = code :: rest := List.head?_eq_some_iff.mp hcode
    have hnext := h (codes' ++ [code]) ⟨next, by rw [List.append_assoc]; rfl⟩ key
    have hevents : (typed (codes' ++ [code])).events =
        (typed codes').events ++ ((typed codes').event code).toList := by
      rw [typed, List.foldl_append]
      rfl
    change _ ↔ key.On (typed (codes' ++ [code])).events at hnext
    rw [hevents, on_other hother] at hnext
    exact hnext.trans (h codes' ⟨_, rfl⟩ key).symm

/-- With caps lock on, right Alt is pressed: its flag stays clear. -/
theorem kbd_alt_untracked : ¬ ∀ kbdMapping codes codes' next, codes' ++ next = codes →
    Tracks kbdMapping codes' next := fun h =>
  absurd ((h .us [0x3a, 0xe0, 0x38] [0x3a, 0xe0, 0x38] [] rfl).flags .alt)
    (by unfold Kbd.Has Key.On; decide)

end UBoot.I8042
