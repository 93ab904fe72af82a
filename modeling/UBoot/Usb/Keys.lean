import UBoot.Common.Strings
import UBoot.Usb.Kbd

/-!
# The reports of a USB keyboard (`common/usb_kbd.c`)

A boot report has the modifiers and six slots for the keys that are down. `usb_kbd_irq` compares it
with the report before: a key that was not in that one has been pressed, a key in the first slot of
both is repeated after a delay.

`hidKeys` has the characters of the keys. `usb_kbd_irq_decodes` is about runs of reports. It leaves
out the keys that the ranges of `usb_kbd_translate` miss, `z` and the caps lock, reports with a key
in two slots, and a key that comes into the first slot while the delay of another runs on.
-/

namespace UBoot.Usb.Keys

open UBoot.Lib UBoot.Common

/-- A boot report, without its second byte. -/
structure Report where
  modifier : UInt8
  keys : Fin 6 → UInt8

def Report.list (r : Report) : List UInt8 := List.ofFn r.keys

/-- `LEFT_SHIFT` and `RIGHT_SHIFT` are bits 1 and 5. -/
def shifted (modifier : UInt8) : Bool := modifier &&& 0x02 ≠ 0 ∨ modifier &&& 0x20 ≠ 0

def numLock : UInt8 := 0x53

def capsLock : UInt8 := 0x39

def scrollLock : UInt8 := 0x47

def repeatDelay : ℕ := 10

/-- `num_lock`, `caps_lock` and `scroll_lock`. -/
structure Locks where
  num : Bool
  caps : Bool
  scroll : Bool
  deriving DecidableEq

/-- The variables of the interrupt routine, and the characters that have been handed to
`usb_kbd_put_queue`. -/
structure KbdIrq where
  old : Report
  delay : ℕ
  locks : Locks
  leds : UInt8
  queued : List UInt8

def usbKbdNumkey : List UInt8 := ascii "1234567890\r\x1b\x08\t -=[]\\#;\x27\x60,./"

def usbKbdNumkeyShifted : List UInt8 := ascii "!@#$%^&*()\r\x1b\x08\t _+\x7b\x7d|~:\x22~<>?"

def readTable (table : List UInt8) (i : ℕ) : Except Oob UInt8 :=
  match table[i]? with
  | some c => .ok c
  | none => .error .read

/-- `keycode`, 0 for none. -/
def keycode (caps shift : Bool) (scancode : UInt8) : Except Oob UInt8 :=
  if scancode > 3 ∧ scancode < 0x1d then
    let keycode := scancode - 4 + 0x61
    let keycode := if caps then keycode &&& ~~~0x20 else keycode
    .ok (if shift then
      if keycode &&& 0x20 ≠ 0 then keycode &&& ~~~0x20 else keycode ||| 0x20
    else keycode)
  else if scancode > 0x1d ∧ scancode < 0x3a then
    readTable (if shift then usbKbdNumkeyShifted else usbKbdNumkey) (scancode.toNat - 0x1e)
  else .ok 0

/-- The locks with the one of the key switched, if it has one. -/
def Locks.switch (l : Locks) (scancode : UInt8) : Option Locks :=
  if scancode = numLock then some { l with num := !l.num }
  else if scancode = capsLock then some { l with caps := !l.caps }
  else if scancode = scrollLock then some { l with scroll := !l.scroll }
  else none

inductive Pressed where
  | released
  | fresh
  | still
  deriving DecidableEq

/-- `usb_kbd_translate` for a key that is down, when the delay is over. -/
def translateDown (s : KbdIrq) (scancode modifier : UInt8) (pressed : Pressed) :
    Except Oob (Bool × KbdIrq) := do
  let c ← keycode s.locks.caps (shifted modifier) scancode
  match (if pressed = .fresh then s.locks.switch scancode else none) with
  | some locks => return (true, { s with locks })
  | none => return (false, if c ≠ 0 then { s with queued := s.queued ++ [c] } else s)

def usbKbdTranslate (s : KbdIrq) (scancode modifier : UInt8) : Pressed → Except Oob (Bool × KbdIrq)
  | .released => .ok (false, { s with delay := 0 })
  | .fresh => translateDown s scancode modifier .fresh
  | .still =>
    if s.delay + 1 < repeatDelay then .ok (false, { s with delay := s.delay + 1 })
    else translateDown { s with delay := repeatDelay } scancode modifier .still

/-- The loop body of `usb_kbd_irq` for slot `i`, on `res` and the variables. -/
def slot (old new : Report) (r : Bool × KbdIrq) (i : Fin 6) : Except Oob (Bool × KbdIrq) := do
  let r ←
    if old.keys i > 3 ∧ old.keys i ∉ new.list then do
      let t ← usbKbdTranslate r.2 (old.keys i) new.modifier .released
      pure (r.1 || t.1, t.2)
    else pure r
  if new.keys i > 3 ∧ new.keys i ∉ old.list then
    let t ← usbKbdTranslate r.2 (new.keys i) new.modifier .fresh
    pure (r.1 || t.1, t.2)
  else pure r

/-- The byte that `usb_kbd_setled` sends. -/
def Locks.leds (l : Locks) : UInt8 :=
  (if l.scroll then 4 else 0) ||| (if l.caps then 2 else 0) ||| (if l.num then 1 else 0)

def usbKbdIrq (s : KbdIrq) (irqStatus : UInt32) (irqActLen : ℕ) (new : Report) :
    Except Oob KbdIrq := do
  if irqStatus ≠ 0 ∨ irqActLen ≠ 8 then return s
  let r ← (List.finRange 6).foldlM (slot s.old new) (false, s)
  let r ←
    if new.keys 0 > 3 ∧ s.old.keys 0 = new.keys 0 then do
      let t ← usbKbdTranslate r.2 (new.keys 0) new.modifier .still
      pure (r.1 || t.1, t.2)
    else pure r
  let s := if r.1 then { r.2 with leds := r.2.locks.leds } else r.2
  return { s with old := new }

/-- The variables behind `usb_kbd_probe`. -/
def kbdStart : KbdIrq := ⟨⟨0, fun _ => 0⟩, 0, ⟨false, false, false⟩, 0, []⟩

/-! ## What should be typed -/

/-- The characters of the keys from code 4 on, without and with the shift. -/
def hidKeys : List (UInt8 × UInt8) :=
  (ascii "abcdefghijklmnopqrstuvwxyz1234567890\r\x1b\x08\t -=[]\\#;\x27\x60,./").zip
    (ascii "ABCDEFGHIJKLMNOPQRSTUVWXYZ!@#$%^&*()\r\x1b\x08\t _+\x7b\x7d|~:\x22~<>?")

/-- The character of a key; the caps lock is for letters only. -/
def charOf (caps shift : Bool) (code : UInt8) : Option UInt8 :=
  if code < 4 then none
  else (hidKeys[code.toNat - 4]?).map fun c =>
    if (if code < 0x1e then caps != shift else shift) then c.2 else c.1

def isLock (code : UInt8) : Bool := code = numLock || code = capsLock || code = scrollLock

def active (code : UInt8) : Bool := (charOf false false code).isSome || isLock code

/-- What a key that is pressed does to the locks and the characters. -/
def press (shift : Bool) (t : Locks × List UInt8) (code : UInt8) : Locks × List UInt8 :=
  match t.1.switch code with
  | some locks => (locks, t.2)
  | none => (t.1, t.2 ++ (charOf t.1.caps shift code).toList)

/-- The keys of a report that were not in the one before, slot by slot. -/
def fresh (old new : Report) : List UInt8 := new.list.filter fun c => c > 3 ∧ c ∉ old.list

/-- A key of the report before is no longer down. -/
def Releases (old new : Report) : Prop := ∃ c ∈ old.list, c > 3 ∧ c ∉ new.list

instance (old new : Report) : Decidable (Releases old new) :=
  inferInstanceAs (Decidable (∃ c ∈ old.list, _))

/-- What a report should do: each key that is new in it is pressed once. There may be one more
character, of a key that has been in the first slot of `held` reports behind its first one. -/
structure Decoded (new : Report) (held : ℕ) (s s' : KbdIrq) : Prop where
  old : s'.old = new
  typed : ∃ codes chars rep : List UInt8, codes.Nodup ∧
    (∀ c, c ∈ codes ↔ c ∈ fresh s.old new ∧ active c) ∧
    codes.foldl (press (shifted new.modifier)) (s.locks, []) = (s'.locks, chars) ∧
    s'.queued = s.queued ++ chars ++ rep ∧
    (rep = [] ∨ ∃ c, rep = [c] ∧ charOf s'.locks.caps (shifted new.modifier) (new.keys 0) = some c ∧
      s.old.keys 0 = new.keys 0 ∧ repeatDelay ≤ held)

def Decodes : KbdIrq → ℕ → List Report → Prop
  | _, _, [] => True
  | s, held, new :: reports =>
    let held := if s.old.keys 0 = new.keys 0 then held + 1 else 0
    ∃ s', usbKbdIrq s 0 8 new = .ok s' ∧ Decoded new held s s' ∧ Decodes s' held reports

structure Usual (s : KbdIrq) (new : Report) : Prop where
  /-- neither `z` nor the caps lock is pressed -/
  inRange : ∀ c ∈ fresh s.old new, c ≠ 0x1d ∧ c ≠ capsLock
  /-- a key that is pressed is in one slot only -/
  once : ((fresh s.old new).filter active).Nodup
  /-- a key comes into the first slot when no delay is running, or with a release -/
  delay : (charOf false false (new.keys 0)).isSome = true → s.old.keys 0 ≠ new.keys 0 →
    s.delay = 0 ∨ Releases s.old new

def AllUsual : KbdIrq → List Report → Prop
  | _, [] => True
  | s, new :: reports =>
    Usual s new ∧ ∀ s', usbKbdIrq s 0 8 new = .ok s' → AllUsual s' reports

section
variable {old new : Report} {s s' : KbdIrq} {r : Bool × KbdIrq} {code modifier : UInt8}
  {caps shift : Bool} {locks : Locks} {chars : List UInt8} {codes : List UInt8} {held : ℕ}

/-! ## One key -/

theorem keycode_all : ∀ n : Fin 256, ∀ caps shift : Bool, UInt8.ofNat n ≠ capsLock →
    keycode caps shift (UInt8.ofNat n) = .ok (if UInt8.ofNat n = 0x1d then 0
      else (charOf caps shift (UInt8.ofNat n)).getD 0) ∧
    charOf caps shift (UInt8.ofNat n) ≠ some 0 := by
  decide +kernel

variable (caps shift) in
/-- `keycode` is the character of the key, except for `z`. -/
theorem keycode_eq (hcaps : code ≠ capsLock) : keycode caps shift code =
    .ok (if code = 0x1d then 0 else (charOf caps shift code).getD 0) := by
  have hall := keycode_all ⟨code.toNat, code.toNat_lt⟩ caps shift
  simp only [UInt8.ofNat_toNat] at hall
  exact (hall hcaps).1

theorem charOf_ne_zero : charOf caps shift code ≠ some 0 := by
  rcases eq_or_ne code capsLock with rfl | hcaps
  · cases caps <;> cases shift <;> decide
  · have hall := keycode_all ⟨code.toNat, code.toNat_lt⟩ caps shift
    simp only [UInt8.ofNat_toNat] at hall
    exact (hall hcaps).2

variable (caps shift code) in
theorem charOf_isSome : (charOf caps shift code).isSome = (charOf false false code).isSome := by
  rw [charOf, charOf]
  split
  · rfl
  · rw [Option.isSome_map, Option.isSome_map]

variable (locks code) in
theorem switch_isSome : (locks.switch code).isSome = isLock code := by
  rw [Locks.switch, isLock]
  split_ifs with h1 h2 h3 <;> simp_all

/-- A key without character and lock does nothing. -/
theorem press_of_not_active (h : active code = false) (t : Locks × List UInt8) :
    press shift t code = t := by
  rw [active, Bool.or_eq_false_iff] at h
  obtain ⟨hchar, hlock⟩ := h
  rw [← charOf_isSome code t.1.caps shift, Option.isSome_eq_false_iff,
    Option.isNone_iff_eq_none] at hchar
  rw [← switch_isSome code t.1, Option.isSome_eq_false_iff,
    Option.isNone_iff_eq_none] at hlock
  rw [press, hlock, hchar]
  exact Prod.ext rfl (List.append_nil _)

theorem foldl_press_filter (codes : List UInt8) (t : Locks × List UInt8) :
    (codes.filter active).foldl (press shift) t = codes.foldl (press shift) t := by
  induction codes generalizing t with
  | nil => rfl
  | cons c codes ih =>
    rw [List.filter_cons, List.foldl_cons]
    split
    · exact ih _
    · rename_i h
      rw [press_of_not_active (by simpa using h), ih]

variable (shift) in
theorem foldl_press_append (codes : List UInt8) (locks : Locks) (front chars : List UInt8) :
    codes.foldl (press shift) (locks, front ++ chars) =
      ((codes.foldl (press shift) (locks, chars)).1,
        front ++ (codes.foldl (press shift) (locks, chars)).2) := by
  induction codes generalizing locks chars with
  | nil => rfl
  | cons c codes ih =>
    rw [List.foldl_cons, List.foldl_cons, press, press]
    dsimp only
    cases locks.switch c with
    | some locks => exact ih locks chars
    | none =>
      dsimp only
      rw [List.append_assoc]
      exact ih locks _

variable (s modifier) in
theorem translate_fresh (hz : code ≠ 0x1d) (hcaps : code ≠ capsLock) :
    ∃ res s', usbKbdTranslate s code modifier .fresh = .ok (res, s') ∧ s'.old = s.old ∧
      s'.delay = s.delay ∧
      (s'.locks, s'.queued) = press (shifted modifier) (s.locks, s.queued) code := by
  rw [usbKbdTranslate, translateDown, keycode_eq _ _ hcaps, if_neg hz, if_pos rfl, press]
  dsimp only [bind, Except.bind]
  cases hswitch : s.locks.switch code with
  | some locks => exact ⟨true, { s with locks }, rfl, rfl, rfl, rfl⟩
  | none =>
    cases hchar : charOf s.locks.caps (shifted modifier) code with
    | none => exact ⟨false, s, rfl, rfl, rfl, Prod.ext rfl (List.append_nil _).symm⟩
    | some c =>
      have hne : c ≠ 0 := fun h0 => charOf_ne_zero (h0 ▸ hchar)
      refine ⟨false, { s with queued := s.queued ++ [c] }, ?_, rfl, rfl, rfl⟩
      dsimp only [Option.getD_some]
      rw [if_pos hne]
      rfl

theorem translateDown_still {c : UInt8}
    (h : keycode s.locks.caps (shifted modifier) code = .ok c) :
    translateDown s code modifier .still =
      .ok (false, if c ≠ 0 then { s with queued := s.queued ++ [c] } else s) := by
  rw [translateDown, h]
  rfl

variable (s modifier) in
theorem translate_still (hcaps : code ≠ capsLock) :
    ∃ res s' rep, usbKbdTranslate s code modifier .still = .ok (res, s') ∧ s'.old = s.old ∧
      s'.delay ≤ s.delay + 1 ∧ s'.locks = s.locks ∧ s'.queued = s.queued ++ rep ∧
      (rep = [] ∨ ∃ c, rep = [c] ∧ charOf s.locks.caps (shifted modifier) code = some c ∧
        repeatDelay ≤ s.delay + 1) := by
  rw [usbKbdTranslate]
  split_ifs with hdelay
  · exact ⟨_, _, [], rfl, rfl, le_rfl, rfl, (List.append_nil _).symm, .inl rfl⟩
  · have hle : repeatDelay ≤ s.delay + 1 := by omega
    have hkey := keycode_eq s.locks.caps (shifted modifier) hcaps
    rw [translateDown_still (s := { s with delay := repeatDelay }) hkey]
    split_ifs with hz hne hne
    · exact absurd rfl hne
    · exact ⟨_, _, [], rfl, rfl, hle, rfl, (List.append_nil _).symm, .inl rfl⟩
    · obtain ⟨c, hchar⟩ : ∃ c, charOf s.locks.caps (shifted modifier) code = some c := by
        cases hchar : charOf s.locks.caps (shifted modifier) code with
        | none =>
          rw [hchar] at hne
          exact absurd rfl hne
        | some c => exact ⟨c, rfl⟩
      rw [hchar]
      exact ⟨_, _, [c], rfl, rfl, hle, rfl, rfl, .inr ⟨c, rfl, rfl, hle⟩⟩
    · exact ⟨_, _, [], rfl, rfl, hle, rfl, (List.append_nil _).symm, .inl rfl⟩

/-! ## The slots -/

/-- What a slot does: a key that is no longer down stops the delay, one that is new is pressed. -/
theorem slot_ok {i : Fin 6} (hok : new.keys i > 3 → new.keys i ∉ old.list →
      new.keys i ≠ 0x1d ∧ new.keys i ≠ capsLock) (r : Bool × KbdIrq) :
    ∃ r', slot old new r i = .ok r' ∧ r'.2.old = r.2.old ∧
      r'.2.delay = (if old.keys i > 3 ∧ old.keys i ∉ new.list then 0 else r.2.delay) ∧
      (r'.2.locks, r'.2.queued) = if new.keys i > 3 ∧ new.keys i ∉ old.list then
        press (shifted new.modifier) (r.2.locks, r.2.queued) (new.keys i)
      else (r.2.locks, r.2.queued) := by
  rw [slot]
  split_ifs with hrel hfresh hfresh
  · obtain ⟨hz, hcaps⟩ := hok hfresh.1 hfresh.2
    obtain ⟨res, s', htrans, hold, hdelay, htyped⟩ :=
      translate_fresh ⟨r.2.old, 0, r.2.locks, r.2.leds, r.2.queued⟩ new.modifier hz hcaps
    rw [usbKbdTranslate] at htrans
    refine ⟨(r.1 || false || res, s'), ?_, hold, hdelay, htyped⟩
    dsimp only [usbKbdTranslate, bind, Except.bind, pure, Except.pure]
    rw [htrans]
  · exact ⟨_, rfl, rfl, rfl, rfl⟩
  · obtain ⟨hz, hcaps⟩ := hok hfresh.1 hfresh.2
    obtain ⟨res, s', htrans, hold, hdelay, htyped⟩ :=
      translate_fresh r.2 new.modifier hz hcaps
    refine ⟨(r.1 || res, s'), ?_, hold, hdelay, htyped⟩
    dsimp only [bind, Except.bind, pure, Except.pure]
    rw [htrans]
  · exact ⟨_, rfl, rfl, rfl, rfl⟩

variable (old new) in
theorem slots_ok (is : List (Fin 6)) (hok : ∀ i ∈ is, new.keys i > 3 → new.keys i ∉ old.list →
      new.keys i ≠ 0x1d ∧ new.keys i ≠ capsLock) (r : Bool × KbdIrq) :
    ∃ r', is.foldlM (slot old new) r = .ok r' ∧ r'.2.old = r.2.old ∧
      r'.2.delay ≤ r.2.delay ∧
      ((∃ i ∈ is, old.keys i > 3 ∧ old.keys i ∉ new.list) → r'.2.delay = 0) ∧
      (r'.2.locks, r'.2.queued) = ((is.map new.keys).filter fun c => c > 3 ∧ c ∉ old.list).foldl
        (press (shifted new.modifier)) (r.2.locks, r.2.queued) := by
  induction is generalizing r with
  | nil => exact ⟨r, rfl, rfl, le_rfl, fun h => absurd h (by simp), rfl⟩
  | cons i is ih =>
    obtain ⟨hi, his⟩ := List.forall_mem_cons.mp hok
    obtain ⟨r1, hr1, hold1, hdelay1, htyped1⟩ := slot_ok hi r
    obtain ⟨r2, hr2, hold2, hdelay2, hrel2, htyped2⟩ := ih his r1
    refine ⟨r2, ?_, hold2.trans hold1, ?_, ?_, ?_⟩
    · rw [List.foldlM_cons, hr1]
      exact hr2
    · split at hdelay1 <;> omega
    · rintro ⟨j, hj, hrel⟩
      rcases List.mem_cons.mp hj with rfl | hj
      · rw [if_pos hrel] at hdelay1
        omega
      · exact hrel2 ⟨j, hj, hrel⟩
    · rw [htyped2, htyped1, List.map_cons, List.filter_cons]
      by_cases hfresh : new.keys i > 3 ∧ new.keys i ∉ old.list
      · rw [if_pos hfresh, if_pos (decide_eq_true hfresh), List.foldl_cons]
      · rw [if_neg hfresh, if_neg (by simpa using hfresh)]

/-! ## A report -/

theorem map_keys : (List.finRange 6).map new.keys = new.list := (List.ofFn_eq_map ..).symm

theorem report_slots (h : Usual s new) :
    ∃ r, (List.finRange 6).foldlM (slot s.old new) (false, s) = .ok r ∧ r.2.delay ≤ s.delay ∧
      (Releases s.old new → r.2.delay = 0) ∧
      (r.2.locks, r.2.queued) =
        (fresh s.old new).foldl (press (shifted new.modifier)) (s.locks, s.queued) := by
  obtain ⟨r, hr, -, hdelay, hrel, htyped⟩ := slots_ok s.old new (List.finRange 6)
    (fun i _ hlt hnew => h.inRange _ (List.mem_filter.mpr
      ⟨List.mem_ofFn.mpr ⟨i, rfl⟩, decide_eq_true ⟨hlt, hnew⟩⟩)) (false, s)
  refine ⟨r, hr, hdelay, ?_, ?_⟩
  · rintro ⟨c, hc, hlt, hnew⟩
    obtain ⟨i, rfl⟩ := List.mem_ofFn.mp hc
    exact hrel ⟨i, List.mem_finRange i, hlt, hnew⟩
  · rwa [map_keys] at htyped

/-- What holds between reports: the caps lock is not down, and the delay of a key in the first slot
is that of this key. -/
structure KbdIrq.Inv (s : KbdIrq) (held : ℕ) : Prop where
  caps : capsLock ∉ s.old.list
  delay : (charOf false false (s.old.keys 0)).isSome = true → s.delay ≤ held

/-- A key of the usual kind in the new report is not the caps lock. -/
theorem caps_not_mem (h : Usual s new) (hinv : s.Inv held) : capsLock ∉ new.list := fun hmem =>
  (h.inRange capsLock (List.mem_filter.mpr
    ⟨hmem, decide_eq_true ⟨by decide, hinv.caps⟩⟩)).2 rfl

theorem gt_of_isSome (h : (charOf caps shift code).isSome = true) : code > 3 := by
  rw [charOf] at h
  split at h
  · cases h
  · rename_i hlt
    rw [UInt8.lt_iff_toNat_lt] at hlt
    rw [gt_iff_lt, UInt8.lt_iff_toNat_lt]
    have h3 : (3 : UInt8).toNat = 3 := rfl
    have h4 : (4 : UInt8).toNat = 4 := rfl
    omega

theorem exists_codes (h : Usual s new)
    (htyped : (r.2.locks, r.2.queued) =
      (fresh s.old new).foldl (press (shifted new.modifier)) (s.locks, s.queued)) :
    ∃ codes chars : List UInt8, codes.Nodup ∧
      (∀ c, c ∈ codes ↔ c ∈ fresh s.old new ∧ active c) ∧
      codes.foldl (press (shifted new.modifier)) (s.locks, []) = (r.2.locks, chars) ∧
      r.2.queued = s.queued ++ chars := by
  have happ := foldl_press_append (shifted new.modifier) (fresh s.old new) s.locks s.queued []
  rw [List.append_nil, ← htyped] at happ
  obtain ⟨hlocks, hqueued⟩ := Prod.mk.inj happ
  refine ⟨(fresh s.old new).filter active, _, h.once, fun c => List.mem_filter, ?_, hqueued⟩
  rw [foldl_press_filter, hlocks]

theorem usbKbdIrq_eq (hr : (List.finRange 6).foldlM (slot s.old new) (false, s) = .ok r) :
    usbKbdIrq s 0 8 new = (do
      let r ←
        if new.keys 0 > 3 ∧ s.old.keys 0 = new.keys 0 then do
          let t ← usbKbdTranslate r.2 (new.keys 0) new.modifier .still
          pure (r.1 || t.1, t.2)
        else pure r
      let s := if r.1 then { r.2 with leds := r.2.locks.leds } else r.2
      return { s with old := new }) := by
  rw [usbKbdIrq, hr]
  rfl

/-- **One report.** -/
theorem usbKbdIrq_decoded (h : Usual s new) (hinv : s.Inv held) :
    let held' := if s.old.keys 0 = new.keys 0 then held + 1 else 0
    ∃ s', usbKbdIrq s 0 8 new = .ok s' ∧ Decoded new held' s s' ∧ s'.Inv held' := by
  intro held'
  obtain ⟨r, hr, hdelay, hrel, htyped⟩ := report_slots h
  have hcaps := caps_not_mem h hinv
  obtain ⟨codes, chars, hnodup, hmem, hfold, hqueued⟩ := exists_codes h htyped
  rw [usbKbdIrq_eq hr]
  have hfirst : new.keys 0 ∈ new.list := List.mem_ofFn.mpr ⟨0, rfl⟩
  by_cases hstill : new.keys 0 > 3 ∧ s.old.keys 0 = new.keys 0
  · obtain ⟨res, s1, rep, htrans, -, hdelay1, hlocks, hqueued1, hrep⟩ :=
      translate_still r.2 new.modifier
        (fun heq : new.keys 0 = capsLock => hcaps (heq ▸ hfirst))
    have hheld : held' = held + 1 := if_pos hstill.2
    -- the delay is that of a key that has a character
    have hle (hchar : (charOf false false (new.keys 0)).isSome = true) : s1.delay ≤ held' ∧
        r.2.delay + 1 ≤ held' := by
      have hold := hinv.delay (hstill.2 ▸ hchar)
      omega
    rw [if_pos hstill, htrans]
    refine ⟨_, rfl, ⟨rfl, codes, chars, rep, hnodup, hmem, ?_, ?_, ?_⟩, hcaps, fun hchar => ?_⟩
    · rw [hfold]
      dsimp only
      split <;> rw [← hlocks]
    · dsimp only
      split <;> rw [hqueued1, hqueued]
    · refine hrep.imp_right ?_
      rintro ⟨c, hc, hchar, hover⟩
      refine ⟨c, hc, ?_, hstill.2, ?_⟩
      · dsimp only
        split <;> rw [hlocks, hchar]
      · have hsome : (charOf false false (new.keys 0)).isSome = true := by
          rw [← charOf_isSome, hchar]
          rfl
        exact hover.trans (hle hsome).2
    · dsimp only
      split <;> exact (hle hchar).1
  · rw [if_neg hstill]
    refine ⟨_, rfl, ⟨rfl, codes, chars, [], hnodup, hmem, ?_, ?_, .inl rfl⟩, hcaps,
      fun hchar => ?_⟩
    · rw [hfold]
      dsimp only
      split <;> rfl
    · rw [List.append_nil]
      dsimp only
      split <;> exact hqueued
    · -- another key is in the first slot, and the delay has been stopped
      have hne : s.old.keys 0 ≠ new.keys 0 := fun heq => hstill ⟨gt_of_isSome hchar, heq⟩
      have hzero : r.2.delay = 0 := by
        rcases h.delay hchar hne with hd | hd
        · omega
        · exact hrel hd
      have hstops : r.2.delay ≤ held' := hzero.trans_le (Nat.zero_le _)
      dsimp only
      split <;> exact hstops

theorem decodes_of_usual (reports : List Report) (hinv : s.Inv held) (h : AllUsual s reports) :
    Decodes s held reports := by
  induction reports generalizing s held with
  | nil => trivial
  | cons new reports ih =>
    obtain ⟨hnew, hrest⟩ := h
    obtain ⟨s', hirq, hdec, hinv'⟩ := usbKbdIrq_decoded hnew hinv
    exact ⟨s', hirq, hdec, ih hinv' (hrest s' hirq)⟩

end

/-- **The characters of a keyboard**: in a run of reports of the usual kind each key that is new in
a report types its character, or switches its lock, once, a key in the first slot is repeated only
after the delay, and the tables are read inside. -/
theorem usb_kbd_irq_decodes (reports : List Report) (h : AllUsual kbdStart reports) :
    Decodes kbdStart 0 reports :=
  decodes_of_usual reports ⟨by decide, fun h => absurd h (by decide)⟩ h

/-- `a` goes down, then `b` beside it, both go up, and `c` comes with the shift. -/
def typing : List Report :=
  [⟨0, ![0x04, 0, 0, 0, 0, 0]⟩, ⟨0, ![0x04, 0x05, 0, 0, 0, 0]⟩, ⟨0, ![0, 0, 0, 0, 0, 0]⟩,
    ⟨0x02, ![0x06, 0, 0, 0, 0, 0]⟩]

theorem usb_kbd_irq_decodes_typing : Decodes kbdStart 0 typing := by
  refine usb_kbd_irq_decodes _ ⟨⟨by decide +kernel, by decide, by decide⟩, fun s hs => ?_⟩
  cases hs
  refine ⟨⟨by decide +kernel, by decide, by decide⟩, fun s hs => ?_⟩
  cases hs
  refine ⟨⟨by decide +kernel, by decide, by decide⟩, fun s hs => ?_⟩
  cases hs
  exact ⟨⟨by decide +kernel, by decide, by decide⟩, fun _ _ => trivial⟩

def typed (reports : List Report) : Option (List UInt8) :=
  (reports.foldlM (fun s new => usbKbdIrq s 0 8 new) kbdStart).toOption.map (·.queued)

/-- The caps lock makes the code read behind a table, `z` is not typed, an `a` in two slots is typed
twice, and a `b` in front of an `a` that is held is repeated by the next report. -/
theorem usb_kbd_irq_misses :
    ¬ Decodes kbdStart 0 [⟨0, ![0x39, 0, 0, 0, 0, 0]⟩] ∧
    typed [⟨0, ![0x1d, 0, 0, 0, 0, 0]⟩] = some [] ∧
    typed [⟨0, ![0x04, 0x04, 0, 0, 0, 0]⟩] = some [0x61, 0x61] ∧
    typed (List.replicate 10 ⟨0, ![0x04, 0, 0, 0, 0, 0]⟩ ++
      List.replicate 2 ⟨0, ![0x05, 0x04, 0, 0, 0, 0]⟩) = some [0x61, 0x62, 0x62] := by
  refine ⟨?_, by decide, by decide, by decide⟩
  rintro ⟨s', hirq, -⟩
  have hfails : (usbKbdIrq kbdStart 0 8 ⟨0, ![0x39, 0, 0, 0, 0, 0]⟩).toOption.isNone := by
    decide
  rw [hirq] at hfails
  cases hfails

end UBoot.Usb.Keys
