import UBoot.Lib.Ring
import UBoot.Lib.Runs

/-!
# The queue of the USB keyboard (`common/usb_kbd.c`)

`usb_kbd_put_queue` is called from the report decoding of an interrupt and
`usb_kbd_getc` from the console. Both indices are moved on before the slot they then
designate is used, so the characters pending lie behind `usb_out_pointer` and up to
`usb_in_pointer`. `usb_kbd_getc` is cut where an interrupt can come between two
accesses to what both share; a sequence of whole calls is the case in which none does.

`usb_kbd_fifo`: the buffer is a queue of `USB_KBD_BUFFER_LEN - 1` characters.
-/

namespace UBoot.Usb

open Lib

def usbKbdBufferLen : Nat := 0x20

structure Kbd where
  usbKbdBuffer : Nat → UInt8
  usbInPointer : Nat
  usbOutPointer : Nat

/-- `usb_kbd_buffer[usb_in_pointer]=data`. -/
def Kbd.store (k : Kbd) (data : UInt8) : Kbd :=
  { k with usbKbdBuffer := Function.update k.usbKbdBuffer k.usbInPointer data }

def usbKbdPutQueue (k : Kbd) (data : UInt8) : Kbd :=
  if k.usbInPointer + 1 = usbKbdBufferLen then
    if k.usbOutPointer = 0 then
      k -- buffer full
    else
      { k with usbInPointer := 0 }.store data
  else if k.usbInPointer + 1 = k.usbOutPointer then
    k -- buffer full
  else
    { k with usbInPointer := k.usbInPointer + 1 }.store data

/-- Where `usb_kbd_getc` stands. -/
inductive Getc where
  /-- not called -/
  | idle
  /-- in the loop that waits for a character -/
  | wait
  /-- behind the loop -/
  | next
  /-- `usb_out_pointer` is moved on -/
  | read
  deriving DecidableEq

/-- The state of the driver with its history: `accepted` are the characters put while fewer than
`USB_KBD_BUFFER_LEN - 1` were pending, `returned` those `usb_kbd_getc` returned. -/
structure KbdState where
  kbd : Kbd
  getc : Getc
  accepted : List UInt8
  returned : List UInt8

/-- The number of characters `usb_kbd_getc` has taken out of the queue. -/
def KbdState.taken (s : KbdState) : Nat :=
  s.returned.length + if s.getc = .read then 1 else 0

/-- The number of characters accepted and not taken. -/
def KbdState.pending (s : KbdState) : Nat := s.accepted.length - s.taken

/-- One step of `usb_kbd_getc`: the call, a turn of the loop, the move of the index, and the read
with the return. -/
def usbKbdGetc (s : KbdState) : KbdState :=
  match s.getc with
  | .idle => { s with getc := .wait }
  | .wait => if s.kbd.usbInPointer = s.kbd.usbOutPointer then s else { s with getc := .next }
  | .next =>
    if s.kbd.usbOutPointer + 1 = usbKbdBufferLen then
      { s with kbd := { s.kbd with usbOutPointer := 0 }, getc := .read }
    else
      { s with kbd := { s.kbd with usbOutPointer := s.kbd.usbOutPointer + 1 }, getc := .read }
  | .read =>
    { s with returned := s.returned ++ [s.kbd.usbKbdBuffer s.kbd.usbOutPointer], getc := .idle }

inductive KbdAction where
  /-- the report decoding has a character -/
  | put (data : UInt8)
  | testc
  | getc

/-- One step of the system; `usb_kbd_testc` only reads. -/
def kbdStep (s : KbdState) : KbdAction → KbdState
  | .put data =>
    { s with
      kbd := usbKbdPutQueue s.kbd data
      accepted :=
        if s.pending < usbKbdBufferLen - 1 then s.accepted ++ [data] else s.accepted }
  | .testc => s
  | .getc => usbKbdGetc s

/-- The state behind `drv_usb_kbd_init`, whatever the buffer holds. -/
def kbdInit (usbKbdBuffer : Nat → UInt8) : KbdState := ⟨⟨usbKbdBuffer, 0, 0⟩, .idle, [], []⟩

section
variable {k : Kbd} {s : KbdState} {data : UInt8}

theorem usbKbdPutQueue_eq : usbKbdPutQueue k data =
    if Ring.next usbKbdBufferLen k.usbInPointer = k.usbOutPointer then k
    else Kbd.store { k with usbInPointer := Ring.next usbKbdBufferLen k.usbInPointer } data := by
  unfold usbKbdPutQueue Ring.next
  by_cases hwrap : k.usbInPointer + 1 = usbKbdBufferLen
  · simp only [if_pos hwrap, @eq_comm _ 0]
  · simp only [if_neg hwrap]

def Kbd.used (k : Kbd) : Nat := Ring.used usbKbdBufferLen k.usbOutPointer k.usbInPointer

/-- The characters in the buffer: they begin behind `usb_out_pointer`. -/
def Kbd.unread (k : Kbd) : List UInt8 :=
  Ring.window k.usbKbdBuffer usbKbdBufferLen (Ring.next usbKbdBufferLen k.usbOutPointer) k.used

theorem Kbd.unread_length : k.unread.length = k.used := Ring.window_length

/-- The character at `usb_out_pointer`, once it is moved on and until it is returned. -/
def KbdState.inHand (s : KbdState) : List UInt8 :=
  if s.getc = .read then [s.kbd.usbKbdBuffer s.kbd.usbOutPointer] else []

/-- The invariant: the indices are in the buffer, which holds what was accepted and not taken. -/
structure KbdInv (s : KbdState) : Prop where
  in_lt : s.kbd.usbInPointer < usbKbdBufferLen
  out_lt : s.kbd.usbOutPointer < usbKbdBufferLen
  order : s.returned ++ s.inHand ++ s.kbd.unread = s.accepted
  next_ne : s.getc = .next → s.kbd.usbInPointer ≠ s.kbd.usbOutPointer

/-- The queue is full exactly when `usb_in_pointer` is the slot before `usb_out_pointer`. -/
theorem full_iff (hin : k.usbInPointer < usbKbdBufferLen)
    (hout : k.usbOutPointer < usbKbdBufferLen) :
    Ring.next usbKbdBufferLen k.usbInPointer = k.usbOutPointer ↔ k.used = usbKbdBufferLen - 1 := by
  unfold Kbd.used Ring.next Ring.used
  unfold usbKbdBufferLen at *
  split_ifs <;> omega

theorem KbdInv.pending_eq (h : KbdInv s) : s.pending = s.kbd.used := by
  have hlen := congrArg List.length h.order
  rw [List.length_append, List.length_append, Kbd.unread_length] at hlen
  have hhand : s.inHand.length = if s.getc = .read then 1 else 0 := by
    rw [KbdState.inHand]
    split_ifs <;> rfl
  rw [KbdState.pending, KbdState.taken]
  omega

/-- A character put into a queue that has room lies behind the others. -/
theorem unread_put (hin : k.usbInPointer < usbKbdBufferLen)
    (hout : k.usbOutPointer < usbKbdBufferLen)
    (hroom : Ring.next usbKbdBufferLen k.usbInPointer ≠ k.usbOutPointer) :
    (usbKbdPutQueue k data).unread = k.unread ++ [data] := by
  have hlt : k.used < usbKbdBufferLen := Ring.used_lt hout hin
  have hused : k.used + 1 < usbKbdBufferLen := by
    have := mt (full_iff hin hout).mpr hroom
    omega
  -- the slot behind the last character, counted from either index
  have hslot : Ring.next usbKbdBufferLen k.usbInPointer =
      (k.usbOutPointer + (k.used + 1)) % usbKbdBufferLen := by
    rw [← Ring.add_used hout hin]
    exact Ring.next_add (by decide)
  have hslot' : Ring.next usbKbdBufferLen k.usbInPointer =
      (Ring.next usbKbdBufferLen k.usbOutPointer + k.used) % usbKbdBufferLen := by
    rw [hslot, Ring.next_eq hout, Nat.mod_add_mod, Nat.add_assoc, Nat.add_comm 1]
  have hput : (usbKbdPutQueue k data).used = k.used + 1 := by
    rw [usbKbdPutQueue_eq, if_neg hroom]
    change Ring.used _ k.usbOutPointer (Ring.next _ k.usbInPointer) = _
    rw [hslot, Ring.used_add hout hused]
  rw [Kbd.unread, hput, usbKbdPutQueue_eq, if_neg hroom]
  change Ring.window (Function.update k.usbKbdBuffer (Ring.next _ k.usbInPointer) data) _
    (Ring.next _ k.usbOutPointer) _ = _
  rw [hslot', Ring.window_push hlt]
  rfl

/-- `usb_kbd_put_queue` leaves `usb_out_pointer` and its slot alone. -/
theorem put_outPointer : (usbKbdPutQueue k data).usbOutPointer = k.usbOutPointer ∧
    (usbKbdPutQueue k data).usbKbdBuffer k.usbOutPointer = k.usbKbdBuffer k.usbOutPointer := by
  rw [usbKbdPutQueue_eq]
  split_ifs with hfull
  · exact ⟨rfl, rfl⟩
  · exact ⟨rfl, Function.update_of_ne (Ne.symm hfull) _ _⟩

theorem put_inPointer (hin : k.usbInPointer < usbKbdBufferLen) :
    (usbKbdPutQueue k data).usbInPointer < usbKbdBufferLen := by
  rw [usbKbdPutQueue_eq]
  split_ifs
  · exact hin
  · exact Ring.next_lt hin

theorem KbdInv.put (h : KbdInv s) : KbdInv (kbdStep s (.put data)) := by
  obtain ⟨hout, hslot⟩ := @put_outPointer s.kbd data
  have hhand : (kbdStep s (.put data)).inHand = s.inHand := by
    unfold KbdState.inHand
    change (if s.getc = .read then [(usbKbdPutQueue s.kbd data).usbKbdBuffer
      (usbKbdPutQueue s.kbd data).usbOutPointer] else []) = _
    rw [hout, hslot]
  have horder : s.returned ++ s.inHand ++ (usbKbdPutQueue s.kbd data).unread =
      if s.pending < usbKbdBufferLen - 1 then s.accepted ++ [data] else s.accepted := by
    have hlt : s.kbd.used < usbKbdBufferLen := Ring.used_lt h.out_lt h.in_lt
    rw [h.pending_eq]
    by_cases hfull : Ring.next usbKbdBufferLen s.kbd.usbInPointer = s.kbd.usbOutPointer
    · rw [if_neg ((full_iff h.in_lt h.out_lt).mp hfull).not_lt, usbKbdPutQueue_eq, if_pos hfull]
      exact h.order
    · have hne := mt (full_iff h.in_lt h.out_lt).mpr hfull
      rw [if_pos (by omega), unread_put h.in_lt h.out_lt hfull, ← List.append_assoc, h.order]
  refine ⟨put_inPointer h.in_lt, ?_, ?_, fun hnext => ?_⟩
  · change (usbKbdPutQueue s.kbd data).usbOutPointer < _
    rw [hout]
    exact h.out_lt
  · rw [hhand]
    exact horder
  · -- a character put does not make the queue empty
    change (usbKbdPutQueue s.kbd data).usbInPointer ≠ (usbKbdPutQueue s.kbd data).usbOutPointer
    rw [hout, usbKbdPutQueue_eq]
    split_ifs with hfull
    · exact h.next_ne hnext
    · exact hfull

end

end UBoot.Usb
