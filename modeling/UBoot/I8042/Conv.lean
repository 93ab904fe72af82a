import UBoot.Common.Strings
import UBoot.Lib.Flags

/-!
# Scan codes of the PC keyboard (`drivers/i8042.c`)

`kbd_conv_char` takes the scan codes one by one. It keeps the state of the shift and lock keys in
the flag word `kbd_flags` and in `kbd_state`, the column of the key map, and leaves a character in
`kbd_input`. The history `produced` is what it has left there.
-/

namespace UBoot.I8042

open Lib Common

/-! ## Key maps -/

/-- Indices of the function map; the first five are also columns of the key map. -/
abbrev as : UInt8 := 0
abbrev sh : UInt8 := 1
abbrev cn : UInt8 := 2
abbrev nm : UInt8 := 3
abbrev ak : UInt8 := 4
abbrev cp : UInt8 := 5
abbrev st : UInt8 := 6
abbrev ex : UInt8 := 7
abbrev es : UInt8 := 8

/-- `kbd_fct_map`, its last 16 entries for the extended codes. -/
def kbdFctMap : List UInt8 :=
  List.replicate 29 as ++ [cn] ++ List.replicate 12 as ++ [sh] ++ List.replicate 11 as ++ [sh] ++
  [as, as, as, cp] ++ List.replicate 10 0 ++ [nm, st] ++ List.replicate 13 es ++
  List.replicate 44 0 ++ [as, cn, as, as, ak, st, ex, ex, as, ex, ex, as, ex, as, ex, ex]

def usUnshift : List UInt8 :=
  [0, 0x1b] ++ ascii "1234567890-=" ++ [0x8, 0x9] ++ ascii "qwertyuiop[]" ++ [0xd, cn] ++
  ascii "asdfghjkl;'`" ++ [sh] ++ ascii "\\zxcvbnm,./" ++ [sh] ++ ascii "*  " ++ [cp] ++
  List.replicate 10 0 ++ [nm, st] ++ ascii "789-456+1230." ++ List.replicate 44 0 ++ [0xd, cn] ++
  ascii "/* " ++ [st] ++ ascii "FA" ++ [0] ++ ascii "DC" ++ [0] ++ ascii "B" ++ [0] ++ ascii "@P"

def usShift : List UInt8 :=
  [0, 0x1b] ++ ascii "!@#$%^&*()_+" ++ [0x8, 0x9] ++ ascii "QWERTYUIOP\x7b\x7d" ++ [0xd, cn] ++
  ascii "ASDFGHJKL:\"~" ++ [sh] ++ ascii "|ZXCVBNM<>?" ++ [sh] ++ ascii "*  " ++ [cp] ++
  List.replicate 10 0 ++ [nm, st] ++ ascii "789-456+1230." ++ List.replicate 44 0 ++ [0xd, cn] ++
  ascii "/* " ++ [st] ++ ascii "FA" ++ [0] ++ ascii "DC" ++ [0] ++ ascii "B" ++ [0] ++ ascii "@P"

def control : List UInt8 :=
  [0xff, 0x1b, 0xff, 0x00, 0xff, 0xff, 0xff, 0xff, 0x1e, 0xff, 0xff, 0xff, 0x1f, 0xff, 0xff, 0x09,
    0x11, 0x17, 0x05, 0x12, 0x14, 0x19, 0x15, 0x09, 0x0f, 0x10, 0x1b, 0x1d, 0x0d, cn, 0x01, 0x13,
    0x04, 0x06, 0x07, 0x08, 0x0a, 0x0b, 0x0c, 0xff, 0xff, 0x1c, sh, 0xff, 0x1a, 0x18, 0x03, 0x16,
    0x02, 0x0e, 0x0d, 0xff, 0xff, 0xff, sh, 0xff, 0xff, 0xff, cp] ++
  List.replicate 10 0xff ++ [nm, st] ++ List.replicate 57 0xff ++ [0x0d, cn] ++ ascii "/* " ++
  [st] ++ List.replicate 10 0xff

def usNonNumeric : List UInt8 :=
  [0, 0x1b] ++ ascii "1234567890-=" ++ [0x8, 0x9] ++ ascii "qwertyuiop[]" ++ [0xd, cn] ++
  ascii "asdfghjkl;'`" ++ [sh] ++ ascii "\\zxcvbnm,./" ++ [sh] ++ ascii "*  " ++ [cp] ++
  List.replicate 10 0 ++ [nm, st] ++ ascii "wxyltuvmqrspn" ++ List.replicate 44 0 ++ [0xd, cn] ++
  ascii "/* " ++ [st] ++ ascii "FA" ++ [0] ++ ascii "DC" ++ [0] ++ ascii "B" ++ [0] ++ ascii "@P"

def usRightAlt : List UInt8 :=
  List.replicate 144 0xff

def gerUnshift : List UInt8 :=
  [0, 0x1b] ++ ascii "1234567890" ++ [0xe1] ++ ascii "'" ++ [0x8, 0x9] ++ ascii "qwertzuiop" ++
  [0x81] ++ ascii "+" ++ [0xd, cn] ++ ascii "asdfghjkl" ++ [0x94, 0x84] ++ ascii "^" ++ [sh] ++
  ascii "#yxcvbnm,.-" ++ [sh] ++ ascii "*  " ++ [cp] ++ List.replicate 10 0 ++ [nm, st] ++
  ascii "789-456+1230," ++ [0, 0] ++ ascii "<" ++ List.replicate 41 0 ++ [0xd, cn] ++ ascii "/* " ++
  [st] ++ ascii "FA" ++ [0] ++ ascii "DC" ++ [0] ++ ascii "B" ++ [0] ++ ascii "@P"

def gerShift : List UInt8 :=
  [0, 0x1b] ++ ascii "!\"" ++ [0x15] ++ ascii "$%&/()=?`" ++ [0x8, 0x9] ++ ascii "QWERTZUIOP" ++
  [0x9a] ++ ascii "*" ++ [0xd, cn] ++ ascii "ASDFGHJKL" ++ [0x99, 0x8e, 0xf8, sh] ++
  ascii "'YXCVBNM;:_" ++ [sh] ++ ascii "*  " ++ [cp] ++ List.replicate 10 0 ++ [nm, st] ++
  ascii "789-456+1230," ++ [0, 0] ++ ascii ">" ++ List.replicate 41 0 ++ [0xd, cn] ++ ascii "/* " ++
  [st] ++ ascii "FA" ++ [0] ++ ascii "DC" ++ [0] ++ ascii "B" ++ [0] ++ ascii "@P"

def gerNonNumeric : List UInt8 :=
  [0, 0x1b] ++ ascii "1234567890" ++ [0xe1] ++ ascii "'" ++ [0x8, 0x9] ++ ascii "qwertzuiop" ++
  [0x81] ++ ascii "+" ++ [0xd, cn] ++ ascii "asdfghjkl" ++ [0x94, 0x84] ++ ascii "^" ++ [sh, 0] ++
  ascii "yxcvbnm,.-" ++ [sh] ++ ascii "*  " ++ [cp] ++ List.replicate 10 0 ++ [nm, st] ++
  ascii "wxyltuvmqrspn" ++ [0, 0] ++ ascii "<" ++ List.replicate 41 0 ++ [0xd, cn] ++ ascii "/* " ++
  [st] ++ ascii "FA" ++ [0] ++ ascii "DC" ++ [0] ++ ascii "B" ++ [0] ++ ascii "@P"

def gerRightAlt : List UInt8 :=
  List.replicate 8 0xff ++ ascii "\x7b[]\x7d\\" ++ [0xff, 0xff, 0xff] ++ ascii "@" ++
  List.replicate 10 0xff ++ ascii "~" ++ List.replicate 22 0xff ++ [0xe6] ++
  List.replicate 35 0xff ++ ascii "|" ++ List.replicate 57 0xff

/-- The keyboard layouts, `KBD_US` and `KBD_GER`. -/
inductive Mapping where
  | us
  | ger
  deriving DecidableEq

/-- `kbd_key_map[kbd_mapping][kbd_state]`. -/
def kbdKeyMap : Mapping → List (List UInt8)
  | .us => [usUnshift, usShift, control, usNonNumeric, usRightAlt]
  | .ger => [gerUnshift, gerShift, control, gerNonNumeric, gerRightAlt]

/-- The codes of `ext_key_map` before its end mark. -/
def extKeyMap : List UInt8 :=
  [0x1c, 0x1d, 0x35, 0x37, 0x38, 0x46, 0x47, 0x48, 0x49, 0x4b, 0x4d, 0x4f, 0x50, 0x51, 0x52, 0x53]

/-! ## The driver -/

/-- The flags in `kbd_flags`. -/
inductive Flag where
  | stp
  | num
  | caps
  | shift
  | ctrl
  | ext
  | e1
  | brk
  | alt
  deriving DecidableEq

def Flag.mask : Flag → BitVec 32
  | .stp => 0x0001
  | .num => 0x0002
  | .caps => 0x0004
  | .shift => 0x0008
  | .ctrl => 0x0010
  | .ext => 0x0020
  | .e1 => 0x0080
  | .brk => 0x0100
  | .alt => 0x0200

/-- The static variables. `kbd_input` is -1 when there is no input: `none` here. `leds` are the
LED bits sent to the keyboard and `produced` the characters that were assigned to `kbd_input`. -/
structure Kbd where
  kbdInput : Option UInt8
  kbdMapping : Mapping
  kbdFlags : BitVec 32
  kbdState : UInt8
  leds : List (BitVec 32)
  produced : List UInt8

/-- `kbd_input = chr`. -/
def Kbd.input (k : Kbd) (chr : UInt8) : Kbd :=
  { k with kbdInput := some chr, produced := k.produced ++ [chr] }

def kbdLedSet (k : Kbd) : Kbd := { k with leds := k.leds ++ [k.kbdFlags &&& 0x7] }

def Kbd.keyAt (k : Kbd) (scanCode : UInt8) : UInt8 :=
  ((kbdKeyMap k.kbdMapping).getD k.kbdState.toNat []).getD scanCode.toNat 0

/-- With caps lock lower case becomes upper case. -/
def capsed (flags : BitVec 32) (chr : UInt8) : UInt8 :=
  if flags &&& Flag.caps.mask = Flag.caps.mask ∧ 0x61 ≤ chr ∧ chr ≤ 0x7a then chr - (0x61 - 0x41)
  else chr

def kbdNormal (scanCode : UInt8) (k : Kbd) : Kbd :=
  if k.kbdFlags &&& Flag.brk.mask = 0 then
    let chr := k.keyAt scanCode
    if chr = 0xff ∨ chr = 0x00 then k else k.input (capsed k.kbdFlags chr)
  else k

def kbdShift (k : Kbd) : Kbd :=
  if k.kbdFlags &&& Flag.brk.mask = Flag.brk.mask then
    { k with kbdState := as, kbdFlags := k.kbdFlags &&& ~~~Flag.shift.mask }
  else { k with kbdState := sh, kbdFlags := k.kbdFlags ||| Flag.shift.mask }

def kbdCtrl (k : Kbd) : Kbd :=
  if k.kbdFlags &&& Flag.brk.mask = Flag.brk.mask then
    { k with kbdState := as, kbdFlags := k.kbdFlags &&& ~~~Flag.ctrl.mask }
  else { k with kbdState := cn, kbdFlags := k.kbdFlags ||| Flag.ctrl.mask }

def kbdCaps (k : Kbd) : Kbd :=
  if k.kbdFlags &&& Flag.brk.mask = 0 then
    kbdLedSet { k with kbdFlags := k.kbdFlags ^^^ Flag.caps.mask }
  else k

def kbdNum (k : Kbd) : Kbd :=
  if k.kbdFlags &&& Flag.brk.mask = 0 then
    let flags := k.kbdFlags ^^^ Flag.num.mask
    kbdLedSet { k with
      kbdFlags := flags
      kbdState := if flags &&& Flag.num.mask ≠ 0 then as else nm }
  else k

def kbdScroll (k : Kbd) : Kbd :=
  if k.kbdFlags &&& Flag.brk.mask = 0 then
    let k := kbdLedSet { k with kbdFlags := k.kbdFlags ^^^ Flag.stp.mask }
    if k.kbdFlags &&& Flag.stp.mask ≠ 0 then k.input 0x13 else k.input 0x11
  else k

def kbdAlt (k : Kbd) : Kbd :=
  if k.kbdFlags &&& Flag.brk.mask = Flag.brk.mask then
    { k with kbdState := as, kbdFlags := k.kbdFlags &&& ~~~Flag.alt.mask }
  else { k with kbdState := ak, kbdFlags := k.kbdFlags &&& Flag.alt.mask }

/-- The `switch` of `kbd_conv_char`. -/
def kbdFct (fct scanCode : UInt8) (k : Kbd) : Kbd :=
  if fct = as then kbdNormal scanCode k
  else if fct = sh then kbdShift k
  else if fct = cn then kbdCtrl k
  else if fct = nm then kbdNum k
  else if fct = cp then kbdCaps k
  else if fct = st then kbdScroll k
  else if fct = ak then kbdAlt k
  else k

/-- The break flag follows the high bit of the scan code. -/
def setBrk (flags : BitVec 32) (scanCode : UInt8) : BitVec 32 :=
  if scanCode &&& 0x80 ≠ 0 then flags ||| Flag.brk.mask else flags &&& ~~~Flag.brk.mask

def kbdConvChar (k : Kbd) (scanCode : UInt8) : Kbd :=
  if scanCode = 0xe0 then { k with kbdFlags := k.kbdFlags ||| Flag.ext.mask }
  else
    let k := { k with kbdFlags := setBrk k.kbdFlags scanCode }
    if scanCode = 0xe1 ∨ k.kbdFlags &&& Flag.e1.mask ≠ 0 then
      if scanCode = 0xe1 then
        { k with kbdFlags := k.kbdFlags ^^^ Flag.brk.mask ^^^ Flag.e1.mask }
      else k
    else
      let code := scanCode &&& 0x7f
      if k.kbdFlags &&& Flag.ext.mask ≠ 0 then
        let k := { k with kbdFlags := k.kbdFlags ^^^ Flag.ext.mask }
        match extKeyMap.idxOf? code with
        | some i => kbdFct (kbdFctMap.getD (0x80 + i) 0) (0x80 + UInt8.ofNat i) k
        | none => k -- not found
      else kbdFct (kbdFctMap.getD code.toNat 0) code k

/-- The driver behind its first `i8042_kbd_init`. -/
def kbdInit (kbdMapping : Mapping) : Kbd := kbdLedSet ⟨none, kbdMapping, 0, 0, [], []⟩

end UBoot.I8042
