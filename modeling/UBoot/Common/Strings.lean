import UBoot.Lib.Area

/-!
# String helpers of the monitor

* `simpleStrtoul` (`lib_generic/vsprintf.c`): the value, in 32 bits, and the rest of
  the string at which the conversion stopped.
* `strtoulFields`: the idiom `val = strtoul (s, &e, base); s = (*e) ? e+1 : e;` by
  which hardware and IP addresses are read.
* `copyFilename` (`net/net.c`): the string left in a buffer of `size` bytes.

A string is read as its bytes up to the NUL; past them there is only the NUL.
-/

namespace UBoot.Common

def ascii (s : String) : List UInt8 := s.toList.map fun c => UInt8.ofNat c.toNat

def isdigit (c : UInt8) : Bool := 48 ≤ c && c ≤ 57

def islower (c : UInt8) : Bool := 97 ≤ c && c ≤ 122

def isxdigit (c : UInt8) : Bool := isdigit c || (65 ≤ c && c ≤ 70) || (97 ≤ c && c ≤ 102)

/-- `isdigit(*cp) ? *cp-'0' : (islower(*cp) ? toupper(*cp) : *cp)-'A'+10`. -/
def digitValue (c : UInt8) : Nat :=
  if isdigit c then c.toNat - 48
  else (if islower c then c.toNat - 32 else c.toNat) - 65 + 10

/-- The conversion loop; `result` is an `unsigned long`. -/
def strtoulDigits (base : Nat) : List UInt8 → Nat → Nat × List UInt8
  | [], result => (result, [])
  | c :: cp, result =>
    if isxdigit c && digitValue c < base then
      strtoulDigits base cp ((result * base + digitValue c) % 2 ^ 32)
    else (result, c :: cp)

/-- `simple_strtoul`: a leading `0x` forces base 16, base 0 means 8 after a leading
`0` and 10 otherwise. -/
def simpleStrtoul (base : Nat) : List UInt8 → Nat × List UInt8
  | 48 :: 120 :: d :: cp =>
    if isxdigit d then strtoulDigits 16 (d :: cp) 0
    else strtoulDigits (if base = 0 then 8 else base) (120 :: d :: cp) 0
  | 48 :: cp => strtoulDigits (if base = 0 then 8 else base) cp 0
  | cp => strtoulDigits (if base = 0 then 10 else base) cp 0

/-- `k` numbers of a string, one separator character skipped after each. -/
def strtoulFields (base : Nat) : Nat → List UInt8 → List Nat
  | 0, _ => []
  | k + 1, s =>
    let (val, e) := simpleStrtoul base s
    val :: strtoulFields base k e.tail

/-- The six bytes of a hardware address; a null string gives zeros. -/
def parseEnetaddr (s : Option Lib.CStr) : List UInt8 :=
  match s with
  | some s => (strtoulFields 16 6 s.bytes).map UInt8.ofNat
  | none => List.replicate 6 0

/-- The four bytes of a dotted IP address, most significant first; a null string
gives address 0. -/
def parseIPaddr (s : Option Lib.CStr) : UInt32 :=
  match s with
  | some s => (strtoulFields 10 4 s.bytes).foldl
      (fun addr val => (addr <<< 8) ||| UInt32.ofNat (val % 256)) 0
  | none => 0

/-- `copy_filename`: a leading `"` is dropped and costs one byte of the size; the copy
ends at the NUL, at a `"` or when the buffer is full. -/
def copyFilename (src : List UInt8) (size : Nat) : List UInt8 :=
  match src with
  | 34 :: src => (src.takeWhile fun c => c ≠ 0 && c ≠ 34).take (size - 2)
  | src => (src.takeWhile fun c => c ≠ 0 && c ≠ 34).take (size - 1)

/-- The string at the front of a byte sequence. -/
def cstrAt (bytes : List UInt8) : List UInt8 := bytes.takeWhile (· ≠ 0)

theorem cstrAt_append {s rest : List UInt8} (h : (0 : UInt8) ∉ s) :
    cstrAt (s ++ 0 :: rest) = s := by
  have hs : ∀ c ∈ s, decide (c ≠ 0) = true := fun c hc => decide_eq_true (by rintro rfl; exact h hc)
  unfold cstrAt
  rw [List.takeWhile_append_of_pos hs]
  simp

end UBoot.Common
