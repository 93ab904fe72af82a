import Mathlib.Data.Nat.Init
import Mathlib.Tactic.SplitIfs
import UBoot.Lib.PowerPC

/-!
# The instruction table of the debugger (`common/bedbug.c`, `include/bedbug`)

`opcodes` is the table of instructions, with what `find_opcode` and `get_operand_value` read of it;
`findOpcode` is the binary search in it.
-/

namespace UBoot.Bedbug

open Lib.PowerPC (Word opcd xo)

/-- `enum OP_FIELD` -/
inductive Field where
  | aa | bd | bi | bo | crbD | crbA | crbB | crm | d | frC | frD | frS | imm | li | lk | mb | me
  | nb | oe | rA | rB | rc | rD | rS | sh | simm | sr | to | uimm | crfD | crfS | l | spr | tbr
  | cr2
  deriving DecidableEq

/-- The bits and the shift of an operand, in `operands`. -/
def Field.operand : Field → ℕ × ℕ
  | .aa => (1, 1)
  | .bd => (14, 2)
  | .bi => (5, 16)
  | .bo => (5, 21)
  | .crbD => (5, 21)
  | .crbA => (5, 16)
  | .crbB => (5, 11)
  | .crm => (8, 12)
  | .d => (15, 0)
  | .frC => (5, 6)
  | .frD => (5, 21)
  | .frS => (5, 21)
  | .imm => (4, 12)
  | .li => (24, 2)
  | .lk => (1, 0)
  | .mb => (5, 6)
  | .me => (5, 1)
  | .nb => (5, 11)
  | .oe => (1, 10)
  | .rA => (5, 16)
  | .rB => (5, 11)
  | .rc => (1, 0)
  | .rD => (5, 21)
  | .rS => (5, 21)
  | .sh => (5, 11)
  | .simm => (16, 0)
  | .sr => (4, 16)
  | .to => (5, 21)
  | .uimm => (16, 0)
  | .crfD => (3, 23)
  | .crfS => (3, 18)
  | .l => (1, 21)
  | .spr => (10, 11)
  | .tbr => (10, 11)
  | .cr2 => (0, 0)

/-- `struct opcode`, what is matched and the operands. -/
structure Opcode where
  opcode : Word
  mask : Word
  fields : List Field
  deriving DecidableEq

def makeOpcode (i : ℕ) : Word := BitVec.ofNat 32 ((i &&& 0x3f) <<< 26)

def iOpcode (i aa lk : ℕ) : Word :=
  makeOpcode i ||| BitVec.ofNat 32 ((aa &&& 0x1) <<< 1) ||| BitVec.ofNat 32 (lk &&& 0x1)

def iMask : Word := iOpcode 0x3f 0x1 0x1

def bOpcode (i aa lk : ℕ) : Word :=
  makeOpcode i ||| BitVec.ofNat 32 ((aa &&& 0x1) <<< 1) ||| BitVec.ofNat 32 (lk &&& 0x1)

def bMask : Word := bOpcode 0x3f 0x1 0x1

def scOpcode (i : ℕ) : Word := makeOpcode i ||| 0x2

def scMask : Word := scOpcode 0x3f

def dOpcode (i : ℕ) : Word := makeOpcode i

def dMask : Word := makeOpcode 0x3f

def xOpcode (i xo rc : ℕ) : Word :=
  makeOpcode i ||| BitVec.ofNat 32 ((xo &&& 0x3ff) <<< 1) ||| BitVec.ofNat 32 (rc &&& 0x1)

def xMask : Word := xOpcode 0x3f 0x3ff 0x1

def xlOpcode (i xo lk : ℕ) : Word :=
  makeOpcode i ||| BitVec.ofNat 32 ((xo &&& 0x3ff) <<< 1) ||| BitVec.ofNat 32 (lk &&& 0x1)

def xlMask : Word := xlOpcode 0x3f 0x3ff 0x1

def xfxOpcode (i xo rc : ℕ) : Word :=
  makeOpcode i ||| BitVec.ofNat 32 ((xo &&& 0x3ff) <<< 1) ||| BitVec.ofNat 32 (rc &&& 0x1)

def xfxMask : Word := xfxOpcode 0x3f 0x3ff 0x1

def xoOpcode (i xo oe rc : ℕ) : Word :=
  makeOpcode i ||| BitVec.ofNat 32 ((oe &&& 0x1) <<< 10) |||
    BitVec.ofNat 32 ((xo &&& 0x1ff) <<< 1) ||| BitVec.ofNat 32 (rc &&& 0x1)

def xoMask : Word := xoOpcode 0x3f 0x1ff 0x1 0x1

def mOpcode (i rc : ℕ) : Word := makeOpcode i ||| BitVec.ofNat 32 (rc &&& 0x1)

def mMask : Word := mOpcode 0x3f 0x1

/-- "This table is arranged in numeric order of the opcode." -/
def opcodes : List Opcode :=
  [⟨dOpcode 3, dMask, [.to, .rA, .simm]⟩, ⟨dOpcode 7, dMask, [.rD, .rA, .simm]⟩,
   ⟨dOpcode 8, dMask, [.rD, .rA, .simm]⟩, ⟨dOpcode 10, dMask, [.crfD, .l, .rA, .uimm]⟩,
   ⟨dOpcode 11, dMask, [.crfD, .l, .rA, .simm]⟩, ⟨dOpcode 12, dMask, [.rD, .rA, .simm]⟩,
   ⟨dOpcode 13, dMask, [.rD, .rA, .simm]⟩, ⟨dOpcode 14, dMask, [.rD, .rA, .simm]⟩,
   ⟨dOpcode 15, dMask, [.rD, .rA, .simm]⟩, ⟨bOpcode 16 0 0, bMask, [.bo, .bi, .bd, .aa, .lk]⟩,
   ⟨bOpcode 16 0 1, bMask, [.bo, .bi, .bd, .aa, .lk]⟩,
   ⟨bOpcode 16 1 0, bMask, [.bo, .bi, .bd, .aa, .lk]⟩,
   ⟨bOpcode 16 1 1, bMask, [.bo, .bi, .bd, .aa, .lk]⟩, ⟨scOpcode 17, scMask, []⟩,
   ⟨iOpcode 18 0 0, iMask, [.li, .aa, .lk]⟩, ⟨iOpcode 18 0 1, iMask, [.li, .aa, .lk]⟩,
   ⟨iOpcode 18 1 0, iMask, [.li, .aa, .lk]⟩, ⟨iOpcode 18 1 1, iMask, [.li, .aa, .lk]⟩,
   ⟨xlOpcode 19 0 0, xlMask, [.crfD, .crfS]⟩, ⟨xlOpcode 19 16 0, xlMask, [.bo, .bi, .lk]⟩,
   ⟨xlOpcode 19 16 1, xlMask, [.bo, .bi, .lk]⟩, ⟨xlOpcode 19 33 0, xlMask, [.crbD, .crbA, .crbB]⟩,
   ⟨xlOpcode 19 50 0, xlMask, []⟩, ⟨xlOpcode 19 129 0, xlMask, [.crbD, .crbA, .crbB]⟩,
   ⟨xlOpcode 19 150 0, xlMask, []⟩, ⟨xlOpcode 19 193 0, xlMask, [.crbD, .crbA, .crbB]⟩,
   ⟨xlOpcode 19 225 0, xlMask, [.crbD, .crbA, .crbB]⟩,
   ⟨xlOpcode 19 257 0, xlMask, [.crbD, .crbA, .crbB]⟩,
   ⟨xlOpcode 19 289 0, xlMask, [.crbD, .crbA, .crbB]⟩,
   ⟨xlOpcode 19 417 0, xlMask, [.crbD, .crbA, .crbB]⟩,
   ⟨xlOpcode 19 449 0, xlMask, [.crbD, .crbA, .crbB]⟩,
   ⟨xlOpcode 19 528 0, xlMask, [.bo, .bi, .lk]⟩, ⟨xlOpcode 19 528 1, xlMask, [.bo, .bi, .lk]⟩,
   ⟨mOpcode 20 0, mMask, [.rA, .rS, .sh, .mb, .me, .rc]⟩,
   ⟨mOpcode 20 1, mMask, [.rA, .rS, .sh, .mb, .me, .rc]⟩,
   ⟨mOpcode 21 0, mMask, [.rA, .rS, .sh, .mb, .me, .rc]⟩,
   ⟨mOpcode 21 1, mMask, [.rA, .rS, .sh, .mb, .me, .rc]⟩,
   ⟨mOpcode 23 0, mMask, [.rA, .rS, .rB, .mb, .me, .rc]⟩,
   ⟨mOpcode 23 1, mMask, [.rA, .rS, .rB, .mb, .me, .rc]⟩, ⟨dOpcode 24, dMask, [.rA, .rS, .uimm]⟩,
   ⟨dOpcode 25, dMask, [.rA, .rS, .uimm]⟩, ⟨dOpcode 26, dMask, [.rA, .rS, .uimm]⟩,
   ⟨dOpcode 27, dMask, [.rA, .rS, .uimm]⟩, ⟨dOpcode 28, dMask, [.rA, .rS, .uimm]⟩,
   ⟨dOpcode 29, dMask, [.rA, .rS, .uimm]⟩, ⟨xOpcode 31 0 0, xMask, [.crfD, .l, .rA, .rB]⟩,
   ⟨xOpcode 31 4 0, xMask, [.to, .rA, .rB]⟩,
   ⟨xoOpcode 31 8 0 0, xoMask, [.rD, .rA, .rB, .oe, .rc]⟩,
   ⟨xoOpcode 31 8 0 1, xoMask, [.rD, .rA, .rB, .oe, .rc]⟩,
   ⟨xoOpcode 31 10 0 0, xoMask, [.rD, .rA, .rB, .oe, .rc]⟩,
   ⟨xoOpcode 31 10 0 1, xoMask, [.rD, .rA, .rB, .oe, .rc]⟩,
   ⟨xoOpcode 31 11 0 0, xoMask, [.rD, .rA, .rB, .rc]⟩,
   ⟨xoOpcode 31 11 0 1, xoMask, [.rD, .rA, .rB, .rc]⟩, ⟨xOpcode 31 19 0, xMask, [.rD]⟩,
   ⟨xOpcode 31 20 0, xMask, [.rD, .rA, .rB]⟩, ⟨xOpcode 31 23 0, xMask, [.rD, .rA, .rB]⟩,
   ⟨xOpcode 31 24 0, xMask, [.rA, .rS, .rB, .rc]⟩, ⟨xOpcode 31 24 1, xMask, [.rA, .rS, .rB, .rc]⟩,
   ⟨xOpcode 31 26 0, xMask, [.rA, .rS, .rc]⟩, ⟨xOpcode 31 26 1, xMask, [.rA, .rS, .rc]⟩,
   ⟨xOpcode 31 28 0, xMask, [.rA, .rS, .rB, .rc]⟩, ⟨xOpcode 31 28 1, xMask, [.rA, .rS, .rB, .rc]⟩,
   ⟨xOpcode 31 32 0, xMask, [.crfD, .l, .rA, .rB]⟩,
   ⟨xoOpcode 31 40 0 0, xoMask, [.rD, .rA, .rB, .oe, .rc]⟩,
   ⟨xoOpcode 31 40 0 1, xoMask, [.rD, .rA, .rB, .oe, .rc]⟩, ⟨xOpcode 31 54 0, xMask, [.rA, .rB]⟩,
   ⟨xOpcode 31 55 0, xMask, [.rD, .rA, .rB]⟩, ⟨xOpcode 31 60 0, xMask, [.rA, .rS, .rB, .rc]⟩,
   ⟨xOpcode 31 60 1, xMask, [.rA, .rS, .rB, .rc]⟩,
   ⟨xoOpcode 31 75 0 0, xoMask, [.rD, .rA, .rB, .rc]⟩,
   ⟨xoOpcode 31 75 0 1, xoMask, [.rD, .rA, .rB, .rc]⟩, ⟨xOpcode 31 83 0, xMask, [.rD]⟩,
   ⟨xOpcode 31 86 0, xMask, [.rA, .rB]⟩, ⟨xOpcode 31 87 0, xMask, [.rD, .rA, .rB]⟩,
   ⟨xoOpcode 31 104 0 0, xoMask, [.rD, .rA, .oe, .rc]⟩,
   ⟨xoOpcode 31 104 0 1, xoMask, [.rD, .rA, .oe, .rc]⟩, ⟨xOpcode 31 119 0, xMask, [.rD, .rA, .rB]⟩,
   ⟨xOpcode 31 124 0, xMask, [.rA, .rS, .rB, .rc]⟩,
   ⟨xOpcode 31 124 1, xMask, [.rA, .rS, .rB, .rc]⟩,
   ⟨xoOpcode 31 136 0 0, xoMask, [.rD, .rA, .rB, .oe, .rc]⟩,
   ⟨xoOpcode 31 136 0 1, xoMask, [.rD, .rA, .rB, .oe, .rc]⟩,
   ⟨xoOpcode 31 138 0 0, xoMask, [.rD, .rA, .rB, .oe, .rc]⟩,
   ⟨xoOpcode 31 138 0 1, xoMask, [.rD, .rA, .rB, .oe, .rc]⟩,
   ⟨xfxOpcode 31 144 0, xfxMask, [.crm, .rS]⟩, ⟨xOpcode 31 146 0, xMask, [.rS]⟩,
   ⟨xOpcode 31 150 1, xMask, [.rS, .rA, .rB]⟩, ⟨xOpcode 31 151 0, xMask, [.rS, .rA, .rB]⟩,
   ⟨xOpcode 31 183 0, xMask, [.rS, .rA, .rB]⟩, ⟨xoOpcode 31 200 0 0, xoMask, [.rD, .rA, .oe, .rc]⟩,
   ⟨xoOpcode 31 200 0 1, xoMask, [.rD, .rA, .oe, .rc]⟩,
   ⟨xoOpcode 31 202 0 0, xoMask, [.rD, .rA, .oe, .rc]⟩,
   ⟨xoOpcode 31 202 0 1, xoMask, [.rD, .rA, .oe, .rc]⟩, ⟨xOpcode 31 210 0, xMask, [.sr, .rS]⟩,
   ⟨xOpcode 31 215 0, xMask, [.rS, .rA, .rB]⟩, ⟨xoOpcode 31 232 0 0, xoMask, [.rD, .rA, .oe, .rc]⟩,
   ⟨xoOpcode 31 232 0 1, xoMask, [.rD, .rA, .oe, .rc]⟩,
   ⟨xoOpcode 31 234 0 0, xoMask, [.rD, .rA, .oe, .rc]⟩,
   ⟨xoOpcode 31 234 0 1, xoMask, [.rD, .rA, .oe, .rc]⟩,
   ⟨xoOpcode 31 235 0 0, xoMask, [.rD, .rA, .rB, .oe, .rc]⟩,
   ⟨xoOpcode 31 235 0 1, xoMask, [.rD, .rA, .rB, .oe, .rc]⟩, ⟨xOpcode 31 242 0, xMask, [.rS, .rB]⟩,
   ⟨xOpcode 31 246 0, xMask, [.rA, .rB]⟩, ⟨xOpcode 31 247 0, xMask, [.rS, .rA, .rB]⟩,
   ⟨xoOpcode 31 266 0 0, xoMask, [.rD, .rA, .rB, .oe, .rc]⟩,
   ⟨xoOpcode 31 266 0 1, xoMask, [.rD, .rA, .rB, .oe, .rc]⟩, ⟨xOpcode 31 278 0, xMask, [.rA, .rB]⟩,
   ⟨xOpcode 31 279 0, xMask, [.rD, .rA, .rB]⟩, ⟨xOpcode 31 284 0, xMask, [.rA, .rS, .rB, .rc]⟩,
   ⟨xOpcode 31 284 1, xMask, [.rA, .rS, .rB, .rc]⟩, ⟨xOpcode 31 306 0, xMask, [.rB]⟩,
   ⟨xOpcode 31 310 0, xMask, [.rD, .rA, .rB]⟩, ⟨xOpcode 31 311 0, xMask, [.rD, .rA, .rB]⟩,
   ⟨xOpcode 31 316 0, xMask, [.rA, .rS, .rB, .rc]⟩,
   ⟨xOpcode 31 316 1, xMask, [.rA, .rS, .rB, .rc]⟩, ⟨xfxOpcode 31 339 0, xfxMask, [.rD, .spr]⟩,
   ⟨xOpcode 31 343 0, xMask, [.rD, .rA, .rB]⟩, ⟨xOpcode 31 370 0, xMask, []⟩,
   ⟨xfxOpcode 31 371 0, xfxMask, [.rD, .tbr]⟩, ⟨xOpcode 31 375 0, xMask, [.rD, .rA, .rB]⟩,
   ⟨xOpcode 31 407 0, xMask, [.rS, .rA, .rB]⟩, ⟨xOpcode 31 412 0, xMask, [.rA, .rS, .rB, .rc]⟩,
   ⟨xOpcode 31 412 1, xMask, [.rA, .rS, .rB, .rc]⟩, ⟨xOpcode 31 438 0, xMask, [.rS, .rA, .rB]⟩,
   ⟨xOpcode 31 439 0, xMask, [.rS, .rA, .rB]⟩, ⟨xOpcode 31 444 0, xMask, [.rA, .rS, .rB, .rc]⟩,
   ⟨xOpcode 31 444 1, xMask, [.rA, .rS, .rB, .rc]⟩,
   ⟨xoOpcode 31 459 0 0, xoMask, [.rD, .rA, .rB, .oe, .rc]⟩,
   ⟨xoOpcode 31 459 0 1, xoMask, [.rD, .rA, .rB, .oe, .rc]⟩,
   ⟨xfxOpcode 31 467 0, xfxMask, [.spr, .rS]⟩, ⟨xOpcode 31 470 0, xMask, [.rA, .rB]⟩,
   ⟨xOpcode 31 476 0, xMask, [.rA, .rS, .rB, .rc]⟩,
   ⟨xOpcode 31 476 1, xMask, [.rA, .rS, .rB, .rc]⟩,
   ⟨xoOpcode 31 491 0 0, xoMask, [.rD, .rA, .rB, .oe, .rc]⟩,
   ⟨xoOpcode 31 491 0 1, xoMask, [.rD, .rA, .rB, .oe, .rc]⟩, ⟨xOpcode 31 512 0, xMask, [.crfD]⟩,
   ⟨xoOpcode 31 8 1 0, xoMask, [.rD, .rA, .rB, .oe, .rc]⟩,
   ⟨xoOpcode 31 8 1 1, xoMask, [.rD, .rA, .rB, .oe, .rc]⟩,
   ⟨xoOpcode 31 10 1 0, xoMask, [.rD, .rA, .rB, .oe, .rc]⟩,
   ⟨xoOpcode 31 10 1 1, xoMask, [.rD, .rA, .rB, .oe, .rc]⟩,
   ⟨xOpcode 31 533 0, xMask, [.rD, .rA, .rB]⟩, ⟨xOpcode 31 534 0, xMask, [.rD, .rA, .rB]⟩,
   ⟨xOpcode 31 536 0, xMask, [.rA, .rS, .rB, .rc]⟩,
   ⟨xOpcode 31 536 1, xMask, [.rA, .rS, .rB, .rc]⟩,
   ⟨xoOpcode 31 40 1 0, xoMask, [.rD, .rA, .rB, .oe, .rc]⟩,
   ⟨xoOpcode 31 40 1 1, xoMask, [.rD, .rA, .rB, .oe, .rc]⟩, ⟨xOpcode 31 566 0, xMask, []⟩,
   ⟨xOpcode 31 595 0, xMask, [.rD, .sr]⟩, ⟨xOpcode 31 597 0, xMask, [.rD, .rA, .nb]⟩,
   ⟨xOpcode 31 598 0, xMask, []⟩, ⟨xoOpcode 31 104 1 0, xoMask, [.rD, .rA, .oe, .rc]⟩,
   ⟨xoOpcode 31 104 1 1, xoMask, [.rD, .rA, .oe, .rc]⟩,
   ⟨xoOpcode 31 136 1 0, xoMask, [.rD, .rA, .rB, .oe, .rc]⟩,
   ⟨xoOpcode 31 136 1 1, xoMask, [.rD, .rA, .rB, .oe, .rc]⟩,
   ⟨xoOpcode 31 138 1 0, xoMask, [.rD, .rA, .rB, .oe, .rc]⟩,
   ⟨xoOpcode 31 138 1 1, xoMask, [.rD, .rA, .rB, .oe, .rc]⟩, ⟨xOpcode 31 659 0, xMask, [.rD, .rB]⟩,
   ⟨xOpcode 31 661 0, xMask, [.rS, .rA, .rB]⟩, ⟨xOpcode 31 662 0, xMask, [.rS, .rA, .rB]⟩,
   ⟨xoOpcode 31 200 1 0, xoMask, [.rD, .rA, .oe, .rc]⟩,
   ⟨xoOpcode 31 200 1 1, xoMask, [.rD, .rA, .oe, .rc]⟩,
   ⟨xoOpcode 31 202 1 0, xoMask, [.rD, .rA, .oe, .rc]⟩,
   ⟨xoOpcode 31 202 1 1, xoMask, [.rD, .rA, .oe, .rc]⟩, ⟨xOpcode 31 725 0, xMask, [.rS, .rA, .nb]⟩,
   ⟨xoOpcode 31 232 1 0, xoMask, [.rD, .rA, .oe, .rc]⟩,
   ⟨xoOpcode 31 232 1 1, xoMask, [.rD, .rA, .oe, .rc]⟩,
   ⟨xoOpcode 31 234 1 0, xoMask, [.rD, .rA, .oe, .rc]⟩,
   ⟨xoOpcode 31 234 1 1, xoMask, [.rD, .rA, .oe, .rc]⟩,
   ⟨xoOpcode 31 235 1 0, xoMask, [.rD, .rA, .rB, .oe, .rc]⟩,
   ⟨xoOpcode 31 235 1 1, xoMask, [.rD, .rA, .rB, .oe, .rc]⟩,
   ⟨xoOpcode 31 266 1 0, xoMask, [.rD, .rA, .rB, .oe, .rc]⟩,
   ⟨xoOpcode 31 266 1 1, xoMask, [.rD, .rA, .rB, .oe, .rc]⟩,
   ⟨xOpcode 31 790 0, xMask, [.rD, .rA, .rB]⟩, ⟨xOpcode 31 792 0, xMask, [.rA, .rS, .rB, .rc]⟩,
   ⟨xOpcode 31 792 1, xMask, [.rA, .rS, .rB, .rc]⟩,
   ⟨xOpcode 31 824 0, xMask, [.rA, .rS, .sh, .rc]⟩,
   ⟨xOpcode 31 824 1, xMask, [.rA, .rS, .sh, .rc]⟩, ⟨xOpcode 31 854 0, xMask, []⟩,
   ⟨xOpcode 31 918 0, xMask, [.rS, .rA, .rB]⟩, ⟨xOpcode 31 922 0, xMask, [.rA, .rS, .rc]⟩,
   ⟨xOpcode 31 922 1, xMask, [.rA, .rS, .rc]⟩, ⟨xOpcode 31 954 0, xMask, [.rA, .rS, .rc]⟩,
   ⟨xOpcode 31 954 1, xMask, [.rA, .rS, .rc]⟩,
   ⟨xoOpcode 31 459 1 0, xoMask, [.rD, .rA, .rB, .oe, .rc]⟩,
   ⟨xoOpcode 31 459 1 1, xoMask, [.rD, .rA, .rB, .oe, .rc]⟩, ⟨xOpcode 31 978 0, xMask, [.rB]⟩,
   ⟨xOpcode 31 982 0, xMask, [.rA, .rB]⟩, ⟨xoOpcode 31 491 1 0, xoMask, [.rD, .rA, .rB, .oe, .rc]⟩,
   ⟨xoOpcode 31 491 1 1, xoMask, [.rD, .rA, .rB, .oe, .rc]⟩, ⟨xOpcode 31 1010 0, xMask, [.rB]⟩,
   ⟨xOpcode 31 1014 0, xMask, [.rA, .rB]⟩, ⟨dOpcode 32, dMask, [.rD, .d, .rA]⟩,
   ⟨dOpcode 33, dMask, [.rD, .d, .rA]⟩, ⟨dOpcode 34, dMask, [.rD, .d, .rA]⟩,
   ⟨dOpcode 35, dMask, [.rD, .d, .rA]⟩, ⟨dOpcode 36, dMask, [.rS, .d, .rA]⟩,
   ⟨dOpcode 37, dMask, [.rS, .d, .rA]⟩, ⟨dOpcode 38, dMask, [.rS, .d, .rA]⟩,
   ⟨dOpcode 39, dMask, [.rS, .d, .rA]⟩, ⟨dOpcode 40, dMask, [.rD, .d, .rA]⟩,
   ⟨dOpcode 41, dMask, [.rD, .d, .rA]⟩, ⟨dOpcode 42, dMask, [.rD, .d, .rA]⟩,
   ⟨dOpcode 43, dMask, [.rD, .d, .rA]⟩, ⟨dOpcode 44, dMask, [.rS, .d, .rA]⟩,
   ⟨dOpcode 45, dMask, [.rS, .d, .rA]⟩, ⟨dOpcode 46, dMask, [.rD, .d, .rA]⟩,
   ⟨dOpcode 47, dMask, [.rS, .d, .rA]⟩]

/-- The loop of `find_opcode`, for at most `fuel` turns. -/
def findFrom (instr : Word) : ℕ → ℤ → ℤ → Option Opcode
  | 0, _, _ => none
  | fuel + 1, top, bottom =>
    if top ≤ bottom then
      let idx := (top + bottom) / 2
      match opcodes[idx.toNat]? with
      | none => none
      | some ptr =>
        if instr &&& ptr.mask < ptr.opcode then findFrom instr fuel top (idx - 1)
        else if ptr.opcode < instr &&& ptr.mask then findFrom instr fuel (idx + 1) bottom
        else some ptr
    else none

/-- `find_opcode`; each turn makes the part that is searched shorter. -/
def findOpcode (instr : Word) : Option Opcode :=
  findFrom instr (opcodes.length + 1) 0 (opcodes.length - 1)

def getOperandValue (op : Opcode) (instr : Word) (field : Field) : Option Word :=
  if field ∈ op.fields then
    some ((instr >>> field.operand.2) &&& (1#32 <<< field.operand.1 - 1))
  else none

/-! ### The search -/

section
variable {w w' : Word}

theorem findFrom_eq_some {fuel : ℕ} {top bottom : ℤ} {op : Opcode}
    (h : findFrom w fuel top bottom = some op) : op ∈ opcodes ∧ w &&& op.mask = op.opcode := by
  induction fuel generalizing top bottom with
  | zero => cases h
  | succ fuel ih =>
    simp only [findFrom] at h
    split_ifs at h
    split at h
    · cases h
    · rename_i ptr hptr
      split_ifs at h with hlt hgt
      · exact ih h
      · exact ih h
      · cases h
        exact ⟨List.mem_of_getElem? hptr, BitVec.le_antisymm (BitVec.not_lt.1 hgt)
          (BitVec.not_lt.1 hlt)⟩

/-- The search sees no more of a word than how it compares with the entries. -/
theorem findFrom_congr
    (h : ∀ p ∈ opcodes, (w &&& p.mask < p.opcode ↔ w' &&& p.mask < p.opcode) ∧
      (p.opcode < w &&& p.mask ↔ p.opcode < w' &&& p.mask))
    (fuel : ℕ) (top bottom : ℤ) : findFrom w fuel top bottom = findFrom w' fuel top bottom := by
  induction fuel generalizing top bottom with
  | zero => rfl
  | succ fuel ih =>
    simp only [findFrom]
    split_ifs
    · split
      · rfl
      · rename_i ptr hptr
        obtain ⟨hlt, hgt⟩ := h ptr (List.mem_of_getElem? hptr)
        simp only [hlt, hgt, ih]
    · rfl

theorem opcd_and (w m : Word) : opcd (w &&& m) = opcd w &&& opcd m := BitVec.extractLsb'_and

theorem lt_iff_of_opcd_ne (h : opcd w ≠ opcd w') : w < w' ↔ opcd w < opcd w' := by
  have hw : (opcd w).toNat = w.toNat / 2 ^ 26 := by
    simp only [opcd, BitVec.extractLsb'_toNat, Nat.shiftRight_eq_div_pow]
    omega
  have hw' : (opcd w').toNat = w'.toNat / 2 ^ 26 := by
    simp only [opcd, BitVec.extractLsb'_toNat, Nat.shiftRight_eq_div_pow]
    omega
  rw [ne_eq, ← BitVec.toNat_inj] at h
  rw [BitVec.lt_def, BitVec.lt_def]
  omega

set_option maxRecDepth 4000 in
theorem opcd_mask : ∀ p ∈ opcodes, opcd p.mask = 63#6 := by decide

theorem opcd_opcode {op : Opcode} (hop : op ∈ opcodes) (h : w &&& op.mask = op.opcode) :
    opcd op.opcode = opcd w := by
  have hones : ∀ v : BitVec 6, v &&& 63#6 = v := by decide
  rw [← h, opcd_and, opcd_mask op hop, hones]

/-- Of a word the search sees the primary opcode and what the entries that have it mask. -/
theorem findOpcode_and {m : Word} (hm : opcd m = 63#6)
    (h : ∀ p ∈ opcodes, opcd p.opcode = opcd w → m &&& p.mask = p.mask) :
    findOpcode w = findOpcode (w &&& m) := by
  have hones : ∀ v : BitVec 6, v &&& 63#6 = v := by decide
  refine findFrom_congr (fun p hp => ?_) _ _ _
  by_cases heq : opcd p.opcode = opcd w
  · rw [BitVec.and_assoc, h p hp heq]
    exact ⟨Iff.rfl, Iff.rfl⟩
  · -- another primary opcode decides alone
    have hone : opcd (w &&& p.mask) = opcd w := by rw [opcd_and, opcd_mask p hp, hones]
    have htwo : opcd (w &&& m &&& p.mask) = opcd w := by
      rw [opcd_and, opcd_and, opcd_mask p hp, hm, hones, hones]
    constructor
    · rw [lt_iff_of_opcd_ne (by rw [hone]; exact Ne.symm heq), hone,
        lt_iff_of_opcd_ne (by rw [htwo]; exact Ne.symm heq), htwo]
    · rw [lt_iff_of_opcd_ne (by rw [hone]; exact heq), hone,
        lt_iff_of_opcd_ne (by rw [htwo]; exact heq), htwo]

end

end UBoot.Bedbug
