import RiscvJit.Fault

/-
  RiscvJit.Lir.Opcode — the operations of the low-level representation, the conditions of its
  compares and its numeric conversions.

  Each of the three is a numbered list of names. A number past the end of its list stands
  for nothing, but it can be written: `opcode(41)`.
-/

namespace RiscvJit

/-! ## Operations -/

/-- What an instruction does. -/
inductive Opcode where
  | invalid
  | label
  | nop
  /-- Copies the input to the result; either side may be memory. -/
  | move
  | add
  | sub
  | mul
  /-- Division; the divisor is checked for zero when the site has debug information. -/
  | div
  | rem
  | and
  | or
  | xor
  | shl
  | shr
  | ushr
  | neg
  /-- Jumps when the inputs compare as the condition says. -/
  | cmpBranch
  | branch
  /-- Selects the third or the fourth input by comparing the first two. -/
  | cmove
  /-- Gives -1, 0 or 1. -/
  | cmp3
  | convert
  /-- Tests whether a reference is an instance of a class. -/
  | instanceOf
  /-- Throws unless the reference is null or an instance. -/
  | checkCast
  /-- Throws unless a reference may be stored into an array. -/
  | storeCheck
  /-- Records the type of a reference in a profile cell. -/
  | profileType
  | lock
  | unlock
  /-- Compare and swap; the result is 1 on success and 0 otherwise. -/
  | cas
  /-- Adds to memory; the result is the old value. -/
  | xadd
  /-- Swaps with memory; the result is the old value. -/
  | xchg
  | allocObject
  | allocArray
  /-- Throws the second input; the first receives the throwing pc. -/
  | throwEx
  | unwind
  | ret
  | safepoint
  | callRuntime
  | call
  | nullCheck
  /-- Throws unless the first input is an index below the second. -/
  | rangeCheck
  | membar
  /-- A number that names no operation. -/
  | unknown (code : UInt16)
  deriving DecidableEq, Repr, Inhabited

namespace Opcode

/-- The named operations in the order of their numbers; the first one is no operation. -/
def named : List Opcode :=
  [invalid, label, nop, move, add, sub, mul, div, rem, and, or, xor, shl, shr, ushr, neg,
   cmpBranch, branch, cmove, cmp3, convert, instanceOf, checkCast, storeCheck, profileType,
   lock, unlock, cas, xadd, xchg, allocObject, allocArray, throwEx, unwind, ret, safepoint,
   callRuntime, call, nullCheck, rangeCheck, membar]

def name : Opcode → String
  | invalid => "invalid"
  | label => "label"
  | nop => "nop"
  | move => "move"
  | add => "add"
  | sub => "sub"
  | mul => "mul"
  | div => "div"
  | rem => "rem"
  | and => "and"
  | or => "or"
  | xor => "xor"
  | shl => "shl"
  | shr => "shr"
  | ushr => "ushr"
  | neg => "neg"
  | cmpBranch => "cmp_branch"
  | branch => "branch"
  | cmove => "cmove"
  | cmp3 => "cmp3"
  | convert => "convert"
  | instanceOf => "instanceof"
  | checkCast => "checkcast"
  | storeCheck => "store_check"
  | profileType => "profile_type"
  | lock => "lock"
  | unlock => "unlock"
  | cas => "cas"
  | xadd => "xadd"
  | xchg => "xchg"
  | allocObject => "alloc_object"
  | allocArray => "alloc_array"
  | throwEx => "throw"
  | unwind => "unwind"
  | ret => "return"
  | safepoint => "safepoint"
  | callRuntime => "call_runtime"
  | call => "call"
  | nullCheck => "null_check"
  | rangeCheck => "range_check"
  | membar => "membar"
  | unknown code => "opcode(" ++ Text.ofNat code.toNat ++ ")"

/-- The operation with a given number. -/
def ofCode (code : UInt16) : Opcode := (named[code.toNat]?).getD (.unknown code)

/-- The number of a named operation. -/
def code (o : Opcode) : Nat :=
  match o with
  | unknown code => code.toNat
  | o => named.idxOf o

def ofName? (s : String) : Option Opcode := (named.drop 1).find? (·.name == s)

end Opcode

/-! ## Conditions -/

/-- The predicate of a compare; the last two but one compare without sign. -/
inductive Condition where
  | eq
  | ne
  | lt
  | le
  | gt
  | ge
  | be
  | ae
  | always
  | unknown (code : UInt8)
  deriving DecidableEq, Repr, Inhabited

namespace Condition

def named : List Condition := [eq, ne, lt, le, gt, ge, be, ae, always]

def name : Condition → String
  | eq => "eq"
  | ne => "ne"
  | lt => "lt"
  | le => "le"
  | gt => "gt"
  | ge => "ge"
  | be => "be"
  | ae => "ae"
  | always => "always"
  | unknown code => "cond(" ++ Text.ofNat code.toNat ++ ")"

def ofCode (code : UInt8) : Condition := (named[code.toNat]?).getD (.unknown code)

def code (c : Condition) : Nat :=
  match c with
  | unknown code => code.toNat
  | c => named.idxOf c

def ofName? (s : String) : Option Condition := named.find? (·.name == s)

/-- The condition that holds exactly when this one does not. -/
def negate : Condition → Except Fault Condition
  | eq => .ok ne
  | ne => .ok eq
  | lt => .ok ge
  | le => .ok gt
  | gt => .ok le
  | ge => .ok lt
  | c => .error (.defect ("cannot negate " ++ c.name))

def commute : Condition → Except Fault Condition
  | eq => .ok eq
  | ne => .ok ne
  | always => .ok always
  | lt => .ok gt
  | le => .ok ge
  | gt => .ok lt
  | ge => .ok le
  | be => .ok ae
  | ae => .ok be
  | unknown _ => .error (.defect "")

end Condition

/-! ## Conversions -/

/-- A numeric conversion, by the letters of its two kinds. -/
inductive Conversion where
  | i2l
  | l2i
  | i2b
  | i2c
  | i2s
  | i2f
  | i2d
  | l2f
  | l2d
  | f2d
  | d2f
  | f2i
  | f2l
  | d2i
  | d2l
  | unknown (code : UInt8)
  deriving DecidableEq, Repr, Inhabited

namespace Conversion

def named : List Conversion :=
  [i2l, l2i, i2b, i2c, i2s, i2f, i2d, l2f, l2d, f2d, d2f, f2i, f2l, d2i, d2l]

def name : Conversion → String
  | i2l => "i2l"
  | l2i => "l2i"
  | i2b => "i2b"
  | i2c => "i2c"
  | i2s => "i2s"
  | i2f => "i2f"
  | i2d => "i2d"
  | l2f => "l2f"
  | l2d => "l2d"
  | f2d => "f2d"
  | d2f => "d2f"
  | f2i => "f2i"
  | f2l => "f2l"
  | d2i => "d2i"
  | d2l => "d2l"
  | unknown code => "conv(" ++ Text.ofNat code.toNat ++ ")"

def ofCode (code : UInt8) : Conversion := (named[code.toNat]?).getD (.unknown code)

def code (c : Conversion) : Nat :=
  match c with
  | unknown code => code.toNat
  | c => named.idxOf c

def ofName? (s : String) : Option Conversion := named.find? (·.name == s)

end Conversion

end RiscvJit
