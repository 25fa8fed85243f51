import RiscvJit.Fault

/-
  RiscvJit.Value.Kind — the kinds of values the code generator moves around.

  A kind decides three things about a value: how many logical 32-bit slots it takes in a
  signature (`slots`), how many bytes it takes in memory (`size`), and which register file
  holds it. Kinds are numbered 1 to 15; every other code stands for no kind at all.
-/

namespace RiscvJit

/-- The type of a value as the code generator sees it. -/
inductive ValueKind where
  | boolean
  | char
  | float
  | double
  | byte
  | short
  | int
  | long
  | object
  | array
  /-- The second half of a long or double, and the result of a method that returns nothing. -/
  | void
  | address
  | narrowOop
  /-- A pointer to metadata such as a method or type descriptor. -/
  | metadata
  /-- A compressed type descriptor pointer. -/
  | narrowKlass
  | unknown (code : UInt8)
  deriving DecidableEq, Repr, Inhabited

namespace ValueKind

def none : ValueKind := .unknown 0

/-- The named kinds in the order of their codes, which start at 1. -/
def named : List ValueKind :=
  [boolean, char, float, double, byte, short, int, long, object, array, void, address,
   narrowOop, metadata, narrowKlass]

def ofCode (code : UInt8) : ValueKind :=
  if code = 0 then .unknown 0 else (named[code.toNat - 1]?).getD (.unknown code)

def name : ValueKind → String
  | boolean => "boolean"
  | char => "char"
  | float => "float"
  | double => "double"
  | byte => "byte"
  | short => "short"
  | int => "int"
  | long => "long"
  | object => "object"
  | array => "array"
  | void => "void"
  | address => "address"
  | narrowOop => "narrowoop"
  | metadata => "metadata"
  | narrowKlass => "narrowklass"
  | unknown code => "invalid(" ++ Text.ofNat code.toNat ++ ")"

def ofName? (s : String) : Option ValueKind :=
  (named ++ (List.range 256).map fun n => ofCode (UInt8.ofNat n)).find? (·.name == s)

/-! ## Classes of kinds -/

/-- Kinds that take two logical slots. -/
def isDoubleWord : ValueKind → Bool
  | long | double => true
  | _ => false

def isReference : ValueKind → Bool
  | object | array | narrowOop => true
  | _ => false

def isFloat : ValueKind → Bool
  | float | double => true
  | _ => false

/-- Kinds narrower than int, which the managed convention widens to int. -/
def isSubword : ValueKind → Bool
  | boolean | char | byte | short => true
  | _ => false

def isIntLike : ValueKind → Bool
  | int | boolean | char | byte | short => true
  | _ => false

def slots : ValueKind → Nat
  | long | double => 2
  | void => 0
  | unknown code => if code = 0 then 0 else 1
  | _ => 1

/-- The number of bytes a value takes in memory. -/
def size : ValueKind → Nat
  | boolean | byte => 1
  | char | short => 2
  | int | float | narrowOop | narrowKlass => 4
  | long | double | object | array | address | metadata => 8
  | void | unknown _ => 0

def is64 (k : ValueKind) : Bool := k.size == 8

def letter? : ValueKind → Option Char
  | boolean => some 'Z'
  | char => some 'C'
  | float => some 'F'
  | double => some 'D'
  | byte => some 'B'
  | short => some 'S'
  | int => some 'I'
  | long => some 'J'
  | object => some 'L'
  | array => some '['
  | void => some 'V'
  | address => some 'A'
  | narrowOop => some 'N'
  | metadata => some 'M'
  | narrowKlass => some 'K'
  | unknown _ => Option.none

def letter (k : ValueKind) : Except Fault Char :=
  match k.letter? with
  | some c => .ok c
  | Option.none => .error (.defect ("no descriptor for " ++ k.name))

end ValueKind

end RiscvJit
