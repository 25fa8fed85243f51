import RiscvJit.Text.Decimal
import RiscvJit.Value.Kind
import RiscvJit.Value.Location

/-
  RiscvJit.Value.Operand — the inputs and outputs of instructions.

  An operand is a register, a stack slot, a constant or a memory address, together with the
  kind of value it stands for; or it is absent. An integer register operand is a pair of
  registers, which on this target are the same one unless the operand was built as a pair.
  The smart constructors refuse what no operand can mean, such as a float in an integer
  register. `Operand.text` is the written form that `Operand.parse` reads back.
-/

namespace RiscvJit

/-- The memory address `base + (index << scale) + disp`. -/
structure Address where
  base : Reg
  index : Reg
  scale : UInt8
  disp : Int64
  deriving DecidableEq, Repr, Inhabited

namespace Address

def ofBase (base : Reg) (disp : Int64) : Address := ⟨base, .none, 0, disp⟩

def hasIndex (a : Address) : Bool := a.index != .none

def text (a : Address) : String :=
  let disp := Text.ofSigned a.disp.toInt
  if a.hasIndex then
    "[" ++ a.base.name ++ "+" ++ a.index.name ++ "<<" ++ Text.ofNat a.scale.toNat ++ disp ++ "]"
  else "[" ++ a.base.name ++ disp ++ "]"

end Address

/-- One input or output of an instruction. -/
inductive Operand where
  | absent
  | register (kind : ValueKind) (lo hi : Reg)
  | floatRegister (kind : ValueKind) (r : Reg)
  | stack (kind : ValueKind) (slot : Nat)
  | constant (kind : ValueKind) (bits : UInt64)
  | memory (kind : ValueKind) (addr : Address)
  deriving DecidableEq, Repr, Inhabited

namespace Operand

/-! ## Building operands -/

def ofInt (r : Reg) (k : ValueKind) : Except Fault Operand :=
  if !r.isInt || k.isFloat then
    .error (.defect (r.name ++ " is not an integer register operand of " ++ k.name))
  else .ok (.register k r r)

/-- A 64-bit integer operand held in two registers. -/
def ofPair (lo hi : Reg) (k : ValueKind) : Except Fault Operand :=
  if !k.is64 || k.isFloat then .error (.defect ("register pair of " ++ k.name))
  else .ok (.register k lo hi)

def ofFloat (r : Reg) (k : ValueKind) : Except Fault Operand :=
  if !r.isFloat || !k.isFloat then
    .error (.defect (r.name ++ " is not a float register operand of " ++ k.name))
  else .ok (.floatRegister k r)

/-- A stack operand; a double word takes the next slot too. -/
def ofStack (slot : Int64) (k : ValueKind) : Except Fault Operand :=
  if slot < 0 then .error (.defect ("negative stack index " ++ Text.ofInt slot.toInt))
  else .ok (.stack k slot.toNatClampNeg)

def intConst (v : Int32) : Operand := .constant .int v.toUInt32.toUInt64

def longConst (v : Int64) : Operand := .constant .long v.toUInt64

def atLocation (l : Location) (k : ValueKind) : Except Fault Operand :=
  match l with
  | .int n => ofInt (.x n) k
  | .float n => ofFloat (.f n) k
  | .stack slot => .ok (.stack k slot)
  | .nowhere => .error (.defect "operand at invalid location")

/-! ## Taking operands apart -/

def kind : Operand → ValueKind
  | absent => .none
  | register k _ _ => k
  | floatRegister k _ => k
  | stack k _ => k
  | constant k _ => k
  | memory k _ => k

def variant : Operand → Nat
  | absent => 0
  | register .. => 1
  | floatRegister .. => 2
  | stack .. => 3
  | constant .. => 4
  | memory .. => 5

def variantNames : List String := ["illegal", "register", "fregister", "stack", "constant", "address"]

def variantName (n : Nat) : Except Fault String :=
  match variantNames[n]? with
  | some s => .ok s
  | none => .error (.defect "")

def className (o : Operand) : String := variantNames.getD o.variant ""

def isAbsent : Operand → Bool
  | absent => true
  | _ => false

def isRegister : Operand → Bool
  | register .. | floatRegister .. => true
  | _ => false

def isIntRegister : Operand → Bool
  | register .. => true
  | _ => false

def isFloatRegister : Operand → Bool
  | floatRegister .. => true
  | _ => false

def isStack : Operand → Bool
  | stack .. => true
  | _ => false

def isConstant : Operand → Bool
  | constant .. => true
  | _ => false

def isMemory : Operand → Bool
  | memory .. => true
  | _ => false

def isSingleWord (o : Operand) : Bool := o.kind.slots == 1

def isDoubleWord (o : Operand) : Bool := o.kind.slots == 2

/-- A constant whose bits are all zero, null included. -/
def isZero : Operand → Bool
  | constant _ bits => bits == 0
  | _ => false

/-- Asking an operand for something its variant does not have. -/
def misuse {α : Type} (what : String) (o : Operand) : Except Fault α :=
  .error (.defect (what ++ " of " ++ o.className ++ " operand"))

/-- The register of a register operand, the low one of a pair. -/
def reg : Operand → Except Fault Reg
  | register _ lo _ => .ok lo
  | floatRegister _ r => .ok r
  | o => o.misuse "Reg"

def regHigh : Operand → Except Fault Reg
  | register _ _ hi => .ok hi
  | o => o.misuse "RegHi"

def slot : Operand → Except Fault Nat
  | stack _ n => .ok n
  | o => o.misuse "StackIndex"

def addr : Operand → Except Fault Address
  | memory _ a => .ok a
  | o => o.misuse "Addr"

def bits : Operand → Except Fault UInt64
  | constant _ b => .ok b
  | o => o.misuse "Bits"

def intOfBits (bits : UInt64) : Int32 := bits.toUInt32.toInt32

/-- Raw bits widened to 64 bits: kinds that widen to int are sign-extended. -/
def longOfBits (k : ValueKind) (bits : UInt64) : Int64 :=
  if k.isIntLike then (intOfBits bits).toInt64 else bits.toInt64

def asInt (o : Operand) : Except Fault Int32 := o.bits.map intOfBits

/-- The value of an integral constant, widened to 64 bits. -/
def asLong (o : Operand) : Except Fault Int64 := o.bits.map (longOfBits o.kind)

def location : Operand → Except Fault Location
  | register _ lo _ => Location.ofReg lo
  | floatRegister _ r => Location.ofReg r
  | stack _ n => .ok (.stack n)
  | o => .error (.defect (o.className ++ " operand has no location"))

/-! ## The written form -/

def constantText (k : ValueKind) (bits : UInt64) : String :=
  match k with
  | .float => Text.BinaryFormat.single.text bits.toUInt32.toNat
  | .double => Text.BinaryFormat.double.text bits.toNat
  | .int => Text.ofInt (intOfBits bits).toInt
  | .long => Text.ofInt bits.toInt64.toInt
  | _ => Text.hex bits.toNat

def text : Operand → String
  | absent => "-"
  | register k lo hi =>
    if lo = hi then k.name ++ ":" ++ lo.name else k.name ++ ":" ++ lo.name ++ "|" ++ hi.name
  | floatRegister k r => k.name ++ ":" ++ r.name
  | stack k n => k.name ++ ":stack[" ++ Text.ofInt (Location.slotBytes n).toInt ++ "]"
  | constant k bits => k.name ++ ":" ++ constantText k bits
  | memory k a => k.name ++ ":" ++ a.text

end Operand

end RiscvJit
