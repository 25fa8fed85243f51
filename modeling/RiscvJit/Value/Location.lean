import RiscvJit.Value.Register

/-
  RiscvJit.Value.Location — where one value lives.

  A value is in an integer register, in a float register, or on the stack. Stack slots are
  four bytes wide and numbered from zero; a 64-bit value on the stack takes its slot and the
  next one, so slots less than two apart overlap.
-/

namespace RiscvJit

def stackSlotSize : Int64 := 4

/-- The stack pointer is aligned to this many bytes at calls. -/
def stackAlignment : Int64 := 16

def slotsPerWord : Nat := 2

/-- Round up to a multiple of a power of two, modulo 2^64. -/
def alignUp (n a : Int64) : Int64 := (n + a - 1) &&& ~~~(a - 1)

/-- The home of one value. -/
inductive Location where
  /-- No place: the second half of a two-slot value, or an absent value. -/
  | nowhere
  | int (n : Fin 32)
  | float (n : Fin 32)
  | stack (slot : Nat)
  deriving DecidableEq, Repr, Inhabited

namespace Location

def ofReg : Reg → Except Fault Location
  | .x n => .ok (.int n)
  | .f n => .ok (.float n)
  | .none => .error (.defect "location of invalid register")

def ofSlot (slot : Int64) : Except Fault Location :=
  if slot < 0 then .error (.defect ("negative stack slot " ++ Text.ofInt slot.toInt))
  else .ok (.stack slot.toNatClampNeg)

def reg : Location → Reg
  | .int n => .x n
  | .float n => .f n
  | _ => .none

def isValid : Location → Bool
  | .nowhere => false
  | _ => true

/-- The place is a register of either file. -/
def isReg : Location → Bool
  | .int _ | .float _ => true
  | _ => false

def isStack : Location → Bool
  | .stack _ => true
  | _ => false

/-- The byte offset of a stack slot from its base, modulo 2^64. -/
def slotBytes (slot : Nat) : Int64 := Int64.ofNat slot * stackSlotSize

def name : Location → String
  | .int n => (Reg.x n).name
  | .float n => (Reg.f n).name
  | .stack slot => "stack[" ++ Text.ofInt (slotBytes slot).toInt ++ "]"
  | .nowhere => "-"

def byteOffset : Location → Except Fault Int64
  | .stack slot => .ok (slotBytes slot)
  | l => .error (.defect ("byte offset of a non-stack location " ++ l.name))

/-- Writing 64 bits at one place can change 64 bits at the other. -/
def aliases : Location → Location → Bool
  | .int a, .int b => a = b
  | .float a, .float b => a = b
  | .stack a, .stack b => a < b + slotsPerWord && b < a + slotsPerWord
  | _, _ => false

/-- Rank of the class of a location: absent, integer, float, stack. -/
def rank : Location → Nat
  | .nowhere => 0
  | .int _ => 1
  | .float _ => 2
  | .stack _ => 3

def index : Location → Nat
  | .nowhere => 0
  | .int n => n
  | .float n => n
  | .stack slot => slot

/-- Locations are ordered by class, then by number. -/
def before (a b : Location) : Bool :=
  a.rank < b.rank || (a.rank == b.rank && a.index < b.index)

def className? (rank : Nat) : Option String := ["invalid", "reg", "freg", "stack"][rank]?

def className (rank : Nat) : Except Fault String :=
  match className? rank with
  | some s => .ok s
  | none => .error (.defect "")

end Location

end RiscvJit
