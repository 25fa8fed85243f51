import RiscvJit.Fault

/-
  RiscvJit.Value.Register — the registers of the target and their fixed roles.

  There are 32 integer registers, 32 float registers and the absence of a register. A few
  integer registers have a role that generated code relies on: the stack and frame pointers,
  the current thread, and the two scratch registers that operands may not name.
-/

namespace RiscvJit

/-- Register numbers can be written as numerals. -/
instance registerFile : @NeZero Nat Zero.ofOfNat0 32 := ⟨by decide⟩

/-- A physical register, or none. -/
inductive Reg where
  | x (n : Fin 32)
  | f (n : Fin 32)
  | none
  deriving DecidableEq, Repr, Inhabited

namespace Reg

/-! ## Numbers and names -/

/-- The integer register with a given number. -/
def int (n : Int) : Except Fault Reg :=
  if h : 0 ≤ n ∧ n < 32 then .ok (.x ⟨n.toNat, by omega⟩)
  else .error (.defect ("invalid integer register " ++ Text.ofInt n))

def float (n : Int) : Except Fault Reg :=
  if h : 0 ≤ n ∧ n < 32 then .ok (.f ⟨n.toNat, by omega⟩)
  else .error (.defect ("invalid float register " ++ Text.ofInt n))

/-- Integer registers are coded 0 to 31, float registers 32 to 63; other codes are no register. -/
def ofCode (code : UInt8) : Reg :=
  if h : code.toNat < 32 then .x ⟨code.toNat, h⟩
  else if h : code.toNat - 32 < 32 then .f ⟨code.toNat - 32, h⟩
  else .none

/-- The code of a register; float registers come after the integer ones. -/
def code : Reg → Nat
  | .x n => n
  | .f n => 32 + n
  | .none => 255

def isValid : Reg → Bool
  | .none => false
  | _ => true

def isFloat : Reg → Bool
  | .f _ => true
  | _ => false

/-- The register is an integer register. -/
def isInt : Reg → Bool
  | .x _ => true
  | _ => false

/-- The five-bit number of a register in an instruction. -/
def number : Reg → Except Fault UInt32
  | .x n => .ok (UInt32.ofNat n)
  | .f n => .ok (UInt32.ofNat n)
  | .none => .error (.defect "encoding of invalid register")

def name : Reg → String
  | .x n => "x" ++ Text.ofNat n
  | .f n => "f" ++ Text.ofNat n
  | .none => "invalid"

/-- Names of the integer registers in the procedure call standard. -/
def intNames : List String :=
  ["zr", "ra", "sp", "gp", "tp", "t0", "t1", "t2", "fp", "s1", "a0", "a1", "a2", "a3", "a4", "a5",
   "a6", "a7", "s2", "s3", "s4", "s5", "s6", "s7", "s8", "s9", "s10", "s11", "t3", "t4", "t5", "t6"]

def floatNames : List String :=
  ["ft0", "ft1", "ft2", "ft3", "ft4", "ft5", "ft6", "ft7", "fs0", "fs1", "fa0", "fa1", "fa2", "fa3",
   "fa4", "fa5", "fa6", "fa7", "fs2", "fs3", "fs4", "fs5", "fs6", "fs7", "fs8", "fs9", "fs10", "fs11",
   "ft8", "ft9", "ft10", "ft11"]

def abiName : Reg → String
  | .x n => intNames.getD n ""
  | .f n => floatNames.getD n ""
  | .none => "invalid"

/-! ## Fixed roles -/

def zr : Reg := .x 0
def ra : Reg := .x 1
def sp : Reg := .x 2
/-- First scratch register of code sequences. -/
def t0 : Reg := .x 5
/-- Second scratch register of code sequences. -/
def t1 : Reg := .x 6
def t2 : Reg := .x 7
def fp : Reg := .x 8
/-- Breaks cycles when arguments are shuffled. -/
def moveScratch : Reg := .x 9
def esp : Reg := .x 20
def bytecode : Reg := .x 22
def thread : Reg := .x 23
def localsBase : Reg := .x 24
def heapBase : Reg := .x 27
/-- The callee's method descriptor on calls into adapters and the interpreter. -/
def method : Reg := .x 31

/-- Registers that operands may not name. -/
def reserved : List Reg := [zr, sp, fp, ra, t0, t1, thread, .x 3, .x 4]

/-- The register has a role that forbids it as an operand. -/
def isReserved (r : Reg) : Bool := reserved.contains r

end Reg

end RiscvJit
