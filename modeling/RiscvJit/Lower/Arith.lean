import RiscvJit.Lower.Move

/-
  RiscvJit.Lower.Arith — arithmetic, shifts, negation and conversions.

  Kinds that widen to int are computed with the 32-bit instructions, whose results stay
  sign-extended from bit 31; the others fill a register. A constant on the right goes into the
  instruction when it fits. Conversions from float to integer round toward zero and saturate,
  and a NaN becomes zero.
-/

namespace RiscvJit

open Reg (zr t0)
open Asm

namespace Lower

/-! ## Integers -/

/-- The instructions of an integer operation: of 32 bits and of 64. -/
def intOps : Opcode → Op × Op
  | .add => (.addw, .add)
  | .sub => (.subw, .sub)
  | .mul => (.mulw, .mul)
  | .div => (.divw, .div)
  | .rem => (.remw, .rem)
  | .and => (.and, .and)
  | .or => (.or, .or)
  | .xor => (.xor, .xor)
  | _ => (.invalid, .invalid)

/-- The instruction of an integer operation on values of a kind. -/
def intOp (op : Opcode) (k : ValueKind) : Op := if k.isIntLike then (intOps op).1 else (intOps op).2

/-- Operations that may throw for a zero divisor. -/
def divides (op : Opcode) : Bool := op = .div || op = .rem

/-- An operation with the constant `imm` on its right as one instruction with immediate. -/
def foldConst? (op : Opcode) (k : ValueKind) (imm : Int64) : Option (Op × Int64) :=
  let plus : Op := if k.isIntLike then .addiw else .addi
  let folded := match op with
    | .add => some (plus, imm)
    | .sub => some (plus, -imm)
    | .and => some (.andi, imm)
    | .or => some (.ori, imm)
    | .xor => some (.xori, imm)
    | _ => none
  folded.filter fun (_, v) => isImm12 v

/-- Throw always: the divisor is known to be zero. -/
def divByZero (info : Option SiteInfo) : Lower Unit := do
  match info with
  | none => throw (.precondition "division by constant zero without debug info")
  | some info =>
    let entry ← newLabel
    addSlowPath (.divByZero info entry)
    j entry

/-- Throw when the divisor is zero, if the site can throw. The quotient and remainder of the
least number and -1 are those of the instructions. -/
def checkDivisor (divisor : Reg) (info : Option SiteInfo) : Lower Unit := do
  match info with
  | none => return
  | some info =>
    let entry ← newLabel
    addSlowPath (.divByZero info entry)
    beqz divisor entry

def arithReg (i : Instruction) (rd rs1 : Reg) (k : ValueKind) (right : Operand) : Lower Unit := do
  let rs2 ← srcReg right t0
  if divides i.op && !right.isConstant then checkDivisor rs2 i.info
  rr (intOp i.op k) rd rs1 rs2

def intArith (i : Instruction) (left right : Operand) : Lower Unit := do
  let k := left.kind
  let rd ← reg i.result "arithmetic result"
  let rs1 ← reg left "left operand"
  match right with
  | .constant rk bits =>
    let imm := Operand.longOfBits rk bits
    match foldConst? i.op k imm with
    | some (o, v) => ri o rd rs1 v
    | none => if divides i.op && imm = 0 then divByZero i.info else arithReg i rd rs1 k right
  | _ => arithReg i rd rs1 k right

/-! ## Floats -/

/-- The instructions of a float operation: single and double. -/
def floatOps? : Opcode → Option (Op × Op)
  | .add => some (.faddS, .faddD)
  | .sub => some (.fsubS, .fsubD)
  | .mul => some (.fmulS, .fmulD)
  | .div => some (.fdivS, .fdivD)
  | _ => none

def floatArith (i : Instruction) (left right : Operand) : Lower Unit := do
  check (i.op ≠ .rem) fun _ => "float remainder must be a runtime call"
  match floatOps? i.op with
  | none => throw (.precondition (i.op.name ++ " is not a float operation"))
  | some (single, double) =>
    let rd ← freg i.result "float result"
    let rs1 ← freg left "left operand"
    let rs2 ← freg right "right operand"
    farith (if left.kind = .float then single else double) rd rs1 rs2

def arith (i : Instruction) : Lower Unit := do
  let left ← input i 0
  let right ← input i 1
  if left.kind.isFloat then floatArith i left right else intArith i left right

/-! ## Shifts -/

def shiftOp (op : Opcode) (narrow : Bool) : Op :=
  match op, narrow with
  | .shl, true => .sllw
  | .shr, true => .sraw
  | _, true => .srlw
  | .shl, false => .sll
  | .shr, false => .sra
  | _, false => .srl

def shiftConstOp (op : Opcode) (narrow : Bool) : Op :=
  match op, narrow with
  | .shl, true => .slliw
  | .shr, true => .sraiw
  | _, true => .srliw
  | .shl, false => .slli
  | .shr, false => .srai
  | _, false => .srli

/-- Shifts; the count is taken modulo the width. -/
def shift (i : Instruction) : Lower Unit := do
  let left ← input i 0
  let count ← input i 1
  let rd ← reg i.result "shift result"
  let rs ← reg left "shifted value"
  let narrow := left.kind.isIntLike
  match count with
  | .constant k bits =>
    let n := Operand.longOfBits k bits &&& (if narrow then 31 else 63)
    shiftI (shiftConstOp i.op narrow) rd rs n
  | _ =>
    let c ← reg count "shift count"
    rr (shiftOp i.op narrow) rd rs c

/-! ## Negation and conversions -/

def negFloat (o : Op) (src result : Operand) : Lower Unit := do
  let r ← freg src "negated value"
  let rd ← freg result "result"
  rr o rd r r

def neg (i : Instruction) : Lower Unit := do
  let src ← input i 0
  match src.kind with
  | .float => negFloat .fsgnjnS src i.result
  | .double => negFloat .fsgnjnD src i.result
  | k =>
    let rd ← reg i.result "result"
    let rs ← reg src "negated value"
    rr (if k.isIntLike then .subw else .sub) rd zr rs

/-- Keep the low bits of an integer, by shifting left and back. -/
def narrowTo (n : Int64) (back : Op) (result src : Operand) : Lower Unit := do
  let rd ← reg result "result"
  let rs ← reg src "source"
  slli rd rs n
  shiftI back rd rd n

def intToFloat (o : Op) (result src : Operand) : Lower Unit := do
  let rd ← freg result "result"
  let rs ← reg src "source"
  fcvt o rd rs roundDynamic

def floatToFloat (o : Op) (result src : Operand) : Lower Unit := do
  let rd ← freg result "result"
  let rs ← freg src "source"
  fcvt o rd rs roundDynamic

/-- A float as an integer; zero for a NaN, which differs from itself. -/
def floatToInt (cvt feq : Op) (result src : Operand) : Lower Unit := do
  let rd ← reg result "result"
  let fs ← freg src "source"
  let done ← newLabel
  fcvt cvt rd fs roundTowardZero
  rr feq t0 fs fs
  branch .bne t0 zr done
  mv rd zr
  Asm.bind done

def convert (i : Instruction) : Lower Unit := do
  let src ← input i 0
  match i.conv with
  | .i2l | .l2i =>
    let rd ← reg i.result "result"
    let rs ← reg src "source"
    sextw rd rs
  | .i2b => narrowTo 56 .srai i.result src
  | .i2s => narrowTo 48 .srai i.result src
  | .i2c => narrowTo 48 .srli i.result src
  | .i2f => intToFloat .fcvtSW i.result src
  | .i2d => intToFloat .fcvtDW i.result src
  | .l2f => intToFloat .fcvtSL i.result src
  | .l2d => intToFloat .fcvtDL i.result src
  | .f2d => floatToFloat .fcvtDS i.result src
  | .d2f => floatToFloat .fcvtSD i.result src
  | .f2i => floatToInt .fcvtWS .feqS i.result src
  | .f2l => floatToInt .fcvtLS .feqS i.result src
  | .d2i => floatToInt .fcvtWD .feqD i.result src
  | .d2l => floatToInt .fcvtLD .feqD i.result src
  | .unknown _ => throw (.precondition ("unknown conversion " ++ i.conv.name))

end Lower

end RiscvJit
