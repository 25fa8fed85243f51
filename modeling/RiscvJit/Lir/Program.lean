import RiscvJit.Deopt.Scope
import RiscvJit.Lir.Opcode
import RiscvJit.Target.RuntimeEntry
import RiscvJit.Value.Operand

/-
  RiscvJit.Lir.Program — methods in the low-level representation.

  A program is a list of instructions. An instruction has inputs, a result, and for some
  operations a payload: debug information, the parameters of a type check, of a lock, of an
  allocation or of a call. Labels are numbers from 1; a program knows the largest label its
  instructions bind or jump to.
-/

namespace RiscvJit

/-- Orderings that a barrier enforces, as a set of bits. -/
abbrev MemoryOrder := UInt8

namespace MemoryOrder

def loadLoad : MemoryOrder := 1
def storeStore : MemoryOrder := 2
def loadStore : MemoryOrder := 4
def storeLoad : MemoryOrder := 8

end MemoryOrder

/-- A receiver type profile entry: its address and its number of rows. -/
structure ProfileSite where
  mdp : UInt64
  rows : Int64
  deriving DecidableEq, Repr, Inhabited

structure TypeCheck where
  /-- The type descriptor checked against. -/
  klass : UInt64
  superCheckOffset : Int32
  /-- The class has no subtypes, so that one compare decides. -/
  fast : Bool
  tmp1 : Operand
  tmp2 : Operand
  /-- May be absent. -/
  tmp3 : Operand
  profile : Option ProfileSite
  deriving DecidableEq, Repr, Inhabited

structure TypeProfile where
  cell : UInt64
  /-- The cell's value when the method was compiled. -/
  current : UInt64
  /-- The type known at compile time, or zero. -/
  exactKlass : UInt64
  notNull : Bool
  tmp : Operand
  deriving DecidableEq, Repr, Inhabited

structure LockInfo where
  obj : Operand
  /-- Holds the address of the lock slot in the frame. -/
  lock : Operand
  hdr : Operand
  scratch : Operand
  deriving DecidableEq, Repr, Inhabited

structure AllocInfo where
  klass : Operand
  size : Int64
  /-- The type has to be checked for being initialized. -/
  initCheck : Bool
  len : Operand
  element : ValueKind
  tmp1 : Operand
  tmp2 : Operand
  tmp3 : Operand
  deriving DecidableEq, Repr, Inhabited

structure CallInfo where
  entry : RuntimeEntry
  target : UInt64
  deriving DecidableEq, Repr, Inhabited

/-- What is known at a point where execution may stop. -/
structure SiteInfo where
  scopes : List Scope := []
  live : List Operand := []
  deriving DecidableEq, Repr, Inhabited

abbrev LabelId := Int64

/-- One operation with its operands and payload. -/
structure Instruction where
  op : Opcode
  inputs : List Operand := []
  result : Operand := .absent
  cond : Condition := .eq
  /-- The outcome of float compares with NaN. -/
  unorderedIsTrue : Bool := false
  conv : Conversion := .i2l
  membar : MemoryOrder := 0
  label : LabelId := 0
  target : LabelId := 0
  info : Option SiteInfo := none
  typeCheck : Option TypeCheck := none
  typeProfile : Option TypeProfile := none
  lock : Option LockInfo := none
  alloc : Option AllocInfo := none
  call : Option CallInfo := none
  tmp : List Operand := []
  deriving Repr, Inhabited

namespace Instruction

def jumps (i : Instruction) : Bool := i.op = .cmpBranch || i.op = .branch

/-- The mark between brackets that some operations carry. -/
def mark (i : Instruction) : String :=
  match i.op with
  | .cmpBranch | .cmove => " [" ++ i.cond.name ++ "]"
  | .convert => " [" ++ i.conv.name ++ "]"
  | _ => ""

def text (i : Instruction) : String :=
  if i.op = .label then i.op.name ++ " L" ++ Text.ofInt i.label.toInt
  else
    let inputs := String.join (i.inputs.map fun o => " " ++ o.text)
    let result := if i.result.isAbsent then "" else " -> " ++ i.result.text
    let target := if i.jumps then " L" ++ Text.ofInt i.target.toInt else ""
    i.op.name ++ i.mark ++ inputs ++ result ++ target

/-- The largest label an instruction mentions as its own or as its target. -/
def mentioned (i : Instruction) : LabelId :=
  if i.op = .label then i.label else if i.jumps then i.target else 0

end Instruction

/-- The code of one method. -/
structure Program where
  name : String
  /-- Size of the compiled frame in bytes, with the saved frame pointer and return address. -/
  frameSize : Int64
  /-- The method holds its receiver's monitor in the first lock slot. -/
  isSynchronized : Bool := false
  /-- Offset of the first lock slot from the stack pointer. -/
  monitorOffset : Int64 := 0
  /-- The method uses float registers. -/
  hasFpu : Bool := false
  code : Array Instruction := #[]
  labels : Int64 := 0
  deriving Inhabited

namespace Program

/-- Bytes at the bottom of every frame where stubs store parameters of runtime calls. -/
def reservedArgumentArea : Int64 := 16

def newLabel (p : Program) : LabelId × Program := (p.labels + 1, { p with labels := p.labels + 1 })

def append (p : Program) (i : Instruction) : Program :=
  { p with
    labels := if p.labels < i.mentioned then i.mentioned else p.labels
    code := p.code.push i }

def bind (p : Program) (l : LabelId) : Program := p.append { op := .label, label := l }

def op2 (p : Program) (op : Opcode) (left right result : Operand) : Program :=
  p.append { op, inputs := [left, right], result }

def move (p : Program) (src dst : Operand) : Program :=
  p.append { op := .move, inputs := [src], result := dst }

def cmpBranch (p : Program) (cond : Condition) (left right : Operand) (target : LabelId) : Program :=
  p.append { op := .cmpBranch, cond, inputs := [left, right], target }

/-- Leave the method, with a result unless it is absent. -/
def ret (p : Program) (result : Operand) : Program :=
  p.append { op := .ret, inputs := if result.isAbsent then [] else [result] }

def lineText (i : Instruction) : String :=
  (if i.op = .label then "" else "  ") ++ i.text ++ "\n"

def text (p : Program) : String :=
  "program " ++ p.name ++ " (frame " ++ Text.ofInt p.frameSize.toInt ++ ")\n" ++
    String.join (p.code.toList.map lineText)

end Program

end RiscvJit
