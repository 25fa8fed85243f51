import RiscvJit.Target.Layout
import RiscvJit.Value.Kind
import RiscvJit.Value.Location

/-
  RiscvJit.Deopt.Scope — what the interpreter would hold at a point of compiled code.

  A point of compiled code stands for a chain of inlined scopes, innermost first. Each scope
  names its method and the bytecode it is at, and says where the compiled frame holds its
  locals, its expression stack and its monitors. A long or double takes two entries, the
  second one void.
-/

namespace RiscvJit

/-- A method, as far as its interpreter frame is concerned. -/
structure MethodInfo where
  name : String := ""
  address : UInt64 := 0
  /-- The address of the first bytecode. -/
  codeBase : UInt64 := 0
  /-- The class object kept in interpreter frames, zero if not needed. -/
  classObject : UInt64 := 0
  maxLocals : Int64 := 0
  maxStack : Int64 := 0
  parameterSlots : Int64 := 0
  deriving DecidableEq, Repr, Inhabited

/-- The value of a local, an expression stack element or a monitor's owner. -/
structure ScopeValue where
  kind : ValueKind
  /-- Where the compiled frame holds the value; nowhere for constants. -/
  loc : Location := .nowhere
  /-- The value of a constant. -/
  bits : UInt64 := 0
  deriving DecidableEq, Repr, Inhabited

namespace ScopeValue

/-- The second half of a long or double, or a dead slot. -/
def void : ScopeValue := { kind := .void }

/-- The value is not held in the compiled frame. -/
def isConstant (v : ScopeValue) : Bool := !v.loc.isValid

def text (v : ScopeValue) : String :=
  if v.kind = .void then "void"
  else if v.isConstant then v.kind.name ++ ":#" ++ Text.hex v.bits.toNat
  else v.kind.name ++ ":" ++ v.loc.name

end ScopeValue

/-- A monitor held by a scope: its owner, and the lock slot in the compiled frame. -/
structure MonitorValue where
  owner : ScopeValue
  lock : Location
  deriving DecidableEq, Repr, Inhabited

/-- One inlined level. -/
structure Scope where
  method : Option MethodInfo
  bci : Int64 := 0
  /-- The interpreter has to execute the bytecode again. -/
  reexecute : Bool := false
  locals : List ScopeValue := []
  expressions : List ScopeValue := []
  monitors : List MonitorValue := []
  deriving DecidableEq, Repr, Inhabited

/-! ## The frames of the interpreter

An interpreter frame has fixed slots at word offsets from its frame pointer, then its
monitors, then its expression stack, growing downwards. Its locals lie above the frame
pointer, in the frame of the caller: the arguments that the caller pushed come first, and
the caller's frame is made larger for the others. All offsets are taken modulo 2^64. -/

/-- Word offsets of the fixed slots from the frame pointer. -/
structure InterpreterShape where
  senderSp : Int64
  lastSp : Int64
  method : Int64
  classObject : Int64
  profile : Int64
  cache : Int64
  locals : Int64
  bytecode : Int64
  initialSp : Int64
  /-- Where the stack pointer of the caller was. -/
  senderSpFromFp : Int64
  monitorWords : Int64
  deriving DecidableEq, Repr

namespace InterpreterShape

def riscv : InterpreterShape where
  senderSp := -1
  lastSp := -2
  method := -3
  classObject := -4
  profile := -5
  cache := -6
  locals := -7
  bytecode := -8
  initialSp := -9
  senderSpFromFp := 2
  monitorWords := 2

/-- Words of the fixed part, with the saved frame pointer and return address. -/
def overheadWords (s : InterpreterShape) : Int64 := s.senderSpFromFp - s.initialSp

/-- The size in words of a frame of `m` with its monitors and room for the locals of a callee. -/
def frameWords (s : InterpreterShape) (m : MethodInfo) (monitors : Int64) (callee : Option MethodInfo) :
    Int64 :=
  let words := s.overheadWords + monitors * s.monitorWords + m.maxStack
  alignUp (words + (callee.map (·.maxLocals)).getD 0) 2

/-- The offset of local 0 from the frame pointer, in bytes. -/
def localsPointer (s : InterpreterShape) (maxLocals : Int64) : Int64 :=
  (s.senderSpFromFp + maxLocals - 1) * 8

def localAddress (locals : UInt64) (i : Int64) : UInt64 := locals - i.toUInt64 * 8

/-- The end of the monitors, as a byte offset from the frame pointer. -/
def monitorBottom (s : InterpreterShape) : Int64 := s.initialSp * 8

def monitorOffset (s : InterpreterShape) (k : Int64) : Int64 :=
  s.monitorBottom - (k + 1) * s.monitorWords * 8

/-- The top of that many monitors, as a byte offset from the frame pointer. -/
def monitorTop (s : InterpreterShape) (monitors : Int64) : Int64 :=
  s.monitorBottom - monitors * s.monitorWords * 8

/-- The address of an expression stack element, counted from the bottom, below the monitors. -/
def expressionAddress (monitorTop : UInt64) (j : Int64) : UInt64 := monitorTop - (j + 1).toUInt64 * 8

/-- How many bytes the caller of a frame grows by for the locals that are no parameters. -/
def lastFrameAdjust (params locals : Int64) : Int64 :=
  if locals ≤ params then 0 else alignUp (locals - params) 2 * 8

def text (s : InterpreterShape) : String :=
  tableText [("SenderSP", s.senderSp), ("LastSP", s.lastSp), ("Method", s.method),
    ("Mirror", s.classObject), ("MDP", s.profile), ("Cache", s.cache), ("Locals", s.locals),
    ("BCP", s.bytecode), ("InitialSP", s.initialSp), ("SenderSPFromFP", s.senderSpFromFp),
    ("MonitorWords", s.monitorWords)]

end InterpreterShape

end RiscvJit
