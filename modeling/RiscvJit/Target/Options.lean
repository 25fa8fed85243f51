import RiscvJit.Fault

/-
  RiscvJit.Target.Options — the settings that change the shape of generated code.

  They are fixed for the lifetime of a process. `refusal?` names the first setting that
  makes no sense; code is only generated when there is none.
-/

namespace RiscvJit

/-- Settings of the virtual machine that generated code depends on. -/
structure Options where
  /-- References are stored as 32 bits: `(addr - oopBase) >> oopShift`. -/
  compressedOops : Bool := true
  oopShift : UInt8 := 3
  oopBase : UInt64 := 0
  /-- Type descriptor pointers are stored as 32 bits: `(addr - klassBase) >> klassShift`. -/
  compressedClassPointers : Bool := true
  klassShift : UInt8 := 0
  klassBase : UInt64 := 0
  /-- Objects are allocated inline from the thread's buffer. -/
  useTlab : Bool := true
  useFastLocking : Bool := true
  typeProfileWidth : Int64 := 2
  profileTypes : Bool := true
  pageSize : Int64 := 4096
  codeBufferSize : Int64 := 65536
  stubBufferSize : Int64 := 4096
  deriving DecidableEq, Repr, Inhabited

namespace Options

def pageSizeOk (n : Int64) : Bool := 0 < n && n &&& (n - 1) = 0

/-- The first setting that makes no sense. -/
def refusal? (o : Options) : Option String :=
  if 3 < o.oopShift then
    some ("compressed oop shift " ++ Text.ofNat o.oopShift.toNat ++ " exceeds 3")
  else if 3 < o.klassShift then
    some ("compressed klass shift " ++ Text.ofNat o.klassShift.toNat ++ " exceeds 3")
  else if o.compressedClassPointers && !o.compressedOops then
    some "compressed class pointers require compressed oops"
  else if !pageSizeOk o.pageSize then
    some ("page size " ++ Text.ofInt o.pageSize.toInt ++ " is not a power of two")
  else if o.typeProfileWidth < 0 || 8 < o.typeProfileWidth then
    some ("type profile width " ++ Text.ofInt o.typeProfileWidth.toInt ++ " out of range [0, 8]")
  else if o.codeBufferSize ≤ 0 || o.stubBufferSize ≤ 0 then
    some "buffer sizes must be positive"
  else none

def heapOopSize (o : Options) : Nat := if o.compressedOops then 4 else 8

end Options

end RiscvJit
