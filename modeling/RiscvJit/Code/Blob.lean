import RiscvJit.Code.Assembler

/-
  RiscvJit.Code.Blob — finished pieces of code.

  Generating a piece of code starts from an empty buffer at a base address. When the buffer
  did not fail, its contents become a blob: the bytes, the entry points, the stubs and the
  maps of references. When it failed, the outcome is a bailout with the recorded reason.
-/

namespace RiscvJit

structure CodeBlob where
  name : String
  /-- The address the code is meant for; zero when it is not known. -/
  base : UInt64
  code : List UInt8
  mainSize : Nat := 0
  stubs : List StubRange := []
  entries : List (String × Int64) := []
  /-- Size of the frame the code builds; zero for code without frame. -/
  frameSize : Int64 := 0
  oopMaps : OopMapSet := {}
  comments : List (Nat × String) := []
  deriving Repr, Inhabited

namespace CodeBlob

def size (b : CodeBlob) : Nat := b.code.length

def entryOffset (b : CodeBlob) (name : String) : Except Fault Int64 :=
  match b.entries.lookup name with
  | some off => .ok off
  | none => .error (.defect (b.name ++ " has no entry " ++ Text.quote name))

def entryAddress (b : CodeBlob) (name : String) : Except Fault UInt64 :=
  (b.entryOffset name).map fun off => b.base + off.toUInt64

def nameBefore (a b : String) : Bool := a.toUTF8.data.toList < b.toUTF8.data.toList

/-- Entry points in the order of their offsets, those at one offset by name. -/
def sortedEntries (b : CodeBlob) : List (String × Int64) :=
  b.entries.mergeSort fun x y => x.2 < y.2 || (x.2 == y.2 && !nameBefore y.1 x.1)

def listing (b : CodeBlob) (dialect : Dialect) : String :=
  RiscvJit.listing dialect b.base b.code b.comments

end CodeBlob

/-! ## Names of entry points -/

def EntryPoint.verified : String := "verified_entry"
def EntryPoint.frameComplete : String := "frame_complete"
def EntryPoint.i2c : String := "i2c"
def EntryPoint.c2i : String := "c2i"
def EntryPoint.c2iUnverified : String := "c2i_unverified"
def EntryPoint.unverified : String := "unverified_entry"
def EntryPoint.deopt : String := "deopt"
def EntryPoint.reexecute : String := "reexecute"
def EntryPoint.exception : String := "exception"
def EntryPoint.exceptionInTls : String := "exception_in_tls"
def EntryPoint.capture : String := "capture"
def EntryPoint.fill : String := "fill"

/-! ## From assembler to blob -/

/-- An assembler for a piece of code at a base address. -/
def Assembler.start (name : String) (base : UInt64) (capacity : Int64) : Except Fault Assembler :=
  (CodeBuffer.create name base capacity).map fun buf => { buf }

def Assembler.finish (a : Assembler) (frameSize : Int64) : Except Failure CodeBlob :=
  if a.buf.failed then .error (.bailout a.buf.name a.buf.failure)
  else
    .ok { name := a.buf.name
          base := a.buf.base
          code := a.buf.bytes.toList
          mainSize := a.buf.mainSize
          stubs := a.buf.stubs.toList
          entries := a.entries.map fun (n, off) => (n, Int64.ofNat off)
          frameSize
          oopMaps := a.oopMaps
          comments := a.comments.toList }

/-- Generate a piece of code in a buffer of its own. -/
def Asm.generate {α : Type} (t : Target) (name : String) (base : UInt64) (capacity : Int64)
    (frameSize : Int64) (body : Asm α) : Except Stop (CodeBlob × α) := do
  let a ← Stop.ofFault (Assembler.start name base capacity)
  let (r, a) ← Stop.ofFault (body t a)
  let blob ← Stop.ofFailure (a.finish frameSize)
  return (blob, r)

end RiscvJit
