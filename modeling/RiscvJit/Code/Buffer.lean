import RiscvJit.Fault
import RiscvJit.Text.Quoted

/-
  RiscvJit.Code.Buffer — a stream of machine code of fixed capacity.

  A buffer never grows. The first write that does not fit is recorded as the reason of
  failure; it and every later write are dropped, and generators give up at the next
  convenient point. So running out of space stays an ordinary outcome.

  Stubs (exception handlers, trampolines, slow paths) are bracketed and follow the main code
  in the same stream, so that every offset stays valid.

  Facts that hold on every run: the written bytes never exceed the capacity; the reason of
  failure is the first one; once failed, the length no longer changes; only `patch` changes
  bytes that were written before.
-/

namespace RiscvJit

/-- The byte range of a stub; its end is known once the stub is closed. -/
structure StubRange where
  name : String
  start : Nat
  stop : Nat := 0
  deriving DecidableEq, Repr, Inhabited

structure CodeBuffer where
  name : String
  /-- The address the code will run at; zero when it is not known. -/
  base : UInt64
  capacity : Nat
  bytes : Array UInt8 := #[]
  /-- What the memory past the end of the code still holds of earlier contents. -/
  stale : Array UInt8 := #[]
  /-- Why the buffer stopped accepting writes; empty while it does. -/
  failure : String := ""
  inStub : Bool := false
  stubs : Array StubRange := #[]
  /-- Where the main code ends, once a stub was opened. -/
  mainEnd : Option Nat := none
  deriving Repr, Inhabited

namespace CodeBuffer

/-- The main code or the inside of a stub does not fit. -/
def codeOverflow : String := "code buffer overflow"

/-- A stub could not be opened for lack of room. -/
def stubOverflow : String := "stub buffer overflow"

/-- No memory can have this capacity. -/
def capacityLimit : Int := 2 ^ 48

def create (name : String) (base : UInt64) (capacity : Int64) : Except Fault CodeBuffer :=
  if capacity < 0 || capacityLimit < capacity.toInt then .error .trap
  else .ok { name, base, capacity := capacity.toNatClampNeg }

def offset (b : CodeBuffer) : Nat := b.bytes.size

def pc (b : CodeBuffer) : UInt64 := b.base + UInt64.ofNat b.offset

/-- Bytes that can still be written. -/
def remaining (b : CodeBuffer) : Nat := b.capacity - b.offset

def failed (b : CodeBuffer) : Bool := !b.failure.isEmpty

def fail (b : CodeBuffer) (reason : String) : CodeBuffer :=
  if b.failed then b else { b with failure := reason }

/-- Size of the main code: up to the first stub, or everything. -/
def mainSize (b : CodeBuffer) : Nat := b.mainEnd.getD b.offset

/-! ## Writing -/

/-- Byte `i` of a little-endian number. -/
def byteAt (v : UInt64) (i : Nat) : UInt8 := (v >>> UInt64.ofNat (8 * i)).toUInt8

/-- Append a word of four bytes, or fail. -/
def emit4 (b : CodeBuffer) (w : UInt32) : CodeBuffer :=
  if b.failed then b
  else if b.capacity < b.offset + 4 then { b with failure := codeOverflow }
  else
    let v := w.toUInt64
    { b with bytes := (((b.bytes.push (byteAt v 0)).push (byteAt v 1)).push (byteAt v 2)).push (byteAt v 3) }

/-- Append a word of eight bytes, or fail. -/
def emit8 (b : CodeBuffer) (v : UInt64) : CodeBuffer :=
  if b.failed then b
  else if b.capacity < b.offset + 8 then { b with failure := codeOverflow }
  else { b with bytes := (List.range 8).foldl (fun bytes i => bytes.push (byteAt v i)) b.bytes }

/-! ## Reading back and patching -/

/-- The byte of memory at an offset, whether written since the last reset or not. -/
def peek (b : CodeBuffer) (i : Nat) : UInt8 :=
  if i < b.bytes.size then b.bytes.getD i 0 else b.stale.getD i 0

/-- The word at an offset; the whole capacity can be read. -/
def wordAt (b : CodeBuffer) (off : Int64) : Except Fault UInt32 :=
  if off < 0 || (b.capacity : Int) < off.toInt + 4 then .error .trap
  else
    let i := off.toNatClampNeg
    .ok ((b.peek i).toUInt32 ||| (b.peek (i + 1)).toUInt32 <<< 8 |||
      (b.peek (i + 2)).toUInt32 <<< 16 ||| (b.peek (i + 3)).toUInt32 <<< 24)

/-- Replace four bytes that were written. -/
def patchBytes (bytes : Array UInt8) (i : Nat) (w : UInt32) : Array UInt8 :=
  let v := w.toUInt64
  (((bytes.setIfInBounds i (byteAt v 0)).setIfInBounds (i + 1) (byteAt v 1)).setIfInBounds (i + 2)
    (byteAt v 2)).setIfInBounds (i + 3) (byteAt v 3)

/-- Replace the word at an offset; a write that was dropped is not patched. -/
def patch (b : CodeBuffer) (off : Int64) (w : UInt32) : Except Fault CodeBuffer :=
  let stop := off + 4
  if (b.offset : Int) < stop.toInt then .ok b
  else if off < 0 || stop < off then .error .trap
  else .ok { b with bytes := patchBytes b.bytes off.toNatClampNeg w }

/-! ## Stubs -/

/-- Open a stub that needs at most `size` bytes; false when there is no room for it. -/
def startStub (b : CodeBuffer) (name : String) (size : Int64) : Except Fault (Bool × CodeBuffer) :=
  if b.inStub then .error (.defect ("nested stub " ++ Text.quote name ++ " in " ++ b.name))
  else if b.failed then .ok (false, b)
  else if (b.remaining : Int) < size.toInt then .ok (false, { b with failure := stubOverflow })
  else
    .ok (true, { b with
      mainEnd := some (b.mainEnd.getD b.offset)
      inStub := true
      stubs := b.stubs.push { name, start := b.offset } })

def endStub (b : CodeBuffer) : Except Fault CodeBuffer :=
  if !b.inStub then .error (.defect ("EndStub without StartStub in " ++ b.name))
  else
    .ok { b with
      inStub := false
      stubs := b.stubs.modify (b.stubs.size - 1) fun s => { s with stop := b.offset } }

/-- Start over; the memory keeps its contents. -/
def reset (b : CodeBuffer) : CodeBuffer :=
  { name := b.name, base := b.base, capacity := b.capacity
    stale := b.bytes ++ b.stale.extract b.bytes.size b.stale.size }

end CodeBuffer

end RiscvJit
