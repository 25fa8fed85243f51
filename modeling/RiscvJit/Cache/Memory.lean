import RiscvJit.Fault

/-
  RiscvJit.Cache.Memory — the memory behind an address range.

  A memory stands for the addresses from its base on, as many as it has bytes. It starts as
  zeros and remembers what was written. Reading and writing check that the range lies inside;
  once the memory is closed neither is possible. Sums of addresses are taken modulo 2^64.
-/

namespace RiscvJit

/-- Bytes written at an offset. -/
structure MemoryWrite where
  offset : Nat
  bytes : List UInt8
  deriving DecidableEq, Repr

def MemoryWrite.byteAt? (w : MemoryWrite) (offset : Nat) : Option UInt8 :=
  if w.offset ≤ offset then w.bytes[offset - w.offset]? else none

/-- Memory that stands for an address range. -/
structure Memory where
  base : UInt64
  /-- The number of bytes. -/
  size : Nat
  writes : List MemoryWrite := []
  closed : Bool := false
  deriving DecidableEq, Repr

namespace Memory

/-- As many bytes as this are never to be had. -/
def limit : Int64 := 0x800000000

def map (base : UInt64) (size : Int64) : Except Stop Memory :=
  if size ≤ 0 then .error (.fault (.defect ("MmapCodeSegment with size " ++ Text.ofInt size.toInt)))
  else if limit ≤ size then .error (.failure (.refused "cannot allocate memory"))
  else .ok { base, size := size.toNatClampNeg }

def reserve (base : UInt64) (size : Int64) : Except Stop Memory :=
  (map base size).mapError fun e =>
    match e with
    | .failure f => .failure (.within ("mapping " ++ Text.ofInt size.toInt ++ " bytes of code cache") f)
    | e => e

/-- Give mapped bytes back; there have to be some. -/
def unmap (size : Nat) : Except Fault Unit :=
  if size = 0 then .error (.defect "MunmapCodeSegment with zero length") else .ok ()

/-- A range that is not inside. -/
def outside (addr : UInt64) (n : Int64) : Failure :=
  .refused ("range " ++ Text.hex addr.toNat ++ "+" ++ Text.ofInt n.toInt ++ " is outside of the code cache")

/-- The range of `n` bytes from `addr` on ends inside. -/
def holds (m : Memory) (addr : UInt64) (n : Int64) : Bool :=
  m.base ≤ addr && (addr - m.base + n.toUInt64).toNat ≤ m.size

/-- Where the range of `n` bytes from `addr` on starts. -/
def offset (m : Memory) (addr : UInt64) (n : Int64) : Except Stop Nat :=
  if m.closed then .error (.failure (.refused "code cache memory is closed"))
  else if !m.holds addr n then .error (.failure (outside addr n))
  else
    -- A sum past 2^64, or a negative length, can pass the test above.
    let start := (addr - m.base).toInt64
    if start < 0 || n < 0 then .error (.fault .trap) else .ok start.toNatClampNeg

def byteAt (m : Memory) (offset : Nat) : UInt8 :=
  (m.writes.findSome? (·.byteAt? offset)).getD 0

def install (m : Memory) (addr : UInt64) (bytes : List UInt8) : Except Stop Memory := do
  let offset ← m.offset addr (Int64.ofNat bytes.length)
  return { m with writes := ⟨offset, bytes⟩ :: m.writes }

def read (m : Memory) (addr : UInt64) (n : Int64) : Except Stop (List UInt8) := do
  let offset ← m.offset addr n
  return (List.range n.toNatClampNeg).map fun i => m.byteAt (offset + i)

def close (m : Memory) : Memory := { m with closed := true, writes := [] }

end Memory

/-- Whatever makes code visible at its address. -/
inductive Installer where
  | memory (m : Memory)
  | unavailable (reason : String)
  deriving DecidableEq, Repr

namespace Installer

def install (i : Installer) (addr : UInt64) (bytes : List UInt8) : Except Stop Installer :=
  match i with
  | memory m => (m.install addr bytes).map memory
  | unavailable reason => .error (.failure (.refused reason))

def mapped (i : Installer) : Except Stop Memory :=
  match i with
  | memory m => .ok m
  | unavailable _ => .error (.fault .trap)

end Installer

end RiscvJit
