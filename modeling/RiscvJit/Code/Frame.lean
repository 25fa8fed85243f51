import RiscvJit.Code.Sequence

/-
  RiscvJit.Code.Frame — frames of compiled code and their locks.

  A compiled frame saves the return address and the frame pointer at its top. A lock slot in
  a frame holds the displaced mark of the locked object and the object itself. Locking swaps
  the mark of the object for the address of the slot; a mark that points into the stack a
  little above the stack pointer shows that the thread holds the lock already, and then a
  zero is stored as the displaced mark. Unlocking swaps the mark back, unless it is zero.
-/

namespace RiscvJit

open Reg (zr ra sp t0 fp)

def lockSlotObject : Int64 := 8

structure LockRegs where
  obj : Reg
  lock : Reg
  hdr : Reg
  scratch : Reg
  deriving DecidableEq, Repr

namespace Asm

/-- Allocate a frame, save the return address and the frame pointer. -/
def buildFrame (size : Int64) : Asm Unit := do
  addImm sp sp (-size) t0
  storeOff .sd ra sp (size - 8) t0
  storeOff .sd fp sp (size - 16) t0
  addImm fp sp (size - 16) t0

/-- Pop what `buildFrame` built. -/
def removeFrame (size : Int64) : Asm Unit := do
  loadOff .ld ra sp (size - 8) t0
  loadOff .ld fp sp (size - 16) t0
  addImm sp sp size t0

def markNotStackLockable : Int64 := 0x2 ||| markBiasedLockBit

/-- Lock the object, or go to `slow` when it is contended, inflated or biased. -/
def fastLock (r : LockRegs) (slow : Label) : Asm Unit := do
  let done ← newLabel
  sd r.obj r.lock lockSlotObject
  ld r.hdr r.obj objectLayout.mark
  ori r.hdr r.hdr markUnlockedValue
  -- Unlocking relies on a displaced mark that is not zero when the runtime took the lock.
  sd r.hdr r.lock lockDisplacedHeader
  andi r.scratch r.hdr markNotStackLockable
  bnez r.scratch slow
  cmpxchgptr r.hdr r.lock r.obj r.scratch done none
  -- The current mark is the thread's own iff it lies less than a page above the stack pointer.
  sub r.hdr r.hdr sp
  li t0 (7 - (← opts).pageSize)
  and r.hdr r.hdr t0
  sd r.hdr r.lock lockDisplacedHeader
  bnez r.hdr slow
  bind done

/-- Unlock the object, or go to `slow` when its mark no longer points to the slot. -/
def fastUnlock (r : LockRegs) (slow : Label) : Asm Unit := do
  let done ← newLabel
  ld r.hdr r.lock lockDisplacedHeader
  branch .beq r.hdr zr done
  mv r.scratch r.lock
  cmpxchgptr r.scratch r.hdr r.obj t0 done (some slow)
  bind done

end Asm

end RiscvJit
