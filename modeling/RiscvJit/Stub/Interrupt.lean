import RiscvJit.Code.Blob
import RiscvJit.Code.Sequence

/-
  RiscvJit.Stub.Interrupt — code that interrupts compiled code.

  Code that interrupts compiled code saves all registers first. From the stack pointer
  upwards the frame holds the float registers, the integer registers but zr, ra, sp and fp,
  and then the frame pointer and return address. A map tells the collector where the
  registers of the interrupted code are.
-/

namespace RiscvJit

open Reg (ra sp t0 t1 fp thread)

namespace RegisterSave

/-- Float registers in the order they are saved. -/
def floats : List Reg := (List.finRange 32).map Reg.f

/-- Integer registers in the order they are saved. -/
def ints : List Reg := ((List.finRange 32).map Reg.x).filter fun r => r ≠ fp && 3 ≤ r.code

/-- Size of the saved registers, without the frame pointer and return address. -/
def areaSize : Int64 := 480

def frameSize : Int64 := areaSize + 16

/-- Where a register is saved, from the stack pointer. -/
def slotOf (r : Reg) : Except Fault Int64 :=
  match r with
  | .f n => .ok (8 * Int64.ofNat n)
  | _ =>
    if r = fp then .ok areaSize
    else if r = ra then .ok (areaSize + 8)
    else if ints.contains r then .ok (8 * (32 + Int64.ofNat (ints.idxOf r)))
    else .error (.defect ("register " ++ r.abiName ++ " is not saved"))

/-- Where each register of the interrupted code is found; the thread and the scratch registers
belong to the code that saves. -/
def map : Except Fault OopMap := do
  let saved := floats ++ ints.filter (fun r => r ≠ thread && r ≠ t0 && r ≠ t1) ++ [fp, ra]
  saved.foldlM (fun m r => do m.setCalleeSaved (← Location.ofSlot ((← slotOf r) / 4)) r)
    { frameSlots := frameSize / 4 }

end RegisterSave

namespace Asm

open RegisterSave in
/-- Push a frame that holds every register. -/
def saveLiveRegisters : Asm OopMap := do
  enter
  addi sp sp (-areaSize)
  floats.forM fun r => do store .fsd r sp (← slotOf r)
  ints.forM fun r => do sd r sp (← slotOf r)
  RegisterSave.map

/-- Pop the frame pointer and return address. -/
def popLinkage : Asm Unit := do
  addi sp sp RegisterSave.areaSize
  ld fp sp 0
  ld ra sp 8
  addi sp sp 16

open RegisterSave in
def restoreLiveRegisters : Asm Unit := do
  floats.forM fun r => do load .fld r sp (← slotOf r)
  ints.forM fun r => do ld r sp (← slotOf r)
  popLinkage

open RegisterSave in
def restoreResultRegisters : Asm Unit := do
  load .fld (.f 10) sp (← slotOf (.f 10))
  ld (.x 10) sp (← slotOf (.x 10))
  popLinkage

end Asm

end RiscvJit

/-! ## Runtime calls

Both pieces here save every register, record the frame for the collector, call the runtime
and restore the registers, so that the interrupted code does not notice. The safepoint
handler goes on after the poll, unless the runtime redirected the return address. The
resolver jumps to the code that the runtime found for an unresolved call. -/

namespace RiscvJit

open Reg (zr ra sp t0 t1 fp thread method)

namespace Asm

/-- Forward the pending exception of the thread, if there is one, with all registers restored. -/
def forwardPendingException : Asm Unit := do
  let noException ← newLabel
  ld t0 thread threadLayout.pendingException
  branch .beq t0 zr noException
  restoreLiveRegisters
  rtJump .forwardException
  bind noException

/-- Call a routine with the current thread from a frame that holds every register. -/
def callFromSaveFrame (e : RuntimeEntry) (m : OopMap) : Asm Unit := do
  let returned ← newLabel
  setLastJavaFrame sp fp returned t0
  mv (.x 10) thread
  rtCall e
  bind returned
  addOopMap m
  resetLastJavaFrame false
  forwardPendingException

end Asm

namespace Stub

open Asm

def safepointHandlerBody : Asm Unit := do
  let returnAddress ← RegisterSave.slotOf ra
  let resume ← newLabel
  let m ← saveLiveRegisters
  -- The poll looks like a call that returns to the poll.
  ld t0 thread threadLayout.savedExceptionPc
  sd t0 sp returnAddress
  callFromSaveFrame .handlePollingPageException m
  ld t0 sp returnAddress
  ld t1 thread threadLayout.savedExceptionPc
  branch .bne t0 t1 resume
  addi t0 t0 safepointPollSize
  sd t0 sp returnAddress
  bind resume
  restoreLiveRegisters
  ret

def safepointHandler (t : Target) (base : UInt64) : Except Stop CodeBlob :=
  (Asm.generate t "safepoint_handler_blob" base t.opts.stubBufferSize RegisterSave.frameSize
    safepointHandlerBody).map (·.1)

/-- The body of a resolver: the runtime returns the code in x10 and the method beside it. -/
def resolverBody (e : RuntimeEntry) : Asm Unit := do
  let m ← saveLiveRegisters
  callFromSaveFrame e m
  ld t1 thread threadLayout.vmResult2
  sd t1 sp (← RegisterSave.slotOf method)
  sd (.x 10) sp (← RegisterSave.slotOf t0)
  sd zr thread threadLayout.vmResult2
  restoreLiveRegisters
  jr t0

/-- The code that unresolved call sites call; the runtime routine `e` resolves. -/
def resolver (t : Target) (name : String) (e : RuntimeEntry) (base : UInt64) : Except Stop CodeBlob :=
  (Asm.generate t name base t.opts.stubBufferSize RegisterSave.frameSize (resolverBody e)).map (·.1)

end Stub

end RiscvJit
