import RiscvJit.Lower.Call

/-
  RiscvJit.Lower.SlowPath — the code after the main code.

  Slow paths call the runtime, which keeps every register but t0, t1 and the result
  registers, so the main code keeps its values over them. Each is a stub of its own. Last
  comes the unwind handler, if there is a jump to it: it releases the monitor of a
  synchronized method, pops the frame and goes on unwinding in the caller.
-/

namespace RiscvJit

open Reg (zr sp t0 thread moveScratch)
open Asm

namespace SlowPath

/-- The most bytes one slow path may take. -/
def maxSize : Int64 := 128

def name : SlowPath → String
  | divByZero .. => "div_by_zero_stub"
  | exception routine .. => routine.name ++ "_stub"
  | rangeCheck .. => "range_check_stub"
  | monitorEnter .. => "monitor_enter_stub"
  | monitorExit .. => "monitor_exit_stub"
  | newInstance .. => "new_instance_stub"
  | newArray routine .. => routine.name ++ "_stub"
  | safepointPoll .. => "safepoint_poll_stub"
  | trampoline .. => "trampoline_stub"

end SlowPath

namespace Lower

def reportIndex (index : Operand) : Lower Unit := do
  match index with
  | .constant _ bits => li t0 (Operand.intOfBits bits).toInt64
  | _ =>
    let r ← reg index "index"
    mv t0 r

def emitSlowPath : SlowPath → Lower Unit
  | .divByZero info entry => do
    Asm.bind entry
    rtCall .throwDivZero
    addSite (some info)
    ebreak
  | .exception routine obj info entry => do
    Asm.bind entry
    if obj.isValid then mv t0 obj
    rtCallWithArg routine
    addSite info
    ebreak
  | .rangeCheck index info entry => do
    Asm.bind entry
    reportIndex index
    rtCallWithArg .throwRangeCheck
    addSite info
    ebreak
  | .monitorEnter obj lock info entry cont => do
    Asm.bind entry
    sd obj sp 0
    sd lock sp 8
    rtCall .monitorEnter
    addSite info
    j cont
  | .monitorExit lock entry cont => do
    Asm.bind entry
    sd lock sp 0
    rtCall .monitorExit
    j cont
  | .newInstance klass result info entry cont => do
    Asm.bind entry
    mv (.x 13) klass
    rtCall .newInstance
    addSite info
    mv result (.x 10)
    j cont
  | .newArray routine klass length result info entry cont => do
    Asm.bind entry
    mv t0 length
    mv (.x 13) klass
    mv (.x 19) t0
    rtCall routine
    addSite info
    mv result (.x 10)
    j cont
  | .safepointPoll poll entry => do
    Asm.bind entry
    la t0 poll
    sd t0 thread threadLayout.savedExceptionPc
    rtJump .safepointHandler
  | .trampoline target entry => do
    -- The target follows the jump, at a multiple of eight.
    alignTo 8 4
    Asm.bind entry
    auipc t0 0
    ld t0 t0 12
    jalr zr t0 0
    word64 target

/-- Write slow paths as stubs until one does not fit; true when all did. -/
def emitSlowPaths : List SlowPath → Lower Bool
  | [] => return true
  | p :: rest => do
    if ← startStub p.name SlowPath.maxSize then
      comment p.name
      emitSlowPath p
      endStub
      emitSlowPaths rest
    else return false

def unwindLockRegs : LockRegs := { obj := .x 14, lock := .x 11, hdr := .x 15, scratch := .x 16 }

def releaseMonitor (monitorOffset : Int64) : Asm Unit := do
  let r := unwindLockRegs
  let slow ← newLabel
  let unlocked ← newLabel
  mv moveScratch exceptionReg
  addImm r.lock sp monitorOffset t0
  ld r.obj r.lock lockSlotObject
  if (← read).opts.useFastLocking then
    fastUnlock r slow
    j unlocked
  Asm.bind slow
  sd r.lock sp 0
  rtCall .monitorExit
  Asm.bind unlocked
  mv exceptionReg moveScratch

def unwindHandler (p : Program) (entry : Label) : Asm Unit := do
  comment "unwind handler"
  Asm.bind entry
  if p.isSynchronized then releaseMonitor p.monitorOffset
  removeFrame p.frameSize
  rtJump .unwindException

/-- Write all that follows the main code. -/
def emitStubs : Lower Unit := do
  if ← emitSlowPaths (← get).slowPaths.toList then
    let s ← get
    match s.unwind with
    | none => return
    | some entry =>
      if ← startStub "unwind_handler" (2 * SlowPath.maxSize) then
        unwindHandler s.prog entry
        endStub

end Lower

end RiscvJit
