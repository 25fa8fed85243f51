import RiscvJit.Deopt.Unroll
import RiscvJit.Stub.Interrupt

/-
  RiscvJit.Stub.Deopt — the code that replaces a compiled frame by interpreter frames.

  Compiled code enters with the frame to replace on top of the stack and the pc in ra:
  `deopt` and `reexecute` go on with the current bytecode or do it again, `exception` brings
  an exception in x10 and its pc in x13, and `exception_in_tls` finds them in the thread. The
  runtime answers with the image of a plan. The values are captured, the compiled frame is
  popped, one empty frame per scope is pushed and filled, and the runtime finishes them.

  Each plan has two routines of its own. `capture` gets the room for values in x10, the stack
  pointer of the compiled frame in x11 and the saved registers in x12. `fill` gets the room
  for values in x10 and the frame pointer of the innermost frame in x11, and walks outwards.
-/

namespace RiscvJit

open Reg (zr ra sp t0 t1 fp thread)
open EntryPoint

namespace Stub

open Asm

/-! ## The shared code -/

/-- Registers that survive runtime calls: why the frame is replaced. -/
def deoptKind : Reg := .x 26
def deoptPlan : Reg := .x 18
def deoptResult : Reg := .x 25
def deoptFloatResult : Reg := .f 9
/-- Where to go on, once the frames are pushed. -/
def deoptLastPc : Reg := .moveScratch

/-- Copy the live values while the compiled frame and the saved registers are in place. -/
def captureValues : Asm Unit := do
  ld (.x 10) deoptPlan unrollLayout.values
  addi (.x 11) sp RegisterSave.frameSize
  mv (.x 12) sp
  ld t0 deoptPlan unrollLayout.captureRoutine
  jalr ra t0 0
  restoreResultRegisters
  mv deoptResult (.x 10)
  mv deoptFloatResult (.f 10)

def popCompiledFrame (sender : Reg) : Asm Unit := do
  lwu t1 deoptPlan unrollLayout.deoptimizedFrameSize
  add sp sp t1
  ld ra sp (-8)
  ld fp sp (-16)
  mv sender sp
  lwu t1 deoptPlan unrollLayout.callerAdjustment
  sub sp sp t1

def pushFrames (sender : Reg) : Asm Unit := do
  let sizes : Reg := .x 28
  let pcs : Reg := .x 29
  let count : Reg := .x 30
  let shape := InterpreterShape.riscv
  let loop ← newLabel
  ld sizes deoptPlan unrollLayout.frameSizes
  ld pcs deoptPlan unrollLayout.framePcs
  lwu count deoptPlan unrollLayout.numberOfFrames
  bind loop
  ld t1 sizes 0
  ld ra pcs 0
  enter
  addi t1 t1 (-16)
  sub sp sp t1
  sd sender fp (shape.senderSp * 8)
  sd zr fp (shape.lastSp * 8)
  mv sender sp
  addi sizes sizes 8
  addi pcs pcs 8
  addi count count (-1)
  branch .bne count zr loop
  mv deoptLastPc pcs

def fillFrames : Asm Unit := do
  ld (.x 10) deoptPlan unrollLayout.values
  mv (.x 11) fp
  ld t0 deoptPlan unrollLayout.fillRoutine
  jalr ra t0 0

/-- Let the runtime finish the frames, and go on in the innermost one. -/
def finishFrames : Asm Unit := do
  let unpacked ← newLabel
  mv (.x 10) thread
  lwu (.x 11) deoptPlan unrollLayout.unpackKind
  setLastJavaFrame sp fp unpacked t0
  rtCall .unpackFrames
  bind unpacked
  addOopMap { frameSlots := 0 }
  resetLastJavaFrame true
  mv (.x 10) deoptResult
  mv (.f 10) deoptFloatResult
  ld ra deoptLastPc 0
  ret

/-- From the saved registers to the innermost interpreter frame. -/
def unpack (m : OopMap) : Asm Unit := do
  let sender : Reg := .x 21
  let fetched ← newLabel
  mv (.x 10) thread
  mv (.x 11) deoptKind
  setLastJavaFrame sp fp fetched t0
  rtCall .fetchUnrollInfo
  bind fetched
  addOopMap m
  resetLastJavaFrame false
  mv deoptPlan (.x 10)
  captureValues
  popCompiledFrame sender
  pushFrames sender
  fillFrames
  finishFrames

def noteKind (k : UnpackKind) : Asm Unit := li deoptKind k.code.toInt64

/-- The four entries and the code they share. -/
def deoptBody : Asm Unit := do
  let cont ← newLabel
  markEntry EntryPoint.deopt
  let m ← saveLiveRegisters
  noteKind .deopt
  j cont
  markEntry reexecute
  let _ ← saveLiveRegisters
  noteKind .reexecute
  j cont
  markEntry exception
  sd (.x 10) thread threadLayout.exceptionOop
  sd (.x 13) thread threadLayout.exceptionPc
  markEntry exceptionInTls
  let _ ← saveLiveRegisters
  noteKind .exception
  bind cont
  unpack m

def deopt (t : Target) (base : UInt64) : Except Stop CodeBlob :=
  (Asm.generate t "deopt_blob" base t.opts.stubBufferSize RegisterSave.frameSize deoptBody).map (·.1)

/-! ## The routines of a plan -/

/-- The load of a value from the stack of the compiled frame. -/
def captureLoadOp (k : ValueKind) : Op :=
  if k.isIntLike then .lw else if k = .float || k = .narrowOop then .lwu else .ld

/-- Load a value into t0 as a whole word of the interpreter. -/
def captureValue (v : ScopeValue) : Asm Unit := do
  match v.loc with
  | .nowhere => li t0 v.bits.toInt64
  | .stack slot =>
    loadOff (captureLoadOp v.kind) t0 (.x 11) (Location.slotBytes slot) t0
    if v.kind = .narrowOop then decodeHeapOop t0 t1
  | l =>
    let off ← RegisterSave.slotOf l.reg
    load (if v.kind = .float || v.kind = .narrowOop then .lwu else .ld) t0 (.x 12) off
    if v.kind = .narrowOop then decodeHeapOop t0 t1

/-- Capture the values from number `i` on. -/
def captureFrom : Nat → List ScopeValue → Asm Unit
  | _, [] => return
  | i, v :: rest => do
    captureValue v
    storeOff .sd t0 (.x 10) (Int64.ofNat i * 8) t1
    captureFrom (i + 1) rest

def fillSlot (s : SlotStore) : Asm Unit := do
  match s.source with
  | .value i => loadOff .ld t0 (.x 10) (Int64.ofNat i * 8) t0
  | .const bits => li t0 bits
  | .framePointer off => addImm t0 (.x 11) off t1
  storeOff .sd t0 (.x 11) s.offset t1

def fillPlans : List FramePlan → Asm Unit
  | [] => return
  | p :: rest => do
    p.stores.forM fillSlot
    unless rest.isEmpty do ld (.x 11) (.x 11) 0
    fillPlans rest

def deoptRoutinesBody (u : UnrollBlock) : Asm Unit := do
  markEntry capture
  captureFrom 0 u.values
  ret
  markEntry fill
  fillPlans u.frames
  ret

def deoptRoutines (t : Target) (u : UnrollBlock) (base : UInt64) : Except Stop CodeBlob :=
  (Asm.generate t ("deopt_routines:" ++ Text.ofNat u.frames.length) base t.opts.codeBufferSize 0
    (deoptRoutinesBody u)).map (·.1)

end Stub

def UnrollBlock.withRoutines (u : UnrollBlock) (blob : CodeBlob) : Except Fault UnrollBlock := do
  return { u with
    captureRoutine := ← blob.entryAddress capture
    fillRoutine := ← blob.entryAddress fill }

end RiscvJit
