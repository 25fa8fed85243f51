import RiscvJit.Call.Moves
import RiscvJit.Code.Frame
import RiscvJit.Frame.Layout
import RiscvJit.Stub.Adapter

/-
  RiscvJit.Stub.NativeWrapper — calling native code from managed code.

  The wrapper of a native method moves the arguments from the managed into the native
  convention, behind the environment and, for static methods, the class. References are
  passed as handles: the address of a slot in the wrapper's frame that holds the reference,
  or null. Around the call the thread is in native state; on the way back it may have to stop
  for a safepoint. A synchronized method holds the monitor of its receiver or class during
  the call. An exception that the native code left pending is forwarded.

  The frame holds, from the stack pointer up: outgoing stack arguments, the handles, the
  handle of the class, the lock slot, room for the result, and the saved registers.
-/

namespace RiscvJit

open Reg (zr sp t0 t1 t2 fp thread moveScratch)
open Location

structure NativeMethod where
  name : String
  /-- The managed signature, with the receiver of instance methods. -/
  sig : Option Signature
  isStatic : Bool := false
  isSynchronized : Bool := false
  /-- The address of the native function. -/
  entry : UInt64 := 0
  classObject : UInt64 := 0
  deriving DecidableEq, Repr, Inhabited

structure NativeWrapper where
  blob : CodeBlob
  layout : FrameLayout
  nativeSig : Signature
  /-- How the arguments that are no references were moved, in order. -/
  moves : List Move

namespace NativeWrapper

def text (w : NativeWrapper) : Except Fault String :=
  w.nativeSig.text.map fun s => w.blob.name ++ " " ++ s ++ "\n" ++ w.layout.text

/-! ## The plan of a wrapper -/

/-- One argument of the method, without the void halves. -/
structure Argument where
  kind : ValueKind
  /-- Where it comes from; stack slots count from the wrapper's stack pointer. -/
  src : Location
  /-- Where the native function expects it. -/
  dst : Location
  /-- The handle of a reference, as an offset from the stack pointer. -/
  handle : Option Int64
  deriving DecidableEq, Repr

structure Plan where
  method : NativeMethod
  sig : Signature
  nativeSig : Signature
  layout : FrameLayout
  args : List Argument
  classHandle : Option Int64
  lockSlot : Option Int64
  resultTemp : Int64

/-- What comes before the arguments of the method in the native signature. -/
def leadingKinds (isStatic : Bool) : List ValueKind := if isStatic then [.address, .object] else [.address]

/-- A region for a part that not every method has. -/
def reserveIf (b : FrameBuilder) (wanted : Bool) (name : String) (size : Int64) :
    Except Fault (Option Int64 × FrameBuilder) :=
  if wanted then (b.reserve name size 8).map fun (off, b) => (some off, b) else .ok (none, b)

/-- Offsets of the handles of the references among the kinds, one word each. -/
def handleOffsets : Int64 → List ValueKind → List (Option Int64)
  | _, [] => []
  | next, k :: rest =>
    if k.isReference then some next :: handleOffsets (next + 8) rest else none :: handleOffsets next rest

/-- A stack argument of the caller, seen from below the wrapper's frame. -/
def incoming (frameSlots : Int64) : Location → Except Fault Location
  | .stack slot => ofSlot (Int64.ofNat slot + frameSlots)
  | l => .ok l

def arguments : List ValueKind → List Location → List Location → List (Option Int64) → List Argument
  | k :: ks, s :: ss, d :: ds, h :: hs =>
    if k = .void then arguments ks ss ds hs else ⟨k, s, d, h⟩ :: arguments ks ss ds hs
  | _, _, _, _ => []

/-- Refuse a method that cannot have a wrapper. -/
def checkMethod (m : NativeMethod) : Except Fault Signature := do
  match m.sig with
  | none => throw (.precondition ("native method " ++ m.name ++ " has no signature"))
  | some sig =>
    check (m.isStatic || (sig.args.head?.map (·.isReference)).getD false) fun _ =>
      "instance method " ++ m.name ++ " has no receiver"
    check (m.entry ≠ 0) fun _ => "native method " ++ m.name ++ " has no entry"
    return sig

/-- Lay out the frame of a wrapper. -/
def plan (m : NativeMethod) : Except Fault Plan := do
  let sig ← checkMethod m
  let leading := leadingKinds m.isStatic
  let nativeSig ← Signature.make sig.ret (leading ++ sig.args)
  let kinds := sig.expanded
  let (srcs, _) ← Convention.managed.locate kinds
  let (dsts, outSlots) ← Convention.native.locate nativeSig.expanded
  let references := kinds.countP (·.isReference)
  let (_, b) ← ({} : FrameBuilder).reserve FrameRegion.outgoingArgs (slotBytes outSlots) 8
  let (handleBase, b) ← b.reserve FrameRegion.oopHandles (Int64.ofNat references * 8) 8
  let (classHandle, b) ← reserveIf b m.isStatic FrameRegion.klassHandle 8
  let (lockSlot, b) ← reserveIf b m.isSynchronized FrameRegion.lock 16
  let (resultTemp, b) ← b.reserve FrameRegion.resultTemp 16 8
  let layout := b.finish FrameRegion.linkage 16
  let srcs ← srcs.mapM (incoming layout.slots)
  let args := arguments kinds srcs (dsts.drop leading.length) (handleOffsets handleBase kinds)
  return { method := m, sig, nativeSig, layout, args, classHandle, lockSlot, resultTemp }

/-- The frame's references are its handles. -/
def Plan.oopMap (p : Plan) : Except Fault OopMap :=
  let handles := p.args.filterMap (·.handle) ++ p.classHandle.toList
  handles.foldlM (fun m off => do m.setOop (← ofSlot (off / stackSlotSize)))
    { frameSlots := p.layout.slots }

/-! ## Slow paths -/

/-- Registers of the monitor of a synchronized method. -/
def lockRegs : LockRegs := { obj := .x 28, lock := .x 29, hdr := .x 30, scratch := t2 }

/-- Keeps the pending exception over a runtime call. -/
def savedException : Reg := .x 18

/-- What follows the main code. Each goes back to the main code at `cont`, the last one apart. -/
inductive SlowPath where
  | lock (entry cont : Label)
  /-- Stop for a safepoint or a suspension. -/
  | specialCondition (entry cont : Label)
  /-- Protect the yellow zone of the stack again. -/
  | reguard (entry cont : Label)
  /-- Release a contended monitor; the runtime must not see the pending exception. -/
  | unlock (entry cont : Label)
  | pending (entry : Label)

def slowPathSize : Int64 := 512

namespace Plan

open Asm

/-- Keep the result over a runtime call. -/
def saveResult (p : Plan) : Asm Unit := do
  sd (.x 10) sp p.resultTemp
  store .fsd (.f 10) sp (p.resultTemp + 8)

def restoreResult (p : Plan) : Asm Unit := do
  ld (.x 10) sp p.resultTemp
  load .fld (.f 10) sp (p.resultTemp + 8)

/-- Arguments of the runtime's lock routines. -/
def passMonitor : Asm Unit := do
  mv (.x 10) lockRegs.obj
  mv (.x 11) lockRegs.lock
  mv (.x 12) thread

/-- Take a reference out of its handle, forget the handles and pop the frame. -/
def leaveWrapper (p : Plan) : Asm Unit := do
  resetLastJavaFrame true
  if p.sig.ret.isReference then
    let isNull ← newLabel
    branch .beq (.x 10) zr isNull
    ld (.x 10) (.x 10) 0
    bind isNull
  ld t0 thread threadLayout.activeHandles
  sw zr t0 handleBlockTop
  removeFrame p.layout.size

def slowPath (p : Plan) : SlowPath → Asm Unit
  | .lock entry cont => do
    bind entry
    let _ ← pushRegs Stub.argumentRegs
    passMonitor
    rtCall .completeMonitorLocking
    popRegs Stub.argumentRegs
    j cont
  | .specialCondition entry cont => do
    bind entry
    p.saveResult
    mv (.x 10) thread
    rtCall .checkSpecialConditionForNativeTrans
    p.restoreResult
    j cont
  | .reguard entry cont => do
    bind entry
    p.saveResult
    rtCall .reguardYellowPages
    p.restoreResult
    j cont
  | .unlock entry cont => do
    bind entry
    p.saveResult
    ld savedException thread threadLayout.pendingException
    sd zr thread threadLayout.pendingException
    passMonitor
    rtCall .completeMonitorUnlocking
    sd savedException thread threadLayout.pendingException
    p.restoreResult
    j cont
  | .pending entry => do
    bind entry
    p.leaveWrapper
    rtJump .forwardException

def slowPaths (p : Plan) : List SlowPath → Asm Unit
  | [] => return
  | s :: rest => do
    if ← startStub "native_wrapper_slow_path" slowPathSize then
      p.slowPath s
      endStub
      p.slowPaths rest

/-! ## Before the call -/

/-- Miss the inline cache unless the receiver's type is the one in t1. -/
def checkReceiver : Asm Unit := do
  let hit ← newLabel
  loadKlass t0 (.x 11) t2
  branch .beq t0 t1 hit
  rtJump .icMissStub
  bind hit

def storeHandle (a : Argument) : Asm Unit := do
  match a.handle with
  | none => return
  | some off =>
    match a.src with
    | .stack slot =>
      loadOff .ld t0 sp (slotBytes slot) t0
      sd t0 sp off
    | l => sd l.reg sp off

/-- Fill the handles, before an argument register is overwritten. -/
def storeHandles (p : Plan) : Asm Unit := do
  p.args.forM storeHandle
  match p.classHandle with
  | none => return
  | some off =>
    li t0 p.method.classObject.toInt64
    sd t0 sp off

/-- The handle of what a synchronized method locks: the class or the receiver. -/
def lockedHandle (p : Plan) : Int64 :=
  match p.classHandle with
  | some off => off
  | none => ((p.args.head?).bind (·.handle)).getD 0

def lock (p : Plan) (slot : Int64) : Asm SlowPath := do
  ld lockRegs.obj sp p.lockedHandle
  addi lockRegs.lock sp slot
  let entry ← newLabel
  let locked ← newLabel
  if (← opts).useFastLocking then fastLock lockRegs entry else j entry
  bind locked
  return .lock entry locked

/-- The register of a location; an absent one reads as zero. -/
def regOrZero (l : Location) : Reg := if l = .nowhere then zr else l.reg

def stackArgLoadOp (k : ValueKind) (r : Reg) : Op :=
  if r.isFloat then (if k = .float then .flw else .fld)
  else if k.isIntLike || k = .float then .lw else .ld

/-- The copy between registers of different files. -/
def crossOp (k : ValueKind) (fromFloat : Bool) : Op :=
  match fromFloat, k with
  | true, .float => .fmvXW
  | true, _ => .fmvXD
  | false, .float => .fmvWX
  | false, _ => .fmvDX

def moveArgument (m : Move) : Asm Unit := do
  match m.src, m.dst with
  | .stack a, .stack b =>
    loadOff .ld t0 sp (slotBytes a) t0
    storeOff .sd t0 sp (slotBytes b) t1
  | .stack a, d =>
    let rd := regOrZero d
    loadOff (stackArgLoadOp m.kind rd) rd sp (slotBytes a) t1
  | s, .stack b =>
    let rs := regOrZero s
    let o : Op := if rs.isFloat && m.kind = .float then .fsw else storeOpFor rs
    storeOff o rs sp (slotBytes b) t1
  | s, d =>
    let rs := regOrZero s
    let rd := regOrZero d
    if rs.isFloat = rd.isFloat then mv rd rs else fmv (crossOp m.kind rs.isFloat) rd rs

def plainMoves (p : Plan) : List Move :=
  (p.args.filter (!·.kind.isReference)).map fun a => ⟨a.src, a.dst, a.kind⟩

/-- The moves in an order that overwrites no source too early. -/
def orderedMoves (p : Plan) : Except Fault (List Move) := do
  let scratch ← ofReg moveScratch
  match ((MoveSolver.solve p.plainMoves scratch).run {}).1 with
  | .ok moves => return moves
  | .error e => throw e.fault

/-- Pass the address of a handle, or null when it holds null. -/
def passHandle (a : Argument) : Asm Unit := do
  match a.handle with
  | none => return
  | some off =>
    let d := if a.dst.isReg then a.dst.reg else t1
    let isNull ← newLabel
    ld t0 sp off
    mv d zr
    branch .beq t0 zr isNull
    addi d sp off
    bind isNull
    match a.dst with
    | .stack slot => storeOff .sd d sp (slotBytes slot) t0
    | _ => return

/-! ## The call and the way back -/

/-- Widen a narrow result as the managed convention expects it. -/
def normalizeResult (k : ValueKind) : Asm Unit := do
  let r : Reg := .x 10
  match k with
  | .boolean =>
    andi r r 0xff
    rr .sltu r zr r
  | .char =>
    slli r r 48
    srli r r 48
  | .byte =>
    slli r r 56
    srai r r 56
  | .short =>
    slli r r 48
    srai r r 48
  | .int => sextw r r
  | _ => return

def callNative (p : Plan) (returnPc : Label) : Asm Unit := do
  storeThreadState ThreadState.inNative
  call p.method.entry
  bind returnPc
  addOopMap (← p.oopMap)
  normalizeResult p.sig.ret

/-- Return the thread to managed state. The state in between is published before the poll is
read, since who asks for a stop reads the state without a lock. -/
def transitionBack : Asm (List SlowPath) := do
  storeThreadState ThreadState.inNativeTrans
  membar anyOrder
  let special ← newLabel
  let resumed ← newLabel
  ld t0 thread threadLayout.pollingWord
  andi t0 t0 safepointPollBit
  bnez t0 special
  lwu t0 thread threadLayout.suspendFlags
  bnez t0 special
  bind resumed
  storeThreadState ThreadState.inJava
  let reguard ← newLabel
  let reguarded ← newLabel
  lbu t0 thread threadLayout.stackGuardState
  li t1 stackGuardDisabled
  bcond .beq t0 t1 reguard
  bind reguarded
  return [.specialCondition special resumed, .reguard reguard reguarded]

def unlock (slot : Int64) : Asm SlowPath := do
  let entry ← newLabel
  let unlocked ← newLabel
  addi lockRegs.lock sp slot
  ld lockRegs.obj lockRegs.lock lockSlotObject
  if (← opts).useFastLocking then fastUnlock lockRegs entry else j entry
  bind unlocked
  return .unlock entry unlocked

/-- Forward a pending exception, or return. -/
def epilogue (p : Plan) : Asm SlowPath := do
  let entry ← newLabel
  ld t0 thread threadLayout.pendingException
  bnez t0 entry
  p.leaveWrapper
  ret
  return .pending entry

/-- The part of a wrapper that only synchronized methods have. -/
def whenLocked (p : Plan) (f : Int64 → Asm SlowPath) : Asm (List SlowPath) := do
  match p.lockSlot with
  | none => return []
  | some slot => return [← f slot]

def passLeading (p : Plan) : Asm Unit := do
  addi (.x 10) thread threadLayout.jniEnvironment
  match p.classHandle with
  | none => return
  | some off => addi (.x 11) sp off

/-- The whole wrapper; how the arguments were moved. -/
def body (p : Plan) : Asm (List Move) := do
  unless p.method.isStatic do
    markEntry EntryPoint.unverified
    checkReceiver
  markEntry EntryPoint.verified
  buildFrame p.layout.size
  markEntry EntryPoint.frameComplete
  p.storeHandles
  let returnPc ← newLabel
  setLastJavaFrame sp fp returnPc t0
  let locked ← p.whenLocked p.lock
  let moves ← p.orderedMoves
  moves.forM moveArgument
  p.args.forM passHandle
  p.passLeading
  p.callNative returnPc
  let back ← transitionBack
  let unlocked ← p.whenLocked unlock
  let last ← p.epilogue
  p.slowPaths (locked ++ back ++ unlocked ++ [last])
  return moves

end Plan

def generate (t : Target) (m : NativeMethod) (base : UInt64) : Except Stop NativeWrapper := do
  let p ← Stop.ofFault (plan m)
  let (blob, moves) ← Asm.generate t ("native_wrapper:" ++ m.name) base t.opts.codeBufferSize p.layout.size p.body
  return { blob, layout := p.layout, nativeSig := p.nativeSig, moves }

end NativeWrapper

end RiscvJit
