import RiscvJit.Call.Convention
import RiscvJit.Code.Blob
import RiscvJit.Code.Sequence

/-
  RiscvJit.Stub.Adapter — between the interpreter and compiled code.

  The interpreter passes arguments on its expression stack, the first one deepest; compiled
  code passes them as the managed convention says. `i2c` moves the arguments from the
  expression stack and enters the compiled code of a method; `c2i` does the opposite for an
  interpreted method; `c2i_unverified` first checks the receiver against an inline cache.
  A caller that still calls through `c2i` although the method has been compiled since is
  corrected on the way.
-/

namespace RiscvJit

open Reg (sp t0 t1 t2 fp thread method esp)
open Convention

namespace Stub

open Asm

/-- Holds the stack pointer of the caller when the interpreter is entered. -/
def senderSp : Reg := .x 19

/-- An argument with its place on both sides. -/
structure AdapterArg where
  kind : ValueKind
  /-- Its offset from the expression stack pointer. -/
  interpreted : Int64
  /-- Its place in the managed convention. -/
  compiled : Location
  deriving DecidableEq, Repr

/-- The offset of an expanded argument with `after` elements behind it: longs and doubles live
in the lower of their two elements. -/
def interpreterArgOffset (k : ValueKind) (after : Nat) : Int64 :=
  Int64.ofNat after * 8 - (if k.isDoubleWord then 8 else 0)

/-- The arguments with both places, the void halves left out. -/
def adapterArgs : List ValueKind → List Location → List AdapterArg
  | k :: kinds, l :: locs =>
    if k = .void then adapterArgs kinds locs
    else ⟨k, interpreterArgOffset k kinds.length, l⟩ :: adapterArgs kinds locs
  | _, _ => []

/-- The load of an argument from the expression stack into a register. -/
def interpreterLoadOp (k : ValueKind) (r : Reg) : Op :=
  if r.isFloat then (if k = .float then .flw else .fld)
  else if k.isIntLike then .lw else .ld

/-- Move one argument from the expression stack. -/
def loadArg (a : AdapterArg) : Asm Unit := do
  match a.compiled with
  | .stack slot =>
    ld t0 esp a.interpreted
    storeOff .sd t0 sp (managed.stackByteOffset slot .outgoing) t2
  | l => load (interpreterLoadOp a.kind l.reg) l.reg esp a.interpreted

/-- From the interpreter to compiled code. -/
def i2c (args : List AdapterArg) (stackSlots : Nat) : Asm Unit := do
  ld t1 method methodLayout.fromCompiled
  if 0 < stackSlots then
    addImm t0 sp (-(alignUp (Location.slotBytes stackSlots) 8)) t0
    andi sp t0 (-stackAlignment)
  args.forM loadArg
  -- The callee may be deoptimized before it has a frame; the runtime finds the method here.
  sd method thread threadLayout.calleeTarget
  jr t1

/-- Check the receiver against the holder in t1. A method that has compiled code by now is a
miss too, so that the call site is corrected. -/
def c2iUnverified (skipFixup : Label) : Asm Unit := do
  let receiver : Reg := .x 11
  let ok ← newLabel
  loadKlass t0 receiver t2
  ld t2 t1 holderLayout.klass
  ld method t1 holderLayout.metadata
  branch .beq t0 t2 ok
  rtJump .icMissStub
  bind ok
  ld t0 method methodLayout.code
  beqz t0 skipFixup
  rtJump .icMissStub

/-- Registers that hold arguments before they are moved, the method and the caller's stack
pointer. -/
def argumentRegs : List Reg :=
  managed.intArgs.map Reg.x ++ managed.floatArgs.map Reg.f ++ [method, senderSp]

/-- Ask the runtime to correct the call site if the method has compiled code by now. -/
def fixupCallSite : Asm Unit := do
  let done ← newLabel
  ld t0 method methodLayout.code
  beqz t0 done
  enter
  let _ ← pushRegs argumentRegs
  mv (.x 10) method
  ld (.x 11) fp 8
  rtCall .fixupCallersCallsite
  popRegs argumentRegs
  leave
  bind done

/-- Move one argument to the expression stack, which starts `extra` bytes below the old one. -/
def storeArg (extra : Int64) (a : AdapterArg) : Asm Unit := do
  match a.compiled with
  | .stack slot =>
    loadOff .ld t0 sp (extra + managed.stackByteOffset slot .outgoing) t1
    sd t0 sp a.interpreted
  | l =>
    let r := l.reg
    store (if r.isFloat && a.kind = .float then .fsw else storeOpFor r) r sp a.interpreted

/-- From compiled code to the interpreter. -/
def c2i (args : List AdapterArg) (elements : Nat) (skipFixup : Label) : Asm Unit := do
  fixupCallSite
  bind skipFixup
  let extra := alignUp (Int64.ofNat elements * 8) stackAlignment
  mv senderSp sp
  if 0 < extra then addImm sp sp (-extra) t0
  args.forM (storeArg extra)
  mv esp sp
  ld t0 method methodLayout.interpreterEntry
  jr t0

def adaptersBody (kinds : List ValueKind) (locs : List Location) (stackSlots : Nat) : Asm Unit := do
  let args := adapterArgs kinds locs
  markEntry EntryPoint.i2c
  i2c args stackSlots
  let skipFixup ← newLabel
  markEntry EntryPoint.c2iUnverified
  c2iUnverified skipFixup
  markEntry EntryPoint.c2i
  c2i args kinds.length skipFixup

def adapters (t : Target) (sig : Signature) (base : UInt64) : Except Stop CodeBlob := do
  let name := "adapters" ++ (← Stop.ofFault sig.text)
  let asm ← Stop.ofFault (Assembler.start name base t.opts.stubBufferSize)
  let kinds := sig.expanded
  let (locs, slots) ← Stop.ofFault (managed.locate kinds)
  let (_, asm) ← Stop.ofFault (adaptersBody kinds locs slots t asm)
  Stop.ofFailure (asm.finish 0)

end Stub

end RiscvJit
