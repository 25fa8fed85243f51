import RiscvJit.Lower.Alloc
import RiscvJit.Lower.Arith
import RiscvJit.Lower.Atomic
import RiscvJit.Lower.Compare
import RiscvJit.Lower.SlowPath
import RiscvJit.Lower.TypeCheck

/-
  RiscvJit.Lower.Compile — from a program to compiled code.

  The frame is built, the instructions are lowered one after the other, and the slow paths
  follow. A buffer that fails ends the work with a bailout; a label that is used and never
  bound breaks a precondition, unless the buffer failed first.
-/

namespace RiscvJit

/-- The code of one method and the sites where execution may stop, in code order. -/
structure CompiledMethod where
  blob : CodeBlob
  sites : List DebugSite

def CompiledMethod.siteAt? (m : CompiledMethod) (off : Int64) : Option DebugSite :=
  m.sites.find? (·.offset == off)

namespace Lower

def dispatch (i : Instruction) : Lower Unit := do
  match i.op with
  | .label => Asm.bind (← label i.label)
  | .nop => Asm.nop
  | .move => move (← input i 0) i.result
  | .add | .sub | .mul | .div | .rem | .and | .or | .xor => arith i
  | .shl | .shr | .ushr => shift i
  | .neg => neg i
  | .cmpBranch => cmpBranch i
  | .branch => Asm.j (← label i.target)
  | .cmove => cmove i
  | .cmp3 => cmp3 i
  | .convert => convert i
  | .instanceOf => instanceOf i
  | .checkCast => checkCast i
  | .storeCheck => storeCheck i
  | .profileType => profileType i
  | .lock => lock i
  | .unlock => unlock i
  | .cas => cas i
  | .xadd | .xchg => atomicUpdate i
  | .allocObject => allocObject i
  | .allocArray => allocArray i
  | .throwEx => throwEx i
  | .unwind => unwind i
  | .ret => ret i
  | .safepoint => safepoint i
  | .callRuntime => callRuntime i
  | .call => call i
  | .nullCheck => nullCheck i
  | .rangeCheck => rangeCheck i
  | .membar => Asm.membar i.membar
  | .invalid | .unknown _ => throw (.defect ("cannot lower " ++ i.op.name))

def instruction (i : Instruction) : Lower Unit := do
  checkOperands i
  dispatch i

def instructions : List Instruction → Lower Unit
  | [] => return
  | i :: rest => do
    if ← Asm.failed then return
    instruction i
    instructions rest

/-- The least label that is used and not bound. -/
def pendingLabel? (s : Lowering) : Option LabelId :=
  let pending := s.labels.filter fun (_, l) => ((s.asm.label l).toOption.map (·.hasPendingUses)).getD false
  (pending.map (·.1)).min?

/-- Every label that is used is bound, unless the buffer failed. -/
def checkLabels : Lower Unit := do
  let s ← get
  unless s.asm.buf.failed do
    match pendingLabel? s with
    | none => return
    | some id =>
      throw (.precondition ("label L" ++ Text.ofInt id.toInt ++ " of " ++ s.prog.name ++
        " is referenced but never bound"))

def method : Lower Unit := do
  let p := (← get).prog
  Asm.markEntry EntryPoint.verified
  Asm.buildFrame p.frameSize
  Asm.markEntry EntryPoint.frameComplete
  instructions p.code.toList
  emitStubs
  checkLabels

end Lower

namespace Program

/-- The frame is aligned and has room for the saved registers and the arguments of stubs. -/
def checkFrame (p : Program) : Except Fault Unit := do
  let frame := "frame size " ++ Text.ofInt p.frameSize.toInt ++ " of " ++ p.name
  check (p.frameSize % stackAlignment = 0) fun _ => frame ++ " is not aligned"
  check (16 + reservedArgumentArea ≤ p.frameSize) fun _ =>
    frame ++ " has no room for fp, ra and stub arguments"

def labelLimit : Int := 2 ^ 48 / 40

/-- Lower a program into machine code for the address `base`, zero when it is not known. -/
def compile (t : Target) (p : Program) (base : UInt64) : Except Stop CompiledMethod := do
  Stop.ofFault p.checkFrame
  let asm ← Stop.ofFault (Assembler.start p.name base t.opts.codeBufferSize)
  if p.labels + 1 < 0 || labelLimit < (p.labels + 1).toInt then throw (.fault .trap)
  let ((), s) ← Stop.ofFault (Lower.method t { asm, prog := p })
  let blob ← Stop.ofFailure (s.asm.finish p.frameSize)
  return { blob, sites := s.sites.toList }

end Program

end RiscvJit
