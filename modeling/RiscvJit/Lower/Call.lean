import RiscvJit.Call.Convention
import RiscvJit.Lower.Move

/-
  RiscvJit.Lower.Call — leaving straight-line code: calls, throws, returns and polls.

  An exception travels in x10, the pc it was thrown at in x13. A call reaches its target
  directly when the code's address is known and the target near, and through a trampoline
  otherwise. The return address of a call, the pc of a throw and the pc of a poll are sites.
-/

namespace RiscvJit

open Reg (ra t0 t1)
open Asm

namespace Lower

def exceptionReg : Reg := .x 10

def exceptionPcReg : Reg := .x 13

def checkRole (o : Operand) (r : Reg) (what : String) : Except Fault Unit := do
  let holds ← if o.isIntRegister then (o.reg).map (· == r) else pure false
  check holds fun _ => what ++ " must be in " ++ r.abiName

/-- Throw: the pc of the throw is a site, and the exception is live there. -/
def throwEx (i : Instruction) : Lower Unit := do
  checkRole (← input i 0) exceptionPcReg "throwing pc"
  let ex ← input i 1
  checkRole ex exceptionReg "exception"
  ensureUniquePc
  addSiteAt (← offset) i.info [ex]
  auipc exceptionPcReg 0
  rtCall (if (← get).prog.hasFpu then .handleException else .handleExceptionNoFpu)
  nop

/-- Leave the method with an exception, through the unwind handler. -/
def unwind (i : Instruction) : Lower Unit := do
  checkRole (← input i 0) exceptionReg "exception"
  j (← unwindLabel)

def checkResult (res : Operand) : Except Fault Unit := do
  let c := Convention.managed
  match res with
  | .floatRegister _ r =>
    check (r = .f c.floatResult) fun _ => "float result must be in " ++ (Reg.f c.floatResult).abiName
  | _ => checkRole res (.x c.intResult) "result"

def ret (i : Instruction) : Lower Unit := do
  match i.inputs with
  | [] => pure ()
  | res :: _ => checkResult res
  removeFrame (← get).prog.frameSize
  Asm.ret

def safepoint (i : Instruction) : Lower Unit := do
  let poll ← newLabel
  let entry ← newLabel
  addSlowPath (.safepointPoll poll entry)
  ensureUniquePc
  Asm.bind poll
  addSite i.info
  safepointPoll entry

def callRuntime (i : Instruction) : Lower Unit := do
  match i.call with
  | none => throw (.precondition "runtime call without target")
  | some c =>
    rtCall c.entry
    addSite i.info

def directDistance? (a : Assembler) (target : UInt64) : Option Int64 :=
  let rel := (target - a.buf.pc).toInt64
  if a.buf.base ≠ 0 && fitsSigned 21 rel then some rel else none

def call (i : Instruction) : Lower Unit := do
  let target := (i.call.map (·.target)).getD 0
  check (target ≠ 0) fun _ => "call without target"
  match directDistance? (← get).asm target with
  | some rel => jalOffset ra rel
  | none =>
    let entry ← newLabel
    addSlowPath (.trampoline target entry)
    jal ra entry
  addSite i.info

def nullCheck (i : Instruction) : Lower Unit := do
  let obj ← reg (← input i 0) "checked object"
  let entry ← newLabel
  addSlowPath (.exception .throwNullPointer .none i.info entry)
  beqz obj entry

/-- Both are constants: whether the first is an index below the second. -/
def constantsInRange? : Operand → Operand → Option Bool
  | .constant _ a, .constant _ b => some (a.toUInt32 < b.toUInt32)
  | _, _ => none

/-- Throw unless an index is in range, by one unsigned compare. -/
def rangeCheck (i : Instruction) : Lower Unit := do
  let index ← input i 0
  let length ← input i 1
  let known := constantsInRange? index length
  if known = some true then return
  let entry ← newLabel
  addSlowPath (.rangeCheck index i.info entry)
  if known.isSome then j entry
  else
    let idx ← srcReg index t0
    let n ← srcReg length t1
    bcond .bgeu idx n entry

end Lower

end RiscvJit
