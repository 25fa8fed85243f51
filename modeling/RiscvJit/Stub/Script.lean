import RiscvJit.Stub.Interrupt
import RiscvJit.Stub.NativeWrapper

/-
  RiscvJit.Stub.Script — assembler work as data.

  A script is a sequence of steps for one assembler. Each step names an action of the
  assembler and carries its operands; labels are named and come into being when a step first
  mentions them. A step that asks for something (the size of pushed registers, the base and
  offset of an address) has a reply.
-/

namespace RiscvJit

/-- One step of a script. An action reads the operands it needs. -/
structure ScriptStep where
  action : String
  op : Op := .invalid
  rd : Reg := .none
  rs1 : Reg := .none
  rs2 : Reg := .none
  tmp : Reg := .none
  fp : Reg := .none
  imm : Int64 := 0
  n : Int64 := 0
  m : Int64 := 0
  aqrl : UInt32 := 0
  /-- The names of labels; the empty name is no label. -/
  label : String := ""
  label2 : String := ""
  addr : Operand := .absent
  target : UInt64 := 0
  entry : RuntimeEntry := .invalid
  regs : List Reg := []
  flag : Bool := false
  text : String := ""
  move : Move

inductive ScriptReply where
  | done
  | flag (b : Bool)
  | number (n : Int64)
  | text (s : String)
  deriving DecidableEq, Repr

/-- The labels that steps have named so far. -/
abbrev ScriptLabels := List (String × Label)

namespace ScriptStep

/-- The label of a name, new when no step has named it yet. -/
def namedLabel (name : String) : StateT ScriptLabels Asm Label := do
  if name = "" then return Label.absent
  match (← get).lookup name with
  | some l => return l
  | none =>
    let l ← (Asm.newLabel : Asm Label)
    modify fun names => (name, l) :: names
    return l

def lockRegs (s : ScriptStep) : LockRegs := ⟨s.rs1, s.rs2, s.rd, s.tmp⟩

open Asm in
/-- Actions on single instructions, labels and the buffer. -/
def plain? (s : ScriptStep) (l : Label) : Option (Asm Unit) :=
  match s.action with
  | "emit" => some (emit s.op s.rd s.rs1 s.rs2 s.imm s.aqrl)
  | "rr" => some (rr s.op s.rd s.rs1 s.rs2)
  | "ri" => some (ri s.op s.rd s.rs1 s.imm)
  | "shifti" => some (shiftI s.op s.rd s.rs1 s.imm)
  | "load" => some (load s.op s.rd s.rs1 s.imm)
  | "store" => some (store s.op s.rs2 s.rs1 s.imm)
  | "nop" => some ((List.range s.n.toNatClampNeg).forM fun _ => nop)
  | "sextw" => some (sextw s.rd s.rs1)
  | "lui" => some (lui s.rd s.imm)
  | "auipc" => some (auipc s.rd s.imm)
  | "jalr" => some (jalr s.rd s.rs1 s.imm)
  | "jr" => some (jr s.rs1)
  | "ret" => some ret
  | "jal_offset" => some (jalOffset s.rd s.imm)
  | "ecall" => some ecall
  | "ebreak" => some ebreak
  | "fencei" => some fencei
  | "fence" => some (fence s.n s.m)
  | "membar" => some (membar s.n.toUInt64.toUInt8)
  | "amo" => some (amo s.op s.rd s.rs2 s.rs1 s.aqrl)
  | "lr" => some (lr s.op s.rd s.rs1 s.aqrl)
  | "sc" => some (sc s.op s.rd s.rs2 s.rs1 s.aqrl)
  | "farith" => some (farith s.op s.rd s.rs1 s.rs2)
  | "fcvt" => some (fcvt s.op s.rd s.rs1 s.imm)
  | "fmv" => some (fmv s.op s.rd s.rs1)
  | "lw" => some (lw s.rd s.rs1 s.imm)
  | "bind" => some (bind l)
  | "branch" => some (branch s.op s.rs1 s.rs2 l)
  | "bcond" => some (bcond s.op s.rs1 s.rs2 l)
  | "beqz" => some (beqz s.rs1 l)
  | "bnez" => some (bnez s.rs1 l)
  | "jal" => some (jal s.rd l)
  | "j" => some (j l)
  | "la" => some (la s.rd l)
  | "refer" => some (refer l s.n s.m.toUInt64.toUInt8)
  | "align" => some (alignTo s.n s.m)
  | "word64" => some (word64 s.target)
  | "comment" => some (comment s.text)
  | "end_stub" => some endStub
  | "fail" => some (modifyBuf (·.fail s.text))
  | _ => none

open Asm in
def sequence? (s : ScriptStep) (l l2 : Label) : Option (Asm Unit) :=
  match s.action with
  | "li" => some (li s.rd s.imm)
  | "movptr" => some (movptr s.rd s.target)
  | "mv" => some (mv s.rd s.rs1)
  | "add_imm" => some (addImm s.rd s.rs1 s.imm s.tmp)
  | "load_off" => some (loadOff s.op s.rd s.rs1 s.imm s.tmp)
  | "store_off" => some (storeOff s.op s.rs2 s.rs1 s.imm s.tmp)
  | "encode_heap_oop" => some (encodeHeapOop s.rd s.rs1 s.tmp)
  | "decode_heap_oop" => some (decodeHeapOop s.rd s.tmp)
  | "encode_klass" => some (encodeKlass s.rd s.rs1 s.tmp)
  | "decode_klass" => some (decodeKlass s.rd s.tmp)
  | "load_klass" => some (loadKlass s.rd s.rs1 s.tmp)
  | "store_klass" => some (storeKlass s.rs1 s.rs2 s.tmp)
  | "cmpxchg" => some (cmpxchg s.rs1 s.rs2 s.tmp s.rd s.flag)
  | "cmpxchgptr" =>
    some (cmpxchgptr s.rs2 s.rd s.rs1 s.tmp l (if l2 = Label.absent then none else some l2))
  | "far_call" => some (farCall s.target s.rd s.tmp)
  | "call" => some (call s.target)
  | "jump" => some (jump s.target)
  | "rt_call" => some (rtCall s.entry)
  | "rt_call_with_arg" => some (rtCallWithArg s.entry)
  | "rt_jump" => some (rtJump s.entry)
  | "enter" => some enter
  | "leave" => some leave
  | "pop_regs" => some (popRegs s.regs)
  | "set_last_java_frame" => some (setLastJavaFrame s.rs1 s.fp l s.tmp)
  | "reset_last_java_frame" => some (resetLastJavaFrame s.flag)
  | "safepoint_poll" => some (safepointPoll l)
  | "store_thread_state" => some (storeThreadState s.n.toInt32.toInt64)
  | "restore_live_registers" => some restoreLiveRegisters
  | "restore_result_registers" => some restoreResultRegisters
  | "build_frame" => some (buildFrame s.n)
  | "remove_frame" => some (removeFrame s.n)
  | "fast_lock" => some (fastLock s.lockRegs l)
  | "fast_unlock" => some (fastUnlock s.lockRegs l)
  | "forward_pending_exception" => some forwardPendingException
  | "wrapper_move" => some (NativeWrapper.Plan.moveArgument s.move)
  | _ => none

open Asm in
def asking? (s : ScriptStep) : Option (Asm ScriptReply) :=
  match s.action with
  | "start_stub" => some (ScriptReply.flag <$> startStub s.text s.n)
  | "movptr_with_offset" => some (ScriptReply.number <$> movptrWithOffset s.rd s.target)
  | "push_regs" => some (ScriptReply.number <$> pushRegs s.regs)
  | "save_live_registers" => some ((fun m : OopMap => .text m.text) <$> saveLiveRegisters)
  | "legitimize" => some do
    let (r, d) ← legitimize (← s.addr.addr)
    return .text (r.name ++ Text.ofSigned d.toInt)
  | _ => none

/-- Carry out a step; there is no reply to an action that is not known. -/
def run (s : ScriptStep) : StateT ScriptLabels Asm (Option ScriptReply) := do
  let l ← namedLabel s.label
  let l2 ← namedLabel s.label2
  match (s.plain? l).orElse fun _ => s.sequence? l l2 with
  | some x =>
    (x : Asm Unit)
    return some .done
  | none =>
    match s.asking? with
    | some x => return some (← (x : Asm ScriptReply))
    | none => return none

end ScriptStep

end RiscvJit
