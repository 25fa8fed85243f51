import RiscvJit.Lir.Program
import RiscvJit.Value.OperandParser
import RiscvJit.Yaml.Record

/-
  RiscvJit.Lir.ProgramFile — programs written down in files.

  A file holds one method: its name, the size of its frame, and its instructions with their
  operands as text. Labels are numbered from one. Instructions that need type descriptors,
  scopes or call targets cannot be written in a file.
-/

namespace RiscvJit

/-- An instruction as a file has it. -/
structure InstructionText where
  label : Int64 := 0
  op : String := ""
  cond : String := ""
  unorderedIsTrue : Bool := false
  conv : String := ""
  inputs : List String := []
  result : String := ""
  target : Int64 := 0
  checked : Bool := false
  deriving DecidableEq, Repr, Inhabited

/-- A program as a file has it. -/
structure ProgramText where
  name : String := ""
  frame : Int64 := 0
  isSynchronized : Bool := false
  hasFpu : Bool := false
  code : List InstructionText := []
  deriving DecidableEq, Repr, Inhabited

namespace InstructionText

def shape : Yaml.Shape InstructionText := .record "main.instrSpec" {} [
  .of "label" (.int "int") fun v i => { i with label := v },
  .of "op" .text fun v i => { i with op := v },
  .of "cond" .text fun v i => { i with cond := v },
  .of "unorderedIsTrue" .truth fun v i => { i with unorderedIsTrue := v },
  .of "conv" .text fun v i => { i with conv := v },
  .of "in" (.list "[]string" .text) fun v i => { i with inputs := v },
  .of "result" .text fun v i => { i with result := v },
  .of "target" (.int "int") fun v i => { i with target := v },
  .of "checked" .truth fun v i => { i with checked := v }]

def writable : List Opcode :=
  [.nop, .move, .add, .sub, .mul, .div, .rem, .and, .or, .xor, .shl, .shr, .ushr, .neg, .cmpBranch,
   .branch, .cmove, .cmp3, .convert, .ret, .safepoint]

def operand (s : String) : Except Failure Operand := (Operand.parse s).mapError fun e => .refused e.message

def opcode (i : InstructionText) : Except Failure Opcode :=
  match Opcode.ofName? i.op with
  | none => .error (.refused ("unknown opcode " ++ Text.quote i.op))
  | some op =>
    if writable.contains op then .ok op
    else .error (.refused ("opcode " ++ op.name ++ " cannot be written in a program file"))

/-- What some opcodes need besides operands. -/
def complete (i : InstructionText) (ins : Instruction) : Except Failure Instruction :=
  match ins.op with
  | .cmpBranch | .cmove =>
    match Condition.ofName? i.cond with
    | some cond => .ok { ins with cond }
    | none => .error (.refused ("unknown condition " ++ Text.quote i.cond))
  | .convert =>
    match Conversion.ofName? i.conv with
    | some conv => .ok { ins with conv }
    | none => .error (.refused ("unknown conversion " ++ Text.quote i.conv))
  | .div | .rem => .ok (if i.checked then { ins with info := some ⟨[], []⟩ } else ins)
  | .safepoint => .ok { ins with info := some ⟨[], []⟩ }
  | _ => .ok ins

def instruction (i : InstructionText) : Except Failure Instruction := do
  if i.op = "" || i.op = "label" then
    if i.label ≤ 0 then throw (.refused "labels are numbered from 1")
    return { op := .label, label := i.label }
  let op ← i.opcode
  let inputs ← i.inputs.mapM operand
  let result ← if i.result = "" then pure Operand.absent else operand i.result
  let ins ← i.complete
    { op, inputs, result, target := i.target, unorderedIsTrue := i.unorderedIsTrue }
  if ins.jumps && i.target ≤ 0 then throw (.refused (op.name ++ " has no target"))
  return ins

end InstructionText

namespace ProgramText

def shape : Yaml.Shape ProgramText := .record "main.programFile" {} [
  .of "name" .text fun v p => { p with name := v },
  .of "frame" (.int "int") fun v p => { p with frame := v },
  .of "synchronized" .truth fun v p => { p with isSynchronized := v },
  .of "hasFPU" .truth fun v p => { p with hasFpu := v },
  .of "code" (.list "[]main.instrSpec" InstructionText.shape) fun v p => { p with code := v }]

/-- Append instructions; `n` of them came before. -/
def appendAll (name : String) : Nat → List InstructionText → Program → Except Failure Program
  | _, [], p => .ok p
  | n, i :: rest, p =>
    match i.instruction with
    | .ok ins => appendAll name (n + 1) rest (p.append ins)
    | .error e => .error (.within name (.within ("instruction " ++ Text.ofNat n) e))

def program (t : ProgramText) : Except Failure Program :=
  if t.name = "" then .error (.refused "program has no name")
  else appendAll t.name 0 t.code
    { name := t.name, frameSize := t.frame, isSynchronized := t.isSynchronized, hasFpu := t.hasFpu }

end ProgramText

def Program.parse (text : String) : Except Failure Program :=
  match Yaml.decode ProgramText.shape {} text with
  | .ok t => t.program
  | .error e => .error (.within "parsing program" (.refused e.message))

end RiscvJit
