import RiscvJit.Text.Quoted
import RiscvJit.Text.Real
import RiscvJit.Value.Operand

/-
  RiscvJit.Value.OperandParser — reading operands from text.

  An operand is written `kind:value`. The value is a register (`x10`, `f10`), a stack slot by
  its byte offset (`stack[8]`), an address (`[x11+16]`) or a constant (`42`). Blanks around
  the kind and the value do not matter. Everything that is read denotes an operand that the
  smart constructors accept, so reading never runs into one of their refusals.
-/

namespace RiscvJit

open Text

/-- Why a text denotes no operand. -/
inductive OperandError where
  | noKind (text : List Char)
  | unknownKind (text kind : List Char)
  | noValue (text : List Char)
  | stackOffset (value : List Char)
  | register (name : List Char)
  | displacement (addr : List Char)
  | cannotHold (r : Reg) (k : ValueKind)
  | noConstants (k : ValueKind)
  | constant (k : ValueKind) (value : List Char)
  deriving DecidableEq, Repr

namespace OperandError

def message : OperandError → String
  | noKind text => "operand " ++ quoted text ++ " has no kind"
  | unknownKind text kind => "operand " ++ quoted text ++ ": unknown kind " ++ quoted kind
  | noValue text => "operand " ++ quoted text ++ " has no value"
  | stackOffset value => "invalid stack offset " ++ quoted value
  | register name => "invalid register " ++ quoted name
  | displacement addr => "invalid displacement in [" ++ String.ofList addr ++ "]"
  | cannotHold r k => r.name ++ " cannot hold " ++ k.name
  | noConstants k => "no " ++ k.name ++ " constants"
  | constant k value => "invalid " ++ k.name ++ " constant " ++ quoted value
where
  quoted (s : List Char) : String := quote (String.ofList s)

end OperandError

namespace Operand

def writtenKinds : List ValueKind :=
  [.boolean, .char, .float, .double, .byte, .short, .int, .long, .object, .array, .address,
   .narrowOop, .metadata, .narrowKlass]

def between? (opening : String) (closing : Char) (s : List Char) : Option (List Char) :=
  let o := opening.toList
  if o.isPrefixOf s && s.getLast? == some closing then some ((s.drop o.length).dropLast) else none

def parseReg (s : List Char) : Except OperandError Reg :=
  match s with
  | c :: d :: rest =>
    match decimal? (d :: rest) with
    | .ok n =>
      if h : 0 ≤ n ∧ n ≤ 31 then
        if c = 'x' then .ok (.x ⟨n.toNat, by omega⟩)
        else if c = 'f' then .ok (.f ⟨n.toNat, by omega⟩)
        else .error (.register s)
      else .error (.register s)
    | .error _ => .error (.register s)
  | _ => .error (.register s)

/-- The inside of an address: a register, then nothing or a signed displacement. -/
def parseAddress (s : List Char) : Except OperandError Address :=
  let isSign (c : Char) : Bool := c = '+' || c = '-'
  let base := s.takeWhile (!isSign ·)
  match s.dropWhile (!isSign ·) with
  | [] => (parseReg s).map (Address.ofBase · 0)
  | disp =>
    match parseReg base with
    | .error e => .error e
    | .ok r =>
      match integer? none 64 disp with
      | .ok d => .ok (Address.ofBase r (Int64.ofInt d))
      | .error _ => .error (.displacement s)

def parseConstant (k : ValueKind) (s : List Char) : Except OperandError Operand :=
  let refuse : Except OperandError Operand := .error (.constant k s)
  match k with
  | .int =>
    match integer? none 32 s with
    | .ok v => .ok (.intConst (Int32.ofInt v))
    | .error _ => refuse
  | .long =>
    match integer? none 64 s with
    | .ok v => .ok (.longConst (Int64.ofInt v))
    | .error _ => refuse
  | .float =>
    match BinaryFormat.single.parse s with
    | .ok v => .ok (.constant .float (UInt64.ofNat v))
    | .error _ => refuse
  | .double =>
    match BinaryFormat.double.parse s with
    | .ok v => .ok (.constant .double (UInt64.ofNat v))
    | .error _ => refuse
  | .object | .address | .metadata =>
    match natural? none 64 s with
    | .ok v => .ok (.constant k (UInt64.ofNat v))
    | .error _ => refuse
  | _ => .error (.noConstants k)

/-- A stack operand by its byte offset, which is a whole number of slots. -/
def parseStack (k : ValueKind) (value offset : List Char) : Except OperandError Operand :=
  match decimal? offset with
  | .ok off =>
    if off < 0 || off % 4 != 0 then .error (.stackOffset value) else .ok (.stack k (off.toNat / 4))
  | .error _ => .error (.stackOffset value)

def parseRegister (k : ValueKind) (value : List Char) : Except OperandError Operand :=
  match parseReg value with
  | .error e => .error e
  | .ok r =>
    if r.isFloat != k.isFloat then .error (.cannotHold r k)
    else if r.isFloat then .ok (.floatRegister k r)
    else .ok (.register k r r)

def parseValue (k : ValueKind) (value : List Char) : Except OperandError Operand :=
  match between? "stack[" ']' value with
  | some offset => parseStack k value offset
  | none =>
    match between? "[" ']' value with
    | some inner => (parseAddress inner).map (.memory k)
    | none =>
      if value.head? = some 'x' || value.head? = some 'f' then parseRegister k value
      else parseConstant k value

def parse (s : String) : Except OperandError Operand :=
  let text := s.toList
  match text.dropWhile (· ≠ ':') with
  | [] => .error (.noKind text)
  | _ :: rest =>
    let kindText := trim (text.takeWhile (· ≠ ':'))
    let value := trim rest
    match writtenKinds.find? (·.name.toList == kindText) with
    | none => .error (.unknownKind text kindText)
    | some k => if value.isEmpty then .error (.noValue text) else parseValue k value

end Operand

end RiscvJit
