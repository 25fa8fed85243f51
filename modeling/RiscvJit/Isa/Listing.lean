import RiscvJit.Isa.Encode

/-
  RiscvJit.Isa.Listing — instructions as text.

  There are two dialects. The GNU one writes the destination first and uses the register
  names of the procedure call standard. The Plan 9 one writes capital mnemonics, numbers the
  registers and lists sources before the destination. A word that does not decode is printed
  as data.
-/

namespace RiscvJit

open Text

inductive Dialect where
  | gnu
  | plan9
  deriving DecidableEq, Repr, Inhabited

/-! ## GNU -/

def roundingModeNames : List String := ["rne", "rtz", "rdn", "rup", "rmm", "rm5", "rm6", "dyn"]

/-- The rounding mode at the end of an instruction, unless it is the dynamic one. -/
def roundingSuffix (rm : UInt32) : String :=
  if rm = 7 then "" else ", " ++ roundingModeNames.getD rm.toNat ""

def fenceSet (bits : Nat) : String :=
  let letters := [('i', 8), ('o', 4), ('r', 2), ('w', 1)].filter fun (_, b) => bits / b % 2 = 1
  if letters.isEmpty then "0" else String.ofList (letters.map (·.1))

def orderingSuffix (aqrl : UInt32) : String :=
  if aqrl = 1 then ".rl" else if aqrl = 2 then ".aq" else if aqrl = 3 then ".aqrl" else ""

namespace Inst

def gnu (i : Inst) : String :=
  let name := i.op.name
  let rd := i.rd.abiName
  let rs1 := i.rs1.abiName
  let rs2 := i.rs2.abiName
  let imm := ofInt i.imm.toInt
  match i.op.info.format with
  | .r | .floatFixed => name ++ " " ++ rd ++ ", " ++ rs1 ++ ", " ++ rs2
  | .floatArith => name ++ " " ++ rd ++ ", " ++ rs1 ++ ", " ++ rs2 ++ roundingSuffix i.rm
  | .i =>
    if i.op = .addi && i.imm = 0 then
      if i.rd = .zr && i.rs1 = .zr then "nop" else "mv " ++ rd ++ ", " ++ rs1
    else name ++ " " ++ rd ++ ", " ++ rs1 ++ ", " ++ imm
  | .shift64 | .shift32 => name ++ " " ++ rd ++ ", " ++ rs1 ++ ", " ++ imm
  | .load => name ++ " " ++ rd ++ ", " ++ imm ++ "(" ++ rs1 ++ ")"
  | .store => name ++ " " ++ rs2 ++ ", " ++ imm ++ "(" ++ rs1 ++ ")"
  | .branch => name ++ " " ++ rs1 ++ ", " ++ rs2 ++ ", " ++ imm
  | .upper => name ++ " " ++ rd ++ ", " ++ hex (lowWord i.imm &&& 0xfffff).toNat
  | .jump => name ++ " " ++ rd ++ ", " ++ imm
  | .jumpReg =>
    if i.rd = .zr && i.rs1 = .ra && i.imm = 0 then "ret"
    else name ++ " " ++ rd ++ ", " ++ imm ++ "(" ++ rs1 ++ ")"
  | .fence =>
    let sets := i.imm.toInt.toNat
    name ++ " " ++ fenceSet (sets / 16) ++ ", " ++ fenceSet (sets % 16)
  | .system => name
  | .atomic => name ++ orderingSuffix i.aqrl ++ " " ++ rd ++ ", " ++ rs2 ++ ", (" ++ rs1 ++ ")"
  | .reserve => name ++ orderingSuffix i.aqrl ++ " " ++ rd ++ ", (" ++ rs1 ++ ")"
  | .floatConvert => name ++ " " ++ rd ++ ", " ++ rs1 ++ roundingSuffix i.rm
  | .floatMove => name ++ " " ++ rd ++ ", " ++ rs1

end Inst

/-! ## Plan 9 -/

namespace Plan9

def intRegister (n : UInt8) : Except Fault String :=
  if n > 31 then .error (.defect ("invalid integer register x" ++ ofNat n.toNat))
  else if n = 2 then .ok "SP"
  else if n = 4 then .ok "g"
  else .ok ("X" ++ ofNat n.toNat)

def floatRegister (n : UInt8) : Except Fault String :=
  if n > 31 then .error (.defect ("invalid float register f" ++ ofNat n.toNat))
  else .ok ("F" ++ ofNat n.toNat)

/-- One operand of a line. -/
inductive Arg where
  | reg (name : String)
  | imm (v : Int64)
  | mem (disp : Int64) (base : String)
  /-- An operand that is not printed. -/
  | blank
  deriving DecidableEq, Repr

def Arg.text : Arg → String
  | reg name => name
  | imm v => "$" ++ ofInt v.toInt
  | mem disp base => ofInt disp.toInt ++ "(" ++ base ++ ")"
  | blank => ""

/-- A line: operands are given destination first and written destination last. -/
def line (mnemonic : String) (args : List Arg) : String :=
  if args.isEmpty then mnemonic
  else mnemonic ++ "\t" ++ join ", " (args.reverse.map Arg.text)

/-- The mnemonic of an instruction: capitals, without dots. -/
def mnemonic (o : Op) : String :=
  String.ofList ((o.name.toList.filter (· ≠ '.')).map Char.toUpper)

def regName (r : Reg) : Except Fault String := do
  let n ← r.number
  if r.isFloat then floatRegister n.toUInt8 else intRegister n.toUInt8

def regArg (r : Reg) : Except Fault Arg := (regName r).map .reg

def memArg (base : Reg) (disp : Int64) : Except Fault Arg :=
  base.number.bind fun n => (intRegister n.toUInt8).map (.mem disp)

def args (i : Inst) : Except Fault (List Arg) :=
  match i.op.info.format with
  | .r | .floatFixed | .floatArith => [i.rd, i.rs1, i.rs2].mapM regArg
  | .i | .shift64 | .shift32 => do return [← regArg i.rd, ← regArg i.rs1, .imm i.imm]
  | .load => do return [← regArg i.rd, ← memArg i.rs1 i.imm]
  | .store => do return [← memArg i.rs1 i.imm, ← regArg i.rs2]
  | .branch => do return [.imm i.imm, ← regArg i.rs2, ← regArg i.rs1]
  | .upper => do return [← regArg i.rd, .imm i.imm]
  | .jump => do return [.imm i.imm, ← regArg i.rd]
  | .jumpReg => do return [← memArg i.rs1 i.imm, ← regArg i.rd]
  | .atomic => do return [← regArg i.rd, ← memArg i.rs1 0, ← regArg i.rs2]
  | .reserve => do return [← regArg i.rd, ← memArg i.rs1 0]
  | .floatConvert | .floatMove => do return [← regArg i.rd, ← regArg i.rs1]
  | .fence | .system => .ok []

def text (i : Inst) : Except Fault String := (args i).map (line (mnemonic i.op))

end Plan9

/-! ## Listings -/

def wordText (dialect : Dialect) (w : UInt32) : String :=
  let data := ".word 0x" ++ Text.word w
  match decode w with
  | none => data
  | some i =>
    match dialect with
    | .gnu => i.gnu
    | .plan9 => (Plan9.text i).toOption.getD data

/-- The words of a byte string, little-endian; up to three bytes at the end are left over. -/
def wordsOf : List UInt8 → List UInt32
  | a :: b :: c :: d :: rest =>
    (a.toUInt32 ||| b.toUInt32 <<< 8 ||| c.toUInt32 <<< 16 ||| d.toUInt32 <<< 24) :: wordsOf rest
  | _ => []

def listingLine (dialect : Dialect) (addr : UInt64) (w : UInt32) : String :=
  hex addr.toNat ++ ": " ++ Text.word w ++ "  " ++ wordText dialect w

def disassembleWords (dialect : Dialect) : UInt64 → List UInt32 → List String
  | _, [] => []
  | addr, w :: rest => listingLine dialect addr w :: disassembleWords dialect (addr + 4) rest

/-- One line per word of code placed at `base`. -/
def disassemble (dialect : Dialect) (base : UInt64) (code : List UInt8) : List String :=
  disassembleWords dialect base (wordsOf code)

/-- A listing with comments above the offsets they were made at. -/
def listing (dialect : Dialect) (base : UInt64) (code : List UInt8)
    (comments : List (Nat × String)) : String :=
  let lines := disassemble dialect base code
  String.join (lines.mapIdx fun i line =>
    String.join ((comments.filter (·.1 = 4 * i)).map fun c => ";; " ++ c.2 ++ "\n") ++ line ++ "\n")

end RiscvJit
