import RiscvJit.Value.Register

/-
  RiscvJit.Isa.Op — the machine instructions that generated code is made of.

  They are a part of RV64IMAFD. One table gives each instruction its name, its format, its
  fixed bits and the register file of each operand; encoding, decoding and printing are all
  driven by it.
-/

namespace RiscvJit

/-- How the bits of an instruction are laid out; this also decides how it is printed. -/
inductive Format where
  | r
  /-- A register and a 12-bit immediate. -/
  | i
  | load
  | store
  /-- Two registers and an even 13-bit offset. -/
  | branch
  | upper
  | jump
  | jumpReg
  | shift64
  | shift32
  | fence
  | system
  /-- Ordering bits and three registers. -/
  | atomic
  /-- As `atomic`, without a second source. -/
  | reserve
  /-- Three registers and a rounding mode. -/
  | floatArith
  /-- Three registers; sign injection and compares. -/
  | floatFixed
  /-- Two registers and a rounding mode. -/
  | floatConvert
  | floatMove
  deriving DecidableEq, Repr, Inhabited

/-- The register file of an operand. -/
inductive RegClass where
  | none
  | int
  | float
  deriving DecidableEq, Repr, Inhabited

/-- The row of an instruction in the table. -/
structure OpInfo where
  name : String
  format : Format
  opcode : UInt32
  funct3 : UInt32 := 0
  /-- The high part: seven bits, the upper six of 64-bit shifts, the upper five of atomics, or
  the immediate of system instructions. -/
  funct7 : UInt32 := 0
  fixed : UInt32 := 0
  rd : RegClass := .none
  rs1 : RegClass := .none
  rs2 : RegClass := .none
  deriving DecidableEq, Repr, Inhabited

/-- A machine instruction. -/
inductive Op where
  | invalid
  | lui
  | auipc
  | jal
  | jalr
  | beq
  | bne
  | blt
  | bge
  | bltu
  | bgeu
  | lb
  | lh
  | lw
  | ld
  | lbu
  | lhu
  | lwu
  | sb
  | sh
  | sw
  | sd
  | addi
  | slti
  | sltiu
  | xori
  | ori
  | andi
  | slli
  | srli
  | srai
  | add
  | sub
  | sll
  | slt
  | sltu
  | xor
  | srl
  | sra
  | or
  | and
  | addiw
  | slliw
  | srliw
  | sraiw
  | addw
  | subw
  | sllw
  | srlw
  | sraw
  | mul
  | mulh
  | mulhu
  | div
  | divu
  | rem
  | remu
  | mulw
  | divw
  | divuw
  | remw
  | remuw
  | fence
  | fenceI
  | ecall
  | ebreak
  | lrW
  | scW
  | amoswapW
  | amoaddW
  | lrD
  | scD
  | amoswapD
  | amoaddD
  | flw
  | fld
  | fsw
  | fsd
  | faddS
  | fsubS
  | fmulS
  | fdivS
  | fsgnjS
  | fsgnjnS
  | feqS
  | fltS
  | fleS
  | fcvtWS
  | fcvtLS
  | fcvtSW
  | fcvtSL
  | fmvXW
  | fmvWX
  | faddD
  | fsubD
  | fmulD
  | fdivD
  | fsgnjD
  | fsgnjnD
  | feqD
  | fltD
  | fleD
  | fcvtWD
  | fcvtLD
  | fcvtDW
  | fcvtDL
  | fmvXD
  | fmvDX
  | fcvtSD
  | fcvtDS
  deriving DecidableEq, Repr, Inhabited

namespace Op

/-! ## Rows -/

/-- An instruction with a destination and one integer source. -/
def immediateRow (name : String) (format : Format) (opcode funct3 funct7 : UInt32) : OpInfo :=
  { name, format, opcode, funct3, funct7, rd := .int, rs1 := .int }

def registerRow (name : String) (opcode funct3 funct7 : UInt32) : OpInfo :=
  { name, format := .r, opcode, funct3, funct7, rd := .int, rs1 := .int, rs2 := .int }

def branchRow (name : String) (funct3 : UInt32) : OpInfo :=
  { name, format := .branch, opcode := 0x63, funct3, rs1 := .int, rs2 := .int }

def storeRow (name : String) (opcode funct3 : UInt32) (source : RegClass) : OpInfo :=
  { name, format := .store, opcode, funct3, rs1 := .int, rs2 := source }

/-- An atomic instruction, by the five bits that select it. -/
def atomicRow (name : String) (funct3 funct5 : UInt32) : OpInfo :=
  { name, format := .atomic, opcode := 0x2f, funct3, funct7 := funct5 <<< 2,
    rd := .int, rs1 := .int, rs2 := .int }

/-- A load that makes a reservation. -/
def reserveRow (name : String) (funct3 : UInt32) : OpInfo :=
  { name, format := .reserve, opcode := 0x2f, funct3, funct7 := 0b0001000, rd := .int, rs1 := .int }

def floatRow (name : String) (format : Format) (funct7 funct3 : UInt32) (rd : RegClass) : OpInfo :=
  { name, format, opcode := 0x53, funct3, funct7, rd, rs1 := .float, rs2 := .float }

/-- A float instruction with one source and a fixed second field. -/
def convertRow (name : String) (format : Format) (funct7 fixed : UInt32) (rd rs1 : RegClass) : OpInfo :=
  { name, format, opcode := 0x53, funct7, fixed, rd, rs1 }

def info : Op → OpInfo
  | invalid => { name := "op(0)", format := .r, opcode := 0 }
  | lui => { name := "lui", format := .upper, opcode := 0x37, rd := .int }
  | auipc => { name := "auipc", format := .upper, opcode := 0x17, rd := .int }
  | jal => { name := "jal", format := .jump, opcode := 0x6f, rd := .int }
  | jalr => immediateRow "jalr" .jumpReg 0x67 0 0
  | beq => branchRow "beq" 0
  | bne => branchRow "bne" 1
  | blt => branchRow "blt" 4
  | bge => branchRow "bge" 5
  | bltu => branchRow "bltu" 6
  | bgeu => branchRow "bgeu" 7
  | lb => immediateRow "lb" .load 0x03 0 0
  | lh => immediateRow "lh" .load 0x03 1 0
  | lw => immediateRow "lw" .load 0x03 2 0
  | ld => immediateRow "ld" .load 0x03 3 0
  | lbu => immediateRow "lbu" .load 0x03 4 0
  | lhu => immediateRow "lhu" .load 0x03 5 0
  | lwu => immediateRow "lwu" .load 0x03 6 0
  | sb => storeRow "sb" 0x23 0 .int
  | sh => storeRow "sh" 0x23 1 .int
  | sw => storeRow "sw" 0x23 2 .int
  | sd => storeRow "sd" 0x23 3 .int
  | addi => immediateRow "addi" .i 0x13 0 0
  | slti => immediateRow "slti" .i 0x13 2 0
  | sltiu => immediateRow "sltiu" .i 0x13 3 0
  | xori => immediateRow "xori" .i 0x13 4 0
  | ori => immediateRow "ori" .i 0x13 6 0
  | andi => immediateRow "andi" .i 0x13 7 0
  | slli => immediateRow "slli" .shift64 0x13 1 0
  | srli => immediateRow "srli" .shift64 0x13 5 0
  | srai => immediateRow "srai" .shift64 0x13 5 0x20
  | add => registerRow "add" 0x33 0 0
  | sub => registerRow "sub" 0x33 0 0x20
  | sll => registerRow "sll" 0x33 1 0
  | slt => registerRow "slt" 0x33 2 0
  | sltu => registerRow "sltu" 0x33 3 0
  | xor => registerRow "xor" 0x33 4 0
  | srl => registerRow "srl" 0x33 5 0
  | sra => registerRow "sra" 0x33 5 0x20
  | or => registerRow "or" 0x33 6 0
  | and => registerRow "and" 0x33 7 0
  | addiw => immediateRow "addiw" .i 0x1b 0 0
  | slliw => immediateRow "slliw" .shift32 0x1b 1 0
  | srliw => immediateRow "srliw" .shift32 0x1b 5 0
  | sraiw => immediateRow "sraiw" .shift32 0x1b 5 0x20
  | addw => registerRow "addw" 0x3b 0 0
  | subw => registerRow "subw" 0x3b 0 0x20
  | sllw => registerRow "sllw" 0x3b 1 0
  | srlw => registerRow "srlw" 0x3b 5 0
  | sraw => registerRow "sraw" 0x3b 5 0x20
  | mul => registerRow "mul" 0x33 0 0x1
  | mulh => registerRow "mulh" 0x33 1 0x1
  | mulhu => registerRow "mulhu" 0x33 3 0x1
  | div => registerRow "div" 0x33 4 0x1
  | divu => registerRow "divu" 0x33 5 0x1
  | rem => registerRow "rem" 0x33 6 0x1
  | remu => registerRow "remu" 0x33 7 0x1
  | mulw => registerRow "mulw" 0x3b 0 0x1
  | divw => registerRow "divw" 0x3b 4 0x1
  | divuw => registerRow "divuw" 0x3b 5 0x1
  | remw => registerRow "remw" 0x3b 6 0x1
  | remuw => registerRow "remuw" 0x3b 7 0x1
  | fence => { name := "fence", format := .fence, opcode := 0x0f }
  | fenceI => { name := "fence.i", format := .system, opcode := 0x0f, funct3 := 1, funct7 := 0 }
  | ecall => { name := "ecall", format := .system, opcode := 0x73, funct3 := 0, funct7 := 0 }
  | ebreak => { name := "ebreak", format := .system, opcode := 0x73, funct3 := 0, funct7 := 1 }
  | lrW => reserveRow "lr.w" 2
  | scW => atomicRow "sc.w" 2 0b00011
  | amoswapW => atomicRow "amoswap.w" 2 0b00001
  | amoaddW => atomicRow "amoadd.w" 2 0b00000
  | lrD => reserveRow "lr.d" 3
  | scD => atomicRow "sc.d" 3 0b00011
  | amoswapD => atomicRow "amoswap.d" 3 0b00001
  | amoaddD => atomicRow "amoadd.d" 3 0b00000
  | flw => { name := "flw", format := .load, opcode := 0x07, funct3 := 2, rd := .float, rs1 := .int }
  | fld => { name := "fld", format := .load, opcode := 0x07, funct3 := 3, rd := .float, rs1 := .int }
  | fsw => storeRow "fsw" 0x27 2 .float
  | fsd => storeRow "fsd" 0x27 3 .float
  | faddS => floatRow "fadd.s" .floatArith 0b0000000 0 .float
  | fsubS => floatRow "fsub.s" .floatArith 0b0000100 0 .float
  | fmulS => floatRow "fmul.s" .floatArith 0b0001000 0 .float
  | fdivS => floatRow "fdiv.s" .floatArith 0b0001100 0 .float
  | fsgnjS => floatRow "fsgnj.s" .floatFixed 0b0010000 0 .float
  | fsgnjnS => floatRow "fsgnjn.s" .floatFixed 0b0010000 1 .float
  | feqS => floatRow "feq.s" .floatFixed 0b1010000 2 .int
  | fltS => floatRow "flt.s" .floatFixed 0b1010000 1 .int
  | fleS => floatRow "fle.s" .floatFixed 0b1010000 0 .int
  | fcvtWS => convertRow "fcvt.w.s" .floatConvert 0b1100000 0 .int .float
  | fcvtLS => convertRow "fcvt.l.s" .floatConvert 0b1100000 2 .int .float
  | fcvtSW => convertRow "fcvt.s.w" .floatConvert 0b1101000 0 .float .int
  | fcvtSL => convertRow "fcvt.s.l" .floatConvert 0b1101000 2 .float .int
  | fmvXW => convertRow "fmv.x.w" .floatMove 0b1110000 0 .int .float
  | fmvWX => convertRow "fmv.w.x" .floatMove 0b1111000 0 .float .int
  | faddD => floatRow "fadd.d" .floatArith 0b0000001 0 .float
  | fsubD => floatRow "fsub.d" .floatArith 0b0000101 0 .float
  | fmulD => floatRow "fmul.d" .floatArith 0b0001001 0 .float
  | fdivD => floatRow "fdiv.d" .floatArith 0b0001101 0 .float
  | fsgnjD => floatRow "fsgnj.d" .floatFixed 0b0010001 0 .float
  | fsgnjnD => floatRow "fsgnjn.d" .floatFixed 0b0010001 1 .float
  | feqD => floatRow "feq.d" .floatFixed 0b1010001 2 .int
  | fltD => floatRow "flt.d" .floatFixed 0b1010001 1 .int
  | fleD => floatRow "fle.d" .floatFixed 0b1010001 0 .int
  | fcvtWD => convertRow "fcvt.w.d" .floatConvert 0b1100001 0 .int .float
  | fcvtLD => convertRow "fcvt.l.d" .floatConvert 0b1100001 2 .int .float
  | fcvtDW => convertRow "fcvt.d.w" .floatConvert 0b1101001 0 .float .int
  | fcvtDL => convertRow "fcvt.d.l" .floatConvert 0b1101001 2 .float .int
  | fmvXD => convertRow "fmv.x.d" .floatMove 0b1110001 0 .int .float
  | fmvDX => convertRow "fmv.d.x" .floatMove 0b1111001 0 .float .int
  | fcvtSD => convertRow "fcvt.s.d" .floatConvert 0b0100000 1 .float .float
  | fcvtDS => convertRow "fcvt.d.s" .floatConvert 0b0100001 0 .float .float

/-- The instructions in the order of their numbers, which start at 1. -/
def named : List Op :=
  [lui, auipc, jal, jalr, beq, bne, blt, bge, bltu, bgeu, lb, lh, lw, ld, lbu, lhu, lwu, sb,
   sh, sw, sd, addi, slti, sltiu, xori, ori, andi, slli, srli, srai, add, sub, sll, slt, sltu,
   xor, srl, sra, or, and, addiw, slliw, srliw, sraiw, addw, subw, sllw, srlw, sraw, mul,
   mulh, mulhu, div, divu, rem, remu, mulw, divw, divuw, remw, remuw, fence, fenceI, ecall,
   ebreak, lrW, scW, amoswapW, amoaddW, lrD, scD, amoswapD, amoaddD, flw, fld, fsw, fsd,
   faddS, fsubS, fmulS, fdivS, fsgnjS, fsgnjnS, feqS, fltS, fleS, fcvtWS, fcvtLS, fcvtSW,
   fcvtSL, fmvXW, fmvWX, faddD, fsubD, fmulD, fdivD, fsgnjD, fsgnjnD, feqD, fltD, fleD,
   fcvtWD, fcvtLD, fcvtDW, fcvtDL, fmvXD, fmvDX, fcvtSD, fcvtDS]

def name (o : Op) : String := o.info.name

def nameOfCode (code : UInt16) : String :=
  let none := "op(" ++ Text.ofNat code.toNat ++ ")"
  if code = 0 then none else ((named[code.toNat - 1]?).map name).getD none

def ofName? (s : String) : Option Op := named.find? (·.name == s)

end Op

end RiscvJit
