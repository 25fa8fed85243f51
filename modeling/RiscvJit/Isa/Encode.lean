import RiscvJit.Isa.Op

/-
  RiscvJit.Isa.Encode — instructions as machine words, and back.

  `Op.encode` places the operands of an instruction around the fixed bits of its row. It
  takes every operand modulo the width of its field; the assembler refuses what does not
  fit. `Op.mask` and `Op.pattern` are the bits by which a word is recognised.
-/

namespace RiscvJit

def fitsSigned (bits : Nat) (v : Int64) : Bool :=
  -(2 ^ (bits - 1) : Int) ≤ v.toInt && v.toInt < (2 ^ (bits - 1) : Int)

/-- The value fits the immediate of loads, stores and arithmetic. -/
def isImm12 (v : Int64) : Bool := fitsSigned 12 v

def lowWord (v : Int64) : UInt32 := v.toUInt64.toUInt32

def regField : Reg → UInt32
  | .x n => UInt32.ofNat n
  | .f n => UInt32.ofNat n
  | .none => 0

/-! ## Layouts -/

def encodeR (opcode funct3 funct7 rd rs1 rs2 : UInt32) : UInt32 :=
  funct7 <<< 25 ||| rs2 <<< 20 ||| rs1 <<< 15 ||| funct3 <<< 12 ||| rd <<< 7 ||| opcode

/-- Two registers and twelve bits at the top. -/
def encodeI (opcode funct3 rd rs1 imm : UInt32) : UInt32 :=
  (imm &&& 0xfff) <<< 20 ||| rs1 <<< 15 ||| funct3 <<< 12 ||| rd <<< 7 ||| opcode

/-- Two sources and twelve bits in two parts. -/
def encodeS (opcode funct3 rs1 rs2 imm : UInt32) : UInt32 :=
  let u := imm &&& 0xfff
  (u >>> 5) <<< 25 ||| rs2 <<< 20 ||| rs1 <<< 15 ||| funct3 <<< 12 ||| (u &&& 0x1f) <<< 7 ||| opcode

/-- The offset of a branch, scattered over the word. -/
def branchBits (off : UInt32) : UInt32 :=
  (off >>> 12 &&& 1) <<< 31 ||| (off >>> 5 &&& 0x3f) <<< 25 ||| (off >>> 1 &&& 0xf) <<< 8 |||
    (off >>> 11 &&& 1) <<< 7

/-- The bits of a word that hold the offset of a branch. -/
def branchMask : UInt32 := 0xfe000f80

/-- The offset of a jump, scattered over the word. -/
def jumpBits (off : UInt32) : UInt32 :=
  (off >>> 20 &&& 1) <<< 31 ||| (off >>> 1 &&& 0x3ff) <<< 21 ||| (off >>> 11 &&& 1) <<< 20 |||
    (off >>> 12 &&& 0xff) <<< 12

/-- The bits of a word that hold the offset of a jump. -/
def jumpMask : UInt32 := 0xfffff000

def encodeB (opcode funct3 rs1 rs2 off : UInt32) : UInt32 :=
  branchBits off ||| rs2 <<< 20 ||| rs1 <<< 15 ||| funct3 <<< 12 ||| opcode

def encodeU (opcode rd imm : UInt32) : UInt32 := (imm &&& 0xfffff) <<< 12 ||| rd <<< 7 ||| opcode

def encodeJ (opcode rd off : UInt32) : UInt32 := jumpBits off ||| rd <<< 7 ||| opcode

namespace Op

/-- The machine word of an instruction. `imm` is the immediate, the byte offset of branches and
jumps, the shift amount, the two sets of a fence, or the rounding mode; `aqrl` are the
ordering bits of atomics. -/
def encode (o : Op) (rd rs1 rs2 : Reg) (imm : Int64) (aqrl : UInt32) : UInt32 :=
  let i := o.info
  let d := regField rd
  let s1 := regField rs1
  let s2 := regField rs2
  let v := lowWord imm
  match i.format with
  | .r | .floatFixed => encodeR i.opcode i.funct3 i.funct7 d s1 s2
  | .i | .load | .jumpReg => encodeI i.opcode i.funct3 d s1 v
  | .store => encodeS i.opcode i.funct3 s1 s2 v
  | .branch => encodeB i.opcode i.funct3 s1 s2 v
  | .upper => encodeU i.opcode d v
  | .jump => encodeJ i.opcode d v
  | .shift64 => encodeI i.opcode i.funct3 d s1 (i.funct7 <<< 5 ||| v &&& 0x3f)
  | .shift32 => encodeI i.opcode i.funct3 d s1 (i.funct7 <<< 5 ||| v &&& 0x1f)
  | .fence => encodeI i.opcode i.funct3 0 0 (v &&& 0xff)
  | .system => encodeI i.opcode i.funct3 0 0 i.funct7
  | .atomic => encodeR i.opcode i.funct3 (i.funct7 ||| aqrl) d s1 s2
  | .reserve => encodeR i.opcode i.funct3 (i.funct7 ||| aqrl) d s1 0
  | .floatArith => encodeR i.opcode (v &&& 7) i.funct7 d s1 s2
  | .floatConvert => encodeR i.opcode (v &&& 7) i.funct7 d s1 i.fixed
  | .floatMove => encodeR i.opcode i.funct3 i.funct7 d s1 i.fixed

/-- The bits that identify an instruction. -/
def mask (o : Op) : UInt32 :=
  match o.info.format with
  | .upper | .jump => 0x7f
  | .i | .load | .store | .branch | .jumpReg | .fence => 0x707f
  | .r | .floatFixed | .shift32 => 0xfe00707f
  | .shift64 => 0xfc00707f
  | .system => 0xffffffff
  | .atomic => 0xf800707f
  | .reserve => 0xf9f0707f
  | .floatArith => 0xfe00007f
  | .floatConvert => 0xfff0007f
  | .floatMove => 0xfff0707f

/-- The value of the bits that identify an instruction. -/
def pattern (o : Op) : UInt32 :=
  let i := o.info
  match i.format with
  | .upper | .jump => i.opcode
  | .i | .load | .store | .branch | .jumpReg | .fence => i.funct3 <<< 12 ||| i.opcode
  | .r | .floatFixed | .shift32 | .shift64 | .atomic | .reserve =>
    i.funct7 <<< 25 ||| i.funct3 <<< 12 ||| i.opcode
  | .system => encodeI i.opcode i.funct3 0 0 i.funct7
  | .floatArith => i.funct7 <<< 25 ||| i.opcode
  | .floatConvert => i.funct7 <<< 25 ||| i.fixed <<< 20 ||| i.opcode
  | .floatMove => i.funct7 <<< 25 ||| i.fixed <<< 20 ||| i.funct3 <<< 12 ||| i.opcode

end Op

/-! ## Rounding modes and fence sets -/

def roundTowardZero : Int64 := 1

def roundDynamic : Int64 := 7

def fenceWrites : Int64 := 1

def fenceReads : Int64 := 2

/-! ## Decoding

A word is the first instruction of the table whose identifying bits it carries; a word that
carries the bits of none lies outside the subset and does not decode. -/

structure Inst where
  op : Op
  rd : Reg
  rs1 : Reg
  rs2 : Reg
  /-- The sign-extended immediate: byte offsets of branches and jumps, upper 20 bits, shift
  amounts, the two sets of a fence. -/
  imm : Int64 := 0
  /-- Ordering bits of atomics. -/
  aqrl : UInt32 := 0
  /-- Rounding mode of float instructions. -/
  rm : UInt32 := 0
  deriving DecidableEq, Repr, Inhabited

def signExtend (bits : Nat) (v : UInt32) : Int64 := Int64.ofInt (Int.bmod v.toNat (2 ^ bits))

/-- The register that a five-bit field names in a register file. -/
def regOfField (c : RegClass) (bits : UInt32) : Reg :=
  match c with
  | .int => .x (Fin.ofNat 32 bits.toNat)
  | .float => .f (Fin.ofNat 32 bits.toNat)
  | .none => .none

def immediateOf (format : Format) (w : UInt32) : Int64 :=
  match format with
  | .i | .load | .jumpReg => signExtend 12 (w >>> 20)
  | .store => signExtend 12 ((w >>> 25) <<< 5 ||| w >>> 7 &&& 0x1f)
  | .branch =>
    signExtend 13 ((w >>> 31) <<< 12 ||| (w >>> 7 &&& 1) <<< 11 ||| (w >>> 25 &&& 0x3f) <<< 5 |||
      (w >>> 8 &&& 0xf) <<< 1)
  | .upper => signExtend 20 (w >>> 12)
  | .jump =>
    signExtend 21 ((w >>> 31) <<< 20 ||| (w >>> 12 &&& 0xff) <<< 12 ||| (w >>> 20 &&& 1) <<< 11 |||
      (w >>> 21 &&& 0x3ff) <<< 1)
  | .shift64 => Int64.ofNat (w >>> 20 &&& 0x3f).toNat
  | .shift32 => Int64.ofNat (w >>> 20 &&& 0x1f).toNat
  | .fence => Int64.ofNat (w >>> 20 &&& 0xff).toNat
  | _ => 0

/-- The operands of a word known to be the instruction `o`. -/
def Op.operandsOf (o : Op) (w : UInt32) : Inst :=
  let i := o.info
  { op := o
    rd := regOfField i.rd (w >>> 7 &&& 0x1f)
    rs1 := regOfField i.rs1 (w >>> 15 &&& 0x1f)
    rs2 := regOfField i.rs2 (w >>> 20 &&& 0x1f)
    imm := immediateOf i.format w
    aqrl := match i.format with
      | .atomic | .reserve => w >>> 25 &&& 3
      | _ => 0
    rm := match i.format with
      | .floatArith | .floatConvert => w >>> 12 &&& 7
      | _ => 0 }

/-- The word carries the identifying bits of the instruction. -/
def Op.matchesWord (o : Op) (w : UInt32) : Bool := w &&& o.mask == o.pattern

def decode (w : UInt32) : Option Inst :=
  (Op.named.find? (·.matchesWord w)).map (·.operandsOf w)

end RiscvJit
