import RiscvJit.Code.Assembler
import RiscvJit.Lir.Program

/-
  RiscvJit.Code.Sequence — sequences of instructions with one purpose.

  Constants, addresses beyond twelve bits, compressed references, atomic swaps, calls and
  frames all take more than one instruction. The sequences here may change the scratch
  registers t0 and t1 and nothing else that they do not name.
-/

namespace RiscvJit

open Reg (zr ra sp t0 t1 fp thread)
open MemoryOrder

/-! ## Constants -/

/-- The low twelve bits as a signed number. -/
def low12 (v : Int64) : Int64 := v <<< 52 >>> 52

/-- What remains without the signed low twelve bits. -/
def high12 (v : Int64) : Int64 := v - low12 v

/-- The value is the sign extension of its low 32 bits. -/
def isInt32 (v : Int64) : Bool := v.toInt32.toInt64 = v

/-- The upper twenty bits of the low word, sign-extended. -/
def upper20 (v : Int64) : Int64 := v.toInt32.toInt64 >>> 12

inductive ConstStep where
  /-- Set bits 12 to 31 and extend the sign. -/
  | lui (imm20 : Int64)
  | start (imm : Int64)
  | addiw (imm : Int64)
  | slli (n : Int64)
  | addi (imm : Int64)
  deriving DecidableEq, Repr

/-- Number of zero bits at the low end, at most `fuel`. -/
def trailingZeros : Nat → UInt64 → Nat
  | 0, _ => 0
  | fuel + 1, v => if v &&& 1 = 1 then 0 else 1 + trailingZeros fuel (v >>> 1)

/-- The steps of a constant that is the sign extension of 32 bits. Low bits that are zero are
only added to the zero register, which `lui` leaves at zero. -/
def constSteps32 (toZero : Bool) (imm : Int64) : List ConstStep :=
  let lower := low12 imm
  if high12 imm = 0 then [.start lower]
  else .lui (upper20 (high12 imm)) :: (if lower = 0 && !toZero then [] else [.addiw lower])

/-- The steps of any constant: the upper bits first, then a shift and the low twelve bits. Each
round takes at least twelve bits away. -/
def constSteps (toZero : Bool) : Nat → Int64 → List ConstStep
  | 0, _ => []
  | fuel + 1, imm =>
    if isInt32 imm then constSteps32 toZero imm
    else
      let upper := high12 imm
      let shift := trailingZeros 64 upper.toUInt64
      let lower := low12 imm
      constSteps toZero fuel (upper >>> Int64.ofNat shift) ++
        .slli (Int64.ofNat shift) :: (if lower = 0 then [] else [.addi lower])

def constRounds : Nat := 8

namespace Asm

def constStep (rd : Reg) : ConstStep → Asm Unit
  | .lui imm => lui rd imm
  | .start imm => addiw rd zr imm
  | .addiw imm => addiw rd rd imm
  | .slli n => slli rd rd n
  | .addi imm => addi rd rd imm

/-- Put a constant into a register. -/
def li (rd : Reg) (imm : Int64) : Asm Unit :=
  (constSteps (rd = zr) constRounds imm).forM (constStep rd)

/-- Put all but the low six bits of an address of at most 47 bits into a register, in five
instructions; the low bits are for the instruction that follows. -/
def movptrWithOffset (rd : Reg) (addr : UInt64) : Asm Int64 := do
  check (addr >>> 47 == 0) fun _ => "address " ++ Text.hex addr.toNat ++ " does not fit 47 bits"
  let imm := addr.toInt64
  let top := imm >>> 17
  lui rd (upper20 (high12 top))
  addi rd rd (low12 top)
  slli rd rd 11
  addi rd rd (imm >>> 6 &&& 0x7ff)
  slli rd rd 6
  return imm &&& 0x3f

/-- Put an address into a register, in six instructions that can be patched in place. -/
def movptr (rd : Reg) (addr : UInt64) : Asm Unit := do
  let lo ← movptrWithOffset rd addr
  addi rd rd lo

/-- Copy between registers of one file. -/
def mv (rd rs : Reg) : Asm Unit :=
  if rd = rs then return
  else if rd.isFloat then rr .fsgnjD rd rs rs
  else addi rd rs 0

/-! ## Addresses -/

/-- `rd = rs + imm`; a large constant goes through `tmp`. -/
def addImm (rd rs : Reg) (imm : Int64) (tmp : Reg) : Asm Unit := do
  if isImm12 imm then
    if imm ≠ 0 || rd ≠ rs then addi rd rs imm
  else
    check (tmp ≠ rs) fun _ => "scratch " ++ tmp.abiName ++ " aliases the source"
    li tmp imm
    add rd rs tmp

/-- Load from `base + off` for any offset; a large one goes through `tmp`. -/
def loadOff (o : Op) (rd base : Reg) (off : Int64) (tmp : Reg) : Asm Unit := do
  if isImm12 off then load o rd base off
  else
    check (tmp ≠ base) fun _ => "scratch " ++ tmp.abiName ++ " aliases the base"
    li tmp (high12 off)
    add tmp tmp base
    load o rd tmp (low12 off)

/-- Store to `base + off` for any offset; a large one goes through `tmp`. -/
def storeOff (o : Op) (src base : Reg) (off : Int64) (tmp : Reg) : Asm Unit := do
  if isImm12 off then store o src base off
  else
    check (tmp ≠ base && tmp ≠ src) fun _ => "scratch " ++ tmp.abiName ++ " aliases an operand"
    li tmp (high12 off)
    add tmp tmp base
    store o src tmp (low12 off)

def indexedBase (a : Address) : Asm Reg := do
  if a.hasIndex then
    if a.scale = 0 then add t0 a.base a.index
    else
      slli t0 a.index (Int64.ofNat a.scale.toNat)
      add t0 a.base t0
    return t0
  else return a.base

/-- A base register and a 12-bit displacement for any address. -/
def legitimize (a : Address) : Asm (Reg × Int64) := do
  let base ← indexedBase a
  if isImm12 a.disp then return (base, a.disp)
  if base = t0 then
    li t1 (high12 a.disp)
    add t0 t0 t1
  else
    li t0 (high12 a.disp)
    add t0 t0 base
  return (t0, low12 a.disp)

/-! ## Compressed references -/

/-- The settings code is generated for. -/
def opts : Asm Options := return (← read).opts

/-- Compress the reference in `src`. -/
def encodeHeapOop (dst src tmp : Reg) : Asm Unit := do
  let o ← opts
  if !o.compressedOops then mv dst src
  else if o.oopBase = 0 then
    if o.oopShift = 0 then mv dst src else srli dst src (Int64.ofNat o.oopShift.toNat)
  else
    check (tmp ≠ src) fun _ => "scratch " ++ tmp.abiName ++ " aliases the oop"
    let notNull ← newLabel
    li tmp o.oopBase.toInt64
    sub tmp src tmp
    srli tmp tmp (Int64.ofNat o.oopShift.toNat)
    branch .bne src zr notNull
    mv tmp zr
    bind notNull
    mv dst tmp

/-- Expand the zero-extended reference in `rd`. -/
def decodeHeapOop (rd tmp : Reg) : Asm Unit := do
  let o ← opts
  if !o.compressedOops then return
  else if o.oopBase = 0 then
    if o.oopShift ≠ 0 then slli rd rd (Int64.ofNat o.oopShift.toNat)
  else
    check (tmp ≠ rd) fun _ => "scratch " ++ tmp.abiName ++ " aliases the oop"
    let done ← newLabel
    branch .beq rd zr done
    slli rd rd (Int64.ofNat o.oopShift.toNat)
    li tmp o.oopBase.toInt64
    add rd rd tmp
    bind done

/-- Compress the type descriptor pointer in `src`. -/
def encodeKlass (dst src tmp : Reg) : Asm Unit := do
  let o ← opts
  let cur ← if o.klassBase ≠ 0 then do
      check (tmp ≠ src) fun _ => "scratch " ++ tmp.abiName ++ " aliases the klass"
      li tmp o.klassBase.toInt64
      sub dst src tmp
      pure dst
    else pure src
  if o.klassShift ≠ 0 then srli dst cur (Int64.ofNat o.klassShift.toNat) else mv dst cur

/-- Expand the type descriptor pointer in `rd`. -/
def decodeKlass (rd tmp : Reg) : Asm Unit := do
  let o ← opts
  if o.klassShift ≠ 0 then slli rd rd (Int64.ofNat o.klassShift.toNat)
  if o.klassBase ≠ 0 then
    check (tmp ≠ rd) fun _ => "scratch " ++ tmp.abiName ++ " aliases the klass"
    li tmp o.klassBase.toInt64
    add rd rd tmp

def loadKlass (dst obj tmp : Reg) : Asm Unit := do
  let o ← opts
  if o.compressedClassPointers then
    lwu dst obj objectLayout.klass
    decodeKlass dst tmp
  else ld dst obj objectLayout.klass

def storeKlass (obj klass tmp : Reg) : Asm Unit := do
  let o ← opts
  if o.compressedClassPointers then
    encodeKlass tmp klass tmp
    sw tmp obj objectLayout.klass
  else sd klass obj objectLayout.klass

/-! ## Barriers and atomic swaps -/

def fenceSets (order : MemoryOrder) : Int64 × Int64 :=
  let on (bit : MemoryOrder) (set : Int64) : Int64 := if order &&& bit ≠ 0 then set else 0
  (on loadLoad fenceReads ||| on loadStore fenceReads |||
      on storeLoad fenceWrites ||| on storeStore fenceWrites,
    on loadLoad fenceReads ||| on loadStore fenceWrites |||
      on storeLoad fenceReads ||| on storeStore fenceWrites)

/-- Every order between loads and stores. -/
def anyOrder : MemoryOrder :=
  loadLoad ||| storeStore ||| loadStore ||| storeLoad

/-- The barrier that enforces an order; none when nothing is ordered. -/
def membar (order : MemoryOrder) : Asm Unit := do
  let (pred, succ) := fenceSets order
  if pred ≠ 0 then fence pred succ

def release : UInt32 := 1
def acquire : UInt32 := 2
def acquireRelease : UInt32 := 3

/-- Replace the word at `addr` if it equals `expected`; the result is 1 on success, else 0. -/
def cmpxchg (addr expected new result : Reg) (wide : Bool) : Asm Unit := do
  let retry ← newLabel
  let fail ← newLabel
  let done ← newLabel
  bind retry
  lr (if wide then .lrD else .lrW) t0 addr acquire
  branch .bne t0 expected fail
  sc (if wide then .scD else .scW) t1 new addr release
  branch .bne t1 zr retry
  li result 1
  j done
  bind fail
  mv result zr
  bind done
  membar anyOrder

/-- Replace the word at `addr` if it equals `old` and go to `succeed`; otherwise `old` receives
the current word and control goes to `fail`, or on when there is none. -/
def cmpxchgptr (old new addr tmp : Reg) (succeed : Label) (fail : Option Label) : Asm Unit := do
  let retry ← newLabel
  let nope ← newLabel
  bind retry
  lr .lrD tmp addr acquireRelease
  branch .bne tmp old nope
  sc .scD tmp new addr release
  branch .bne tmp zr retry
  membar anyOrder
  j succeed
  bind nope
  mv old tmp
  membar anyOrder
  match fail with
  | some l => j l
  | none => return

/-! ## Calls -/

/-- Control goes to `target`: by a short jump or a pc-relative one when the code's address is
known and near enough, else through an absolute address. -/
def farCall (target : UInt64) (link tmp : Reg) : Asm Unit := do
  let a ← get
  let rel := (target - a.buf.pc).toInt64
  let near := a.buf.base ≠ 0
  if near && fitsSigned 21 rel then jalOffset link rel
  else if near && fitsSigned 20 (high12 rel >>> 12) then
    auipc tmp (high12 rel >>> 12)
    jalr link tmp (low12 rel)
  else
    let lo ← movptrWithOffset tmp target
    jalr link tmp lo

def call (target : UInt64) : Asm Unit := farCall target ra t0

def jump (target : UInt64) : Asm Unit := farCall target zr t0

def entryAddress (e : RuntimeEntry) : Asm UInt64 := do (← read).runtime.address e

def rtCall (e : RuntimeEntry) : Asm Unit := do call (← entryAddress e)

def rtCallWithArg (e : RuntimeEntry) : Asm Unit := do farCall (← entryAddress e) ra t1

def rtJump (e : RuntimeEntry) : Asm Unit := do jump (← entryAddress e)

/-! ## Frames -/

/-- Push the return address and the frame pointer. -/
def enter : Asm Unit := do
  addi sp sp (-16)
  sd ra sp 8
  sd fp sp 0
  mv fp sp

/-- Pop what `enter` pushed. -/
def leave : Asm Unit := do
  mv sp fp
  ld fp sp 0
  ld ra sp 8
  addi sp sp 16

def storeOpFor (r : Reg) : Op := if r.isFloat then .fsd else .sd

def loadOpFor (r : Reg) : Op := if r.isFloat then .fld else .ld

/-- The bytes that saved registers take. -/
def pushedSize (regs : List Reg) : Int64 := alignUp (Int64.ofNat (8 * regs.length)) stackAlignment

/-- Save registers below the stack pointer; the size of their area. -/
def pushRegs (regs : List Reg) : Asm Int64 := do
  let size := pushedSize regs
  if size = 0 then return 0
  addi sp sp (-size)
  regs.zipIdx.forM fun (r, i) => store (storeOpFor r) r sp (Int64.ofNat (8 * i))
  return size

/-- Restore what `pushRegs` saved. -/
def popRegs (regs : List Reg) : Asm Unit := do
  let size := pushedSize regs
  if size = 0 then return
  regs.zipIdx.forM fun (r, i) => load (loadOpFor r) r sp (Int64.ofNat (8 * i))
  addi sp sp size

def setLastJavaFrame (lastSp lastFp : Reg) (pc : Label) (tmp : Reg) : Asm Unit := do
  if lastFp.isValid then sd lastFp thread threadLayout.lastJavaFp
  la tmp pc
  sd tmp thread threadLayout.lastJavaPc
  sd lastSp thread threadLayout.lastJavaSp

def resetLastJavaFrame (clearFp : Bool) : Asm Unit := do
  sd zr thread threadLayout.lastJavaSp
  if clearFp then sd zr thread threadLayout.lastJavaFp
  sd zr thread threadLayout.lastJavaPc

def safepointPollSize : Int64 := 16

/-- Go to `slow` when a safepoint is requested; the sequence has a fixed size. -/
def safepointPoll (slow : Label) : Asm Unit := do
  ld t0 thread threadLayout.pollingWord
  andi t0 t0 safepointPollBit
  emit .beq .none t0 zr 8 0
  j slow

def storeThreadState (state : Int64) : Asm Unit := do
  li t0 state
  membar (loadStore ||| storeStore)
  sw t0 thread threadLayout.threadState

end Asm

end RiscvJit
