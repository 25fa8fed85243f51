import RiscvJit.Lower.State

/-
  RiscvJit.Lower.Move — copies between registers, stack, memory and constants.

  A value has a width in registers, on the stack and in memory, decided by its kind. Heap
  memory holds references in compressed form when that setting is on, so a reference is
  expanded on its way from memory and compressed on its way there. The scratch registers t0
  and t1 may be changed by any move.
-/

namespace RiscvJit

open Reg (zr sp t0 t1)
open Asm
open Location

namespace Lower

/-! ## Loads and stores by kind -/

def memLoadOp : ValueKind → Except Fault Op
  | .boolean => .ok .lbu
  | .byte => .ok .lb
  | .char => .ok .lhu
  | .short => .ok .lh
  | .int => .ok .lw
  | .narrowOop | .narrowKlass => .ok .lwu
  | .float => .ok .flw
  | .double => .ok .fld
  | .long | .object | .array | .address | .metadata => .ok .ld
  | k => .error (.defect ("cannot load " ++ k.name))

def memStoreOp : ValueKind → Except Fault Op
  | .boolean | .byte => .ok .sb
  | .char | .short => .ok .sh
  | .int | .narrowOop | .narrowKlass => .ok .sw
  | .float => .ok .fsw
  | .double => .ok .fsd
  | .long | .object | .array | .address | .metadata => .ok .sd
  | k => .error (.defect ("cannot store " ++ k.name))

def stackLoadOp (k : ValueKind) : Op :=
  if k.isIntLike then .lw
  else match k with
    | .float => .flw
    | .narrowOop | .narrowKlass => .lwu
    | .double => .fld
    | _ => .ld

def stackStoreOp (k : ValueKind) : Op :=
  match k with
  | .float => .fsw
  | .double => .fsd
  | _ => if k.is64 then .sd else .sw

/-- Kinds that the heap holds in compressed form when references are compressed. -/
def isOop : ValueKind → Bool
  | .object | .array => true
  | _ => false

def compressedOop (k : ValueKind) : Lower Bool := return isOop k && (← read).opts.compressedOops

def stackOffset (o : Operand) : Except Fault Int64 := o.slot.map slotBytes

/-! ## Constants -/

/-- Put a constant into an integer register; floats by their raw bits. -/
def constToReg (c : Operand) (rd : Reg) : Lower Unit := do
  let bits ← c.bits
  match c.kind with
  | .object | .array => if bits = 0 then mv rd zr else movptr rd bits
  | .metadata => movptr rd bits
  | .narrowOop | .narrowKlass => li rd (Int64.ofNat bits.toUInt32.toNat)
  | _ => li rd (Operand.longOfBits c.kind bits)

/-- The compressed form of a reference that is not null. -/
def narrowConst (o : Options) (addr : UInt64) : Int64 :=
  let shift := o.oopShift.toNat
  Int64.ofNat (UInt64.ofNat ((addr - o.oopBase).toNat >>> shift)).toUInt32.toNat

/-- A register that holds an integer operand: its own, zr for zero, or the scratch register. -/
def srcReg (o : Operand) (scratch : Reg) : Lower Reg := do
  match o with
  | .register _ lo _ => return lo
  | .constant _ bits =>
    if bits = 0 then return zr
    constToReg o scratch
    return scratch
  | .stack k slot =>
    loadOff (stackLoadOp k) scratch sp (slotBytes slot) scratch
    return scratch
  | _ => throw (.precondition ("operand " ++ o.text ++ " cannot be used as an integer source"))

/-! ## Memory -/

def loadFromMemory (rd : Reg) (k : ValueKind) (a : Address) : Lower Unit := do
  let (base, disp) ← legitimize a
  if ← compressedOop k then
    lwu rd base disp
    decodeHeapOop rd (if rd = t1 then t0 else t1)
  else load (← memLoadOp k) rd base disp

def storeToMemory (r : Reg) (k : ValueKind) (a : Address) : Lower Unit := do
  let (base, disp) ← legitimize a
  if ← compressedOop k then
    encodeHeapOop t1 r t1
    sw t1 base disp
  else store (← memStoreOp k) r base disp

/-! ## Moves by source -/

def cannotMove (src dst : Operand) : Fault :=
  .precondition ("cannot move " ++ src.text ++ " to " ++ dst.text)

/-- The copy of raw bits into a float register. -/
def toFloatOp (k : ValueKind) : Op := if k = .float then .fmvWX else .fmvDX

def moveFromReg (src : Operand) (r : Reg) (dst : Operand) : Lower Unit := do
  match dst with
  | .register _ rd _ => mv rd r
  | .floatRegister k rd => fmv (toFloatOp k) rd r
  | .stack k slot => storeOff (stackStoreOp k) r sp (slotBytes slot) t0
  | .memory k a => storeToMemory r k a
  | _ => throw (cannotMove src dst)

def moveFromFloatReg (src : Operand) (k : ValueKind) (r : Reg) (dst : Operand) : Lower Unit := do
  match dst with
  | .register _ rd _ => fmv (if k = .float then .fmvXW else .fmvXD) rd r
  | .floatRegister _ rd => mv rd r
  | .stack _ slot => storeOff (stackStoreOp k) r sp (slotBytes slot) t0
  | .memory _ a =>
    let (base, disp) ← legitimize a
    store (← memStoreOp k) r base disp
  | _ => throw (cannotMove src dst)

def moveStackToMemory (src : Operand) (k : ValueKind) (off : Int64) (dst : Operand) (dk : ValueKind)
    (a : Address) : Lower Unit := do
  check (dk.is64 || !k.is64) fun _ => "cannot move " ++ src.text ++ " to " ++ dst.text
  if ← compressedOop dk then
    check (!a.hasIndex || isImm12 a.disp) fun _ => "cannot store a spilled reference to " ++ dst.text
    loadOff .ld t1 sp off t1
    encodeHeapOop t1 t1 t0
    let (base, disp) ← legitimize a
    sw t1 base disp
  else
    let (base, disp) ← legitimize a
    loadOff (if k.is64 then .ld else .lw) t1 sp off t1
    store (← memStoreOp dk) t1 base disp

def moveFromStack (src : Operand) (k : ValueKind) (slot : Nat) (dst : Operand) : Lower Unit := do
  let off := slotBytes slot
  match dst with
  | .register _ rd _ => loadOff (stackLoadOp k) rd sp off rd
  | .floatRegister _ rd => loadOff (stackLoadOp k) rd sp off t0
  | .stack _ slot' =>
    loadOff (if k.is64 then .ld else .lw) t1 sp off t1
    storeOff (if k.is64 then .sd else .sw) t1 sp (slotBytes slot') t0
  | .memory dk a => moveStackToMemory src k off dst dk a
  | _ => throw (cannotMove src dst)

/-- The store of a constant's bits to memory, from an integer register. -/
def constStoreOp (k : ValueKind) : Lower Op := do
  let st ← memStoreOp k
  if ← compressedOop k then return .sw
  return match k with
    | .float => .sw
    | .double => .sd
    | _ => st

def moveConstToMemory (src : Operand) (bits : UInt64) (k : ValueKind) (a : Address) : Lower Unit := do
  let (base, disp) ← legitimize a
  let st ← constStoreOp k
  if bits = 0 then store st zr base disp
  else
    if ← compressedOop k then li t1 (narrowConst (← read).opts bits) else constToReg src t1
    store st t1 base disp

def moveFromConst (src : Operand) (bits : UInt64) (dst : Operand) : Lower Unit := do
  match dst with
  | .register _ rd _ => constToReg src rd
  | .floatRegister k rd =>
    if bits = 0 then fmv (toFloatOp k) rd zr
    else
      li t0 bits.toInt64
      fmv (toFloatOp k) rd t0
  | .stack k slot =>
    let off := slotBytes slot
    if bits = 0 then storeOff (stackStoreOp k) zr sp off t0
    else
      constToReg src t1
      storeOff (stackStoreOp k) t1 sp off t0
  | .memory k a => moveConstToMemory src bits k a
  | _ => throw (cannotMove src dst)

def moveFromMemory (src : Operand) (k : ValueKind) (a : Address) (dst : Operand) : Lower Unit := do
  match dst with
  | .register _ rd _ => loadFromMemory rd k a
  | .floatRegister _ rd =>
    let (base, disp) ← legitimize a
    load (← memLoadOp k) rd base disp
  | .stack dk slot =>
    check (!k.isFloat) fun _ => "cannot move " ++ src.text ++ " to " ++ dst.text
    loadFromMemory t1 k a
    storeOff (stackStoreOp dk) t1 sp (slotBytes slot) t0
  | _ => throw (cannotMove src dst)

def move (src dst : Operand) : Lower Unit :=
  match src with
  | .register _ lo _ => moveFromReg src lo dst
  | .floatRegister k r => moveFromFloatReg src k r dst
  | .stack k slot => moveFromStack src k slot dst
  | .constant _ bits => moveFromConst src bits dst
  | .memory k a => moveFromMemory src k a dst
  | .absent => throw (.precondition ("cannot move from " ++ src.text))

end Lower

end RiscvJit
