import RiscvJit.Lower.State

/-
  RiscvJit.Lower.TypeCheck — subtype tests and type profiles.

  Every type descriptor has a slot in its subtypes at a fixed offset, its super check offset.
  Either the slot is in the display of primary supers and decides alone, or it is the cache of
  secondary supers, and a miss sends the test to the shared scan of all secondary supers.

  A profile entry counts the types that pass a check: in the row of the type, else in the
  first empty row, else in the common counter. A profile cell holds one type, or the fact that
  there were several. Cells are updated without locks, so an update may get lost.
-/

namespace RiscvJit

open Reg (zr sp t0 t1)
open Asm

namespace Lower

/-! ## Subtype tests -/

/-- Ask the shared scan of secondary supers; both types are pushed on the stack. -/
def slowSubtypeCheck (sub super : Reg) (success failure : Label) : Lower Unit := do
  addi sp sp (-16)
  sd sub sp 8
  sd super sp 0
  rtCall .slowSubtypeCheck
  ld t0 sp 0
  addi sp sp 16
  beqz t0 failure
  j success

/-- The test against a class whose super check offset is known. -/
def checkSubtypeStatic (sub super : Reg) (offset : Int32) (fast : Bool) (success failure : Label) :
    Lower Unit := do
  bcond .beq sub super success
  if fast then j failure
  else
    loadOff .ld t0 sub offset.toInt64 t0
    bcond .beq t0 super success
    if offset.toInt64 ≠ klassLayout.secondarySuperCache then j failure
    else slowSubtypeCheck sub super success failure

/-- The test against a class that is only known when the code runs. -/
def checkSubtypeDynamic (sub super tmp : Reg) (success failure : Label) : Lower Unit := do
  bcond .beq sub super success
  lwu tmp super klassLayout.superCheckOffset
  add t0 sub tmp
  ld t0 t0 0
  bcond .beq t0 super success
  li t1 klassLayout.secondarySuperCache
  bcond .bne tmp t1 failure
  slowSubtypeCheck sub super success failure

/-! ## Profile entries -/

def profileNull (mdp : UInt64) : Lower Unit := do
  li t1 mdp.toInt64
  lbu t0 t1 profileFlags
  ori t0 t0 profileNullSeen
  sb t0 t1 profileFlags

def rowOffset (n : Nat) : Int64 := profileFirstRow + Int64.ofNat n * profileRowSize

def countInRow (recv : Reg) (updated : Label) (row : Int64) : Lower Unit := do
  let next ← newLabel
  ld t0 t1 row
  branch .bne t0 recv next
  ld t0 t1 (row + 8)
  addi t0 t0 profileIncrement
  sd t0 t1 (row + 8)
  j updated
  Asm.bind next

/-- Take a row for the type if it is empty. -/
def claimRow (recv : Reg) (updated : Label) (row : Int64) : Lower Unit := do
  let next ← newLabel
  ld t0 t1 row
  branch .bne t0 zr next
  sd recv t1 row
  li t0 profileIncrement
  sd t0 t1 (row + 8)
  j updated
  Asm.bind next

/-- Do something to each of the rows `n`, `n + 1`, … of which `fuel` are left. -/
def forRows (f : Int64 → Lower Unit) : Nat → Nat → Lower Unit
  | 0, _ => return
  | fuel + 1, n => do
    f (rowOffset n)
    forRows f fuel (n + 1)

def profileReceiver (p : ProfileSite) (recv : Reg) : Lower Unit := do
  let updated ← newLabel
  li t1 p.mdp.toInt64
  forRows (countInRow recv updated) p.rows.toNatClampNeg 0
  forRows (claimRow recv updated) p.rows.toNatClampNeg 0
  ld t0 t1 profileCount
  addi t0 t0 profileIncrement
  sd t0 t1 profileCount
  Asm.bind updated

/-! ## Instructions -/

/-- Go to `onNull` for a null, which the profile notes; go on for the others. -/
def skipNull (obj : Reg) (profile : Option ProfileSite) (onNull : Label) : Lower Unit := do
  match profile with
  | none => beqz obj onNull
  | some p =>
    let notNull ← newLabel
    branch .bne obj zr notNull
    profileNull p.mdp
    j onNull
    Asm.bind notNull

/-- The part that tests and casts share; a type is counted when it passes. -/
def typeCheck (obj : Reg) (tc : TypeCheck) (onNull success failure : Label) : Lower Unit := do
  let super ← reg tc.tmp1 "klass temporary"
  let sub ← reg tc.tmp2 "object klass temporary"
  distinct "type check" [obj, super, sub]
  skipNull obj tc.profile onNull
  movptr super tc.klass
  loadKlass sub obj t0
  match tc.profile with
  | none => checkSubtypeStatic sub super tc.superCheckOffset tc.fast success failure
  | some p =>
    let passed ← newLabel
    checkSubtypeStatic sub super tc.superCheckOffset tc.fast passed failure
    Asm.bind passed
    profileReceiver p sub
    j success

def instanceOf (i : Instruction) : Lower Unit := do
  let obj ← reg (← input i 0) "object"
  let res ← reg i.result "instanceof result"
  let success ← newLabel
  let failure ← newLabel
  let done ← newLabel
  typeCheck obj (← payload i.typeCheck) failure success failure
  Asm.bind success
  li res 1
  j done
  Asm.bind failure
  mv res zr
  Asm.bind done

/-- Throw unless an object is null or an instance of a class. -/
def checkCast (i : Instruction) : Lower Unit := do
  let obj ← reg (← input i 0) "object"
  let res ← reg i.result "checkcast result"
  let entry ← newLabel
  addSlowPath (.exception .throwClassCast obj i.info entry)
  let success ← newLabel
  typeCheck obj (← payload i.typeCheck) success success entry
  Asm.bind success
  mv res obj

/-- Throw unless an object may be stored into an array; a null always may. -/
def storeCheck (i : Instruction) : Lower Unit := do
  let value ← reg (← input i 0) "stored value"
  let array ← reg (← input i 1) "array"
  let tc ← payload i.typeCheck
  check (!tc.tmp3.isAbsent) fun _ => "store check needs three temporaries"
  let elem ← reg tc.tmp1 "element klass temporary"
  let sub ← reg tc.tmp2 "value klass temporary"
  let tmp ← reg tc.tmp3 "temporary"
  distinct "store check" [value, array, elem, sub, tmp]
  let entry ← newLabel
  addSlowPath (.exception .throwArrayStore value i.info entry)
  let done ← newLabel
  skipNull value tc.profile done
  loadKlass elem array t0
  ld elem elem klassLayout.elementKlass
  loadKlass sub value t0
  match tc.profile with
  | none => checkSubtypeDynamic sub elem tmp done entry
  | some p =>
    let passed ← newLabel
    checkSubtypeDynamic sub elem tmp passed entry
    Asm.bind passed
    profileReceiver p sub
  Asm.bind done

/-! ## Profile cells -/

/-- Note in a cell that a null was seen, unless it is known there. -/
def cellNull (p : TypeProfile) (done : Label) (obj : Reg) : Lower Unit := do
  let notNull ← newLabel
  branch .bne obj zr notNull
  if p.current.toInt64 &&& typeNullSeen = 0 then
    li t1 p.cell.toInt64
    ld t0 t1 0
    ori t0 t0 typeNullSeen
    sd t0 t1 0
  j done
  Asm.bind notNull

/-- Nothing can be added to the cell: several types are known, or this one is. -/
def cellSettled (p : TypeProfile) : Bool :=
  let cur := p.current.toInt64
  cur &&& typeUnknown ≠ 0 || (p.exactKlass ≠ 0 && cur &&& typeKlassMask = p.exactKlass.toInt64)

/-- Record the type of an object that is not null: the first one by its descriptor, a second
one by the mark for several. -/
def cellType (p : TypeProfile) (obj tmp : Reg) (done : Label) : Lower Unit := do
  let conflict ← newLabel
  if p.exactKlass ≠ 0 then li tmp p.exactKlass.toInt64 else loadKlass tmp obj t0
  li t1 p.cell.toInt64
  ld t0 t1 0
  -- Where the difference of type and cell has no descriptor bits, the type is recorded.
  xor tmp tmp t0
  andi t1 tmp typeKlassMask
  branch .beq t1 zr done
  andi t1 t0 typeUnknown
  branch .bne t1 zr done
  andi t1 t0 typeKlassMask
  branch .bne t1 zr conflict
  -- The cell was empty, so the difference is the type with the cell's flags.
  li t1 p.cell.toInt64
  sd tmp t1 0
  j done
  Asm.bind conflict
  ori t0 t0 typeUnknown
  li t1 p.cell.toInt64
  sd t0 t1 0

def profileType (i : Instruction) : Lower Unit := do
  let obj ← reg (← input i 0) "profiled value"
  let p ← payload i.typeProfile
  let tmp ← reg p.tmp "temporary"
  distinct "profile type" [obj, tmp]
  let done ← newLabel
  if !p.notNull then cellNull p done obj
  if !cellSettled p then cellType p obj tmp done
  Asm.bind done

end Lower

end RiscvJit
