import RiscvJit.Lower.Move

/-
  RiscvJit.Lower.Alloc — inline allocation of objects and arrays.

  A new object is cut from the thread's allocation buffer: its mark and type are written, its
  body is cleared, and a barrier keeps these stores before the publication of the object. When
  the buffer is used up, or the class is not initialized, or inline allocation is off, the
  runtime allocates.
-/

namespace RiscvJit

open Reg (zr t0 t1 thread)
open Asm

namespace Lower

/-- The largest body, in words, that is cleared without a loop. -/
def maxUnrolledClear : Int64 := 8

/-- Go to `slow` unless the class is initialized. -/
def checkInitialized (klass : Reg) (slow : Label) : Lower Unit := do
  lbu t0 klass klassLayout.initState
  li t1 klassFullyInitialized
  bcond .bne t0 t1 slow

/-- How far the top of the allocation buffer moves. -/
inductive AllocSize where
  | const (bytes : Int64)
  | register (r : Reg)

/-- Cut an object from the allocation buffer: `obj` receives its start and `end'` its end. -/
def tlabAllocate (obj end' : Reg) (size : AllocSize) (slow : Label) : Lower Unit := do
  ld obj thread threadLayout.tlabTop
  match size with
  | .register r => add end' obj r
  | .const n => addImm end' obj n t0
  ld t0 thread threadLayout.tlabEnd
  bcond .bltu t0 end' slow
  sd end' thread threadLayout.tlabTop

/-- Write the mark and the type of a new object. -/
def initializeHeader (obj klass : Reg) : Lower Unit := do
  li t0 markPrototype
  sd t0 obj objectLayout.mark
  storeKlass obj klass t0

def clearWords (obj : Reg) : Nat → Int64 → Lower Unit
  | 0, _ => return
  | n + 1, off => do
    storeOff .sd zr obj off t0
    clearWords obj n (off + 8)

/-- Words in a range of offsets, the last one counted also when it is cut. -/
def wordCount (start stop : Int64) : Nat := ((stop - start).toNatClampNeg + 7) / 8

/-- Clear the bytes between two offsets, by single stores or in a loop. -/
def clearRange (obj cur end' : Reg) (start stop : Int64) : Lower Unit := do
  if stop ≤ start then return
  else if (stop - start) / 8 ≤ maxUnrolledClear then clearWords obj (wordCount start stop) start
  else
    let loop ← newLabel
    addImm cur obj start t0
    addImm end' obj stop t0
    Asm.bind loop
    sd zr cur 0
    addi cur cur 8
    branch .bltu cur end' loop

/-- Clear the half word between a compressed type and the body; where the body starts. -/
def clearGap (obj : Reg) (size : Int64) : Lower Int64 := do
  if (← read).opts.compressedClassPointers then
    let hdr := objectLayout.instanceHeaderNarrow
    if hdr % 8 ≠ 0 && hdr < size then
      sw zr obj hdr
      return hdr + 4
    return hdr
  return objectLayout.instanceHeader

def checkObjectSize (size : Int64) : Except Fault Unit :=
  check (0 < size && size % 8 = 0) fun _ =>
    "object size " ++ Text.ofInt size.toInt ++ " is not a positive multiple of 8"

def allocObject (i : Instruction) : Lower Unit := do
  let obj ← reg i.result "new object"
  let a ← payload i.alloc
  let klass ← reg a.klass "klass"
  let tmp1 ← reg a.tmp1 "temporary"
  let tmp2 ← reg a.tmp2 "temporary"
  distinct "allocate object" [obj, klass, tmp1, tmp2]
  checkObjectSize a.size
  let entry ← newLabel
  let cont ← newLabel
  addSlowPath (.newInstance klass obj i.info entry cont)
  if a.initCheck then checkInitialized klass entry
  if (← read).opts.useTlab then
    tlabAllocate obj tmp2 (.const a.size) entry
    initializeHeader obj klass
    let body ← clearGap obj a.size
    clearRange obj tmp1 tmp2 body a.size
    membar MemoryOrder.storeStore
  else j entry
  Asm.bind cont

/-- The binary logarithm of the size of array elements; kinds without size have 64. -/
def elementShift (o : Options) (k : ValueKind) : Int64 :=
  let size := if isOop k then o.heapOopSize else k.size
  Int64.ofNat (trailingZeros 64 (UInt64.ofNat size))

/-- Clear the words of `[cur, end')` in a loop. -/
def clearLoop (cur end' : Reg) : Lower Unit := do
  let loop ← newLabel
  let done ← newLabel
  Asm.bind loop
  branch .bgeu cur end' done
  sd zr cur 0
  addi cur cur 8
  j loop
  Asm.bind done

def allocArrayInline (element : ValueKind) (obj klass length tmp1 tmp2 : Reg) (slow : Label) :
    Lower Unit := do
  let o := (← read).opts
  let base := objectLayout.arrayBase o.compressedClassPointers
  let lengthOffset := objectLayout.arrayLengthFor o.compressedClassPointers
  li t0 maxArrayAllocationLength
  bcond .bltu t0 length slow
  slli tmp1 length (elementShift o element)
  addi tmp1 tmp1 (base + 7)
  andi tmp1 tmp1 (-8)
  tlabAllocate obj tmp2 (.register tmp1) slow
  initializeHeader obj klass
  sw length obj lengthOffset
  if lengthOffset + 4 < base then sw zr obj (lengthOffset + 4)
  addi tmp1 obj base
  clearLoop tmp1 tmp2
  membar MemoryOrder.storeStore

def allocArray (i : Instruction) : Lower Unit := do
  let obj ← reg i.result "new array"
  let a ← payload i.alloc
  let klass ← reg a.klass "klass"
  let length ← reg a.len "length"
  let tmp1 ← reg a.tmp1 "temporary"
  let tmp2 ← reg a.tmp2 "temporary"
  distinct "allocate array" [obj, klass, length, tmp1, tmp2]
  let routine : RuntimeEntry := if isOop a.element then .newObjectArray else .newTypeArray
  let entry ← newLabel
  let cont ← newLabel
  addSlowPath (.newArray routine klass length obj i.info entry cont)
  if (← read).opts.useTlab then allocArrayInline a.element obj klass length tmp1 tmp2 entry
  else j entry
  Asm.bind cont

end Lower

end RiscvJit
