import RiscvJit.Lower.Move

/-
  RiscvJit.Lower.Atomic — atomic updates of memory and locks.

  Compare-and-swap is a loop around a reserved load; addition and exchange are single
  instructions with the strength of a full barrier. Compressed references are compared and
  exchanged in their narrow form. A lock is taken and released inline where that setting is
  on; the runtime does the rest.
-/

namespace RiscvJit

open Reg (t0 t1)
open Asm

namespace Lower

/-! ## Updates -/

def temporary (i : Instruction) (n : Nat) : Except Fault Operand := payload i.tmp[n]?

/-- Compare and swap of a compressed reference. The reserved load extends the sign of what it
loads, so the compared value does too. -/
def casNarrow (i : Instruction) (addr expected new res : Reg) : Lower Unit := do
  check (2 ≤ i.tmp.length) fun _ => "compressed reference cas needs two temporaries"
  let tc ← reg (← temporary i 0) "temporary"
  let tn ← reg (← temporary i 1) "temporary"
  distinct "cas" [addr, tc, tn]
  encodeHeapOop tc expected tc
  encodeHeapOop tn new tn
  sextw tc tc
  sextw tn tn
  cmpxchg addr tc tn res false

/-- Compare the word at an address with the second input and store the third on a match. -/
def cas (i : Instruction) : Lower Unit := do
  let addr ← reg (← input i 0) "address"
  let expected ← reg (← input i 1) "expected value"
  let new ← reg (← input i 2) "new value"
  let res ← reg i.result "cas result"
  let k := (← input i 1).kind
  if k.isIntLike then cmpxchg addr expected new res false
  else if ← compressedOop k then casNarrow i addr expected new res
  else cmpxchg addr expected new res true

def fetchAdd (k : ValueKind) (res val addr : Reg) : Lower Unit := do
  check (!k.isReference) fun _ => "cannot add to a reference"
  amo (if k.isIntLike then .amoaddW else .amoaddD) res val addr acquireRelease

def exchange (k : ValueKind) (res val addr : Reg) : Lower Unit := do
  if ← compressedOop k then
    encodeHeapOop t1 val t0
    amo .amoswapW res t1 addr acquireRelease
    slli res res 32
    srli res res 32
    decodeHeapOop res t0
  else amo (if k.isIntLike then .amoswapW else .amoswapD) res val addr acquireRelease

/-- Add to memory or swap with it; the result is the old value. -/
def atomicUpdate (i : Instruction) : Lower Unit := do
  let addr ← reg (← input i 0) "address"
  let res ← reg i.result "old value"
  let operand ← input i 1
  let k := operand.kind
  let val ← srcReg operand t1
  if i.op = .xadd then fetchAdd k res val addr else exchange k res val addr

/-! ## Locks -/

def lockOperands (l : LockInfo) (what : String) : Except Fault LockRegs := do
  let obj ← reg l.obj "locked object"
  let lock ← reg l.lock "lock slot address"
  let hdr ← reg l.hdr "header temporary"
  let scratch ← reg l.scratch "scratch temporary"
  distinct what [obj, lock, hdr, scratch]
  return { obj, lock, hdr, scratch }

def lock (i : Instruction) : Lower Unit := do
  let r ← lockOperands (← payload i.lock) "lock"
  let entry ← newLabel
  let cont ← newLabel
  addSlowPath (.monitorEnter r.obj r.lock i.info entry cont)
  if (← read).opts.useFastLocking then fastLock r entry else j entry
  Asm.bind cont

def unlock (i : Instruction) : Lower Unit := do
  let r ← lockOperands (← payload i.lock) "unlock"
  let entry ← newLabel
  let cont ← newLabel
  addSlowPath (.monitorExit r.lock entry cont)
  if (← read).opts.useFastLocking then fastUnlock r entry else j entry
  Asm.bind cont

end Lower

end RiscvJit
