import RiscvJit.Code.Blob
import RiscvJit.Code.Sequence

/-
  RiscvJit.Stub.SubtypeScan — the shared scan of secondary supers.

  The caller pushes the subtype at sp+8 and the supertype at sp+0. The scan writes 1 over the
  supertype when it is among the secondary supers of the subtype, and notes it in the cache
  of the subtype; otherwise it writes 0. It keeps every register but t0 and t1.
-/

namespace RiscvJit

open Reg (zr sp t0 t1)

namespace Stub

open Asm

def subtypeScanBody : Asm Unit := do
  let sub : Reg := .x 28
  let super : Reg := .x 29
  let cur : Reg := .x 30
  let loop ← newLabel
  let hit ← newLabel
  let miss ← newLabel
  let done ← newLabel
  addi sp sp (-32)
  sd sub sp 0
  sd super sp 8
  sd cur sp 16
  ld sub sp 40
  ld super sp 32
  ld cur sub klassLayout.secondarySupers
  lwu t1 cur secondarySupersLength
  addi cur cur secondarySupersData
  bind loop
  branch .beq t1 zr miss
  ld t0 cur 0
  branch .beq t0 super hit
  addi cur cur 8
  addi t1 t1 (-1)
  j loop
  bind hit
  sd super sub klassLayout.secondarySuperCache
  li t0 1
  sd t0 sp 32
  j done
  bind miss
  sd zr sp 32
  bind done
  ld sub sp 0
  ld super sp 8
  ld cur sp 16
  addi sp sp 32
  ret

/-- The scan that type checks of compiled methods call. -/
def subtypeScan (t : Target) (base : UInt64) : Except Stop CodeBlob :=
  (Asm.generate t "slow_subtype_check" base t.opts.stubBufferSize 0 subtypeScanBody).map (·.1)

end Stub

end RiscvJit
