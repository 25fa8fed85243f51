import RiscvJit.Proofs.Code.Composed
import RiscvJit.Stub.Adapter
import RiscvJit.Stub.NativeWrapper

/-
  RiscvJit.Proofs.Stub.Sequences — adapters and native wrappers are made of statements.

  So what is closed under statements holds of their parts (`Asm.Composed`). Only where barriers are, it has
  to hold of these too. The marks of entry points and the map at the native call stand between the parts.
-/

namespace RiscvJit

open Asm

variable {b : Bool}

/-! ## Adapters -/

namespace Stub

variable (args : List AdapterArg) (slots : Nat) (a : AdapterArg) (extra : Int64) (skipFixup : Label)

instance composed_loadArg : Composed b (loadArg a) := by
  unfold loadArg
  split <;> infer_instance

instance composed_i2c : Composed b (i2c args slots) := by
  unfold i2c
  dsimp only
  infer_instance

instance composed_c2iUnverified : Composed b (c2iUnverified skipFixup) := by
  unfold c2iUnverified
  infer_instance

instance composed_fixupCallSite : Composed b fixupCallSite := by
  unfold fixupCallSite
  infer_instance

instance composed_storeArg : Composed b (storeArg extra a) := by
  unfold storeArg
  split <;> infer_instance

instance composed_c2i : Composed b (c2i args slots skipFixup) := by
  unfold c2i
  dsimp only
  infer_instance

end Stub

/-! ## Native wrappers -/

namespace NativeWrapper.Plan

variable (p : Plan) (a : Argument) (slot : Int64)

instance composed_checkReceiver : Composed b checkReceiver := by
  unfold checkReceiver
  infer_instance

instance composed_storeHandle : Composed b (storeHandle a) := by
  unfold storeHandle
  cases a.handle <;> cases a.src <;> (dsimp only; infer_instance)

instance composed_storeHandles : Composed b p.storeHandles := by
  unfold storeHandles
  cases p.classHandle <;> infer_instance

instance composed_lockingBy (x y : Asm Unit) (cont : Label) (path : SlowPath) [Composed b x] [Composed b y] :
    Composed b (opts >>= fun o => do
      if o.useFastLocking then x else y
      Asm.bind cont
      return path) :=
  composed_opts (fun _ _ _ => rfl) fun _ => inferInstance

instance composed_lock : Composed true (p.lock slot) := by
  unfold lock
  dsimp only
  infer_instance

instance composed_unlock : Composed true (unlock slot) := by
  unfold unlock
  dsimp only
  infer_instance

instance composed_whenLocked (f : Int64 → Asm SlowPath) [∀ slot, Composed b (f slot)] : Composed b (p.whenLocked f) := by
  unfold whenLocked
  cases p.lockSlot <;> infer_instance

instance composed_moveArgument (m : Move) : Composed b (moveArgument m) := by
  unfold moveArgument
  cases m.src <;> cases m.dst <;> (dsimp only; infer_instance)

instance composed_passHandle : Composed b (passHandle a) := by
  unfold passHandle
  cases a.handle <;> cases a.dst <;> (dsimp only; infer_instance)

instance composed_passLeading : Composed b p.passLeading := by
  unfold passLeading
  cases p.classHandle <;> infer_instance

instance composed_normalizeResult (k : ValueKind) : Composed b (normalizeResult k) := by
  unfold normalizeResult
  cases k <;> (dsimp only; infer_instance)

instance composed_transitionBack : Composed true transitionBack := by
  unfold transitionBack
  infer_instance

instance composed_leaveWrapper : Composed b p.leaveWrapper := by
  unfold leaveWrapper
  infer_instance

instance composed_epilogue : Composed b p.epilogue := by
  unfold epilogue
  infer_instance

/-! ### Slow paths -/

instance composed_saveResult : Composed b p.saveResult := by
  unfold saveResult
  infer_instance

instance composed_restoreResult : Composed b p.restoreResult := by
  unfold restoreResult
  infer_instance

instance composed_passMonitor : Composed b passMonitor := by
  unfold passMonitor
  infer_instance

instance composed_slowPath (s : SlowPath) : Composed b (p.slowPath s) := by
  cases s <;> (dsimp only [slowPath]; infer_instance)

end NativeWrapper.Plan

end RiscvJit
