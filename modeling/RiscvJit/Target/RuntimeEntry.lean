import RiscvJit.Fault

/-
  RiscvJit.Target.RuntimeEntry — routines outside the generated code that it calls.

  The routines live elsewhere; the code generator only knows their addresses. A routine whose
  address was never set must not be called, since a call of address zero can only be a
  mistake in the configuration.
-/

namespace RiscvJit

inductive RuntimeEntry where
  | invalid
  /-- Dispatches the exception in x10 thrown at the pc in x13. -/
  | handleException
  /-- The same for methods that do not touch float registers. -/
  | handleExceptionNoFpu
  | unwindException
  | forwardException
  | icMiss
  /-- Walks the secondary supers of a type. -/
  | slowSubtypeCheck
  | monitorEnter
  | monitorExit
  | newInstance
  | newTypeArray
  | newObjectArray
  | throwRangeCheck
  | throwDivZero
  | throwNullPointer
  | throwClassCast
  | throwArrayStore
  /-- Patches a caller that still calls through the interpreter. -/
  | fixupCallersCallsite
  | completeMonitorLocking
  | completeMonitorUnlocking
  /-- Blocks a thread that returns from native code during a safepoint. -/
  | checkSpecialConditionForNativeTrans
  | reguardYellowPages
  | fetchUnrollInfo
  | unpackFrames
  | handlePollingPageException
  | resolveStaticCall
  | resolveVirtualCall
  /-- The shared code that unverified entries jump to on a receiver mismatch. -/
  | icMissStub
  | deoptBlobUnpack
  | safepointHandler
  deriving DecidableEq, Repr, Inhabited

namespace RuntimeEntry

/-- Every entry in the order of its code; the first one is no routine. -/
def all : List RuntimeEntry :=
  [invalid, handleException, handleExceptionNoFpu, unwindException, forwardException, icMiss,
   slowSubtypeCheck, monitorEnter, monitorExit, newInstance, newTypeArray, newObjectArray,
   throwRangeCheck, throwDivZero, throwNullPointer, throwClassCast, throwArrayStore,
   fixupCallersCallsite, completeMonitorLocking, completeMonitorUnlocking,
   checkSpecialConditionForNativeTrans, reguardYellowPages, fetchUnrollInfo, unpackFrames,
   handlePollingPageException, resolveStaticCall, resolveVirtualCall, icMissStub,
   deoptBlobUnpack, safepointHandler]

def name : RuntimeEntry → String
  | invalid => "invalid"
  | handleException => "handle_exception"
  | handleExceptionNoFpu => "handle_exception_nofpu"
  | unwindException => "unwind_exception"
  | forwardException => "forward_exception"
  | icMiss => "ic_miss"
  | slowSubtypeCheck => "slow_subtype_check"
  | monitorEnter => "monitorenter"
  | monitorExit => "monitorexit"
  | newInstance => "new_instance"
  | newTypeArray => "new_type_array"
  | newObjectArray => "new_object_array"
  | throwRangeCheck => "throw_range_check"
  | throwDivZero => "throw_div0"
  | throwNullPointer => "throw_null_pointer"
  | throwClassCast => "throw_class_cast"
  | throwArrayStore => "throw_array_store"
  | fixupCallersCallsite => "fixup_callers_callsite"
  | completeMonitorLocking => "complete_monitor_locking_C"
  | completeMonitorUnlocking => "complete_monitor_unlocking_C"
  | checkSpecialConditionForNativeTrans => "check_special_condition_for_native_trans"
  | reguardYellowPages => "reguard_yellow_pages"
  | fetchUnrollInfo => "fetch_unroll_info"
  | unpackFrames => "unpack_frames"
  | handlePollingPageException => "handle_polling_page_exception"
  | resolveStaticCall => "resolve_static_call"
  | resolveVirtualCall => "resolve_virtual_call"
  | icMissStub => "ic_miss_stub"
  | deoptBlobUnpack => "deopt_blob_unpack"
  | safepointHandler => "safepoint_handler"

def code (e : RuntimeEntry) : Nat := all.idxOf e

def nameOfCode (code : UInt8) : String :=
  match all[code.toNat]? with
  | some e => e.name
  | none => "entry(" ++ Text.ofNat code.toNat ++ ")"

def routines : List RuntimeEntry := all.drop 1

def ofName? (s : String) : Option RuntimeEntry := routines.find? (·.name == s)

end RuntimeEntry

/-- The addresses of the routines; zero for one that is not set. -/
structure RuntimeEntries where
  addr : RuntimeEntry → UInt64

namespace RuntimeEntries

def empty : RuntimeEntries := ⟨fun _ => 0⟩

def set (r : RuntimeEntries) (e : RuntimeEntry) (a : UInt64) : RuntimeEntries :=
  ⟨fun e' => if e' = e then a else r.addr e'⟩

def address (r : RuntimeEntries) (e : RuntimeEntry) : Except Fault UInt64 :=
  if r.addr e = 0 then .error (.defect ("runtime entry " ++ e.name ++ " has no address"))
  else .ok (r.addr e)

def lookup? (r : RuntimeEntries) (a : UInt64) : Option RuntimeEntry :=
  RuntimeEntry.all.find? fun e => r.addr e == a && a != 0

/-- Distinct addresses, 16 bytes apart, for tools that never run the routines. -/
def synthetic (base : UInt64) : RuntimeEntries :=
  ⟨fun e => if e = .invalid then 0 else base + UInt64.ofNat e.code * 16⟩

end RuntimeEntries

end RiscvJit
