import RiscvJit.Fault

/-
  RiscvJit.Target.Layout — where generated code finds things in memory.

  Generated code reads and writes structures that belong to the virtual machine: the current
  thread, object headers, type and method descriptors, profiles. Their layouts are tables of
  byte offsets, agreed on with the rest of the machine.
-/

namespace RiscvJit

/-! ## The thread -/

/-- Byte offsets in the current thread. -/
structure ThreadLayout where
  threadState : Int64
  pendingException : Int64
  exceptionOop : Int64
  exceptionPc : Int64
  calleeTarget : Int64
  /-- The environment that native code gets as its first argument. -/
  jniEnvironment : Int64
  activeHandles : Int64
  /-- The three words that anchor the last managed frame. -/
  lastJavaSp : Int64
  lastJavaFp : Int64
  lastJavaPc : Int64
  suspendFlags : Int64
  /-- Bit 0 asks for a safepoint. -/
  pollingWord : Int64
  stackGuardState : Int64
  /-- The free part of the thread's allocation buffer. -/
  tlabTop : Int64
  tlabEnd : Int64
  /-- References and metadata that runtime routines return. -/
  vmResult : Int64
  vmResult2 : Int64
  /-- The pc of the poll that sent the thread to the safepoint handler. -/
  savedExceptionPc : Int64
  pendingJniException : Int64

def threadLayout : ThreadLayout where
  threadState := 0x1a0
  pendingException := 0x08
  exceptionOop := 0x1b0
  exceptionPc := 0x1b8
  calleeTarget := 0x1c0
  jniEnvironment := 0x1c8
  activeHandles := 0x38
  lastJavaSp := 0x1d0
  lastJavaFp := 0x1d8
  lastJavaPc := 0x1e0
  suspendFlags := 0x1e8
  pollingWord := 0x1f0
  stackGuardState := 0x1f8
  tlabTop := 0x60
  tlabEnd := 0x68
  vmResult := 0x200
  pendingJniException := 0x208
  vmResult2 := 0x210
  savedExceptionPc := 0x218

/-- What a thread is doing, as stored in its state word. -/
def ThreadState.inNative : Int64 := 4
def ThreadState.inNativeTrans : Int64 := 5
def ThreadState.inJava : Int64 := 8

def stackGuardDisabled : Int64 := 2

/-- The bit of the polling word that asks for a stop. -/
def safepointPollBit : Int64 := 1

/-! ## Objects -/

/-- Byte offsets and sizes of object headers. -/
structure ObjectLayout where
  mark : Int64
  klass : Int64
  arrayLength : Int64
  arrayLengthNarrow : Int64
  instanceHeader : Int64
  instanceHeaderNarrow : Int64
  alignment : Int64

def objectLayout : ObjectLayout where
  mark := 0
  klass := 8
  arrayLength := 16
  arrayLengthNarrow := 12
  instanceHeader := 16
  instanceHeaderNarrow := 12
  alignment := 8

def ObjectLayout.arrayLengthFor (l : ObjectLayout) (compressedKlass : Bool) : Int64 :=
  if compressedKlass then l.arrayLengthNarrow else l.arrayLength

/-- Where the elements of an array start: after the length, at a multiple of 8. -/
def ObjectLayout.arrayBase (l : ObjectLayout) (compressedKlass : Bool) : Int64 :=
  (l.arrayLengthFor compressedKlass + 4 + 7) &&& ~~~7

def maxArrayAllocationLength : Int64 := 0x00ffffff

def markPrototype : Int64 := 0x1

/-- The bit of a mark that an unlocked object has set. -/
def markUnlockedValue : Int64 := 0x1

def markBiasedLockBit : Int64 := 0x4

/-! ## Type and method descriptors -/

/-- Byte offsets in a type descriptor. -/
structure KlassLayout where
  layoutHelper : Int64
  /-- Holds the offset of the slot that a fast subtype check compares. -/
  superCheckOffset : Int64
  secondarySuperCache : Int64
  secondarySupers : Int64
  primarySupers : Int64
  classObject : Int64
  initState : Int64
  /-- Of object array descriptors. -/
  elementKlass : Int64
  prototypeHeader : Int64

def klassLayout : KlassLayout where
  layoutHelper := 0x08
  superCheckOffset := 0x0c
  secondarySuperCache := 0x20
  secondarySupers := 0x28
  primarySupers := 0x30
  classObject := 0x70
  initState := 0x120
  elementKlass := 0xd8
  prototypeHeader := 0xa8

def secondarySupersLength : Int64 := 0
def secondarySupersData : Int64 := 8

/-- The state of a class whose static initialization has finished. -/
def klassFullyInitialized : Int64 := 4

/-- Byte offsets in a method descriptor. -/
structure MethodLayout where
  code : Int64
  fromCompiled : Int64
  interpreterEntry : Int64
  constMethod : Int64

def methodLayout : MethodLayout where
  code := 0x48
  fromCompiled := 0x38
  interpreterEntry := 0x40
  constMethod := 0x08

/-- Byte offsets in the holder that an inline cache refers to. -/
structure HolderLayout where
  metadata : Int64
  klass : Int64

def holderLayout : HolderLayout where
  metadata := 0
  klass := 8

def handleBlockTop : Int64 := 0x100

def lockDisplacedHeader : Int64 := 0

/-! ## Profiles -/

def profileFlags : Int64 := 1
def profileCount : Int64 := 8
def profileFirstRow : Int64 := 16
/-- The size of a receiver row: a type and a count. -/
def profileRowSize : Int64 := 16
def profileNullSeen : Int64 := 1
def profileIncrement : Int64 := 1

def typeNullSeen : Int64 := 1
def typeUnknown : Int64 := 2
/-- The bits of a cell that hold the type descriptor. -/
def typeKlassMask : Int64 := ~~~3

/-! ## The tables as text -/

def tableText (fields : List (String × Int64)) : String :=
  "\x7b" ++ Text.join " " (fields.map fun (k, v) => k ++ ":" ++ Text.ofInt v.toInt) ++ "\x7d"

def ThreadLayout.text (t : ThreadLayout) : String :=
  tableText [("ThreadState", t.threadState), ("PendingException", t.pendingException),
    ("ExceptionOop", t.exceptionOop), ("ExceptionPC", t.exceptionPc), ("CalleeTarget", t.calleeTarget),
    ("JNIEnvironment", t.jniEnvironment), ("ActiveHandles", t.activeHandles),
    ("LastJavaSP", t.lastJavaSp), ("LastJavaFP", t.lastJavaFp), ("LastJavaPC", t.lastJavaPc),
    ("SuspendFlags", t.suspendFlags), ("PollingWord", t.pollingWord),
    ("StackGuardState", t.stackGuardState), ("TLABTop", t.tlabTop), ("TLABEnd", t.tlabEnd),
    ("VMResult", t.vmResult), ("VMResult2", t.vmResult2), ("SavedExceptionPC", t.savedExceptionPc),
    ("PendingJNIException", t.pendingJniException)]

def ObjectLayout.text (l : ObjectLayout) : String :=
  tableText [("MarkOffset", l.mark), ("KlassOffset", l.klass), ("ArrayLengthOffset", l.arrayLength),
    ("ArrayLengthOffsetNarrow", l.arrayLengthNarrow), ("InstanceHeaderSize", l.instanceHeader),
    ("InstanceHeaderSizeNarrow", l.instanceHeaderNarrow), ("MinObjAlignment", l.alignment)]

def KlassLayout.text (l : KlassLayout) : String :=
  tableText [("LayoutHelper", l.layoutHelper), ("SuperCheckOffset", l.superCheckOffset),
    ("SecondarySuperCache", l.secondarySuperCache), ("SecondarySupers", l.secondarySupers),
    ("PrimarySupers", l.primarySupers), ("JavaMirror", l.classObject), ("InitState", l.initState),
    ("ElementKlass", l.elementKlass), ("PrototypeHeader", l.prototypeHeader)]

def MethodLayout.text (l : MethodLayout) : String :=
  tableText [("Code", l.code), ("FromCompiled", l.fromCompiled),
    ("InterpreterEntry", l.interpreterEntry), ("ConstMethod", l.constMethod)]

def HolderLayout.text (l : HolderLayout) : String :=
  tableText [("HolderMetadata", l.metadata), ("HolderKlass", l.klass)]

end RiscvJit
