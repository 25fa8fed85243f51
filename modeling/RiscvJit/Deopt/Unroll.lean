import RiscvJit.Deopt.Scope

/-
  RiscvJit.Deopt.Unroll — the interpreter frames that replace a compiled frame.

  A compiled frame stands for a chain of inlined scopes. Replacing it takes one interpreter
  frame per scope. The plan says which values are captured from the compiled frame before it
  is popped, how large each new frame is, and which words are stored into it. The plan also
  has a memory image: a header, the frame sizes and return addresses outermost first, and
  room for the captured values.
-/

namespace RiscvJit

open Text

/-! ## Why a frame is replaced -/

/-- Why a frame is replaced; the codes are shared with the runtime. -/
inductive UnpackKind where
  | deopt
  | exception
  | uncommonTrap
  | reexecute
  | unknown (code : Int32)
  deriving DecidableEq, Repr

namespace UnpackKind

def ofCode (code : Int32) : UnpackKind :=
  if code = 0 then deopt
  else if code = 1 then exception
  else if code = 2 then uncommonTrap
  else if code = 3 then reexecute
  else unknown code

def code : UnpackKind → Int32
  | deopt => 0
  | exception => 1
  | uncommonTrap => 2
  | reexecute => 3
  | unknown code => code

def name : UnpackKind → String
  | deopt => "deopt"
  | exception => "exception"
  | uncommonTrap => "uncommon_trap"
  | reexecute => "reexecute"
  | unknown code => "unpack(" ++ ofInt code.toInt ++ ")"

end UnpackKind

/-! ## Plans -/

/-- What a store writes. -/
inductive SlotSource where
  | value (index : Nat)
  | const (bits : Int64)
  | framePointer (offset : Int64)
  deriving DecidableEq, Repr

/-- A word stored at an offset from the frame pointer. -/
structure SlotStore where
  offset : Int64
  source : SlotSource
  deriving DecidableEq, Repr

def SlotStore.text (s : SlotStore) : String :=
  ofInt s.offset.toInt ++ match s.source with
    | .value i => "=value " ++ ofNat i
    | .const bits => "=const " ++ ofInt bits.toInt
    | .framePointer offset => "=fp" ++ ofSigned offset.toInt

/-- How one interpreter frame is filled. -/
structure FramePlan where
  method : MethodInfo
  bci : Int64
  /-- The size in bytes, with the saved frame pointer and return address. -/
  size : Int64
  stores : List SlotStore
  deriving DecidableEq, Repr

/-- Everything needed to replace a compiled frame. -/
structure UnrollBlock where
  kind : UnpackKind
  deoptimizedFrameSize : Int64
  /-- How much the caller's frame grows for the locals of the outermost scope. -/
  callerAdjustment : Int64
  /-- Sizes in the order the frames are pushed, outermost first. -/
  frameSizes : List Int64
  /-- The return address pushed with each frame, then where the innermost one goes on. -/
  framePcs : List UInt64
  /-- What is captured before the compiled frame is popped. -/
  values : List ScopeValue
  frames : List FramePlan
  /-- The address of the code that captures the values. -/
  captureRoutine : UInt64 := 0
  /-- The address of the code that fills the frames. -/
  fillRoutine : UInt64 := 0
  deriving DecidableEq, Repr

/-- A frame to be replaced. -/
structure DeoptRequest where
  scopes : List Scope
  kind : UnpackKind
  compiledFrameSize : Int64
  callerIsCompiled : Bool
  /-- The return address into the caller of the outermost scope. -/
  callerPc : UInt64
  /-- Where an interpreter frame goes on after its callee returns. -/
  interpreterReturnPc : UInt64
  /-- Where the innermost frame goes on. -/
  continuationPc : UInt64
  deriving DecidableEq, Repr

/-! ## Checking scopes -/

/-- Where a double word is not followed by a void: its position and kind. -/
def unpaired? : Nat → List ScopeValue → Option (Nat × ValueKind)
  | _, [] => none
  | i, v :: rest =>
    if v.kind.isDoubleWord && (rest.head?.map (·.kind)) ≠ some .void then some (i, v.kind)
    else unpaired? (i + 1) rest

def checkPairs (m : MethodInfo) (values : List ScopeValue) : Except Failure Unit :=
  match unpaired? 0 values with
  | none => .ok ()
  | some (i, k) =>
    .error (.refused (m.name ++ ": " ++ k.name ++ " at " ++ ofNat i ++ " is not followed by void"))

/-- Refuse more values than there are slots. -/
def checkCount (m : MethodInfo) (n : Nat) (limit : Int64) (what limitName : String) :
    Except Failure Unit :=
  if limit.toInt < n then
    .error (.refused (m.name ++ ": " ++ ofNat n ++ " " ++ what ++ " exceed " ++ limitName ++ " " ++
      ofInt limit.toInt))
  else .ok ()

def Scope.checked (s : Scope) : Except Failure MethodInfo := do
  match s.method with
  | none => throw (.refused ("scope at bci " ++ ofInt s.bci.toInt ++ " has no method"))
  | some m =>
    checkCount m s.locals.length m.maxLocals "locals" "max locals"
    checkCount m s.expressions.length m.maxStack "expressions" "max stack"
    if m.maxLocals < m.parameterSlots then throw (.refused (m.name ++ ": parameters exceed locals"))
    checkPairs m s.locals
    checkPairs m s.expressions
    return m

/-! ## Planning frames -/

/-- Stores of the values of a list, each at its own offset, with the values they capture. The
first value captured has the number `next`. -/
def captureStores (offsetOf : Nat → Int64) : Nat → Nat → List ScopeValue → List (SlotStore × ScopeValue)
  | _, _, [] => []
  | next, i, v :: rest =>
    if v.kind = .void then captureStores offsetOf next (i + 1) rest
    else
      -- A double word is stored in the slot of its second half.
      let idx := if v.kind.isDoubleWord then i + 1 else i
      (⟨offsetOf idx, .value next⟩, v) :: captureStores offsetOf (next + 1) (i + 1) rest

/-- Stores of the monitors from number `k` on: the lock slot, then the owner. -/
def monitorStores (shape : InterpreterShape) : Nat → Nat → List MonitorValue → List (SlotStore × ScopeValue)
  | _, _, [] => []
  | next, k, m :: rest =>
    let off := shape.monitorOffset (Int64.ofNat k)
    (⟨off, .value next⟩, { kind := .address, loc := m.lock }) ::
      (⟨off + 8, .value (next + 1)⟩, m.owner) :: monitorStores shape (next + 2) (k + 1) rest

def fixedStores (shape : InterpreterShape) (m : MethodInfo) (bci monitorTop localsPointer : Int64) :
    List SlotStore :=
  [⟨shape.method * 8, .const m.address.toInt64⟩,
   ⟨shape.classObject * 8, .const m.classObject.toInt64⟩,
   ⟨shape.profile * 8, .const 0⟩,
   ⟨shape.cache * 8, .const 0⟩,
   ⟨shape.locals * 8, .framePointer localsPointer⟩,
   ⟨shape.bytecode * 8, .const (m.codeBase.toInt64 + bci)⟩,
   ⟨shape.initialSp * 8, .framePointer monitorTop⟩]

/-- The plan of one frame and the values it captures, numbered from `next`. -/
def planFrame (shape : InterpreterShape) (next : Nat) (s : Scope) (m : MethodInfo)
    (callee : Option MethodInfo) : FramePlan × List ScopeValue :=
  let monitors := Int64.ofNat s.monitors.length
  let monitorTop := shape.monitorTop monitors
  let localsPointer := shape.localsPointer m.maxLocals
  let locals := captureStores (fun i => localsPointer - Int64.ofNat i * 8) next 0 s.locals
  let next := next + locals.length
  let exprs := captureStores (fun j => monitorTop - (Int64.ofNat j + 1) * 8) next 0 s.expressions
  let mons := monitorStores shape (next + exprs.length) 0 s.monitors
  let captured := locals ++ exprs ++ mons
  (⟨m, s.bci, shape.frameWords m monitors callee * 8,
      fixedStores shape m s.bci monitorTop localsPointer ++ captured.map (·.1)⟩,
    captured.map (·.2))

/-- The plans of a chain of scopes, innermost first, and the values they capture. -/
def planFrames (shape : InterpreterShape) : Nat → Option MethodInfo → List (Scope × MethodInfo) →
    List FramePlan × List ScopeValue
  | _, _, [] => ([], [])
  | next, callee, (s, m) :: rest =>
    let (plan, values) := planFrame shape next s m callee
    let (plans, more) := planFrames shape (next + values.length) (some m) rest
    (plan :: plans, values ++ more)

/-- How much the caller of the outermost scope grows. A compiled caller has pushed none of the
arguments as locals. -/
def callerAdjustment (outer : MethodInfo) (callerIsCompiled : Bool) : Int64 :=
  InterpreterShape.lastFrameAdjust (if callerIsCompiled then 0 else outer.parameterSlots) outer.maxLocals

/-- The frames that replace a compiled frame. -/
def DeoptRequest.unroll (req : DeoptRequest) (shape : InterpreterShape) : Except Failure UnrollBlock := do
  if req.scopes.isEmpty then throw (.refused "deoptimization without scope")
  if req.compiledFrameSize % stackAlignment ≠ 0 then
    throw (.refused ("compiled frame size " ++ ofInt req.compiledFrameSize.toInt ++ " is not aligned"))
  let scopes ← req.scopes.mapM fun s => return (s, ← s.checked)
  let (frames, values) := planFrames shape 0 none scopes
  return {
    kind := req.kind
    deoptimizedFrameSize := req.compiledFrameSize
    callerAdjustment := (scopes.getLast?.map fun (_, m) => callerAdjustment m req.callerIsCompiled).getD 0
    frameSizes := (frames.map (·.size)).reverse
    framePcs := req.callerPc :: List.replicate (frames.length - 1) req.interpreterReturnPc ++ [req.continuationPc]
    values
    frames }

/-! ## The memory image -/

/-- Byte offsets in the image of a plan. -/
structure UnrollLayout where
  deoptimizedFrameSize : Int64
  callerAdjustment : Int64
  numberOfFrames : Int64
  totalFrameSizes : Int64
  frameSizes : Int64
  framePcs : Int64
  unpackKind : Int64
  values : Int64
  captureRoutine : Int64
  fillRoutine : Int64
  headerSize : Int64

def unrollLayout : UnrollLayout where
  deoptimizedFrameSize := 0
  callerAdjustment := 4
  numberOfFrames := 8
  totalFrameSizes := 12
  frameSizes := 16
  framePcs := 24
  unpackKind := 32
  values := 40
  captureRoutine := 48
  fillRoutine := 56
  headerSize := 64

def UnrollLayout.text (l : UnrollLayout) : String :=
  tableText [("SizeOfDeoptimizedFrame", l.deoptimizedFrameSize), ("CallerAdjustment", l.callerAdjustment),
    ("NumberOfFrames", l.numberOfFrames), ("TotalFrameSizes", l.totalFrameSizes),
    ("FrameSizes", l.frameSizes), ("FramePCs", l.framePcs), ("UnpackKind", l.unpackKind),
    ("Values", l.values), ("CaptureRoutine", l.captureRoutine), ("FillRoutine", l.fillRoutine),
    ("HeaderSize", l.headerSize)]

def littleEndian (width : Nat) (v : UInt64) : List UInt8 :=
  (List.range width).map fun i => (v >>> UInt64.ofNat (8 * i)).toUInt8

namespace UnrollBlock

def frameCount (u : UnrollBlock) : Nat := u.frameSizes.length

def totalFrameSizes (u : UnrollBlock) : Int64 := u.frameSizes.foldl (· + ·) 0

def sizesOffset : Nat := 64

/-- Where the return addresses start in the image. -/
def pcsOffset (u : UnrollBlock) : Nat := sizesOffset + 8 * u.frameCount

/-- Where the captured values start in the image. -/
def valuesOffset (u : UnrollBlock) : Nat := u.pcsOffset + 8 * (u.frameCount + 1)

/-- The image of a plan placed at `base`; the room for values is zero. -/
def encode (u : UnrollBlock) (base : UInt64) : List UInt8 :=
  let word (v : Int64) := littleEndian 4 v.toUInt64
  let long := littleEndian 8
  let addr (off : Nat) := long (base + UInt64.ofNat off)
  word u.deoptimizedFrameSize ++ word u.callerAdjustment ++ word (Int64.ofNat u.frameCount) ++
    word u.totalFrameSizes ++ addr sizesOffset ++ addr u.pcsOffset ++
    word u.kind.code.toInt64 ++ word 0 ++ addr u.valuesOffset ++ long u.captureRoutine ++ long u.fillRoutine ++
    u.frameSizes.flatMap (fun s => long s.toUInt64) ++ u.framePcs.flatMap long ++
    List.replicate (8 * u.values.length) 0

def frameText (i : Nat) (f : FramePlan) : String :=
  "  #" ++ ofNat i ++ " " ++ f.method.name ++ "@" ++ ofInt f.bci.toInt ++ " size=" ++
    ofInt f.size.toInt ++ " stores=" ++ ofNat f.stores.length ++ "\n"

def text (u : UnrollBlock) : String :=
  "UnrollBlock\x7bkind=" ++ u.kind.name ++ " deopt_frame=" ++ ofInt u.deoptimizedFrameSize.toInt ++
    " caller_adjust=" ++ ofInt u.callerAdjustment.toInt ++ " frames=" ++ ofNat u.frameCount ++ "\x7d\n" ++
    String.join (u.frames.mapIdx frameText)

end UnrollBlock

end RiscvJit
