import RiscvJit.Value.Operand

/-
  RiscvJit.Frame.OopMap — which locations hold references while a frame is stopped.

  The collector visits the locations recorded for the code offset at which a frame is
  stopped. A map holds one entry per location, the last one recorded for it, and keeps its
  entries in the order of locations, so that the order of recording does not show. Stack
  locations count from the stack pointer of the frame and have to lie in it, save slots of
  the caller's registers apart.

  Once a map is added to a set it is frozen. A set holds at most one map per code offset:
  two stops at one pc could not be told apart.
-/

namespace RiscvJit

/-- What a recorded location holds. -/
inductive OopKind where
  | oop
  | narrowOop
  /-- The saved value of a register of the caller. -/
  | calleeSaved (saved : Reg)
  deriving DecidableEq, Repr

namespace OopKind

def name : OopKind → String
  | oop => "oop"
  | narrowOop => "narrowoop"
  | calleeSaved _ => "callee_saved"

def nameOfCode (code : Nat) : Except Fault String :=
  match [oop, narrowOop, calleeSaved .none][code]? with
  | some k => .ok k.name
  | none => .error (.defect "")

/-- The location holds a reference of either width. -/
def isReference : OopKind → Bool
  | calleeSaved _ => false
  | _ => true

end OopKind

/-- One recorded location. -/
structure OopEntry where
  loc : Location
  kind : OopKind
  deriving DecidableEq, Repr

def OopEntry.text (e : OopEntry) : String :=
  let saved := match e.kind with
    | .calleeSaved r => "(" ++ r.name ++ ")"
    | _ => ""
  " " ++ e.loc.name ++ "=" ++ e.kind.name ++ saved

structure OopMap where
  /-- The code offset, once the map belongs to a set. -/
  offset : Int64 := 0
  /-- The size of the frame in stack slots; zero when it is not known. -/
  frameSlots : Int64
  entries : List OopEntry := []
  frozen : Bool := false
  deriving DecidableEq, Repr

namespace OopMap

/-- Put an entry in its place, instead of the one its location had. -/
def insert (e : OopEntry) : List OopEntry → List OopEntry
  | [] => [e]
  | d :: rest =>
    if e.loc = d.loc then e :: rest
    else if e.loc.before d.loc then e :: d :: rest
    else d :: insert e rest

/-- The location may be recorded so in a frame of that many slots. -/
def admits (frameSlots : Int64) (e : OopEntry) : Bool :=
  match e.loc, e.kind with
  | _, .calleeSaved _ => true
  | .stack slot, _ => (slot : Int) < frameSlots.toInt || frameSlots = 0
  | _, _ => true

def record (m : OopMap) (e : OopEntry) : Except Fault OopMap :=
  if m.frozen then .error (.defect "modifying an OopMap after it was added to a set")
  else if admits m.frameSlots e then .ok { m with entries := insert e m.entries }
  else .error (.precondition ("oop map slot " ++ Text.ofNat e.loc.index ++ " outside of frame of " ++
    Text.ofInt m.frameSlots.toInt ++ " slots"))

def setOop (m : OopMap) (l : Location) : Except Fault OopMap := m.record ⟨l, .oop⟩

def setNarrowOop (m : OopMap) (l : Location) : Except Fault OopMap := m.record ⟨l, .narrowOop⟩

/-- Record that a location holds the saved value of a register. -/
def setCalleeSaved (m : OopMap) (l : Location) (r : Reg) : Except Fault OopMap :=
  m.record ⟨l, .calleeSaved r⟩

def oops (m : OopMap) : List Location :=
  (m.entries.filter (·.kind.isReference)).map (·.loc)

def text (m : OopMap) : String :=
  "OopMap\x7boff=" ++ Text.ofInt m.offset.toInt ++ String.join (m.entries.map OopEntry.text) ++ "\x7d"

/-- Record a live operand when it is a register or stack slot holding a reference. -/
def recordLive (m : OopMap) (o : Operand) : Except Fault OopMap :=
  if !(o.isRegister || o.isStack) then .ok m
  else match o.kind with
    | .object | .array => o.location.bind m.setOop
    | .narrowOop => o.location.bind m.setNarrowOop
    | _ => .ok m

def ofLive (live : List Operand) (frameSlots : Int64) : Except Fault OopMap :=
  live.foldlM recordLive { frameSlots }

/-- The map as a member of a set, at a code offset. -/
def placed (m : OopMap) (offset : Int64) : OopMap := { m with offset, frozen := true }

end OopMap

/-- The maps of one piece of generated code, in the order they were added. -/
structure OopMapSet where
  maps : Array OopMap := #[]
  deriving Repr

namespace OopMapSet

def find? (s : OopMapSet) (offset : Int64) : Option OopMap := s.maps.find? (·.offset == offset)

def add (s : OopMapSet) (offset : Int64) (m : OopMap) : Except Fault OopMapSet :=
  if (s.find? offset).isSome then
    .error (.precondition ("two oop maps at offset " ++ Text.ofInt offset.toInt))
  else .ok ⟨s.maps.push (m.placed offset)⟩

end OopMapSet

/-! ## Maps by name

A notebook holds maps under construction by name and one set. The set refers to the maps it
holds, so a map that is added a second time moves to its new offset. -/

/-- Named maps and a set of some of them. -/
structure OopNotebook where
  maps : Array OopMap := #[]
  names : List (String × Nat) := []
  recorded : Array Nat := #[]
  deriving Repr

namespace OopNotebook

def define (b : OopNotebook) (name : String) (m : OopMap) : OopNotebook :=
  { b with maps := b.maps.push m, names := (name, b.maps.size) :: b.names }

def find (b : OopNotebook) (name : String) : Except Fault (Nat × OopMap) :=
  match b.names.lookup name with
  | none => .error .trap
  | some i =>
    match b.maps[i]? with
    | none => .error .trap
    | some m => .ok (i, m)

def change (b : OopNotebook) (name : String) (f : OopMap → Except Fault OopMap) :
    Except Fault OopNotebook := do
  let (i, m) ← b.find name
  let m ← f m
  return { b with maps := b.maps.set! i m }

/-- The maps in the set, in the order they were added. -/
def set (b : OopNotebook) : List OopMap := b.recorded.toList.filterMap (b.maps[·]?)

def find? (b : OopNotebook) (offset : Int64) : Option OopMap := b.set.find? (·.offset == offset)

def add (b : OopNotebook) (name : String) (offset : Int64) : Except Fault OopNotebook := do
  if (b.find? offset).isSome then
    throw (.precondition ("two oop maps at offset " ++ Text.ofInt offset.toInt))
  let (i, m) ← b.find name
  return { b with maps := b.maps.set! i (m.placed offset), recorded := b.recorded.push i }

end OopNotebook

end RiscvJit
