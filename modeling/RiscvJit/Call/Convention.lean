import RiscvJit.Call.Descriptor
import RiscvJit.Value.Location

/-
  RiscvJit.Call.Convention — where arguments and results of calls live.

  Two conventions differ in their integer argument registers and in what happens to floats
  once the float registers are used up: the native convention continues with integer
  registers, the managed one goes to the stack. Stack arguments take two slots each, in
  order. The managed convention is the native one shifted by one integer register, so that
  native methods with few arguments need no shuffling when the environment pointer is
  inserted in front.
-/

namespace RiscvJit

/-- Between compiled methods, or of the platform. -/
inductive ConventionKind where
  | managed
  | native
  deriving DecidableEq, Repr

/-- Stack locations are seen by the caller, from its stack pointer, or by the callee, from its
frame pointer. -/
inductive Direction where
  | outgoing
  | incoming
  deriving DecidableEq, Repr

def ConventionKind.name : ConventionKind → String
  | .managed => "managed"
  | .native => "native"

def ConventionKind.nameOfCode (code : Nat) : Except Fault String :=
  match [managed, native][code]? with
  | some k => .ok k.name
  | none => .error (.defect "")

def Direction.name : Direction → String
  | .outgoing => "outgoing"
  | .incoming => "incoming"

def Direction.ofCode (code : Nat) : Direction := if code = 1 then .incoming else .outgoing

structure Convention where
  name : String
  kind : ConventionKind
  /-- Integer argument registers in the order of assignment. -/
  intArgs : List (Fin 32)
  floatArgs : List (Fin 32)
  intResult : Fin 32
  floatResult : Fin 32
  /-- Slots between the callee's frame pointer and the first incoming stack argument. -/
  incomingBias : Nat

namespace Convention

/-- Between compiled methods, adapters and the interpreter. -/
def managed : Convention where
  name := "java"
  kind := .managed
  intArgs := [11, 12, 13, 14, 15, 16, 17, 10]
  floatArgs := [10, 11, 12, 13, 14, 15, 16, 17]
  intResult := 10
  floatResult := 10
  incomingBias := 4

def native : Convention where
  name := "native"
  kind := .native
  intArgs := [10, 11, 12, 13, 14, 15, 16, 17]
  floatArgs := [10, 11, 12, 13, 14, 15, 16, 17]
  intResult := 10
  floatResult := 10
  incomingBias := 4

/-! ## Assigning locations -/

/-- What is left to assign: registers of both files and the next stack slot. -/
structure Supply where
  ints : List (Fin 32)
  floats : List (Fin 32)
  slot : Nat

def supply (c : Convention) : Supply := ⟨c.intArgs, c.floatArgs, 0⟩

def Supply.onStack (s : Supply) : Location × Supply :=
  (.stack s.slot, { s with slot := s.slot + slotsPerWord })

/-- The next integer register, or the stack. -/
def Supply.takeInt (s : Supply) : Location × Supply :=
  match s.ints with
  | r :: rest => (.int r, { s with ints := rest })
  | [] => s.onStack

/-- The next float register; after the last one the convention decides. -/
def Supply.takeFloat (s : Supply) (kind : ConventionKind) : Location × Supply :=
  match s.floats with
  | r :: rest => (.float r, { s with floats := rest })
  | [] => if kind = .native then s.takeInt else s.onStack

def assign (c : Convention) (s : Supply) (k : ValueKind) : Location × Supply :=
  if k.isFloat then s.takeFloat c.kind else s.takeInt

/-- The rules an expanded kind list has to keep at position `i`, between its neighbours. -/
def admits (c : Convention) (i : Nat) (prev : Option ValueKind) (k : ValueKind)
    (next : Option ValueKind) : Except Fault Unit :=
  match k with
  | .void =>
    if (prev.map ValueKind.isDoubleWord).getD false then .ok ()
    else .error (.defect ("void at " ++ Text.ofNat i ++ " does not follow a long or double"))
  | .unknown _ => .error (.defect ("cannot pass " ++ k.name))
  | _ =>
    if k.isDoubleWord && next ≠ some .void then
      .error (.defect (k.name ++ " at " ++ Text.ofNat i ++ " is not followed by void"))
    else if k = .metadata && c.kind = .managed then
      .error (.defect "metadata argument in the managed convention")
    else .ok ()

/-- Locations of the kinds from position `i` on, and the stack slots used in the end. -/
def assignFrom (c : Convention) (i : Nat) (prev : Option ValueKind) (s : Supply) :
    List ValueKind → Except Fault (List Location × Nat)
  | [] => .ok ([], s.slot)
  | k :: rest =>
    match c.admits i prev k rest.head? with
    | .error e => .error e
    | .ok () =>
      let (l, s') := if k = .void then (.nowhere, s) else c.assign s k
      (c.assignFrom (i + 1) (some k) s' rest).map fun (ls, n) => (l :: ls, n)

/-- Locations of an expanded kind list and the number of stack slots they take. Both sides of
a call number the slots alike; `stackByteOffset` tells them apart. -/
def locate (c : Convention) (kinds : List ValueKind) : Except Fault (List Location × Nat) :=
  c.assignFrom 0 none c.supply kinds

/-- Byte offset of a stack argument: from the caller's stack pointer or the callee's frame
pointer. -/
def stackByteOffset (c : Convention) (slot : Nat) : Direction → Int64
  | .outgoing => Location.slotBytes slot
  | .incoming => Location.slotBytes (slot + c.incomingBias)

def resultLocation (c : Convention) (k : ValueKind) : Location :=
  if k = .void then .nowhere
  else if k.isFloat then .float c.floatResult
  else .int c.intResult

end Convention

end RiscvJit
