import RiscvJit.Arena
import RiscvJit.Value.Kind
import RiscvJit.Value.Location

/-
  RiscvJit.Call.Moves — parallel moves as a sequence.

  A set of moves with distinct destinations is to be performed at once. As a sequence, a move
  has to come before the move that overwrites its source, so the moves form chains and
  cycles. A chain is written from its head. A cycle is broken at one move, whose value goes
  to a scratch location first and from there to its destination at the end.

  Moves that copy a location to itself are dropped. The solver refuses moves that touch the
  scratch location, two moves with one destination, and two moves that read a location which
  a move overwrites.
-/

namespace RiscvJit

/-- A copy of one value between two locations. -/
structure Move where
  src : Location
  dst : Location
  kind : ValueKind
  deriving DecidableEq, Repr, Inhabited

def Move.text (m : Move) : String := m.kind.name ++ " " ++ m.src.name ++ " -> " ++ m.dst.name

/-- Why moves cannot be ordered. -/
inductive MoveError where
  | usesScratch (m : Move) (scratch : Location)
  | sameTarget (dst : Location)
  | sharedSource (src : Location)
  deriving DecidableEq, Repr

/-- A refusal is a broken precondition. -/
def MoveError.fault : MoveError → Fault
  | .usesScratch m scratch =>
    .precondition ("move " ++ m.text ++ " uses the scratch location " ++ scratch.name)
  | .sameTarget dst => .precondition ("two moves write " ++ dst.name)
  | .sharedSource src => .precondition (src.name ++ " is read by more than one move")

/-- A move in the graph: `next` overwrites its source, `prev` reads its destination. -/
structure MoveNode where
  move : Move
  next : Option Nat
  prev : Option Nat
  done : Bool
  deriving Repr, Inhabited

/-- A solver and the memory it reuses from one set of moves to the next. -/
structure MoveSolver where
  nodes : Arena MoveNode := {}
  /-- For every destination, the move that overwrites it. -/
  killers : List (Location × Nat) := []
  out : Array Move := #[]

namespace MoveSolver

/-- Solving changes the memory also when it fails midway. -/
abbrev Solve := ExceptT MoveError (StateM MoveSolver)

/-- Forget everything of the previous set. -/
def clear (s : MoveSolver) : MoveSolver :=
  { nodes := s.nodes.reset, killers := [], out := #[] }

def append (n : MoveNode) (s : MoveSolver) : Nat × MoveSolver :=
  let i := s.nodes.count
  (i, { s with nodes := s.nodes.grow.modify i fun _ => n })

def update (i : Nat) (f : MoveNode → MoveNode) (s : MoveSolver) : MoveSolver :=
  { s with nodes := s.nodes.modify i f }

def enter (scratch : Location) (m : Move) : Solve Unit := do
  if m.src = m.dst then return
  if m.src.aliases scratch || m.dst.aliases scratch then throw (.usesScratch m scratch)
  if ((← get).killers.lookup m.dst).isSome then throw (.sameTarget m.dst)
  let i ← modifyGet (append ⟨m, none, none, false⟩)
  modify fun s => { s with killers := (m.dst, i) :: s.killers }

/-- Link move `i` with the move that overwrites its source. -/
def link (i : Nat) : Solve Unit := do
  let s ← get
  let n := s.nodes.get i
  match s.killers.lookup n.move.src with
  | none => return
  | some k =>
    if k = i then return
    if n.next.isSome || (s.nodes.get k).prev.isSome then throw (.sharedSource n.move.src)
    modify (update i fun n => { n with next := some k })
    modify (update k fun n => { n with prev := some i })

/-- Walk back from `start` to the head of its chain, or around the cycle up to before `i`. -/
def walkBack (nodes : Arena MoveNode) (i : Nat) : Nat → Nat → Nat
  | 0, start => start
  | fuel + 1, start =>
    match (nodes.get start).prev with
    | none => start
    | some p => if p = i then start else walkBack nodes i fuel p

/-- Send the move at `i` to the scratch location and end its cycle with the move from there. -/
def breakCycle (i : Nat) (scratch : Location) (s : MoveSolver) : MoveSolver :=
  let n := s.nodes.get i
  match n.prev with
  | none => s
  | some p =>
    let (tail, s) := s.append ⟨⟨scratch, n.move.dst, n.move.kind⟩, none, some p, false⟩
    let s := s.update i fun n => { n with prev := none }
    let s := s.update p fun n => { n with next := some tail }
    s.update i fun n => { n with move := { n.move with dst := scratch } }

def writeChain : Nat → Nat → MoveSolver → MoveSolver
  | 0, _, s => s
  | fuel + 1, cur, s =>
    let n := s.nodes.get cur
    let s := s.update cur fun n => { n with done := true }
    let s := { s with out := s.out.push n.move }
    match n.next with
    | none => s
    | some next => writeChain fuel next s

/-- Write the chain or cycle that move `i` belongs to, unless that was done. -/
def writeComponent (scratch : Location) (i : Nat) (s : MoveSolver) : MoveSolver :=
  if (s.nodes.get i).done then s
  else
    let start := walkBack s.nodes i s.nodes.count i
    let s := if (s.nodes.get start).prev = some i then s.breakCycle start scratch else s
    writeChain s.nodes.count start s

/-- Write every chain and cycle of a graph of that many moves. -/
def writeAll (scratch : Location) (total : Nat) (s : MoveSolver) : MoveSolver :=
  (List.range total).foldl (fun s i => s.writeComponent scratch i) s

/-- Build the graph of a set of moves and give the number of its moves. -/
def graph (moves : List Move) (scratch : Location) : Solve Nat := do
  modify clear
  moves.forM (enter scratch)
  let total := (← get).nodes.count
  (List.range total).forM link
  return total

/-- Order a set of moves, reusing the memory of the solver. -/
def solve (moves : List Move) (scratch : Location) : Solve (List Move) := do
  let total ← graph moves scratch
  modify (writeAll scratch total)
  return (← get).out.toList

/-- Order a set of moves with a solver of its own. -/
def order (moves : List Move) (scratch : Location) : Except MoveError (List Move) :=
  ((solve moves scratch).run {}).1

end MoveSolver

end RiscvJit
