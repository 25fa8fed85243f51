import RiscvJit.Fault

/-
  RiscvJit.Arena — items addressed by a dense index.

  An arena hands out items one after the other and keeps its memory, in chunks, when it is
  reset. Graphs link their nodes by index. Seen from outside an arena is the list of its
  items: a new item is the default one, also in memory that was used before a reset.
-/

namespace RiscvJit

def Arena.chunkSize : Nat := 64

/-- Chunks of memory, of which the first `count` items are in use. -/
structure Arena (α : Type) where
  chunks : Array (Array α) := #[]
  count : Nat := 0

namespace Arena

variable {α : Type} [Inhabited α]

def blank : Array α := Array.replicate chunkSize default

/-- Take the next item; its index is the old count. -/
def grow (a : Arena α) : Arena α :=
  { chunks := if a.count / chunkSize = a.chunks.size then a.chunks.push blank else a.chunks
    count := a.count + 1 }

/-- The item at an index in use. -/
def get? (a : Arena α) (i : Nat) : Option α :=
  if i < a.count then (a.chunks[i / chunkSize]?).bind (·[i % chunkSize]?) else none

/-- The item at an index known to be in use. -/
def get (a : Arena α) (i : Nat) : α := (a.get? i).getD default

/-- Replace the item at an index in use; other indexes change nothing. -/
def modify (a : Arena α) (i : Nat) (f : α → α) : Arena α :=
  if i < a.count then
    { a with chunks := a.chunks.modify (i / chunkSize) fun c => c.modify (i % chunkSize) f }
  else a

def index (a : Arena α) (i : Int64) : Except Fault Nat :=
  if i < 0 || a.count ≤ i.toNatClampNeg then
    .error (.defect ("arena index " ++ Text.ofInt i.toInt ++ " out of range [0, " ++
      Text.ofNat a.count ++ ")"))
  else .ok i.toNatClampNeg

/-- Drop every item and keep the memory: the chunks that were in use become blank. -/
def reset (a : Arena α) : Arena α :=
  { chunks := a.chunks.mapIdx fun c chunk => if c * chunkSize < a.count then blank else chunk
    count := 0 }

/-- The items in use, in order. -/
def toList (a : Arena α) : List α := (List.range a.count).map a.get

end Arena

end RiscvJit
