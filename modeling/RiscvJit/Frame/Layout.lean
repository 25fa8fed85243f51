import RiscvJit.Text.Quoted
import RiscvJit.Value.Location

/-
  RiscvJit.Frame.Layout — the geometry of frames.

  A frame is laid out from the stack pointer upwards as a sequence of named regions. Each
  region is aligned as asked, with padding below it where needed. The last region ends
  exactly at the frame size, which is a multiple of the stack alignment. Empty regions are
  recorded too.
-/

namespace RiscvJit

/-- A named range of bytes, from the stack pointer once the frame is built. -/
structure FrameRegion where
  name : String
  offset : Int64
  size : Int64
  deriving DecidableEq, Repr, Inhabited

/-- The regions of a frame in order, and its size. -/
structure FrameLayout where
  regions : List FrameRegion
  size : Int64
  deriving DecidableEq, Repr, Inhabited

namespace FrameLayout

def region? (l : FrameLayout) (name : String) : Option FrameRegion :=
  l.regions.find? (·.name == name)

def region (l : FrameLayout) (name : String) : Except Fault FrameRegion :=
  match l.region? name with
  | some r => .ok r
  | none => .error (.defect ("frame has no region " ++ Text.quote name))

def slots (l : FrameLayout) : Int64 := l.size / stackSlotSize

def regionText (r : FrameRegion) : String :=
  let column (n : Int64) : String := Text.padLeft ' ' 4 (Text.ofInt n.toInt)
  "  [" ++ column r.offset ++ ", " ++ column (r.offset + r.size) ++ ") " ++ r.name ++ "\n"

/-- How a layout is written, one region a line. -/
def text (l : FrameLayout) : String :=
  "frame size=" ++ Text.ofInt l.size.toInt ++ "\n" ++ String.join (l.regions.map regionText)

end FrameLayout

/-- A frame under construction: its regions so far, last one first, and where they end. -/
structure FrameBuilder where
  rev : List FrameRegion := []
  top : Int64 := 0
  deriving DecidableEq, Repr

namespace FrameBuilder

def put (b : FrameBuilder) (name : String) (size : Int64) : FrameBuilder :=
  ⟨⟨name, b.top, size⟩ :: b.rev, b.top + size⟩

/-- Fill up to an offset above the top. -/
def padTo (b : FrameBuilder) (offset : Int64) : FrameBuilder :=
  if 0 < offset - b.top then b.put "padding" (offset - b.top) else b

/-- Add a region of `size` bytes aligned to `align`; its offset comes with the new frame. -/
def reserve (b : FrameBuilder) (name : String) (size align : Int64) :
    Except Fault (Int64 × FrameBuilder) :=
  if align ≤ 0 || align &&& (align - 1) ≠ 0 then
    .error (.defect ("invalid alignment " ++ Text.ofInt align.toInt))
  else
    let b := b.padTo (alignUp b.top align)
    .ok (b.top, b.put name size)

/-- Place the last region so that it ends exactly at the aligned frame size. -/
def finish (b : FrameBuilder) (name : String) (size : Int64) : FrameLayout :=
  let total := alignUp (b.top + size) stackAlignment
  let b := b.padTo (total - size)
  ⟨(⟨name, total - size, size⟩ :: b.rev).reverse, total⟩

/-- Finish the frame; the next one starts from nothing. -/
def complete (b : FrameBuilder) (name : String) (size : Int64) : FrameLayout × FrameBuilder :=
  (b.finish name size, {})

end FrameBuilder

/-! ## Names of regions -/

def FrameRegion.outgoingArgs : String := "outgoing args"
def FrameRegion.oopHandles : String := "oop handles"
def FrameRegion.klassHandle : String := "klass handle"
def FrameRegion.lock : String := "lock"
def FrameRegion.resultTemp : String := "result temp"
def FrameRegion.savedRegisters : String := "saved registers"
def FrameRegion.linkage : String := "fp/ra"

end RiscvJit
