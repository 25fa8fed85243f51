import RiscvJit.Code.Buffer
import RiscvJit.Frame.OopMap
import RiscvJit.Isa.Listing
import RiscvJit.Target.Options
import RiscvJit.Target.RuntimeEntry

/-
  RiscvJit.Code.Assembler — single instructions, labels and barriers.

  The assembler writes one instruction after the other into a code buffer. Registers have to
  be of the file that the instruction expects, and immediates have to fit. References to
  labels are written with a zero distance and corrected when the label is bound; a distance
  that does not fit fails the buffer instead of leaving a wrong word behind.

  A reference to a label records the offset of the instruction that makes it and how that instruction
  holds the distance. Binding fixes the position, once, and hands back the references that
  were waiting for it.

  Two barriers with nothing between them become one: the second is merged into the first
  unless an instruction or a label stands in between.
-/

namespace RiscvJit

/-! ## Labels -/

/-- A reference that waits for its label: the referring instruction and its kind. -/
structure LabelUse where
  offset : Int64
  kind : UInt8
  deriving DecidableEq, Repr, Inhabited

/-- A label: its position once bound, and the references waiting for it. -/
structure LabelState where
  position? : Option Int64 := none
  uses : Array LabelUse := #[]
  deriving Repr, Inhabited

namespace LabelState

def isBound (l : LabelState) : Bool := l.position?.isSome

def position (l : LabelState) : Except Fault Int64 :=
  match l.position? with
  | some p => .ok p
  | none => .error (.defect "position of an unbound label")

def addUse (l : LabelState) (u : LabelUse) : LabelState := { l with uses := l.uses.push u }

/-- Fix the position; the waiting references are handed back and forgotten. -/
def bind (l : LabelState) (pos : Int64) : Except Fault (Array LabelUse × LabelState) :=
  if l.isBound then .error (.defect "label bound twice")
  else .ok (l.uses, { position? := some pos })

def hasPendingUses (l : LabelState) : Bool := !l.isBound && !l.uses.isEmpty

end LabelState

/-! ## Targets -/

/-- What code is generated for: the settings and the runtime's addresses. -/
structure Target where
  opts : Options
  runtime : RuntimeEntries

/-- A target whose settings make sense and whose runtime is known. -/
def Target.make (opts : Options) (runtime : Option RuntimeEntries) : Except Failure Target :=
  match opts.refusal? with
  | some reason => .error (.within "invalid options" (.refused reason))
  | none =>
    match runtime with
    | none => .error (.refused "runtime entries are required")
    | some runtime => .ok { opts, runtime }

/-- A label of the assembler, numbered from 1. -/
abbrev Label := Nat

def Label.absent : Label := 0

structure Assembler where
  buf : CodeBuffer
  labels : Array LabelState := #[]
  lastFence : Option Nat := none
  /-- The offset at which a label was last bound. -/
  lastBind : Option Nat := none
  comments : Array (Nat × String) := #[]
  entries : List (String × Nat) := []
  oopMaps : OopMapSet := {}
  deriving Inhabited

/-- Work that writes code. -/
abbrev Asm := ReaderT Target (StateT Assembler (Except Fault))

/-- A jump cannot reach its label. -/
def branchOutOfRange : String := "branch target out of range"

namespace Assembler

/-! ## Labels -/

def label (a : Assembler) (l : Label) : Except Fault LabelState :=
  if l = 0 then .error .trap
  else match a.labels[l - 1]? with
    | some s => .ok s
    | none => .error .trap

def setLabel (a : Assembler) (l : Label) (s : LabelState) : Assembler :=
  { a with labels := a.labels.setIfInBounds (l - 1) s }

def patchBranch (w : UInt32) (rel : Int64) : UInt32 := w &&& ~~~branchMask ||| branchBits (lowWord rel)

def patchJump (w : UInt32) (rel : Int64) : UInt32 := w &&& ~~~jumpMask ||| jumpBits (lowWord rel)

/-- The high part of a distance, rounded so that the low part is signed. -/
def highPart (rel : Int64) : Int64 := (rel + 0x800) >>> 12

def lowPart (rel : Int64) : Int64 := rel - (highPart rel) <<< 12

/-- The high part of a distance, added to the pc. -/
def patchHigh (w : UInt32) (rel : Int64) : UInt32 :=
  (w &&& (0xfff : UInt32)) ||| ((lowWord (highPart rel) &&& (0xfffff : UInt32)) <<< (12 : UInt32))

def patchLow (w : UInt32) (rel : Int64) : UInt32 :=
  (w &&& (0xfffff : UInt32)) ||| ((lowWord (lowPart rel) &&& (0xfff : UInt32)) <<< (20 : UInt32))

/-- Correct the instruction that makes a reference, now that its target is known. -/
def patchUse (b : CodeBuffer) (u : LabelUse) (target : Int64) : Except Fault CodeBuffer :=
  if b.failed then .ok b
  else do
    let rel := target - u.offset
    let w ← b.wordAt u.offset
    match u.kind.toNat with
    | 0 =>
      if fitsSigned 13 rel then b.patch u.offset (patchBranch w rel) else return b.fail branchOutOfRange
    | 1 =>
      if fitsSigned 21 rel then b.patch u.offset (patchJump w rel) else return b.fail branchOutOfRange
    | 2 =>
      let b ← b.patch u.offset (patchHigh w rel)
      let next ← b.wordAt (u.offset + 4)
      b.patch (u.offset + 4) (patchLow next rel)
    | k => throw (.defect ("unknown label use " ++ Text.ofNat k))

/-- Bind a label to the current offset and correct the references waiting for it. -/
def bind (a : Assembler) (l : Label) : Except Fault Assembler := do
  let pos := Int64.ofNat a.buf.offset
  let (uses, s) ← (← a.label l).bind pos
  let ⟨buf, labels, lastFence, _, comments, entries, oopMaps⟩ := a
  let lastBind := some buf.offset
  let buf ← uses.foldlM (fun b u => patchUse b u pos) buf
  return { buf, labels := labels.setIfInBounds (l - 1) s, lastFence, lastBind, comments, entries, oopMaps }

def refer (a : Assembler) (l : Label) (u : LabelUse) : Except Fault Assembler := do
  let s ← a.label l
  match s.position? with
  | some pos => return { a with buf := ← patchUse a.buf u pos }
  | none => return a.setLabel l (s.addUse u)

/-! ## Barriers -/

/-- The offset of the barrier that a new one at the current offset may be merged into. -/
def mergeable? (a : Assembler) : Option Nat :=
  match a.lastFence with
  | some f =>
    if f + 4 = a.buf.offset && a.lastBind ≠ some a.buf.offset && !a.buf.failed then some f else none
  | none => none

/-- The sets of the barrier at an offset, if there is one. -/
def fenceAt? (b : CodeBuffer) (off : Nat) : Except Fault (Option Int64) := do
  let w ← b.wordAt (Int64.ofNat off)
  match decode w with
  | some i => return if i.op = .fence then some i.imm else none
  | none => return none

def fenceWord (sets : Int64) : UInt32 := Op.fence.encode .none .none .none sets 0

/-- A barrier that orders accesses of the first set before those of the second. -/
def fence (a : Assembler) (pred succ : Int64) : Except Fault Assembler := do
  let sets := pred <<< 4 ||| succ
  let fresh : Assembler := { a with lastFence := some a.buf.offset, buf := a.buf.emit4 (fenceWord sets) }
  match a.mergeable? with
  | none => return fresh
  | some f =>
    match ← fenceAt? a.buf f with
    | none => return fresh
    | some old => return { a with buf := ← a.buf.patch (Int64.ofNat f) (fenceWord (old ||| sets)) }

def comment (a : Assembler) (text : String) : Assembler :=
  { a with comments := a.comments.push (a.buf.offset, text) }

/-- Record the current offset as an entry point. -/
def markEntry (a : Assembler) (name : String) : Assembler :=
  let entries := a.entries.filter (·.1 ≠ name) ++ [(name, a.buf.offset)]
  { a with entries }.comment name

end Assembler

namespace Asm

@[inline] def modifyBuf (f : CodeBuffer → CodeBuffer) : Asm Unit :=
  fun _ a => .ok ((), { a with buf := f a.buf })

@[inline] def change (f : Assembler → Except Fault Assembler) : Asm Unit :=
  fun _ a => match f a with
    | .ok a => .ok ((), a)
    | .error e => .error e

def offset : Asm Nat := return (← get).buf.offset

def failed : Asm Bool := return (← get).buf.failed

/-- The address of the current offset. -/
def pc : Asm UInt64 := return (← get).buf.pc

def comment (text : String) : Asm Unit := modify (·.comment text)

/-- Record the current offset as an entry point. -/
def markEntry (name : String) : Asm Unit := modify (·.markEntry name)

/-- Record a map of references at the current offset, unless the buffer has failed. -/
def addOopMap (m : OopMap) : Asm Unit := do
  unless ← failed do
    change fun a => return { a with oopMaps := ← a.oopMaps.add (Int64.ofNat a.buf.offset) m }

/-! ## Instructions -/

/-- The register is of the file that the instruction expects. -/
def checkClass (o : Op) (r : Reg) (c : RegClass) (what : String) : Except Fault Unit :=
  match c with
  | .none => .ok ()
  | .int => check r.isInt fun _ =>
      what ++ " of " ++ o.name ++ " must be an integer register, got " ++ r.name
  | .float => check r.isFloat fun _ =>
      what ++ " of " ++ o.name ++ " must be a float register, got " ++ r.name

/-- The registers are of the files that the instruction expects. -/
def checkClasses (o : Op) (rd rs1 rs2 : Reg) : Except Fault Unit := do
  checkClass o rd o.info.rd "rd"
  checkClass o rs1 o.info.rs1 "rs1"
  checkClass o rs2 o.info.rs2 "rs2"

def emit (o : Op) (rd rs1 rs2 : Reg) (imm : Int64) (aqrl : UInt32) : Asm Unit := do
  checkClasses o rd rs1 rs2
  modifyBuf (·.emit4 (o.encode rd rs1 rs2 imm aqrl))

def word64 (v : UInt64) : Asm Unit := modifyBuf (·.emit8 v)

abbrev rr (o : Op) (rd rs1 rs2 : Reg) : Asm Unit := emit o rd rs1 rs2 0 0

def checkImm12 (what : String) (v : Int64) : Except Fault Unit :=
  check (isImm12 v) fun _ => what ++ " " ++ Text.ofInt v.toInt ++ " out of range"

def ri (o : Op) (rd rs1 : Reg) (imm : Int64) : Asm Unit := do
  checkImm12 (o.name ++ " immediate") imm
  emit o rd rs1 .none imm 0

abbrev shiftI (o : Op) (rd rs1 : Reg) (n : Int64) : Asm Unit := emit o rd rs1 .none n 0

def load (o : Op) (rd base : Reg) (off : Int64) : Asm Unit := do
  checkImm12 (o.name ++ " offset") off
  emit o rd base .none off 0

def store (o : Op) (src base : Reg) (off : Int64) : Asm Unit := do
  checkImm12 (o.name ++ " offset") off
  emit o .none base src off 0

abbrev addi (rd rs1 : Reg) (imm : Int64) : Asm Unit := ri .addi rd rs1 imm
abbrev addiw (rd rs1 : Reg) (imm : Int64) : Asm Unit := ri .addiw rd rs1 imm
abbrev andi (rd rs1 : Reg) (imm : Int64) : Asm Unit := ri .andi rd rs1 imm
abbrev ori (rd rs1 : Reg) (imm : Int64) : Asm Unit := ri .ori rd rs1 imm
abbrev xori (rd rs1 : Reg) (imm : Int64) : Asm Unit := ri .xori rd rs1 imm
abbrev add (rd rs1 rs2 : Reg) : Asm Unit := rr .add rd rs1 rs2
abbrev sub (rd rs1 rs2 : Reg) : Asm Unit := rr .sub rd rs1 rs2
abbrev or (rd rs1 rs2 : Reg) : Asm Unit := rr .or rd rs1 rs2
abbrev and (rd rs1 rs2 : Reg) : Asm Unit := rr .and rd rs1 rs2
abbrev xor (rd rs1 rs2 : Reg) : Asm Unit := rr .xor rd rs1 rs2
abbrev slli (rd rs1 : Reg) (n : Int64) : Asm Unit := shiftI .slli rd rs1 n
abbrev srli (rd rs1 : Reg) (n : Int64) : Asm Unit := shiftI .srli rd rs1 n
abbrev srai (rd rs1 : Reg) (n : Int64) : Asm Unit := shiftI .srai rd rs1 n
abbrev ld (rd base : Reg) (off : Int64) : Asm Unit := load .ld rd base off
abbrev lw (rd base : Reg) (off : Int64) : Asm Unit := load .lw rd base off
abbrev lwu (rd base : Reg) (off : Int64) : Asm Unit := load .lwu rd base off
abbrev lbu (rd base : Reg) (off : Int64) : Asm Unit := load .lbu rd base off
abbrev sd (src base : Reg) (off : Int64) : Asm Unit := store .sd src base off
abbrev sw (src base : Reg) (off : Int64) : Asm Unit := store .sw src base off
abbrev sb (src base : Reg) (off : Int64) : Asm Unit := store .sb src base off

abbrev nop : Asm Unit := emit .addi .zr .zr .none 0 0

abbrev sextw (rd rs : Reg) : Asm Unit := emit .addiw rd rs .none 0 0

abbrev lui (rd : Reg) (imm20 : Int64) : Asm Unit := emit .lui rd .none .none imm20 0
abbrev auipc (rd : Reg) (imm20 : Int64) : Asm Unit := emit .auipc rd .none .none imm20 0

/-- Jump to a register plus an offset, linking. -/
def jalr (rd base : Reg) (off : Int64) : Asm Unit := do
  checkImm12 "jalr offset" off
  emit .jalr rd base .none off 0

/-- Jump to the address in a register. -/
abbrev jr (rs : Reg) : Asm Unit := jalr .zr rs 0

abbrev ret : Asm Unit := jalr .zr .ra 0

/-- Jump by a distance, linking; a distance out of reach fails the buffer. -/
def jalOffset (rd : Reg) (off : Int64) : Asm Unit :=
  if fitsSigned 21 off then emit .jal rd .none .none off 0 else modifyBuf (·.fail branchOutOfRange)

abbrev ecall : Asm Unit := emit .ecall .none .none .none 0 0
abbrev ebreak : Asm Unit := emit .ebreak .none .none .none 0 0
abbrev fencei : Asm Unit := emit .fenceI .none .none .none 0 0

def fence (pred succ : Int64) : Asm Unit := change (·.fence pred succ)

/-- An atomic operation on memory; the old value goes to `rd`. -/
abbrev amo (o : Op) (rd src addr : Reg) (aqrl : UInt32) : Asm Unit := emit o rd addr src 0 aqrl

/-- A load that makes a reservation. -/
abbrev lr (o : Op) (rd addr : Reg) (aqrl : UInt32) : Asm Unit := emit o rd addr .none 0 aqrl

/-- A conditional store; `rd` is zero when it happened. -/
abbrev sc (o : Op) (rd src addr : Reg) (aqrl : UInt32) : Asm Unit := emit o rd addr src 0 aqrl

abbrev farith (o : Op) (rd rs1 rs2 : Reg) : Asm Unit := emit o rd rs1 rs2 roundDynamic 0

/-- A float conversion with a rounding mode. -/
abbrev fcvt (o : Op) (rd rs : Reg) (rm : Int64) : Asm Unit := emit o rd rs .none rm 0

/-- A copy of raw bits between the register files. -/
abbrev fmv (o : Op) (rd rs : Reg) : Asm Unit := emit o rd rs .none 0 0

/-! ## Labels and jumps -/

def newLabel : Asm Label :=
  modifyGet fun a => (a.labels.size + 1, { a with labels := a.labels.push {} })

def bind (l : Label) : Asm Unit := change (·.bind l)

def refer (l : Label) (off : Int64) (kind : UInt8) : Asm Unit := change (·.refer l ⟨off, kind⟩)

def branch (o : Op) (rs1 rs2 : Reg) (l : Label) : Asm Unit := do
  let off ← offset
  emit o .none rs1 rs2 0 0
  refer l (Int64.ofNat off) 0

/-- The branch that is taken exactly when the other is not. -/
def negateBranch : Op → Except Fault Op
  | .beq => .ok .bne
  | .bne => .ok .beq
  | .blt => .ok .bge
  | .bge => .ok .blt
  | .bltu => .ok .bgeu
  | .bgeu => .ok .bltu
  | o => .error (.defect (o.name ++ " is not a branch"))

def jal (rd : Reg) (l : Label) : Asm Unit := do
  let off ← offset
  emit .jal rd .none .none 0 0
  refer l (Int64.ofNat off) 1

abbrev j (l : Label) : Asm Unit := jal .zr l

def isNear (l : Label) : Asm Bool := do
  let a ← get
  match (← a.label l).position? with
  | some p => return fitsSigned 13 (p - Int64.ofNat a.buf.offset)
  | none => return false

/-- A branch to a label within 1 MiB: the near form when the label is known to be close, else
the opposite branch over a jump. -/
def bcond (o : Op) (rs1 rs2 : Reg) (l : Label) : Asm Unit := do
  if ← isNear l then branch o rs1 rs2 l
  else
    emit (← negateBranch o) .none rs1 rs2 8 0
    j l

/-- Branch when a register is zero. -/
abbrev beqz (rs : Reg) (l : Label) : Asm Unit := bcond .beq rs .zr l

/-- Branch when a register is not zero. -/
abbrev bnez (rs : Reg) (l : Label) : Asm Unit := bcond .bne rs .zr l

def la (rd : Reg) (l : Label) : Asm Unit := do
  let off ← offset
  auipc rd 0
  emit .addi rd rd .none 0 0
  refer l (Int64.ofNat off) 2

/-- Pad until the offset is `n` modulo `align`, at most `fuel` times. -/
def padTo (align n : Int64) : Nat → Asm Unit
  | 0 => return
  | fuel + 1 => do
    let off ← offset
    if Int.tmod off align.toInt = n.toInt then return
    if ← failed then return
    nop
    padTo align n fuel

/-- Pad until the offset is `n` modulo `align`; what cannot be reached fails the buffer. -/
def alignTo (align n : Int64) : Asm Unit := do
  if align = 0 then throw .trap
  padTo align n ((← get).buf.remaining / 4 + 2)

/-! ## Stubs -/

/-- Open a stub; false when there is no room. -/
def startStub (name : String) (size : Int64) : Asm Bool := do
  let a ← get
  let (ok, buf) ← a.buf.startStub name size
  set { a with buf }
  return ok

def endStub : Asm Unit := change fun a => return { a with buf := ← a.buf.endStub }

end Asm

end RiscvJit
