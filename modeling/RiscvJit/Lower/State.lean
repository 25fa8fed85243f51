import RiscvJit.Code.Blob
import RiscvJit.Code.Frame

/-
  RiscvJit.Lower.State — what lowering one method keeps track of.

  Besides the assembler, lowering a method needs the labels of the program, the slow paths
  that are written after the main code, and the sites where execution may stop. A site has
  debug information and a map of references; no two sites share a code offset.

  Operands are checked as they are used: an instruction that names a reserved register, or
  an operand of the wrong sort, breaks a precondition.
-/

namespace RiscvJit

/-- A code offset where the frame may be inspected. -/
structure DebugSite where
  offset : Int64
  info : SiteInfo
  oopMap : OopMap
  deriving Repr

/-- Code outside the main path, written after it. Each starts at its `entry`; those that return
to the main path do so at `cont`. -/
inductive SlowPath where
  | divByZero (info : SiteInfo) (entry : Label)
  /-- Call a routine that throws, with an object when there is one. -/
  | exception (routine : RuntimeEntry) (obj : Reg) (info : Option SiteInfo) (entry : Label)
  | rangeCheck (index : Operand) (info : Option SiteInfo) (entry : Label)
  | monitorEnter (obj lock : Reg) (info : Option SiteInfo) (entry cont : Label)
  | monitorExit (lock : Reg) (entry cont : Label)
  /-- Allocate an object in the runtime. -/
  | newInstance (klass result : Reg) (info : Option SiteInfo) (entry cont : Label)
  | newArray (routine : RuntimeEntry) (klass length result : Reg) (info : Option SiteInfo)
      (entry cont : Label)
  | safepointPoll (poll entry : Label)
  | trampoline (target : UInt64) (entry : Label)

structure Lowering where
  asm : Assembler
  prog : Program
  /-- Assembler labels of the program's labels, as far as they were used. -/
  labels : List (LabelId × Label) := []
  slowPaths : Array SlowPath := #[]
  sites : Array DebugSite := #[]
  lastSite : Option Int64 := none
  /-- The label of the unwind handler, once a jump to it was written. -/
  unwind : Option Label := none
  deriving Inhabited

abbrev Lower := ReaderT Target (StateT Lowering (Except Fault))

/-- Writing code is part of lowering. -/
@[always_inline]
instance (priority := low) : MonadLift Asm Lower where
  monadLift x := fun t s =>
    let ⟨asm, prog, labels, slowPaths, sites, lastSite, unwind⟩ := s
    match x t asm with
    | .ok (a, asm) => .ok (a, ⟨asm, prog, labels, slowPaths, sites, lastSite, unwind⟩)
    | .error e => .error e

namespace Lower

/-! ## Labels -/

def label (id : LabelId) : Lower Label := do
  let s ← get
  check (0 < id && id ≤ s.prog.labels) fun _ => "unknown label L" ++ Text.ofInt id.toInt
  match s.labels.lookup id with
  | some l => return l
  | none =>
    let l ← Asm.newLabel
    modify fun s => { s with labels := (id, l) :: s.labels }
    return l

def unwindLabel : Lower Label := do
  match (← get).unwind with
  | some l => return l
  | none =>
    let l ← Asm.newLabel
    modify fun s => { s with unwind := some l }
    return l

/-! ## Slow paths and sites -/

def addSlowPath (p : SlowPath) : Lower Unit :=
  modify fun s => { s with slowPaths := s.slowPaths.push p }

def offset : Lower Int64 := return Int64.ofNat (← get).asm.buf.offset

/-- Keep the next site apart from the last one. -/
def ensureUniquePc : Lower Unit := do
  if (← get).lastSite = some (← offset) then Asm.nop

def frameSlots (p : Program) : Int64 := p.frameSize / stackSlotSize

/-- Record a site at an offset, with further operands that hold references. A site without
debug information, or after the buffer failed, is not recorded. -/
def addSiteAt (off : Int64) (info : Option SiteInfo) (extra : List Operand) : Lower Unit := do
  match info with
  | none => return
  | some info =>
    if ← Asm.failed then return
    let s ← get
    let oopMap ← OopMap.ofLive (info.live ++ extra) (frameSlots s.prog)
    Asm.change fun a => return { a with oopMaps := ← a.oopMaps.add off oopMap }
    let site : DebugSite := { offset := off, info, oopMap := oopMap.placed off }
    modify fun s => { s with sites := s.sites.push site, lastSite := some off }

def addSite (info : Option SiteInfo) : Lower Unit := do addSiteAt (← offset) info []

/-! ## Operands -/

def input (i : Instruction) (n : Nat) : Except Fault Operand :=
  match i.inputs[n]? with
  | some o => .ok o
  | none => .error .trap

def payload {α : Type} : Option α → Except Fault α
  | some a => .ok a
  | none => .error .trap

def reg (o : Operand) (what : String) : Except Fault Reg := do
  check o.isIntRegister fun _ => what ++ " must be an integer register, got " ++ o.text
  o.reg

def freg (o : Operand) (what : String) : Except Fault Reg := do
  check o.isFloatRegister fun _ => what ++ " must be a float register, got " ++ o.text
  o.reg

/-- The register is none of the others. -/
def apart (what : String) (r : Reg) : List Reg → Except Fault Unit
  | [] => .ok ()
  | r' :: rest => do
    check (r ≠ r') fun _ => what ++ ": registers " ++ r.abiName ++ " and " ++ r'.abiName ++ " alias"
    apart what r rest

/-- No two registers are the same. -/
def distinct (what : String) : List Reg → Except Fault Unit
  | [] => .ok ()
  | r :: rest => do
    apart what r rest
    distinct what rest

/-- The operand names no register that is reserved. -/
def checkOperand (op : Opcode) (what : String) (o : Operand) : Except Fault Unit :=
  let refuse (part : String) (r : Reg) (_ : Unit) : String :=
    what ++ " of " ++ op.name ++ " uses reserved " ++ part ++ " " ++ r.abiName
  let checkReg (r : Reg) := check (r = .zr || !r.isReserved) (refuse "register" r)
  match o with
  | .register _ lo _ => checkReg lo
  | .floatRegister _ r => checkReg r
  | .memory _ a => do
    check (a.base = .sp || a.base = .thread || !a.base.isReserved) (refuse "base" a.base)
    if a.hasIndex then check (!a.index.isReserved) (refuse "index" a.index)
  | _ => .ok ()

/-- No operand of the instruction names a reserved register, and the result is not thrown away. -/
def checkOperands (i : Instruction) : Except Fault Unit := do
  i.inputs.forM (checkOperand i.op "input")
  i.tmp.forM (checkOperand i.op "temporary")
  if i.result.isRegister then
    let r ← i.result.reg
    check (r ≠ .zr) fun _ => "result of " ++ i.op.name ++ " written to zr"
  checkOperand i.op "result" i.result

end Lower

end RiscvJit
