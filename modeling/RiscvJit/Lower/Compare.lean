import RiscvJit.Lower.Move

/-
  RiscvJit.Lower.Compare — jumps and values that depend on a comparison.

  An integer condition is one branch instruction, with its operands swapped where needed. A
  float condition first computes a predicate into t0. Compares with a NaN are false, so when
  the unordered case counts as true the opposite predicate is computed and its failure taken.
-/

namespace RiscvJit

open Reg (t0 t1)
open Asm

namespace Lower

/-! ## Integer conditions -/

/-- The branch of an integer condition, and whether its operands are swapped. -/
def branchOp? : Condition → Option (Op × Bool)
  | .eq => some (.beq, false)
  | .ne => some (.bne, false)
  | .lt => some (.blt, false)
  | .ge => some (.bge, false)
  | .le => some (.bge, true)
  | .gt => some (.blt, true)
  | .be => some (.bgeu, true)
  | .ae => some (.bgeu, false)
  | _ => none

/-- Jump when two integers compare as the condition says. -/
def intCondBranch (cond : Condition) (left right : Operand) (target : Label) : Lower Unit := do
  let a ← srcReg left t0
  let b ← srcReg right t1
  match branchOp? cond with
  | some (o, swapped) => if swapped then bcond o b a target else bcond o a b target
  | none => throw (.precondition ("cannot branch on " ++ cond.name))

/-! ## Float conditions -/

structure FloatCompares where
  eq : Op
  lt : Op
  le : Op

def floatCompares (k : ValueKind) : FloatCompares :=
  if k = .float then ⟨.feqS, .fltS, .fleS⟩ else ⟨.feqD, .fltD, .fleD⟩

/-- A predicate on two floats that is false for NaN: one compare, or "less or greater". -/
inductive FloatPredicate where
  | compare (o : Op) (swapped : Bool)
  | apart
  deriving DecidableEq, Repr

def predicate? (c : FloatCompares) : Condition → Option FloatPredicate
  | .lt => some (.compare c.lt false)
  | .le => some (.compare c.le false)
  | .gt => some (.compare c.lt true)
  | .ge => some (.compare c.le true)
  | .eq => some (.compare c.eq false)
  | .ne => some .apart
  | _ => none

/-- The condition that holds of ordered operands exactly when the given one does not. -/
def ordinaryNegation : Condition → Condition
  | .eq => .ne
  | .ne => .eq
  | .lt => .ge
  | .le => .gt
  | .gt => .le
  | .ge => .lt
  | c => c

def computePredicate (c : FloatCompares) (p : FloatPredicate) (a b : Reg) : Asm Unit := do
  match p with
  | .compare o false => rr o t0 a b
  | .compare o true => rr o t0 b a
  | .apart =>
    rr c.lt t0 a b
    rr c.lt t1 b a
    Asm.or t0 t0 t1

/-- Jump when two floats compare as the condition says; a NaN jumps iff unordered counts as
true. -/
def floatCondBranch (cond : Condition) (left right : Operand) (unorderedIsTrue : Bool)
    (target : Label) : Lower Unit := do
  let a ← freg left "left operand"
  let b ← freg right "right operand"
  let c := floatCompares left.kind
  match predicate? c (if unorderedIsTrue then ordinaryNegation cond else cond) with
  | none => throw (.precondition ("cannot compare floats with " ++ cond.name))
  | some p =>
    computePredicate c p a b
    if unorderedIsTrue then beqz t0 target else bnez t0 target

/-! ## Instructions -/

def condBranch (cond : Condition) (left right : Operand) (unorderedIsTrue : Bool)
    (target : Label) : Lower Unit :=
  if left.kind.isFloat then floatCondBranch cond left right unorderedIsTrue target
  else intCondBranch cond left right target

def cmpBranch (i : Instruction) : Lower Unit := do
  let target ← label i.target
  if i.cond = .always then j target
  else
    let left ← input i 0
    let right ← input i 1
    condBranch i.cond left right i.unorderedIsTrue target

def cmove (i : Instruction) : Lower Unit := do
  let isTrue ← newLabel
  let done ← newLabel
  let left ← input i 0
  let right ← input i 1
  condBranch i.cond left right i.unorderedIsTrue isTrue
  move (← input i 3) i.result
  j done
  Asm.bind isTrue
  move (← input i 2) i.result
  Asm.bind done

/-- The sign of the difference of two integers. -/
def cmp3Int (rd : Reg) (left right : Operand) : Lower Unit := do
  let a ← reg left "left operand"
  let b ← srcReg right t1
  rr .slt t0 a b
  rr .slt t1 b a
  sub rd t1 t0

/-- The sign of the difference of two floats; -1 or 1 when they are unordered. -/
def cmp3Float (rd : Reg) (left right : Operand) (unorderedIsLess : Bool) : Lower Unit := do
  let a ← freg left "left operand"
  let b ← freg right "right operand"
  let c := floatCompares left.kind
  if unorderedIsLess then
    rr c.lt rd b a
    rr c.le t0 b a
    addi t0 t0 (-1)
    add rd rd t0
  else
    rr c.lt t0 a b
    rr c.le rd a b
    xori rd rd 1
    sub rd rd t0

def cmp3 (i : Instruction) : Lower Unit := do
  let left ← input i 0
  let right ← input i 1
  let rd ← reg i.result "compare result"
  if left.kind.isFloat then cmp3Float rd left right i.unorderedIsTrue else cmp3Int rd left right

end Lower

end RiscvJit
