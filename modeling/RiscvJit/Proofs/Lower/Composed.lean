import RiscvJit.Proofs.Code.Composed

/-
  RiscvJit.Proofs.Lower.Composed — lowering that is made of statements.

  Lowering is taken apart as code is: a property that holds of single steps of lowering, and of one step
  after the other (`Lower.Closed`), holds of the lowering of an instruction, of the slow paths and of
  the unwind handler (`Lower.Composed`). Recording a site is a step together with the call it stands
  behind, since some properties hold of the two only.

  Throws, polls and direct calls look at where they are written and at the site before. They are no
  such work, and are treated with each property.
-/

namespace RiscvJit

open Reg (zr ra t1)

namespace Lower

/-- The property holds of every step of lowering, and of one piece of work after the other. -/
structure Closed (barriers : Bool) (P : {α : Type} → Lower α → Prop) : Prop where
  pure {α : Type} (r : α) : P (pure r : Lower α)
  lift {α : Type} (e : Except Fault α) [Tells e] : P (liftM e : Lower α)
  asm {α : Type} (x : Asm α) [Asm.Composed barriers x] : P (liftM x : Lower α)
  bind {α β : Type} {x : Lower α} {f : α → Lower β} : P x → (∀ r, P (f r)) → P (x >>= f)
  /-- Of the target, work may not read the sizes of buffers. -/
  read {α : Type} {f : Target → Lower α} : (∀ t main stubs, f (t.resized main stubs) = f t) → (∀ t, P (f t)) →
  P (read >>= f)
  /-- Of the state, work may read the program. -/
  get {α : Type} {f : Lowering → Lower α} : (∀ s u : Lowering, s.prog = u.prog → f s = f u) → (∀ s, P (f s)) →
  P (get >>= f)
  label (id : LabelId) : P (label id)
  unwindLabel : P unwindLabel
  addSlowPath (p : SlowPath) : P (addSlowPath p)
  called (e : RuntimeEntry) (tmp : Fin 32) (info : Option SiteInfo) :
    P ((liftM (Asm.entryAddress e >>= fun target => Asm.farCall target ra (.x tmp)) : Lower Unit) >>=
    fun _ => addSite info)

/-- The work has every closed property. -/
class Composed {α : Type} (b : Bool) (x : Lower α) : Prop where
  has : ∀ {P : {α : Type} → Lower α → Prop}, Closed b P → P x

section
variable {α β : Type} {b : Bool}

instance composed_pure (r : α) : Composed b (pure r : Lower α) := ⟨fun h => h.pure r⟩

instance composed_lift (e : Except Fault α) [Tells e] : Composed b (liftM e : Lower α) := ⟨fun h => h.lift e⟩

instance composed_asm (x : Asm α) [Asm.Composed b x] : Composed b (liftM x : Lower α) := ⟨fun h => h.asm x⟩

instance composed_bind (x : Lower α) (f : α → Lower β) [hx : Composed b x] [hf : ∀ r, Composed b (f r)] :
    Composed b (x >>= f) := ⟨fun h => h.bind (hx.has h) fun r => (hf r).has h⟩

instance composed_seq (x : Lower α) (y : Lower β) [Composed b x] [Composed b y] :
    Composed b (x >>= fun _ => y) := composed_bind x _

instance composed_ite (c : Prop) [Decidable c] (x y : Lower α) [hx : Composed b x] [hy : Composed b y] :
    Composed b (if c then x else y) := by
  split
  · exact hx
  · exact hy

instance composed_throw (what : String) [Unlike what] : Composed b (throw (.precondition what) : Lower α) :=
  composed_lift (.error (.precondition what))

theorem composed_read {f : Target → Lower α} (hsame : ∀ t main stubs, f (t.resized main stubs) = f t)
    (hf : ∀ t, Composed b (f t)) : Composed b (read >>= f) := ⟨fun h => h.read hsame fun t => (hf t).has h⟩

theorem composed_get {f : Lowering → Lower α} (hsame : ∀ s u : Lowering, s.prog = u.prog → f s = f u)
    (hf : ∀ s, Composed b (f s)) : Composed b (get >>= f) := ⟨fun h => h.get hsame fun s => (hf s).has h⟩

end

section
variable {b : Bool}

instance composed_label (id : LabelId) : Composed b (label id) := ⟨fun h => h.label id⟩

instance composed_unwindLabel : Composed b unwindLabel := ⟨fun h => h.unwindLabel⟩

instance composed_addSlowPath (p : SlowPath) : Composed b (addSlowPath p) := ⟨fun h => h.addSlowPath p⟩

variable (e : RuntimeEntry) (info : Option SiteInfo) (α : Type) (what : String) (o : Operand) (i : Instruction) (n : Nat)
  (r : Reg) (k : ValueKind) (src dst : Operand) (rd : Reg) (a : Address) (right left result : Operand) (cond : Condition)
  (target : Label) (sub super : Reg) (success failure : Label) (recv obj addr res klass : Reg) (slow : Label) (end' : Reg)

instance composed_called :
    Composed b ((liftM (Asm.rtCall e) : Lower Unit) >>= fun _ => addSite info) := ⟨fun h => h.called e 5 info⟩

/-- A site is recorded at the return address of a call, and work goes on. -/
instance composed_calledThen (f : Unit → Lower α) [hf : ∀ r, Composed b (f r)] :
    Composed b ((liftM (Asm.rtCall e) : Lower Unit) >>= fun _ => addSite info >>= f) :=
  ⟨fun h => (bind_assoc (liftM (Asm.rtCall e) : Lower Unit) _ f) ▸ h.bind (h.called e 5 info) fun r => (hf r).has h⟩

instance composed_calledWithArgThen (f : Unit → Lower α) [hf : ∀ r, Composed b (f r)] :
    Composed b ((liftM (Asm.rtCallWithArg e) : Lower Unit) >>= fun _ => addSite info >>= f) :=
  ⟨fun h => (bind_assoc (liftM (Asm.rtCallWithArg e) : Lower Unit) _ f) ▸ h.bind (h.called e 6 info)
    fun r => (hf r).has h⟩

/-! ## Operands -/

instance tells_misuse : Tells (o.misuse what : Except Fault α) := tells_defect _

instance tells_operandReg : Tells o.reg := by
  cases o <;> (dsimp only [Operand.reg]; infer_instance)

instance tells_bits : Tells o.bits := by
  cases o <;> (dsimp only [Operand.bits]; infer_instance)

instance tells_input : Tells (input i n) := by
  unfold input
  cases i.inputs[n]? <;> infer_instance

instance tells_payload (x : Option α) : Tells (payload x) := by
  cases x <;> (dsimp only [payload]; infer_instance)

instance tells_reg : Tells (reg o what) := by
  have : Unlike " must be an integer register, got " := ⟨'b', by decide, by decide⟩
  unfold reg
  infer_instance

instance tells_freg : Tells (freg o what) := by
  have : Unlike " must be a float register, got " := ⟨'b', by decide, by decide⟩
  unfold freg
  infer_instance

instance tells_apart (rs : List Reg) : Tells (apart what r rs) := by
  have : Unlike ": registers " := ⟨'r', by decide, by decide⟩
  induction rs with
  | nil => exact tells_ok ()
  | cons r' rs ih =>
    unfold apart
    infer_instance

instance tells_distinct (rs : List Reg) : Tells (distinct what rs) := by
  induction rs with
  | nil => exact tells_ok ()
  | cons r rs ih =>
    unfold distinct
    infer_instance

instance tells_checkOperand (op : Opcode) : Tells (checkOperand op what o) := by
  have : Unlike " uses reserved " := ⟨'u', by decide, by decide⟩
  cases o <;> (dsimp only [checkOperand]; infer_instance)

instance tells_checkOperands : Tells (checkOperands i) := by
  have : Unlike "result of " := ⟨'r', by decide, by decide⟩
  unfold checkOperands
  infer_instance

/-! ## Moves -/

instance tells_memLoadOp : Tells (memLoadOp k) := by
  cases k <;> (dsimp only [memLoadOp]; infer_instance)

instance tells_memStoreOp : Tells (memStoreOp k) := by
  cases k <;> (dsimp only [memStoreOp]; infer_instance)

instance unlike_cannotMove : Unlike "cannot move " := ⟨'c', by decide, by decide⟩

instance composed_cannotMove : Composed b (throw (cannotMove src dst) : Lower Unit) := by
  unfold cannotMove
  infer_instance

instance composed_compressedOop : Composed b (compressedOop k) :=
  composed_read (fun _ _ _ => rfl) fun _ => inferInstance

instance composed_constToReg (c : Operand) : Composed b (constToReg c rd) := by
  unfold constToReg
  cases c.kind <;> infer_instance

instance composed_srcReg (scratch : Reg) : Composed b (srcReg o scratch) := by
  have : Unlike "operand " := ⟨'r', by decide, by decide⟩
  unfold srcReg
  cases o <;> infer_instance

instance composed_loadFromMemory : Composed b (loadFromMemory rd k a) := by
  unfold loadFromMemory
  infer_instance

instance composed_storeToMemory : Composed b (storeToMemory r k a) := by
  unfold storeToMemory
  infer_instance

instance composed_moveFromReg : Composed b (moveFromReg src r dst) := by
  unfold moveFromReg
  cases dst <;> infer_instance

instance composed_moveFromFloatReg : Composed b (moveFromFloatReg src k r dst) := by
  unfold moveFromFloatReg
  cases dst <;> infer_instance

instance composed_moveStackToMemory (off : Int64) (dk : ValueKind) :
    Composed b (moveStackToMemory src k off dst dk a) := by
  have : Unlike "cannot store a spilled reference to " := ⟨'c', by decide, by decide⟩
  unfold moveStackToMemory
  infer_instance

instance composed_moveFromStack (slot : Nat) : Composed b (moveFromStack src k slot dst) := by
  unfold moveFromStack
  cases dst <;> infer_instance

instance composed_constStoreOp : Composed b (constStoreOp k) := by
  unfold constStoreOp
  infer_instance

instance composed_moveConstToMemory (bits : UInt64) : Composed b (moveConstToMemory src bits k a) := by
  unfold moveConstToMemory
  have (st : Op) (base : Reg) (disp : Int64) : Composed b (read >>= fun t : Target =>
      (liftM (Asm.li t1 (narrowConst t.opts bits)) : Lower Unit) >>= fun _ => liftM (Asm.store st t1 base disp)) :=
    composed_read (fun _ _ _ => rfl) fun _ => inferInstance
  dsimp only
  infer_instance

instance composed_moveFromConst (bits : UInt64) : Composed b (moveFromConst src bits dst) := by
  unfold moveFromConst
  cases dst <;> infer_instance

instance composed_moveFromMemory : Composed b (moveFromMemory src k a dst) := by
  unfold moveFromMemory
  cases dst <;> infer_instance

instance composed_move : Composed b (move src dst) := by
  have : Unlike "cannot move from " := ⟨'c', by decide, by decide⟩
  unfold move
  cases src <;> infer_instance

/-! ## Arithmetic -/

instance composed_divByZero : Composed b (divByZero info) := by
  have : Unlike "division by constant zero without debug info" := ⟨'d', by decide, by decide⟩
  unfold divByZero
  cases info <;> infer_instance

instance composed_checkDivisor (divisor : Reg) : Composed b (checkDivisor divisor info) := by
  unfold checkDivisor
  cases info <;> infer_instance

instance composed_arithReg (rs1 : Reg) : Composed b (arithReg i rd rs1 k right) := by
  unfold arithReg
  infer_instance

instance composed_intArith : Composed b (intArith i left right) := by
  unfold intArith
  cases right with
  | constant rk bits =>
    dsimp only
    cases foldConst? i.op left.kind (Operand.longOfBits rk bits) <;> infer_instance
  | _ => infer_instance

instance composed_floatArith : Composed b (floatArith i left right) := by
  have : Unlike "float remainder must be a runtime call" := ⟨'r', by decide, by decide⟩
  have : Unlike " is not a float operation" := ⟨'i', by decide, by decide⟩
  unfold floatArith
  cases floatOps? i.op <;> infer_instance

instance composed_arith : Composed b (arith i) := by
  unfold arith
  infer_instance

instance composed_shift : Composed b (shift i) := by
  unfold shift
  have (rd rs : Reg) (narrow : Bool) (count : Operand) : Composed b (match count with
      | .constant k bits =>
        let n := Operand.longOfBits k bits &&& (if narrow then 31 else 63)
        (liftM (Asm.shiftI (shiftConstOp i.op narrow) rd rs n) : Lower Unit)
      | _ => do
        let c ← reg count "shift count"
        Asm.rr (shiftOp i.op narrow) rd rs c) := by
    cases count <;> infer_instance
  infer_instance

instance composed_negFloat (o : Op) : Composed b (negFloat o src result) := by
  unfold negFloat
  infer_instance

instance composed_neg : Composed b (neg i) := by
  unfold neg
  have (src : Operand) : Composed b (match src.kind with
      | .float => negFloat .fsgnjnS src i.result
      | .double => negFloat .fsgnjnD src i.result
      | k => do
        let rd ← reg i.result "result"
        let rs ← reg src "negated value"
        Asm.rr (if k.isIntLike then .subw else .sub) rd zr rs) := by
    cases src.kind <;> infer_instance
  infer_instance

instance composed_narrowTo (n : Int64) (back : Op) : Composed b (narrowTo n back result src) := by
  unfold narrowTo
  infer_instance

instance composed_intToFloat (o : Op) : Composed b (intToFloat o result src) := by
  unfold intToFloat
  infer_instance

instance composed_floatToFloat (o : Op) : Composed b (floatToFloat o result src) := by
  unfold floatToFloat
  infer_instance

instance composed_floatToInt (cvt feq : Op) : Composed b (floatToInt cvt feq result src) := by
  unfold floatToInt
  infer_instance

instance composed_convert : Composed b (convert i) := by
  have : Unlike "unknown conversion " := ⟨'u', by decide, by decide⟩
  unfold convert
  cases i.conv <;> infer_instance

/-! ## Comparisons -/

instance composed_intCondBranch : Composed b (intCondBranch cond left right target) := by
  have : Unlike "cannot branch on " := ⟨'c', by decide, by decide⟩
  unfold intCondBranch
  cases cond <;> (dsimp only [branchOp?]; infer_instance)

instance composed_computePredicate (c : FloatCompares) (p : FloatPredicate) (fa fb : Reg) :
    Asm.Composed b (computePredicate c p fa fb) := by
  unfold computePredicate
  cases p with
  | compare o swapped => cases swapped <;> infer_instance
  | apart => infer_instance

instance composed_floatCondBranch (unorderedIsTrue : Bool) :
    Composed b (floatCondBranch cond left right unorderedIsTrue target) := by
  have : Unlike "cannot compare floats with " := ⟨'c', by decide, by decide⟩
  unfold floatCondBranch
  dsimp only
  cases predicate? (floatCompares left.kind) (if unorderedIsTrue then ordinaryNegation cond else cond) <;> infer_instance

instance composed_condBranch (unorderedIsTrue : Bool) :
    Composed b (condBranch cond left right unorderedIsTrue target) := by
  unfold condBranch
  infer_instance

instance composed_cmpBranch : Composed b (cmpBranch i) := by
  unfold cmpBranch
  infer_instance

instance composed_cmove : Composed b (cmove i) := by
  unfold cmove
  infer_instance

instance composed_cmp3Int : Composed b (cmp3Int rd left right) := by
  unfold cmp3Int
  infer_instance

instance composed_cmp3Float (unorderedIsLess : Bool) : Composed b (cmp3Float rd left right unorderedIsLess) := by
  unfold cmp3Float
  infer_instance

instance composed_cmp3 : Composed b (cmp3 i) := by
  unfold cmp3
  infer_instance

/-! ## Type checks and profiles -/

instance composed_slowSubtypeCheck : Composed b (slowSubtypeCheck sub super success failure) := by
  unfold slowSubtypeCheck
  infer_instance

instance composed_checkSubtypeStatic (offset : Int32) (fast : Bool) :
    Composed b (checkSubtypeStatic sub super offset fast success failure) := by
  unfold checkSubtypeStatic
  infer_instance

instance composed_checkSubtypeDynamic (tmp : Reg) : Composed b (checkSubtypeDynamic sub super tmp success failure) := by
  unfold checkSubtypeDynamic
  infer_instance

instance composed_profileNull (mdp : UInt64) : Composed b (profileNull mdp) := by
  unfold profileNull
  infer_instance

instance composed_countInRow (updated : Label) (row : Int64) : Composed b (countInRow recv updated row) := by
  unfold countInRow
  infer_instance

instance composed_claimRow (updated : Label) (row : Int64) : Composed b (claimRow recv updated row) := by
  unfold claimRow
  infer_instance

instance composed_forRows (f : Int64 → Lower Unit) [hf : ∀ row, Composed b (f row)] (fuel : Nat) :
    Composed b (forRows f fuel n) := by
  induction fuel generalizing n with
  | zero => exact composed_pure ()
  | succ fuel ih =>
    have := ih (n + 1)
    unfold forRows
    infer_instance

instance composed_profileReceiver (p : ProfileSite) : Composed b (profileReceiver p recv) := by
  unfold profileReceiver
  infer_instance

instance composed_skipNull (profile : Option ProfileSite) (onNull : Label) :
    Composed b (skipNull obj profile onNull) := by
  unfold skipNull
  cases profile <;> infer_instance

instance composed_typeCheck (tc : TypeCheck) (onNull : Label) : Composed b (typeCheck obj tc onNull success failure) := by
  unfold typeCheck
  cases tc.profile <;> infer_instance

set_option synthInstance.maxSize 512 in
instance composed_instanceOf : Composed b (instanceOf i) := by
  unfold instanceOf
  infer_instance

instance composed_checkCast : Composed b (checkCast i) := by
  unfold checkCast
  infer_instance

set_option synthInstance.maxSize 512 in
instance composed_storeCheck : Composed b (storeCheck i) := by
  have : Unlike "store check needs three temporaries" := ⟨'r', by decide, by decide⟩
  unfold storeCheck
  have (profile : Option ProfileSite) (sub elem tmp : Reg) (done entry : Label) : Composed b (match profile with
      | none => checkSubtypeDynamic sub elem tmp done entry >>= fun _ => (liftM (Asm.bind done) : Lower Unit)
      | some p => do
        let passed ← Asm.newLabel
        checkSubtypeDynamic sub elem tmp passed entry
        Asm.bind passed
        profileReceiver p sub
        Asm.bind done) := by
    cases profile <;> infer_instance
  dsimp only
  infer_instance

instance composed_cellNull (p : TypeProfile) (done : Label) : Composed b (cellNull p done obj) := by
  unfold cellNull
  infer_instance

set_option synthInstance.maxSize 512 in
instance composed_cellType (p : TypeProfile) (tmp : Reg) (done : Label) : Composed b (cellType p obj tmp done) := by
  unfold cellType
  dsimp only
  infer_instance

instance composed_profileType : Composed b (profileType i) := by
  unfold profileType
  infer_instance

/-! ## Locks and atomic updates -/

instance tells_temporary : Tells (temporary i n) := by
  unfold temporary
  infer_instance

instance composed_casNarrow (expected new : Reg) : Composed true (casNarrow i addr expected new res) := by
  have : Unlike "compressed reference cas needs two temporaries" := ⟨'c', by decide, by decide⟩
  unfold casNarrow
  infer_instance

set_option synthInstance.maxSize 512 in
instance composed_cas : Composed true (cas i) := by
  unfold cas
  infer_instance

instance composed_fetchAdd (val : Reg) : Composed b (fetchAdd k res val addr) := by
  have : Unlike "cannot add to a reference" := ⟨'c', by decide, by decide⟩
  unfold fetchAdd
  infer_instance

instance composed_exchange (val : Reg) : Composed b (exchange k res val addr) := by
  unfold exchange
  infer_instance

instance composed_atomicUpdate : Composed b (atomicUpdate i) := by
  unfold atomicUpdate
  infer_instance

instance tells_lockOperands (l : LockInfo) : Tells (lockOperands l what) := by
  unfold lockOperands
  infer_instance

instance composed_fastLocking (x y : Asm Unit) (cont : Label) [Asm.Composed b x] [Asm.Composed b y] :
    Composed b (read >>= fun t : Target => do
      if t.opts.useFastLocking then (liftM x : Lower Unit) else y
      Asm.bind cont) :=
  composed_read (fun _ _ _ => rfl) fun _ => inferInstance

instance composed_lock : Composed true (lock i) := by
  unfold lock
  dsimp only
  infer_instance

instance composed_unlock : Composed true (unlock i) := by
  unfold unlock
  dsimp only
  infer_instance

/-! ## Allocation -/

instance composed_checkInitialized : Composed b (checkInitialized klass slow) := by
  unfold checkInitialized
  infer_instance

instance composed_tlabAllocate (size : AllocSize) : Composed b (tlabAllocate obj end' size slow) := by
  unfold tlabAllocate
  cases size <;> infer_instance

instance composed_initializeHeader : Composed b (initializeHeader obj klass) := by
  unfold initializeHeader
  infer_instance

instance composed_clearWords (off : Int64) : Composed b (clearWords obj n off) := by
  induction n generalizing off with
  | zero => exact composed_pure ()
  | succ n ih =>
    have := ih (off + 8)
    unfold clearWords
    infer_instance

instance composed_clearRange (cur : Reg) (start stop : Int64) : Composed b (clearRange obj cur end' start stop) := by
  unfold clearRange
  infer_instance

instance composed_clearGap (size : Int64) : Composed b (clearGap obj size) :=
  composed_read (fun _ _ _ => rfl) fun _ => inferInstance

instance tells_checkObjectSize (size : Int64) : Tells (checkObjectSize size) := by
  have : Unlike "object size " := ⟨'b', by decide, by decide⟩
  unfold checkObjectSize
  infer_instance

instance composed_allocObject : Composed true (allocObject i) := by
  unfold allocObject
  have (obj klass tmp1 tmp2 : Reg) (a : AllocInfo) (entry cont : Label) : Composed true (read >>= fun t : Target => do
      if t.opts.useTlab then
        tlabAllocate obj tmp2 (.const a.size) entry
        initializeHeader obj klass
        let body ← clearGap obj a.size
        clearRange obj tmp1 tmp2 body a.size
        Asm.membar MemoryOrder.storeStore
      else Asm.j entry
      (liftM (Asm.bind cont) : Lower Unit)) :=
    composed_read (fun _ _ _ => rfl) fun _ => inferInstance
  dsimp only
  infer_instance

instance composed_clearLoop (cur : Reg) : Composed b (clearLoop cur end') := by
  unfold clearLoop
  infer_instance

instance composed_allocArrayInline (element : ValueKind) (length tmp1 tmp2 : Reg) :
    Composed true (allocArrayInline element obj klass length tmp1 tmp2 slow) :=
  composed_read (fun _ _ _ => rfl) fun _ => inferInstance

instance composed_allocArray : Composed true (allocArray i) := by
  unfold allocArray
  have (x y : Lower Unit) (cont : Label) [Composed true x] [Composed true y] : Composed true
    (read >>= fun t : Target => do
      if t.opts.useTlab then x else y
      Asm.bind cont) :=
    composed_read (fun _ _ _ => rfl) fun _ => inferInstance
  dsimp only
  infer_instance

/-! ## Leaving straight-line code -/

instance tells_checkRole : Tells (checkRole o r what) := by
  have : Unlike " must be in " := ⟨'u', by decide, by decide⟩
  have : Tells (o.reg.map (· == r)) := by
    cases o <;> (dsimp only [Operand.reg, Operand.misuse, Except.map]; infer_instance)
  unfold checkRole
  infer_instance

instance composed_unwind : Composed b (unwind i) := by
  unfold unwind
  infer_instance

instance tells_checkResult : Tells (checkResult o) := by
  have : Unlike "float result must be in " := ⟨'r', by decide, by decide⟩
  cases o <;> (dsimp only [checkResult]; infer_instance)

instance composed_ret : Composed b (ret i) := by
  unfold ret
  have : Composed b (get >>= fun s : Lowering => do
      Asm.removeFrame s.prog.frameSize
      (liftM Asm.ret : Lower Unit)) :=
    composed_get (fun s u hprog => by rw [hprog]) fun _ => inferInstance
  cases i.inputs <;> (dsimp only; infer_instance)

instance composed_callRuntime : Composed b (callRuntime i) := by
  have : Unlike "runtime call without target" := ⟨'r', by decide, by decide⟩
  unfold callRuntime
  cases i.call with
  | none => infer_instance
  | some c => exact composed_called c.entry i.info

instance composed_nullCheck : Composed b (nullCheck i) := by
  unfold nullCheck
  infer_instance

instance composed_rangeCheck : Composed b (rangeCheck i) := by
  unfold rangeCheck
  dsimp only
  infer_instance

/-! ## Whole methods -/

instance composed_reportIndex (index : Operand) : Composed b (reportIndex index) := by
  unfold reportIndex
  cases index <;> infer_instance

/-- A trampoline holds an address besides instructions. The other slow paths are made of statements. -/
theorem Closed.emitSlowPath {P : {α : Type} → Lower α → Prop} (h : Closed b P)
    (htrampoline : ∀ target entry, P (emitSlowPath (.trampoline target entry))) (p : SlowPath) : P (emitSlowPath p) := by
  have hpath (x : Lower Unit) [hx : Composed b x] : P x := hx.has h
  cases p with
  | trampoline target entry => exact htrampoline target entry
  | _ =>
    dsimp only [Lower.emitSlowPath]
    exact hpath _

end

end Lower

end RiscvJit
