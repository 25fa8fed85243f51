import RiscvJit.Proofs.Code.Trace
import RiscvJit.Proofs.Frame.Recording

/-
  RiscvJit.Proofs.Code.Composed — work that is made of statements.

  Much of what is known of single statements is handed on to sequences of them: what they wrote is a
  list of items, they keep up in a smaller buffer, they only add to what is there. Such a property is
  closed under one statement after the other (`Closed`). `Composed x` says that `x` has every closed
  property, so the sequences of instructions are taken apart here once, and each property is then told of
  the statements alone. As a class it is found by the shape of the work.

  A barrier may change the word before it, so properties differ in whether they hold of barriers; work
  without them has both kinds.
-/

namespace RiscvJit

open Reg (zr sp t0)

/-- The settings with buffers of other sizes. -/
def Options.resized (o : Options) (main stubs : Int64) : Options :=
  { o with codeBufferSize := main, stubBufferSize := stubs }

/-- The target with buffers of other sizes. -/
def Target.resized (t : Target) (main stubs : Int64) : Target := { t with opts := t.opts.resized main stubs }

namespace Asm

/-- The property holds of every statement, and of one piece of work after the other. -/
structure Closed (barriers : Bool) (P : {α : Type} → Asm α → Prop) : Prop where
  pure {α : Type} (r : α) : P (pure r : Asm α)
  lift {α : Type} (e : Except Fault α) [Tells e] : P (liftM e : Asm α)
  bind {α β : Type} {x : Asm α} {f : α → Asm β} : P x → (∀ r, P (f r)) → P (x >>= f)
  /-- Of the settings, work may not read the sizes of buffers. -/
  opts {α : Type} {f : Options → Asm α} : (∀ o main stubs, f (o.resized main stubs) = f o) → (∀ o, P (f o)) →
  P (opts >>= f)
  newLabel : P newLabel
  call (c : Call) : c.Proper → P c.run
  routine (e : RuntimeEntry) (link tmp : Fin 32) : P (entryAddress e >>= fun target => farCall target (.x link) (.x tmp))
  barrier (pred succ : Int64) : barriers = true → P (fence pred succ)

/-- The work has every closed property. -/
class Composed {α : Type} (b : Bool) (x : Asm α) : Prop where
  has : ∀ {P : {α : Type} → Asm α → Prop}, Closed b P → P x

section
variable {α β : Type} {b : Bool}

instance composed_pure (r : α) : Composed b (pure r : Asm α) := ⟨fun h => h.pure r⟩

instance composed_lift (e : Except Fault α) [Tells e] : Composed b (liftM e : Asm α) := ⟨fun h => h.lift e⟩

instance composed_bind (x : Asm α) (f : α → Asm β) [hx : Composed b x] [hf : ∀ r, Composed b (f r)] :
    Composed b (x >>= f) :=
  ⟨fun h => h.bind (hx.has h) fun r => (hf r).has h⟩

instance composed_seq (x : Asm α) (y : Asm β) [Composed b x] [Composed b y] : Composed b (x >>= fun _ => y) :=
  composed_bind x _

instance composed_ite (c : Prop) [Decidable c] (x y : Asm α) [hx : Composed b x] [hy : Composed b y] :
    Composed b (if c then x else y) := by
  split
  · exact hx
  · exact hy

instance composed_forM (xs : List β) (f : β → Asm Unit) [hf : ∀ x, Composed b (f x)] : Composed b (xs.forM f) := by
  induction xs with
  | nil => exact composed_pure ()
  | cons x xs ih => exact composed_bind (f x) fun _ => xs.forM f

theorem composed_opts {f : Options → Asm α} (hsame : ∀ o main stubs, f (o.resized main stubs) = f o)
    (hf : ∀ o, Composed b (f o)) :
    Composed b (opts >>= f) := ⟨fun h => h.opts hsame fun o => (hf o).has h⟩

end

section
variable {b : Bool}

/-! ## Statements -/

instance composed_newLabel : Composed b newLabel := ⟨fun h => h.newLabel⟩

theorem composed_call (c : Call) (hc : c.Proper) : Composed b c.run := ⟨fun h => h.call c hc⟩

variable (e : RuntimeEntry) (tmp : Reg) (o : Op) (rd rs1 rs2 : Reg) (imm : Int64) (aqrl : UInt32) (l : Label)
  (rs src addr base : Reg) (off : Int64) (dst : Reg) (slow : Label)

theorem composed_routine (link tmp : Fin 32) :
    Composed b (entryAddress e >>= fun target => farCall target (.x link) (.x tmp)) := ⟨fun h => h.routine e link tmp⟩

instance composed_fence (pred succ : Int64) : Composed true (fence pred succ) := ⟨fun h => h.barrier pred succ rfl⟩

instance composed_emit : Composed b (emit o rd rs1 rs2 imm aqrl) :=
  composed_call (.plain o rd rs1 rs2 imm aqrl) trivial

instance composed_bindLabel : Composed b (Asm.bind l) := composed_call (.bind l) trivial

instance composed_jal : Composed b (jal rd l) := composed_call (.jal rd l) trivial

/-- The address of a label is a reference by two words. -/
theorem la_eq : la rd l = offset >>= fun off =>
    (auipc rd 0 >>= fun _ => emit .addi rd rd .none 0 0) >>= fun _ => refer l (Int64.ofNat off) 2 := by
  simp only [la, bind_assoc]

instance composed_la : Composed b (la rd l) := composed_call (.la rd l) trivial

theorem composed_branch {o : Op} (ho : o.info.format = .branch) (rs1 rs2 : Reg) (l : Label) :
    Composed b (branch o rs1 rs2 l) :=
  composed_call (.branch o rs1 rs2 l) ho

theorem composed_bcond {o : Op} (ho : o.info.format = .branch) (rs1 rs2 : Reg) (l : Label) :
    Composed b (bcond o rs1 rs2 l) :=
  composed_call (.bcond o rs1 rs2 l) ho

instance composed_branch_beq : Composed b (branch .beq rs1 rs2 l) := composed_branch rfl ..
instance composed_branch_bne : Composed b (branch .bne rs1 rs2 l) := composed_branch rfl ..
instance composed_branch_bltu : Composed b (branch .bltu rs1 rs2 l) := composed_branch rfl ..
instance composed_branch_bgeu : Composed b (branch .bgeu rs1 rs2 l) := composed_branch rfl ..
instance composed_beq : Composed b (bcond .beq rs1 rs2 l) := composed_bcond rfl ..
instance composed_bne : Composed b (bcond .bne rs1 rs2 l) := composed_bcond rfl ..
instance composed_blt : Composed b (bcond .blt rs1 rs2 l) := composed_bcond rfl ..
instance composed_bge : Composed b (bcond .bge rs1 rs2 l) := composed_bcond rfl ..
instance composed_bltu : Composed b (bcond .bltu rs1 rs2 l) := composed_bcond rfl ..
instance composed_bgeu : Composed b (bcond .bgeu rs1 rs2 l) := composed_bcond rfl ..

/-! ## Single instructions -/

instance tells_checkImm12 (what : String) (v : Int64) : Tells (checkImm12 what v) := by
  have : Unlike " out of range" := ⟨'r', by decide, by decide⟩
  unfold checkImm12
  infer_instance

instance composed_ri : Composed b (ri o rd rs1 imm) := by
  unfold ri
  infer_instance

instance composed_load : Composed b (load o rd base off) := by
  unfold load
  infer_instance

instance composed_store : Composed b (store o src base off) := by
  unfold store
  infer_instance

instance composed_jalr : Composed b (jalr rd base off) := by
  unfold jalr
  infer_instance

/-! ## Constants and addresses -/

instance unlike_scratch : Unlike "scratch " := ⟨'c', by decide, by decide⟩

instance unlike_address : Unlike "address " := ⟨'d', by decide, by decide⟩

instance composed_constStep (s : ConstStep) : Composed b (constStep rd s) := by
  cases s <;> (unfold constStep; infer_instance)

instance composed_li : Composed b (li rd imm) := composed_forM _ (constStep rd)

instance composed_mv : Composed b (mv rd rs) := by
  unfold mv
  infer_instance

instance composed_addImm : Composed b (addImm rd rs imm tmp) := by
  unfold addImm
  infer_instance

instance composed_loadOff : Composed b (loadOff o rd base off tmp) := by
  unfold loadOff
  infer_instance

instance composed_storeOff : Composed b (storeOff o src base off tmp) := by
  unfold storeOff
  infer_instance

instance composed_indexedBase (a : Address) : Composed b (indexedBase a) := by
  unfold indexedBase
  infer_instance

instance composed_legitimize (a : Address) : Composed b (legitimize a) := by
  unfold legitimize
  infer_instance

instance composed_movptrWithOffset (addr : UInt64) : Composed b (movptrWithOffset rd addr) := by
  unfold movptrWithOffset
  dsimp only
  infer_instance

instance composed_movptr (addr : UInt64) : Composed b (movptr rd addr) := by
  unfold movptr
  infer_instance

/-! ## Compressed references -/

instance composed_encodeHeapOop : Composed b (encodeHeapOop dst src tmp) :=
  composed_opts (fun _ _ _ => rfl) fun _ => inferInstance

instance composed_decodeHeapOop : Composed b (decodeHeapOop rd tmp) :=
  composed_opts (fun _ _ _ => rfl) fun _ => inferInstance

instance composed_encodeKlass : Composed b (encodeKlass dst src tmp) :=
  composed_opts (fun _ _ _ => rfl) fun _ => inferInstance

instance composed_decodeKlass : Composed b (decodeKlass rd tmp) :=
  composed_opts (fun _ _ _ => rfl) fun _ => inferInstance

instance composed_loadKlass (obj : Reg) : Composed b (loadKlass dst obj tmp) :=
  composed_opts (fun _ _ _ => rfl) fun _ => inferInstance

instance composed_storeKlass (obj klass : Reg) : Composed b (storeKlass obj klass tmp) :=
  composed_opts (fun _ _ _ => rfl) fun _ => inferInstance

/-! ## Barriers and atomic swaps -/

instance composed_membar (order : MemoryOrder) : Composed true (membar order) := by
  unfold membar
  dsimp only
  infer_instance

instance composed_cmpxchg (expected new result : Reg) (wide : Bool) :
    Composed true (cmpxchg addr expected new result wide) := by
  unfold cmpxchg
  infer_instance

instance composed_cmpxchgptr (old new : Reg) (succeed : Label) (fail : Option Label) :
    Composed true (cmpxchgptr old new addr tmp succeed fail) := by
  unfold cmpxchgptr
  cases fail <;> (dsimp only; infer_instance)

/-! ## Calls -/

instance composed_rtCall : Composed b (rtCall e) := composed_routine e 1 5

instance composed_rtJump : Composed b (rtJump e) := composed_routine e 0 5

/-! ## Frames -/

instance composed_enter : Composed b enter := by
  unfold enter
  infer_instance

instance composed_leave : Composed b leave := by
  unfold leave
  infer_instance

instance composed_pushRegs (regs : List Reg) : Composed b (pushRegs regs) := by
  unfold pushRegs
  dsimp only
  infer_instance

instance composed_popRegs (regs : List Reg) : Composed b (popRegs regs) := by
  unfold popRegs
  dsimp only
  infer_instance

instance composed_setLastJavaFrame (lastSp lastFp : Reg) (pc : Label) :
    Composed b (setLastJavaFrame lastSp lastFp pc tmp) := by
  unfold setLastJavaFrame
  infer_instance

instance composed_resetLastJavaFrame (clearFp : Bool) : Composed b (resetLastJavaFrame clearFp) := by
  unfold resetLastJavaFrame
  infer_instance

instance composed_storeThreadState (state : Int64) : Composed true (storeThreadState state) := by
  unfold storeThreadState
  infer_instance

instance composed_safepointPoll : Composed b (safepointPoll slow) := by
  unfold safepointPoll
  infer_instance

instance composed_buildFrame (size : Int64) : Composed b (buildFrame size) := by
  unfold buildFrame
  infer_instance

instance composed_removeFrame (size : Int64) : Composed b (removeFrame size) := by
  unfold removeFrame
  infer_instance

/-! ## Locks -/

/-- The slot remembers the object and the mark that is expected, unless the mark rules out a stack lock. -/
def noteMark (r : LockRegs) (slow : Label) : Asm Unit := do
  sd r.obj r.lock lockSlotObject
  ld r.hdr r.obj objectLayout.mark
  ori r.hdr r.hdr markUnlockedValue
  sd r.hdr r.lock lockDisplacedHeader
  andi r.scratch r.hdr markNotStackLockable
  bnez r.scratch slow

/-- What is made of another mark. -/
def tellOwn (r : LockRegs) (slow : Label) : Asm Unit := do
  sub r.hdr r.hdr sp
  li t0 (7 - (← opts).pageSize)
  and r.hdr r.hdr t0
  sd r.hdr r.lock lockDisplacedHeader
  bnez r.hdr slow

theorem fastLock_eq (r : LockRegs) (slow : Label) : fastLock r slow = newLabel >>= fun done =>
    (noteMark r slow >>= fun _ =>
    cmpxchgptr r.hdr r.lock r.obj r.scratch done none >>= fun _ => tellOwn r slow) >>= fun _ =>
    bind done >>= fun _ => pure () := by
  unfold fastLock noteMark tellOwn
  simp only [bind_assoc, bind_pure_unit]

theorem fastUnlock_eq (r : LockRegs) (slow : Label) : fastUnlock r slow = newLabel >>= fun done => (do
    ld r.hdr r.lock lockDisplacedHeader
    branch .beq r.hdr zr done
    mv r.scratch r.lock
    cmpxchgptr r.scratch r.hdr r.obj t0 done (some slow)) >>= fun _ => bind done >>= fun _ => pure () := by
  unfold fastUnlock
  simp only [bind_assoc, bind_pure_unit]

instance composed_noteMark (r : LockRegs) : Composed b (noteMark r slow) := by
  unfold noteMark
  infer_instance

instance composed_tellOwn (r : LockRegs) : Composed b (tellOwn r slow) := by
  unfold tellOwn
  have : Composed b (opts >>= fun o => li t0 (7 - o.pageSize) >>= fun _ => and r.hdr r.hdr t0 >>= fun _ =>
      sd r.hdr r.lock lockDisplacedHeader >>= fun _ => bnez r.hdr slow) :=
      composed_opts (fun _ _ _ => rfl) fun _ => inferInstance
  infer_instance

instance composed_fastLock (r : LockRegs) : Composed true (fastLock r slow) := by
  rw [fastLock_eq]
  infer_instance

instance composed_fastUnlock (r : LockRegs) : Composed true (fastUnlock r slow) := by
  unfold fastUnlock
  infer_instance

end

end Asm

end RiscvJit
