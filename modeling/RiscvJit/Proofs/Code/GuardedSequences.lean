import RiscvJit.Proofs.Code.Guarded

/-
  RiscvJit.Proofs.Code.GuardedSequences — sequences of instructions end with a result or with a
  broken precondition.

  The sequences are guarded as they are made of guarded instructions. Two of them make a label of
  their own and bind it: nobody else knows the label, so it is not bound twice (`safe_fresh`). Calls
  of the runtime need an address for the routine, which a complete target has. A swap goes back to a
label that is bound before it (`guarded_cmpxchgptr`).
-/

namespace RiscvJit

open Reg (zr ra sp t0)

namespace Asm

variable {F : List Bool}

/-! ## Single instructions -/

variable {e : RuntimeEntry} (o : Op) (rd rs1 : Reg) (rs : Reg) (imm : Int64) (src base : Reg) (off : Int64)
  (target : UInt64) (tmp : Reg) (slow : Label)

instance guarded_checkImm12 (what : String) (v : Int64) : Guarded F (liftM (checkImm12 what v) : Asm Unit) :=
  guarded_check ..

instance guarded_ri : Guarded F (ri o rd rs1 imm) :=
  guarded_bind (liftM (checkImm12 (o.name ++ " immediate") imm)) fun _ => emit o rd rs1 .none imm 0

instance guarded_load : Guarded F (load o rd base off) :=
  guarded_bind (liftM (checkImm12 (o.name ++ " offset") off)) fun _ => emit o rd base .none off 0

instance guarded_store : Guarded F (store o src base off) :=
  guarded_bind (liftM (checkImm12 (o.name ++ " offset") off)) fun _ => emit o .none base src off 0

instance guarded_jalr : Guarded F (jalr rd base off) :=
  guarded_bind (liftM (checkImm12 "jalr offset" off)) fun _ => emit .jalr rd base .none off 0

/-! ## Constants and addresses -/

instance guarded_constStep (s : ConstStep) : Guarded F (constStep rd s) := by
  cases s <;> (unfold constStep; infer_instance)

instance guarded_li : Guarded F (li rd imm) := guarded_forM _ (constStep rd)

instance guarded_mv : Guarded F (mv rd rs) := by
  unfold mv
  infer_instance

instance guarded_addImm : Guarded F (addImm rd rs imm tmp) := by
  unfold addImm
  infer_instance

instance guarded_loadOff : Guarded F (loadOff o rd base off tmp) := by
  unfold loadOff
  infer_instance

instance guarded_storeOff : Guarded F (storeOff o src base off tmp) := by
  unfold storeOff
  infer_instance

instance guarded_indexedBase (a : Address) : Guarded F (indexedBase a) := by
  unfold indexedBase
  infer_instance

instance guarded_legitimize (a : Address) : Guarded F (legitimize a) := by
  unfold legitimize
  infer_instance

instance guarded_movptrWithOffset (addr : UInt64) : Guarded F (movptrWithOffset rd addr) := by
  unfold movptrWithOffset
  dsimp only
  infer_instance

instance guarded_movptr (addr : UInt64) : Guarded F (movptr rd addr) := by
  unfold movptr
  infer_instance

/-! ## Compressed references -/

/-- A label of one's own: it is made, referred to, bound once, and nobody else knows it. -/
theorem guarded_ownLabel {α : Type} (before : Label → Asm Unit) (after : Asm α)
    (hbefore : ∀ F' l, F <+: F' → KnownLabel F' l → Guarded F' (before l)) (hafter : Guarded F after) :
    Guarded F (newLabel >>= fun l => before l >>= fun _ => Asm.bind l >>= fun _ => after) where
  safe {F'} hp := by
    refine safe_fresh fun l F1 hp1 hl ho => ?_
    refine (hbefore F1 l (hp.trans hp1) ho.known).andThen fun _ F2 hp2 => ?_
    refine (safe_bindLabel (ho.extend hp2)).bind fun _ F3 h => ?_
    subst h
    have hkept := prefix_boundLabel (hp1.trans hp2) hl
    exact (hafter.safe (hp.trans hkept)).mono fun _ _ h => hkept.trans h

instance guarded_encodeHeapOop (dst : Reg) : Guarded F (encodeHeapOop dst src tmp) := by
  unfold encodeHeapOop
  have hbased (o : Options) : Guarded F (newLabel >>= fun notNull => li tmp o.oopBase.toInt64 >>= fun _ =>
      sub tmp src tmp >>= fun _ => srli tmp tmp (Int64.ofNat o.oopShift.toNat) >>= fun _ =>
      branch .bne src zr notNull >>= fun _ => mv tmp zr >>= fun _ => Asm.bind notNull >>= fun _ => mv dst tmp) := by
    have hown := guarded_ownLabel (F := F) (fun notNull => do
      li tmp o.oopBase.toInt64
      sub tmp src tmp
      srli tmp tmp (Int64.ofNat o.oopShift.toNat)
      branch .bne src zr notNull
      mv tmp zr) (mv dst tmp) (fun _ _ _ _ => inferInstance) inferInstance
    simpa only [bind_assoc] using hown
  infer_instance

instance guarded_decodeHeapOop : Guarded F (decodeHeapOop rd tmp) := by
  unfold decodeHeapOop
  have hbased (o : Options) : Guarded F (newLabel >>= fun done => branch .beq rd zr done >>= fun _ =>
      slli rd rd (Int64.ofNat o.oopShift.toNat) >>= fun _ => li tmp o.oopBase.toInt64 >>= fun _ =>
      add rd rd tmp >>= fun _ => Asm.bind done) := by
    have hown := guarded_ownLabel (F := F) (fun done => do
      branch .beq rd zr done
      slli rd rd (Int64.ofNat o.oopShift.toNat)
      li tmp o.oopBase.toInt64
      add rd rd tmp) (pure ()) (fun _ _ _ _ => inferInstance) inferInstance
    simpa only [bind_assoc, bind_pure_unit] using hown
  infer_instance

instance guarded_decodeKlass : Guarded F (decodeKlass rd tmp) := by
  unfold decodeKlass
  infer_instance

instance guarded_loadKlass (dst obj : Reg) : Guarded F (loadKlass dst obj tmp) := by
  unfold loadKlass
  infer_instance

/-! ## Barriers and swaps -/

instance guarded_membar (order : MemoryOrder) : Guarded F (membar order) := by
  unfold membar
  dsimp only
  infer_instance

/-- The way back of a swap is bound at its start; the way out of the loop is a label of its own. -/
theorem guarded_swap (old new addr tmp : Reg) {succeed : Label} [hsucceed : KnownLabel F succeed] (last : Asm Unit)
    [hlast : Guarded F last] :
    Guarded F (newLabel >>= fun retry => newLabel >>= fun nope => Asm.bind retry >>= fun _ =>
      lr .lrD tmp addr acquireRelease >>= fun _ => branch .bne tmp old nope >>= fun _ =>
      sc .scD tmp new addr release >>= fun _ =>
      branch .bne tmp zr retry >>= fun _ => membar anyOrder >>= fun _ => j succeed >>= fun _ => Asm.bind nope >>= fun _ =>
      mv old tmp >>= fun _ => membar anyOrder >>= fun _ => last) where
  safe {F'} hp := by
    refine safe_fresh fun retry F1 hp1 hretry hopen => safe_fresh fun nope F2 hp2 hnope hopen' => ?_
    have hback := hopen.extend hp2
    refine (safe_bindLabel hback).bind fun _ F3 h => ?_
    subst h
    have hne : nope ≠ retry := fun e => Nat.lt_irrefl _ (Nat.lt_of_lt_of_le (e ▸ hnope) hopen.known.le)
    have hout : OpenLabel (boundLabel F2 retry) nope := hopen'.boundLabel_other hne hopen.1
    have hkept := prefix_boundLabel (hp1.trans hp2) hretry
    have : KnownLabel (boundLabel F2 retry) nope := hout.known
    have : KnownLabel (boundLabel F2 retry) retry :=
      ⟨hopen.1, Nat.le_trans hback.known.le (Nat.le_of_eq List.length_set.symm)⟩
    have : KnownLabel (boundLabel F2 retry) succeed := hsucceed.extend (hp.trans hkept)
    have htry : Guarded (boundLabel F2 retry) (lr .lrD tmp addr acquireRelease >>= fun _ =>
      branch .bne tmp old nope >>= fun _ =>
        sc .scD tmp new addr release >>= fun _ => branch .bne tmp zr retry >>= fun _ => membar anyOrder >>=
        fun _ => j succeed) :=
      inferInstance
    have hall := htry.andThen (f := fun _ => Asm.bind nope >>= fun _ => mv old tmp >>= fun _ =>
      membar anyOrder >>= fun _ => last)
      (R := fun _ F'' => F' <+: F'') fun _ F4 hp4 => by
        refine (safe_bindLabel (hout.extend hp4)).bind fun _ F5 h => ?_
        subst h
        have hkept' := prefix_boundLabel (hkept.trans hp4) (Nat.lt_of_le_of_lt hp1.length_le hnope)
        have hend : Guarded F (mv old tmp >>= fun _ => membar anyOrder >>= fun _ => last) := inferInstance
        exact (hend.safe (hp.trans hkept')).mono fun _ _ h => hkept'.trans h
    simpa only [bind_assoc] using hall

theorem guarded_cmpxchgptr (old new addr tmp : Reg) (succeed : Label) {fail : Option Label} [KnownLabel F succeed]
    (hfail : ∀ l, fail = some l → KnownLabel F l) : Guarded F (cmpxchgptr old new addr tmp succeed fail) := by
  unfold cmpxchgptr
  cases fail with
  | none => exact guarded_swap old new addr tmp (pure ())
  | some l =>
    have : KnownLabel F l := hfail l rfl
    exact guarded_swap old new addr tmp (j l)

/-! ## Calls of the runtime -/

instance guarded_farCallAt (link tmp : Reg) (known : Bool) (rel : Int64) :
    Guarded F (farCallAt target link tmp known rel) := by
  unfold farCallAt
  infer_instance

instance guarded_farCall (link tmp : Reg) : Guarded F (farCall target link tmp) where
  safe hp := ⟨fun ht ha => by
    rw [farCall_eq]
    exact ((guarded_farCallAt ..).safe hp).ends ht ha⟩

theorem guarded_entryAddress (he : e ≠ .invalid) : Guarded F (entryAddress e) where
  safe _ := ⟨fun {t a} ht ha => by
    refine .inl ⟨(t.runtime.addr e, a), ?_, _, List.prefix_refl _, ha, rfl⟩
    rw [entryAddress_eq]
    refine lift_ok ?_
    rw [RuntimeEntries.address, if_neg (ht e he)]⟩

theorem guarded_rtCall (he : e ≠ .invalid) : Guarded F (rtCall e) :=
  have := guarded_entryAddress (F := F) he
  guarded_bind (entryAddress e) fun target => farCall target ra t0

theorem guarded_rtJump (he : e ≠ .invalid) : Guarded F (rtJump e) :=
  have := guarded_entryAddress (F := F) he
  guarded_bind (entryAddress e) fun target => farCall target zr t0

instance guarded_callAddress : Guarded F (call target) := guarded_farCall ..

instance guarded_throwDivZero : Guarded F (rtCall .throwDivZero) := guarded_rtCall (by decide)

instance guarded_safepointHandler : Guarded F (rtJump .safepointHandler) := guarded_rtJump (by decide)

/-! ## Frames -/

instance guarded_buildFrame (size : Int64) : Guarded F (buildFrame size) := by
  unfold buildFrame
  infer_instance

instance guarded_removeFrame (size : Int64) : Guarded F (removeFrame size) := by
  unfold removeFrame
  infer_instance

instance guarded_pushRegs (regs : List Reg) : Guarded F (pushRegs regs) := by
  unfold pushRegs
  dsimp only
  infer_instance

instance guarded_popRegs (regs : List Reg) : Guarded F (popRegs regs) := by
  unfold popRegs
  dsimp only
  infer_instance

instance guarded_setLastJavaFrame (lastSp lastFp : Reg) (pc : Label) [KnownLabel F pc] (tmp : Reg) :
    Guarded F (setLastJavaFrame lastSp lastFp pc tmp) := by
  unfold setLastJavaFrame
  infer_instance

instance guarded_resetLastJavaFrame (clearFp : Bool) : Guarded F (resetLastJavaFrame clearFp) := by
  unfold resetLastJavaFrame
  infer_instance

instance guarded_storeThreadState (state : Int64) : Guarded F (storeThreadState state) := by
  unfold storeThreadState
  infer_instance

instance guarded_safepointPoll [KnownLabel F slow] : Guarded F (safepointPoll slow) := by
  unfold safepointPoll
  infer_instance

/-! ## Locks -/

instance guarded_noteMark (r : LockRegs) [KnownLabel F slow] : Guarded F (noteMark r slow) := by
  unfold noteMark
  infer_instance

instance guarded_tellOwn (r : LockRegs) [KnownLabel F slow] : Guarded F (tellOwn r slow) := by
  unfold tellOwn
  infer_instance

instance guarded_fastLock (r : LockRegs) [hslow : KnownLabel F slow] : Guarded F (fastLock r slow) := by
  rw [fastLock_eq]
  refine guarded_ownLabel _ (pure ()) (fun F' done hp hdone => ?_) inferInstance
  have := hslow.extend hp
  have : Guarded F' (cmpxchgptr r.hdr r.lock r.obj r.scratch done none) := guarded_cmpxchgptr _ _ _ _ _ nofun
  infer_instance

instance guarded_fastUnlock (r : LockRegs) [hslow : KnownLabel F slow] : Guarded F (fastUnlock r slow) := by
  rw [fastUnlock_eq]
  refine guarded_ownLabel _ (pure ()) (fun F' done hp hdone => ?_) inferInstance
  have : Guarded F' (cmpxchgptr r.scratch r.hdr r.obj t0 done (some slow)) := guarded_cmpxchgptr _ _ _ _ _ fun l h => by
    cases h
    exact hslow.extend hp
  infer_instance

end Asm

end RiscvJit
