import Mathlib.Data.List.Forall2
import RiscvJit.Proofs.Lower.Placed

/-
  RiscvJit.Proofs.Lower.ReservedRegisters — which operands lowering lets through.

  Before an instruction is lowered its inputs, temporaries and result are checked, and the check says
  exactly this (`checkOperands_eq_ok`): none of them names a reserved register, but that an input and
  a temporary may be zr, and that an address may start at the stack pointer or the thread.

  The operands of a payload are not looked at. Their own lowering asks them to be integer registers
  and to be different from each other (`dispatch_payload`), no more; so a profiled type may be kept in
  a register that the profile itself works with.
-/

namespace RiscvJit

open Reg (zr sp t0 thread)
open Operand
open Lower

/-- The operand may be used: a register that is not reserved, zr, or an address made of such. -/
def Operand.Admitted : Operand → Prop
  | .register _ r _ | .floatRegister _ r => r = zr ∨ r.isReserved = false
  | .memory _ a => (a.base = sp ∨ a.base = thread ∨ a.base.isReserved = false) ∧
    (a.hasIndex = true → a.index.isReserved = false)
  | _ => True

/-- The operands of an instruction that is not refused. -/
structure Instruction.Admitted (i : Instruction) : Prop where
  inputs : ∀ o ∈ i.inputs, o.Admitted
  temporaries : ∀ o ∈ i.tmp, o.Admitted
  result : i.result.Admitted
  kept : i.result.reg ≠ .ok zr

theorem Instruction.Admitted.input {i : Instruction} {o : Operand} {n : Nat} (h : i.Admitted)
    (hin : i.inputs[n]? = some o) : o.Admitted := h.inputs _ (List.mem_of_getElem? hin)

theorem Instruction.Admitted.keeps {i : Instruction} {k : ValueKind} {rd hi : Reg} (h : i.Admitted)
    (hres : i.result = .register k rd hi) (hrd : rd ≠ .none) : Machine.Keeps rd :=
  ⟨fun e => h.kept (by rw [hres, e]; rfl), hrd⟩

/-- The operands that the code of an instruction works with and that stand in its payload. -/
def Instruction.payloadOperands (i : Instruction) : List Operand :=
  match i.op with
  | .instanceOf | .checkCast => (i.typeCheck.map fun c => [c.tmp1, c.tmp2]).getD []
  | .storeCheck => (i.typeCheck.map fun c => [c.tmp1, c.tmp2, c.tmp3]).getD []
  | .profileType => (i.typeProfile.map fun p => [p.tmp]).getD []
  | .lock | .unlock => (i.lock.map fun l => [l.obj, l.lock, l.hdr, l.scratch]).getD []
  | .allocObject => (i.alloc.map fun a => [a.klass, a.tmp1, a.tmp2]).getD []
  | .allocArray => (i.alloc.map fun a => [a.klass, a.len, a.tmp1, a.tmp2]).getD []
  | _ => []

/-! ## What is checked of every operand -/

theorem except_unit_bind {ε : Type} {x : Except ε Unit} {f : Unit → Except ε Unit} :
    (x >>= f) = .ok () ↔ x = .ok () ∧ f () = .ok () :=
  except_bind_eq_ok.trans ⟨fun ⟨_, h, h'⟩ => ⟨h, h'⟩, fun ⟨h, h'⟩ => ⟨(), h, h'⟩⟩

theorem forM_unit_eq_ok {α : Type} {f : α → Except Fault Unit} (xs : List α) :
    xs.forM f = .ok () ↔ ∀ x ∈ xs, f x = .ok () := by
  induction xs with
  | nil => exact ⟨fun _ => nofun, fun _ => rfl⟩
  | cons x xs ih =>
    show (f x >>= fun _ => xs.forM f) = .ok () ↔ _
    rw [except_unit_bind, ih, List.forall_mem_cons]

namespace Lower

variable {what : String} {o : Operand}

theorem checkOperand_eq_ok {op : Opcode} : checkOperand op what o = .ok () ↔ o.Admitted := by
  cases o with
  | register k r hi => simp [checkOperand, check_eq_ok, Admitted]
  | floatRegister k r => simp [checkOperand, check_eq_ok, Admitted]
  | memory k a =>
    rw [checkOperand, except_unit_bind, check_eq_ok, Admitted]
    by_cases hindex : a.hasIndex
    · simp [hindex, check_eq_ok, or_assoc]
    · simp [hindex, or_assoc, pure, Except.pure]
  | _ => simp [checkOperand, Admitted]

/-- The result is not zr, and then the rest of the check follows. -/
theorem resultKept_eq_ok {w : String} {k : Except Fault Unit} :
    (if o.isRegister then o.reg >>= fun r => check (r ≠ zr) (fun _ => w) >>= fun _ => k else k) = .ok () ↔
      o.reg ≠ .ok zr ∧ k = .ok () := by
  cases o with
  | register _ r hi =>
    show (check (decide (r ≠ zr)) _ >>= fun _ => k) = .ok () ↔ _
    rw [except_unit_bind, check_eq_ok]
    simp [Operand.reg]
  | floatRegister _ r =>
    show (check (decide (r ≠ zr)) _ >>= fun _ => k) = .ok () ↔ _
    rw [except_unit_bind, check_eq_ok]
    simp [Operand.reg]
  | _ => simp [isRegister, Operand.reg, misuse]

theorem checkOperands_eq_ok {i : Instruction} : checkOperands i = .ok () ↔ i.Admitted := by
  rw [checkOperands, except_unit_bind, except_unit_bind, forM_unit_eq_ok, forM_unit_eq_ok]
  simp only [checkOperand_eq_ok]
  have hresult := resultKept_eq_ok (o := i.result) (w := "result of " ++ i.op.name ++ " written to zr")
    (k := checkOperand i.op "result" i.result)
  rw [checkOperand_eq_ok] at hresult
  exact ⟨fun ⟨hin, htmp, h⟩ => ⟨hin, htmp, (hresult.mp h).2, (hresult.mp h).1⟩,
    fun h => ⟨h.inputs, h.temporaries, hresult.mpr ⟨h.kept, h.result⟩⟩⟩

/-! ## What is checked of the operands of a payload -/

/-- The operand is this integer register. -/
def InReg (o : Operand) (r : Reg) : Prop := o.isIntRegister = true ∧ o.reg = .ok r

/-- The operands are integer registers, and all of them different. -/
def Apart (os : List Operand) : Prop := ∃ rs, List.Forall₂ InReg os rs ∧ rs.Nodup

theorem inReg_of_reg {r : Reg} (h : reg o what = .ok r) : InReg o r := by
  obtain ⟨_, hint, hreg⟩ := except_bind_eq_ok.mp h
  exact ⟨check_eq_ok.mp hint, hreg⟩

theorem not_mem_of_apart {r : Reg} {rs : List Reg} (h : apart what r rs = .ok ()) : r ∉ rs := by
  induction rs with
  | nil => exact List.not_mem_nil
  | cons r' rs ih =>
    obtain ⟨_, hne, hrest⟩ := except_bind_eq_ok.mp h
    exact fun hmem => (List.mem_cons.mp hmem).elim (by simpa using check_eq_ok.mp hne) (ih hrest)

theorem nodup_of_distinct {rs : List Reg} (h : distinct what rs = .ok ()) : rs.Nodup := by
  induction rs with
  | nil => exact List.nodup_nil
  | cons r rs ih =>
    obtain ⟨_, hr, hrest⟩ := except_bind_eq_ok.mp h
    exact List.nodup_cons.mpr ⟨not_mem_of_apart hr, ih hrest⟩

/-- A payload that has to be there is the one that is there. -/
theorem payload_eq_ok {α : Type} {x : Option α} {a : α} : payload x = .ok a ↔ x = some a := by
  cases x <;> simp [payload]

section
variable {t : Target} {s s' : Lowering} {i : Instruction} {r : Unit}

theorem apart_of_typeCheck {obj : Reg} {tc : TypeCheck} {onNull success failure : Label}
    (h : typeCheck obj tc onNull success failure t s = .ok (r, s')) : Apart [tc.tmp1, tc.tmp2] := by
  obtain ⟨super, hsuper, h⟩ := lift_bind_eq_ok.mp h
  obtain ⟨sub, hsub, h⟩ := lift_bind_eq_ok.mp h
  obtain ⟨_, hdistinct, h⟩ := lift_bind_eq_ok.mp h
  exact ⟨[super, sub], .cons (inReg_of_reg hsuper) (.cons (inReg_of_reg hsub) .nil),
    (nodup_of_distinct hdistinct).of_cons⟩

theorem apart_of_lockOperands {l : LockInfo} {what : String} {regs : LockRegs} (h : lockOperands l what = .ok regs) :
    Apart [l.obj, l.lock, l.hdr, l.scratch] := by
  obtain ⟨obj, hobj, h⟩ := except_bind_eq_ok.mp h
  obtain ⟨lock, hlock, h⟩ := except_bind_eq_ok.mp h
  obtain ⟨hdr, hhdr, h⟩ := except_bind_eq_ok.mp h
  obtain ⟨scratch, hscratch, h⟩ := except_bind_eq_ok.mp h
  obtain ⟨_, hdistinct, -⟩ := except_bind_eq_ok.mp h
  exact ⟨[obj, lock, hdr, scratch], .cons (inReg_of_reg hobj) (.cons (inReg_of_reg hlock) (.cons (inReg_of_reg hhdr)
    (.cons (inReg_of_reg hscratch) .nil))), nodup_of_distinct hdistinct⟩

theorem apart_of_instanceOf (h : instanceOf i t s = .ok (r, s')) : ∃ c, i.typeCheck = some c ∧
    Apart [c.tmp1, c.tmp2] := by
  obtain ⟨_, -, h⟩ := lift_bind_eq_ok.mp h
  obtain ⟨_, -, h⟩ := lift_bind_eq_ok.mp h
  obtain ⟨_, -, h⟩ := lift_bind_eq_ok.mp h
  obtain ⟨success, s1, -, h⟩ := bind_eq_ok.mp h
  obtain ⟨failure, s2, -, h⟩ := bind_eq_ok.mp h
  obtain ⟨done, s3, -, h⟩ := bind_eq_ok.mp h
  obtain ⟨c, hc, h⟩ := lift_bind_eq_ok.mp h
  obtain ⟨_, s4, hcheck, -⟩ := bind_eq_ok.mp h
  exact ⟨c, payload_eq_ok.mp hc, apart_of_typeCheck hcheck⟩

theorem apart_of_checkCast (h : checkCast i t s = .ok (r, s')) : ∃ c, i.typeCheck = some c ∧ Apart [c.tmp1, c.tmp2] := by
  obtain ⟨_, -, h⟩ := lift_bind_eq_ok.mp h
  obtain ⟨_, -, h⟩ := lift_bind_eq_ok.mp h
  obtain ⟨_, -, h⟩ := lift_bind_eq_ok.mp h
  obtain ⟨entry, s1, -, h⟩ := bind_eq_ok.mp h
  obtain ⟨_, s2, -, h⟩ := bind_eq_ok.mp h
  obtain ⟨success, s3, -, h⟩ := bind_eq_ok.mp h
  obtain ⟨c, hc, h⟩ := lift_bind_eq_ok.mp h
  obtain ⟨_, s4, hcheck, -⟩ := bind_eq_ok.mp h
  exact ⟨c, payload_eq_ok.mp hc, apart_of_typeCheck hcheck⟩

theorem apart_of_storeCheck (h : storeCheck i t s = .ok (r, s')) :
    ∃ c, i.typeCheck = some c ∧ Apart [c.tmp1, c.tmp2, c.tmp3] := by
  obtain ⟨_, -, h⟩ := lift_bind_eq_ok.mp h
  obtain ⟨_, -, h⟩ := lift_bind_eq_ok.mp h
  obtain ⟨_, -, h⟩ := lift_bind_eq_ok.mp h
  obtain ⟨_, -, h⟩ := lift_bind_eq_ok.mp h
  obtain ⟨c, hc, h⟩ := lift_bind_eq_ok.mp h
  obtain ⟨_, -, h⟩ := lift_bind_eq_ok.mp h
  obtain ⟨elem, helem, h⟩ := lift_bind_eq_ok.mp h
  obtain ⟨sub, hsub, h⟩ := lift_bind_eq_ok.mp h
  obtain ⟨tmp, htmp, h⟩ := lift_bind_eq_ok.mp h
  obtain ⟨_, hdistinct, -⟩ := lift_bind_eq_ok.mp h
  exact ⟨c, payload_eq_ok.mp hc, [elem, sub, tmp], .cons (inReg_of_reg helem) (.cons (inReg_of_reg hsub)
    (.cons (inReg_of_reg htmp) .nil)), (nodup_of_distinct hdistinct).of_cons.of_cons⟩

theorem apart_of_profileType (h : profileType i t s = .ok (r, s')) : ∃ p, i.typeProfile = some p ∧ Apart [p.tmp] := by
  obtain ⟨_, -, h⟩ := lift_bind_eq_ok.mp h
  obtain ⟨_, -, h⟩ := lift_bind_eq_ok.mp h
  obtain ⟨p, hp, h⟩ := lift_bind_eq_ok.mp h
  obtain ⟨tmp, htmp, -⟩ := lift_bind_eq_ok.mp h
  exact ⟨p, payload_eq_ok.mp hp, [tmp], .cons (inReg_of_reg htmp) .nil, by simp⟩

theorem apart_of_lock (h : lock i t s = .ok (r, s')) :
    ∃ l, i.lock = some l ∧ Apart [l.obj, l.lock, l.hdr, l.scratch] := by
  obtain ⟨l, hl, h⟩ := lift_bind_eq_ok.mp h
  obtain ⟨regs, hregs, -⟩ := lift_bind_eq_ok.mp h
  exact ⟨l, payload_eq_ok.mp hl, apart_of_lockOperands hregs⟩

theorem apart_of_unlock (h : unlock i t s = .ok (r, s')) :
    ∃ l, i.lock = some l ∧ Apart [l.obj, l.lock, l.hdr, l.scratch] := by
  obtain ⟨l, hl, h⟩ := lift_bind_eq_ok.mp h
  obtain ⟨regs, hregs, -⟩ := lift_bind_eq_ok.mp h
  exact ⟨l, payload_eq_ok.mp hl, apart_of_lockOperands hregs⟩

theorem apart_of_allocObject (h : allocObject i t s = .ok (r, s')) :
    ∃ a, i.alloc = some a ∧ Apart [a.klass, a.tmp1, a.tmp2] := by
  obtain ⟨_, -, h⟩ := lift_bind_eq_ok.mp h
  obtain ⟨a, ha, h⟩ := lift_bind_eq_ok.mp h
  obtain ⟨klass, hklass, h⟩ := lift_bind_eq_ok.mp h
  obtain ⟨tmp1, htmp1, h⟩ := lift_bind_eq_ok.mp h
  obtain ⟨tmp2, htmp2, h⟩ := lift_bind_eq_ok.mp h
  obtain ⟨_, hdistinct, -⟩ := lift_bind_eq_ok.mp h
  exact ⟨a, payload_eq_ok.mp ha, [klass, tmp1, tmp2], .cons (inReg_of_reg hklass) (.cons (inReg_of_reg htmp1)
    (.cons (inReg_of_reg htmp2) .nil)), (nodup_of_distinct hdistinct).of_cons⟩

theorem apart_of_allocArray (h : allocArray i t s = .ok (r, s')) :
    ∃ a, i.alloc = some a ∧ Apart [a.klass, a.len, a.tmp1, a.tmp2] := by
  obtain ⟨_, -, h⟩ := lift_bind_eq_ok.mp h
  obtain ⟨a, ha, h⟩ := lift_bind_eq_ok.mp h
  obtain ⟨klass, hklass, h⟩ := lift_bind_eq_ok.mp h
  obtain ⟨length, hlength, h⟩ := lift_bind_eq_ok.mp h
  obtain ⟨tmp1, htmp1, h⟩ := lift_bind_eq_ok.mp h
  obtain ⟨tmp2, htmp2, h⟩ := lift_bind_eq_ok.mp h
  obtain ⟨_, hdistinct, -⟩ := lift_bind_eq_ok.mp h
  exact ⟨a, payload_eq_ok.mp ha, [klass, length, tmp1, tmp2], .cons (inReg_of_reg hklass) (.cons (inReg_of_reg hlength)
    (.cons (inReg_of_reg htmp1) (.cons (inReg_of_reg htmp2) .nil))), (nodup_of_distinct hdistinct).of_cons⟩

/-- The operands of a payload are different integer registers. -/
theorem dispatch_payload (h : dispatch i t s = .ok (r, s')) : Apart i.payloadOperands := by
  rw [dispatch.eq_def] at h
  unfold Instruction.payloadOperands
  cases hop : i.op <;> simp only [hop] at h ⊢
  case instanceOf =>
    obtain ⟨c, hc, happart⟩ := apart_of_instanceOf h
    rwa [hc]
  case checkCast =>
    obtain ⟨c, hc, happart⟩ := apart_of_checkCast h
    rwa [hc]
  case storeCheck =>
    obtain ⟨c, hc, happart⟩ := apart_of_storeCheck h
    rwa [hc]
  case profileType =>
    obtain ⟨c, hc, happart⟩ := apart_of_profileType h
    rwa [hc]
  case lock =>
    obtain ⟨c, hc, happart⟩ := apart_of_lock h
    rwa [hc]
  case unlock =>
    obtain ⟨c, hc, happart⟩ := apart_of_unlock h
    rwa [hc]
  case allocObject =>
    obtain ⟨c, hc, happart⟩ := apart_of_allocObject h
    rwa [hc]
  case allocArray =>
    obtain ⟨c, hc, happart⟩ := apart_of_allocArray h
    rwa [hc]
  all_goals exact ⟨[], .nil, List.nodup_nil⟩

end

end Lower

/-! ## Lowered instructions -/

/-- What is known of the registers that the code of an instruction writes: the result, the
temporaries and the operands of the payload. -/
structure Instruction.Screened (i : Instruction) : Prop where
  result : ∀ r, i.result.reg = .ok r → r.isReserved = false
  temporaries : ∀ o ∈ i.tmp, ∀ r, o.reg = .ok r → r = zr ∨ r.isReserved = false
  payload : Lower.Apart i.payloadOperands

/-- The register of an operand that may be used. -/
theorem Operand.Admitted.reg {o : Operand} (h : o.Admitted) {r : Reg} (hr : o.reg = .ok r) :
    r = zr ∨ r.isReserved = false := by
  cases o with
  | register k lo hi =>
    cases hr
    exact h
  | floatRegister k f =>
    cases hr
    exact h
  | _ => cases hr

theorem Lower.instruction_screened {t : Target} {s s' : Lowering} {i : Instruction}
    (h : instruction i t s = .ok ((), s')) : i.Screened := by
  obtain ⟨_, hchecked, hdispatch⟩ := lift_bind_eq_ok.mp h
  have hadmitted := checkOperands_eq_ok.mp hchecked
  refine ⟨fun r hr => ?_, fun o ho r hr => (hadmitted.temporaries o ho).reg hr, dispatch_payload hdispatch⟩
  rcases hadmitted.result.reg hr with rfl | hfree
  · exact absurd hr hadmitted.kept
  · exact hfree

/-- Whatever an instruction is lowered after, and whether or not the method is compiled in the end, its
result is no reserved register and its temporaries are none but zr. In a compiled method this holds of
every instruction. -/
theorem lowered_registers_are_screened (t : Target) :
    (∀ i s s', instruction i t s = .ok ((), s') → i.Screened) ∧
      ∀ (p : Program) base c, p.compile t base = .ok c → ∀ i ∈ p.code, i.Screened := by
  refine ⟨fun i s s' h => instruction_screened h, fun p base c h i hi => ?_⟩
  obtain ⟨k, hk⟩ := Array.getElem?_of_mem hi
  obtain ⟨_, _, _, _, -, hplaced⟩ := compile_placed h hk
  exact instruction_screened hplaced.lowered

/-- A method that profiles the object in x10, with a temporary. -/
def profiler (tmp : Reg) : Program where
  name := "p"
  frameSize := 32
  code := #[
    { op := .profileType, inputs := [.register .object (.x 10) .none],
      typeProfile := some ⟨0x1000, 0, 0, true, .register .long tmp .none⟩ },
    { op := .ret }]

theorem profiler_screened : ∃ c, (profiler (.x 11)).compile ⟨{}, .empty⟩ 0 = .ok c ∧
    ∀ i ∈ (profiler (.x 11)).code, i.Screened := by
  have hcompiles : ((profiler (.x 11)).compile ⟨{}, .empty⟩ 0).toBool = true := by decide +kernel
  cases hc : (profiler (.x 11)).compile ⟨{}, .empty⟩ 0 with
  | error e =>
    rw [hc] at hcompiles
    cases hcompiles
  | ok c => exact ⟨c, rfl, (lowered_registers_are_screened ⟨{}, .empty⟩).2 _ _ c hc⟩

/-- The temporary may be the register that the profile loads the cell into. The type is then compared with
itself, and no type is ever recorded. -/
theorem profiles_in_a_reserved_register : ∃ c, (profiler t0).compile ⟨{}, .empty⟩ 0 = .ok c ∧
    ∃ i ∈ (profiler t0).code, ∃ o ∈ i.payloadOperands, ∃ r, InReg o r ∧ r.isReserved = true := by
  have hcompiles : ((profiler t0).compile ⟨{}, .empty⟩ 0).toBool = true := by decide +kernel
  cases hc : (profiler t0).compile ⟨{}, .empty⟩ 0 with
  | error e =>
    rw [hc] at hcompiles
    cases hcompiles
  | ok c =>
    have hmem : (profiler t0).code[0] ∈ (profiler t0).code := Array.getElem_mem (by decide)
    exact ⟨c, rfl, _, hmem, _, List.mem_singleton.mpr rfl, t0, ⟨rfl, rfl⟩, by decide⟩

end RiscvJit
