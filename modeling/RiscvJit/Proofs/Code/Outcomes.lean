import RiscvJit.Proofs.Code.Lawful

/-
  RiscvJit.Proofs.Code.Outcomes — work whose outcome does not depend on what was written before.

  `Yields x Q` says that the work ends with a result of a sort, whatever it is run on, and `Refuses x e`
  that it always stops with the fault. Constants and addresses of integer registers always go through,
  and so do stores to any offset whose scratch register is none of their operands. A store that asks for
  a float register refuses an integer register.
-/

namespace RiscvJit

/-! ## Work with a known outcome -/

section
variable {σ α β : Type}

/-- The work ends with a result of this sort, whatever it is run on. -/
def Yields (x : ReaderT Target (StateT σ (Except Fault)) α) (Q : α → Prop) : Prop :=
  ∀ t s, ∃ r s', x t s = .ok (r, s') ∧ Q r

/-- The work stops with the fault, whatever it is run on. -/
def Refuses (x : ReaderT Target (StateT σ (Except Fault)) α) (e : Fault) : Prop := ∀ t s, x t s = .error e

variable {x : ReaderT Target (StateT σ (Except Fault)) α} {f : α → ReaderT Target (StateT σ (Except Fault)) β}
  {P : α → Prop} {Q : β → Prop} {e : Fault}

theorem bind_result {t : Target} {s s' : σ} {r : α} (h : x t s = .ok (r, s')) : (x >>= f) t s = f r t s' := by
  show (x t s >>= fun p => f p.1 t p.2) = _
  rw [h]
  rfl

theorem Yields.bind (hx : Yields x P) (hf : ∀ r, P r → Yields (f r) Q) : Yields (x >>= f) Q := by
  intro t s
  obtain ⟨r, s', hr, hp⟩ := hx t s
  rw [bind_result hr]
  exact hf r hp t s'

theorem Yields.refuses (hx : Yields x P) (hf : ∀ r, P r → Refuses (f r) e) : Refuses (x >>= f) e := by
  intro t s
  obtain ⟨r, s', hr, hp⟩ := hx t s
  rw [bind_result hr]
  exact hf r hp t s'

theorem yields_pure {r : β} (h : Q r) : Yields (pure r : ReaderT Target (StateT σ (Except Fault)) β) Q :=
  fun _ s => ⟨r, s, rfl, h⟩

theorem yields_ite {c : Prop} [Decidable c] {x y : ReaderT Target (StateT σ (Except Fault)) β} (hx : c → Yields x Q)
    (hy : ¬c → Yields y Q) : Yields (if c then x else y) Q := by
  split
  · exact hx ‹_›
  · exact hy ‹_›

end

namespace Asm

variable {rd rs rs1 rs2 src base tmp : Reg} {o : Op} {imm off : Int64}

/-- The work goes through. -/
abbrev Passes (x : Asm Unit) : Prop := Yields x fun _ => True

theorem yields_lift {α : Type} {c : Except Fault α} {r : α} {Q : α → Prop} (h : c = .ok r) (hq : Q r) :
    Yields (liftM c : Asm α) Q := by
  subst h
  exact fun _ s => ⟨r, s, rfl, hq⟩

theorem yields_check {b : Bool} {what : Unit → String} (h : b = true) : Passes (liftM (check b what)) :=
  yields_lift (r := ()) (check_eq_ok.mpr h) trivial

/-! ### Single instructions -/

theorem checkClass_ok {c : RegClass} {r : Reg} {what : String} (h : c.Allows r) : checkClass o r c what = .ok () := by
  unfold checkClass
  cases c with
  | none => rfl
  | int => exact check_eq_ok.mpr h
  | float => exact check_eq_ok.mpr h

theorem passes_emit {aqrl : UInt32} (hd : o.info.rd.Allows rd) (h1 : o.info.rs1.Allows rs1) (h2 : o.info.rs2.Allows rs2) :
    Passes (emit o rd rs1 rs2 imm aqrl) := fun _ s => by
  have hcheck : checkClasses o rd rs1 rs2 = .ok () := by
    rw [checkClasses, checkClass_ok hd, checkClass_ok h1, checkClass_ok h2]
    rfl
  exact ⟨(), _, emit_eq_ok.mpr ⟨hcheck, rfl⟩, trivial⟩

theorem passes_checkImm12 {what : String} (h : isImm12 imm = true) : Passes (liftM (checkImm12 what imm)) :=
  yields_check h

theorem passes_ri (hd : o.info.rd.Allows rd) (h1 : o.info.rs1.Allows rs) (h2 : o.info.rs2 = .none)
    (h : isImm12 imm = true) :
    Passes (ri o rd rs imm) :=
  (passes_checkImm12 h).bind fun _ _ => passes_emit hd h1 (by rw [h2]; trivial)

theorem passes_store (hs : o.info.rs2.Allows src) (hb : o.info.rs1.Allows base) (hd : o.info.rd = .none)
    (h : isImm12 off = true) :
    Passes (store o src base off) :=
  (passes_checkImm12 h).bind fun _ _ => passes_emit (by rw [hd]; trivial) hb hs

/-! ### Constants and addresses -/

section
variable (hd : rd.isInt = true)
include hd

theorem passes_lui : Passes (lui rd imm) := passes_emit hd trivial trivial

theorem passes_slli (hs : rs.isInt = true) : Passes (slli rd rs imm) := passes_emit hd hs trivial

theorem passes_addi (hs : rs.isInt = true) (h : isImm12 imm = true) : Passes (addi rd rs imm) := passes_ri hd hs rfl h

theorem passes_constStep {s : ConstStep} (hs : s.Fits) : Passes (constStep rd s) := by
  cases s with
  | lui imm => exact passes_lui hd
  | start imm => exact passes_ri hd rfl rfl hs
  | addiw imm => exact passes_ri hd hd rfl hs
  | slli n => exact passes_slli hd hd
  | addi imm => exact passes_addi hd hd hs

theorem passes_constSteps (ss : List ConstStep) (hs : ∀ s ∈ ss, s.Fits) : Passes (ss.forM (constStep rd)) := by
  induction ss with
  | nil => exact yields_pure trivial
  | cons s ss ih =>
    exact (passes_constStep hd (hs s List.mem_cons_self)).bind fun _ _ => ih fun s hs' =>
      hs s (List.mem_cons_of_mem _ hs')

theorem passes_li : Passes (li rd imm) := passes_constSteps hd _ (fits_rounds _ _)

theorem passes_movptr {addr : UInt64} (h : addr.toNat < 2 ^ 47) : Passes (movptr rd addr) := by
  refine Yields.bind (P := fun lo => isImm12 lo = true) ?_ fun lo hlo => passes_addi hd hd hlo
  refine (yields_check (pointer_fits h)).bind fun _ _ => ?_
  refine (passes_lui hd).bind fun _ _ => (passes_addi hd hd (isImm12_low12 _)).bind fun _ _ => ?_
  refine (passes_slli hd hd).bind fun _ _ => (passes_addi hd hd (short_pointerMiddle h).fits).bind fun _ _ => ?_
  exact (passes_slli hd hd).bind fun _ _ => yields_pure (short_pointerEnd h).fits

theorem passes_mv (hs : rs.isInt = true) : Passes (mv rd rs) := by
  have hfile : ¬rd.isFloat = true := by cases rd <;> first | exact Bool.false_ne_true | cases hd
  unfold mv
  refine yields_ite (fun _ => yields_pure trivial) fun _ => ?_
  rw [if_neg hfile]
  exact passes_addi hd hs (by decide)

theorem passes_add (h1 : rs1.isInt = true) (h2 : rs2.isInt = true) : Passes (add rd rs1 rs2) := passes_emit hd h1 h2

end

theorem passes_storeOff (hs : o.info.rs2.Allows src) (hi : o.info.rs1 = .int) (hd : o.info.rd = .none)
    (hb : base.isInt = true)
    (ht : tmp.isInt = true) (hne : tmp ≠ base) (hne' : tmp ≠ src) : Passes (storeOff o src base off tmp) := by
  unfold storeOff
  refine yields_ite (fun h => passes_store hs (by rw [hi]; exact hb) hd h) fun _ => ?_
  refine (yields_check (by simp [hne, hne'])).bind fun _ _ => (passes_li ht).bind fun _ _ =>
    (passes_add ht ht hb).bind fun _ _ => ?_
  exact passes_store hs (by rw [hi]; exact ht) hd (isImm12_low12 _)

/-- Every address made of integer registers has a base and a short displacement. -/
theorem yields_legitimize {a : Address} (hb : a.base.isInt = true) (hi : a.hasIndex = true → a.index.isInt = true) :
    Yields (legitimize a) fun p => p.1.isInt = true ∧ isImm12 p.2 = true := by
  unfold legitimize
  refine Yields.bind (P := fun b => b.isInt = true) ?_ fun b hbase => ?_
  · unfold indexedBase
    refine yields_ite (fun h => ?_) fun _ => yields_pure hb
    refine yields_ite (fun _ => (passes_add rfl hb (hi h)).bind fun _ _ => yields_pure rfl) fun _ => ?_
    exact (passes_slli rfl (hi h)).bind fun _ _ => (passes_add rfl hb rfl).bind fun _ _ => yields_pure rfl
  · refine yields_ite (fun h => yields_pure ⟨hbase, h⟩) fun _ => yields_ite (fun _ => ?_) fun _ => ?_
    · exact (passes_li rfl).bind fun _ _ => (passes_add rfl rfl rfl).bind fun _ _ => yields_pure ⟨rfl, isImm12_low12 _⟩
    · exact (passes_li rfl).bind fun _ _ => (passes_add rfl rfl hbase).bind fun _ _ => yields_pure ⟨rfl, isImm12_low12 _⟩

/-! ### Stores that ask for a float register -/

/-- What an instruction says of an integer register in the place of a float register. -/
def notFloat (o : Op) (r : Reg) : Fault := .precondition ("rs2 of " ++ o.name ++
  " must be a float register, got " ++ r.name)

theorem refuses_store (hf : o.info.rs2 = .float) (hs : src.isFloat = false) (hi : o.info.rs1 = .int)
    (hd : o.info.rd = .none)
    (hb : base.isInt = true) (h : isImm12 off = true) : Refuses (store o src base off) (notFloat o src) := by
  refine (passes_checkImm12 h).refuses fun _ _ t s => ?_
  have hcheck : checkClasses o .none base src = .error (notFloat o src) := by
    rw [checkClasses, hd, hi, hf, checkClass_ok (c := .none) trivial, checkClass_ok (c := .int) hb]
    show checkClass o src .float "rs2" = _
    rw [checkClass, check, hs, if_neg Bool.false_ne_true]
    rfl
  show (emit o .none base src off 0) t s = _
  unfold emit
  rw [hcheck]
  rfl

theorem refuses_storeOff (hf : o.info.rs2 = .float) (hs : src.isFloat = false) (hi : o.info.rs1 = .int)
    (hd : o.info.rd = .none)
    (hb : base.isInt = true) (ht : tmp.isInt = true) (hne : tmp ≠ base) (hne' : tmp ≠ src) :
    Refuses (storeOff o src base off tmp) (notFloat o src) := by
  unfold storeOff
  split
  case isTrue h => exact refuses_store hf hs hi hd hb h
  case isFalse =>
    refine (yields_check (by simp [hne, hne'])).refuses fun _ _ => (passes_li ht).refuses fun _ _ => ?_
    exact (passes_add ht ht hb).refuses fun _ _ => refuses_store hf hs hi hd ht (isImm12_low12 _)

end Asm

end RiscvJit
