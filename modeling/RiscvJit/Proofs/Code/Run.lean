import RiscvJit.Code.Assembler

/-
  RiscvJit.Proofs.Code.Run — what assembler work does, one statement at a time.

  Work that writes code takes a target and an assembler to a result and the next assembler, or
  stops with a fault. A sequence of statements ends normally when each does, in turn
  (`Asm.bind_eq_ok`), and a check ends normally when it holds (`Asm.lift_eq_ok`). The lemmas
  below run the statements that write single instructions.
-/

namespace RiscvJit

variable {ε α : Type} {x : Except ε α}

theorem except_map_ok {β : Type} {f : α → β} {r : β} (h : x.map f = .ok r) : ∃ q, x = .ok q ∧ f q = r := by
  cases x with
  | error e => cases h
  | ok q =>
    cases h
    exact ⟨q, rfl, rfl⟩

theorem except_bind_eq_ok {β : Type} {f : α → Except ε β} {r : β} : (x >>= f) = .ok r ↔ ∃ q, x = .ok q ∧ f q = .ok r := by
  cases x with
  | error e =>
    refine ⟨fun h => ?_, fun ⟨q, h, _⟩ => ?_⟩
    · cases h
    · cases h
  | ok p =>
    refine ⟨fun h => ⟨p, rfl, h⟩, fun ⟨q, h, h'⟩ => ?_⟩
    cases h
    exact h'

theorem any_toOption {p : α → Bool} (h : x.toOption.any p = true) : ∃ a, x = .ok a ∧ p a = true := by
  cases x with
  | error e => cases h
  | ok a => exact ⟨a, rfl, h⟩

namespace Asm

variable {α β : Type} {t : Target} {a a' : Assembler}

variable {r : α} {o : Op} {rd rs1 rs2 : Reg} {l : Label}

theorem bind_ok {x : Asm α} {f : α → Asm β} (h : x t a = .ok (r, a')) : (x >>= f) t a = f r t a' := by
  show (x t a >>= fun p => f p.1 t p.2) = _
  rw [h]
  rfl

theorem bind_eq_ok {x : Asm α} {f : α → Asm β} {s : β} :
    (x >>= f) t a = .ok (s, a') ↔ ∃ r b, x t a = .ok (r, b) ∧ f r t b = .ok (s, a') := by
  constructor
  · intro h
    cases hx : x t a with
    | error e =>
      have : (x >>= f) t a = .error e := by
        show (x t a >>= fun p => f p.1 t p.2) = _
        rw [hx]
        rfl
      rw [this] at h
      cases h
    | ok p => exact ⟨p.1, p.2, rfl, (bind_ok hx).symm.trans h⟩
  · rintro ⟨r, b, hx, hf⟩
    rw [bind_ok hx, hf]

theorem lift_ok {e : Except Fault α} (h : e = .ok r) : (liftM e : Asm α) t a = .ok (r, a) := by
  rw [h]
  rfl

theorem lift_eq_ok {e : Except Fault α} : (liftM e : Asm α) t a = .ok (r, a') ↔ e = .ok r ∧ a' = a := by
  constructor
  · intro h
    cases e with
    | error f => cases h
    | ok s => cases h; exact ⟨rfl, rfl⟩
  · rintro ⟨h, rfl⟩
    exact lift_ok h

theorem get_ok : (get : Asm Assembler) t a = .ok (a, a) := rfl

theorem pure_eq_ok {s : α} : (pure r : Asm α) t a = .ok (s, a') ↔ r = s ∧ a = a' := by
  show Except.ok (r, a) = Except.ok (s, a') ↔ _
  simp

theorem change_ok {f : Assembler → Except Fault Assembler} (h : f a = .ok a') : Asm.change f t a = .ok ((), a') := by
  rw [Asm.change, h]

theorem change_eq_ok {f : Assembler → Except Fault Assembler} : Asm.change f t a = .ok ((), a') ↔ f a = .ok a' := by
  constructor
  · intro h
    rw [Asm.change] at h
    cases hf : f a with
    | error e => rw [hf] at h; cases h
    | ok b => rw [hf] at h; cases h; rfl
  · exact change_ok

/-- Writing an instruction checks the files of its registers and appends its word. -/
theorem emit_eq_ok {imm : Int64} {aqrl : UInt32} :
    Asm.emit o rd rs1 rs2 imm aqrl t a = .ok ((), a') ↔ Asm.checkClasses o rd rs1 rs2 = .ok () ∧
      a' = { a with buf := a.buf.emit4 (o.encode rd rs1 rs2 imm aqrl) } := by
  unfold Asm.emit
  rw [bind_eq_ok]
  constructor
  · rintro ⟨r, b, hlift, hb⟩
    obtain ⟨hc, rfl⟩ := lift_eq_ok.mp hlift
    cases hb
    exact ⟨hc, rfl⟩
  · rintro ⟨hc, rfl⟩
    exact ⟨(), a, lift_ok hc, rfl⟩

theorem emit_ok (h : Asm.checkClasses o rd rs1 rs2 = .ok ()) (imm : Int64) (aqrl : UInt32) :
    Asm.emit o rd rs1 rs2 imm aqrl t a = .ok ((), { a with buf := a.buf.emit4 (o.encode rd rs1 rs2 imm aqrl) }) :=
  emit_eq_ok.mpr ⟨h, rfl⟩

/-- The offset is read before a reference is written, and the reference recorded after it. -/
theorem branch_ok (h : Asm.checkClasses o .none rs1 rs2 = .ok ())
    (hr : ({ a with buf := a.buf.emit4 (o.encode .none rs1 rs2 0 0) } : Assembler).refer l
      ⟨Int64.ofNat a.buf.offset, 0⟩ = .ok a') : Asm.branch o rs1 rs2 l t a = .ok ((), a') := by
  unfold Asm.branch
  rw [bind_ok (show Asm.offset t a = .ok (a.buf.offset, a) from rfl), bind_ok (emit_ok h 0 0)]
  exact change_ok hr

theorem jal_ok (h : Asm.checkClasses .jal rd .none .none = .ok ())
    (hr : ({ a with buf := a.buf.emit4 (Op.jal.encode rd .none .none 0 0) } : Assembler).refer l
      ⟨Int64.ofNat a.buf.offset, 1⟩ = .ok a') : Asm.jal rd l t a = .ok ((), a') := by
  unfold Asm.jal
  rw [bind_ok (show Asm.offset t a = .ok (a.buf.offset, a) from rfl), bind_ok (emit_ok h 0 0)]
  exact change_ok hr

theorem la_ok (h : Asm.checkClasses .auipc rd .none .none = .ok ()) (h' : Asm.checkClasses .addi rd rd .none = .ok ())
    (hr : ({ a with buf := (a.buf.emit4 (Op.auipc.encode rd .none .none 0 0)).emit4 (Op.addi.encode rd rd .none 0 0) } :
      Assembler).refer l ⟨Int64.ofNat a.buf.offset, 2⟩ = .ok a') : Asm.la rd l t a = .ok ((), a') := by
  unfold Asm.la Asm.auipc
  rw [bind_ok (show Asm.offset t a = .ok (a.buf.offset, a) from rfl), bind_ok (emit_ok h 0 0), bind_ok (emit_ok h' 0 0)]
  exact change_ok hr

theorem isNear_ok {s : LabelState} (h : a.label l = .ok s) :
    Asm.isNear l t a = .ok ((match s.position? with
      | some p => fitsSigned 13 (p - Int64.ofNat a.buf.offset)
      | none => false), a) := by
  unfold Asm.isNear
  rw [bind_ok get_ok, bind_ok (lift_ok h)]
  cases s.position? <;> rfl

end Asm

end RiscvJit
