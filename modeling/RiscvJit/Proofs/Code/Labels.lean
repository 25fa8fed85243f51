import RiscvJit.Proofs.Code.Layout
import RiscvJit.Proofs.Code.Run

/-
  RiscvJit.Proofs.Code.Labels — what one call does to the code and its references.

  A `Call` is one thing asked of an assembler: an instruction, a branch or jump to a label,
  the address of a label, a new label, or the binding of one. `Layout.after` says what it adds
  to the layout. Then

    - one call takes an assembler that holds a layout to one that holds the next, or fails it
      for the reason why it cannot (`Call.run_holds`); a failed one stays failed
      (`Call.run_failed`);
    - a conditional branch is one piece when its label is near and two when it is far, and the
      second pair is the negated branch over a jump (`bcond_near`, `bcond_far`).
-/

namespace RiscvJit

open Asm (emit checkClasses checkClass jal_ok la_ok bind_ok j emit_ok)
open CodeBuffer
open Layout
open Op

/-- The branch that is taken exactly when the other is not. -/
def Op.negated : Op → Op
  | .beq => .bne
  | .bne => .beq
  | .blt => .bge
  | .bge => .blt
  | .bltu => .bgeu
  | .bgeu => .bltu
  | o => o

variable {o : Op}

theorem Op.branch_cases (h : o.info.format = .branch) :
    o = .beq ∨ o = .bne ∨ o = .blt ∨ o = .bge ∨ o = .bltu ∨ o = .bgeu := by
  cases o <;> first | exact absurd h (by decide) | simp

theorem negateBranch_eq (h : o.info.format = .branch) : Asm.negateBranch o = .ok o.negated := by
  rcases branch_cases h with rfl | rfl | rfl | rfl | rfl | rfl <;> rfl

theorem format_negated (h : o.info.format = .branch) : o.negated.info.format = .branch := by
  rcases branch_cases h with rfl | rfl | rfl | rfl | rfl | rfl <;> rfl

theorem taken_negated (h : o.info.format = .branch) (a b : UInt64) : o.negated.taken a b = !o.taken a b := by
  rcases branch_cases h with rfl | rfl | rfl | rfl | rfl | rfl <;>
    simp [negated, taken, ← Int64.not_lt, ← UInt64.not_lt]

theorem branch_classes (h : o.info.format = .branch) : o.info.rd = .none ∧ o.info.rs1 = .int ∧ o.info.rs2 = .int := by
  rcases branch_cases h with rfl | rfl | rfl | rfl | rfl | rfl <;> exact ⟨rfl, rfl, rfl⟩

/-! ## Calls -/

/-- What is asked of an assembler. -/
inductive Call where
  | plain (o : Op) (rd rs1 rs2 : Reg) (imm : Int64) (aqrl : UInt32)
  | branch (o : Op) (rs1 rs2 : Reg) (l : Label)
  | bcond (o : Op) (rs1 rs2 : Reg) (l : Label)
  | jal (rd : Reg) (l : Label)
  | la (rd : Reg) (l : Label)
  | newLabel
  | bind (l : Label)
  deriving DecidableEq, Repr

/-- The work of a call. -/
def Call.run : Call → Asm Unit
  | .plain o rd rs1 rs2 imm aqrl => emit o rd rs1 rs2 imm aqrl
  | .branch o rs1 rs2 l => Asm.branch o rs1 rs2 l
  | .bcond o rs1 rs2 l => Asm.bcond o rs1 rs2 l
  | .jal rd l => Asm.jal rd l
  | .la rd l => Asm.la rd l
  | .newLabel => do let _ ← Asm.newLabel
  | .bind l => Asm.bind l

/-- The work of several calls. -/
def runAll : List Call → Asm Unit
  | [] => return
  | c :: rest => do
    c.run
    runAll rest

namespace Layout

/-- The label is bound near enough for a branch. -/
def near (L : Layout) (l : Nat) : Bool :=
  match L.mark l with
  | some m => fitsSigned 13 (gap m L.pieces.length)
  | none => false

/-- The layout after a call. -/
def after (L : Layout) : Call → Layout
  | .plain o rd rs1 rs2 imm aqrl => L.write [.word (o.encode rd rs1 rs2 imm aqrl)]
  | .branch o rs1 rs2 l => L.write [.branch o rs1 rs2 l]
  | .bcond o rs1 rs2 l =>
    if L.near l then L.write [.branch o rs1 rs2 l]
    else L.write [.word (o.negated.encode .none rs1 rs2 8 0), .jump .zr l]
  | .jal rd l => L.write [.jump rd l]
  | .la rd l => L.write [.high rd l, .low rd l]
  | .newLabel => L.fresh
  | .bind l => L.place l

/-- The layout after several calls. -/
def afterAll (L : Layout) (calls : List Call) : Layout := calls.foldl after L

/-- The call may be made: its registers are of the right files, its label was handed out, and a
label is bound only once. -/
def Legal (L : Layout) : Call → Prop
  | .plain o rd rs1 rs2 _ _ => checkClasses o rd rs1 rs2 = .ok ()
  | .branch o rs1 rs2 l | .bcond o rs1 rs2 l =>
    o.info.format = .branch ∧ rs1.isInt = true ∧ rs2.isInt = true ∧ L.Known l
  | .jal rd l | .la rd l => rd.isInt = true ∧ L.Known l
  | .newLabel => True
  | .bind l => L.Known l ∧ L.mark l = none

/-- The calls may be made one after the other. -/
def LegalAll (L : Layout) : List Call → Prop
  | [] => True
  | c :: rest => L.Legal c ∧ (L.after c).LegalAll rest

/-- Why the first of the calls that cannot be held fails. -/
def firstFault? (capacity : Nat) (L : Layout) : List Call → Option String
  | [] => none
  | c :: rest => match (L.after c).fault? capacity with
    | some reason => some reason
    | none => firstFault? capacity (L.after c) rest

end Layout

/-! ## One call -/

section
variable {L : Layout} {a : Assembler} {t : Target}

variable {o : Op} {rs1 rs2 rd : Reg} {l : Nat}

theorem check_branch (ho : o.info.format = .branch) (h1 : rs1.isInt = true) (h2 : rs2.isInt = true) :
    checkClasses o .none rs1 rs2 = .ok () := by
  obtain ⟨e, e1, e2⟩ := branch_classes ho
  rw [checkClasses, e, e1, e2, checkClass, checkClass, checkClass, h1, h2]
  rfl

theorem check_jal (h : rd.isInt = true) : checkClasses .jal rd .none .none = .ok () := by
  rw [checkClasses, show Op.jal.info.rd = .int from rfl, checkClass, h]
  rfl

theorem check_auipc (h : rd.isInt = true) : checkClasses .auipc rd .none .none = .ok () := by
  rw [checkClasses, show auipc.info.rd = .int from rfl, checkClass, h]
  rfl

theorem check_addi (h : rd.isInt = true) : checkClasses .addi rd rd .none = .ok () := by
  rw [checkClasses, show addi.info.rd = .int from rfl, show addi.info.rs1 = .int from rfl, checkClass,
    checkClass, h]
  rfl

theorem spells_emit (h : Holds L a) (w : UInt32) (hroom : 4 * (L.pieces.length + 1) ≤ a.buf.capacity) :
    (a.buf.emit4 w).Spells (L.words ++ [w]) :=
  h.spells.emit4 (by rw [length_words]; exact hroom) w

theorem overflow_emit (h : Holds L a) (w : UInt32) (hroom : a.buf.capacity < 4 * (L.pieces.length + 1)) :
    (a.buf.emit4 w).failure = codeOverflow := by
  have := h.offset
  rw [emit4_overflow h.spells.working (by omega)]

theorem Holds.refer_one (h : Holds L a) {p : Piece} {u : LabelUse} (hl : L.Known l)
    (hr : Reference [p] L.pieces.length l u) (hformed : Formed (L.pieces ++ [p])) :
    ∃ a', ({ a with buf := a.buf.emit4 (p.encode 0) } : Assembler).refer l u = .ok a' ∧
      a'.buf.capacity = a.buf.capacity ∧ Settles (L.write [p]) a' ∧ Tracks (L.write [p]) a' :=
  h.refer hl hr hformed (emit4_capacity _ _) (spells_emit h _) (overflow_emit h _)

theorem Holds.branch (h : Holds L a) (ho : o.info.format = .branch) (h1 : rs1.isInt = true) (h2 : rs2.isInt = true)
    (hl : L.Known l) :
    ∃ a', Asm.branch o rs1 rs2 l t a = .ok ((), a') ∧ a'.buf.capacity = a.buf.capacity ∧
      Settles (L.write [.branch o rs1 rs2 l]) a' ∧ Tracks (L.write [.branch o rs1 rs2 l]) a' := by
  have hformed : Formed (L.pieces ++ [Piece.branch o rs1 rs2 l]) :=
    formed_one h.sound.formed ⟨ho, h1, h2⟩ nofun nofun
  obtain ⟨a', hrefer, rest⟩ := h.refer_one hl (reference_one rfl rfl) hformed
  refine ⟨a', Asm.branch_ok (check_branch ho h1 h2) ?_, rest⟩
  rw [h.offset]
  exact hrefer

theorem Holds.jal (h : Holds L a) (hd : rd.isInt = true) (hl : L.Known l) :
    ∃ a', Asm.jal rd l t a = .ok ((), a') ∧ a'.buf.capacity = a.buf.capacity ∧
      Settles (L.write [.jump rd l]) a' ∧ Tracks (L.write [.jump rd l]) a' := by
  have hformed : Formed (L.pieces ++ [Piece.jump rd l]) := formed_one h.sound.formed hd nofun nofun
  obtain ⟨a', hrefer, rest⟩ := h.refer_one hl (reference_one rfl rfl) hformed
  refine ⟨a', jal_ok (check_jal hd) ?_, rest⟩
  rw [h.offset]
  exact hrefer

theorem Holds.la (h : Holds L a) (hd : rd.isInt = true) (hl : L.Known l) :
    ∃ a', Asm.la rd l t a = .ok ((), a') ∧ a'.buf.capacity = a.buf.capacity ∧
      Settles (L.write [.high rd l, .low rd l]) a' ∧ Tracks (L.write [.high rd l, .low rd l]) a' := by
  have fits : 4 * (L.pieces.length + 2) ≤ a.buf.capacity →
      ((a.buf.emit4 (auipc.encode rd .none .none 0 0)).emit4 (addi.encode rd rd .none 0 0)).Spells
        (L.words ++ [auipc.encode rd .none .none 0 0, addi.encode rd rd .none 0 0]) := by
    intro hroom
    have first := spells_emit h (auipc.encode rd .none .none 0 0) (by omega)
    have second := first.emit4 (by
      rw [emit4_capacity, List.length_append, length_words]
      exact hroom) (addi.encode rd rd .none 0 0)
    rwa [List.append_assoc] at second
  have overflows : a.buf.capacity < 4 * (L.pieces.length + 2) →
      ((a.buf.emit4 (auipc.encode rd .none .none 0 0)).emit4 (addi.encode rd rd .none 0 0)).failure =
        codeOverflow := by
    intro hroom
    by_cases hone : a.buf.capacity < 4 * (L.pieces.length + 1)
    · have hfail := overflow_emit h (auipc.encode rd .none .none 0 0) hone
      rw [emit4_failed (by rw [failed, hfail]; decide)]
      exact hfail
    · have first := spells_emit h (auipc.encode rd .none .none 0 0) (by omega)
      have hoff := first.offset
      rw [List.length_append, length_words] at hoff
      have hoff : (a.buf.emit4 (auipc.encode rd .none .none 0 0)).offset = 4 * (L.pieces.length + 1) := hoff
      rw [emit4_overflow first.working (by rw [hoff, emit4_capacity]; omega)]
  obtain ⟨a', hrefer, rest⟩ := h.refer hl (reference_address rd l _) (formed_address h.sound.formed hd l)
    (by rw [emit4_capacity, emit4_capacity]) fits overflows
  refine ⟨a', la_ok (check_auipc hd) (check_addi hd) ?_, rest⟩
  rw [h.offset]
  exact hrefer

theorem Holds.isNear (h : Holds L a) (hl : L.Known l) : Asm.isNear l t a = .ok (L.near l, a) := by
  rw [Asm.isNear_ok (h.label hl), h.offset]
  unfold near
  cases L.mark l <;> rfl

/-! ## One call on a failed assembler -/

theorem Tracks.refer (h : Tracks L a) (hl : L.Known l) (hf : a.buf.failed = true) (u : LabelUse) (ps : List Piece) :
    ∃ a', a.refer l u = .ok a' ∧ a'.buf = a.buf ∧ Tracks (L.write ps) a' := by
  obtain ⟨s, hs, hb⟩ := h.label hl
  simp only [Assembler.refer, hs, bind, Except.bind]
  cases s.position? with
  | none => exact ⟨_, rfl, rfl, by refine tracks_setLabel h hs ?_ a.buf; rfl⟩
  | some pos =>
    show ∃ a', (Assembler.patchUse a.buf u pos >>= fun buf => pure { a with buf }) = Except.ok a' ∧ _
    rw [patchUse_failed hf]
    exact ⟨_, rfl, rfl, h⟩

theorem Tracks.bind (h : Tracks L a) (hl : L.Known l) (hm : L.mark l = none) (hf : a.buf.failed = true) :
    ∃ a', a.bind l = .ok a' ∧ a'.buf = a.buf ∧ Tracks (L.place l) a' := by
  obtain ⟨s, hs, hb⟩ := h.label hl
  rw [hm] at hb
  unfold Assembler.bind
  rw [hs]
  show ∃ a', (s.bind (Int64.ofNat a.buf.offset) >>= fun x => _) = Except.ok a' ∧ _
  rw [LabelState.bind, hb]
  show ∃ a', (s.uses.foldlM (fun b u => Assembler.patchUse b u (Int64.ofNat a.buf.offset)) a.buf >>=
    fun buf => pure { a with
      buf, lastBind := some a.buf.offset,
      labels := a.labels.setIfInBounds (l - 1) { position? := some (Int64.ofNat a.buf.offset) } }) = .ok a' ∧ _
  rw [← Array.foldlM_toList, patchUses_failed hf]
  exact ⟨_, rfl, rfl, tracks_place h hl⟩

theorem Tracks.branch (h : Tracks L a) (ho : o.info.format = .branch) (h1 : rs1.isInt = true) (h2 : rs2.isInt = true)
    (hl : L.Known l) (hf : a.buf.failed = true) (ps : List Piece) :
    ∃ a', Asm.branch o rs1 rs2 l t a = .ok ((), a') ∧ a'.buf = a.buf ∧ Tracks (L.write ps) a' := by
  obtain ⟨a', hrefer, rest⟩ := h.refer hl hf ⟨Int64.ofNat a.buf.offset, 0⟩ ps
  refine ⟨a', Asm.branch_ok (check_branch ho h1 h2) ?_, rest⟩
  rw [emit4_failed hf]
  exact hrefer

theorem Tracks.jal (h : Tracks L a) (hd : rd.isInt = true) (hl : L.Known l) (hf : a.buf.failed = true) (ps : List Piece) :
    ∃ a', Asm.jal rd l t a = .ok ((), a') ∧ a'.buf = a.buf ∧ Tracks (L.write ps) a' := by
  obtain ⟨a', hrefer, rest⟩ := h.refer hl hf ⟨Int64.ofNat a.buf.offset, 1⟩ ps
  refine ⟨a', jal_ok (check_jal hd) ?_, rest⟩
  rw [emit4_failed hf]
  exact hrefer

theorem Tracks.la (h : Tracks L a) (hd : rd.isInt = true) (hl : L.Known l) (hf : a.buf.failed = true) (ps : List Piece) :
    ∃ a', Asm.la rd l t a = .ok ((), a') ∧ a'.buf = a.buf ∧ Tracks (L.write ps) a' := by
  obtain ⟨a', hrefer, rest⟩ := h.refer hl hf ⟨Int64.ofNat a.buf.offset, 2⟩ ps
  refine ⟨a', la_ok (check_auipc hd) (check_addi hd) ?_, rest⟩
  rw [emit4_failed hf, emit4_failed hf]
  exact hrefer

theorem bcond_near (h : Asm.isNear l t a = .ok (true, a)) : Asm.bcond o rs1 rs2 l t a = Asm.branch o rs1 rs2 l t a := by
  unfold Asm.bcond
  rw [bind_ok h]
  rfl

theorem bcond_far (ho : o.info.format = .branch) (h1 : rs1.isInt = true) (h2 : rs2.isInt = true)
    (h : Asm.isNear l t a = .ok (false, a)) :
    Asm.bcond o rs1 rs2 l t a =
      Asm.jal .zr l t { a with buf := a.buf.emit4 (o.negated.encode .none rs1 rs2 8 0) } := by
  unfold Asm.bcond
  rw [bind_ok h]
  show (liftM (Asm.negateBranch o) >>= fun o' => emit o' .none rs1 rs2 8 0 >>= fun _ => j l : Asm Unit) t a = _
  rw [bind_ok (Asm.lift_ok (negateBranch_eq ho)), bind_ok (emit_ok (check_branch (format_negated ho) h1 h2) 8 0)]

theorem Call.run_failed (h : Tracks L a) (hf : a.buf.failed = true) {c : Call} (hc : L.Legal c) :
    ∃ a', c.run t a = .ok ((), a') ∧ a'.buf = a.buf ∧ Tracks (L.after c) a' := by
  cases c with
  | plain o rd rs1 rs2 imm aqrl =>
    refine ⟨_, emit_ok hc imm aqrl, ?_, h⟩
    rw [emit4_failed hf]
  | branch o rs1 rs2 l =>
    obtain ⟨ho, h1, h2, hl⟩ := hc
    exact h.branch ho h1 h2 hl hf _
  | bcond o rs1 rs2 l =>
    obtain ⟨ho, h1, h2, hl⟩ := hc
    obtain ⟨s, hs, _⟩ := h.label hl
    obtain ⟨isNear, hnear⟩ : ∃ b, Asm.isNear l t a = .ok (b, a) := ⟨_, Asm.isNear_ok hs⟩
    -- whichever form is chosen, the labels of the layout are the same
    have either : ∀ L', L'.marks = L.marks → ∃ a', Asm.bcond o rs1 rs2 l t a = .ok ((), a') ∧ a'.buf = a.buf ∧
        Tracks L' a' := by
      intro L' hmarks
      have same : ∀ {a'}, Tracks (L.write []) a' → Tracks L' a' := by
        intro a' ht
        unfold Tracks at ht ⊢
        rw [hmarks]
        exact ht
      cases isNear with
      | true =>
        obtain ⟨a', hrun, hbuf, ht⟩ := h.branch (t := t) ho h1 h2 hl hf []
        exact ⟨a', (bcond_near hnear).trans hrun, hbuf, same ht⟩
      | false =>
        obtain ⟨a', hrun, hbuf, ht⟩ := h.jal (t := t) (show Reg.zr.isInt = true from rfl) hl hf []
        refine ⟨a', ?_, hbuf, same ht⟩
        rw [bcond_far ho h1 h2 hnear, emit4_failed hf]
        exact hrun
    refine either _ ?_
    show (if L.near l then _ else _ : Layout).marks = _
    split <;> rfl
  | jal rd l => exact h.jal hc.1 hc.2 hf _
  | la rd l => exact h.la hc.1 hc.2 hf _
  | newLabel => exact ⟨_, rfl, rfl, h.newLabel⟩
  | bind l =>
    obtain ⟨a', hbind, rest⟩ := h.bind hc.1 hc.2 hf
    exact ⟨a', Asm.change_ok (t := t) (f := (·.bind l)) hbind, rest⟩

/-! ## One call on a working assembler -/

theorem failed_of_fault {reason : String} (h : L.fault? a.buf.capacity = some reason) (hs : Settles L a) :
    a.buf.failure = reason ∧ a.buf.failed = true := by
  unfold Settles at hs
  rw [h] at hs
  refine ⟨hs, ?_⟩
  have hreason : reason = codeOverflow ∨ reason = branchOutOfRange := by
    unfold fault? at h
    split at h
    · exact .inl (Option.some.inj h).symm
    · split at h
      · cases h
      · exact .inr (Option.some.inj h).symm
  rw [failed, hs]
  rcases hreason with rfl | rfl <;> decide

theorem write_write (ps qs : List Piece) : (L.write ps).write qs = L.write (ps ++ qs) := by
  simp [Layout.write]

/-- The opposite branch over a jump. -/
theorem Holds.far (h : Holds L a) (ho : o.info.format = .branch) (h1 : rs1.isInt = true) (h2 : rs2.isInt = true)
    (hl : L.Known l) (hnear : L.near l = false) :
    ∃ a', Asm.bcond o rs1 rs2 l t a = .ok ((), a') ∧ a'.buf.capacity = a.buf.capacity ∧
      Settles (L.write [.word (o.negated.encode .none rs1 rs2 8 0), .jump .zr l]) a' ∧
      Tracks (L.write [.word (o.negated.encode .none rs1 rs2 8 0), .jump .zr l]) a' := by
  have isNear := h.isNear (t := t) hl
  rw [hnear] at isNear
  rw [bcond_far ho h1 h2 isNear]
  have first := h.emit (o.negated.encode .none rs1 rs2 8 0)
  have hcap := emit4_capacity a.buf (o.negated.encode .none rs1 rs2 8 0)
  generalize o.negated.encode .none rs1 rs2 8 0 = w at first hcap ⊢
  rw [show [Piece.word w, .jump .zr l] = [Piece.word w] ++ [.jump .zr l] from rfl, ← write_write]
  by_cases hroom : a.buf.capacity < 4 * (L.pieces.length + 1)
  · -- the branch does not fit, and neither does the jump after it
    have hlen : (L.write [.word w]).pieces.length = L.pieces.length + 1 := List.length_append
    have hfault : (L.write [.word w]).fault? (a.buf.emit4 w).capacity = some codeOverflow := by
      rw [fault?, if_pos (by omega)]
    obtain ⟨hfail, hfailed⟩ := failed_of_fault hfault first
    have tracked : Tracks (L.write [.word w]) { a with buf := a.buf.emit4 w } := tracks_write h.tracks (a.buf.emit4 w)
    obtain ⟨a', hrun, hbuf, ht⟩ := tracked.jal (t := t) (show Reg.zr.isInt = true from rfl) hl hfailed [.jump .zr l]
    refine ⟨a', hrun, by rw [hbuf]; exact hcap, ?_, ht⟩
    refine settles_overflow ?_ (by rw [hbuf]; exact hfail)
    rw [hbuf]
    show (a.buf.emit4 w).capacity < 4 * ((L.write [.word w]).pieces ++ [Piece.jump .zr l]).length
    rw [List.length_append]
    omega
  · have holds : Holds (L.write [.word w]) { a with buf := a.buf.emit4 w } := by
      unfold Settles at first
      have hfault : (L.write [.word w]).fault? (a.buf.emit4 w).capacity = none := by
        have hlen : (L.write [.word w]).pieces.length = L.pieces.length + 1 := List.length_append
        rw [fault?, if_neg (by omega), if_pos (reaches_word h.reaches w)]
      rw [show ({ a with buf := a.buf.emit4 w } : Assembler).buf.capacity = (a.buf.emit4 w).capacity from rfl,
        hfault] at first
      exact first
    obtain ⟨a', hrun, hcap', rest⟩ := holds.jal (t := t) (show Reg.zr.isInt = true from rfl) hl
    exact ⟨a', hrun, hcap'.trans hcap, rest⟩

/-- A call leads to the assembler of the next layout, or fails it for the reason why it cannot. -/
theorem Call.run_holds (h : Holds L a) {c : Call} (hc : L.Legal c) :
    ∃ a', c.run t a = .ok ((), a') ∧ a'.buf.capacity = a.buf.capacity ∧ Settles (L.after c) a' ∧
      Tracks (L.after c) a' := by
  cases c with
  | plain o rd rs1 rs2 imm aqrl =>
    exact ⟨_, emit_ok hc imm aqrl, emit4_capacity _ _, h.emit _, h.tracks⟩
  | branch o rs1 rs2 l =>
    obtain ⟨ho, h1, h2, hl⟩ := hc
    exact h.branch ho h1 h2 hl
  | bcond o rs1 rs2 l =>
    obtain ⟨ho, h1, h2, hl⟩ := hc
    have isNear := h.isNear (t := t) hl
    cases hnear : L.near l with
    | true =>
      rw [hnear] at isNear
      rw [show L.after (.bcond o rs1 rs2 l) = L.write [.branch o rs1 rs2 l] from if_pos hnear]
      show ∃ a', Asm.bcond o rs1 rs2 l t a = _ ∧ _
      rw [bcond_near isNear]
      exact h.branch ho h1 h2 hl
    | false =>
      rw [show L.after (.bcond o rs1 rs2 l) = _ from if_neg (by rw [hnear]; decide)]
      exact h.far ho h1 h2 hl hnear
  | jal rd l => exact h.jal hc.1 hc.2
  | la rd l => exact h.la hc.1 hc.2
  | newLabel => exact ⟨_, rfl, rfl, settles_holds h.newLabel.room h.newLabel.reaches h.newLabel, h.tracks.newLabel⟩
  | bind l =>
    obtain ⟨a', hbind, rest⟩ := h.bind hc.1 hc.2
    exact ⟨a', Asm.change_ok (t := t) (f := (·.bind l)) hbind, rest⟩

end

end RiscvJit
