import RiscvJit.Proofs.Code.Resolution
import RiscvJit.Proofs.Lower.Arithmetic

/-
  RiscvJit.Proofs.Lower.Control — the code of every instruction.

  `Ready L s`: lowering has written the layout `L`, and every label of the program that it used
  has a label of the assembler. `Translated` says what was written for an instruction:

    - a label is bound where the code stands;
    - a move or an operation is code that realizes its effect;
    - a jump is a jump to the label of its target, and a comparison is code that brings its
      operands into registers and a branch that is taken exactly when the condition holds;
    - a return is code that restores the caller's registers, and a jump to the return address.

  Lowering an instruction of the fragment writes such code (`instruction_writes`).

  The frame of a machine that enters a method lies below its stack pointer (`Machine.frame`). Its
  slots hold what memory held there, and its registers are the machine's own
  (`Machine.activation`). Building the frame leads to a machine that agrees with that activation
  (`buildFrame_agrees`); removing it from any machine that agrees with an activation gives the
  caller's return address, frame pointer and stack pointer back (`removeFrame_restores`).
-/

namespace RiscvJit

open Machine (Keeps)
open Lower

/-! ## Entering and leaving a method -/

/-- A frame below the stack pointer. -/
def Machine.frame (M : Machine) (size : Int64) (h : 16 ≤ size.toInt) : StackFrame where
  base := M.get .sp - size.toUInt64
  size := size.toInt.toNat
  room := by omega
  small := by
    have := size.toInt_lt
    omega

/-- The activation that a machine starts a method with. -/
def Machine.activation (M : Machine) (base : UInt64) : Activation where
  next := 0
  regs n := M.get (.x n)
  slots n := (M.mem.read (base + UInt64.ofNat (4 * n)) 4).toUInt32

section
variable {a a' : Assembler} {t : Target} {size : Int64}

theorem ofNat_sub_small {n k : Nat} (h : k ≤ n) : UInt64.ofNat (n - k) = UInt64.ofNat n - UInt64.ofNat k := by
  have e : UInt64.ofNat n = UInt64.ofNat (n - k) + UInt64.ofNat k := by
    rw [← UInt64.ofNat_add, Nat.sub_add_cancel h]
  rw [e, UInt64.add_sub_cancel]

theorem toUInt64_fromTop (h : 16 ≤ size.toInt) {k : Nat} (hk : k ≤ 16) :
    (size - Int64.ofNat k).toUInt64 = UInt64.ofNat (size.toInt.toNat - k) := by
  have e : size.toUInt64 = UInt64.ofNat size.toInt.toNat := by
    have : Int64.ofNat size.toInt.toNat = size := ofNat_eq_of_toInt (by omega)
    rw [← Int64.toUInt64_ofNat', this]
  rw [ofNat_sub_small (by omega), Int64.toUInt64_sub, Int64.toUInt64_ofNat', e]

/-- A frame that was built holds the activation that the machine starts with. -/
theorem buildFrame_agrees (hsize : 16 ≤ size.toInt) (h : Asm.buildFrame size t a = .ok ((), a')) :
    ∃ is, Wrote is a a' ∧ ∀ M : Machine, let F := M.frame size hsize
      ∃ m', Runs F.Contains is M m' ∧ Agrees F M (M.activation F.base) m' := by
  unfold Asm.buildFrame at h
  obtain ⟨_, a1, hsp, h⟩ := Asm.bind_eq_ok.mp h
  obtain ⟨_, a2, hra, h⟩ := Asm.bind_eq_ok.mp h
  obtain ⟨_, a3, hfp, hset⟩ := Asm.bind_eq_ok.mp h
  have ht0 : Keeps .t0 := by decide
  obtain ⟨is1, hw1, hp1⟩ := addImm_puts (show Keeps .sp by decide) ht0 hsp
  obtain ⟨is2, hw2, hs2⟩ := storeOff_stores rfl rfl ht0 hra
  obtain ⟨is3, hw3, hs3⟩ := storeOff_stores rfl rfl ht0 hfp
  obtain ⟨is4, hw4, hp4⟩ := addImm_puts (show Keeps .fp by decide) ht0 hset
  refine ⟨is1 ++ (is2 ++ (is3 ++ is4)), hw1.append (hw2.append (hw3.append hw4)), fun M => ?_⟩
  intro F
  have hroom : 16 ≤ F.size := F.room
  have hsmall := F.small
  have e8 : (size - 8).toUInt64 = UInt64.ofNat (F.size - 8) := toUInt64_fromTop hsize (k := 8) (by decide)
  have e16 : (size - 16).toUInt64 = UInt64.ofNat (F.size - 16) := toUInt64_fromTop hsize (k := 16) (by decide)
  obtain ⟨m1, hruns1, hput1⟩ := hp1 F.Contains M
  have hsp1 : m1.get .sp = F.base := by
    have hvalue : m1.get .sp = M.get .sp + (-size).toUInt64 := hput1.value
    rw [hvalue, Int64.toUInt64_neg, ← UInt64.sub_eq_add_neg]
    rfl
  have hs2 := hs2 F.Contains m1
  simp only [hsp1, e8] at hs2
  obtain ⟨m2, hruns2, hmem2, hrest2⟩ := hs2 (F.contains_at (by omega))
  have hsp2 : m2.get .sp = F.base := by rw [hrest2 _ (by decide), hsp1]
  have hs3 := hs3 F.Contains m2
  simp only [hsp2, e16] at hs3
  obtain ⟨m3, hruns3, hmem3, hrest3⟩ := hs3 (F.contains_at (by omega))
  obtain ⟨m4, hruns4, hput4⟩ := hp4 F.Contains m3
  refine ⟨m4, hruns1.append (hruns2.append (hruns3.append hruns4)), ?_⟩
  -- only the stack pointer, the frame pointer and a scratch register changed
  have hregs {r : Reg} (h0 : r ≠ .t0) (hsp : r ≠ .sp) (hfp : r ≠ .fp) : m4.get r = M.get r := by
    rw [hput4.rest r hfp (by simpa using h0), hrest3 r (by simpa using h0), hrest2 r (by simpa using h0),
      hput1.rest r hsp (by simpa using h0)]
  have hmem : m4.mem = (M.mem.write (F.base + UInt64.ofNat (F.size - 8)) 8 (M.get .ra)).write
      (F.base + UInt64.ofNat (F.size - 16)) 8 (M.get .fp) := by
    rw [hput4.mem, hmem3, hmem2, hput1.mem, hrest2 .fp (by decide), hput1.rest .fp (by decide) (by decide),
      hput1.rest .ra (by decide) (by decide)]
  refine ⟨fun n hn => ?_, ?_, fun n hn => ?_, ?_, ?_, fun addr haddr => ?_⟩
  · refine hregs ?_ ?_ ?_ <;> rintro e <;> rw [e] at hn <;> exact absurd hn (by decide)
  · rw [hput4.rest .sp (by decide) (by decide), hrest3 .sp (by decide), hsp2]
  · rw [hmem, Ram.read_write_apart _ _ _ (by omega),
      Ram.read_write_apart _ _ _ (by omega)]
    rfl
  · rw [hmem, Ram.read_write_apart _ _ _ (by omega), read_write_eight]
  · rw [hmem, read_write_eight]
  · rw [hmem, F.write_outside (by omega) _ _ haddr, F.write_outside (by omega) _ _ haddr]

/-- What the caller gets back. -/
structure Restored (M m m' : Machine) : Prop where
  ra : m'.get .ra = M.get .ra
  fp : m'.get .fp = M.get .fp
  sp : m'.get .sp = M.get .sp
  rest : ∀ r, r.isReserved = false → m'.get r = m.get r
  mem : m'.mem = m.mem

/-- Removing the frame restores what the method was entered with. -/
theorem removeFrame_restores (hsize : 16 ≤ size.toInt) (h : Asm.removeFrame size t a = .ok ((), a')) :
    ∃ is, Wrote is a a' ∧ ∀ (M : Machine) (σ : Activation) (m : Machine), let F := M.frame size hsize
      Agrees F M σ m → ∃ m', Runs F.Contains is m m' ∧ Restored M m m' := by
  unfold Asm.removeFrame at h
  obtain ⟨_, a1, hra, h⟩ := Asm.bind_eq_ok.mp h
  obtain ⟨_, a2, hfp, hsp⟩ := Asm.bind_eq_ok.mp h
  have ht0 : Keeps .t0 := by decide
  obtain ⟨is1, hw1, hp1⟩ := loadOff_puts rfl rfl (show Keeps .ra by decide) ht0 hra
  obtain ⟨is2, hw2, hp2⟩ := loadOff_puts rfl rfl (show Keeps .fp by decide) ht0 hfp
  obtain ⟨is3, hw3, hp3⟩ := addImm_puts (show Keeps .sp by decide) ht0 hsp
  refine ⟨is1 ++ (is2 ++ is3), hw1.append (hw2.append hw3), fun M σ m => ?_⟩
  intro F hagree
  have e8 : (size - 8).toUInt64 = UInt64.ofNat (F.size - 8) := toUInt64_fromTop hsize (k := 8) (by decide)
  have e16 : (size - 16).toUInt64 = UInt64.ofNat (F.size - 16) := toUInt64_fromTop hsize (k := 16) (by decide)
  obtain ⟨m1, hruns1, hput1⟩ := hp1 F.Contains m
  obtain ⟨m2, hruns2, hput2⟩ := hp2 F.Contains m1
  obtain ⟨m3, hruns3, hput3⟩ := hp3 F.Contains m2
  have hsp1 : m1.get .sp = F.base := by rw [hput1.rest .sp (by decide) (by decide), hagree.sp]
  refine ⟨m3, hruns1.append (hruns2.append hruns3), ?_, ?_, ?_, fun r hr => ?_, ?_⟩
  · have hvalue : m1.get .ra = m.mem.read (m.get .sp + (size - 8).toUInt64) 8 := hput1.value
    rw [hput3.rest .ra (by decide) (by decide), hput2.rest .ra (by decide) (by decide), hvalue, hagree.sp, e8]
    exact hagree.ra
  · have hvalue : m2.get .fp = m1.mem.read (m1.get .sp + (size - 16).toUInt64) 8 := hput2.value
    rw [hput3.rest .fp (by decide) (by decide), hvalue, hput1.mem, hsp1, e16]
    exact hagree.fp
  · have hvalue : m3.get .sp = m2.get .sp + size.toUInt64 := hput3.value
    rw [hvalue, hput2.rest .sp (by decide) (by decide), hsp1]
    exact UInt64.sub_add_cancel _ _
  · have hne {q : Reg} (hq : q.isReserved = true) : r ≠ q := Reg.ne_of_free hr hq
    have h0 : r ∉ [Reg.t0] := by simpa using hne (q := .t0) (by decide)
    rw [hput3.rest r (hne (by decide)) h0, hput2.rest r (hne (by decide)) h0, hput1.rest r (hne (by decide)) h0]
  · rw [hput3.mem, hput2.mem, hput1.mem]

end

/-! ## Conditions -/

theorem toInt_toInt64_sext (w : UInt32) : (sext w).toInt64.toInt = w.toInt32.toInt := by
  rw [sext, Int64.toInt64_toUInt64, Int32.toInt_toInt64]

/-- Without sign, a negative int comes after all others. -/
theorem toNat_sext (w : UInt32) : w.toNat < 2 ^ 31 ∧ (sext w).toNat = w.toNat ∨
    2 ^ 31 ≤ w.toNat ∧ (sext w).toNat = w.toNat + (2 ^ 64 - 2 ^ 32) := by
  have hword : w.toInt32.toInt = (w.toNat : Int).bmod (2 ^ 32) := by
    rw [← Int32.toInt_toBitVec, BitVec.toInt_eq_toNat_bmod]
    rfl
  have hlong : (sext w).toInt64.toInt % 2 ^ 64 = (sext w).toNat := toInt_emod_toNat _
  have hlt := w.toNat_lt
  rw [toInt_toInt64_sext, hword, Int.bmod_def] at hlong
  split at hlong <;> omega

variable {k : ValueKind}

theorem signedOf_eq {v : UInt64} (h : OfKind k v) : signedOf k v = v.toInt64.toInt := by
  unfold signedOf
  split
  · rename_i hk
    rw [← toInt_toInt64_sext, h hk]
  · rfl

theorem unsignedOf_le {a b : UInt64} (ha : OfKind k a) (hb : OfKind k b) : unsignedOf k a ≤ unsignedOf k b ↔ a ≤ b := by
  rw [UInt64.le_iff_toNat_le]
  unfold unsignedOf
  split
  · rename_i hk
    have ea := toNat_sext a.toUInt32
    have eb := toNat_sext b.toUInt32
    rw [ha hk] at ea
    rw [hb hk] at eb
    have := a.toUInt32.toNat_lt
    have := b.toUInt32.toNat_lt
    omega
  · rfl

theorem ofKind_compared {k k' : ValueKind} {v : UInt64} (h : OfKind k v ∨ OfKind k' v) :
    OfKind (comparedAs k k') v := by
  intro hk
  unfold comparedAs at hk
  split at hk
  · rename_i hints
    rcases h with h | h
    · exact h hints.1
    · exact h hints.2
  · cases hk

/-- The branch of a condition is taken exactly when the condition holds. -/
theorem branchOp_taken {c : Condition} {o : Op} {swapped : Bool} (h : branchOp? c = some (o, swapped)) {a b : UInt64}
    (ha : OfKind k a) (hb : OfKind k b) {r : Bool} (hr : c.holds? k a b = some r) :
    (if swapped then o.taken b a else o.taken a b) = r := by
  have heq : a.toInt64.toInt = b.toInt64.toInt ↔ a = b := by
    rw [Int64.toInt_inj]
    exact ⟨fun e => congrArg Int64.toUInt64 e, congrArg UInt64.toInt64⟩
  cases c with
  | eq | ne | lt | le | gt | ge =>
    cases h
    simp only [Condition.holds?, signedOf_eq ha, signedOf_eq hb, ne_eq, heq, Option.some.injEq] at hr
    simpa [Op.taken, Int64.lt_iff_toInt_lt, Int64.le_iff_toInt_le] using hr
  | be | ae =>
    cases h
    simp only [Condition.holds?, unsignedOf_le ha hb, unsignedOf_le hb ha, Option.some.injEq] at hr
    simpa [Op.taken] using hr
  | always => cases h
  | unknown n => cases h

theorem branchOp_format {c : Condition} {o : Op} {swapped : Bool} (h : branchOp? c = some (o, swapped)) :
    o.info.format = .branch := by
  cases c <;> cases h <;> rfl

/-! ## Operands that were checked -/

theorem forM_eq_ok {α : Type} {f : α → Except Fault Unit} {xs : List α} (h : xs.forM f = .ok ()) :
    ∀ x ∈ xs, f x = .ok () := by
  induction xs with
  | nil => exact nofun
  | cons x xs ih =>
    obtain ⟨_, hx, hrest⟩ := except_bind_eq_ok.mp h
    intro y hy
    rcases List.mem_cons.mp hy with rfl | hy
    · exact hx
    · exact ih hrest y hy

theorem checked_of {i : Instruction} (h : checkOperands i = .ok ()) : Checked i := by
  obtain ⟨_, hinputs, h⟩ := except_bind_eq_ok.mp h
  obtain ⟨_, -, h⟩ := except_bind_eq_ok.mp h
  refine ⟨forM_eq_ok hinputs, ?_⟩
  cases hres : i.result with
  | register k r hi =>
    rw [hres] at h
    obtain ⟨_, hreg, h⟩ := except_bind_eq_ok.mp h
    cases hreg
    obtain ⟨_, hzr, hallowed⟩ := except_bind_eq_ok.mp h
    have hne := check_eq_ok.mp hzr
    rcases allowed_register (k := k) (r := r) hallowed with hr | hfree
    · exact absurd hr (of_decide_eq_true hne)
    · exact hfree
  | _ => trivial

/-! ## Entry points -/

/-- The work records no entry point. -/
def Asm.KeepsEntries {α : Type} (x : Asm α) : Prop := ∀ t a r a', x t a = .ok (r, a') → a'.entries = a.entries

namespace Asm

variable {α β : Type}

theorem KeepsEntries.bind {x : Asm α} {f : α → Asm β} (hx : KeepsEntries x) (hf : ∀ r, KeepsEntries (f r)) :
    KeepsEntries (x >>= f) := by
  intro t a r a' h
  obtain ⟨q, a1, hq, h⟩ := Asm.bind_eq_ok.mp h
  exact (hf q t a1 r a' h).trans (hx t a q a1 hq)

theorem keepsEntries_lift (e : Except Fault α) : KeepsEntries (liftM e : Asm α) := by
  intro t a r a' h
  rw [(Asm.lift_eq_ok.mp h).2]

variable (o : Op) (l : Label)

theorem keepsEntries_emit (rd rs1 rs2 : Reg) (imm : Int64) (aqrl : UInt32) :
    KeepsEntries (Asm.emit o rd rs1 rs2 imm aqrl) := by
  intro t a r a' h
  rw [(Asm.emit_eq_ok.mp h).2]

theorem keepsEntries_offset : KeepsEntries Asm.offset := by
  intro t a r a' h
  cases h
  rfl

theorem keepsEntries_refer (off : Int64) (kind : UInt8) : KeepsEntries (Asm.refer l off kind) := by
  intro t a r a' h
  obtain ⟨s, hs, h⟩ := except_bind_eq_ok.mp (Asm.change_eq_ok.mp h)
  split at h
  · obtain ⟨b, -, h⟩ := except_bind_eq_ok.mp h
    cases h
    rfl
  · cases h
    rfl

theorem keepsEntries_bind : KeepsEntries (Asm.bind l) := by
  intro t a r a' h
  obtain ⟨s, -, h⟩ := except_bind_eq_ok.mp (Asm.change_eq_ok.mp h)
  obtain ⟨us, -, h⟩ := except_bind_eq_ok.mp h
  obtain ⟨b, -, h⟩ := except_bind_eq_ok.mp h
  cases h
  rfl

theorem keepsEntries_branch (rs1 rs2 : Reg) (l : Label) : KeepsEntries (Asm.branch o rs1 rs2 l) :=
  keepsEntries_offset.bind fun _ => (keepsEntries_emit o .none rs1 rs2 0 0).bind fun _ => keepsEntries_refer l _ 0

theorem keepsEntries_jal (rd : Reg) (l : Label) : KeepsEntries (Asm.jal rd l) :=
  keepsEntries_offset.bind fun _ => (keepsEntries_emit .jal rd .none .none 0 0).bind fun _ => keepsEntries_refer l _ 1

theorem keepsEntries_isNear : KeepsEntries (Asm.isNear l) := by
  refine KeepsEntries.bind ?_ fun a => (keepsEntries_lift _).bind fun s => ?_
  · intro t a r a' h
    cases h
    rfl
  · split <;> exact fun t a r a' h => by rw [(Asm.pure_eq_ok.mp h).2]

theorem keepsEntries_bcond (rs1 rs2 : Reg) (l : Label) : KeepsEntries (Asm.bcond o rs1 rs2 l) := by
  refine (keepsEntries_isNear l).bind fun near => ?_
  cases near with
  | true => exact keepsEntries_branch o rs1 rs2 l
  | false =>
    exact (keepsEntries_lift _).bind fun o' =>
      (keepsEntries_emit o' .none rs1 rs2 8 0).bind fun _ => keepsEntries_jal .zr l

end Asm

/-! ## Lowering that has written a layout -/

/-- Nothing waits to be written after the main code. -/
structure Quiet (s : Lowering) : Prop where
  slowPaths : s.slowPaths = #[]
  unwind : s.unwind = none

/-- Lowering has written the layout, and its labels have labels of the assembler. -/
structure Ready (L : Layout) (s : Lowering) : Prop where
  holds : Holds L s.asm
  known : ∀ id l, s.labels.lookup id = some l → L.Known l
  quiet : Quiet s

/-- The layout and the labels have only grown. -/
structure Extends (L : Layout) (s : Lowering) (L' : Layout) (s' : Lowering) : Prop where
  pieces : L.pieces <+: L'.pieces
  known : ∀ l, L.Known l → L'.Known l
  marks : ∀ l m, L.Known l → L.mark l = some m → L'.mark l = some m
  labels : ∀ id l, s.labels.lookup id = some l → s'.labels.lookup id = some l
  prog : s'.prog = s.prog
  entries : s'.asm.entries = s.asm.entries

section
variable {L L1 L' : Layout} {s s1 s' : Lowering} {t : Target}

theorem extends_refl (L : Layout) (s : Lowering) : Extends L s L s :=
  ⟨List.prefix_rfl, fun _ h => h, fun _ _ _ h => h, fun _ _ h => h, rfl, rfl⟩

theorem Extends.trans (h : Extends L s L1 s1) (h' : Extends L1 s1 L' s') : Extends L s L' s' where
  pieces := h.pieces.trans h'.pieces
  known l hl := h'.known l (h.known l hl)
  marks l m hl hm := h'.marks l m (h.known l hl) (h.marks l m hl hm)
  labels id l hl := h'.labels id l (h.labels id l hl)
  prog := h'.prog.trans h.prog
  entries := h'.entries.trans h.entries

theorem Lowered.quiet {is : List Inst} (h : Lowered is s s') (hq : Quiet s) : Quiet s' := by
  rw [h.same]
  exact ⟨hq.slowPaths, hq.unwind⟩

/-- Instructions were written, and the buffer did not fail. -/
theorem Ready.lowered (h : Ready L s) {is : List Inst} (hl : Lowered is s s') (hworking : s'.asm.buf.failed = false) :
    Ready (L.write (plain is)) s' ∧ Extends L s (L.write (plain is)) s' := by
  have hsame := hl.same
  refine ⟨⟨hl.wrote.holds h.holds hworking, fun id l hid => h.known id l ?_, hl.quiet h.quiet⟩,
    ⟨List.prefix_append _ _, fun _ hk => hk, fun _ _ _ hm => hm, fun id l hid => ?_, ?_, ?_⟩⟩
  · rwa [hsame] at hid
  · rwa [hsame]
  · rw [hsame]
  · rw [hl.wrote.code]

/-- A call that did not fail the buffer was made of one that works. -/
theorem Call.working {a a' : Assembler} (ht : Tracks L a) {c : Call} (hc : L.Legal c) (h : c.run t a = .ok ((), a'))
    (hworking : a'.buf.failed = false) : a.buf.failed = false := by
  cases hf : a.buf.failed with
  | false => rfl
  | true =>
    obtain ⟨b, hrun, hbuf, -⟩ := Call.run_failed (t := t) ht hf hc
    rw [h] at hrun
    cases hrun
    rw [hbuf, hf] at hworking
    cases hworking

/-- A call was made, and the buffer did not fail. -/
theorem Ready.call (h : Ready L s) {c : Call} (hc : L.Legal c) (hkeeps : Asm.KeepsEntries c.run) {a' : Assembler}
    (hrun : c.run t s.asm = .ok ((), a')) (hworking : a'.buf.failed = false) :
    Ready (L.after c) { s with asm := a' } ∧ Extends L s (L.after c) { s with asm := a' } := by
  obtain ⟨b, hb, -, hsettles, -⟩ := Call.run_holds (t := t) h.holds hc
  rw [hrun] at hb
  cases hb
  obtain ⟨ps, hps⟩ := pieces_after L c
  exact ⟨⟨holds_of_settles hsettles hworking, fun id l hid => known_after (h.known id l hid),
      ⟨h.quiet.slowPaths, h.quiet.unwind⟩⟩,
    ⟨⟨ps, hps.symm⟩, fun _ hk => known_after hk, fun _ _ hk hm => mark_after hc hk hm, fun _ _ hid => hid, rfl,
      hkeeps t _ _ _ hrun⟩⟩

/-- The label of the assembler for a label of the program, made when it is first used. -/
theorem Ready.label (h : Ready L s) {id : LabelId} {l : Label} (hrun : Lower.label id t s = .ok (l, s')) :
    ∃ L', Ready L' s' ∧ Extends L s L' s' ∧ L'.pieces = L.pieces ∧ s'.labels.lookup id = some l := by
  obtain ⟨s0, s1, hget, hrun⟩ := Lower.bind_eq_ok.mp hrun
  cases hget
  obtain ⟨_, hcheck, hrun⟩ := lift_bind_eq_ok.mp hrun
  cases hfound : s.labels.lookup id with
  | some l' =>
    rw [hfound] at hrun
    obtain ⟨rfl, rfl⟩ := Lower.pure_eq_ok.mp hrun
    exact ⟨L, h, extends_refl L s', rfl, hfound⟩
  | none =>
    rw [hfound] at hrun
    obtain ⟨l', s2, hnew, hrun⟩ := Lower.bind_eq_ok.mp hrun
    obtain ⟨a, ha, rfl⟩ := asm_eq_ok.mp hnew
    cases ha
    cases hrun
    have hsize : s.asm.labels.size = L.marks.length := by
      have := congrArg List.length h.holds.labels
      rwa [Layout.length_states, Array.length_toList] at this
    have hknown {l : Nat} (hl : L.Known l) : L.fresh.Known l := known_after (c := .newLabel) hl
    refine ⟨L.fresh, ⟨h.holds.newLabel, fun id' l hid => ?_, ⟨h.quiet.slowPaths, h.quiet.unwind⟩⟩,
      ⟨List.prefix_rfl, fun _ => hknown, fun l m _ hm => ?_, fun id' l hid => ?_, rfl, rfl⟩, rfl,
      List.lookup_cons_self⟩
    · rw [List.lookup_cons] at hid
      split at hid
      · cases hid
        refine ⟨Nat.succ_pos _, ?_⟩
        rw [hsize]
        simp [Layout.fresh]
      · exact hknown (h.known id' l hid)
    · rw [Layout.mark_fresh, hm]
    · have hne : (id' == id) = false := by
        rw [beq_eq_false_iff_ne]
        rintro rfl
        rw [hfound] at hid
        cases hid
      show List.lookup id' ((id, _) :: s.labels) = _
      rw [List.lookup_cons, hne]
      exact hid

end

/-! ## The code of an instruction -/

/-- Words that decode to their instructions. -/
def Valid (is : List Inst) : Prop := ∀ i ∈ is, decode i.word = some i

/-- Neither a label nor a jump. -/
def Opcode.isStraight (op : Opcode) : Prop := op ≠ .label ∧ op ≠ .branch ∧ op ≠ .cmpBranch ∧ op ≠ .ret

instance (op : Opcode) : Decidable op.isStraight := inferInstanceAs (Decidable (_ ∧ _))

/-- What an instruction that is no jump does to the activation. -/
def Instruction.effect (i : Instruction) (σ : Activation) : Option Activation :=
  if i.op = .nop then some σ else i.assigns σ

/-- The instructions bring the operands of a comparison into registers, and the branch on them is
taken exactly when the condition holds. -/
def Decides (frame : Int64) (is : List Inst) (o : Op) (r1 r2 : Reg) (i : Instruction) : Prop :=
  ∀ (F : StackFrame) (M : Machine), F.Fits frame → ∀ σ m b, Agrees F M σ m → σ.decides i = some b →
    ∃ m', Runs F.Contains is m m' ∧ Agrees F M σ m' ∧ o.taken (m'.get r1) (m'.get r2) = b

/-- The instructions give the caller's registers back. -/
def Leaves (frame : Int64) (is : List Inst) : Prop :=
  ∀ (h : 16 ≤ frame.toInt) (M : Machine) σ m, Agrees (M.frame frame h) M σ m →
    ∃ m', Runs (M.frame frame h).Contains is m m' ∧ Restored M m m'

/-- The jump to the return address. -/
def returnJump : Inst := Op.jalr.instOf .zr .ra .none 0 0 0

/-- What was written for an instruction after the layout `L`. -/
inductive Translated (frame : Int64) (labels : List (LabelId × Label)) (i : Instruction) (L L' : Layout) : Prop
  | label {l : Label} : i.op = .label → labels.lookup i.label = some l → L'.Known l →
      L'.mark l = some L.pieces.length → L'.pieces = L.pieces → Translated frame labels i L L'
  | straight {is : List Inst} : i.op.isStraight → Valid is → L'.pieces = L.pieces ++ plain is →
      Realizes frame is i.effect → Translated frame labels i L L'
  | jump {l : Label} : i.op = .branch ∨ i.op = .cmpBranch ∧ i.cond = .always → labels.lookup i.target = some l →
      L'.pieces = L.pieces ++ [Piece.jump .zr l] → Translated frame labels i L L'
  | branch {is : List Inst} {o : Op} {r1 r2 : Reg} {l : Label} {L1 : Layout} : i.op = .cmpBranch → Valid is →
      Decides frame is o r1 r2 i → labels.lookup i.target = some l → L1.pieces = L.pieces ++ plain is →
      L1.Legal (.bcond o r1 r2 l) → L'.pieces = (L1.after (.bcond o r1 r2 l)).pieces → Translated frame labels i L L'
  | ret {is : List Inst} : i.op = .ret → Valid (is ++ [returnJump]) → Leaves frame is →
      (∀ o, i.inputs[0]? = some o → ∃ k hi, o = Operand.register k (.x 10) hi) →
      L'.pieces = L.pieces ++ plain (is ++ [returnJump]) → Translated frame labels i L L'

/-- The labels of the program may have grown since. -/
theorem Translated.mono {frame : Int64} {labels labels' : List (LabelId × Label)} {i : Instruction} {L L' : Layout}
    (h : Translated frame labels i L L') (hlabels : ∀ id l, labels.lookup id = some l → labels'.lookup id = some l) :
    Translated frame labels' i L L' := by
  cases h with
  | label hop hl hknown hmark hpieces => exact .label hop (hlabels _ _ hl) hknown hmark hpieces
  | straight hop hvalid hpieces hrealizes => exact .straight hop hvalid hpieces hrealizes
  | jump hop hl hpieces => exact .jump hop (hlabels _ _ hl) hpieces
  | branch hop hvalid hdecides hl hpieces hlegal hpieces' =>
    exact .branch hop hvalid hdecides (hlabels _ _ hl) hpieces hlegal hpieces'
  | ret hop hvalid hleaves hresult hpieces => exact .ret hop hvalid hleaves hresult hpieces

/-! ## Lowering jumps -/

section
variable {L : Layout} {s s' : Lowering} {t : Target} {frame : Int64} {i : Instruction}

theorem SourceIn.ne_scratch {scratch r q : Reg} (h : SourceIn scratch r) (hq : q.isReserved = true) (hzr : q ≠ .zr)
    (hne : q ≠ scratch) : r ≠ q := by
  rintro rfl
  rcases h.2 with e | e | hfree
  · exact hne e
  · exact hzr e
  · exact Reg.ne_of_free hfree hq rfl

theorem decides_eq_some {σ : Activation} {b : Bool} (hcond : i.cond ≠ .always) {left right : Operand}
    (hleft : i.inputs[0]? = some left) (hright : i.inputs[1]? = some right) (h : σ.decides i = some b) :
    ∃ x y, σ.read left = some x ∧ σ.read right = some y ∧
      i.cond.holds? (comparedAs left.kind right.kind) x y = some b := by
  rw [Activation.decides, if_neg hcond, hleft, hright] at h
  have h : ((σ.read left).bind fun x => (σ.read right).bind fun y =>
      i.cond.holds? (comparedAs left.kind right.kind) x y) = some b := h
  obtain ⟨x, hx, h⟩ := Option.bind_eq_some_iff.mp h
  obtain ⟨y, hy, h⟩ := Option.bind_eq_some_iff.mp h
  exact ⟨x, y, hx, hy, h⟩

/-- A comparison is code that ends in a branch. -/
theorem intCondBranch_decides {left right : Operand} {l : Label} (hcond : i.cond ≠ .always) (hc : Checked i)
    (hleft : i.inputs[0]? = some left) (hright : i.inputs[1]? = some right) (hint : left.Integral frame)
    (hint' : right.Integral frame) (h : intCondBranch i.cond left right l t s = .ok ((), s')) :
    ∃ is o r1 r2 s1 a', Lowered is s s1 ∧ (o.info.format = .branch ∧ r1.isInt = true ∧ r2.isInt = true) ∧
      Decides frame is o r1 r2 i ∧ Asm.bcond o r1 r2 l t s1.asm = .ok ((), a') ∧ s' = { s1 with asm := a' } := by
  unfold intCondBranch at h
  obtain ⟨a, s1, ha, h⟩ := Lower.bind_eq_ok.mp h
  obtain ⟨b, s2, hb, h⟩ := Lower.bind_eq_ok.mp h
  obtain ⟨is, hl, hin, hp⟩ := srcReg_provides (by decide) hint (hc.inputs _ (List.mem_of_getElem? hleft)) ha
  obtain ⟨js, hl', hin', hp'⟩ := srcReg_provides (by decide) hint' (hc.inputs _ (List.mem_of_getElem? hright)) hb
  -- both operands are in their registers: bringing the second keeps the first
  have hboth (F : StackFrame) (M : Machine) (hF : F.Fits frame) (σ : Activation) (m : Machine) (r : Bool)
      (hagree : Agrees F M σ m) (hr : σ.decides i = some r) : ∃ x y m', Runs F.Contains (is ++ js) m m' ∧
        Agrees F M σ m' ∧ m'.get a = x ∧ m'.get b = y ∧ OfKind (comparedAs left.kind right.kind) x ∧
        OfKind (comparedAs left.kind right.kind) y ∧ i.cond.holds? (comparedAs left.kind right.kind) x y = some r := by
    obtain ⟨x, y, hx, hy, hholds⟩ := decides_eq_some hcond hleft hright hr
    obtain ⟨m1, hruns, hagree1, hget, -⟩ := hp F M hF σ m x hagree hx
    obtain ⟨m2, hruns', hagree2, hget', hrest⟩ := hp' F M hF σ m1 y hagree1 hy
    have hne : a ≠ .t1 := hin.ne_scratch (by decide) (by decide) (by decide)
    exact ⟨x, y, m2, hruns.append hruns', hagree2, (hrest a hne).trans hget, hget',
      ofKind_compared (.inl (ofKind_read hx)), ofKind_compared (.inr (ofKind_read hy)), hholds⟩
  cases hop : branchOp? i.cond with
  | none => rw [hop] at h; cases h
  | some q =>
    obtain ⟨o, swapped⟩ := q
    rw [hop] at h
    cases swapped with
    | true =>
      obtain ⟨a', hbranch, hs'⟩ := asm_eq_ok.mp h
      refine ⟨is ++ js, o, b, a, s2, a', hl.append hl', ⟨branchOp_format hop, hin'.1, hin.1⟩, ?_, hbranch, hs'⟩
      intro F M hF σ m r hagree hr
      obtain ⟨x, y, m', hruns, hagree', rfl, rfl, hkx, hky, hholds⟩ := hboth F M hF σ m r hagree hr
      exact ⟨m', hruns, hagree', branchOp_taken hop hkx hky hholds⟩
    | false =>
      obtain ⟨a', hbranch, hs'⟩ := asm_eq_ok.mp h
      refine ⟨is ++ js, o, a, b, s2, a', hl.append hl', ⟨branchOp_format hop, hin.1, hin'.1⟩, ?_, hbranch, hs'⟩
      intro F M hF σ m r hagree hr
      obtain ⟨x, y, m', hruns, hagree', rfl, rfl, hkx, hky, hholds⟩ := hboth F M hF σ m r hagree hr
      exact ⟨m', hruns, hagree', branchOp_taken hop hkx hky hholds⟩

/-- Lowering the instruction left nothing for later and, unless the buffer failed, wrote its code. -/
def Writes (i : Instruction) (L : Layout) (s s' : Lowering) : Prop :=
  Quiet s' ∧ (s'.asm.buf.failed = false →
    ∃ L', Ready L' s' ∧ Extends L s L' s' ∧ Translated s.prog.frameSize s'.labels i L L')

/-- Only a label that is not bound can be bound. -/
theorem Tracks.unbound {a a' : Assembler} (h : Tracks L a) {l : Label} (hl : L.Known l) (hbind : a.bind l = .ok a') :
    L.mark l = none := by
  obtain ⟨s, hs, hbound⟩ := h.label hl
  cases hm : L.mark l with
  | none => rfl
  | some m =>
    rw [hm] at hbound
    unfold Assembler.bind at hbind
    rw [hs] at hbind
    change (s.bind (Int64.ofNat a.buf.offset) >>= fun x => _) = Except.ok a' at hbind
    rw [LabelState.bind, hbound] at hbind
    cases hbind

theorem label_writes (hr : Ready L s) (hop : i.op = .label)
    (h : (Lower.label i.label >>= fun l => (liftM (Asm.bind l) : Lower Unit)) t s = .ok ((), s')) :
    Writes i L s s' := by
  obtain ⟨l, s1, hlabel, hbind⟩ := Lower.bind_eq_ok.mp h
  obtain ⟨a', hrun, rfl⟩ := asm_eq_ok.mp hbind
  obtain ⟨L1, hr1, hext1, hpieces, hl⟩ := hr.label hlabel
  refine ⟨⟨hr1.quiet.slowPaths, hr1.quiet.unwind⟩, fun hworking => ?_⟩
  have hknown := hr1.known _ l hl
  have hlegal : L1.Legal (.bind l) := ⟨hknown, hr1.holds.tracks.unbound hknown (Asm.change_eq_ok.mp hrun)⟩
  obtain ⟨hr', hext'⟩ := hr1.call hlegal (Asm.keepsEntries_bind l) hrun hworking
  refine ⟨_, hr', hext1.trans hext', .label hop hl (known_after hknown) ?_ hpieces⟩
  show (L1.place l).mark l = _
  rw [Layout.mark_place hknown hknown, if_pos rfl, hpieces]

theorem jump_writes (hr : Ready L s) (hop : i.op = .branch ∨ i.op = .cmpBranch ∧ i.cond = .always)
    (h : (Lower.label i.target >>= fun l => (liftM (Asm.j l) : Lower Unit)) t s = .ok ((), s')) :
    Writes i L s s' := by
  obtain ⟨l, s1, hlabel, hjump⟩ := Lower.bind_eq_ok.mp h
  obtain ⟨a', hrun, rfl⟩ := asm_eq_ok.mp hjump
  obtain ⟨L1, hr1, hext1, hpieces, hl⟩ := hr.label hlabel
  refine ⟨⟨hr1.quiet.slowPaths, hr1.quiet.unwind⟩, fun hworking => ?_⟩
  obtain ⟨hr', hext'⟩ := hr1.call (c := .jal .zr l) ⟨rfl, hr1.known _ l hl⟩ (Asm.keepsEntries_jal .zr l) hrun hworking
  refine ⟨_, hr', hext1.trans hext', .jump hop hl ?_⟩
  show L1.pieces ++ _ = _
  rw [hpieces]

theorem branch_writes (hr : Ready L s) (hc : Checked i) (hop : i.op = .cmpBranch)
    (hint : i.cond = .always ∨ ∀ n < 2, ∀ o, i.inputs[n]? = some o → o.Integral s.prog.frameSize)
    (h : Lower.cmpBranch i t s = .ok ((), s')) : Writes i L s s' := by
  unfold Lower.cmpBranch at h
  by_cases hcond : i.cond = .always
  · simp only [if_pos hcond] at h
    exact jump_writes hr (.inr ⟨hop, hcond⟩) h
  · simp only [if_neg hcond] at h
    have hint := hint.resolve_left hcond
    obtain ⟨l, s1, hlabel, h⟩ := Lower.bind_eq_ok.mp h
    obtain ⟨left, hleft, h⟩ := lift_bind_eq_ok.mp h
    obtain ⟨right, hright, h⟩ := lift_bind_eq_ok.mp h
    rw [input_eq_ok] at hleft hright
    obtain ⟨L1, hr1, hext1, hpieces, hl⟩ := hr.label hlabel
    have hleftInt := hint 0 (by decide) left hleft
    have hrightInt := hint 1 (by decide) right hright
    have hfloat : left.kind.isFloat = false := by rcases hleftInt.kind_cases with e | e <;> rw [e] <;> rfl
    unfold condBranch at h
    rw [hfloat, if_neg (by decide)] at h
    obtain ⟨is, o, r1, r2, s2, a', hlow, ⟨hfmt, h1, h2⟩, hdecides, hrun, rfl⟩ :=
      intCondBranch_decides hcond hc hleft hright hleftInt hrightInt h
    have hquiet := hlow.quiet hr1.quiet
    refine ⟨⟨hquiet.slowPaths, hquiet.unwind⟩, fun hworking => ?_⟩
    have hknown := hr1.known _ l hl
    have hlegal : (L1.write (plain is)).Legal (.bcond o r1 r2 l) := ⟨hfmt, h1, h2, hknown⟩
    -- a buffer that failed before the branch would have stayed failed
    have htracks : Tracks (L1.write (plain is)) s2.asm := by
      rw [hlow.wrote.code]
      exact hr1.holds.tracks
    have hworking2 := Call.working (c := .bcond o r1 r2 l) htracks hlegal hrun hworking
    obtain ⟨hr2, hext2⟩ := hr1.lowered hlow hworking2
    obtain ⟨hr', hext'⟩ := hr2.call hlegal (Asm.keepsEntries_bcond o r1 r2 l) hrun hworking
    refine ⟨_, hr', hext1.trans (hext2.trans hext'), .branch hop hlow.wrote.decodes hdecides ?_ ?_ hlegal rfl⟩
    · exact hext2.labels _ _ hl
    · show L1.pieces ++ _ = _
      rw [hpieces]

/-! ## Lowering the other instructions -/

/-- The result is in the register where the convention returns it. -/
theorem checkResult_register {o : Operand} (ho : o.Integral frame) (h : checkResult o = .ok ()) :
    ∃ k hi, o = Operand.register k (.x 10) hi := by
  cases o with
  | register k r hi =>
    obtain ⟨holds, hreg, hcheck⟩ := except_bind_eq_ok.mp h
    have hholds := check_eq_ok.mp hcheck
    cases hreg
    rw [beq_iff_eq.mp hholds]
    exact ⟨k, hi, rfl⟩
  | constant k bits => cases h
  | stack k n => cases h
  | absent => exact ho.elim
  | floatRegister k r => exact ho.elim
  | memory k a => exact ho.elim

theorem ret_writes (hr : Ready L s) (hsize : 16 ≤ s.prog.frameSize.toInt) (hop : i.op = .ret)
    (hint : ∀ o, i.inputs[0]? = some o → o.Integral s.prog.frameSize) (h : Lower.ret i t s = .ok ((), s')) :
    Writes i L s s' := by
  have hsplit : (∀ o, i.inputs[0]? = some o → ∃ k hi, o = Operand.register k (.x 10) hi) ∧
      ((liftM (Asm.removeFrame s.prog.frameSize) : Lower Unit) >>= fun _ => (liftM Asm.ret : Lower Unit)) t s =
        .ok ((), s') := by
    unfold Lower.ret at h
    cases hin : i.inputs with
    | nil =>
      rw [hin] at h
      exact ⟨fun o ho => (by cases ho), h⟩
    | cons res rest =>
      rw [hin] at h hint
      obtain ⟨_, hres, h⟩ := lift_bind_eq_ok.mp h
      refine ⟨fun o ho => ?_, h⟩
      cases ho
      exact checkResult_register (hint res rfl) hres
  obtain ⟨hresult, h⟩ := hsplit
  obtain ⟨_, s1, hremove, hret⟩ := Lower.bind_eq_ok.mp h
  obtain ⟨a1, ha1, rfl⟩ := asm_eq_ok.mp hremove
  obtain ⟨a', ha', rfl⟩ := asm_eq_ok.mp hret
  obtain ⟨is, hw, hrestores⟩ := removeFrame_restores hsize ha1
  obtain ⟨_, b, hcheck, hemit⟩ := Asm.bind_eq_ok.mp ha'
  obtain ⟨-, rfl⟩ := Asm.lift_eq_ok.mp hcheck
  have hw' : Wrote [returnJump] b a' :=
    wrote_emit hemit (by decide) rfl (fun e => by cases e) (fun e => by cases e) (fun _ => rfl) rfl rfl
  have hlow : Lowered (is ++ [returnJump]) s { s with asm := a' } := ⟨hw.append hw', rfl⟩
  refine ⟨hlow.quiet hr.quiet, fun hworking => ?_⟩
  obtain ⟨hr', hext⟩ := hr.lowered hlow hworking
  exact ⟨_, hr', hext, .ret hop hlow.wrote.decodes (fun h => hrestores) hresult rfl⟩

theorem straight_writes (hr : Ready L s) (hop : i.op.isStraight)
    (h : ∃ is, Lowered is s s' ∧ Realizes s.prog.frameSize is i.effect) : Writes i L s s' := by
  obtain ⟨is, hlow, hrealizes⟩ := h
  refine ⟨hlow.quiet hr.quiet, fun hworking => ?_⟩
  obtain ⟨hr', hext⟩ := hr.lowered hlow hworking
  exact ⟨_, hr', hext, .straight hop hlow.wrote.decodes rfl hrealizes⟩

theorem nop_realizes (hop : i.op = .nop) (h : (liftM Asm.nop : Lower Unit) t s = .ok ((), s')) :
    ∃ is, Lowered is s s' ∧ Realizes frame is i.effect := by
  refine lowered_of_asm h fun {a'} ha => ?_
  refine ⟨_, wrote_emit ha (by decide) rfl nofun nofun (fun _ => rfl) (by decide) rfl, fun F M hF σ σ' m hagree hσ => ?_⟩
  rw [Instruction.effect, if_pos hop] at hσ
  cases hσ
  exact ⟨m.next, .cons rfl rfl (fun _ _ => rfl) (.nil _), hagree.withPc _⟩

theorem Realizes.effect {is : List Inst} (h : Realizes frame is i.assigns) (hop : i.op ≠ .nop) :
    Realizes frame is i.effect := by
  rwa [show i.effect = i.assigns from funext fun σ => if_neg hop]

theorem assigns_move {src : Operand} (hop : i.op = .move) (hsrc : i.inputs[0]? = some src) :
    i.assigns = assign src i.result := by
  funext σ
  rw [Instruction.assigns, Activation.value, hsrc, hop]
  show ((σ.read src).bind some).bind _ = _
  rw [Option.bind_fun_some]
  rfl

/-- Lowering an instruction of the fragment writes its code. -/
theorem instruction_writes (hr : Ready L s) (hsize : 16 ≤ s.prog.frameSize.toInt) (hint : i.Integral s.prog.frameSize)
    (h : instruction i t s = .ok ((), s')) : Writes i L s s' := by
  obtain ⟨_, hcheck, h⟩ := lift_bind_eq_ok.mp h
  have hc := checked_of hcheck
  -- code that realizes the assignment of the result is what is written for it
  have assigned (hop : i.op.isStraight ∧ i.op ≠ .nop)
      (hcode : ∃ is, Lowered is s s' ∧ Realizes s.prog.frameSize is i.assigns) : Writes i L s s' := by
    obtain ⟨is, hlow, hrealizes⟩ := hcode
    exact straight_writes hr hop.1 ⟨is, hlow, hrealizes.effect hop.2⟩
  unfold dispatch at h
  unfold Instruction.Integral at hint
  cases hop : i.op with
  | label =>
    rw [hop] at h
    exact label_writes hr hop h
  | branch =>
    rw [hop] at h
    exact jump_writes hr (.inl hop) h
  | nop =>
    rw [hop] at h
    exact straight_writes hr (by rw [hop]; decide) (nop_realizes hop h)
  | move =>
    rw [hop] at h hint
    obtain ⟨src, hsrc, h⟩ := lift_bind_eq_ok.mp h
    rw [input_eq_ok] at hsrc
    obtain ⟨hsrcInt, hkind⟩ := hint.2 src hsrc
    refine assigned (by rw [hop]; decide) ?_
    rw [assigns_move hop hsrc]
    exact move_realizes hsrcInt (hc.inputs _ (List.mem_of_getElem? hsrc)) hint.1 hc.result hkind h
  | neg =>
    rw [hop] at h hint
    exact assigned (by rw [hop]; decide) (neg_realizes hop hc hint.1 (fun o ho => (hint.2 o ho).1) h)
  | add | sub | mul | and | or | xor =>
    rw [hop] at h hint
    have harith : i.op.isArith := by simp [Opcode.isArith, hop]
    exact assigned (by rw [hop]; decide) (arith_realizes harith hc hint.1 hint.2 h)
  | shl | shr | ushr =>
    rw [hop] at h hint
    exact assigned (by rw [hop]; decide)
      (shift_realizes (by simp [hop]) hc hint.1 (fun o ho => (hint.2.1 o ho).1) hint.2.2 h)
  | cmpBranch =>
    rw [hop] at h hint
    exact branch_writes hr hc hop hint h
  | ret =>
    rw [hop] at h hint
    exact ret_writes hr hsize hop hint h
  | _ =>
    rw [hop] at hint
    exact hint.elim

end

end RiscvJit
