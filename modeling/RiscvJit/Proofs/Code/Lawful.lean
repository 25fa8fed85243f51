import RiscvJit.Proofs.Code.GuardedSequences

/-
  RiscvJit.Proofs.Code.Lawful — work that breaks no rule.

  The rules of the assembler are checked where they matter: registers of the file that an instruction
  expects, immediates of twelve bits, scratch registers that are not in use, addresses of at most
  47 bits. `Asm.Lawful x` says that `x` breaks none of them, whatever it is run on. As a class it is
  found by the shape of the work, from what is known of its registers (`Reg.Integer`, `Reg.Apart`) and
  of its immediates (`Short`).

  Guarded work ends with a result or with a broken rule (`Asm.Guarded`), so work that is guarded and
  lawful goes through (`Ends.lawful`).

  The sequences of instructions are lawful as they are made of lawful instructions. A call breaks no rule
  when its target has at most 47 bits (`lawful_farCall`), as the routines of an addressed target have. The
  offsets of the thread and of object headers are short.
-/

namespace RiscvJit

open Reg (zr ra sp t0 t1 t2 fp thread)
open Assembler

/-- Every routine of the runtime has an address, of at most 47 bits. -/
structure Target.Addressed (t : Target) : Prop where
  complete : t.Complete
  low : ∀ e, (t.runtime.addr e).toNat < 2 ^ 47

/-- If the check fails, it is not for a rule that callers have to keep. -/
class Unbroken {α : Type} (e : Except Fault α) : Prop where
  kept : ∀ what, e ≠ .error (.precondition what)

section
variable {α β : Type}

instance unbroken_ok (r : α) : Unbroken (.ok r : Except Fault α) := ⟨nofun⟩
instance unbroken_pure (r : α) : Unbroken (pure r : Except Fault α) := ⟨nofun⟩
instance unbroken_defect (what : String) : Unbroken (.error (.defect what) : Except Fault α) := ⟨nofun⟩
instance unbroken_throw_defect (what : String) : Unbroken (throw (.defect what) : Except Fault α) := ⟨nofun⟩
instance unbroken_trap : Unbroken (.error .trap : Except Fault α) := ⟨nofun⟩

/-- The same failure of another check. -/
theorem Unbroken.error {fault : Fault} (h : Unbroken (.error fault : Except Fault α)) :
    Unbroken (.error fault : Except Fault β) :=
  ⟨fun what hstop => h.kept what (congrArg _ (Except.error.inj hstop))⟩

theorem Unbroken.andThen {e : Except Fault α} {f : α → Except Fault β} (he : Unbroken e)
    (hf : ∀ r, e = .ok r → Unbroken (f r)) :
    Unbroken (e >>= f) where
  kept := by
    cases e with
    | ok r => exact (hf r rfl).kept
    | error fault => exact he.error.kept

instance unbroken_bind (e : Except Fault α) (f : α → Except Fault β) [he : Unbroken e] [h : ∀ r, Unbroken (f r)] :
    Unbroken (e >>= f) := he.andThen fun r _ => h r

instance unbroken_ite (c : Prop) [Decidable c] (e e' : Except Fault α) [he : Unbroken e] [he' : Unbroken e'] :
    Unbroken (if c then e else e') := by
  split
  · exact he
  · exact he'

instance unbroken_foldlM (xs : List β) (f : α → β → Except Fault α) (a : α) [hf : ∀ a x, Unbroken (f a x)] :
    Unbroken (xs.foldlM f a) := by
  induction xs generalizing a with
  | nil => exact unbroken_pure a
  | cons x xs ih => exact (hf a x).andThen fun r _ => ih r

theorem unbroken_check {b : Bool} {what : Unit → String} (h : b = true) : Unbroken (check b what) := by
  rw [check, if_pos h]
  exact unbroken_ok ()

/-- What ends with a result or a broken rule, and breaks none, has a result. -/
theorem Ends.lawful {e : Except Fault α} {Q : α → Prop} (h : Ends e Q) (hkept : Unbroken e) : ∃ r, e = .ok r ∧ Q r :=
  h.resolve_right fun ⟨what, hstop⟩ => hkept.kept what hstop

end

/-! ## Operands that keep the rules -/

/-- An integer register. -/
class Reg.Integer (r : Reg) : Prop where
  file : r.isInt = true

/-- Two registers that are not the same. -/
class Reg.Apart (r s : Reg) : Prop where
  ne : r ≠ s

/-- An immediate of twelve bits. -/
class Short (v : Int64) : Prop where
  fits : isImm12 v = true

instance integer_x (n : Fin 32) : (Reg.x n).Integer := ⟨rfl⟩
instance integer_zr : zr.Integer := ⟨rfl⟩
instance integer_ra : ra.Integer := ⟨rfl⟩
instance integer_sp : sp.Integer := ⟨rfl⟩
instance integer_t0 : t0.Integer := ⟨rfl⟩
instance integer_t1 : t1.Integer := ⟨rfl⟩
instance integer_t2 : t2.Integer := ⟨rfl⟩
instance integer_fp : fp.Integer := ⟨rfl⟩
instance integer_thread : thread.Integer := ⟨rfl⟩

instance apart_t0_sp : t0.Apart sp := ⟨by decide⟩
instance apart_t1_sp : t1.Apart sp := ⟨by decide⟩
instance apart_t0_ra : t0.Apart ra := ⟨by decide⟩
instance apart_t0_fp : t0.Apart fp := ⟨by decide⟩
instance apart_t1_t0 : t1.Apart t0 := ⟨by decide⟩
instance apart_t0_t1 : t0.Apart t1 := ⟨by decide⟩
instance apart_t2_t0 : t2.Apart t0 := ⟨by decide⟩

instance short_low12 (v : Int64) : Short (low12 v) := ⟨isImm12_low12 v⟩
instance short_zero : Short 0 := ⟨by decide⟩

/-- The register is of the class. -/
def RegClass.Allows : RegClass → Reg → Prop
  | .none, _ => True
  | .int, r => r.isInt = true
  | .float, r => r.isFloat = true

theorem unbroken_checkClass {c : RegClass} {r : Reg} (h : c.Allows r) (o : Op) (what : String) :
    Unbroken (Asm.checkClass o r c what) := by
  unfold Asm.checkClass
  cases c with
  | none => exact unbroken_ok ()
  | int => exact unbroken_check h
  | float => exact unbroken_check h

/-! ## Labels and barriers -/

variable (b : CodeBuffer) (a : Assembler) (l : Label)

instance unbroken_wordAt (off : Int64) : Unbroken (b.wordAt off) := by
  unfold CodeBuffer.wordAt
  infer_instance

instance unbroken_patch (off : Int64) (w : UInt32) : Unbroken (b.patch off w) := by
  unfold CodeBuffer.patch
  infer_instance

instance unbroken_patchUse (u : LabelUse) (target : Int64) : Unbroken (patchUse b u target) := by
  unfold patchUse
  refine @unbroken_ite _ _ _ _ _ inferInstance (unbroken_bind _ _ (h := fun w => ?_))
  split <;> infer_instance

instance unbroken_label : Unbroken (a.label l) := by
  unfold label
  split
  · infer_instance
  · split <;> infer_instance

instance unbroken_bindState (s : LabelState) (pos : Int64) : Unbroken (s.bind pos) := by
  unfold LabelState.bind
  infer_instance

instance unbroken_bindLabel : Unbroken (a.bind l) := by
  unfold Assembler.bind
  refine unbroken_bind _ _ (h := fun s => unbroken_bind _ _ (h := fun r => ?_))
  obtain ⟨uses, s'⟩ := r
  dsimp only
  rw [← Array.foldlM_toList]
  infer_instance

instance unbroken_refer (u : LabelUse) : Unbroken (a.refer l u) := by
  unfold Assembler.refer
  refine unbroken_bind _ _ (h := fun s => ?_)
  split <;> infer_instance

instance unbroken_fenceAt (off : Nat) : Unbroken (fenceAt? b off) := by
  unfold fenceAt?
  refine unbroken_bind _ _ (h := fun w => ?_)
  split <;> infer_instance

instance unbroken_fence (pred succ : Int64) : Unbroken (a.fence pred succ) := by
  unfold Assembler.fence
  dsimp only
  split
  · infer_instance
  · refine unbroken_bind _ _ (h := fun old => ?_)
    split <;> infer_instance

instance unbroken_startStub (name : String) (size : Int64) : Unbroken (b.startStub name size) := by
  unfold CodeBuffer.startStub
  infer_instance

instance unbroken_endStub : Unbroken b.endStub := by
  unfold CodeBuffer.endStub
  infer_instance

instance unbroken_address (r : RuntimeEntries) (e : RuntimeEntry) : Unbroken (r.address e) := by
  unfold RuntimeEntries.address
  infer_instance

namespace Asm

/-- The work breaks no rule, and it records no map. -/
class Lawful {α : Type} (x : Asm α) : Prop where
  kept : ∀ {t a}, t.Addressed → Unbroken (x t a)
  maps : ∀ {t a r b}, t.Addressed → x t a = .ok (r, b) → b.oopMaps = a.oopMaps

/-! ## Sequences, choices, repetitions -/

section
variable {α β : Type}

theorem Lawful.andThen {x : Asm α} {f : α → Asm β} (hx : Lawful x) (hf : ∀ t a r b, x t a = .ok (r, b) → Lawful (f r)) :
    Lawful (x >>= f) where
  kept ht := (hx.kept ht).andThen fun r hr => (hf _ _ r.1 r.2 hr).kept ht
  maps ht h := by
    obtain ⟨r, b, hr, hrest⟩ := bind_eq_ok.mp h
    exact ((hf _ _ r b hr).maps ht hrest).trans (hx.maps ht hr)

instance lawful_bind (x : Asm α) (f : α → Asm β) [hx : Lawful x] [h : ∀ r, Lawful (f r)] : Lawful (x >>= f) :=
  hx.andThen fun _ _ r _ _ => h r

instance lawful_seq (x : Asm α) (y : Asm β) [Lawful x] [Lawful y] : Lawful (x >>= fun _ => y) := lawful_bind x _

instance lawful_pure (r : α) : Lawful (pure r : Asm α) where
  kept _ := unbroken_ok _
  maps _ h := (codeOnly_pure r _ _ _ _ h).maps

instance lawful_ite (c : Prop) [Decidable c] (x y : Asm α) [hx : Lawful x] [h : Lawful y] :
    Lawful (if c then x else y) := by
  split
  · exact hx
  · exact h

theorem lawful_forM {xs : List β} {f : β → Asm Unit} (hf : ∀ x ∈ xs, Lawful (f x)) : Lawful (xs.forM f) := by
  induction xs with
  | nil => exact lawful_pure ()
  | cons x xs ih =>
    have hx := hf x List.mem_cons_self
    exact hx.andThen fun _ _ _ _ _ => ih fun y hy => hf y (List.mem_cons_of_mem _ hy)

instance lawful_lift (e : Except Fault α) [h : Unbroken e] : Lawful (liftM e : Asm α) where
  kept _ := by
    cases e with
    | ok r => exact unbroken_ok _
    | error f => exact h.error
  maps _ h := (codeOnly_lift e _ _ _ _ h).maps

theorem lawful_change {f : Assembler → Except Fault Assembler} [h : ∀ a, Unbroken (f a)]
    (hmaps : ∀ t a b, change f t a = .ok ((), b) → b.oopMaps = a.oopMaps) : Lawful (change f) where
  kept {t a} _ := by
    have ha := h a
    unfold change
    cases hf : f a with
    | ok b => exact unbroken_ok _
    | error e =>
      rw [hf] at ha
      exact ha.error

  maps _ h := hmaps _ _ _ h

instance lawful_read : Lawful (read : Asm Target) := ⟨fun _ => unbroken_ok _, fun _ h => by cases h; rfl⟩
instance lawful_get : Lawful (get : Asm Assembler) := ⟨fun _ => unbroken_ok _, fun _ h => by cases h; rfl⟩
instance lawful_modifyBuf (f : CodeBuffer → CodeBuffer) : Lawful (modifyBuf f) :=
  ⟨fun _ => unbroken_ok _, fun _ h => by cases h; rfl⟩
instance lawful_newLabel : Lawful newLabel := ⟨fun _ => unbroken_ok _, fun _ h => by cases h; rfl⟩
instance lawful_markEntry (name : String) : Lawful (markEntry name) :=
  ⟨fun _ => unbroken_ok _, fun _ h => by cases h; rfl⟩

instance lawful_bindLabel (l : Label) : Lawful (Asm.bind l) := lawful_change fun t a b h =>
  (codeOnly_bind l t a () b h).maps

instance lawful_refer (l : Label) (off : Int64) (kind : UInt8) : Lawful (refer l off kind) :=
  lawful_change fun t a b h => (codeOnly_refer l off kind t a () b h).maps

instance lawful_fence (pred succ : Int64) : Lawful (fence pred succ) :=
  lawful_change fun t a b h => by
    rcases fence_eq_ok h with ⟨-, rfl⟩ | ⟨-, -, buf, -, -, -, rfl⟩ <;> rfl

instance lawful_opts : Lawful opts := by
  unfold opts
  infer_instance

instance lawful_offset : Lawful offset := by
  unfold offset
  infer_instance

instance lawful_startStub (name : String) (size : Int64) : Lawful (startStub name size) where
  kept {t a} _ := by
    have hopen := unbroken_startStub a.buf name size
    unfold startStub
    rw [bind_ok get_ok]
    cases hstart : a.buf.startStub name size with
    | ok r => exact unbroken_ok _
    | error fault =>
      rw [hstart] at hopen
      exact hopen.error
  maps _ h := by
    obtain ⟨buf, rfl, -⟩ := startStub_cases h
    rfl

instance lawful_endStub : Lawful endStub :=
  lawful_change fun t a b h => by
    obtain ⟨-, rfl⟩ := RiscvJit.endStub_eq_ok h
    rfl

end

/-! ## Single instructions -/

theorem lawful_emit (o : Op) {rd rs1 rs2 : Reg} (hd : o.info.rd.Allows rd) (h1 : o.info.rs1.Allows rs1)
    (h2 : o.info.rs2.Allows rs2)
    (imm : Int64) (aqrl : UInt32) : Lawful (emit o rd rs1 rs2 imm aqrl) := by
  have := unbroken_checkClass hd o "rd"
  have := unbroken_checkClass h1 o "rs1"
  have := unbroken_checkClass h2 o "rs2"
  have : Unbroken (checkClasses o rd rs1 rs2) := by
    unfold checkClasses
    infer_instance
  unfold emit
  infer_instance

instance lawful_checkImm12 (what : String) (v : Int64) [h : Short v] : Lawful (liftM (checkImm12 what v) : Asm Unit) :=
  have : Unbroken (checkImm12 what v) := unbroken_check h.fits
  lawful_lift _

section
variable (rd rs1 rs2 base : Reg) [hd : rd.Integer] [h1 : rs1.Integer] [h2 : rs2.Integer] [hb : base.Integer]

variable (n imm : Int64) (o : Op) {r : Reg} (off : Int64) (l : Label)

instance lawful_add : Lawful (add rd rs1 rs2) := lawful_emit .add hd.file h1.file h2.file ..
instance lawful_sub : Lawful (sub rd rs1 rs2) := lawful_emit .sub hd.file h1.file h2.file ..
instance lawful_and : Lawful (and rd rs1 rs2) := lawful_emit .and hd.file h1.file h2.file ..
instance lawful_sltu : Lawful (rr .sltu rd rs1 rs2) := lawful_emit .sltu hd.file h1.file h2.file ..
instance lawful_slli : Lawful (slli rd rs1 n) := lawful_emit .slli hd.file h1.file trivial ..
instance lawful_srli : Lawful (srli rd rs1 n) := lawful_emit .srli hd.file h1.file trivial ..
instance lawful_srai : Lawful (srai rd rs1 n) := lawful_emit .srai hd.file h1.file trivial ..
instance lawful_sextw : Lawful (sextw rd rs1) := lawful_emit .addiw hd.file h1.file trivial ..
instance lawful_lui : Lawful (lui rd imm) := lawful_emit .lui hd.file trivial trivial ..
instance lawful_auipc : Lawful (auipc rd imm) := lawful_emit .auipc hd.file trivial trivial ..
instance lawful_lr (aqrl : UInt32) : Lawful (lr .lrD rd base aqrl) := lawful_emit .lrD hd.file hb.file trivial ..
instance lawful_sc (aqrl : UInt32) : Lawful (sc .scD rd rs1 base aqrl) := lawful_emit .scD hd.file hb.file h1.file ..

theorem lawful_ri {o : Op} (hrd : o.info.rd = .int) (hrs : o.info.rs1 = .int) (hnone : o.info.rs2 = .none)
    (imm : Int64) [Short imm] :
    Lawful (ri o rd rs1 imm) := by
  have : Lawful (emit o rd rs1 .none imm 0) :=
    lawful_emit o (by rw [hrd]; exact hd.file) (by rw [hrs]; exact h1.file) (by rw [hnone]; trivial) ..
  unfold ri
  infer_instance

instance lawful_addi [Short imm] : Lawful (addi rd rs1 imm) := lawful_ri rd rs1 rfl rfl rfl imm
instance lawful_addiw [Short imm] : Lawful (addiw rd rs1 imm) := lawful_ri rd rs1 rfl rfl rfl imm
instance lawful_andi [Short imm] : Lawful (andi rd rs1 imm) := lawful_ri rd rs1 rfl rfl rfl imm
instance lawful_ori [Short imm] : Lawful (ori rd rs1 imm) := lawful_ri rd rs1 rfl rfl rfl imm

theorem lawful_load (hrd : o.info.rd.Allows r) (hrs : o.info.rs1 = .int) (hnone : o.info.rs2 = .none) (off : Int64)
    [Short off] : Lawful (load o r base off) := by
  have : Lawful (emit o r base .none off 0) := lawful_emit o hrd (by rw [hrs]; exact hb.file) (by rw [hnone]; trivial) ..
  unfold load
  infer_instance

theorem lawful_store (hrs : o.info.rs2.Allows r) (hbase : o.info.rs1 = .int) (hnone : o.info.rd = .none) (off : Int64)
    [Short off] : Lawful (store o r base off) := by
  have : Lawful (emit o .none base r off 0) :=
    lawful_emit o (by rw [hnone]; trivial) (by rw [hbase]; exact hb.file) hrs ..
  unfold store
  infer_instance

instance lawful_ld [Short off] : Lawful (ld rd base off) := lawful_load base .ld hd.file rfl rfl off
instance lawful_lwu [Short off] : Lawful (lwu rd base off) := lawful_load base .lwu hd.file rfl rfl off
instance lawful_lbu [Short off] : Lawful (lbu rd base off) := lawful_load base .lbu hd.file rfl rfl off
instance lawful_sd [Short off] : Lawful (sd rd base off) := lawful_store base .sd hd.file rfl rfl off
instance lawful_sw [Short off] : Lawful (sw rd base off) := lawful_store base .sw hd.file rfl rfl off

instance lawful_jalr [Short off] : Lawful (jalr rd base off) := by
  have : Lawful (emit .jalr rd base .none off 0) := lawful_emit .jalr hd.file hb.file trivial ..
  unfold jalr
  infer_instance

instance lawful_ret : Lawful ret := lawful_jalr zr ra 0

instance lawful_jalOffset : Lawful (jalOffset rd off) := by
  have : Lawful (emit .jal rd .none .none off 0) := lawful_emit .jal hd.file trivial trivial ..
  unfold jalOffset
  infer_instance

/-! ## Jumps -/

theorem lawful_branch {o : Op} (ho : o.info.rd = .none ∧ o.info.rs1 = .int ∧ o.info.rs2 = .int) (l : Label) :
    Lawful (branch o rs1 rs2 l) := by
  have : Lawful (emit o .none rs1 rs2 0 0) :=
    lawful_emit o (by rw [ho.1]; trivial) (by rw [ho.2.1]; exact h1.file) (by rw [ho.2.2]; exact h2.file) ..
  unfold branch
  infer_instance

instance lawful_beq : Lawful (branch .beq rs1 rs2 l) := lawful_branch rs1 rs2 ⟨rfl, rfl, rfl⟩ l
instance lawful_bne : Lawful (branch .bne rs1 rs2 l) := lawful_branch rs1 rs2 ⟨rfl, rfl, rfl⟩ l

instance lawful_jal : Lawful (jal rd l) := by
  have : Lawful (emit .jal rd .none .none 0 0) := lawful_emit .jal hd.file trivial trivial ..
  unfold jal
  infer_instance

instance lawful_j : Lawful (j l) := lawful_jal zr l

instance lawful_isNear : Lawful (isNear l) := by
  unfold isNear
  refine lawful_bind _ _ (h := fun a => lawful_bind _ _ (h := fun s => ?_))
  split <;> infer_instance

theorem lawful_bcond {o o' : Op} (ho : o.info.rd = .none ∧ o.info.rs1 = .int ∧ o.info.rs2 = .int)
    (ho' : o'.info.rd = .none ∧ o'.info.rs1 = .int ∧ o'.info.rs2 = .int) (hneg : negateBranch o = .ok o') (l : Label) :
    Lawful (bcond o rs1 rs2 l) := by
  have := lawful_branch rs1 rs2 ho l
  have : Lawful (emit o' .none rs1 rs2 8 0) :=
    lawful_emit o' (by rw [ho'.1]; trivial) (by rw [ho'.2.1]; exact h1.file) (by rw [ho'.2.2]; exact h2.file) ..
  unfold bcond
  rw [hneg]
  refine lawful_bind _ _ (h := fun near => lawful_ite _ _ _ (h := ?_))
  exact Lawful.andThen inferInstance fun t a r b hr => by
    cases hr
    infer_instance

instance lawful_bcond_beq : Lawful (bcond .beq rs1 rs2 l) := lawful_bcond rs1 rs2 ⟨rfl, rfl, rfl⟩ ⟨rfl, rfl, rfl⟩ rfl l
instance lawful_bnez : Lawful (bnez rs1 l) := lawful_bcond rs1 zr ⟨rfl, rfl, rfl⟩ ⟨rfl, rfl, rfl⟩ rfl l

instance lawful_la : Lawful (la rd l) := by
  have : Lawful (emit .addi rd rd .none 0 0) := lawful_emit .addi hd.file hd.file trivial ..
  unfold la
  infer_instance

/-! ## Constants and addresses -/

theorem lawful_constStep {s : ConstStep} (hs : s.Fits) : Lawful (constStep rd s) := by
  cases s with
  | lui imm => exact lawful_lui rd imm
  | start imm =>
    have : Short imm := ⟨hs⟩
    exact lawful_addiw rd zr imm
  | addiw imm =>
    have : Short imm := ⟨hs⟩
    exact lawful_addiw rd rd imm
  | slli n => exact lawful_slli rd rd n
  | addi imm =>
    have : Short imm := ⟨hs⟩
    exact lawful_addi rd rd imm

instance lawful_li : Lawful (li rd imm) := lawful_forM fun _ hs => lawful_constStep rd (fits_rounds _ _ _ hs)

instance lawful_mv : Lawful (mv rd rs1) := by
  unfold mv
  rw [if_neg (c := rd.isFloat = true) fun h => ?_]
  · infer_instance
  · cases rd with
    | x n => cases h
    | f n => cases hd.file
    | none => cases h

instance lawful_addImm (tmp : Reg) [tmp.Integer] [ha : tmp.Apart rs1] : Lawful (addImm rd rs1 imm tmp) := by
  have : Unbroken (check (tmp ≠ rs1) fun _ => "scratch " ++ tmp.abiName ++ " aliases the source") :=
    unbroken_check (decide_eq_true ha.ne)
  unfold addImm
  by_cases hi : isImm12 imm = true
  · have : Short imm := ⟨hi⟩
    rw [if_pos hi]
    infer_instance
  · rw [if_neg hi]
    infer_instance

theorem lawful_loadOff (hrd : o.info.rd.Allows r) (hrs : o.info.rs1 = .int) (hnone : o.info.rs2 = .none) (off : Int64)
    (tmp : Reg) [htmp : tmp.Integer] [ha : tmp.Apart base] : Lawful (loadOff o r base off tmp) := by
  have : Unbroken (check (tmp ≠ base) fun _ => "scratch " ++ tmp.abiName ++ " aliases the base") :=
    unbroken_check (decide_eq_true ha.ne)
  have := lawful_load tmp o hrd hrs hnone (low12 off)
  unfold loadOff
  by_cases hi : isImm12 off = true
  · have : Short off := ⟨hi⟩
    rw [if_pos hi]
    exact lawful_load base o hrd hrs hnone off
  · rw [if_neg hi]
    infer_instance

theorem lawful_storeOff (hrs : o.info.rs2.Allows r) (hbase : o.info.rs1 = .int) (hnone : o.info.rd = .none) (off : Int64)
    (tmp : Reg) [htmp : tmp.Integer] [ha : tmp.Apart base] [ha' : tmp.Apart r] : Lawful (storeOff o r base off tmp) := by
  have : Unbroken (check (tmp ≠ base && tmp ≠ r) fun _ => "scratch " ++ tmp.abiName ++ " aliases an operand") := by
    refine unbroken_check ?_
    rw [decide_eq_true ha.ne, decide_eq_true ha'.ne]
    rfl
  have := lawful_store tmp o hrs hbase hnone (low12 off)
  unfold storeOff
  by_cases hi : isImm12 off = true
  · have : Short off := ⟨hi⟩
    rw [if_pos hi]
    exact lawful_store base o hrs hbase hnone off
  · rw [if_neg hi]
    infer_instance

end

end Asm

/-! ## Offsets -/

instance short_threadState : Short threadLayout.threadState := ⟨by decide⟩
instance short_pendingException : Short threadLayout.pendingException := ⟨by decide⟩
instance short_jniEnvironment : Short threadLayout.jniEnvironment := ⟨by decide⟩
instance short_activeHandles : Short threadLayout.activeHandles := ⟨by decide⟩
instance short_lastJavaSp : Short threadLayout.lastJavaSp := ⟨by decide⟩
instance short_lastJavaFp : Short threadLayout.lastJavaFp := ⟨by decide⟩
instance short_lastJavaPc : Short threadLayout.lastJavaPc := ⟨by decide⟩
instance short_suspendFlags : Short threadLayout.suspendFlags := ⟨by decide⟩
instance short_pollingWord : Short threadLayout.pollingWord := ⟨by decide⟩
instance short_stackGuardState : Short threadLayout.stackGuardState := ⟨by decide⟩
instance short_handleBlockTop : Short handleBlockTop := ⟨by decide⟩
instance short_mark : Short objectLayout.mark := ⟨by decide⟩
instance short_klass : Short objectLayout.klass := ⟨by decide⟩
instance short_lockSlotObject : Short lockSlotObject := ⟨by decide⟩
instance short_lockDisplacedHeader : Short lockDisplacedHeader := ⟨by decide⟩
instance short_markUnlockedValue : Short markUnlockedValue := ⟨by decide⟩
instance short_markNotStackLockable : Short Asm.markNotStackLockable := ⟨by decide⟩
instance short_safepointPollBit : Short safepointPollBit := ⟨by decide⟩
instance short_byte : Short 0xff := ⟨by decide⟩

namespace Asm

/-! ## Calls -/

section
variable (link tmp : Reg) [hlink : link.Integer] [htmp : tmp.Integer]

section
variable {target : UInt64} (hlow : target.toNat < 2 ^ 47)
include hlow

theorem pointer_fits : (target >>> 47 == 0) = true := by
  refine beq_iff_eq.mpr (UInt64.toNat_inj.mp ?_)
  rw [UInt64.toNat_shiftRight]
  exact Nat.shiftRight_eq_zero _ _ (by simpa using hlow)

theorem short_pointerMiddle : Short (target.toInt64 >>> 6 &&& 0x7ff) :=
  ⟨addressSteps_fit hlow (.addi _) (by simp [addressSteps])⟩

theorem short_pointerEnd : Short (target.toInt64 &&& 0x3f) := ⟨by
  have hpos := @toInt_of_lt target (by omega)
  have hlow : (target.toInt64 &&& 0x3f).toInt = target.toInt64.toInt % 64 :=
    toInt_and_ones (k := 6) (by decide) (by omega)
  rw [isImm12, fitsSigned_iff, hlow]
  simp only [Nat.reduceSub, Int.reducePow]
  omega⟩

end

/-- An address of at most 47 bits in a register, but for its low bits, which the next instruction adds. -/
theorem lawful_throughPointer {target : UInt64} (hlow : target.toNat < 2 ^ 47) :
    Lawful (movptrWithOffset tmp target >>= fun lo => jalr link tmp lo) := by
  have : Unbroken (check (target >>> 47 == 0) fun _ => "address " ++ Text.hex target.toNat ++ " does not fit 47 bits") :=
    unbroken_check (pointer_fits hlow)
  have := short_pointerMiddle hlow
  have := short_pointerEnd hlow
  unfold movptrWithOffset
  simp only [bind_assoc, pure_bind]
  infer_instance

theorem lawful_farCall {target : UInt64} (hlow : target.toNat < 2 ^ 47) : Lawful (farCall target link tmp) := by
  have hat (near : Bool) (distance : Int64) : Lawful (farCallAt target link tmp near distance) := by
    have := lawful_throughPointer link tmp hlow
    unfold farCallAt
    infer_instance
  constructor
  · intro t a ht
    rw [farCall_eq]
    exact (hat _ _).kept ht
  · intro t a r b ht h
    rw [farCall_eq] at h
    exact (hat _ _).maps ht h

end

theorem low_address {t : Target} {e : RuntimeEntry} {addr : UInt64} (ht : t.Addressed)
    (h : t.runtime.address e = .ok addr) :
    addr.toNat < 2 ^ 47 := by
  unfold RuntimeEntries.address at h
  split at h
  · cases h
  · rw [← Except.ok.inj h]
    exact ht.low e

variable (e : RuntimeEntry)

/-- A routine of the runtime is at an address of at most 47 bits. -/
theorem lawful_entryThen {β : Type} {f : UInt64 → Asm β} (hf : ∀ addr, addr.toNat < 2 ^ 47 → Lawful (f addr)) :
    Lawful (entryAddress e >>= f) := by
  have hread (t : Target) (a : Assembler) : (entryAddress e >>= f) t
    a = ((liftM (t.runtime.address e) : Asm UInt64) >>= f) t a := rfl
  constructor
  · intro t a ht
    rw [hread]
    refine Unbroken.andThen ((lawful_lift _).kept ht) fun r hr => ?_
    exact (hf r.1 (low_address ht (lift_eq_ok.mp hr).1)).kept ht
  · intro t a r b ht h
    rw [hread] at h
    obtain ⟨addr, c, hlift, hrest⟩ := bind_eq_ok.mp h
    obtain ⟨haddr, rfl⟩ := lift_eq_ok.mp hlift
    exact (hf addr (low_address ht haddr)).maps ht hrest

instance lawful_rtCall : Lawful (rtCall e) := lawful_entryThen e fun _ h => lawful_farCall ra t0 h

instance lawful_rtJump : Lawful (rtJump e) := lawful_entryThen e fun _ h => lawful_farCall zr t0 h

/-! ## Types, barriers, swaps -/

section
variable (rd obj tmp : Reg) [hd : rd.Integer] [ho : obj.Integer] [htmp : tmp.Integer]

instance lawful_decodeKlass [ha : tmp.Apart rd] : Lawful (decodeKlass rd tmp) := by
  have : Unbroken (check (tmp ≠ rd) fun _ => "scratch " ++ tmp.abiName ++ " aliases the klass") :=
    unbroken_check (decide_eq_true ha.ne)
  unfold decodeKlass
  infer_instance

instance lawful_loadKlass [tmp.Apart rd] : Lawful (loadKlass rd obj tmp) := by
  unfold loadKlass
  infer_instance

instance lawful_membar (order : MemoryOrder) : Lawful (membar order) := by
  unfold membar
  dsimp only
  infer_instance

instance lawful_cmpxchgptr (old new addr tmp : Reg) [old.Integer] [new.Integer] [addr.Integer] [tmp.Integer]
    (succeed : Label)
    (fail : Option Label) : Lawful (cmpxchgptr old new addr tmp succeed fail) := by
  unfold cmpxchgptr
  cases fail <;> (dsimp only; infer_instance)

end

section
variable (r : LockRegs) (slow : Label) [r.obj.Integer] [r.lock.Integer] [r.hdr.Integer] [r.scratch.Integer]

instance lawful_fastLock : Lawful (fastLock r slow) := by
  unfold fastLock
  infer_instance

instance lawful_fastUnlock : Lawful (fastUnlock r slow) := by
  unfold fastUnlock
  infer_instance

end

/-! ## Frames -/

instance lawful_buildFrame (size : Int64) : Lawful (buildFrame size) := by
  have := lawful_storeOff sp .sd (r := ra) rfl rfl rfl (size - 8) t0
  have := lawful_storeOff sp .sd (r := fp) rfl rfl rfl (size - 16) t0
  unfold buildFrame
  infer_instance

instance lawful_removeFrame (size : Int64) : Lawful (removeFrame size) := by
  have := lawful_loadOff sp .ld (r := ra) rfl rfl rfl (size - 8) t0
  have := lawful_loadOff sp .ld (r := fp) rfl rfl rfl (size - 16) t0
  unfold removeFrame
  infer_instance

instance lawful_setLastJavaFrame (lastSp lastFp : Reg) [lastSp.Integer] [lastFp.Integer] (pc : Label)
    (tmp : Reg) [tmp.Integer] :
    Lawful (setLastJavaFrame lastSp lastFp pc tmp) := by
  unfold setLastJavaFrame
  infer_instance

instance lawful_resetLastJavaFrame (clearFp : Bool) : Lawful (resetLastJavaFrame clearFp) := by
  unfold resetLastJavaFrame
  infer_instance

instance lawful_storeThreadState (state : Int64) : Lawful (storeThreadState state) := by
  unfold storeThreadState
  infer_instance

theorem lawful_storeReg {r : Reg} (hr : r.isValid = true) (off : Int64) [Short off] :
    Lawful (store (storeOpFor r) r sp off) := by
  cases r with
  | x n => exact lawful_store sp .sd (r := .x n) rfl rfl rfl off
  | f n => exact lawful_store sp .fsd (r := .f n) rfl rfl rfl off
  | none => cases hr

theorem lawful_loadReg {r : Reg} (hr : r.isValid = true) (off : Int64) [Short off] :
    Lawful (load (loadOpFor r) r sp off) := by
  cases r with
  | x n => exact lawful_load sp .ld (r := .x n) rfl rfl rfl off
  | f n => exact lawful_load sp .fld (r := .f n) rfl rfl rfl off
  | none => cases hr

/-- Registers that can be saved below the stack pointer. -/
def Pushable (regs : List Reg) : Prop :=
  isImm12 (pushedSize regs) = true ∧ isImm12 (-pushedSize regs) = true ∧
    ∀ q ∈ regs.zipIdx, q.1.isValid = true ∧ isImm12 (Int64.ofNat (8 * q.2)) = true

theorem lawful_pushRegs {regs : List Reg} (h : Pushable regs) : Lawful (pushRegs regs) := by
  obtain ⟨-, hdown, hregs⟩ := h
  have : Short (-pushedSize regs) := ⟨hdown⟩
  have : Lawful (regs.zipIdx.forM fun q => store (storeOpFor q.1) q.1 sp (Int64.ofNat (8 * q.2))) :=
    lawful_forM fun q hq => by
      have : Short (Int64.ofNat (8 * q.2)) := ⟨(hregs q hq).2⟩
      exact lawful_storeReg (hregs q hq).1 _
  unfold pushRegs
  dsimp only
  infer_instance

theorem lawful_popRegs {regs : List Reg} (h : Pushable regs) : Lawful (popRegs regs) := by
  obtain ⟨hup, -, hregs⟩ := h
  have : Short (pushedSize regs) := ⟨hup⟩
  have : Lawful (regs.zipIdx.forM fun q => load (loadOpFor q.1) q.1 sp (Int64.ofNat (8 * q.2))) :=
    lawful_forM fun q hq => by
      have : Short (Int64.ofNat (8 * q.2)) := ⟨(hregs q hq).2⟩
      exact lawful_loadReg (hregs q hq).1 _
  unfold popRegs
  dsimp only
  infer_instance

end Asm

end RiscvJit
