import RiscvJit.Proofs.Code.Composed

/-
  RiscvJit.Proofs.Code.Naming — the name of a piece of code does not matter to its code.

  A buffer has a name, which appears in the reason of a bailout and in the finished blob. Work is
  `NameFree` when it does the same in a buffer of another name: same result or fault, same bytes,
  same labels and entry points. Single instructions, labels and jumps are, and so is what is made
  of such work by sequencing and branching (`NameFree.bind`, `nameFree_ite`), so every sequence composed of
  statements is (`closed_nameFree`).
-/

namespace RiscvJit

open Assembler (patchUse patchHigh)

/-! ## Buffers of another name -/

namespace CodeBuffer

/-- The buffer under another name. -/
def named (b : CodeBuffer) (n : String) : CodeBuffer := { b with name := n }

variable (b : CodeBuffer) (n : String)

theorem fail_named (reason : String) : (b.named n).fail reason = (b.fail reason).named n := by
  unfold fail
  rw [show (b.named n).failed = b.failed from rfl]
  split <;> rfl

theorem emit4_named (w : UInt32) : (b.named n).emit4 w = (b.emit4 w).named n := by
  unfold emit4
  rw [show (b.named n).failed = b.failed from rfl]
  split
  · rfl
  · rw [show (b.named n).capacity = b.capacity from rfl, show (b.named n).offset = b.offset from rfl]
    split <;> rfl

theorem wordAt_named (off : Int64) : (b.named n).wordAt off = b.wordAt off := rfl

theorem patch_named (off : Int64) (w : UInt32) : (b.named n).patch off w = (b.patch off w).map (·.named n) := by
  unfold patch
  rw [show (b.named n).offset = b.offset from rfl]
  simp only
  split
  · rfl
  · split <;> rfl

theorem patchUse_named (u : LabelUse) (target : Int64) :
    patchUse (b.named n) u target = (patchUse b u target).map (·.named n) := by
  unfold patchUse
  rw [show (b.named n).failed = b.failed from rfl]
  split
  · rfl
  · simp only [wordAt_named, patch_named, fail_named]
    cases b.wordAt u.offset with
    | error e => rfl
    | ok w =>
      simp only [bind, Except.bind]
      split
      · split <;> rfl
      · split <;> rfl
      · cases b.patch u.offset (patchHigh w (target - u.offset)) with
        | error e => rfl
        | ok b' =>
          simp only [Except.map, wordAt_named, patch_named]
          cases b'.wordAt (u.offset + 4) <;> rfl
      · rfl

theorem patchUses_named (us : Array LabelUse) (target : Int64) :
    us.foldlM (fun b u => patchUse b u target) (b.named n) =
      (us.foldlM (fun b u => patchUse b u target) b).map (·.named n) := by
  rw [← Array.foldlM_toList, ← Array.foldlM_toList]
  -- Each correction starts from the buffer that the one before left, so the buffer is general.
  induction us.toList generalizing b with
  | nil => rfl
  | cons u us ih =>
    rw [List.foldlM_cons, List.foldlM_cons, patchUse_named]
    cases patchUse b u target with
    | error e => rfl
    | ok b' => exact ih b'

end CodeBuffer

/-- The assembler with its buffer under another name. -/
def Assembler.named (a : Assembler) (n : String) : Assembler := { a with buf := a.buf.named n }

namespace Asm

/-- The work does the same in a buffer of another name. -/
def NameFree {α : Type} (x : Asm α) : Prop :=
  ∀ t a n, x t (a.named n) = (x t a).map fun p => (p.1, p.2.named n)

section
variable {α β : Type}

theorem nameFree_pure {r : α} : NameFree (pure r) := fun _ _ _ => rfl

theorem NameFree.bind {x : Asm α} {f : α → Asm β} (hx : NameFree x) (hf : ∀ r, NameFree (f r)) :
    NameFree (x >>= f) := by
  intro t a n
  show (x t (a.named n) >>= fun p => f p.1 t p.2) = (x t a >>= fun p => f p.1 t p.2).map _
  rw [hx t a n]
  cases x t a with
  | error e => rfl
  | ok p => exact hf p.1 t p.2 n

/-- What work reads of the assembler may not be the name. -/
theorem nameFree_get {f : Assembler → Asm α} (hf : ∀ a, NameFree (f a)) (hsame : ∀ a n, f (Assembler.named a n) = f a) :
    NameFree (get >>= f) := by
  intro t a n
  show f (a.named n) t (a.named n) = (f a t a).map _
  rw [hsame, hf a t a n]

theorem nameFree_read : NameFree (read : Asm Target) := fun _ _ _ => rfl

theorem nameFree_opts : NameFree opts := fun _ _ _ => rfl

theorem nameFree_lift {e : Except Fault α} : NameFree (liftM e : Asm α) := by
  intro t a n
  cases e <;> rfl

theorem nameFree_ite {c : Prop} [Decidable c] {x y : Asm α} (hx : NameFree x) (hy : NameFree y) :
    NameFree (if c then x else y) := by
  split
  · exact hx
  · exact hy

theorem nameFree_change {f : Assembler → Except Fault Assembler}
    (hf : ∀ a n, f (a.named n) = (f a).map (·.named n)) : NameFree (change f) := by
  intro t a n
  simp only [change, hf]
  cases f a <;> rfl

theorem nameFree_modifyBuf {f : CodeBuffer → CodeBuffer} (hf : ∀ b n, f (b.named n) = (f b).named n) :
    NameFree (modifyBuf f) := by
  intro t a n
  simp only [modifyBuf, show (a.named n).buf = a.buf.named n from rfl, hf]
  rfl

end

/-! ## Instructions and labels -/

variable {o : Op} {rd rs1 rs2 : Reg} {imm : Int64} {base : Reg} {l : Label} {off : Int64} {tmp : Reg}

theorem nameFree_emit {aqrl : UInt32} : NameFree (emit o rd rs1 rs2 imm aqrl) :=
  nameFree_lift.bind fun _ => nameFree_modifyBuf fun b n => b.emit4_named n _

theorem nameFree_ri : NameFree (ri o rd rs1 imm) :=
  nameFree_lift.bind fun _ => nameFree_emit

theorem nameFree_jalr : NameFree (jalr rd base off) :=
  nameFree_lift.bind fun _ => nameFree_emit

theorem nameFree_jalOffset : NameFree (jalOffset rd off) :=
  nameFree_ite nameFree_emit (nameFree_modifyBuf fun b n => b.fail_named n _)

theorem nameFree_newLabel : NameFree newLabel := fun _ _ _ => rfl

theorem nameFree_offset : NameFree offset := fun _ _ _ => rfl

theorem nameFree_markEntry (name : String) : NameFree (markEntry name) := fun _ _ _ => rfl

theorem nameFree_bind : NameFree (Asm.bind l) := by
  refine nameFree_change fun a n => ?_
  unfold Assembler.bind
  rw [show (a.named n).label l = a.label l from rfl, show (a.named n).buf.offset = a.buf.offset from rfl]
  cases a.label l with
  | error e => rfl
  | ok s =>
    show (s.bind (Int64.ofNat a.buf.offset) >>= _) = Except.map _ (s.bind (Int64.ofNat a.buf.offset) >>= _)
    cases s.bind (Int64.ofNat a.buf.offset) with
    | error e => rfl
    | ok p =>
      show (Array.foldlM _ (a.buf.named n) p.1 >>= _) = Except.map _ (Array.foldlM _ a.buf p.1 >>= _)
      rw [CodeBuffer.patchUses_named]
      cases p.1.foldlM (fun b u => patchUse b u (Int64.ofNat a.buf.offset)) a.buf <;> rfl

theorem nameFree_refer {kind : UInt8} : NameFree (refer l off kind) := by
  refine nameFree_change fun a n => ?_
  unfold Assembler.refer
  rw [show (a.named n).label l = a.label l from rfl]
  cases a.label l with
  | error e => rfl
  | ok s =>
    cases hpos : s.position? with
    | none => simp only [Bind.bind, Except.bind, hpos]; rfl
    | some pos =>
      simp only [Bind.bind, Except.bind, hpos, show (a.named n).buf = a.buf.named n from rfl,
        CodeBuffer.patchUse_named]
      cases patchUse a.buf ⟨off, kind⟩ pos <;> rfl

theorem nameFree_branch : NameFree (branch o rs1 rs2 l) :=
  nameFree_offset.bind fun _ => nameFree_emit.bind fun _ => nameFree_refer

theorem nameFree_isNear : NameFree (isNear l) := by
  refine nameFree_get (fun a => nameFree_lift.bind fun s => ?_) fun a n => rfl
  cases s.position? <;> exact nameFree_pure

theorem nameFree_jal : NameFree (jal rd l) :=
  nameFree_offset.bind fun _ => nameFree_emit.bind fun _ => nameFree_refer

theorem nameFree_bcond : NameFree (bcond o rs1 rs2 l) :=
  nameFree_isNear.bind fun _ => nameFree_ite nameFree_branch
    (nameFree_lift.bind fun _ => nameFree_emit.bind fun _ => nameFree_jal)

/-! ## Sequences -/

theorem nameFree_movptrWithOffset {addr : UInt64} : NameFree (movptrWithOffset rd addr) :=
  nameFree_lift.bind fun _ => nameFree_emit.bind fun _ => nameFree_ri.bind fun _ =>
    nameFree_emit.bind fun _ => nameFree_ri.bind fun _ => nameFree_emit.bind fun _ =>
      nameFree_pure

theorem nameFree_farCall {target : UInt64} {link : Reg} : NameFree (farCall target link tmp) :=
  nameFree_get (fun _ => nameFree_ite nameFree_jalOffset <| nameFree_ite
      (nameFree_emit.bind fun _ => nameFree_jalr)
      (nameFree_movptrWithOffset.bind fun _ => nameFree_jalr))
    fun _ _ => rfl

theorem closed_nameFree : Closed false @NameFree where
  pure _ := nameFree_pure
  lift _ := nameFree_lift
  bind := NameFree.bind
  opts _ hf := nameFree_opts.bind hf
  newLabel := nameFree_newLabel
  call c _ := by
    cases c with
    | plain => exact nameFree_emit
    | branch => exact nameFree_branch
    | bcond => exact nameFree_bcond
    | jal => exact nameFree_jal
    | la => exact nameFree_offset.bind fun _ => nameFree_emit.bind fun _ => nameFree_emit.bind fun _ => nameFree_refer
    | newLabel => exact nameFree_newLabel.bind fun _ => nameFree_pure
    | bind => exact nameFree_bind
  routine _ _ _ := (nameFree_read.bind fun _ => nameFree_lift).bind fun _ => nameFree_farCall
  barrier _ _ h := nomatch h

end Asm

end RiscvJit
