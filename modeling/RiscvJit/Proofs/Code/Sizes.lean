import RiscvJit.Proofs.Code.CapacitySequences
import RiscvJit.Proofs.Code.ConstantCode

/-
  RiscvJit.Proofs.Code.Sizes — how many bytes pieces of work may take.

  `CodeBuffer.Spent n b c`: from one buffer to the next at most `n` bytes are written, in whole words, and where
  there is room for so many, the code does not overflow. What two pieces of work take adds up (`Spent.trans`), so
  a bound is found by the shape of the work: `Asm.Takes x n` computes it from the bounds of single instructions.

  A constant takes 32 bytes, but one that is a word, or 2^31, takes eight; the far form of a load or a store is
  shorter accordingly. A call takes 24 bytes in its longest form.
-/

namespace RiscvJit

open Reg (zr ra sp t0)

/-! ## Bytes that are spent -/

namespace CodeBuffer

theorem overflow_apart : branchOutOfRange ≠ codeOverflow := by decide

/-- From one buffer to the next at most `n` bytes are written, in whole words, and stubs stay as they are. Where there
is room for so many the code does not overflow; otherwise a jump may have been too long. -/
structure Spent (n : Nat) (b c : CodeBuffer) : Prop where
  capacity : c.capacity = b.capacity
  stubs : b.SameStubs c
  whole : 4 ∣ b.offset → 4 ∣ c.offset
  grows : b.offset ≤ c.offset
  size : c.offset ≤ b.offset + n
  reason : c.failure = b.failure ∨ c.failure = codeOverflow ∨ c.failure = branchOutOfRange
  fits : b.offset + n ≤ b.capacity → c.failure = codeOverflow → b.failure = codeOverflow

section
variable {n m : Nat} {b c d : CodeBuffer}

theorem spent_refl (b : CodeBuffer) : b.Spent 0 b :=
  ⟨rfl, b.sameStubs_refl, id, Nat.le_refl _, Nat.le_refl _, .inl rfl, fun _ => id⟩

theorem Spent.trans (h : b.Spent n c) (h' : c.Spent m d) : b.Spent (n + m) d where
  capacity := h'.capacity.trans h.capacity
  stubs := h.stubs.trans h'.stubs
  whole := h'.whole ∘ h.whole
  grows := Nat.le_trans h.grows h'.grows
  size := by
    have := h.size
    have := h'.size
    omega
  reason := by
    rcases h'.reason with hsame | hnew
    · rw [hsame]
      exact h.reason
    · exact .inr hnew
  fits hroom hover := by
    have hsize := h.size
    have hcapacity := h.capacity
    refine h.fits (by omega) (h'.fits ?_ hover)
    rw [hcapacity]
    omega

theorem Spent.weaken (h : b.Spent n c) (hle : n ≤ m) : b.Spent m c :=
  { h with
    size := Nat.le_trans h.size (Nat.add_le_add_left hle _)
    fits := fun hroom => h.fits (Nat.le_trans (Nat.add_le_add_left hle _) hroom) }

/-! ## Writing and patching -/

theorem spent_emit4 (b : CodeBuffer) (w : UInt32) : b.Spent 4 (b.emit4 w) := by
  unfold emit4
  split
  · exact (spent_refl _).weaken (Nat.zero_le 4)
  · split
    · exact ⟨rfl, ⟨rfl, rfl⟩, id, Nat.le_refl _, Nat.le_add_right _ 4, .inr (.inl rfl), fun hroom =>
        absurd hroom (by omega)⟩
    · have hsize : ∀ v, CodeBuffer.offset { b with bytes :=
          (((b.bytes.push (byteAt v 0)).push (byteAt v 1)).push (byteAt v 2)).push (byteAt v 3) } = b.offset + 4 := by
        intro v
        simp only [offset, Array.size_push]
      refine ⟨rfl, ⟨rfl, rfl⟩, ?_, ?_, ?_, .inl rfl, fun _ => id⟩ <;> rw [hsize] <;> omega

theorem spent_fail (b : CodeBuffer) : b.Spent 0 (b.fail branchOutOfRange) := by
  unfold fail
  split
  · exact spent_refl _
  · exact ⟨rfl, ⟨rfl, rfl⟩, id, Nat.le_refl _, Nat.le_refl _, .inr (.inr rfl), fun _ hover => absurd hover overflow_apart⟩

theorem failure_patch {off : Int64} {w : UInt32} (hpatch : b.patch off w = .ok c) : c.failure = b.failure := by
  unfold patch at hpatch
  dsimp only at hpatch
  split at hpatch
  · cases hpatch
    rfl
  · split at hpatch
    · cases hpatch
    · cases hpatch
      rfl

theorem spent_patch {off : Int64} {w : UInt32} (hpatch : b.patch off w = .ok c) : b.Spent 0 c := by
  have hpatched := patched_patch hpatch
  have hfailure := failure_patch hpatch
  have hoffset := hpatched.offset
  exact ⟨hpatched.capacity, hpatched.sameStubs, fun h => hoffset ▸ h, Nat.le_of_eq hoffset.symm,
    Nat.le_of_eq hoffset, .inl hfailure, fun _ hover => hfailure ▸ hover⟩

theorem spent_patchUse {u : LabelUse} {pos : Int64} (hpatch : Assembler.patchUse b u pos = .ok c) : b.Spent 0 c := by
  unfold Assembler.patchUse at hpatch
  split at hpatch
  · cases hpatch
    exact spent_refl _
  · obtain ⟨w, -, hpatch⟩ := except_bind_eq_ok.mp hpatch
    split at hpatch
    · split at hpatch
      · exact spent_patch hpatch
      · cases hpatch
        exact spent_fail b
    · split at hpatch
      · exact spent_patch hpatch
      · cases hpatch
        exact spent_fail b
    · obtain ⟨b', hhigh, hpatch⟩ := except_bind_eq_ok.mp hpatch
      obtain ⟨w', -, hpatch⟩ := except_bind_eq_ok.mp hpatch
      exact (spent_patch hhigh).trans (spent_patch hpatch)
    · cases hpatch

theorem spent_patchUses {us : List LabelUse} {pos : Int64}
    (hpatch : us.foldlM (fun b u => Assembler.patchUse b u pos) b = .ok c) : b.Spent 0 c := by
  induction us generalizing b with
  | nil =>
    cases hpatch
    exact spent_refl _
  | cons u us ih =>
    rw [List.foldlM_cons] at hpatch
    obtain ⟨b', hfirst, hpatch⟩ := except_bind_eq_ok.mp hpatch
    exact (spent_patchUse hfirst).trans (ih hpatch)

end

end CodeBuffer

namespace Asm

open CodeBuffer (spent_refl)

/-- The work takes at most `n` bytes. -/
class Takes {α : Type} (x : Asm α) (n : outParam Nat) : Prop where
  spent : ∀ {t a r a'}, x t a = .ok (r, a') → a.buf.Spent n a'.buf

/-! ## Sequences, choices, repetitions -/

section
variable {α β : Type} {n m : Nat}

theorem Takes.weaken {x : Asm α} (h : Takes x n) (hle : n ≤ m) : Takes x m := ⟨fun hx => (h.spent hx).weaken hle⟩

theorem Takes.andThen {x : Asm α} {f : α → Asm β} (hx : Takes x n) (hf : ∀ t a r b, x t a = .ok (r, b) → Takes (f r) m) :
    Takes (x >>= f) (n + m) where
  spent h := by
    obtain ⟨r, b, hr, hrest⟩ := bind_eq_ok.mp h
    exact (hx.spent hr).trans ((hf _ _ r b hr).spent hrest)

instance takes_bind (x : Asm α) (f : α → Asm β) [hx : Takes x n] [hf : ∀ r, Takes (f r) m] : Takes (x >>= f) (n + m) :=
  hx.andThen fun _ _ r _ _ => hf r

instance takes_seq (x : Asm α) (y : Asm β) [Takes x n] [Takes y m] : Takes (x >>= fun _ => y) (n + m) := takes_bind x _

instance takes_pure (r : α) : Takes (pure r : Asm α) 0 where
  spent h := by
    obtain ⟨-, rfl⟩ := pure_eq_ok.mp h
    exact spent_refl _

instance takes_ite (c : Prop) [Decidable c] (x y : Asm α) [hx : Takes x n] [hy : Takes y m] :
    Takes (if c then x else y) (max n m) := by
  split
  · exact hx.weaken (Nat.le_max_left n m)
  · exact hy.weaken (Nat.le_max_right n m)

theorem takes_forM {xs : List β} {f : β → Asm Unit} (hf : ∀ x ∈ xs, Takes (f x) n) :
    Takes (xs.forM f) (xs.length * n) := by
  induction xs with
  | nil => exact (takes_pure ()).weaken (Nat.zero_le _)
  | cons x xs ih =>
    have hx := hf x List.mem_cons_self
    refine (hx.andThen fun _ _ _ _ _ => ih fun y hy => hf y (List.mem_cons_of_mem _ hy)).weaken ?_
    rw [List.length_cons, Nat.succ_mul, Nat.add_comm]

instance takes_lift (e : Except Fault α) : Takes (liftM e : Asm α) 0 where
  spent h := by
    obtain ⟨-, rfl⟩ := lift_eq_ok.mp h
    exact spent_refl _

/-- What leaves the buffer as it is takes nothing. -/
theorem takes_nothing {x : Asm α} (h : ∀ {t a r a'}, x t a = .ok (r, a') → a'.buf = a.buf) : Takes x 0 where
  spent hx := by
    rw [h hx]
    exact spent_refl _

instance takes_get : Takes (get : Asm Assembler) 0 := takes_nothing fun h => by cases h; rfl
instance takes_read : Takes (read : Asm Target) 0 := takes_nothing fun h => by cases h; rfl
instance takes_newLabel : Takes newLabel 0 := takes_nothing fun h => by cases h; rfl
instance takes_markEntry (name : String) : Takes (markEntry name) 0 := takes_nothing fun h => by cases h; rfl

instance takes_opts : Takes opts 0 := by
  unfold opts
  infer_instance

instance takes_offset : Takes offset 0 := by
  unfold offset
  infer_instance

theorem takes_modifyBuf {f : CodeBuffer → CodeBuffer} (h : ∀ b : CodeBuffer, b.Spent n (f b)) :
    Takes (modifyBuf f) n where
  spent {t a r a'} hx := by
    cases hx
    exact h a.buf

end

/-! ## Instructions and labels -/

section
variable (o : Op) (rd rs1 rs2 base : Reg) (imm off : Int64) (aqrl : UInt32) (l : Label)

instance takes_emit : Takes (emit o rd rs1 rs2 imm aqrl) 4 := by
  have := takes_modifyBuf fun b => b.spent_emit4 (o.encode rd rs1 rs2 imm aqrl)
  exact takes_bind (liftM (checkClasses o rd rs1 rs2)) fun _ => modifyBuf (·.emit4 (o.encode rd rs1 rs2 imm aqrl))

instance takes_ri : Takes (ri o rd rs1 imm) 4 := takes_bind (liftM (checkImm12 ..)) fun _ => emit o rd rs1 .none imm 0
instance takes_load : Takes (load o rd base off) 4 := takes_bind (liftM (checkImm12 ..)) fun _ =>
  emit o rd base .none off 0
instance takes_store : Takes (store o rd base off) 4 := takes_bind (liftM (checkImm12 ..)) fun _ =>
  emit o .none base rd off 0
instance takes_jalr : Takes (jalr rd base off) 4 := takes_bind (liftM (checkImm12 ..)) fun _ =>
  emit .jalr rd base .none off 0

instance takes_jalOffset : Takes (jalOffset rd off) 4 := by
  have := takes_modifyBuf CodeBuffer.spent_fail
  unfold jalOffset
  split
  · exact takes_emit ..
  · exact this.weaken (Nat.zero_le 4)

instance takes_bindLabel : Takes (Asm.bind l) 0 where
  spent h := by
    obtain ⟨s, buf, -, -, hbuf, rfl⟩ := bindLabel_eq_ok h
    exact CodeBuffer.spent_patchUses hbuf

instance takes_refer (kind : UInt8) : Takes (refer l off kind) 0 where
  spent h := by
    obtain ⟨s, -, ⟨pos, buf, -, hbuf, rfl⟩ | ⟨-, rfl⟩⟩ := refer_eq_ok h
    · exact CodeBuffer.spent_patchUse hbuf
    · exact spent_refl _

instance takes_branch : Takes (branch o rs1 rs2 l) 4 :=
  takes_bind offset fun off => emit o .none rs1 rs2 0 0 >>= fun _ => refer l (Int64.ofNat off) 0

instance takes_jal : Takes (jal rd l) 4 :=
  takes_bind offset fun off => emit .jal rd .none .none 0 0 >>= fun _ => refer l (Int64.ofNat off) 1

instance takes_isNear : Takes (isNear l) 0 := takes_nothing fun h => congrArg Assembler.buf (isNear_eq_ok h).1

instance takes_bcond : Takes (bcond o rs1 rs2 l) 8 := by
  unfold bcond
  infer_instance

end

/-! ## Constants and addresses -/

section
variable (o : Op) (rd rs base tmp : Reg) (imm off : Int64) {k : Nat}

instance takes_constStep (s : ConstStep) : Takes (constStep rd s) 4 := by
  cases s <;> (unfold constStep; infer_instance)

theorem takes_li_of_length (h : (constSteps (rd = zr) constRounds imm).length ≤ k) : Takes (li rd imm) (4 * k) :=
  (takes_forM fun s _ => takes_constStep rd s).weaken (by omega)

instance takes_li : Takes (li rd imm) 32 := takes_li_of_length rd imm (length_constSteps ..)

instance takes_movptrWithOffset (addr : UInt64) : Takes (movptrWithOffset rd addr) 20 := by
  unfold movptrWithOffset
  dsimp only
  infer_instance

instance takes_mv : Takes (mv rd rs) 4 := by
  unfold mv
  infer_instance

theorem takes_addImm_of (h : Takes (li tmp imm) k) : Takes (addImm rd rs imm tmp) (k + 4) := by
  have hall : Takes (addImm rd rs imm tmp) (max (max 4 0) (0 + (k + 4))) := by
    unfold addImm
    infer_instance
  exact hall.weaken (by omega)

theorem takes_loadOff_of (h : Takes (li tmp (high12 off)) k) : Takes (loadOff o rd base off tmp) (k + 8) := by
  have hall : Takes (loadOff o rd base off tmp) (max 4 (0 + (k + (4 + 4)))) := by
    unfold loadOff
    infer_instance
  exact hall.weaken (by omega)

theorem takes_storeOff_short (h : isImm12 off = true) : Takes (storeOff o rs base off tmp) 4 := by
  unfold storeOff
  rw [if_pos h]
  infer_instance

instance takes_addImm : Takes (addImm rd rs imm tmp) 36 := takes_addImm_of rd rs tmp imm inferInstance

end

/-! ### Words -/

section
variable {rd : Reg} {v : Int64}

/-- The upper part of a word is one step. -/
theorem takes_li_upper (hne : rd ≠ zr) (h : isInt32 (high12 v) = true) : Takes (li rd (high12 v)) 4 := by
  refine takes_li_of_length rd (high12 v) (k := 1) ?_
  have hlow : low12 (high12 v) = 0 := by
    obtain ⟨k, hk⟩ := dvd_high12 v
    rw [← Int64.toInt_inj, toInt_low12, hk]
    exact Int.mul_bmod_right 4096 k
  rw [constRounds, constSteps, if_pos h, constSteps32, hlow, decide_eq_false hne]
  split <;> exact Nat.le_refl 1

end

/-! ## Calls -/

section
variable (target : UInt64) (link tmp : Reg) (e : RuntimeEntry)

instance takes_farCallAt (known : Bool) (rel : Int64) : Takes (farCallAt target link tmp known rel) 24 := by
  unfold farCallAt
  infer_instance

instance takes_farCall : Takes (farCall target link tmp) 24 where
  spent h := by
    rw [farCall_eq] at h
    exact (takes_farCallAt ..).spent h

instance takes_entryAddress : Takes (entryAddress e) 0 := by
  unfold entryAddress
  infer_instance

instance takes_rtCall : Takes (rtCall e) 24 := takes_bind (entryAddress e) fun addr => farCall addr ra t0
instance takes_rtJump : Takes (rtJump e) 24 := takes_bind (entryAddress e) fun addr => farCall addr zr t0

end

/-! ## Barriers, swaps, frames -/

section
variable (regs : List Reg)

instance takes_decodeKlass (rd tmp : Reg) : Takes (decodeKlass rd tmp) 40 := by
  unfold decodeKlass
  infer_instance

instance takes_loadKlass (dst obj tmp : Reg) : Takes (loadKlass dst obj tmp) 44 := by
  unfold loadKlass
  infer_instance

instance takes_enter : Takes enter 16 := by
  unfold enter
  infer_instance

instance takes_leave : Takes leave 16 := by
  unfold leave
  infer_instance

instance takes_pushRegs : Takes (pushRegs regs) (4 + regs.length * 4) := by
  unfold pushRegs
  dsimp only
  have hall : Takes (regs.zipIdx.forM fun (r, i) =>
    store (storeOpFor r) r sp (Int64.ofNat (8 * i))) (regs.zipIdx.length * 4) :=
    takes_forM fun x _ => takes_store ..
  rw [List.length_zipIdx] at hall
  split
  · exact (takes_pure _).weaken (Nat.zero_le _)
  · infer_instance

instance takes_popRegs : Takes (popRegs regs) (regs.length * 4 + 4) := by
  unfold popRegs
  dsimp only
  have hall : Takes (regs.zipIdx.forM fun (r, i) =>
    load (loadOpFor r) r sp (Int64.ofNat (8 * i))) (regs.zipIdx.length * 4) :=
    takes_forM fun x _ => takes_load ..
  rw [List.length_zipIdx] at hall
  split
  · exact (takes_pure _).weaken (Nat.zero_le _)
  · infer_instance

end

end Asm

end RiscvJit
