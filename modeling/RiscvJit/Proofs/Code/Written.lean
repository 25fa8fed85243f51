import RiscvJit.Proofs.Code.Composed

/-
  RiscvJit.Proofs.Code.Written — work that writes items, whatever they do.

  `Asm.Traced x`: when the work `x` ends normally, what it wrote is a list of items, none of them
  an entry point. This is so for single instructions and labels, and for what is made of them by
  sequencing, choice and repetition; as a class it is found by the shape of the work.

  Barriers next to each other are merged, which is the one thing that changes a word already
  written without a label. No work here writes two barriers without an instruction in between:
  after an instruction the assembler is `Spaced`, and then a barrier is a word of its own
  (`fence_sealed`).
-/

namespace RiscvJit

open Asm

/-! ## Barriers -/

namespace Assembler

/-- The last barrier was written before the current offset. -/
def Behind (a : Assembler) : Prop :=
  a.buf.failed = false → ∀ f, a.lastFence = some f → f + 4 ≤ a.buf.offset

/-- There is an instruction since the last barrier. -/
def Spaced (a : Assembler) : Prop :=
  a.buf.failed = false → ∀ f, a.lastFence = some f → f + 4 < a.buf.offset

end Assembler

section
variable {t : Target} {a b a' : Assembler}

theorem offset_emit4_working {b : CodeBuffer} {w : UInt32} (h : (b.emit4 w).failed = false) :
    (b.emit4 w).offset = b.offset + 4 := by
  unfold CodeBuffer.emit4 at h ⊢
  split at h
  case _ hf => rw [hf] at h; cases h
  case _ hf =>
    rw [if_neg hf]
    split at h
    · cases h
    case _ hroom =>
      rw [if_neg hroom]
      simp only [CodeBuffer.offset, Array.size_push]

/-- The machine word that was written is all that was. -/
theorem Asm.offset_emit {o : Op} {rd rs1 rs2 : Reg} {imm : Int64} {aqrl : UInt32}
    (h : emit o rd rs1 rs2 imm aqrl t a = .ok ((), a'))
    (hw : a'.buf.failed = false) : a'.buf.offset = a.buf.offset + 4 ∧ a.buf.failed = false := by
  obtain ⟨-, rfl⟩ := emit_eq_ok.mp h
  refine ⟨offset_emit4_working hw, ?_⟩
  cases hf : a.buf.failed with
  | false => rfl
  | true => rw [show (a.buf.emit4 _).failed = true from (codeOnly_emit4 a _).failed hf] at hw; cases hw

theorem Asm.offset_lift_emit {e : Except Fault Unit} {o : Op} {rd rs1 rs2 : Reg} {imm : Int64} {aqrl : UInt32}
    (h : (do liftM e; emit o rd rs1 rs2 imm aqrl) t a = .ok ((), a')) (hw : a'.buf.failed = false) :
    a'.buf.offset = a.buf.offset + 4 ∧ a.buf.failed = false := by
  obtain ⟨_, b, hlift, hemit⟩ := bind_eq_ok.mp h
  obtain ⟨-, rfl⟩ := lift_eq_ok.mp hlift
  exact offset_emit hemit hw

theorem Item.behind {i : Item} (h : i.run t a = .ok ((), b)) (ha : a.Behind) : b.Behind := by
  have steady := Item.steady h
  intro hw f hf
  have hwa : a.buf.failed = false := by
    cases hfa : a.buf.failed with
    | false => rfl
    | true => rw [steady.failed hfa] at hw; cases hw
  have keep (e : b.lastFence = a.lastFence) : f + 4 ≤ b.buf.offset := by
    rw [e] at hf
    exact Nat.le_trans (ha hwa f hf) steady.offset
  cases i with
  | word w => cases h; exact keep rfl
  | call c => exact keep (c.codeOnly t a () b h).fence
  | barrier w =>
    cases h
    cases hf
    exact Nat.le_of_eq (offset_emit4_working hw).symm
  | entry name => cases h; exact keep rfl
  | map m => rcases addOopMap_cases h with ⟨-, rfl⟩ | ⟨-, maps, -, rfl⟩ <;> exact keep rfl
  | stub name size =>
    obtain ⟨ok, a1, hstart, e⟩ := bind_eq_ok.mp h
    obtain ⟨-, rfl⟩ := pure_eq_ok.mp e
    obtain ⟨buf, rfl, -⟩ := startStub_cases hstart
    exact keep rfl
  | endStub =>
    obtain ⟨-, rfl⟩ := endStub_eq_ok h
    exact keep rfl

theorem Trace.behind {items : List Item} (h : Trace t items a a') (ha : a.Behind) : a'.Behind := by
  induction h with
  | nil a => exact ha
  | cons _ hrun _ ih => exact ih (Item.behind hrun ha)

/-- After an instruction no barrier is left that another is merged into. -/
theorem mergeable_none_of_spaced (ha : a.Spaced) : a.mergeable? = none := by
  unfold Assembler.mergeable?
  cases hf : a.lastFence with
  | none => rfl
  | some f =>
    cases hw : a.buf.failed with
    | true => simp
    | false =>
      have := ha hw f hf
      simp only [Bool.not_false, Bool.and_true, ite_eq_right_iff, Bool.and_eq_true, decide_eq_true_eq]
      omega

/-- A barrier that is not merged is a word of its own. -/
theorem fence_sealed {pred succ : Int64} (hnone : a.mergeable? = none) (h : Asm.fence pred succ t a = .ok ((), b)) :
    b = { a with lastFence := some a.buf.offset, buf := a.buf.emit4 (Assembler.fenceWord (pred <<< 4 ||| succ)) } := by
  have hrun : a.fence pred succ = .ok b := change_eq_ok.mp h
  unfold Assembler.fence at hrun
  rw [hnone] at hrun
  cases hrun
  rfl

end

/-! ## Work that writes items -/

namespace Asm

/-- What the work wrote, when it ended normally, is a list of items without entry points. -/
class Traced {α : Type} (x : Asm α) : Prop where
  trace : ∀ t a r a', a.Behind → x t a = .ok (r, a') → ∃ items, Trace t items a a' ∧ ∀ name, Item.entry name ∉ items

section
variable {α β : Type}

instance traced_pure (r : α) : Traced (pure r : Asm α) where
  trace t a s a' _ h := by
    obtain ⟨-, rfl⟩ := pure_eq_ok.mp h
    exact ⟨[], .nil a, fun _ => List.not_mem_nil⟩

instance traced_lift (e : Except Fault α) : Traced (liftM e : Asm α) where
  trace t a s a' _ h := by
    obtain ⟨-, rfl⟩ := lift_eq_ok.mp h
    exact ⟨[], .nil _, fun _ => List.not_mem_nil⟩

instance traced_get : Traced (get : Asm Assembler) where
  trace t a s a' _ h := by
    cases h
    exact ⟨[], .nil _, fun _ => List.not_mem_nil⟩

instance traced_read : Traced (read : Asm Target) where
  trace t a s a' _ h := by
    cases h
    exact ⟨[], .nil _, fun _ => List.not_mem_nil⟩

instance traced_bind (x : Asm α) (f : α → Asm β) [hx : Traced x] [hf : ∀ r, Traced (f r)] : Traced (x >>= f) where
  trace t a s a' ha h := by
    obtain ⟨r, b, hr, hs⟩ := bind_eq_ok.mp h
    obtain ⟨is, htrace, hfree⟩ := hx.trace t a r b ha hr
    obtain ⟨js, htrace', hfree'⟩ := (hf r).trace t b s a' (htrace.behind ha) hs
    refine ⟨is ++ js, htrace.append htrace', fun name hmem => ?_⟩
    rcases List.mem_append.mp hmem with hmem | hmem
    · exact hfree name hmem
    · exact hfree' name hmem

instance traced_seq (x : Asm α) (y : Asm β) [Traced x] [Traced y] : Traced (x >>= fun _ => y) := traced_bind x _

instance traced_ite (c : Prop) [Decidable c] (x y : Asm α) [hx : Traced x] [hy : Traced y] :
    Traced (if c then x else y) := by
  split
  · exact hx
  · exact hy

instance traced_forM (xs : List β) (f : β → Asm Unit) [hf : ∀ x, Traced (f x)] : Traced (xs.forM f) := by
  induction xs with
  | nil => exact traced_pure ()
  | cons x xs ih => exact traced_bind (f x) fun _ => xs.forM f

theorem traced_one {x : Asm α} {i : Item} (hp : i.Proper) (hi : ∀ name, i ≠ .entry name)
    (h : ∀ t a r a', x t a = .ok (r, a') → i.run t a = .ok ((), a')) : Traced x where
  trace t a r a' _ hx := by
    refine ⟨[i], .cons hp (h t a r a' hx) (.nil a'), fun name hmem => ?_⟩
    exact hi name (List.mem_singleton.mp hmem).symm

end

/-! ## Instructions and labels -/

instance traced_emit (o : Op) (rd rs1 rs2 : Reg) (imm : Int64) (aqrl : UInt32) :
    Traced (emit o rd rs1 rs2 imm aqrl) := by
  refine traced_one (i := .word (o.encode rd rs1 rs2 imm aqrl)) trivial nofun fun t a _ a' h => ?_
  rw [(emit_eq_ok.mp h).2]
  rfl

theorem traced_call (c : Call) (hc : c.Proper) : Traced c.run :=
  traced_one (i := .call c) hc nofun fun _ _ _ _ h => h

instance traced_newLabel : Traced newLabel := by
  refine traced_one (i := .call .newLabel) trivial nofun fun t a r a' h => ?_
  cases h
  rfl

instance traced_addOopMap (m : OopMap) : Traced (addOopMap m) :=
  traced_one (i := .map m) trivial nofun fun _ _ _ _ h => h

instance traced_startStub (name : String) (size : Int64) : Traced (startStub name size) :=
  traced_one (i := .stub name size) trivial nofun fun _ _ _ _ h => bind_eq_ok.mpr ⟨_, _, h, rfl⟩

instance traced_endStub : Traced endStub := traced_one (i := .endStub) trivial nofun fun _ _ _ _ h => h

/-! ## Calls of known addresses -/

instance traced_opts : Traced opts := by
  unfold opts
  infer_instance

variable (target : UInt64)

/-- A short jump is only chosen when the distance fits. -/
instance traced_farCall (link tmp : Reg) : Traced (farCall target link tmp) := by
  unfold farCall movptrWithOffset auipc jalr lui addi slli shiftI ri
  refine @traced_bind _ _ get _ traced_get fun a => ?_
  dsimp only
  split
  case _ hnear =>
    rw [jalOffset, if_pos (Bool.and_eq_true_iff.mp hnear).2]
    infer_instance
  case _ => infer_instance

instance traced_entryAddress (e : RuntimeEntry) : Traced (entryAddress e) := by
  unfold entryAddress
  infer_instance

instance traced_callAddress : Traced (call target) := traced_farCall ..
instance traced_jump : Traced (jump target) := traced_farCall ..

/-! ## Sequences -/

theorem closed_traced : Closed false @Traced where
  pure := traced_pure
  lift e := traced_lift e
  bind hx hf := @traced_bind _ _ _ _ hx hf
  opts _ hf := @traced_bind _ _ opts _ traced_opts hf
  newLabel := traced_newLabel
  call := traced_call
  routine _ _ _ := inferInstance
  barrier _ _ h := nomatch h

instance (priority := low) traced_of_composed {α : Type} (x : Asm α) [hx : Composed false x] : Traced x :=
  hx.has closed_traced

/-! ## Sequences with barriers -/

/-- There is an instruction between the last barrier and what comes after the work. -/
def Spaces {α : Type} (x : Asm α) : Prop := ∀ t a r a', a.Behind → x t a = .ok (r, a') → a'.Spaced

section
variable {α β : Type}

theorem spaces_emit {o : Op} {rd rs1 rs2 : Reg} {imm : Int64} {aqrl : UInt32} :
    Spaces (emit o rd rs1 rs2 imm aqrl) := by
  intro t a r a' ha h
  obtain ⟨-, rfl⟩ := emit_eq_ok.mp h
  intro hw f hf
  have hwa : a.buf.failed = false := by
    cases hfa : a.buf.failed with
    | false => rfl
    | true => rw [show (a.buf.emit4 _).failed = true from (codeOnly_emit4 a _).failed hfa] at hw; cases hw
  have := ha hwa f hf
  have := offset_emit4_working hw
  show f + 4 < (a.buf.emit4 _).offset
  omega

theorem Spaces.after {x : Asm α} {f : α → Asm β} [hx : Traced x] (hf : ∀ r, Spaces (f r)) : Spaces (x >>= f) := by
  intro t a s a' ha h
  obtain ⟨r, b, hr, hs⟩ := bind_eq_ok.mp h
  obtain ⟨is, htrace, -⟩ := hx.trace t a r b ha hr
  exact hf r t b s a' (htrace.behind ha) hs

variable {x : Asm α}

/-- Labels may be bound or referred to after the instruction. -/
theorem Spaces.refer (hx : Spaces x) {f : α → Asm β} (hf : ∀ r, (f r).CodeOnly) : Spaces (x >>= f) := by
  intro t a s a' ha h
  obtain ⟨r, b, hr, hs⟩ := bind_eq_ok.mp h
  have hspaced := hx t a r b ha hr
  have hcode := hf r t b s a' hs
  intro hw g hg
  rw [hcode.fence] at hg
  have hwb : b.buf.failed = false := by
    cases hfb : b.buf.failed with
    | false => rfl
    | true => rw [hcode.failed hfb] at hw; cases hw
  exact Nat.lt_of_lt_of_le (hspaced hwb g hg) hcode.offset

theorem spaces_branch (o : Op) (rs1 rs2 : Reg) (l : Label) : Spaces (branch o rs1 rs2 l) := by
  refine fun t a r a' ha h => ?_
  obtain ⟨off, b, hoff, h⟩ := bind_eq_ok.mp h
  cases hoff
  exact spaces_emit.refer (fun _ => codeOnly_refer _ _ _) t a r a' ha h

theorem spaces_mv {rd rs : Reg} (h : rd ≠ rs) : Spaces (mv rd rs) := by
  unfold mv
  rw [if_neg h]
  split
  · exact spaces_emit
  · exact Spaces.after fun _ => spaces_emit

theorem constSteps_ne_nil (toZero : Bool) (n : Nat) (imm : Int64) : constSteps toZero (n + 1) imm ≠ [] := by
  rw [constSteps]
  split
  · rw [constSteps32]
    split <;> simp
  · simp

theorem spaces_constStep (rd : Reg) (s : ConstStep) : Spaces (constStep rd s) := by
  cases s with
  | lui imm => exact spaces_emit
  | start imm => exact Spaces.after fun _ => spaces_emit
  | addiw imm => exact Spaces.after fun _ => spaces_emit
  | slli n => exact spaces_emit
  | addi imm => exact Spaces.after fun _ => spaces_emit

theorem spaces_forM {xs : List β} {f : β → Asm Unit} [∀ x, Traced (f x)] (hf : ∀ x, Spaces (f x)) (hne : xs ≠ []) :
    Spaces (xs.forM f) := by
  induction xs with
  | nil => exact absurd rfl hne
  | cons x xs ih =>
    cases xs with
    | nil =>
      show Spaces (f x >>= fun _ => pure PUnit.unit)
      exact (hf x).refer fun _ => codeOnly_pure _
    | cons y ys => exact Spaces.after (x := f x) fun _ => ih (by simp)

theorem spaces_li (rd : Reg) (imm : Int64) : Spaces (li rd imm) :=
  spaces_forM (spaces_constStep rd) (constSteps_ne_nil _ _ _)

/-- No barrier stands at the end of what was written, so that one that follows is a barrier of its own. -/
def Seals {α : Type} (x : Asm α) : Prop := ∀ t a r a', a.Behind → x t a = .ok (r, a') → a'.mergeable? = none

theorem Spaces.seals (h : Spaces x) : Seals x := fun t a r a' ha hrun =>
  mergeable_none_of_spaced (h t a r a' ha hrun)

/-- What a barrier of its own writes. -/
theorem membar_sealed {t : Target} {a b : Assembler} {order : MemoryOrder} (hnone : a.mergeable? = none)
    (h : membar order t a = .ok ((), b)) : Trace t [] a b ∨
      Trace t [.barrier (Assembler.fenceWord ((fenceSets order).1 <<< 4 ||| (fenceSets order).2))] a b := by
  unfold membar at h
  dsimp only at h
  split at h
  · right
    rw [fence_sealed hnone h]
    exact .cons trivial rfl (.nil _)
  · obtain ⟨-, rfl⟩ := pure_eq_ok.mp h
    exact .inl (.nil a)

/-- A barrier of its own between other work. -/
theorem traced_barrier {f : α → Asm β} [hx : Traced x] [hf : ∀ r, Traced (f r)] (hs : Seals x) (order : MemoryOrder) :
    Traced (do let r ← x; membar order; f r) where
  trace t a s a' ha h := by
    obtain ⟨r, b, hr, h⟩ := bind_eq_ok.mp h
    obtain ⟨_, c, hbar, h⟩ := bind_eq_ok.mp h
    obtain ⟨is, htrace, hfree⟩ := hx.trace t a r b ha hr
    obtain ⟨js, hbarrier, hjs⟩ : ∃ js, Trace t js b c ∧ ∀ name, Item.entry name ∉ js := by
      rcases membar_sealed (hs t a r b ha hr) hbar with h | h
      · exact ⟨[], h, fun _ => List.not_mem_nil⟩
      · exact ⟨_, h, fun _ hmem => nomatch List.mem_singleton.mp hmem⟩
    have hfirst := htrace.append hbarrier
    obtain ⟨ks, hlast, hks⟩ := (hf r).trace t c s a' (hfirst.behind ha) h
    refine ⟨(is ++ js) ++ ks, hfirst.append hlast, fun name hmem => ?_⟩
    rcases List.mem_append.mp hmem with hmem | hmem
    · rcases List.mem_append.mp hmem with hmem | hmem
      · exact hfree name hmem
      · exact hjs name hmem
    · exact hks name hmem

/-- A barrier between other work, the first of which ends with an instruction. -/
theorem traced_membar {f : Asm β} [Traced x] [Traced f] (hs : Spaces x) (order : MemoryOrder) :
    Traced (do let _ ← x; membar order; f) := traced_barrier (f := fun _ => f) hs.seals order

end

instance traced_storeThreadState (state : Int64) : Traced (storeThreadState state) :=
  traced_membar (spaces_li _ _) _

end Asm

end RiscvJit
