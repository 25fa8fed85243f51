import RiscvJit.Lir.ProgramFile
import RiscvJit.Proofs.Code.Run

/-
  RiscvJit.Proofs.Lir.Reading — what holds of a program that a file describes.

  Reading a description checks one thing after the other, and what it accepts is an instruction that a file can
  express (`Instruction.Expressible`): an operation from a short list, operands of kinds that have a
  name, and debug information without live operands. It does not count the inputs
  (`Instruction.reads`), and it does not look at labels again once they are positive numbers
  (`program_expressible`).
-/

namespace RiscvJit

/-! ## Instructions of a file -/

/-- A kind that a file can name. -/
class ValueKind.Written (k : ValueKind) : Prop where
  mem : k ∈ Operand.writtenKinds

/-- The operand is of a kind that a file can name. -/
def Operand.Written (o : Operand) : Prop := o.isAbsent = false → o.kind.Written

/-- The number of inputs that lowering an instruction reads. -/
def Instruction.reads (i : Instruction) : Nat :=
  match i.op with
  | .move | .neg | .convert => 1
  | .add | .sub | .mul | .div | .rem | .and | .or | .xor | .shl | .shr | .ushr | .cmp3 => 2
  | .cmpBranch => if i.cond = .always then 0 else 2
  | .cmove => 4
  | _ => 0

/-- An instruction that a file can express. -/
structure Instruction.Expressible (i : Instruction) : Prop where
  op : i.op ∈ .label :: InstructionText.writable
  inputs : ∀ o ∈ i.inputs, o.Written
  result : i.result.Written
  info : ∀ info, i.info = some info → info.live = []
  site : i.op = .safepoint → i.info.isSome

/-- The labels that a list of instructions binds. -/
def labelsBound (is : List Instruction) : List LabelId := (is.filter (·.op = .label)).map (·.label)

/-! ## Operands -/

namespace Operand

variable {k : ValueKind} {o : Operand} {s : List Char}

theorem kind_parseConstant (h : parseConstant k s = .ok o) : o.kind = k := by
  unfold parseConstant at h
  cases k <;> simp only [reduceCtorEq] at h
  all_goals
    split at h <;> cases h
    rfl

theorem kind_parseRegister (h : parseRegister k s = .ok o) : o.kind = k := by
  unfold parseRegister at h
  split at h
  · cases h
  · split at h
    · cases h
    · split at h <;> cases h <;> rfl

theorem kind_parseStack {offset : List Char} (h : parseStack k s offset = .ok o) : o.kind = k := by
  unfold parseStack at h
  split at h
  · split at h <;> cases h
    rfl
  · cases h

theorem kind_parseValue (h : parseValue k s = .ok o) : o.kind = k := by
  unfold parseValue at h
  split at h
  · exact kind_parseStack h
  · split at h
    · obtain ⟨a, -, rfl⟩ := except_map_ok h
      rfl
    · split at h
      · exact kind_parseRegister h
      · exact kind_parseConstant h

theorem written_parse {text : String} (h : parse text = .ok o) : o.Written := by
  unfold parse at h
  dsimp only at h
  split at h
  · cases h
  · split at h
    · cases h
    case _ k hk =>
      split at h
      · cases h
      · intro _
        rw [kind_parseValue h]
        exact ⟨List.mem_of_find?_eq_some hk⟩

end Operand

/-! ## Instructions -/

namespace InstructionText

variable {i : InstructionText} {ins : Instruction}

theorem written_operand {s : String} {o : Operand} (h : operand s = .ok o) : o.Written := by
  unfold operand at h
  cases ho : Operand.parse s with
  | error e => rw [ho] at h; cases h
  | ok o' =>
    rw [ho] at h
    cases h
    exact Operand.written_parse ho

theorem written_operands {texts : List String} {os : List Operand} (h : texts.mapM operand = .ok os) :
    ∀ o ∈ os, o.Written := by
  induction texts generalizing os with
  | nil =>
    cases h
    exact fun o ho => absurd ho List.not_mem_nil
  | cons s texts ih =>
    rw [List.mapM_cons] at h
    obtain ⟨o, ho, h⟩ := except_bind_eq_ok.mp h
    obtain ⟨rest, hrest, h⟩ := except_bind_eq_ok.mp h
    cases h
    exact List.forall_mem_cons.mpr ⟨written_operand ho, ih hrest⟩

theorem opcode_eq_ok {op : Opcode} (h : i.opcode = .ok op) : op ∈ writable := by
  unfold opcode at h
  split at h
  · cases h
  · split at h
    case _ hop =>
      cases h
      simpa using hop
    · cases h

/-- What is added to an instruction: a condition, a conversion, or debug information without live operands. -/
theorem complete_eq_ok {raw : Instruction} (h : i.complete raw = .ok ins) (hinfo : raw.info = none) :
    ins.op = raw.op ∧ ins.inputs = raw.inputs ∧ ins.result = raw.result ∧ ins.target = raw.target ∧
      (∀ info, ins.info = some info → info.live = []) ∧ (ins.op = .safepoint → ins.info.isSome) := by
  have hnone : ∀ info, raw.info = some info → info.live = [] := fun info h => by rw [hinfo] at h; cases h
  have hquiet : ∀ info, some (⟨[], []⟩ : SiteInfo) = some info → info.live = [] := fun info h => by cases h; rfl
  unfold complete at h
  split at h
  · split at h <;> cases h
    exact ⟨rfl, rfl, rfl, rfl, hnone, by simp_all⟩
  · split at h <;> cases h
    exact ⟨rfl, rfl, rfl, rfl, hnone, by simp_all⟩
  · split at h <;> cases h
    exact ⟨rfl, rfl, rfl, rfl, hnone, by simp_all⟩
  · cases h
    split
    · exact ⟨rfl, rfl, rfl, rfl, hquiet, fun _ => rfl⟩
    · exact ⟨rfl, rfl, rfl, rfl, hnone, by simp_all⟩
  · cases h
    split
    · exact ⟨rfl, rfl, rfl, rfl, hquiet, fun _ => rfl⟩
    · exact ⟨rfl, rfl, rfl, rfl, hnone, by simp_all⟩
  · cases h
    exact ⟨rfl, rfl, rfl, rfl, hquiet, fun _ => rfl⟩
  · cases h
    exact ⟨rfl, rfl, rfl, rfl, hnone, by simp_all⟩

/-- The end of reading an instruction: the rest is added, and a jump has to have a target. -/
def finished (i : InstructionText) (op : Opcode) (inputs : List Operand) (result : Operand) :
    Except Failure Instruction := do
  let ins ← i.complete { op, inputs, result, target := i.target, unorderedIsTrue := i.unorderedIsTrue }
  if ins.jumps && i.target ≤ 0 then throw (.refused (op.name ++ " has no target"))
  return ins

theorem finished_eq_ok {op : Opcode} {inputs : List Operand} {result : Operand}
    (h : i.finished op inputs result = .ok ins)
    (hop : op ∈ writable) (hinputs : ∀ o ∈ inputs, o.Written) (hresult : result.Written) :
    ins.Expressible ∧ 0 ≤ ins.mentioned := by
  obtain ⟨ins', hcomplete, hrest⟩ := except_bind_eq_ok.mp h
  obtain ⟨rfl, rfl, rfl, htarget, hinfo, hsite⟩ := complete_eq_ok hcomplete rfl
  split at hrest
  · cases hrest
  case _ hjump =>
    cases hrest
    refine ⟨⟨List.mem_cons_of_mem _ hop, hinputs, hresult, hinfo, hsite⟩, ?_⟩
    have hlabel : ins.op ≠ .label := fun e => by rw [e] at hop; revert hop; decide
    unfold Instruction.mentioned
    rw [if_neg hlabel]
    split
    case _ hj =>
      rw [htarget]
      rw [hj, Bool.true_and, decide_eq_true_eq] at hjump
      exact Int64.le_of_lt (Int64.not_le.mp hjump)
    · exact Int64.le_refl 0

theorem expressible_label (l : LabelId) : Instruction.Expressible { op := .label, label := l } where
  op := List.mem_cons_self
  inputs _ ho := absurd ho List.not_mem_nil
  result h := by cases h
  info _ h := by cases h
  site h := by cases h

/-- What is read is an instruction that a file can express, and it mentions no negative label. -/
theorem instruction_eq_ok (h : i.instruction = .ok ins) : ins.Expressible ∧ 0 ≤ ins.mentioned := by
  unfold instruction at h
  split at h
  · split at h
    · cases h
    case _ hlabel =>
      cases h
      exact ⟨expressible_label i.label, Int64.le_of_lt (Int64.not_le.mp hlabel)⟩
  · obtain ⟨op, hop, h⟩ := except_bind_eq_ok.mp h
    obtain ⟨inputs, hinputs, h⟩ := except_bind_eq_ok.mp h
    dsimp only at h
    split at h
    · exact finished_eq_ok h (opcode_eq_ok hop) (written_operands hinputs) fun h => absurd h (by decide)
    · obtain ⟨result, hresult, h⟩ := except_bind_eq_ok.mp h
      exact finished_eq_ok h (opcode_eq_ok hop) (written_operands hinputs) (written_operand hresult)

end InstructionText

/-! ## Programs -/

theorem ProgramText.appendAll_eq_ok {name : String} {is : List InstructionText} {n : Nat} {p q : Program}
    (h : appendAll name n is p = .ok q) (hp : ∀ i ∈ p.code.toList, i.Expressible) (hlabels : 0 ≤ p.labels) :
    (∀ i ∈ q.code.toList, i.Expressible) ∧ 0 ≤ q.labels := by
  induction is generalizing n p with
  | nil =>
    cases h
    exact ⟨hp, hlabels⟩
  | cons i is ih =>
    unfold appendAll at h
    split at h
    case _ ins hins =>
      obtain ⟨hexpressible, hmentioned⟩ := InstructionText.instruction_eq_ok hins
      refine ih h (fun j hj => ?_) ?_
      · rcases Array.mem_push.mp (Array.mem_toList_iff.mp hj) with hj | rfl
        · exact hp j (Array.mem_toList_iff.mpr hj)
        · exact hexpressible
      · show 0 ≤ if p.labels < ins.mentioned then ins.mentioned else p.labels
        split
        · exact hmentioned
        · exact hlabels
    · cases h

/-- A program that was read has instructions that a file can express, and no negative labels. -/
theorem ProgramText.program_expressible {t : ProgramText} {p : Program} (h : t.program = .ok p) :
    (∀ i ∈ p.code.toList, i.Expressible) ∧ 0 ≤ p.labels := by
  unfold program at h
  split at h
  · cases h
  · exact appendAll_eq_ok h (fun _ hi => absurd hi List.not_mem_nil) (Int64.le_refl 0)

end RiscvJit
