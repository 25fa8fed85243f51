import RiscvJit.Proofs.Lower.Moves

/-
  RiscvJit.Proofs.Lower.Arithmetic — operations compute what they stand for.

  The instruction chosen for an operation and a kind computes the operation's result on values of
  that kind (`Computes`): with both operands in registers (`intOp_computes`, `shiftOp_computes`),
  and with a constant that fits the instruction (`foldConst_computes`, `shiftConst_computes`).
  An int operation relies on sign-extended operands for the bitwise instructions, which work on
  the whole register. Arithmetic, shifts and negation realize their assignments
  (`arith_realizes`, `shift_realizes`, `neg_realizes`).
-/

namespace RiscvJit

open Lower

/-! ## Ints in registers -/

theorem toUInt32_sext (w : UInt32) : (sext w).toUInt32 = w := by
  have h : (sext w).toUInt32.toInt32 = w.toInt32 := by
    rw [toInt32_toUInt64]
    exact Int32.toInt32_toInt64 w.toInt32
  exact congrArg Int32.toUInt32 h

variable {o : Operand} {op : Opcode} {k : ValueKind} {w : Int64} (a b : UInt32)

theorem sext_and : sext (a &&& b) = sext a &&& sext b := by
  rw [← UInt64.toBitVec_inj]
  exact BitVec.signExtend_and

theorem sext_or : sext (a ||| b) = sext a ||| sext b := by
  rw [← UInt64.toBitVec_inj]
  exact BitVec.signExtend_or

theorem sext_xor : sext (a ^^^ b) = sext a ^^^ sext b := by
  rw [← UInt64.toBitVec_inj]
  exact BitVec.signExtend_xor

/-- The value is one of the kind: an int is sign-extended. -/
def OfKind (k : ValueKind) (v : UInt64) : Prop := k = .int → sext v.toUInt32 = v

theorem ofKind_read {σ : Activation} {v : UInt64} (hv : σ.read o = some v) : OfKind o.kind v := by
  intro hk
  cases o with
  | register k r hi =>
    obtain rfl : k = .int := hk
    rw [Activation.read] at hv
    split at hv
    · cases hv
      assumption
    · cases hv
  | constant k bits =>
    obtain rfl : k = .int := hk
    cases hv
    rw [toUInt32_sext]
  | stack k n =>
    obtain rfl : k = .int := hk
    cases hv
    rw [toUInt32_sext]
  | absent => cases hv
  | floatRegister k r => cases hv
  | memory k a => cases hv

/-! ## The instruction of an operation -/

/-- The instruction computes the operation on values of a kind. -/
def Computes (o : Op) (op : Opcode) (k kb : ValueKind) (f : UInt64 → UInt64 → UInt64) : Prop :=
  (∀ x y, o.compute x y = some (f x y)) ∧
    ∀ a b v, OfKind k a → OfKind kb b → op.result? k a b = some v → f a b = v

/-- Operations on two values of one kind. -/
def Opcode.isArith (op : Opcode) : Prop :=
  op = .add ∨ op = .sub ∨ op = .mul ∨ op = .and ∨ op = .or ∨ op = .xor

theorem intOp_computes (hop : op.isArith) (hk : k = .int ∨ k = .long) :
    (intOp op k).info.format = .r ∧ ∃ f, Computes (intOp op k) op k k f := by
  rcases hk with rfl | rfl
  · -- ints: the bitwise instructions work on the sign extensions
    rcases hop with rfl | rfl | rfl | rfl | rfl | rfl
    · refine ⟨rfl, fun x y => sext (x + y).toUInt32, fun _ _ => rfl, fun a b v _ _ h => ?_⟩
      show sext (a + b).toUInt32 = v
      rw [UInt64.toUInt32_add]
      exact Option.some.inj h
    · refine ⟨rfl, fun x y => sext (x - y).toUInt32, fun _ _ => rfl, fun a b v _ _ h => ?_⟩
      show sext (a - b).toUInt32 = v
      rw [UInt64.toUInt32_sub]
      exact Option.some.inj h
    · exact ⟨rfl, fun x y => sext (x.toUInt32 * y.toUInt32), fun _ _ => rfl,
        fun a b v _ _ h => Option.some.inj h⟩
    · refine ⟨rfl, fun x y => x &&& y, fun _ _ => rfl, fun a b v ha hb h => ?_⟩
      show a &&& b = v
      rw [← ha rfl, ← hb rfl, ← sext_and]
      exact Option.some.inj h
    · refine ⟨rfl, fun x y => x ||| y, fun _ _ => rfl, fun a b v ha hb h => ?_⟩
      show a ||| b = v
      rw [← ha rfl, ← hb rfl, ← sext_or]
      exact Option.some.inj h
    · refine ⟨rfl, fun x y => x ^^^ y, fun _ _ => rfl, fun a b v ha hb h => ?_⟩
      show a ^^^ b = v
      rw [← ha rfl, ← hb rfl, ← sext_xor]
      exact Option.some.inj h
  · rcases hop with rfl | rfl | rfl | rfl | rfl | rfl <;>
      exact ⟨rfl, _, fun _ _ => rfl, fun a b v _ _ h => Option.some.inj h⟩

theorem shiftOp_computes (hop : op = .shl ∨ op = .shr ∨ op = .ushr) (hk : k = .int ∨ k = .long) :
    (shiftOp op k.isIntLike).info.format = .r ∧
      ∃ f, Computes (shiftOp op k.isIntLike) op k .int f := by
  rcases hk with rfl | rfl <;> rcases hop with rfl | rfl | rfl <;>
    exact ⟨rfl, _, fun _ _ => rfl, fun a b v _ _ h => Option.some.inj h⟩

theorem ofKind_imm12 (h : isImm12 w = true) (k : ValueKind) : OfKind k w.toUInt64 := by
  intro _
  have hint : isInt32 w = true := by
    rw [isImm12, fitsSigned_iff] at h
    rw [isInt32_iff]
    simp only [Nat.reduceSub, Int.reducePow] at h ⊢
    omega
  rw [sext_toUInt32]
  exact congrArg Int64.toUInt64 (of_decide_eq_true hint)

/-- A subtraction becomes the addition of the negated constant; others keep their operation. -/
theorem foldConst_cases (hop : op.isArith) (hk : k = .int ∨ k = .long) {imm : Int64} {o : Op}
    (h : foldConst? op k imm = some (o, w)) :
    isImm12 w = true ∧ o.info.format = .i ∧ ∃ op' : Opcode, op'.isArith ∧
      (∀ x y, o.compute x y = (intOp op' k).compute x y) ∧
      ∀ a, op.result? k a imm.toUInt64 = op'.result? k a w.toUInt64 := by
  obtain ⟨hfold, hfits⟩ := Option.filter_eq_some_iff.mp h
  refine ⟨hfits, ?_⟩
  rcases hop with rfl | rfl | rfl | rfl | rfl | rfl
  · cases hfold
    rcases hk with rfl | rfl <;> exact ⟨rfl, .add, .inl rfl, fun _ _ => rfl, fun _ => rfl⟩
  · cases hfold
    have hneg (a : UInt64) : a - imm.toUInt64 = a + (-imm).toUInt64 := UInt64.sub_eq_add_neg _ _
    rcases hk with rfl | rfl
    · refine ⟨rfl, .add, .inl rfl, fun _ _ => rfl, fun a => ?_⟩
      show some (sext (a.toUInt32 - imm.toUInt64.toUInt32)) = some (sext (a.toUInt32 + (-imm).toUInt64.toUInt32))
      rw [← UInt64.toUInt32_sub, hneg, UInt64.toUInt32_add]
    · exact ⟨rfl, .add, .inl rfl, fun _ _ => rfl, fun a => congrArg some (hneg a)⟩
  · cases hfold
  · cases hfold
    rcases hk with rfl | rfl <;>
      exact ⟨rfl, .and, .inr (.inr (.inr (.inl rfl))), fun _ _ => rfl, fun _ => rfl⟩
  · cases hfold
    rcases hk with rfl | rfl <;>
      exact ⟨rfl, .or, .inr (.inr (.inr (.inr (.inl rfl)))), fun _ _ => rfl, fun _ => rfl⟩
  · cases hfold
    rcases hk with rfl | rfl <;>
      exact ⟨rfl, .xor, .inr (.inr (.inr (.inr (.inr rfl)))), fun _ _ => rfl, fun _ => rfl⟩

/-- A constant on the right that fits the instruction. -/
theorem foldConst_computes (hop : op.isArith) (hk : k = .int ∨ k = .long) {imm : Int64} {o : Op}
    (h : foldConst? op k imm = some (o, w)) :
    o.info.format = .i ∧ ∃ f : UInt64 → UInt64 → UInt64, (∀ x y, o.compute x y = some (f x y)) ∧
      ∀ a v, OfKind k a → op.result? k a imm.toUInt64 = some v → f a w.toUInt64 = v := by
  obtain ⟨hfits, hf, op', hop', hcompute, hresult⟩ := foldConst_cases hop hk h
  obtain ⟨-, f, hc, hv⟩ := intOp_computes hop' hk
  refine ⟨hf, f, fun x y => (hcompute x y).trans (hc x y), fun a v ha hr => ?_⟩
  rw [hresult] at hr
  exact hv a w.toUInt64 v ha (ofKind_imm12 hfits k) hr

/-! ## Counts -/

theorem toInt_of_small {n : Int64} {b : Nat} (h : n.toUInt64.toNat < b) (hb : b ≤ 64) : 0 ≤ n.toInt ∧ n.toInt < b := by
  have e := toInt_emod_toNat n
  have := n.toInt_lt
  have := n.le_toInt
  omega

theorem toNat_and_mask (v : UInt64) : (v &&& 31).toNat < 32 ∧ (v &&& 63).toNat < 64 := by
  rw [UInt64.toNat_and, UInt64.toNat_and]
  exact ⟨Nat.and_lt_two_pow (n := 5) _ (by decide), Nat.and_lt_two_pow (n := 6) _ (by decide)⟩

/-- A constant count, cut to the width by the assembler. -/
theorem shiftConst_computes (hop : op = .shl ∨ op = .shr ∨ op = .ushr) (hk : k = .int ∨ k = .long) (count : Int64) :
    let o := shiftConstOp op k.isIntLike
    let n := count &&& (if k.isIntLike then 31 else 63)
    o.info.format.immediate ∧ o.info.format.admits n = true ∧
      ∃ f : UInt64 → UInt64 → UInt64, (∀ x y, o.compute x y = some (f x y)) ∧
        ∀ a v, op.result? k a count.toUInt64 = some v → f a n.toUInt64 = v := by
  intro o n
  obtain ⟨h32, h64⟩ := toNat_and_mask count.toUInt64
  rcases hk with rfl | rfl
  · have hn : n.toUInt64 = count.toUInt64 &&& 31 := rfl
    obtain ⟨hlo, hhi⟩ := toInt_of_small (n := n) (b := 32) (by rw [hn]; exact h32) (by decide)
    have hmask : n.toUInt64.toUInt32 &&& 31 = count.toUInt64.toUInt32 &&& 31 := by
      rw [hn, UInt64.toUInt32_and, UInt32.and_assoc]
      rfl
    have hadmits : Format.admits .shift32 n = true := by
      exact Bool.and_eq_true_iff.mpr ⟨decide_eq_true hlo, decide_eq_true (show n.toInt < 32 by omega)⟩
    rcases hop with rfl | rfl | rfl <;> refine ⟨.inr (.inr rfl), hadmits, _, fun _ _ => rfl, ?_⟩ <;>
      intro a v h <;> rw [hmask] <;> exact Option.some.inj h
  · have hn : n.toUInt64 = count.toUInt64 &&& 63 := rfl
    obtain ⟨hlo, hhi⟩ := toInt_of_small (n := n) (b := 64) (by rw [hn]; exact h64) (by decide)
    have hmask : n.toUInt64 &&& 63 = count.toUInt64 &&& 63 := by
      rw [hn, UInt64.and_assoc]
      rfl
    have hadmits : Format.admits .shift64 n = true := by
      exact Bool.and_eq_true_iff.mpr ⟨decide_eq_true hlo, decide_eq_true (show n.toInt < 64 by omega)⟩
    rcases hop with rfl | rfl | rfl <;> refine ⟨.inr (.inl rfl), hadmits, _, fun _ _ => rfl, ?_⟩ <;>
      intro a v h <;> rw [hmask] <;> exact Option.some.inj h

/-! ## Instructions that assign their result -/

/-- What an instruction that assigns its result does. -/
def Instruction.assigns (i : Instruction) (σ : Activation) : Option Activation :=
  (σ.value i).bind fun v => σ.write v i.result

theorem input_eq_ok {i : Instruction} {n : Nat} : input i n = .ok o ↔ i.inputs[n]? = some o := by
  rw [input]
  cases i.inputs[n]? <;> simp

theorem reg_register (k : ValueKind) (r hi : Reg) (what : String) : reg (.register k r hi) what = .ok r := rfl

theorem reg_eq_ok {what : String} {r : Reg} (h : reg o what = .ok r) : ∃ k hi, o = .register k r hi := by
  cases o with
  | register k lo hi => cases h; exact ⟨k, hi, rfl⟩
  | _ => cases h

/-- The operands passed their checks. -/
structure Checked (i : Instruction) : Prop where
  inputs : ∀ o ∈ i.inputs, checkOperand i.op "input" o = .ok ()
  result : i.result.Free

/-- The result and the first input are integer registers. -/
structure OnRegisters (i : Instruction) (k : ValueKind) (rd rs : Reg) : Prop where
  kind : k = .int ∨ k = .long
  result : ∃ k' hi, i.result = .register k' rd hi
  left : ∃ hi, i.inputs[0]? = some (Operand.register k rs hi)
  rdInt : rd.isInt = true
  rdFree : rd.isReserved = false
  rsInt : rs.isInt = true
  rsAllowed : rs = .zr ∨ rs.isReserved = false

theorem Operand.Integral.kind_cases {frame : Int64} (h : o.Integral frame) : o.kind = .int ∨ o.kind = .long := by
  cases o with
  | register k lo hi => exact h.1
  | constant k bits => exact h
  | stack k n => exact h.1
  | absent => exact h.elim
  | floatRegister k r => exact h.elim
  | memory k a => exact h.elim

section
variable {F : StackFrame} {M : Machine} {s s' : Lowering} {t : Target} {frame : Int64} {i : Instruction}
  {k : ValueKind} {rd rs : Reg} {left : Operand}

theorem onRegisters_of {what what' : String} (hc : Checked i) (hresult : i.result.Integral frame)
    (hleft : i.inputs[0]? = some left) (hint : left.Integral frame) (hrd : reg i.result what = .ok rd)
    (hrs : reg left what' = .ok rs) : OnRegisters i left.kind rd rs := by
  obtain ⟨k', hi, hres⟩ := reg_eq_ok hrd
  obtain ⟨k, hi', rfl⟩ := reg_eq_ok hrs
  have hfree := hc.result
  rw [hres] at hresult hfree
  exact ⟨hint.1, ⟨k', hi, hres⟩, ⟨hi', hleft⟩, hresult.2, hfree, hint.2,
    allowed_register (hc.inputs _ (List.mem_of_getElem? hleft))⟩

/-- The value of the first input is in its register. -/
theorem OnRegisters.value_neg (h : OnRegisters i k rd rs) {σ : Activation} {m : Machine} (hagree : Agrees F M σ m)
    (hop : i.op = .neg) {v : UInt64} (hv : σ.value i = some v) :
    OfKind k (m.get rs) ∧ Opcode.sub.result? k 0 (m.get rs) = some v := by
  obtain ⟨hi, hleft⟩ := h.left
  rw [Activation.value, hleft, Option.bind_eq_bind, Option.bind_some] at hv
  obtain ⟨a, ha, hv⟩ := Option.bind_eq_some_iff.mp hv
  rw [hop] at hv
  rw [hagree.reg h.rsInt h.rsAllowed, read_register ha]
  exact ⟨ofKind_read ha, hv⟩

/-- Operations on two inputs. -/
def Opcode.isBinary (op : Opcode) : Prop := op ≠ .move ∧ op ≠ .neg

theorem OnRegisters.value_binary (h : OnRegisters i k rd rs) {σ : Activation} {m : Machine} (hagree : Agrees F M σ m)
    (hop : i.op.isBinary) {right : Operand} (hright : i.inputs[1]? = some right) {v : UInt64}
    (hv : σ.value i = some v) :
    OfKind k (m.get rs) ∧ ∃ b, σ.read right = some b ∧ i.op.result? k (m.get rs) b = some v := by
  obtain ⟨hi, hleft⟩ := h.left
  rw [Activation.value, hleft, Option.bind_eq_bind, Option.bind_some] at hv
  obtain ⟨a, ha, hv⟩ := Option.bind_eq_some_iff.mp hv
  have hv : ((i.inputs[1]?).bind fun right => (σ.read right).bind fun b => i.op.result? k a b) = some v := by
    obtain ⟨hmove, hneg⟩ := hop
    cases hop : i.op <;> rw [hop] at hv hmove hneg <;>
      first | exact hv | exact absurd rfl hmove | exact absurd rfl hneg
  rw [hright, Option.bind_some] at hv
  rw [hagree.reg h.rsInt h.rsAllowed, read_register ha]
  exact ⟨ofKind_read ha, Option.bind_eq_some_iff.mp hv⟩

theorem Opcode.isArith.isBinary {op : Opcode} (h : op.isArith) : op.isBinary := by
  rcases h with rfl | rfl | rfl | rfl | rfl | rfl <;> exact ⟨by decide, by decide⟩

/-- Code that puts the value of the instruction into its result register. -/
theorem OnRegisters.realizes (h : OnRegisters i k rd rs) {is : List Inst} {val : Machine → UInt64}
    (hp : Puts is rd [] val)
    (hval : ∀ (F : StackFrame) (M : Machine) σ m v, Agrees F M σ m → σ.value i = some v → val m = v) :
    Realizes frame is i.assigns := by
  obtain ⟨k', hi, hres⟩ := h.result
  show Realizes frame is fun σ => (σ.value i).bind fun v => σ.write v i.result
  rw [hres]
  exact hp.realizes h.rdInt h.rdFree (by simp) fun F M _ => hval F M

/-- A right operand that goes through a register. -/
theorem arithReg_realizes (hop : i.op.isArith) (h : OnRegisters i k rd rs)
    {right : Operand} (hright : i.inputs[1]? = some right) (hint : right.Integral frame) (hkind : right.kind = k)
    (hc : Checked i) (hrun : arithReg i rd rs k right t s = .ok ((), s')) :
    ∃ is, Lowered is s s' ∧ Realizes frame is i.assigns := by
  unfold arithReg at hrun
  obtain ⟨rs2, s1, hsrc, hrest⟩ := bind_eq_ok.mp hrun
  have hdiv : divides i.op = false := by
    rcases hop with e | e | e | e | e | e <;> rw [e] <;> rfl
  simp only [hdiv, Bool.false_and, Bool.false_eq_true, if_false] at hrest
  obtain ⟨hf, f, hcompute, hvalue⟩ := intOp_computes hop h.kind
  obtain ⟨is, hl, -, hprovides⟩ := srcReg_provides (by decide) hint
    (hc.inputs _ (List.mem_of_getElem? hright)) hsrc
  obtain ⟨js, hl', hp⟩ := lowered_of_asm hrest (rr_puts hf hcompute (keeps_of_free h.rdInt h.rdFree))
  refine ⟨is ++ js, hl.append hl', fun F M hF σ σ' m hagree hσ => ?_⟩
  obtain ⟨v, hv, hwrite⟩ := Option.bind_eq_some_iff.mp hσ
  obtain ⟨-, b, hb, -⟩ := h.value_binary hagree hop.isBinary hright hv
  obtain ⟨m1, hruns, hagree1, hget, -⟩ := hprovides F M hF σ m b hagree hb
  -- the value is computed from the registers of the machine in between
  obtain ⟨hka, b', hb', hresult⟩ := h.value_binary hagree1 hop.isBinary hright hv
  obtain rfl : b' = b := Option.some.inj (hb'.symm.trans hb)
  have hval := hvalue _ _ v hka (hkind ▸ ofKind_read hb) hresult
  rw [← hget] at hval
  obtain ⟨k', hi, hres⟩ := h.result
  rw [hres, ← hval] at hwrite
  obtain ⟨m', hruns', hagree'⟩ := hp.writes h.rdInt h.rdFree (by simp) hagree1 hwrite
  exact ⟨m', hruns.append hruns', hagree'⟩

theorem arith_realizes (hop : i.op.isArith) (hc : Checked i)
    (hresult : i.result.Integral frame)
    (hinputs : ∀ n < 2, ∀ o, i.inputs[n]? = some o → o.Integral frame ∧ o.kind = i.result.kind)
    (hrun : arith i t s = .ok ((), s')) : ∃ is, Lowered is s s' ∧ Realizes frame is i.assigns := by
  unfold arith at hrun
  obtain ⟨left, hleft, hrest⟩ := lift_bind_eq_ok.mp hrun
  obtain ⟨right, hright, harith⟩ := lift_bind_eq_ok.mp hrest
  rw [input_eq_ok] at hleft hright
  obtain ⟨hint, hkind⟩ := hinputs 0 (by decide) left hleft
  obtain ⟨hint', hkind'⟩ := hinputs 1 (by decide) right hright
  rw [if_neg (by rcases hint.kind_cases with e | e <;> rw [e] <;> decide)] at harith
  unfold intArith at harith
  obtain ⟨rd, hrd, hrest⟩ := lift_bind_eq_ok.mp harith
  obtain ⟨rs, hrs, hrest⟩ := lift_bind_eq_ok.mp hrest
  have hregs := onRegisters_of hc hresult hleft hint hrd hrs
  have hsame : right.kind = left.kind := hkind'.trans hkind.symm
  cases right with
  | constant k bits =>
    obtain rfl : k = left.kind := hsame
    dsimp only at hrest
    cases hfold : foldConst? i.op left.kind (Operand.longOfBits left.kind bits) with
    | none =>
      have hdiv : divides i.op = false := by
        rcases hop with e | e | e | e | e | e <;> rw [e] <;> rfl
      rw [hfold, hdiv] at hrest
      exact arithReg_realizes hop hregs hright hint' rfl hc hrest
    | some p =>
      rw [hfold] at hrest
      obtain ⟨hf, f, hcompute, hvalue⟩ := foldConst_computes hop hregs.kind hfold
      obtain ⟨is, hl, hp⟩ := lowered_of_asm hrest (ri_puts hf hcompute (keeps_of_free hregs.rdInt hregs.rdFree))
      refine ⟨is, hl, hregs.realizes hp fun F M σ m v hagree hv => ?_⟩
      obtain ⟨hka, b, hb, hr⟩ := hregs.value_binary hagree hop.isBinary hright hv
      rw [← toUInt64_longOfBits hb] at hr
      exact hvalue _ v hka hr
  | register k lo hi => exact arithReg_realizes hop hregs hright hint' hsame hc hrest
  | stack k n => exact arithReg_realizes hop hregs hright hint' hsame hc hrest
  | absent => exact hint'.elim
  | floatRegister k r => exact hint'.elim
  | memory k a => exact hint'.elim

theorem shift_realizes (hop : i.op = .shl ∨ i.op = .shr ∨ i.op = .ushr) (hc : Checked i)
    (hresult : i.result.Integral frame) (hinput : ∀ o, i.inputs[0]? = some o → o.Integral frame)
    (hcount : ∀ o : Operand, i.inputs[1]? = some o → o.Integral frame ∧ o.kind = .int)
    (hrun : shift i t s = .ok ((), s')) : ∃ is, Lowered is s s' ∧ Realizes frame is i.assigns := by
  have hbin : i.op.isBinary := by
    rcases hop with e | e | e <;> rw [e] <;> exact ⟨by decide, by decide⟩
  unfold shift at hrun
  obtain ⟨left, hleft, hrest⟩ := lift_bind_eq_ok.mp hrun
  obtain ⟨count, hright, hrest⟩ := lift_bind_eq_ok.mp hrest
  obtain ⟨rd, hrd, hrest⟩ := lift_bind_eq_ok.mp hrest
  obtain ⟨rs, hrs, hrest⟩ := lift_bind_eq_ok.mp hrest
  rw [input_eq_ok] at hleft hright
  obtain ⟨hint', hkind⟩ := hcount count hright
  have hregs := onRegisters_of hc hresult hleft (hinput left hleft) hrd hrs
  have hkeeps := keeps_of_free hregs.rdInt hregs.rdFree
  -- a count in a register; other operands are refused
  have byRegister (h : ((liftM (reg count "shift count") : Lower Reg) >>= fun c =>
      (liftM (Asm.rr (shiftOp i.op left.kind.isIntLike) rd rs c) : Lower Unit)) t s = .ok ((), s')) :
      ∃ is, Lowered is s s' ∧ Realizes frame is i.assigns := by
    obtain ⟨c, hreg, hrest⟩ := lift_bind_eq_ok.mp h
    obtain ⟨k, hi, rfl⟩ := reg_eq_ok hreg
    obtain ⟨hf, f, hcompute, hvalue⟩ := shiftOp_computes hop hregs.kind
    obtain ⟨is, hl, hp⟩ := lowered_of_asm hrest (rr_puts hf hcompute hkeeps)
    refine ⟨is, hl, hregs.realizes hp fun F M σ m v hagree hv => ?_⟩
    obtain ⟨hka, b, hb, hr⟩ := hregs.value_binary hagree hbin hright hv
    have hget : m.get c = b := by
      rw [hagree.reg hint'.2 (allowed_register (hc.inputs _ (List.mem_of_getElem? hright))), read_register hb]
    rw [hget]
    exact hvalue _ _ v hka (hkind ▸ ofKind_read hb) hr
  cases count with
  | constant k bits =>
    obtain ⟨hf, hadmits, f, hcompute, hvalue⟩ := shiftConst_computes hop hregs.kind (Operand.longOfBits k bits)
    obtain ⟨is, hl, hp⟩ := lowered_of_asm hrest (emit_puts hf hadmits (fun x => hcompute x _) hkeeps)
    refine ⟨is, hl, hregs.realizes hp fun F M σ m v hagree hv => ?_⟩
    obtain ⟨-, b, hb, hr⟩ := hregs.value_binary hagree hbin hright hv
    rw [← toUInt64_longOfBits hb] at hr
    exact hvalue _ v hr
  | register k lo hi => exact byRegister hrest
  | stack k n => exact byRegister hrest
  | absent => exact hint'.elim
  | floatRegister k r => exact hint'.elim
  | memory k a => exact hint'.elim

theorem neg_realizes (hop : i.op = .neg) (hc : Checked i) (hresult : i.result.Integral frame)
    (hinput : ∀ o, i.inputs[0]? = some o → o.Integral frame) (hrun : neg i t s = .ok ((), s')) :
    ∃ is, Lowered is s s' ∧ Realizes frame is i.assigns := by
  unfold neg at hrun
  obtain ⟨src, hsrc, hrest⟩ := lift_bind_eq_ok.mp hrun
  rw [input_eq_ok] at hsrc
  have hint := hinput src hsrc
  have hrest : ((liftM (reg i.result "result") : Lower Reg) >>= fun rd =>
      (liftM (reg src "negated value") : Lower Reg) >>= fun rs =>
      (liftM (Asm.rr (intOp .sub src.kind) rd .zr rs) : Lower Unit)) t s = .ok ((), s') := by
    rcases hint.kind_cases with e | e <;> rw [e] at hrest ⊢ <;> exact hrest
  obtain ⟨rd, hrd, hrest⟩ := lift_bind_eq_ok.mp hrest
  obtain ⟨rs, hrs, hrest⟩ := lift_bind_eq_ok.mp hrest
  have hregs := onRegisters_of hc hresult hsrc hint hrd hrs
  obtain ⟨hf, f, hcompute, hvalue⟩ := intOp_computes (.inr (.inl rfl) : Opcode.sub.isArith) hregs.kind
  obtain ⟨is, hl, hp⟩ := lowered_of_asm hrest (rr_puts hf hcompute (keeps_of_free hregs.rdInt hregs.rdFree))
  refine ⟨is, hl, hregs.realizes hp fun F M σ m v hagree hv => ?_⟩
  obtain ⟨hka, hr⟩ := hregs.value_neg hagree hop hv
  exact hvalue _ _ v (fun _ => rfl) hka hr

end

end RiscvJit
