import RiscvJit.Proofs.Lower.ImplicitExceptions
import RiscvJit.Proofs.Lower.ValueMoves

/-
  RiscvJit.Proofs.Lower.Conditions — a condition means the same to all who ask for it.

  What a condition says of two operands is defined once (`Condition.decides?`): of ints and longs by their numbers, of
  floats by how they are ordered, where what is unordered comes out as the instruction asks. A branch on it is taken
  accordingly (`Site.lowers_condBranch`), whether the operands were swapped, the branch was turned around a jump, or the
  failure of the opposite predicate was tested. A jump and a choice both are that branch; a comparison with three outcomes
  is computed from two predicates and holds the sign of the same order (`conditions_agree`).

  The operands are not read after the result was written, so it may be in any of their places.
-/

namespace RiscvJit

open Machine (Keeps)
open Reg (zr t0 t1)
open Asm
open Lower
open Options

/-! ## What a condition says -/

/-- The order seen from the other side. -/
def FloatOrder.swap : FloatOrder → FloatOrder
  | .less => .greater
  | .greater => .less
  | order => order

theorem FloatFormat.compare_swap (F : FloatFormat) (a b : UInt64) : F.compare b a = (F.compare a b).swap := by
  unfold compare
  rw [Bool.or_comm]
  split
  case isTrue => rfl
  case isFalse =>
    rcases Int.lt_trichotomy (F.rank a) (F.rank b) with h | h | h
    · rw [if_neg (by omega), if_neg (by omega), if_pos h]
      rfl
    · rw [h, if_neg (by omega), if_pos rfl]
      rfl
    · rw [if_pos h, if_neg (by omega), if_neg (by omega)]
      rfl

/-- What the float of a kind in one register is to that in another. -/
def ValueKind.orderOf (k : ValueKind) (a b : UInt64) : FloatOrder :=
  if k = .float then compareSingles a b else compareDoubles a b

theorem ValueKind.orderOf_swap (k : ValueKind) (a b : UInt64) : k.orderOf b a = (k.orderOf a b).swap := by
  unfold orderOf
  split
  · exact FloatFormat.compare_swap ..
  · exact FloatFormat.compare_swap ..

namespace Condition

/-- Two floats that are ordered are as the condition says. -/
def admits? (c : Condition) (order : FloatOrder) : Option Bool :=
  match c with
  | .eq => some (order = .equal)
  | .ne => some (order = .less ∨ order = .greater)
  | .lt => some (order = .less)
  | .le => some (order = .less ∨ order = .equal)
  | .gt => some (order = .greater)
  | .ge => some (order = .greater ∨ order = .equal)
  | _ => none

/-- Two floats compare as the condition says. Whether they do when they are unordered is given. -/
def holdsOf? (c : Condition) (unordered : Bool) (order : FloatOrder) : Option Bool :=
  (c.admits? order).map fun holds => if order = .unordered then unordered else holds

/-- The condition holds of two operands. -/
def decides? (c : Condition) (unordered : Bool) (m : Machine) (left right : Operand) : Option Bool :=
  match left, right with
  | .floatRegister k a, .floatRegister _ b => c.holdsOf? unordered (k.orderOf (m.get a) (m.get b))
  | left, right => c.holds? (comparedAs left.kind right.kind) (left.wordIn m) (right.wordIn m)

example : Condition.lt.holdsOf? true (ValueKind.double.orderOf 0x7ff8000000000000 0) = some true ∧
    Condition.lt.holdsOf? false (ValueKind.double.orderOf 0x8000000000000001 0) = some true ∧
    Condition.lt.holdsOf? false (ValueKind.float.orderOf 0xffffffff80000000 0xffffffff00000000) = some false := by
  decide +kernel

/-- A condition holds where the opposite one does not, but for what is unordered. -/
theorem holdsOf_negation {c : Condition} {order : FloatOrder} {r : Bool}
    (h : (ordinaryNegation c).admits? order = some r) : c.holdsOf? true order = some (!r) := by
  cases c <;> cases h <;> cases order <;> rfl

theorem holdsOf_ordered {c : Condition} {order : FloatOrder} {r : Bool} (h : c.admits? order = some r) :
    c.holdsOf? false order = some r := by
  cases c <;> cases h <;> cases order <;> rfl

end Condition

/-- The number of an order. -/
def FloatOrder.outcome (unorderedIsLess : Bool) : FloatOrder → UInt64
  | .less => -1
  | .equal => 0
  | .greater => 1
  | .unordered => if unorderedIsLess then -1 else 1

/-- What one operand is to another. -/
def Operand.orderIn (m : Machine) (left right : Operand) : FloatOrder :=
  match left, right with
  | .floatRegister k a, .floatRegister _ b => k.orderOf (m.get a) (m.get b)
  | left, right =>
    let k := comparedAs left.kind right.kind
    if signedOf k (left.wordIn m) < signedOf k (right.wordIn m) then .less
    else if signedOf k (left.wordIn m) = signedOf k (right.wordIn m) then .equal
    else .greater

/-- One for what is true. -/
def flag (b : Bool) : UInt64 := if b then 1 else 0

theorem flag_eq_zero {b : Bool} : flag b = 0 ↔ b = false := by
  cases b <;> decide

/-- Whether the second is less, less whether the first is. -/
theorem flag_sub_flag (u : Bool) (x y : Int) :
    flag (y < x) - flag (x < y) = FloatOrder.outcome u (if x < y then .less else if x = y then .equal else .greater) := by
  rcases Int.lt_trichotomy x y with h | h | h
  · rw [decide_eq_true h, decide_eq_false (by omega), if_pos h]
    rfl
  · rw [h, decide_eq_false (by omega), if_neg (by omega), if_pos rfl]
    rfl
  · rw [decide_eq_true h, decide_eq_false (by omega), if_neg (by omega), if_neg (by omega)]
    rfl

/-- Two operands that can be compared: ints and longs from wherever they are, or two floats of a kind from registers. -/
inductive Comparable (m : Machine) : Operand → Operand → Prop where
  | numbers {left right : Operand} (left_kind : left.kind = .int ∨ left.kind = .long)
    (right_kind : right.kind = .int ∨ right.kind = .long)
      (left_value : left.isValue = true) (right_value : right.isValue = true) (left_held : left.Held m)
      (right_held : right.Held m) :
      Comparable m left right
  | floats {k : ValueKind} (file : k.isFloat = true) (a b : Fin 32) : Comparable m (.floatRegister k (.f a))
    (.floatRegister k (.f b))

variable {m : Machine}

theorem ofKind_wordIn {o : Operand} (hk : o.kind = .int ∨ o.kind = .long) (hvalue : o.isValue = true) (held : o.Held m) :
    OfKind o.kind (o.wordIn m) := by
  intro hint
  cases o with
  | register k r hi =>
    obtain rfl : k = .int := hint
    exact held
  | stack k n =>
    obtain rfl : k = .int := hint
    exact congrArg sext (toUInt32_sext _)
  | constant k bits =>
    obtain rfl : k = .int := hint
    exact congrArg sext (toUInt32_sext _)
  | _ => cases hvalue

/-! ## Only scratch registers changed -/

/-- Only scratch registers changed. -/
abbrev Scratched (m m' : Machine) : Prop := Alters [t0, t1] (fun _ => False) m m'

namespace Scratched

variable {m m1 m' : Machine} {o : Operand} {opts : Options} {k : ValueKind} {bits : UInt64}

theorem get_eq (h : Scratched m m1) {r : Reg} (h0 : r ≠ t0) (h1 : r ≠ t1) : m1.get r = m.get r :=
  h.regs r (by simp [h0, h1])

theorem ne_of_admitted {r : Reg} (h : r = zr ∨ r.isReserved = false) : r ≠ t0 ∧ r ≠ t1 := by
  rcases h with rfl | h
  · decide
  · exact ne_scratch h

theorem wordIn_eq (h : Scratched m m1) (ho : o.Admitted) : o.wordIn m1 = o.wordIn m :=
  Operand.wordIn_congr ho (fun _ => h.get_eq) h.mem_eq

theorem held (h : Scratched m m1) (ho : o.Admitted) (held : o.Held m) : o.Held m1 := by
  cases o with
  | register k r hi | floatRegister k r =>
    obtain ⟨h0, h1⟩ := ne_of_admitted ho
    unfold Operand.Held at held ⊢
    dsimp only at held ⊢
    rwa [h.get_eq h0 h1]
  | _ => trivial

theorem bitsOf_eq (h : Scratched m m1) (ho : o.Admitted) : opts.bitsOf m1 o = opts.bitsOf m o := by
  cases o with
  | register k r hi | floatRegister k r =>
    obtain ⟨h0, h1⟩ := ne_of_admitted ho
    exact h.get_eq h0 h1
  | stack k n =>
    unfold bitsOf
    dsimp only
    rw [h.mem_eq, h.get_eq (by decide) (by decide)]
  | memory k a =>
    unfold bitsOf
    dsimp only
    rw [h.mem_eq, (steady_of_admitted ho).eval_eq fun _ => h.get_eq]
  | _ => rfl

theorem occupies (h : Scratched m m1) (ho : o.Admitted) {addr : UInt64} (hocc : opts.Occupies m1 o addr) :
    opts.Occupies m o addr := by
  cases o with
  | stack k n =>
    unfold Occupies at hocc ⊢
    rwa [h.get_eq (by decide) (by decide)] at hocc
  | memory k a =>
    unfold Occupies at hocc ⊢
    dsimp only at hocc ⊢
    rwa [(steady_of_admitted ho).eval_eq fun _ => h.get_eq] at hocc
  | _ => exact hocc

/-- What is received after only scratch registers changed is received. -/
theorem receives (h : Scratched m m1) (ho : o.Admitted) (hr : opts.Receives k bits m1 m' o) :
    opts.Receives k bits m m' o := by
  have hput {r : Reg} {v : UInt64} (hp : Put r [t0, t1] v m1 m') : Put r [t0, t1] v m m' :=
    ⟨hp.value, fun q hq ht => (hp.rest q hq ht).trans (h.regs q ht), hp.mem.trans h.mem_eq⟩
  have hstored {addr v : UInt64} {n : Nat} (hs : Site.Stored [t0, t1] addr n v m1 m') : Site.Stored
    [t0, t1] addr n v m m' :=
    ⟨hs.mem.trans (by rw [h.mem_eq]), fun q ht => (hs.rest q ht).trans (h.regs q ht)⟩
  cases o with
  | register k' r hi | floatRegister k' r => exact hput hr
  | stack k' n =>
    unfold Receives at hr ⊢
    dsimp only at hr ⊢
    rw [h.get_eq (by decide) (by decide)] at hr
    exact hstored hr
  | memory k' a =>
    unfold Receives at hr ⊢
    dsimp only at hr ⊢
    rw [(steady_of_admitted ho).eval_eq fun _ => h.get_eq] at hr
    exact hstored hr
  | _ => exact hr

end Scratched

theorem Options.Receives.withPc {opts : Options} {k : ValueKind} {bits : UInt64} {m' : Machine} {o : Operand}
    (h : opts.Receives k bits m m' o) (p : UInt64) : opts.Receives k bits m { m' with pc := p } o := by
  cases o with
  | register | floatRegister => exact Put.withPc h p
  | stack | memory => exact ⟨h.mem, fun q hq => (Machine.get_withPc m' p q).trans (h.rest q hq)⟩
  | _ => exact h

/-! ## Predicates on floats -/

namespace Lower

variable {k : ValueKind}

/-- The compares of a kind are of the format with two registers that rounds nothing. -/
theorem floatCompares_format (k : ValueKind) : ∀ o ∈ [(floatCompares k).lt, (floatCompares k).le, (floatCompares k).eq],
    o.info.format = .floatFixed ∧ ∀ a b, o.injectSign a b = none := by
  unfold floatCompares
  split <;> simp only [List.forall_mem_cons, List.not_mem_nil, false_implies, implies_true, and_true] <;>
    exact ⟨⟨rfl, fun _ _ => rfl⟩, ⟨rfl, fun _ _ => rfl⟩, rfl, fun _ _ => rfl⟩

theorem lt_predicate (k : ValueKind) (a b : UInt64) :
    (floatCompares k).lt.predicate a b = some (flag (k.orderOf a b = .less)) := by
  unfold floatCompares ValueKind.orderOf
  split <;> simp [Op.predicate, flag]

theorem le_predicate (k : ValueKind) (a b : UInt64) :
    (floatCompares k).le.predicate a b = some (flag (k.orderOf a b = .less ∨ k.orderOf a b = .equal)) := by
  unfold floatCompares ValueKind.orderOf
  split <;> simp [Op.predicate, flag]

theorem eq_predicate (k : ValueKind) (a b : UInt64) :
    (floatCompares k).eq.predicate a b = some (flag (k.orderOf a b = .equal)) := by
  unfold floatCompares ValueKind.orderOf
  split <;> simp [Op.predicate, flag]

end Lower

namespace Site

variable {S : Site} {m : Machine} {E : Exits} {Q : Unit → Machine → Prop}

theorem does_floatCompare {o : Op} {rd a b : Reg} {f : UInt64 → UInt64 → UInt64}
    (hf : o.info.format = .floatFixed) (hsign : ∀ x y, o.injectSign x y = none)
    (hp : ∀ x y, o.predicate x y = some (f x y)) (hk : Keeps rd)
    (h : ∀ m', Put rd [] (f (m.get a) (m.get b)) m m' → Q () m') : S.Does (rr o rd a b) m E Q := by
  refine does_puts (v := fun m => f (m.get a) (m.get b)) (fun _ _ _ hrun =>
    puts_of_sets hk ⟨_, wrote_emit hrun (valid_of_format (by rw [hf]; decide)) hf nofun nofun nofun rfl rfl,
      fun m => ?_⟩) h
  rw [Machine.exec, Op.instOf]
  simp only [hf, hsign, hp, Option.none_or, Option.map_some]

section
variable {k : ValueKind} {rd a b : Reg} (hk : Keeps rd)
include hk

theorem does_less (h : ∀ m', Put rd [] (flag (k.orderOf (m.get a) (m.get b) = .less)) m m' → Q () m') :
    S.Does (rr (floatCompares k).lt rd a b) m E Q :=
  have ⟨hf, hsign⟩ := floatCompares_format k _ (List.mem_cons_self)
  does_floatCompare hf hsign (lt_predicate k) hk h

theorem does_lessEqual (h : ∀ m', Put rd [] (flag (k.orderOf (m.get a) (m.get b) = .less ∨
    k.orderOf (m.get a) (m.get b) = .equal)) m m' → Q () m') :
    S.Does (rr (floatCompares k).le rd a b) m E Q :=
  have ⟨hf, hsign⟩ := floatCompares_format k (floatCompares k).le (by simp)
  does_floatCompare hf hsign (le_predicate k) hk h

theorem does_equal (h : ∀ m', Put rd [] (flag (k.orderOf (m.get a) (m.get b) = .equal)) m m' → Q () m') :
    S.Does (rr (floatCompares k).eq rd a b) m E Q :=
  have ⟨hf, hsign⟩ := floatCompares_format k (floatCompares k).eq (by simp)
  does_floatCompare hf hsign (eq_predicate k) hk h

end

/-- The predicate of a condition is whether two ordered floats are as it says. -/
theorem does_predicate {k : ValueKind} {c : Condition} {p : FloatPredicate} {a b : Fin 32}
    (hp : predicate? (floatCompares k) c = some p)
    (h : ∀ m' r, c.admits? (k.orderOf (m.get (.f a)) (m.get (.f b))) = some r → m'.get t0 = flag r →
    Scratched m m' → Q () m') :
    S.Does (computePredicate (floatCompares k) p (.f a) (.f b)) m E Q := by
  have hswap := k.orderOf_swap (m.get (.f a)) (m.get (.f b))
  have hone {v : UInt64} {m' : Machine} {r : Bool} (hput : Put t0 [] v m m') (hv : v = flag r)
      (hr : c.admits? (k.orderOf (m.get (.f a)) (m.get (.f b))) = some r) : Q () m' :=
    h m' r hr (hput.value.trans hv) (hput.alters (by simp) (by simp))
  cases c with
  | lt =>
    cases hp
    exact does_less (by decide) fun m' h' => hone h' rfl rfl
  | le =>
    cases hp
    exact does_lessEqual (by decide) fun m' h' => hone h' rfl rfl
  | gt =>
    cases hp
    refine does_less (by decide) fun m' h' => hone h' (congrArg flag ?_) rfl
    rw [hswap]
    cases k.orderOf (m.get (.f a)) (m.get (.f b)) <;> rfl
  | ge =>
    cases hp
    refine does_lessEqual (by decide) fun m' h' => hone h' (congrArg flag ?_) rfl
    rw [hswap]
    cases k.orderOf (m.get (.f a)) (m.get (.f b)) <;> rfl
  | eq =>
    cases hp
    exact does_equal (by decide) fun m' h' => hone h' rfl rfl
  | ne =>
    cases hp
    refine .bind (does_less (by decide) fun m1 h1 => .bind (does_less (by decide) fun m2 h2 =>
      does_puts (fun _ _ _ => rr_puts (f := fun x y => x ||| y) rfl (fun _ _ => rfl) (by decide))
      fun m3 h3 => h m3 _ rfl ?_ ?_))
    · rw [h3.value, h2.value, h2.other t0, h1.value, h1.other (.f a) nofun,
        h1.other (.f b) nofun, hswap]
      cases k.orderOf (m.get (.f a)) (m.get (.f b)) <;> rfl
    · exact ((h1.alters (by simp) (by simp)).trans (h2.alters (by simp) (by simp))).trans (h3.alters (by simp) (by simp))
  | _ => cases hp

end Site

/-! ## Branches -/

namespace Lower

instance seals_throw (e : Fault) : Seals (throw e : Lower Unit) where
  seals _ h := nomatch h

variable (cond : Condition) (left right : Operand) (target : Label)

instance seals_intCondBranch : Seals (intCondBranch cond left right target) := by
  unfold intCondBranch
  cases cond <;> (dsimp only [branchOp?]; infer_instance)

instance seals_floatCondBranch (unorderedIsTrue : Bool) :
    Seals (floatCondBranch cond left right unorderedIsTrue target) := by
  have hbeqz : Seals (liftM (beqz t0 target) : Lower Unit) := seals_bcond ..
  have hbnez : Seals (liftM (bnez t0 target) : Lower Unit) := seals_bcond ..
  unfold floatCondBranch
  dsimp only
  cases predicate? (floatCompares left.kind) (if unorderedIsTrue then ordinaryNegation cond else cond) <;> infer_instance

instance seals_condBranch (unorderedIsTrue : Bool) : Seals (condBranch cond left right unorderedIsTrue target) := by
  unfold condBranch
  infer_instance

end Lower

theorem Condition.decides_numbers {c : Condition} {unordered : Bool} {left right : Operand} (h : left.isValue = true) :
    c.decides? unordered m left right = c.holds? (comparedAs left.kind right.kind) (left.wordIn m) (right.wordIn m) := by
  cases left <;> first | rfl | cases h

namespace Site

variable {S : Site} {m : Machine} {E : Exits} {Q : Unit → Machine → Prop} {c : Condition} {u : Bool}
  {left right : Operand} {l : Label}

section
variable (hl : S.Binds l) (hleft : left.Admitted) (hright : right.Admitted)
  (htaken : ∀ m', c.decides? u m left right = some true → Scratched m m' → E (.label l) m')
  (hnot : ∀ m', c.decides? u m left right = some false → Scratched m m' → Q () m')
include hl htaken hnot

include hleft hright in
/-- Ints and longs are brought into registers, and one branch instruction compares these. -/
theorem lowers_intCondBranch (hlk : left.kind = .int ∨ left.kind = .long) (hrk : right.kind = .int ∨ right.kind = .long)
    (hlv : left.isValue = true) (hrv : right.isValue = true) (hlh : left.Held m) (hrh : right.Held m) :
    S.Lowers (intCondBranch c left right l) m E Q := by
  rw [Condition.decides_numbers hlv] at htaken hnot
  -- both are brought into registers, whatever follows
  have hsources {f : Reg → Reg → Lower Unit} [∀ a b, Lower.Traced (f a b)]
    (h : ∀ a b m', Scratched m m' → m'.get a = left.wordIn m →
      m'.get b = right.wordIn m → S.Lowers (f a b) m' E Q) :
      S.Lowers (srcReg left t0 >>= fun a => srcReg right t1 >>= fun b => f a b) m E Q := by
    refine .bind (lowers_source hlk hleft hlv (.inl rfl) fun a m1 ha hval1 hrest1 hmem1 =>
      .bind (lowers_source hrk hright hrv (.inr rfl)
      fun b m2 hb hval2 hrest2 hmem2 => ?_))
    have h1 : Scratched m m1 := ⟨fun r hr => hrest1 r fun e => hr (by simp [e]), fun addr _ => by rw [hmem1]⟩
    refine h a b m2 (h1.trans ⟨fun r hr => hrest2 r fun e => hr (by simp [e]), fun addr _ => by rw [hmem2]⟩)
      ((hrest2 a ?_).trans hval1) (hval2.trans (h1.wordIn_eq hright))
    rcases ha with rfl | ⟨-, hne⟩
    · decide
    · exact hne
  unfold intCondBranch
  cases hbranch : branchOp? c with
  | none => exact hsources fun _ _ _ _ _ _ => lowers_refused fun _ _ => rfl
  | some p =>
    obtain ⟨o, swapped⟩ := p
    have (a b : Reg) : (bcond o a b l).Traced := traced_call (.bcond o a b l) (branchOp_format hbranch)
    obtain ⟨r, hr⟩ : ∃ r, c.holds? (comparedAs left.kind right.kind) (left.wordIn m) (right.wordIn m) = some r := by
      cases c <;> first | exact ⟨_, rfl⟩ | cases hbranch
    have hbranches := branchOp_taken hbranch (ofKind_compared (.inl (ofKind_wordIn hlk hlv hlh)))
      (ofKind_compared (.inr (ofKind_wordIn hrk hrv hrh))) hr
    refine hsources fun a b m1 h1 hx hy => ?_
    have hgo {x y : Reg} (h : o.taken (m1.get x) (m1.get y) = r) : S.Lowers (liftM (bcond o x y l)) m1 E Q := by
      refine lowers_asm (does_bcond (branchOp_format hbranch) hl (fun ht p =>
        htaken _ ?_ (h1.withPc p)) fun hf p => hnot _ ?_ (h1.withPc p))
      · rw [hr, ← h, ht]
      · rw [hr, ← h, hf]
    cases swapped with
    | true => exact hgo (by rw [hx, hy]; exact hbranches)
    | false => exact hgo (by rw [hx, hy]; exact hbranches)

end

/-- Floats are compared by a predicate, which the branch tests for one or for zero. -/
theorem lowers_floatCondBranch {k : ValueKind} {a b : Fin 32} (hl : S.Binds l)
    (htaken : ∀ m', c.holdsOf? u (k.orderOf (m.get (.f a)) (m.get (.f b))) = some true → Scratched m m' → E (.label l) m')
    (hnot : ∀ m', c.holdsOf? u (k.orderOf (m.get (.f a)) (m.get (.f b))) = some false → Scratched m m' → Q () m') :
    S.Lowers (floatCondBranch c (.floatRegister k (.f a)) (.floatRegister k (.f b)) u l) m E Q := by
  -- both are in registers already
  have hregisters {f : Reg → Reg → Lower Unit} [∀ a b, Lower.Traced (f a b)] (h : S.Lowers (f (.f a) (.f b)) m E Q) :
      S.Lowers ((liftM (freg (.floatRegister k (.f a)) "left operand") : Lower Reg) >>= fun a =>
        (liftM (freg (.floatRegister k (.f b)) "right operand") : Lower Reg) >>= fun b => f a b) m E Q := by
    refine .bind (lowers_lift fun r hr => .bind (lowers_lift fun r' hr' => ?_))
    cases hr
    cases hr'
    exact h
  unfold floatCondBranch
  dsimp only [Operand.kind]
  cases hp : predicate? (floatCompares k) (if u then ordinaryNegation c else c) with
  | none => exact hregisters (lowers_refused fun _ _ => rfl)
  | some p =>
    refine hregisters (.bind (lowers_asm (does_predicate hp fun m1 r hr ht h1 => ?_)))
    cases u with
    | true =>
      have hholds := Condition.holdsOf_negation hr
      refine lowers_asm (does_bcond rfl hl (fun h p => htaken _ ?_ (h1.withPc p)) fun h p => hnot _ ?_ (h1.withPc p))
      · rw [hholds, flag_eq_zero.mp (ht.symm.trans (of_decide_eq_true h))]
        rfl
      · rw [hholds]
        cases r with
        | true => rfl
        | false => cases (of_decide_eq_false h) ht
    | false =>
      have hholds : c.holdsOf? false (k.orderOf (m.get (.f a)) (m.get (.f b))) = some r := Condition.holdsOf_ordered hr
      refine lowers_asm (does_bcond rfl hl (fun h p => htaken _ ?_ (h1.withPc p)) fun h p => hnot _ ?_ (h1.withPc p))
      · rw [hholds]
        cases r with
        | true => rfl
        | false => cases (of_decide_eq_true h) ht
      · rw [hholds, flag_eq_zero.mp (ht.symm.trans (Decidable.not_not.mp (of_decide_eq_false h)))]

/-- The branch is taken exactly when the condition holds. -/
theorem lowers_condBranch (hcompare : Comparable m left right) (hl : S.Binds l) (hleft : left.Admitted)
    (hright : right.Admitted)
    (htaken : ∀ m', c.decides? u m left right = some true → Scratched m m' → E (.label l) m')
    (hnot : ∀ m', c.decides? u m left right = some false → Scratched m m' → Q () m') :
    S.Lowers (condBranch c left right u l) m E Q := by
  unfold condBranch
  cases hcompare with
  | numbers hlk hrk hlv hrv hlh hrh =>
    have hint : left.kind.isFloat = false := by rcases hlk with e | e <;> rw [e] <;> rfl
    rw [hint, if_neg Bool.false_ne_true]
    exact lowers_intCondBranch hl hleft hright htaken hnot hlk hrk hlv hrv hlh hrh
  | floats file a b =>
    rw [show (Operand.floatRegister _ (.f a)).kind.isFloat = true from file, if_pos rfl]
    exact lowers_floatCondBranch hl htaken hnot

end Site

/-! ## Instructions -/

namespace Lower

variable {i : Instruction} {left right x y : Operand}

theorem dispatch_always (hop : i.op = .cmpBranch) (hc : i.cond = .always) :
    dispatch i = label i.target >>= fun l => liftM (Asm.j l) := by
  rw [dispatch.eq_def]
  simp only [hop, cmpBranch, hc, if_true]

theorem dispatch_cmpBranch (hop : i.op = .cmpBranch) (hc : i.cond ≠ .always) (hl : i.inputs[0]? = some left)
    (hr : i.inputs[1]? = some right) : dispatch i = label i.target >>=
    condBranch i.cond left right i.unorderedIsTrue := by
  rw [dispatch.eq_def]
  simp only [hop, cmpBranch, hc, if_false, input_eq_ok.mpr hl, input_eq_ok.mpr hr, lift_ok_bind]

/-- The branch on a condition, and what is done when it is not taken: a move, and a jump around the other. -/
def otherwise (cond : Condition) (left right : Operand) (unorderedIsTrue : Bool) (value dst : Operand)
    (isTrue done : Label) : Lower Unit :=
  condBranch cond left right unorderedIsTrue isTrue >>= fun _ => move value dst >>= fun _ => liftM (Asm.j done)

variable {rd : Reg} (cond : Condition) (unorderedIsTrue : Bool) (dst : Operand)

instance traced_otherwise (left right : Operand) (value : Operand) (isTrue done : Label) :
    Traced (otherwise cond left right unorderedIsTrue value dst isTrue done) := by
  unfold otherwise
  infer_instance

/-- A choice between two values, once they are read. -/
def choice (cond : Condition) (left right : Operand) (unorderedIsTrue : Bool) (x y dst : Operand) : Lower Unit :=
  (liftM newLabel : Lower Label) >>= fun isTrue => (liftM newLabel : Lower Label) >>= fun done =>
    (otherwise cond left right unorderedIsTrue y dst isTrue done >>= fun _ =>
    (liftM (Asm.bind isTrue) : Lower Unit) >>= fun _ => move x dst) >>=
      fun _ => liftM (Asm.bind done)

instance traced_choice (left right : Operand) (x y : Operand) :
    Traced (choice cond left right unorderedIsTrue x y dst) := by
  unfold choice
  infer_instance

instance seals_choice (left right : Operand) (x y : Operand) :
    Seals (choice cond left right unorderedIsTrue x y dst) := by
  unfold choice
  infer_instance

theorem dispatch_cmove (hop : i.op = .cmove) (hl : i.inputs[0]? = some left) (hr : i.inputs[1]? = some right)
    (hx : i.inputs[2]? = some x) (hy : i.inputs[3]? = some y) :
    dispatch i = choice i.cond left right i.unorderedIsTrue x y i.result := by
  rw [dispatch.eq_def]
  simp only [hop, cmove, choice, otherwise, input_eq_ok.mpr hl, input_eq_ok.mpr hr, input_eq_ok.mpr hx,
    input_eq_ok.mpr hy, lift_ok_bind, bind_assoc]

/-- A comparison with three outcomes, once its operands are read. -/
def signOf (left right : Operand) (unorderedIsTrue : Bool) (rd : Reg) : Lower Unit :=
  if left.kind.isFloat then cmp3Float rd left right unorderedIsTrue else cmp3Int rd left right

theorem dispatch_cmp3 {kr : ValueKind} {hi : Reg} (hop : i.op = .cmp3) (hl : i.inputs[0]? = some left)
    (hr : i.inputs[1]? = some right) (hres : i.result = .register kr rd hi) :
    dispatch i = signOf left right i.unorderedIsTrue rd := by
  have hreg : reg i.result "compare result" = .ok rd := by
    rw [hres]
    rfl
  rw [dispatch.eq_def]
  simp only [hop, cmp3, signOf, input_eq_ok.mpr hl, input_eq_ok.mpr hr, hreg, lift_ok_bind]

instance traced_signOf (left right : Operand) : Traced (signOf left right unorderedIsTrue rd) := by
  unfold signOf cmp3Float cmp3Int
  infer_instance

instance seals_signOf (left right : Operand) : Seals (signOf left right unorderedIsTrue rd) := by
  have hadd : Seals (liftM (add rd rd t0) : Lower Unit) := seals_emit ..
  have hsub (a : Reg) : Seals (liftM (sub rd a t0) : Lower Unit) := seals_emit ..
  unfold signOf cmp3Float cmp3Int
  infer_instance

end Lower

namespace Site

variable {S : Site} {m : Machine} {E : Exits} {Q : Unit → Machine → Prop} {left right : Operand} {u : Bool}

section
variable {c : Condition} {k : ValueKind} {x y dst : Operand} (hopts : S.target.opts.refusal? = none)
  (hk : k.Integral = true ∨ k.isFloat = true) (hdst : Home k dst) (hadm : dst.Admitted)
  (hfree : ∀ addr, S.target.opts.Occupies m dst addr → S.Free addr)
include hopts hk hdst hadm hfree

/-- A value that was there before scratch registers changed is moved. -/
theorem lowers_moveAfter {m1 : Machine} (h1 : Scratched m m1) (hx : Origin k x) (hxa : x.Admitted) (hxh : x.Held m)
    (h : ∀ m', S.target.opts.Receives k (S.target.opts.bitsOf m x) m m' dst → Q () m') : S.Lowers (move x dst) m1 E Q :=
  lowers_move hopts hk hdst hadm (fun addr hocc => hfree addr (h1.occupies hadm hocc))
    (fun m' h' => h m' (h1.receives hadm (h1.bitsOf_eq hxa ▸ h'))) hx hxa (h1.held hxa hxh)

/-- The home receives one of two values, as the condition holds of the operands as they were. -/
theorem lowers_choice (hcompare : Comparable m left right) (hleft : left.Admitted) (hright : right.Admitted)
    (hx : Origin k x)
    (hy : Origin k y) (hxa : x.Admitted) (hya : y.Admitted) (hxh : x.Held m) (hyh : y.Held m)
    (h : ∀ holds m', c.decides? u m left right = some holds →
      S.target.opts.Receives k (S.target.opts.bitsOf m (if holds then x else y)) m m' dst → Q () m') :
    S.Lowers (choice c left right u x y dst) m E Q := by
  refine .bind (lowers_asm (does_newLabel fun isTrue =>
    .bind (lowers_asm (does_newLabel fun done => .labelLast fun hdone => .label fun htrue => ?_))))
  refine .bind (lowers_condBranch hcompare htrue hleft hright ?taken ?not)
  case taken =>
    exact fun m1 hholds h1 => .inl ⟨rfl, fun _ =>
      lowers_moveAfter hopts hk hdst hadm hfree h1 hx hxa hxh fun m' => h true m' hholds⟩
  case not =>
    intro m1 hholds h1
    refine .bind (lowers_moveAfter hopts hk hdst hadm hfree h1 hy hya hyh fun m2 h2 =>
      lowers_asm (does_j hdone fun p => .inr (.inl ⟨rfl, ?_⟩)))
    exact h false _ hholds (h2.withPc p)

end

theorem does_slt {rd x y : Reg} (hk : Keeps rd)
    (h : ∀ m', Put rd [] (flag ((m.get x).toInt64.toInt < (m.get y).toInt64.toInt)) m m' → Q () m') : S.Does
    (rr .slt rd x y) m E Q :=
  does_puts (fun _ _ _ => rr_puts (f := fun x y => flag (x.toInt64.toInt < y.toInt64.toInt)) rfl
    (fun x y => by simp [Op.compute, flag, Int64.lt_iff_toInt_lt]) hk) h

section
variable {rd : Reg} (hk : Keeps rd) (hne : rd ≠ t0 ∧ rd ≠ t1)
include hk hne

omit hne in
/-- The sign of a difference is computed from two predicates. -/
theorem lowers_cmp3Int (hlk : left.kind = .int ∨ left.kind = .long) (hrk : right.kind = .int ∨ right.kind = .long)
    (hlv : left.isValue = true) (hrv : right.isValue = true) (hlh : left.Held m) (hrh : right.Held m)
    (hleft : left.Admitted)
    (hright : right.Admitted) (h : ∀ m', Put rd [t0, t1] ((left.orderIn m right).outcome u) m m' → Q () m') :
    S.Lowers (cmp3Int rd left right) m E Q := by
  refine .bind (lowers_lift fun a ha => ?_)
  obtain ⟨k, hi, rfl⟩ : ∃ k hi, left = .register k a hi := by
    cases left with
    | register k r hi =>
      cases ha
      exact ⟨k, hi, rfl⟩
    | stack | constant => cases ha
    | _ => cases hlv
  obtain ⟨ha0, ha1⟩ := hleft.ne_scratch
  refine .bind (lowers_source hrk hright hrv (.inr rfl) fun b m1 hb hy hrest1 hmem1 => ?_)
  have hb0 : b ≠ t0 := by
    rcases hb with rfl | ⟨h, -⟩
    · decide
    · exact h
  refine .bind (lowers_asm (does_slt (by decide) fun m2 h2 =>
    .bind (lowers_asm (does_slt (by decide) fun m3 h3 => lowers_asm (does_sub hk fun m4 h4 =>
    h m4 ⟨?_, fun q hq ht => ?_, ?_⟩)))))
  · have hx1 : m1.get a = m.get a := hrest1 a ha1
    rw [h4.value, h3.value, h3.other t0, h2.value, h2.other a ha0, h2.other b hb0,
      hx1, hy]
    have hxk := signedOf_eq (@ofKind_compared _ right.kind _ (.inl (ofKind_wordIn hlk hlv hlh)))
    have hyk := signedOf_eq (ofKind_compared (k := (Operand.register k a hi).kind) (.inr (ofKind_wordIn hrk hrv hrh)))
    show _ = FloatOrder.outcome u (if signedOf _ _ < signedOf _ _ then _ else if signedOf _
      _ = signedOf _ _ then _ else _)
    rw [hxk, hyk]
    exact flag_sub_flag u _ _
  · obtain ⟨h0, h1⟩ : q ≠ t0 ∧ q ≠ t1 := by simpa using ht
    rw [h4.other q hq, h3.other q h1, h2.other q h0, hrest1 q h1]
  · rw [h4.mem, h3.mem, h2.mem, hmem1]

/-- One predicate counts what is greater, the other what is not less; both are zero for what is unordered. -/
theorem lowers_cmp3Float {k : ValueKind} {a b : Fin 32}
    (h : ∀ m', Put rd [t0, t1] ((k.orderOf (m.get (.f a)) (m.get (.f b))).outcome u) m m' → Q () m')
    (hint : rd.isFloat = false) :
    S.Lowers (cmp3Float rd (.floatRegister k (.f a)) (.floatRegister k (.f b)) u) m E Q := by
  have hswap := k.orderOf_swap (m.get (.f a)) (m.get (.f b))
  have hrd (n : Fin 32) : Reg.f n ≠ rd := by
    rintro rfl
    cases hint
  refine .bind (lowers_lift fun r hr => .bind (lowers_lift fun r' hr' => ?_))
  cases hr
  cases hr'
  dsimp only [Operand.kind]
  cases u with
  | true =>
    rw [if_pos rfl]
    refine .bind (lowers_asm (does_less hk fun m1 h1 => .bind (lowers_asm (does_lessEqual (by decide) fun m2 h2 =>
      .bind (lowers_asm (does_addi fun m3 h3 =>
      lowers_asm (does_add hk fun m4 h4 => h m4 ⟨?_, fun q hq ht => ?_, ?_⟩)))))))
    · rw [h4.value, h3.value, h3.other rd hne.1, h2.value, h2.other rd hne.1, h1.value,
        h1.other (.f a) (hrd a), h1.other (.f b) (hrd b), hswap]
      cases k.orderOf (m.get (.f a)) (m.get (.f b)) <;> decide
    · have h0 : q ≠ t0 := fun e => ht (by simp [e])
      rw [h4.other q hq, h3.other q h0, h2.other q h0, h1.other q hq]
    · rw [h4.mem, h3.mem, h2.mem, h1.mem]
  | false =>
    rw [if_neg Bool.false_ne_true]
    refine .bind (lowers_asm (does_less (by decide) fun m1 h1 => .bind (lowers_asm (does_lessEqual hk fun m2 h2 =>
      .bind (lowers_asm (does_puts (fun _ _ _ =>
      ri_puts (f := fun x y => x ^^^ y) rfl (fun _ _ => rfl) hk) fun m3 h3 =>
        lowers_asm (does_sub hk fun m4 h4 => h m4 ⟨?_, fun q hq ht => ?_, ?_⟩)))))))
    · rw [h4.value, h3.value, h3.other t0 hne.1.symm, h2.value, h2.other t0 hne.1.symm, h1.value,
        h1.other (.f a) nofun, h1.other (.f b) nofun]
      cases k.orderOf (m.get (.f a)) (m.get (.f b)) <;> decide
    · have h0 : q ≠ t0 := fun e => ht (by simp [e])
      rw [h4.other q hq, h3.other q hq, h2.other q hq, h1.other q h0]
    · rw [h4.mem, h3.mem, h2.mem, h1.mem]

/-- The register receives the number of the order. -/
theorem lowers_signOf (hint : rd.isFloat = false) (hcompare : Comparable m left right) (hleft : left.Admitted)
    (hright : right.Admitted)
    (h : ∀ m', Put rd [t0, t1] ((left.orderIn m right).outcome u) m m' → Q () m') : S.Lowers
    (signOf left right u rd) m E Q := by
  unfold signOf
  cases hcompare with
  | numbers hlk hrk hlv hrv hlh hrh =>
    have hplain : left.kind.isFloat = false := by rcases hlk with e | e <;> rw [e] <;> rfl
    rw [hplain, if_neg Bool.false_ne_true]
    exact lowers_cmp3Int hk hlk hrk hlv hrv hlh hrh hleft hright h
  | floats file a b =>
    rw [show (Operand.floatRegister _ (.f a)).kind.isFloat = true from file, if_pos rfl]
    exact lowers_cmp3Float hk hne h hint

end

end Site

/-! ## Conditions in a compiled method -/

/-- The instruction compares two operands. -/
structure Instruction.Compares (i : Instruction) (m : Machine) (left right : Operand) : Prop where
  first : i.inputs[0]? = some left
  second : i.inputs[1]? = some right
  comparable : Comparable m left right

/-- The instruction chooses between two values of a kind. -/
structure Instruction.Chooses (i : Instruction) (m : Machine) (k : ValueKind) (x y : Operand) : Prop where
  kind : k.Integral = true ∨ k.isFloat = true
  ifTrue : i.inputs[2]? = some x
  ifFalse : i.inputs[3]? = some y
  origins : Origin k x ∧ Origin k y
  held : x.Held m ∧ y.Held m
  home : Home k i.result

/-- The instruction is the label that another jumps to. -/
structure Instruction.Marks (j i : Instruction) : Prop where
  op : j.op = .label
  label : j.label = i.target

/-- What the conditions of a method come to. -/
structure ConditionsAgree (t : Target) : Prop where
  /-- A conditional jump is one to its label if the condition holds, and else to the next instruction. -/
  jumps : ∀ {c : Resident t} {W : World} {k n : Nat} {i j : Instruction} {m : Machine} {left right : Operand},
    c.Facing W k i m → i.op = .cmpBranch → i.cond ≠ .always → i.Compares m left right →
    c.program.code[n]? = some j → j.Marks i → ∃ holds, i.cond.decides? i.unorderedIsTrue m left right = some holds ∧
      ∃ m', W.Reaches m m' ∧ c.Before (if holds then n else k + 1) m' ∧ Scratched m m'
  /-- The condition that always holds needs no operands. -/
  always : ∀ {c : Resident t} {W : World} {k n : Nat} {i j : Instruction} {m : Machine}, c.Facing W k i m →
    i.op = .cmpBranch → i.cond = .always → c.program.code[n]? = some j → j.Marks i → ∃ m', W.Reaches m m' ∧
    c.Before n m' ∧ Scratched m m'
  /-- The result is the one value if the condition holds, and else the other, as they were before. -/
  chooses : ∀ {c : Resident t} {W : World} {k : Nat} {i : Instruction} {m : Machine} {left right x y : Operand}
    {kind : ValueKind}, c.Facing W k i m → i.op = .cmove → i.Compares m left right → i.Chooses m kind x y →
    (∀ addr, t.opts.Occupies m i.result addr → c.Clear addr) →
    ∃ holds, i.cond.decides? i.unorderedIsTrue m left right = some holds ∧
      c.Runs W k m fun m' => t.opts.Receives kind (t.opts.bitsOf m (if holds then x else y)) m m' i.result
  /-- The result is the number of the order that the operands were in. -/
  compares : ∀ {c : Resident t} {W : World} {k : Nat} {i : Instruction} {m : Machine} {left right : Operand}
    {kind : ValueKind} {rd : Fin 32} {hi : Reg}, c.Facing W k i m → i.op = .cmp3 → i.Compares m left right →
    i.result = .register kind (.x rd) hi → c.Runs W k m
    (Put (.x rd) [t0, t1] ((left.orderIn m right).outcome i.unorderedIsTrue) m)

/-- A jump, a choice and a comparison with three outcomes agree on what a condition says. -/
theorem conditions_agree {t : Target} (hopts : t.opts.refusal? = none) : ConditionsAgree t where
  jumps {c W k n i j m left right} hm hop hc hi hn hj := by
    have hgo := hm.jumps (P := fun m' => i.cond.decides? i.unorderedIsTrue m left right = some true ∧ Scratched m m')
      (Q := fun m' => i.cond.decides? i.unorderedIsTrue m left right = some false ∧ Scratched m m')
      (dispatch_cmpBranch hop hc hi.first hi.second) hn hj.op hj.label fun S l hviews hadmitted hl =>
        Site.lowers_condBranch hi.comparable hl (hadmitted.inputs _ (List.mem_of_getElem? hi.first))
        (hadmitted.inputs _ (List.mem_of_getElem? hi.second))
          (fun m' hholds h' => .inl ⟨rfl, hholds, h'⟩) fun m' hholds h' => ⟨hholds, h'⟩
    obtain ⟨m', hreach, hbefore, hholds, h'⟩ | ⟨m', hreach, hbefore, hholds, h'⟩ := hgo
    · exact ⟨false, hholds, m', hreach, hbefore, h'⟩
    · exact ⟨true, hholds, m', hreach, hbefore, h'⟩
  always {c W k n i j m} hm hop hc hn hj := by
    have hgo := hm.jumps (P := Scratched m) (Q := fun _ => False) (dispatch_always hop hc) hn hj.op
      hj.label fun S l hviews hadmitted hl =>
      Site.lowers_asm (Site.does_j hl fun p => .inl ⟨rfl, (alters_refl ..).withPc p⟩)
    obtain ⟨_, -, -, hfalse⟩ | h := hgo
    · exact hfalse.elim
    · exact h
  chooses {c W k i m left right x y kind} hm hop hi hxy hclear := by
    have hrun := hm.runs (Q := fun m' => ∃ holds, i.cond.decides? i.unorderedIsTrue m left right = some holds ∧
      t.opts.Receives kind (t.opts.bitsOf m (if holds then x else y)) m m' i.result)
      (dispatch_cmove hop hi.first hi.second hxy.ifTrue hxy.ifFalse) fun S ht hfree hadmitted => by
        subst ht
        have hin {n : Nat} {o : Operand} (h : i.inputs[n]? = some o) : o.Admitted :=
          hadmitted.inputs o (List.mem_of_getElem? h)
        exact Site.lowers_choice hopts hxy.kind hxy.home hadmitted.result (fun addr hocc =>
          hfree _ (hclear addr hocc)) hi.comparable (hin hi.first)
          (hin hi.second) hxy.origins.1 hxy.origins.2 (hin hxy.ifTrue) (hin hxy.ifFalse) hxy.held.1 hxy.held.2
          fun holds m' hholds h' => ⟨holds, hholds, h'⟩
    obtain ⟨m', hreach, hbefore, holds, hholds, h'⟩ := hrun
    exact ⟨holds, hholds, m', hreach, hbefore, h'⟩
  compares {c W k i m left right kind rd hi} hm hop hlr hres := by
    refine hm.runs (dispatch_cmp3 hop hlr.first hlr.second hres) fun S ht hfree hadmitted => ?_
    have hkept : Keeps (.x rd) := hadmitted.keeps hres Reg.noConfusion
    have hresult : (Operand.register kind (.x rd) hi).Admitted := hres ▸ hadmitted.result
    exact Site.lowers_signOf hkept hresult.ne_scratch rfl hlr.comparable
      (hadmitted.inputs _ (List.mem_of_getElem? hlr.first))
      (hadmitted.inputs _ (List.mem_of_getElem? hlr.second)) fun m' h' => h'

/-- A method that chooses one for what is unordered, compares it with an int and goes by the outcome. -/
def asksThrice : Program where
  name := "p"
  frameSize := 32
  labels := 1
  code := #[
    { op := .cmove, cond := .lt, unorderedIsTrue := true, result := .register .int (.x 12) .none,
      inputs := [.floatRegister .float (.f 10), .floatRegister .float (.f 11), .constant .int 1,
      .register .int (.x 12) .none] },
    { op := .cmp3, inputs := [.register .int (.x 12) .none, .register .int (.x 10) .none],
      result := .register .int (.x 10) .none },
    { op := .cmpBranch, cond := .be, inputs := [.register .int (.x 10) .none, .constant .int (-3)], target := 1 },
    { op := .ret },
    { op := .label, label := 1 },
    { op := .ret }]

/-- Empty float registers hold no singles, one is more than minus three, and minus three is more than one
without its sign. -/
theorem conditions_are_asked : ∃ method off m', asksThrice.compile baseTarget 0 = .ok method ∧
    asksThrice.placeOf baseTarget 0 0 = .ok off ∧
    World.bare.Reaches (negating method.blob.code (0x10000 + UInt64.ofNat off)) m' ∧ m'.get (.x 12) = 1 ∧
    m'.get (.x 10) = 1 ∧ ∃ end_, asksThrice.placeOf baseTarget 0 4 = .ok end_ ∧ m'.pc = 0x10000 + UInt64.ofNat end_ := by
  obtain ⟨method, off, hcompiled, hsize, hoff⟩ : asksThrice.CompilesWithin baseTarget 0 0 0x1000 :=
    .of_checks (by decide +kernel) (by decide +kernel)
  have hagree := conditions_agree (t := baseTarget) (by decide)
  let c : Resident baseTarget := ⟨asksThrice, 0, method, 0x10000, hcompiled, absurd rfl⟩
  let m := negating method.blob.code (0x10000 + UInt64.ofNat off)
  have hbefore : c.Before 0 m := .of_overlay hsize hoff rfl rfl
  have hword {r : Reg} {v : UInt64} {m' : Machine} (h : m'.get r = v)
    (hv : sext v.toUInt32 = v) : (Operand.register .int r .none).Held m' := by
    subst h
    exact hv
  obtain ⟨holds, hholds, m1, hreach1, hbefore1, h1⟩ :=
    hagree.chooses (c := c) (W := World.bare) (i := asksThrice.code[0]) ⟨rfl, fun _ _ => rfl, hbefore⟩ rfl
    ⟨rfl, rfl, .floats rfl 10 11⟩ ⟨.inl rfl, rfl, rfl, ⟨.constant 1, .register 12 .none rfl⟩,
      ⟨trivial, hword (v := 0) rfl (by decide)⟩, .register 12 .none (by decide) rfl⟩
    fun _ (h : False) => h.elim
  obtain rfl : true = holds := Option.some.inj
    ((show Condition.lt.holdsOf? true (ValueKind.float.orderOf 0 0) = some true by decide +kernel).symm.trans hholds)
  have hone : m1.get (.x 12) = 1 := Put.value h1
  have hthree : m1.get (.x 10) = -3 := Put.rest h1 (.x 10) (by decide) (by decide)
  obtain ⟨m2, hreach2, hbefore2, h2⟩ := hagree.compares (c := c) (W := World.bare) ⟨rfl, fun _ _ => rfl, hbefore1⟩ rfl
    ⟨rfl, rfl, .numbers (.inl rfl) (.inl rfl) rfl rfl (hword hone (by decide)) (hword hthree (by decide))⟩ rfl
  have hone2 : m2.get (.x 10) = 1 := by
    rw [h2.value]
    show FloatOrder.outcome false (if signedOf .int (m1.get (.x 12)) < signedOf .int (m1.get (.x 10)) then _
      else if signedOf .int (m1.get (.x 12)) = signedOf .int (m1.get (.x 10)) then _ else _) = 1
    rw [hone, hthree]
    decide
  obtain ⟨holds, hholds, m3, hreach3, ⟨-, end_, hend, hpc⟩, h3⟩ := hagree.jumps (c := c) (W := World.bare) (n := 4)
    ⟨rfl, fun _ _ => rfl, hbefore2⟩ rfl nofun ⟨rfl, rfl,
      .numbers (.inl rfl) (.inl rfl) rfl rfl (hword hone2 (by decide)) trivial⟩ rfl ⟨rfl, rfl⟩
  have hbelow : some (decide (unsignedOf .int (m2.get (.x 10)) ≤ unsignedOf .int
    (Operand.constantWord .int (-3)))) = some holds := hholds
  rw [hone2] at hbelow
  obtain rfl : true = holds := Option.some.inj ((show _ = some true by decide).symm.trans hbelow)
  refine ⟨method, off, m3, hcompiled, hoff, (hreach1.trans hreach2).trans hreach3, ?_, ?_, end_, hend, hpc⟩
  · rw [h3.regs _ (by decide), h2.rest _ (by decide) (by decide), hone]
  · rw [h3.regs _ (by decide), hone2]

end RiscvJit
