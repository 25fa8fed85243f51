import RiscvJit.Proofs.Code.GuardedSequences
import RiscvJit.Proofs.Lir.Reading
import RiscvJit.Proofs.Lower.Capacity

/-
  RiscvJit.Proofs.Lower.Guarded — lowering one instruction ends with code or with a broken
  precondition.

  What holds of writing code (`Asm.Guarded`) is carried over to lowering: work is `Lower.Guarded F`
  when, wherever the labels of `F` exist, it does not stop but for a precondition, leaves the labels
  that were there as they were, and makes neither labels of the program nor slow paths.

  Two things are asked of the operands. An instruction must have as many inputs as its lowering
  reads, since a missing one is an access outside of a list. And an operand in memory must be of a
  kind that memory holds (`Operand.Written`), which every kind is that a file can name.
-/

namespace RiscvJit

open Reg (zr t0)
open Asm
open Operand

/-- What most work keeps of the state of lowering: all but the code, the sites and the labels of its own. -/
structure Lowering.Keeps (s s' : Lowering) : Prop where
  inStub : s'.asm.buf.inStub = s.asm.buf.inStub
  prog : s'.prog = s.prog
  labels : s'.labels = s.labels
  slowPaths : s'.slowPaths = s.slowPaths
  unwind : s'.unwind = s.unwind

theorem Lowering.keeps_refl (s : Lowering) : s.Keeps s := ⟨rfl, rfl, rfl, rfl, rfl⟩

theorem Lowering.Keeps.trans {s s1 s2 : Lowering} (h : s.Keeps s1) (h' : s1.Keeps s2) : s.Keeps s2 :=
  ⟨h'.inStub.trans h.inStub, h'.prog.trans h.prog, h'.labels.trans h.labels, h'.slowPaths.trans h.slowPaths,
    h'.unwind.trans h.unwind⟩

namespace Lower

/-- From labels bound so, the work is safe and ends as told. -/
structure Safe {α : Type} (F : List Bool) (x : Lower α) (Q : α → List Bool → Prop) : Prop where
  ends : ∀ {t s}, t.Complete → s.asm.Sound F → Ends (x t s) fun r => s.Keeps r.2 ∧ ∃ F', Q r.1 F' ∧ r.2.asm.Sound F'

/-- Where the labels of `F` exist the work is safe, and the labels that were there are as they were. -/
class Guarded {α : Type} (F : List Bool) (x : Lower α) : Prop where
  safe : ∀ {F'}, F <+: F' → Safe F' x fun _ F'' => F' <+: F''

/-! ## Sequences and choices -/

section
variable {α β : Type} {F : List Bool}

variable {x : Lower α} {Q : α → List Bool → Prop}

theorem Safe.mono {R : α → List Bool → Prop} (h : Safe F x Q) (hq : ∀ r F', Q r F' → R r F') : Safe F x R where
  ends ht hs := (h.ends ht hs).mono fun _ ⟨hk, F', hr, hs'⟩ => ⟨hk, F', hq _ _ hr, hs'⟩

theorem Safe.bind {f : α → Lower β} {R : β → List Bool → Prop} (hx : Safe F x Q) (hf : ∀ r F', Q r F' → Safe F' (f r) R) :
    Safe F (x >>= f) R where
  ends ht hs := (hx.ends ht hs).bind fun r ⟨hk, F', hq, hs'⟩ =>
    ((hf r.1 F' hq).ends ht hs').mono fun _ ⟨hk', F'', h, hs''⟩ => ⟨hk.trans hk', F'', h, hs''⟩

/-- A check that may fail, or a value that is there. -/
theorem safe_lift {e : Except Fault α} {Q : α → Prop} (h : Ends e Q) : Safe F (liftM e) fun r F' => Q r ∧ F' = F where
  ends {t s} _ hs := by
    rcases h with ⟨r, rfl, hr⟩ | ⟨what, rfl⟩
    · exact .inl ⟨_, rfl, s.keeps_refl, F, ⟨hr, rfl⟩, hs⟩
    · exact .inr ⟨what, rfl⟩

/-- Writing code changes the assembler only. -/
theorem safe_asm {x : Asm α} (h : Asm.Safe F x Q) : Safe F (liftM x : Lower α) Q where
  ends {t s} ht hs := by
    rcases h.ends ht hs with ⟨⟨r, a⟩, hrun, F', hq, ha, hin⟩ | ⟨what, hstop⟩
    · exact .inl ⟨_, asm_eq_ok.mpr ⟨a, hrun, rfl⟩, ⟨hin, rfl, rfl, rfl, rfl⟩, F', hq, ha⟩
    · refine .inr ⟨what, ?_⟩
      simp only [liftM, monadLift, MonadLift.monadLift, hstop]

theorem guarded_lift {e : Except Fault α} {Q : α → Prop} (h : Ends e Q) : Guarded F (liftM e : Lower α) where
  safe _ := (safe_lift h).mono fun _ _ h => h.2 ▸ List.prefix_refl _

theorem Guarded.andThen {f : α → Lower β} {R : β → List Bool → Prop} (hx : Guarded F x)
    (hf : ∀ r F', F <+: F' → Safe F' (f r) R) : Safe F (x >>= f) R :=
  (hx.safe (List.prefix_refl F)).bind hf

instance guarded_asm (x : Asm α) [hx : Asm.Guarded F x] : Guarded F (liftM x : Lower α) where
  safe hp := safe_asm (hx.safe hp)

instance guarded_pure (r : α) : Guarded F (pure r : Lower α) where
  safe _ := ⟨fun {_ s} _ hs => .inl ⟨_, rfl, s.keeps_refl, _, List.prefix_refl _, hs⟩⟩

instance guarded_broken (what : String) : Guarded F (throw (.precondition what) : Lower α) where
  safe _ := ⟨fun _ _ => .inr ⟨what, rfl⟩⟩

instance guarded_bind (x : Lower α) (f : α → Lower β) [hx : Guarded F x] [hf : ∀ r, Guarded F (f r)] :
    Guarded F (x >>= f) where
  safe hp := (hx.safe hp).bind fun r _ h => ((hf r).safe (hp.trans h)).mono fun _ _ h' => h.trans h'

instance guarded_seq (x : Lower α) (y : Lower β) [Guarded F x] [Guarded F y] : Guarded F (x >>= fun _ => y) :=
  guarded_bind x _

instance guarded_ite (c : Prop) [Decidable c] (x y : Lower α) [hx : Guarded F x] [hy : Guarded F y] :
    Guarded F (if c then x else y) := by
  split
  · exact hx
  · exact hy

instance guarded_check (b : Bool) (what : Unit → String) : Guarded F (liftM (check b what) : Lower Unit) :=
  guarded_lift (ends_check b what)

instance guarded_read : Guarded F (read : Lower Target) where
  safe _ := ⟨fun {_ s} _ hs => .inl ⟨_, rfl, s.keeps_refl, _, List.prefix_refl _, hs⟩⟩

instance guarded_get : Guarded F (get : Lower Lowering) where
  safe _ := ⟨fun {_ s} _ hs => .inl ⟨_, rfl, s.keeps_refl, _, List.prefix_refl _, hs⟩⟩

/-- A new label is made, and work goes on with it. -/
theorem safe_fresh {f : Label → Lower α} (hf : ∀ l F', F <+: F' → F.length < l → OpenLabel F' l → Safe F' (f l) Q) :
    Safe F (liftM newLabel >>= f) Q :=
  (safe_asm safe_newLabel).bind fun l F' ⟨hl, hF⟩ => by
    subst hl hF
    exact hf _ _ (List.prefix_append _ _) (Nat.lt_succ_self _) (openLabel_fresh F)

end

/-! ## Operands -/

section
variable {F : List Bool}

variable (o : Operand) (what : String)

theorem ends_reg : Ends (reg o what) fun _ => True := by
  refine (ends_check ..).bind fun _ h => ?_
  cases o with
  | register k lo hi => exact .inl ⟨lo, rfl, trivial⟩
  | _ => cases h

theorem ends_freg : Ends (freg o what) fun _ => True := by
  refine (ends_check ..).bind fun _ h => ?_
  cases o with
  | floatRegister k r => exact .inl ⟨r, rfl, trivial⟩
  | _ => cases h

instance guarded_reg : Guarded F (liftM (reg o what) : Lower Reg) := guarded_lift (ends_reg o what)

instance guarded_freg : Guarded F (liftM (freg o what) : Lower Reg) := guarded_lift (ends_freg o what)

theorem ends_input {i : Instruction} {n : Nat} (h : n < i.inputs.length) : Ends (input i n) fun o => o ∈ i.inputs := by
  refine .inl ⟨i.inputs[n], ?_, List.getElem_mem h⟩
  rw [input, List.getElem?_eq_getElem h]

theorem ends_checkOperand (op : Opcode) (what : String) (o : Operand) : Ends (checkOperand op what o) fun _ => True := by
  unfold checkOperand
  cases o with
  | register k lo hi => exact (ends_check ..).mono fun _ _ => trivial
  | floatRegister k r => exact (ends_check ..).mono fun _ _ => trivial
  | memory k a =>
    refine (ends_check ..).bind fun _ _ => ?_
    split
    · exact (ends_check ..).mono fun _ _ => trivial
    · exact .inl ⟨(), rfl, trivial⟩
  | _ => exact .inl ⟨(), rfl, trivial⟩

theorem ends_forM {α : Type} {f : α → Except Fault Unit} (h : ∀ x, Ends (f x) fun _ => True) (xs : List α) :
    Ends (xs.forM f) fun _ => True := by
  induction xs with
  | nil => exact .inl ⟨(), rfl, trivial⟩
  | cons x xs ih => exact (h x).bind fun _ _ => ih

theorem ends_checkOperands (i : Instruction) : Ends (checkOperands i) fun _ => True := by
  unfold checkOperands
  refine (ends_forM (ends_checkOperand i.op "input") _).bind fun _ _ =>
    (ends_forM (ends_checkOperand i.op "temporary") _).bind fun _ _ => ?_
  split
  case _ hr =>
    have hreg : Ends i.result.reg fun _ => True := by
      cases hres : i.result with
      | register k lo hi => exact .inl ⟨lo, rfl, trivial⟩
      | floatRegister k r => exact .inl ⟨r, rfl, trivial⟩
      | _ => rw [hres] at hr; cases hr
    exact hreg.bind fun _ _ => (ends_check ..).bind fun _ _ => ends_checkOperand ..
  · exact ends_checkOperand ..

end

/-! ## Moves -/

section
variable {F : List Bool}

variable {i : Instruction} (rd : Reg) (o : Op) (src : Operand) (k : ValueKind) (a : Address) (r : Reg) {dst : Operand}
  (result : Operand) (cond : Condition) (left right : Operand)

instance guarded_memLoadOp [hk : k.Written] : Guarded F (liftM (memLoadOp k) : Lower Op) := by
  have hall : ∀ k ∈ writtenKinds, ∃ o, memLoadOp k = .ok o := by simp [writtenKinds, memLoadOp]
  obtain ⟨o, ho⟩ := hall k hk.mem
  exact guarded_lift (Q := fun _ => True) (.inl ⟨o, ho, trivial⟩)

instance guarded_memStoreOp [hk : k.Written] : Guarded F (liftM (memStoreOp k) : Lower Op) := by
  have hall : ∀ k ∈ writtenKinds, ∃ o, memStoreOp k = .ok o := by simp [writtenKinds, memStoreOp]
  obtain ⟨o, ho⟩ := hall k hk.mem
  exact guarded_lift (Q := fun _ => True) (.inl ⟨o, ho, trivial⟩)

instance guarded_compressedOop : Guarded F (compressedOop k) := by
  unfold compressedOop
  infer_instance

instance guarded_constToReg (bits : UInt64) : Guarded F (constToReg (.constant k bits) rd) := by
  have hbits : Guarded F (liftM (Operand.constant k bits).bits : Lower UInt64) :=
    guarded_lift (Q := fun _ => True) (.inl ⟨bits, rfl, trivial⟩)
  unfold constToReg
  cases k <;> (dsimp only [kind]; infer_instance)

instance guarded_srcReg (o : Operand) (scratch : Reg) : Guarded F (srcReg o scratch) := by
  unfold srcReg
  cases o <;> infer_instance

instance guarded_loadFromMemory [k.Written] : Guarded F (loadFromMemory rd k a) := by
  unfold loadFromMemory
  infer_instance

instance guarded_storeToMemory [k.Written] : Guarded F (storeToMemory r k a) := by
  unfold storeToMemory
  infer_instance

theorem guarded_moveFromReg (hdst : dst.Written) : Guarded F (moveFromReg src r dst) := by
  unfold moveFromReg cannotMove
  cases dst with
  | memory k a =>
    have : k.Written := hdst rfl
    infer_instance
  | _ => infer_instance

theorem guarded_moveFromFloatReg (hk : k.Written) : Guarded F (moveFromFloatReg src k r dst) := by
  unfold moveFromFloatReg cannotMove
  cases dst <;> infer_instance

theorem guarded_moveFromStack (slot : Nat) (hdst : dst.Written) : Guarded F (moveFromStack src k slot dst) := by
  unfold moveFromStack moveStackToMemory cannotMove
  cases dst with
  | memory k a =>
    have : k.Written := hdst rfl
    infer_instance
  | _ => infer_instance

theorem guarded_moveFromConst (bits : UInt64) (hdst : dst.Written) :
    Guarded F (moveFromConst (.constant k bits) bits dst) := by
  unfold moveFromConst moveConstToMemory constStoreOp cannotMove
  cases dst with
  | memory k a =>
    have : k.Written := hdst rfl
    dsimp only
    infer_instance
  | _ => infer_instance

theorem guarded_moveFromMemory (hk : k.Written) : Guarded F (moveFromMemory src k a dst) := by
  unfold moveFromMemory cannotMove
  cases dst <;> infer_instance

theorem guarded_move {src : Operand} (hsrc : src.Written) (hdst : dst.Written) : Guarded F (move src dst) := by
  cases src with
  | absent => exact guarded_broken ..
  | register k lo hi => exact guarded_moveFromReg _ lo hdst
  | floatRegister k r => exact guarded_moveFromFloatReg _ k r (hsrc rfl)
  | stack k slot => exact guarded_moveFromStack _ k slot hdst
  | constant k bits => exact guarded_moveFromConst k bits hdst
  | memory k a => exact guarded_moveFromMemory _ k a (hsrc rfl)

/-! ## Sites -/

instance guarded_ensureUniquePc : Guarded F ensureUniquePc := by
  unfold ensureUniquePc offset
  infer_instance

/-- Two maps at one place break a precondition. -/
instance guarded_addMap (off : Int64) (m : OopMap) :
    Asm.Guarded F (change fun a => return { a with oopMaps := ← a.oopMaps.add off m }) where
  safe {F'} _ := ⟨fun {t a} _ ha => by
    have hadd : Ends (a.oopMaps.add off m) fun _ => True := by
      unfold OopMapSet.add
      split
      · exact .inr ⟨_, rfl⟩
      · exact .inl ⟨_, rfl, trivial⟩
    rcases hadd with ⟨maps, hmaps, -⟩ | ⟨what, hstop⟩
    · refine .inl ⟨((), { a with oopMaps := maps }), change_ok (by rw [hmaps]; rfl), F', List.prefix_refl _, ?_, rfl⟩
      exact ⟨ha.flags, ha.room, ha.small, ha.written⟩
    · refine .inr ⟨what, ?_⟩
      unfold change
      dsimp only
      rw [hstop]
      rfl⟩

instance guarded_failed : Asm.Guarded F failed := by
  unfold failed
  infer_instance

/-- Noting a site changes neither the code nor the labels. -/
instance guarded_noteSite (site : DebugSite) (off : Int64) :
    Guarded F (modify fun s => { s with sites := s.sites.push site, lastSite := some off } : Lower Unit) where
  safe _ := ⟨fun _ hs => .inl ⟨_, rfl, ⟨rfl, rfl, rfl, rfl, rfl⟩, _, List.prefix_refl _, hs⟩⟩

theorem guarded_addSite {info : SiteInfo} (h : info.live = []) : Guarded F (addSite (some info)) := by
  have hmap (n : Int64) : Guarded F (liftM (OopMap.ofLive (info.live ++ []) n) : Lower OopMap) := by
    rw [h]
    exact guarded_lift (Q := fun _ => True) (.inl ⟨_, rfl, trivial⟩)
  unfold addSite addSiteAt offset
  infer_instance

/-! ## Arithmetic without division -/

instance guarded_floatArith : Guarded F (floatArith i left right) := by
  unfold floatArith
  cases floatOps? i.op <;> infer_instance

theorem guarded_shift (hi : 2 ≤ i.inputs.length) : Guarded F (shift i) := by
  have hleft := guarded_lift (F := F) (ends_input (i := i) (n := 0) (by omega))
  have hright := guarded_lift (F := F) (ends_input (i := i) (n := 1) hi)
  unfold shift
  refine @guarded_bind _ _ _ _ _ hleft fun left => @guarded_bind _ _ _ _ _ hright fun count => ?_
  cases count <;> infer_instance

instance guarded_negFloat : Guarded F (negFloat o src result) := by
  unfold negFloat
  infer_instance

theorem guarded_neg (hi : 1 ≤ i.inputs.length) : Guarded F (neg i) := by
  have hsrc := guarded_lift (F := F) (ends_input (i := i) (n := 0) hi)
  unfold neg
  refine @guarded_bind _ _ _ _ _ hsrc fun src => ?_
  cases src.kind <;> infer_instance

instance guarded_narrowTo (n : Int64) (back : Op) : Guarded F (narrowTo n back result src) := by
  unfold narrowTo
  infer_instance

instance guarded_intToFloat : Guarded F (intToFloat o result src) := by
  unfold intToFloat
  infer_instance

instance guarded_floatToFloat : Guarded F (floatToFloat o result src) := by
  unfold floatToFloat
  infer_instance

/-- A label of one's own: it is made, referred to, bound once, and nobody else knows it. -/
theorem guarded_ownLabel (before : Label → Lower Unit) (hbefore : ∀ F' l, KnownLabel F' l → Guarded F' (before l)) :
    Guarded F (liftM newLabel >>= fun l => before l >>= fun _ => liftM (Asm.bind l)) where
  safe {F'} hp := by
    refine safe_fresh fun l F1 hp1 hl ho => ?_
    refine (hbefore F1 l ho.known).andThen fun _ F2 hp2 => ?_
    refine (safe_asm (safe_bindLabel (ho.extend hp2))).mono fun _ F3 h => ?_
    subst h
    exact prefix_boundLabel (hp1.trans hp2) hl

instance guarded_floatToInt (cvt feq : Op) : Guarded F (floatToInt cvt feq result src) := by
  have hown (rd fs : Reg) := guarded_ownLabel (F := F) (fun done => do
    fcvt cvt rd fs roundTowardZero
    rr feq t0 fs fs
    branch .bne t0 zr done
    mv rd zr) fun _ _ _ => inferInstance
  simp only [bind_assoc] at hown
  unfold floatToInt
  infer_instance

theorem guarded_convert (hi : 1 ≤ i.inputs.length) : Guarded F (convert i) := by
  have hsrc := guarded_lift (F := F) (ends_input (i := i) (n := 0) hi)
  unfold convert
  refine @guarded_bind _ _ _ _ _ hsrc fun src => ?_
  cases i.conv <;> infer_instance

/-! ## Comparisons -/

instance guarded_intCondBranch (target : Label) [KnownLabel F target] :
    Guarded F (intCondBranch cond left right target) := by
  have hjump {o : Op} (ho : o.info.format = .branch) (a b : Reg) := guarded_bcond (F := F) (l := target) ho a b
  have heq := fun a b => hjump (o := .beq) rfl a b
  have hne := fun a b => hjump (o := .bne) rfl a b
  have hlt := fun a b => hjump (o := .blt) rfl a b
  have hge := fun a b => hjump (o := .bge) rfl a b
  have hgeu := fun a b => hjump (o := .bgeu) rfl a b
  unfold intCondBranch
  cases cond <;> (dsimp only [branchOp?]; infer_instance)

instance guarded_computePredicate (c : FloatCompares) (p : FloatPredicate) (a b : Reg) :
    Asm.Guarded F (computePredicate c p a b) := by
  unfold computePredicate
  cases p with
  | compare o swapped => cases swapped <;> infer_instance
  | apart => infer_instance

instance guarded_floatCondBranch (unorderedIsTrue : Bool) (target : Label) [KnownLabel F target] :
    Guarded F (floatCondBranch cond left right unorderedIsTrue target) := by
  unfold floatCondBranch
  dsimp only
  cases predicate? (floatCompares left.kind) (if unorderedIsTrue then ordinaryNegation cond else cond) <;> infer_instance

instance guarded_condBranch (unorderedIsTrue : Bool) (target : Label) [KnownLabel F target] :
    Guarded F (condBranch cond left right unorderedIsTrue target) := by
  unfold condBranch
  infer_instance

/-- A choice makes two labels and binds each of them once. -/
theorem guarded_cmove (hi : 4 ≤ i.inputs.length) (hins : ∀ o ∈ i.inputs, o.Written) (hres : i.result.Written) :
    Guarded F (cmove i) := by
  have hvalue {F0 : List Bool} {n : Nat} (hn : n < i.inputs.length) {f : Unit → Lower Unit} {Q : Unit → List Bool → Prop}
      (hf : ∀ F1, F0 <+: F1 → Safe F1 (f ()) Q) : Safe F0 (liftM (input i n) >>= fun v => move v i.result >>= f) Q := by
    refine (safe_lift (ends_input hn)).bind fun v _ ⟨hv, h⟩ => ?_
    subst h
    exact (guarded_move (hins v hv) hres).andThen fun _ F1 hp => hf F1 hp
  refine ⟨fun {F'} _ => ?_⟩
  unfold cmove
  refine safe_fresh fun isTrue F1 hp1 hl1 ho1 => ?_
  refine safe_fresh fun done F2 hp2 hl2 ho2 => ?_
  refine (guarded_lift (ends_input (by omega))).andThen fun left F3 hp3 => ?_
  refine (guarded_lift (ends_input (by omega))).andThen fun right F4 hp4 => ?_
  have htrue : OpenLabel F4 isTrue := ((ho1.extend hp2).extend hp3).extend hp4
  have hdone : OpenLabel F4 done := (ho2.extend hp3).extend hp4
  have := htrue.known
  refine (guarded_condBranch i.cond left right i.unorderedIsTrue isTrue).andThen fun _ F5 hp5 => ?_
  refine hvalue (by omega) fun F6 hp6 => ?_
  have hpast := hp5.trans hp6
  have := (hdone.extend hpast).known
  refine (guarded_asm (j done)).andThen fun _ F7 hp7 => ?_
  refine (safe_asm (safe_bindLabel (htrue.extend (hpast.trans hp7)))).bind fun _ _ h => ?_
  subst h
  have hkept : F' <+: boundLabel F7 isTrue :=
    prefix_boundLabel (hp1.trans (hp2.trans (hp3.trans (hp4.trans (hpast.trans hp7))))) hl1
  have happart : done ≠ isTrue := fun e => Nat.lt_irrefl _ (Nat.lt_of_lt_of_le hl2 (e ▸ ho1.known.le))
  have hstill := (hdone.extend (hpast.trans hp7)).boundLabel_other happart ho1.1
  refine hvalue (by omega) fun F8 hp8 => ?_
  refine (safe_asm (safe_bindLabel (hstill.extend hp8))).mono fun _ _ h => ?_
  subst h
  exact prefix_boundLabel (hkept.trans hp8) (Nat.lt_of_le_of_lt hp1.length_le hl2)

instance guarded_cmp3Int : Guarded F (cmp3Int rd left right) := by
  unfold cmp3Int
  infer_instance

instance guarded_cmp3Float (unorderedIsLess : Bool) : Guarded F (cmp3Float rd left right unorderedIsLess) := by
  unfold cmp3Float
  infer_instance

theorem guarded_cmp3 (hi : 2 ≤ i.inputs.length) : Guarded F (cmp3 i) := by
  have hleft := guarded_lift (F := F) (ends_input (i := i) (n := 0) (by omega))
  have hright := guarded_lift (F := F) (ends_input (i := i) (n := 1) hi)
  unfold cmp3
  infer_instance

end

end Lower

end RiscvJit
