import RiscvJit.Proofs.Lower.MemoryMoves

/-
  RiscvJit.Proofs.Lower.ImplicitExceptions — checks that throw without an instruction that says so.

  A division by zero, a null reference and an index out of range are found by a compare in the main code
  and thrown on a slow path. The slow path calls a routine of the runtime, and a debug site is recorded
  where the call would return to (`Raised`). The call is followed by the states of its lowering and not
  only by the machines, because its return address is the offset at which the site was recorded
  (`Site.Records.raises`).

  A check that is decided when the method is compiled is decided as the compare would have been: what is
  said of the operands is said of their words (`Operand.wordIn`), whether a register, a stack slot or
  the method itself holds them (`implicit_exceptions`).
-/

namespace RiscvJit

open Machine (Keeps get_withPc)
open Reg (zr ra sp t0 t1)
open Asm
open Site
open Operand

/-! ## Raising an exception -/

/-- The machine is at a routine that throws. What called it is recorded as a site, if there is something to record. -/
structure Resident.Raised {t : Target} (c : Resident t) (e : RuntimeEntry) (info : Option SiteInfo)
    (m m' : Machine) : Prop where
  pc : m'.pc = t.runtime.addr e
  site : ∀ i, info = some i → ∃ site ∈ c.method.sites, site.info = i ∧ m'.get ra = c.start + site.offset.toUInt64
  rest : ∀ r, r ∉ [ra, t0, t1] → m'.get r = m.get r
  mem : m'.mem = m.mem

/-- The exception is raised if it is due, and otherwise the instruction is run. -/
def Resident.RaisesIf {t : Target} (c : Resident t) (W : World) (j : Nat) (m : Machine) (due : Prop) (e : RuntimeEntry)
    (info : Option SiteInfo) (P Q : Machine → Prop) : Prop :=
  (due ∧ ∃ m', W.Reaches m m' ∧ c.Raised e info m m' ∧ P m') ∨ (¬ due ∧ c.Runs W j m Q)

namespace Lower

/-- Call a routine that throws, and record where. -/
def throwAt (e : RuntimeEntry) (tmp : Reg) (info : Option SiteInfo) : Lower Unit := do
  (entryAddress e >>= fun target => farCall target ra tmp : Asm Unit)
  addSite info
  ebreak

instance traced_throwAt (e : RuntimeEntry) (tmp : Reg) (info : Option SiteInfo) : Traced (throwAt e tmp info) := by
  unfold throwAt
  infer_instance

instance seals_throwAt (e : RuntimeEntry) (tmp : Reg) (info : Option SiteInfo) : Seals (throwAt e tmp info) := by
  unfold throwAt
  infer_instance

/-- A site is recorded at the end of the code. -/
theorem addSite_records {t : Target} {u u' : Lowering} {info : SiteInfo} (h : addSite (some info) t u = .ok ((), u'))
    (hw : u.asm.buf.failed = false) : ∃ site ∈ u'.sites.toList, site.info = info ∧
    site.offset = Int64.ofNat u.asm.buf.offset := by
  have h : addSiteAt (Int64.ofNat u.asm.buf.offset) (some info) [] t u = .ok ((), u') := h
  rcases addSiteAt_eq_ok h with ⟨hf, -⟩ | ⟨-, oopMap, maps, -, -, rfl⟩
  · cases hf.symm.trans hw
  · exact ⟨⟨Int64.ofNat u.asm.buf.offset, info, oopMap.placed (Int64.ofNat u.asm.buf.offset)⟩, by simp, rfl, rfl⟩

end Lower

open Lower (throwAt asm_eq_ok emitSlowPath stackLoadOp intOp dispatch instruction)

namespace Site

variable {S : Site} {sites : List DebugSite} {m : Machine}

/-- The call that throws comes to its routine, and its return address is that of a site. -/
theorem throwAt_reaches {e : RuntimeEntry} {tmp : Reg} {info : Option SiteInfo} {u u' : Lowering} (hk : Keeps tmp)
    (heven : S.target.runtime.addr e % 2 = 0) (hstart : S.start % 2 = 0)
    (hrun : throwAt e tmp info S.target u = .ok ((), u')) (hsites : u'.sites.toList <+: sites) (ha : S.Early u.asm)
    (ha' : S.Late u'.asm) (hat : S.At u.asm m) :
    ∃ m' ret, S.world.Reaches m m' ∧ Called [tmp] (S.target.runtime.addr e) ret m m' ∧
      ∀ i, info = some i → ∃ site ∈ sites, site.info = i ∧ ret = S.start + site.offset.toUInt64 := by
  obtain ⟨_, u1, hcall, hrest⟩ := Lower.bind_eq_ok.mp hrun
  obtain ⟨_, u2, hsite, hbreak⟩ := Lower.bind_eq_ok.mp hrest
  obtain ⟨a1, hcode, rfl⟩ := asm_eq_ok.mp hcall
  obtain ⟨a3, hlast, rfl⟩ := asm_eq_ok.mp hbreak
  obtain ⟨items, htrace, -⟩ := Asm.traced_bind (entryAddress e) (fun target =>
    farCall target ra tmp) |>.trace _ _ _ _ ha.behind hcode
  have hb1 := ha.append htrace
  obtain ⟨items', htrace'⟩ := (Lower.traced_addSite info).trace hb1.behind hsite
  obtain ⟨items'', htrace'', -⟩ := (Asm.traced_of_composed ebreak).trace _ _ _ _ (hb1.append htrace').behind hlast
  have hlate := (ha'.append htrace'').append htrace'
  obtain ⟨m', hreach, hcalled⟩ := runtime_reaches hk heven hstart hcode ha hlate hat
  refine ⟨m', _, hreach, hcalled, fun i hi => ?_⟩
  subst hi
  obtain ⟨site, hmem, hinfo, hoff⟩ := Lower.addSite_records hsite hlate.working
  refine ⟨site, hsites.subset hmem, hinfo, ?_⟩
  rw [hoff, Int64.toUInt64_ofNat']

section
variable {path : SlowPath} {l : Label} {body : Lower Unit} {arg : Lower Unit} {e : RuntimeEntry}
  {tmp : Reg} {info : Option SiteInfo}

theorem Records.binds [hbody : Lower.Traced body] (h : S.Records sites path)
    (hpath : emitSlowPath path = (liftM (Asm.bind l) : Lower Unit) >>= fun _ => body) : S.Binds l := by
  obtain ⟨S', s, hbeside, hcontains⟩ := h.writes
  rw [hpath, Lower.asmFrom_asm_bind] at hcontains
  have := hbody.asmFrom s
  exact hbeside.binds_iff.mp hcontains.binds

/-- From the entry of a slow path that throws, the routine is reached. -/
theorem Records.raises {P : Machine → Prop} [harg : Lower.Traced arg] (h : S.Records sites path)
    (hpath : emitSlowPath path = (liftM (Asm.bind l) : Lower Unit) >>= fun _ => arg >>= fun _ => throwAt e tmp info)
    (hk : Keeps tmp) (heven : S.target.runtime.addr e % 2 = 0) (hstart : S.start % 2 = 0) (hto : S.To l m)
    (hgo : ∀ S' : Site, S'.target = S.target → S'.Lowers arg m .none fun _ => P) :
    ∃ m1 m' ret, P m1 ∧ S.world.Reaches m m' ∧ Called [tmp] (S.target.runtime.addr e) ret m1 m' ∧
      ∀ i, info = some i → ∃ site ∈ sites, site.info = i ∧ ret = S.start + site.offset.toUInt64 := by
  obtain ⟨S', u, u', hbeside, hemit, hearly, hlate, hsites⟩ := h
  rw [hpath] at hemit
  obtain ⟨_, u1, hbind, hrest⟩ := Lower.bind_eq_ok.mp hemit
  obtain ⟨_, u2, hargs, hthrow⟩ := Lower.bind_eq_ok.mp hrest
  obtain ⟨a1, hplaced, rfl⟩ := asm_eq_ok.mp hbind
  -- the places between the parts
  have hearly1 := hearly.append (trace_call (c := .bind l) trivial hplaced)
  obtain ⟨_, htrace⟩ := harg.trace hearly1.behind hargs
  have hearly2 := hearly1.append htrace
  obtain ⟨_, htrace'⟩ := (Lower.traced_throwAt e tmp info).trace hearly2.behind hthrow
  have hlate2 := hlate.append htrace'
  have hto' := hbeside.to_iff.mpr hto
  have hat1 : S'.At a1 m := by
    refine ⟨hto'.1, ?_⟩
    rw [((To.at_bind hplaced hearly (hlate2.append htrace)).2 m hto').pc, offset_bindLabel hplaced]
  obtain ⟨m1, hreach1, ⟨hat2, hP⟩ | hleft⟩ := (hgo S' hbeside.target).run hargs hearly1 hlate2 hat1
  · obtain ⟨m', ret, hreach, hcalled, hrecorded⟩ :=
      throwAt_reaches hk (by rwa [hbeside.target]) (by rwa [hbeside.start]) hthrow hsites
      hearly2 hlate hat2
    rw [hbeside.world] at hreach1 hreach
    rw [hbeside.target] at hcalled
    rw [hbeside.start] at hrecorded
    exact ⟨m1, m', ret, hP, hreach1.trans hreach, hcalled, hrecorded⟩
  · rcases hleft with h | ⟨_, _, h⟩ <;> exact h.elim

end

end Site

namespace Lower

/-! ## The code of the checks -/

/-- A division whose divisor is compared with zero. -/
def checkedDivision (op : Opcode) (k : ValueKind) (rd rs : Reg) (info : SiteInfo) (divisor : Operand) : Lower Unit := do
  let d ← srcReg divisor t0
  let entry ← newLabel
  addSlowPath (.divByZero info entry)
  bcond .beq d zr entry
  rr (intOp op k) rd rs d

theorem emit_divByZero (info : SiteInfo) (entry : Label) : emitSlowPath (.divByZero info entry) =
    (liftM (Asm.bind entry) : Lower Unit) >>= fun _ => (pure () : Lower Unit) >>= fun _ =>
    throwAt .throwDivZero t0 (some info) := rfl

theorem emit_nullPointer (info : Option SiteInfo) (entry : Label) :
    emitSlowPath (.exception .throwNullPointer .none info entry) =
    (liftM (Asm.bind entry) : Lower Unit) >>= fun _ => (pure () : Lower Unit) >>= fun _ =>
    throwAt .throwNullPointer t1 info := rfl

theorem emit_rangeCheck (index : Operand) (info : Option SiteInfo) (entry : Label) :
    emitSlowPath (.rangeCheck index info entry) =
    (liftM (Asm.bind entry) : Lower Unit) >>= fun _ => reportIndex index >>= fun _ =>
    throwAt .throwRangeCheck t1 info := rfl

section
variable {i : Instruction} {k : ValueKind} {rd rs hi hi' : Reg} {info : SiteInfo} {divisor : Operand}

theorem dispatch_divide {kr : ValueKind} (hop : i.op = .div ∨ i.op = .rem) (hin : i.inputs[0]? = some (Operand.register k rs hi))
    (hin' : i.inputs[1]? = some divisor) (hres : i.result = .register kr rd hi') (hk : k = .int ∨ k = .long) :
    dispatch i = (match divisor with
      | .constant kc bits => if longOfBits kc bits = 0 then divByZero i.info else arithReg i rd rs k divisor
      | _ => arithReg i rd rs k divisor) := by
  have hfold (imm : Int64) : foldConst? i.op k imm = none := by
    rcases hop with e | e <;> rw [e] <;> rfl
  have hdivides : divides i.op = true := by
    rcases hop with e | e <;> rw [e] <;> rfl
  have harith : dispatch i = arith i := by
    rw [dispatch.eq_def]
    rcases hop with e | e <;> rw [e]
  have hplain : k.isFloat = false := by
    rcases hk with rfl | rfl <;> rfl
  rw [harith, arith]
  simp only [input_eq_ok.mpr hin, input_eq_ok.mpr hin', lift_ok_bind, kind, hplain, Bool.false_eq_true, if_false]
  rw [intArith]
  simp only [hres, reg_register, lift_ok_bind, kind]
  cases divisor <;> simp only [hfold, hdivides, Bool.true_and, decide_eq_true_eq]

/-- A divisor that is no constant is compared with zero. -/
theorem arithReg_checked (hop : i.op = .div ∨ i.op = .rem) (hinfo : i.info = some info)
    (hc : divisor.isConstant = false) :
    arithReg i rd rs k divisor = checkedDivision i.op k rd rs info divisor := by
  have hdivides : divides i.op = true := by
    rcases hop with e | e <;> rw [e] <;> rfl
  rw [arithReg, checkedDivision]
  simp only [hdivides, hc, hinfo, Bool.not_false, Bool.and_true, if_true, checkDivisor, bind_assoc]

theorem arithReg_plain (hc : divisor.isConstant = true) : arithReg i rd rs k divisor =
    srcReg divisor t0 >>= fun d => (liftM (rr (intOp i.op k) rd rs d) : Lower Unit) := by
  rw [arithReg]
  simp only [hc, Bool.not_true, Bool.and_false, Bool.false_eq_true, if_false]

theorem dispatch_nullCheck {kr : ValueKind} (hop : i.op = .nullCheck) (hin : i.inputs[0]? = some (Operand.register kr rs hi)) :
    dispatch i = (pure () : Lower Unit) >>= fun _ => (liftM newLabel : Lower Label) >>= fun entry =>
      addSlowPath (.exception .throwNullPointer .none i.info entry) >>= fun _ => liftM (bcond .beq rs zr entry) := by
  rw [dispatch.eq_def]
  simp only [hop, nullCheck, input_eq_ok.mpr hin, lift_ok_bind, reg_register]
  rfl

end

end Lower

/-! ## What the operands stand for -/

/-- The word in a register that stands for an operand. -/
def Operand.wordIn (m : Machine) : Operand → UInt64
  | .register _ r _ => m.get r
  | .stack k slot => (stackLoadOp k).extend (m.mem.read (m.get sp + (Location.slotBytes slot).toUInt64) k.slotBytes)
  | .constant k bits => constantWord k bits
  | _ => 0

/-- The quotient or the remainder of a division that truncates. What does not fit the kind wraps around. -/
def Opcode.divided (op : Opcode) (k : ValueKind) (a b : UInt64) : UInt64 :=
  let f := if op = .rem then Int.tmod else Int.tdiv
  match k with
  | .int => sext (Int32.ofInt (f a.toUInt32.toInt32.toInt b.toUInt32.toInt32.toInt)).toUInt32
  | _ => (Int64.ofInt (f a.toInt64.toInt b.toInt64.toInt)).toUInt64

example : Opcode.div.divided .long 0x8000000000000000 (-1) = 0x8000000000000000 ∧
    Opcode.rem.divided .long 0x8000000000000000 (-1) = 0 := by
  decide

theorem div_eq_ofInt (a b : Int64) : a / b = Int64.ofInt (a.toInt.tdiv b.toInt) := by
  apply Int64.toInt_inj.mp
  rw [Int64.toInt_div, Int64.toInt_ofInt]

theorem rem_eq_ofInt (a b : Int64) : a % b = Int64.ofInt (a.toInt.tmod b.toInt) := by
  rw [← Int64.toInt_mod, Int64.ofInt_toInt]

theorem div32_eq_ofInt (a b : Int32) : a / b = Int32.ofInt (a.toInt.tdiv b.toInt) := by
  apply Int32.toInt_inj.mp
  rw [Int32.toInt_div, Int32.toInt_ofInt]

theorem rem32_eq_ofInt (a b : Int32) : a % b = Int32.ofInt (a.toInt.tmod b.toInt) := by
  rw [← Int32.toInt_mod, Int32.ofInt_toInt]

/-- The instruction divides as the operation says, unless by zero. -/
theorem divided_computes {op : Opcode} {k : ValueKind} (hop : op = .div ∨ op = .rem) (hk : k = .int ∨ k = .long) :
    (intOp op k).info.format = .r ∧ ∃ f : UInt64 → UInt64 → UInt64,
      (∀ a b, (intOp op k).compute a b = some (f a b)) ∧ ∀ a b, OfKind k b → b ≠ 0 → f a b = op.divided k a b := by
  have hlow {b : UInt64} (hb : OfKind .int b) (hne : b ≠ 0) : b.toUInt32 ≠ 0 := fun e => hne (by rw [← hb rfl, e]; rfl)
  rcases hk with rfl | rfl
  · rcases hop with rfl | rfl
    · refine ⟨rfl, fun a b => if b.toUInt32 = 0 then -1 else sext (a.toUInt32.toInt32 / b.toUInt32.toInt32).toUInt32,
        fun _ _ => rfl, fun a b hb hne => ?_⟩
      dsimp only
      rw [if_neg (hlow hb hne), div32_eq_ofInt]
      rfl
    · refine ⟨rfl, fun a b => if b.toUInt32 = 0 then sext a.toUInt32
        else sext (a.toUInt32.toInt32 % b.toUInt32.toInt32).toUInt32,
        fun _ _ => rfl, fun a b hb hne => ?_⟩
      dsimp only
      rw [if_neg (hlow hb hne), rem32_eq_ofInt]
      rfl
  · rcases hop with rfl | rfl
    · refine ⟨rfl, fun a b => if b = 0 then -1 else (a.toInt64 / b.toInt64).toUInt64,
        fun _ _ => rfl, fun a b _ hne => ?_⟩
      dsimp only
      rw [if_neg hne, div_eq_ofInt]
      rfl
    · refine ⟨rfl, fun a b => if b = 0 then a else (a.toInt64 % b.toInt64).toUInt64,
        fun _ _ => rfl, fun a b _ hne => ?_⟩
      dsimp only
      rw [if_neg hne, rem_eq_ofInt]
      rfl

namespace Site

variable {S : Site} {m : Machine} {E : Exits}

/-- An int or a long comes to a register, its own or the scratch register. -/
theorem lowers_source {Q : Reg → Machine → Prop} {o : Operand} {scratch : Reg} (hk : o.kind = .int ∨ o.kind = .long)
    (ho : o.Admitted) (hvalue : o.isValue = true) (hscratch : scratch = t0 ∨ scratch = t1)
    (h : ∀ r m', r = scratch ∨ r ≠ t0 ∧ r ≠ t1 → m'.get r = o.wordIn m →
    (∀ q, q ≠ scratch → m'.get q = m.get q) → m'.mem = m.mem →
      Q r m') : S.Lowers (Lower.srcReg o scratch) m E Q := by
  have hkeeps : Keeps scratch ∧ scratch ≠ sp := by
    rcases hscratch with rfl | rfl <;> exact ⟨by decide, by decide⟩
  unfold Lower.srcReg
  cases o with
  | register k r hi => exact lowers_pure (h r m (.inr ho.ne_scratch) rfl (fun _ _ => rfl) rfl)
  | constant k bits =>
    dsimp only
    split
    case _ hzero =>
      refine lowers_pure (h zr m (.inr (by decide)) ?_ (fun _ _ => rfl) rfl)
      rw [wordIn, hzero]
      rcases hk with e | e
      · obtain rfl : k = .int := e
        rfl
      · obtain rfl : k = .long := e
        rfl
    case _ =>
      exact .bind (lowers_constToReg hkeeps.1 fun m1 h1 => lowers_pure (h scratch m1 (.inl rfl) h1.value
        (fun q hq => h1.other q hq) h1.mem))
  | stack k slot =>
    have hload : (stackLoadOp k).info.format = .load ∧
        (stackLoadOp k).width = some k.slotBytes := by
      rcases hk with e | e
      · obtain rfl : k = .int := e
        exact ⟨rfl, rfl⟩
      · obtain rfl : k = .long := e
        exact ⟨rfl, rfl⟩
    refine .bind (lowers_asm (does_loadOff hload.1 hload.2 hkeeps.1 hkeeps.1 fun m1 h1 => lowers_pure ?_))
    exact h scratch m1 (.inl rfl) h1.value (fun q hq => h1.rest q hq (by simpa using hq)) h1.mem
  | _ => cases hvalue

end Site

/-! ## Checks of a compiled method -/

namespace Lower

variable (o : Op) (rs1 rs2 : Reg) (l : Label)

instance traced_isNear : (isNear l).Traced := by
  unfold isNear
  refine @Asm.traced_bind _ _ _ _ inferInstance fun a => @Asm.traced_bind _ _ _ _ inferInstance fun s => ?_
  split <;> infer_instance

theorem spaces_bcond : (bcond o rs1 rs2 l).Spaces := by
  unfold bcond
  refine Spaces.after fun near => ?_
  split
  · exact spaces_branch _ _ _ _
  · exact Spaces.after fun _ => Spaces.after fun _ => spaces_j _

instance seals_bcond : Seals (liftM (bcond o rs1 rs2 l) : Lower Unit) :=
  seals_of_spaces (spaces_bcond o rs1 rs2 l)

end Lower

section
variable {t : Target} {c : Resident t} {W : World} {j : Nat} {i : Instruction} {m : Machine}
  {Q : Machine → Prop} {α : Type}

variable {e : RuntimeEntry} {tmp : Reg} {info : Option SiteInfo}

/-- An instruction that leaves for a slow path that throws is run, or the routine is reached. -/
theorem Resident.Facing.checks {pre : Lower α} {path : α → Label → SlowPath} {main : α → Label → Lower Unit}
    {arg : Lower Unit} {P R : Machine → Prop} [Lower.Traced pre] [∀ r l, Lower.Traced (main r l)]
    [∀ r l, Lower.Grows (main r l)] [∀ r l, Lower.Seals (main r l)] [Lower.Traced arg] (hm : c.Facing W j i m)
    (hx : dispatch i = pre >>= fun r => (liftM newLabel : Lower Label) >>= fun l =>
      Lower.addSlowPath (path r l) >>= fun _ => main r l)
    (hpath : ∀ r l, emitSlowPath (path r l) =
      (liftM (Asm.bind l) : Lower Unit) >>= fun _ => arg >>= fun _ => throwAt e tmp info)
    (hk : Keeps tmp) (heven : t.runtime.addr e % 2 = 0) (hstart : c.start % 2 = 0)
    (hgo : ∀ S : Site, c.Views W S → i.Admitted → S.Lowers pre m .none fun r m1 => ∀ l, S.Binds l →
      S.Lowers (main r l) m1 (Site.Exits.none.or (.label l) P) fun _ => Q)
    (harg : ∀ S : Site, S.target = t → ∀ m1, P m1 → S.Lowers arg m1 .none fun _ => R) :
    c.Runs W j m Q ∨ ∃ m1 m' ret, W.Reaches m m' ∧ R m1 ∧ Called [tmp] (t.runtime.addr e) ret m1 m' ∧
      ∀ info', info = some info' → ∃ site ∈ c.method.sites, site.info = info' ∧ ret = c.start + site.offset.toUInt64 := by
  have hpath' (r : α) (l : Label) : Lower.Traced (emitSlowPath (path r l)) ∧ Lower.Seals (emitSlowPath (path r l)) := by
    rw [hpath]
    exact ⟨inferInstance, inferInstance⟩
  have (r : α) (l : Label) := (hpath' r l).1
  have (r : α) (l : Label) := (hpath' r l).2
  have hrun := hm.completes (P := fun m' => ∃ m1 ret, R m1 ∧ Called [tmp] (t.runtime.addr e) ret m1 m' ∧
    ∀ info', info = some info' → ∃ site ∈ c.method.sites, site.info = info' ∧
    ret = c.start + site.offset.toUInt64) (Q := Q)
    hx fun S hviews hadmitted => ?_
  · rcases hrun with hruns | ⟨m', hreach, m1, ret, hR, hcalled, hsites⟩
    · exact .inl hruns
    · exact .inr ⟨m1, m', ret, hreach, hR, hcalled, hsites⟩
  refine completes_after ((hgo S hviews hadmitted).imp (fun _ _ h => h.elim) fun r m1 hmain => ?_)
  refine completes_newLabel fun l => completes_addSlowPath fun hrecords => ?_
  have hmain := hmain l (hrecords.binds (hpath r l))
  have widen {e : Exit} {P : Machine → Prop} {E : Site.Exits} : ∀ e' m, Site.Exits.none.or e P e' m → E.or e P e' m :=
    fun _ _ h => h.elim .inl fun h => h.elim
  intro s
  refine ((hmain s).imp widen fun _ _ h => h).onward fun m2 hto hP => ?_
  obtain ⟨m3, m', ret, hR, hreach, hcalled, hsites⟩ :=
    hrecords.raises (hpath r l) hk (by rwa [hviews.target]) (by rwa [hviews.start]) hto
    fun S' ht => harg S' (ht.trans hviews.target) m2 hP
  rw [hviews.target] at hcalled
  rw [hviews.start] at hsites
  exact ⟨m', hreach, .inl (.inl ⟨rfl, m3, ret, hR, hcalled, hsites⟩)⟩

/-- An instruction that always leaves for a slow path that throws reaches the routine. -/
theorem Resident.Facing.leaves {path : Label → SlowPath} {arg : Lower Unit} {R : Machine → Prop} [Lower.Traced arg]
    (hm : c.Facing W j i m)
    (hx : dispatch i = (pure () : Lower Unit) >>= fun _ => (liftM newLabel : Lower Label) >>= fun l =>
      Lower.addSlowPath (path l) >>= fun _ => liftM (Asm.j l))
    (hpath : ∀ l, emitSlowPath (path l) =
      (liftM (Asm.bind l) : Lower Unit) >>= fun _ => arg >>= fun _ => throwAt e tmp info)
    (hk : Keeps tmp) (heven : t.runtime.addr e % 2 = 0) (hstart : c.start % 2 = 0)
    (harg : ∀ S : Site, S.target = t → i.Admitted → ∀ m1, (∀ r, m1.get r = m.get r) ∧ m1.mem = m.mem →
    S.Lowers arg m1 .none fun _ => R) :
    ∃ m1 m' ret, W.Reaches m m' ∧ R m1 ∧ Called [tmp] (t.runtime.addr e) ret m1 m' ∧
      ∀ info', info = some info' → ∃ site ∈ c.method.sites, site.info = info' ∧ ret = c.start + site.offset.toUInt64 := by
  rcases hm.checks (P := fun m1 => i.Admitted ∧ (∀ r, m1.get r = m.get r) ∧ m1.mem = m.mem) (R := R)
    (Q := fun _ => False) hx
    (fun _ l => hpath l) hk heven hstart
    (fun _ _ hadmitted => lowers_pure fun l hl =>
      Site.lowers_asm (does_j hl fun p => .inl ⟨rfl, hadmitted, get_withPc m p, rfl⟩))
    (fun S ht m1 hP => harg S ht hP.1 m1 hP.2) with ⟨_, _, _, h⟩ | h
  · exact h.elim
  · exact h

/-- An instruction without code is passed. -/
theorem Resident.Facing.passes (hm : c.Facing W j i m) (hx : dispatch i = pure ()) (hgo : Q m) : c.Runs W j m Q := by
  obtain ⟨first, last, s, s', hfinished, hplaced⟩ := compile_placed c.compiled hm.code
  obtain ⟨_, s1, hchecked, hrest⟩ := Lower.bind_eq_ok.mp hplaced.lowered
  obtain ⟨-, rfl⟩ := Lower.lift_eq_ok.mp hchecked
  rw [hx] at hrest
  cases hrest
  obtain ⟨off, hoff, hpc⟩ := hm.before.pc
  rw [hplaced.place] at hoff
  cases hoff
  exact ⟨m, .refl W m, ⟨hm.before.stands, _, hplaced.next, hpc⟩, hgo⟩

theorem Resident.raised_of_called {ret : UInt64} {m1 m' : Machine} (htmp : tmp = t0 ∨ tmp = t1)
    (h : Called [tmp] (t.runtime.addr e) ret m1 m') (hrest : ∀ r, r ≠ t0 → r ≠ t1 → m1.get r = m.get r)
    (hmem : m1.mem = m.mem)
    (hsites : ∀ i, info = some i → ∃ site ∈ c.method.sites, site.info = i ∧ ret = c.start + site.offset.toUInt64) :
    c.Raised e info m m' where
  pc := h.pc
  site i hi := by
    obtain ⟨site, hmem, hinfo, hret⟩ := hsites i hi
    exact ⟨site, hmem, hinfo, h.ra.trans hret⟩
  rest r hr := by
    obtain ⟨hra, h0, h1⟩ : r ≠ Reg.ra ∧ r ≠ t0 ∧ r ≠ t1 := by simpa using hr
    rw [h.rest r hra (by rcases htmp with rfl | rfl <;> simpa), hrest r h0 h1]
  mem := h.mem.trans hmem

section
variable {k kr : ValueKind} {rd rs hi hi' : Reg} {divisor : Operand} {info : SiteInfo}
  (hstart : c.start % 2 = 0) (hm : c.Facing W j i m)
  (hop : i.op = .div ∨ i.op = .rem) (hin : i.inputs[0]? = some (Operand.register k rs hi)) (hin' : i.inputs[1]? = some divisor)
  (hres : i.result = .register kr rd hi') (hrd : rd ≠ .none) (hinfo : i.info = some info) (hk : k = .int ∨ k = .long)
  (hkind : divisor.kind = k) (hvalue : divisor.isValue = true) (hsigned : OfKind k (divisor.wordIn m))
include hstart hm hop hin hin' hres hrd hinfo hk hkind hvalue hsigned

/-- A divisor that the method does not know is compared with zero. -/
theorem unknown_divisor (heven : t.runtime.addr .throwDivZero % 2 = 0) (hc : divisor.isConstant = false) :
    c.RaisesIf W j m (divisor.wordIn m = 0) .throwDivZero (some info) (fun _ => True)
      (Put rd [t0] (i.op.divided k (m.get rs) (divisor.wordIn m)) m) := by
  obtain ⟨hformat, f, hcompute, hdivided⟩ := divided_computes hop hk
  have hdispatch : dispatch i = Lower.checkedDivision i.op k rd rs info divisor := by
    rw [Lower.dispatch_divide hop hin hin' hres hk]
    cases divisor with
    | constant kc bits => cases hc
    | _ => exact Lower.arithReg_checked hop hinfo hc
  unfold Lower.checkedDivision at hdispatch
  let AtPath (m1 : Machine) : Prop := divisor.wordIn m = 0 ∧ (∀ r, r ≠ t0 → m1.get r = m.get r) ∧ m1.mem = m.mem
  have hrun := hm.checks (P := AtPath) (R := AtPath) (Q := fun m' => divisor.wordIn m ≠ 0 ∧
    Put rd [t0] (i.op.divided k (m.get rs) (divisor.wordIn m)) m m') hdispatch (fun _ l =>
    Lower.emit_divByZero info l) (by decide)
    heven hstart (fun S hviews hadmitted => ?_) fun _ _ m1 hP => lowers_pure hP
  · rcases hrun with ⟨m', hreach, hbefore, hne, hput⟩ | ⟨m1, m', ret, hreach, ⟨hzero, hrest, hmem⟩, hcalled, hsites⟩
    · exact .inr ⟨hne, m', hreach, hbefore, hput⟩
    · exact .inl ⟨hzero, m', hreach, c.raised_of_called (.inl rfl) hcalled (fun r h0 _ => hrest r h0) hmem hsites,
        trivial⟩
  obtain rfl := hviews.target
  have hkeeps : Keeps rd := hadmitted.keeps hres hrd
  have hrs := (hadmitted.input hin).ne_scratch
  refine lowers_source (hkind ▸ hk) (hadmitted.inputs _ (List.mem_of_getElem? hin')) hvalue (.inl rfl)
    fun d m1 _ hd hrest hmem l hl => ?_
  refine .bind (Site.lowers_asm (does_bcond rfl hl (fun htaken p => .inl ⟨rfl, ?_⟩) fun hnot p => ?_))
  · have hzero : m1.get d = m1.get zr := of_decide_eq_true htaken
    exact ⟨hd ▸ hzero, fun r hr => (get_withPc m1 p r).trans (hrest r hr), hmem⟩
  · have hne : m1.get d ≠ m1.get zr := of_decide_eq_false hnot
    have hne : divisor.wordIn m ≠ 0 := hd ▸ hne
    refine Site.lowers_asm (does_puts (fun _ _ _ hrr => rr_puts hformat hcompute hkeeps hrr) fun m2 h2 =>
      ⟨hne, ?_, fun r hr ht => ?_, ?_⟩)
    · rw [h2.value, get_withPc m1 p rs, get_withPc m1 p d, hd, hrest rs hrs.1]
      exact hdivided _ _ hsigned hne
    · rw [h2.other r hr, get_withPc, hrest r (by simpa using ht)]
    · exact h2.mem.trans hmem

theorem known_divisor (heven : t.runtime.addr .throwDivZero % 2 = 0) (hc : divisor.isConstant = true) :
    c.RaisesIf W j m (divisor.wordIn m = 0) .throwDivZero (some info) (fun _ => True)
      (Put rd [t0] (i.op.divided k (m.get rs) (divisor.wordIn m)) m) := by
  obtain ⟨hformat, f, hcompute, hdivided⟩ := divided_computes hop hk
  cases divisor with
  | constant kc bits => ?_
  | _ => cases hc
  obtain rfl : kc = k := hkind
  have hdispatch := Lower.dispatch_divide hop hin hin' hres hk
  have hword : wordIn m (.constant kc bits) = (longOfBits kc bits).toUInt64 := by
    rcases hk with rfl | rfl <;> rfl
  by_cases hzero : longOfBits kc bits = 0
  · have hdispatch : dispatch i = (pure () : Lower Unit) >>= fun _ => (liftM newLabel : Lower Label) >>= fun entry =>
        Lower.addSlowPath (.divByZero info entry) >>= fun _ => liftM (Asm.j entry) := by
      rw [hdispatch, hinfo]
      simp only [hzero, if_true]
      rfl
    obtain ⟨m1, m', ret, hreach, ⟨hsame, hmem⟩, hcalled, hsites⟩ :=
      hm.leaves hdispatch (fun l => Lower.emit_divByZero info l) (by decide)
      heven hstart (R := fun m1 => (∀ r, m1.get r = m.get r) ∧ m1.mem = m.mem) fun S ht _ m1 hP => lowers_pure hP
    exact .inl ⟨by rw [hword, hzero]; rfl, m', hreach,
      c.raised_of_called (.inl rfl) hcalled (fun r _ _ => hsame r) hmem hsites, trivial⟩
  · have hne : wordIn m (.constant kc bits) ≠ 0 := fun e =>
      hzero (by simpa using congrArg UInt64.toInt64 (hword.symm.trans e))
    have hdispatch : dispatch i = Lower.srcReg (.constant kc bits) t0 >>= fun d =>
        (liftM (rr (intOp i.op kc) rd rs d) : Lower Unit) := by
      rw [hdispatch, ← Lower.arithReg_plain (i := i) rfl]
      simp only [hzero, if_false]
    refine .inr ⟨hne, hm.runs hdispatch fun S ht _ hadmitted => ?_⟩
    have hkeeps : Keeps rd := hadmitted.keeps hres hrd
    have hrs := (hadmitted.input hin).ne_scratch
    refine .bind (lowers_source hk (hadmitted.inputs _ (List.mem_of_getElem? hin')) rfl (.inl rfl)
      fun d m1 _ hd hrest hmem => ?_)
    refine Site.lowers_asm (does_puts (fun _ _ _ hrr => rr_puts hformat hcompute hkeeps hrr) fun m2 h2 =>
      ⟨?_, fun r hr ht => ?_, ?_⟩)
    · rw [h2.value, hd, hrest rs hrs.1]
      exact hdivided _ _ hsigned hne
    · rw [h2.other r hr, hrest r (by simpa using ht)]
    · exact h2.mem.trans hmem

end

theorem null_check {k : ValueKind} {rs hi : Reg} (hstart : c.start % 2 = 0) (hm : c.Facing W j i m)
    (hop : i.op = .nullCheck)
    (hin : i.inputs[0]? = some (Operand.register k rs hi)) (heven : t.runtime.addr .throwNullPointer % 2 = 0) :
    c.RaisesIf W j m (m.get rs = 0) .throwNullPointer i.info (fun _ => True)
      fun m' => (∀ r, m'.get r = m.get r) ∧ m'.mem = m.mem := by
  let AtPath (m1 : Machine) : Prop := m.get rs = 0 ∧ (∀ r, m1.get r = m.get r) ∧ m1.mem = m.mem
  have hrun := hm.checks (P := AtPath) (R := AtPath) (Q := fun m' => m.get rs ≠ 0 ∧
    (∀ r, m'.get r = m.get r) ∧ m'.mem = m.mem)
    (Lower.dispatch_nullCheck hop hin) (fun _ l => Lower.emit_nullPointer i.info l) (by decide) heven hstart
    (fun S _ _ => lowers_pure fun l hl => ?_) fun S _ m1 hP => lowers_pure hP
  · rcases hrun with ⟨m', hreach, hbefore, hne, hsame⟩ | ⟨m1, m', ret, hreach, ⟨hzero, hsame, hmem⟩, hcalled, hsites⟩
    · exact .inr ⟨hne, m', hreach, hbefore, hsame⟩
    · exact .inl ⟨hzero, m', hreach, c.raised_of_called (.inr rfl) hcalled (fun r _ _ => hsame r) hmem hsites, trivial⟩
  · refine Site.lowers_asm (does_bcond rfl hl (fun htaken p => .inl ⟨rfl, of_decide_eq_true htaken, get_withPc m p, rfl⟩)
      fun hnot p => ⟨of_decide_eq_false hnot, get_withPc m p, rfl⟩)

/-! ## Indices -/

/-- An index that an array of the length has. -/
def InRange (index length : UInt64) : Prop := 0 ≤ index.toInt64.toInt ∧ index.toInt64.toInt < length.toInt64.toInt

instance (index length : UInt64) : Decidable (InRange index length) := inferInstanceAs (Decidable (_ ∧ _))

/-- With a length that is not negative, one unsigned compare says both. -/
theorem lt_iff_inRange {index length : UInt64} (h : 0 ≤ length.toInt64.toInt) :
    index < length ↔ InRange index length := by
  have hindex : index.toInt64.toInt = Int.bmod index.toNat (2 ^ 64) := BitVec.toInt_eq_toNat_bmod index.toBitVec
  have hlength : length.toInt64.toInt = Int.bmod length.toNat (2 ^ 64) := BitVec.toInt_eq_toNat_bmod length.toBitVec
  have := index.toNat_lt
  have := length.toNat_lt
  rw [InRange, UInt64.lt_iff_toNat_lt, hindex, hlength]
  rw [hlength] at h
  simp only [Int.bmod_def] at h ⊢
  omega

/-- The same compare, of the low halves. -/
theorem lt32_iff_inRange {a b : UInt64} (h : 0 ≤ (sext b.toUInt32).toInt64.toInt) :
    a.toUInt32 < b.toUInt32 ↔ InRange (sext a.toUInt32) (sext b.toUInt32) := by
  have hsigned (v : UInt32) : (sext v).toInt64.toInt = Int.bmod v.toNat (2 ^ 32) := by
    have : (sext v).toInt64 = v.toInt32.toInt64 := by simp [sext]
    rw [this, Int32.toInt_toInt64]
    exact BitVec.toInt_eq_toNat_bmod v.toBitVec
  have := a.toUInt32.toNat_lt
  have := b.toUInt32.toNat_lt
  rw [hsigned] at h
  rw [InRange, UInt32.lt_iff_toNat_lt, hsigned, hsigned]
  simp only [Int.bmod_def] at h ⊢
  omega

theorem Operand.wordIn_congr {o : Operand} {m m' : Machine} (ho : o.Admitted)
    (hrest : ∀ r, r ≠ t0 → r ≠ t1 → m'.get r = m.get r)
    (hmem : m'.mem = m.mem) : o.wordIn m' = o.wordIn m := by
  cases o with
  | register k r hi =>
    have := ho.ne_scratch
    exact hrest r this.1 this.2
  | stack k slot => rw [wordIn, wordIn, hmem, hrest sp (by decide) (by decide)]
  | _ => rfl

namespace Site

variable {S : Site} {m : Machine} {E : Exits}

/-- The index comes to the register where the runtime looks for it. -/
theorem lowers_reportIndex {Q : Machine → Prop} {o : Operand} (hk : o.kind = .int) (hvalue : o.isValue = true)
    (hplace : ∀ k slot, o ≠ .stack k slot) (h : ∀ m', Put t0 [] (o.wordIn m) m m' → Q m') :
    S.Lowers (Lower.reportIndex o) m E fun _ => Q := by
  cases o with
  | register k r hi => exact lowers_asm (does_mv h)
  | constant k bits =>
    obtain rfl : k = .int := hk
    exact lowers_asm (does_li h)
  | stack k slot => exact absurd rfl (hplace k slot)
  | _ => cases hvalue

end Site

section
variable {index length : Operand} (hstart : c.start % 2 = 0) (hm : c.Facing W j i m) (hop : i.op = .rangeCheck)
  (hin : i.inputs[0]? = some index) (hin' : i.inputs[1]? = some length) (hindex : index.kind = .int)
  (hlength : length.kind = .int)
  (hvalue : index.isValue = true) (hvalue' : length.isValue = true) (hplace : ∀ k slot, index ≠ .stack k slot)
  (hlow : 0 ≤ (length.wordIn m).toInt64.toInt)
include hop hin hin'

namespace Lower

omit hop in
theorem rangeCheck_unknown (hknown : constantsInRange? index length = none) : rangeCheck i =
    (pure () : Lower Unit) >>= fun _ => (liftM newLabel : Lower Label) >>= fun entry =>
      addSlowPath (.rangeCheck index i.info entry) >>= fun _ =>
        srcReg index t0 >>= fun idx => srcReg length t1 >>= fun n => liftM (bcond .bgeu idx n entry) := by
  rw [rangeCheck]
  simp only [input_eq_ok.mpr hin, input_eq_ok.mpr hin', lift_ok_bind, hknown]
  rfl

omit hop in
theorem rangeCheck_outside (hknown : constantsInRange? index length = some false) : rangeCheck i =
    (pure () : Lower Unit) >>= fun _ => (liftM newLabel : Lower Label) >>= fun entry =>
      addSlowPath (.rangeCheck index i.info entry) >>= fun _ => liftM (Asm.j entry) := by
  rw [rangeCheck]
  simp only [input_eq_ok.mpr hin, input_eq_ok.mpr hin', lift_ok_bind, hknown]
  rfl

omit hop in
theorem rangeCheck_inside (hknown : constantsInRange? index length = some true) : rangeCheck i = pure () := by
  rw [rangeCheck]
  simp only [input_eq_ok.mpr hin, input_eq_ok.mpr hin', lift_ok_bind, hknown]
  rfl

end Lower

include hstart hm hindex hlength hvalue hvalue' hplace hlow

/-- An index that the method does not know to be in range or out of it is compared with the length. -/
theorem unknown_index (heven : t.runtime.addr .throwRangeCheck % 2 = 0)
    (hknown : Lower.constantsInRange? index length = none) :
    c.RaisesIf W j m (¬ InRange (index.wordIn m) (length.wordIn m)) .throwRangeCheck i.info (fun m' =>
    m'.get t0 = index.wordIn m)
      fun m' => (∀ r, r ≠ t0 → r ≠ t1 → m'.get r = m.get r) ∧ m'.mem = m.mem := by
  have hdispatch : dispatch i = Lower.rangeCheck i := by rw [Lower.dispatch.eq_def, hop]
  rw [Lower.rangeCheck_unknown hin hin' hknown] at hdispatch
  let Rest (m1 : Machine) : Prop := (∀ r, r ≠ t0 → r ≠ t1 → m1.get r = m.get r) ∧ m1.mem = m.mem
  have hrun := hm.checks (P := fun m1 => i.Admitted ∧ ¬ InRange (index.wordIn m) (length.wordIn m) ∧ Rest m1)
    (R := fun m1 => ¬ InRange (index.wordIn m) (length.wordIn m) ∧ m1.get t0 = index.wordIn m ∧ Rest m1)
    (Q := fun m' => InRange (index.wordIn m) (length.wordIn m) ∧ Rest m') hdispatch (fun _ l =>
    Lower.emit_rangeCheck index i.info l)
    (by decide) heven hstart (fun S _ hadmitted => lowers_pure fun l hl => ?main) fun S _ m1 hP => ?arg
  case arg =>
    obtain ⟨hadmitted, hout, hrest, hmem⟩ := hP
    refine Site.lowers_reportIndex hindex hvalue hplace fun m2 h2 => ⟨hout, ?_, fun r h0 h1 => ?_, h2.mem.trans hmem⟩
    · rw [h2.value]
      exact wordIn_congr (hadmitted.input hin) hrest hmem
    · rw [h2.other r h0, hrest r h0 h1]
  case main =>
    have hadmitted' := hadmitted.inputs _ (List.mem_of_getElem? hin')
    refine .bind (lowers_source (.inl hindex) (hadmitted.input hin) hvalue (.inl rfl)
      fun x m1 hx hx1 hrest1 hmem1 => ?_)
    refine .bind (lowers_source (.inl hlength) hadmitted' hvalue' (.inr rfl) fun n m2 _ hn hrest2 hmem2 => ?_)
    have hrest (r : Reg) (h0 : r ≠ t0) (h1 : r ≠ t1) : m2.get r = m.get r := by rw [hrest2 r h1, hrest1 r h0]
    have hmem : m2.mem = m.mem := hmem2.trans hmem1
    have hxne : x ≠ t1 := by
      rcases hx with rfl | h
      · decide
      · exact h.2
    have hword : length.wordIn m1 = length.wordIn m := wordIn_congr hadmitted' (fun r h0 _ => hrest1 r h0) hmem1
    have hcompare : Op.taken .bgeu (m2.get x) (m2.get n) = !decide (InRange (index.wordIn m) (length.wordIn m)) := by
      rw [hn, hword, hrest2 x hxne, hx1]
      simp only [Op.taken, ← lt_iff_inRange hlow, ← decide_not, UInt64.not_lt]
    refine Site.lowers_asm (does_bcond rfl hl (fun htaken p => ?_) fun hnot p => ?_)
    · exact .inl ⟨rfl, hadmitted, by simpa using hcompare.symm.trans htaken,
        fun r h0 h1 => (get_withPc m2 p r).trans (hrest r h0 h1), hmem⟩
    · exact ⟨by simpa using hcompare.symm.trans hnot, fun r h0 h1 => (get_withPc m2 p r).trans (hrest r h0 h1), hmem⟩
  rcases hrun with ⟨m', hreach, hbefore, hin, hrest⟩ | ⟨m1, m', ret, hreach, ⟨hout, hx, hrest, hmem⟩, hcalled, hsites⟩
  · exact .inr ⟨not_not_intro hin, m', hreach, hbefore, hrest⟩
  · exact .inl ⟨hout, m', hreach, c.raised_of_called (.inr rfl) hcalled hrest hmem hsites,
      (hcalled.rest t0 (by decide) (by decide)).trans hx⟩

/-- A check of two constants is decided as the compare would have been. -/
theorem known_index {b : Bool} (heven : t.runtime.addr .throwRangeCheck % 2 = 0)
    (hknown : Lower.constantsInRange? index length = some b) :
    c.RaisesIf W j m (¬ InRange (index.wordIn m) (length.wordIn m)) .throwRangeCheck i.info (fun m' =>
    m'.get t0 = index.wordIn m)
      fun m' => (∀ r, r ≠ t0 → r ≠ t1 → m'.get r = m.get r) ∧ m'.mem = m.mem := by
  have hdispatch : dispatch i = Lower.rangeCheck i := by rw [Lower.dispatch.eq_def, hop]
  have hdecided : b = decide (InRange (index.wordIn m) (length.wordIn m)) := by
    cases index with
    | constant k a =>
      cases length with
      | constant k' a' =>
        obtain rfl : k = .int := hindex
        obtain rfl : k' = .int := hlength
        obtain rfl : decide (a.toUInt32 < a'.toUInt32) = b := Option.some.inj hknown
        exact decide_eq_decide.mpr (lt32_iff_inRange hlow)
      | _ => cases hknown
    | _ => cases hknown
  cases b with
  | true =>
    refine .inr ⟨not_not_intro (of_decide_eq_true hdecided.symm), hm.passes ?_ ⟨fun r _ _ => rfl, rfl⟩⟩
    rw [hdispatch, Lower.rangeCheck_inside hin hin' hknown]
  | false =>
    have hout : ¬ InRange (index.wordIn m) (length.wordIn m) := of_decide_eq_false hdecided.symm
    rw [Lower.rangeCheck_outside hin hin' hknown] at hdispatch
    have hleaves := hm.leaves hdispatch (fun l => Lower.emit_rangeCheck index i.info l) (by decide) heven hstart
      (R := Put t0 [] (index.wordIn m) m) fun S ht hadmitted m1 hP => ?_
    · obtain ⟨m1, m', ret, hreach, h1, hcalled, hsites⟩ := hleaves
      exact .inl ⟨hout, m', hreach, c.raised_of_called (.inr rfl) hcalled (fun r h0 _ => h1.other r h0) h1.mem hsites,
        (hcalled.rest t0 (by decide) (by decide)).trans h1.value⟩
    · refine Site.lowers_reportIndex hindex hvalue hplace fun m2 h2 => ⟨?_, fun r h0 _ => ?_, h2.mem.trans hP.2⟩
      · rw [h2.value]
        exact wordIn_congr (hadmitted.input hin) (fun r _ _ => hP.1 r) hP.2
      · rw [h2.other r h0, hP.1 r]

end

end

/-! ## All checks -/

/-- What a compiled method throws by itself. -/
structure ThrowsImplicitly (t : Target) : Prop where
  /-- A division throws if the divisor is zero, and otherwise truncates. -/
  divide : ∀ {c : Resident t} {W : World} {j : Nat} {i : Instruction} {m : Machine} {k kr : ValueKind}
    {rd rs hi hi' : Reg} {divisor : Operand} {info : SiteInfo}, c.start % 2 = 0 → c.Facing W j i m →
    (i.op = .div ∨ i.op = .rem) → i.inputs[0]? = some (Operand.register k rs hi) → i.inputs[1]? = some divisor →
    i.result = .register kr rd hi' → rd ≠ .none →
    i.info = some info → (k = .int ∨ k = .long) → divisor.kind = k → divisor.isValue = true →
    OfKind k (divisor.wordIn m) → c.RaisesIf W j m (divisor.wordIn m = 0) .throwDivZero (some info) (fun _ => True)
      (Put rd [t0] (i.op.divided k (m.get rs) (divisor.wordIn m)) m)
  /-- A null check throws if the reference is null. -/
  null : ∀ {c : Resident t} {W : World} {j : Nat} {i : Instruction} {m : Machine} {k : ValueKind} {rs hi : Reg},
    c.start % 2 = 0 → c.Facing W j i m → i.op = .nullCheck → i.inputs[0]? = some (Operand.register k rs hi) →
    c.RaisesIf W j m (m.get rs = 0) .throwNullPointer i.info (fun _ => True) fun m' =>
    (∀ r, m'.get r = m.get r) ∧ m'.mem = m.mem
  /-- A range check throws if the array has no such index, and says which. -/
  range : ∀ {c : Resident t} {W : World} {j : Nat} {i : Instruction} {m : Machine} {index length : Operand},
    c.start % 2 = 0 → c.Facing W j i m → i.op = .rangeCheck → i.inputs[0]? = some index → i.inputs[1]? = some length →
    index.kind = .int → length.kind = .int → index.isValue = true → length.isValue = true →
    (∀ k slot, index ≠ .stack k slot) → 0 ≤ (length.wordIn m).toInt64.toInt →
    c.RaisesIf W j m (¬ InRange (index.wordIn m) (length.wordIn m)) .throwRangeCheck i.info (fun m' =>
    m'.get t0 = index.wordIn m)
      fun m' => (∀ r, r ≠ t0 → r ≠ t1 → m'.get r = m.get r) ∧ m'.mem = m.mem

/-- Implicit exceptions are raised exactly when they are due, whether or not the operands are known when the
method is compiled. -/
theorem implicit_exceptions {t : Target} (heven : ∀ e, t.runtime.addr e % 2 = 0) : ThrowsImplicitly t where
  divide {_ _ _ _ _ _ _ _ _ _ _ divisor _} hstart hm hop hin hin' hres hrd hinfo hk hkind hvalue hsigned := by
    cases hc : divisor.isConstant with
    | true => exact known_divisor hstart hm hop hin hin' hres hrd hinfo hk hkind hvalue hsigned (heven _) hc
    | false => exact unknown_divisor hstart hm hop hin hin' hres hrd hinfo hk hkind hvalue hsigned (heven _) hc
  null hstart hm hop hin := null_check hstart hm hop hin (heven _)
  range {_ _ _ _ _ index length} hstart hm hop hin hin' hindex hlength hvalue hvalue' hplace hlow := by
    cases hknown : Lower.constantsInRange? index length with
    | none => exact unknown_index hstart hm hop hin hin' hindex hlength hvalue hvalue' hplace hlow (heven _) hknown
    | some b => exact known_index hstart hm hop hin hin' hindex hlength hvalue hvalue' hplace hlow (heven _) hknown

/-- The runtime of the examples throws here. -/
def throwingTarget : Target := ⟨{}, .synthetic 0x20000⟩

/-- The quotient is live where the check throws. -/
def quotientLive : SiteInfo := { live := [.register .int (.x 11) .none] }

/-- A method that divides by minus one and uses the quotient for the length of an array. -/
def fourthElement : Program where
  name := "p"
  frameSize := 32
  code := #[
    { op := .div, inputs := [.register .int (.x 10) .none, .constant .int (-1)],
      result := .register .int (.x 11) .none, info := some {} },
    { op := .rangeCheck, inputs := [.constant .int 3, .register .int (.x 11) .none], info := some quotientLive },
    { op := .ret }]

/-- A machine in front of code at `0x10000`, with minus three in a register. -/
def negating (code : List UInt8) (pc : UInt64) : Machine where
  x n := if n = 2 then 0x8000 else if n = 10 then -3 else 0
  f _ := 0
  pc
  mem := Ram.overlay (fun _ => 0) 0x10000 code

/-- Three elements have no fourth: the check throws, and where it does the quotient is recorded as live. -/
theorem the_fourth_of_three_throws : ∃ method off m', fourthElement.compile throwingTarget 0 = .ok method ∧
    fourthElement.placeOf throwingTarget 0 0 = .ok off ∧
    World.bare.Reaches (negating method.blob.code (0x10000 + UInt64.ofNat off)) m' ∧
    m'.pc = throwingTarget.runtime.addr .throwRangeCheck ∧ m'.get t0 = 3 ∧ m'.get (.x 11) = 3 ∧
    ∃ site ∈ method.sites, site.info = quotientLive ∧ m'.get ra = 0x10000 + site.offset.toUInt64 := by
  obtain ⟨method, off, hcompiled, hsize, hoff⟩ : fourthElement.CompilesWithin throwingTarget 0 0 0x1000 :=
    .of_checks (by decide +kernel) (by decide +kernel)
  have hthrows := implicit_exceptions (t := throwingTarget) (by intro e; cases e <;> rfl)
  let c : Resident throwingTarget := ⟨fourthElement, 0, method, 0x10000, hcompiled, absurd rfl⟩
  let m := negating method.blob.code (0x10000 + UInt64.ofNat off)
  have hbefore : c.Before 0 m := .of_overlay hsize hoff rfl rfl
  have hstart : c.start % 2 = 0 := show (0x10000 : UInt64) % 2 = 0 by decide
  have hdivisor : OfKind .int ((Operand.constant .int (-1)).wordIn m) := fun _ =>
    show sext (constantWord .int (-1)).toUInt32 = constantWord .int (-1) by decide
  obtain ⟨hzero, -⟩ | ⟨-, m1, hreach1, hbefore1, h1⟩ :=
    hthrows.divide (W := World.bare) hstart ⟨rfl, fun _ _ => rfl, hbefore⟩
    (.inl rfl) rfl rfl rfl (by decide) rfl (.inl rfl) rfl rfl hdivisor
  · exact absurd (show constantWord .int (-1) = 0 from hzero) (by decide)
  have hquotient : m1.get (.x 11) = 3 :=
    h1.value.trans (show Opcode.div.divided .int (-3) (constantWord .int (-1)) = 3 by decide)
  obtain ⟨-, m2, hreach2, hraised, hindex⟩ | ⟨hin, -⟩ := hthrows.range (W := World.bare) hstart
    ⟨rfl, fun _ _ => rfl, hbefore1⟩ rfl rfl rfl rfl rfl rfl rfl nofun
      (by show 0 ≤ (m1.get (.x 11)).toInt64.toInt; rw [hquotient]; decide)
  · obtain ⟨site, hmem, hinfo, hret⟩ := hraised.site _ rfl
    refine ⟨method, off, m2, hcompiled, hoff, hreach1.trans hreach2, hraised.pc, hindex, ?_, site, hmem, hinfo, hret⟩
    rw [hraised.rest _ (by decide), hquotient]
  · refine absurd (fun h : InRange 3 (m1.get (.x 11)) => ?_) hin
    rw [hquotient] at h
    exact absurd h (by decide)

end RiscvJit
