import RiscvJit.Proofs.Code.Outcomes
import RiscvJit.Proofs.Lower.MemoryMoves

/-
  RiscvJit.Proofs.Lower.ConstantHomes — constants on their way to where values live.

  A constant may go to a register, a float register, a stack slot or memory of its kind (`Home`). All these
  moves but one are lowered whatever was lowered before (`Yields`), and once the code has run, the home
  holds the bits of the constant in the width of its kind (`Settled`).

  The exception is a float or a double that goes to a stack slot. The kind of the slot chooses a store that asks for
  a float register, and the bits are in an integer register, so the instruction is refused
  (`Lower.refuses_floatToSlot`). In memory the same bits are stored as a plain word (`Lower.constStoreOp`).
-/

namespace RiscvJit

open Machine (Keeps)
open Reg (zr sp t0 t1)
open Asm
open Location
open Lower

/-! ## Constants and their homes -/

/-- A constant of a kind that methods name constants of. Pointers have at most 47 bits. -/
structure Literal (k : ValueKind) (bits : UInt64) : Prop where
  kind : k ∈ [ValueKind.int, .long, .float, .double, .object, .address, .metadata]
  low : k = .object ∨ k = .metadata → bits.toNat < 2 ^ 47

/-- Where a value of a kind can live. -/
inductive Home (k : ValueKind) : Operand → Prop where
  | register (r : Fin 32) (hi : Reg) (kept : Reg.x r ≠ zr) (file : k.isFloat = false) : Home k (.register k (.x r) hi)
  | floatRegister (r : Fin 32) (file : k.isFloat = true) : Home k (.floatRegister k (.f r))
  | slot (n : Nat) : Home k (.stack k n)
  | memory (a : Address) (base : a.base.isInt = true) (index : a.hasIndex = true → a.index.isInt = true) : Home
    k (.memory k a)

/-- What a float register holds for the bits of a float. -/
def ValueKind.floatWord (k : ValueKind) (bits : UInt64) : UInt64 :=
  if k = .float then boxed (bits &&& 0xffffffff) else bits

/-- The home holds the bits of the constant; else scratch registers may have changed. -/
def Options.Settled (o : Options) (k : ValueKind) (bits : UInt64) (m m' : Machine) : Operand → Prop
  | .register _ r _ => Put r [] (Operand.constantWord k bits) m m'
  | .floatRegister _ r => Put r [t0] (k.floatWord bits) m m'
  | .stack _ n => Site.Stored [t0, t1] (m.get sp + (slotBytes n).toUInt64) k.slotBytes bits m m'
  | .memory _ a => Site.Stored [t0, t1] (a.eval m) (o.heapBytes k) (o.heapImage k bits) m m'
  | _ => False

/-- The bytes of a home in memory. -/
def Options.Occupies (o : Options) (m : Machine) (dst : Operand) (addr : UInt64) : Prop :=
  match dst with
  | .stack k n => ∃ j < k.slotBytes, addr = m.get sp + (slotBytes n).toUInt64 + UInt64.ofNat j
  | .memory k a => ∃ j < o.heapBytes k, addr = a.eval m + UInt64.ofNat j
  | _ => False

namespace Lower

variable {k : ValueKind} {bits : UInt64} {rd : Reg} {dst : Operand}

/-- The work goes through. -/
abbrev Passes (x : Lower Unit) : Prop := Yields x fun _ => True

variable {α : Type}

theorem yields_asm {x : Asm α} {Q : α → Prop} (h : Yields x Q) : Yields (liftM x : Lower α) Q := by
  intro t s
  obtain ⟨r, a, hr, hq⟩ := h t s.asm
  refine ⟨r, { s with asm := a }, ?_, hq⟩
  rw [asm_eq, hr]
  rfl

theorem refuses_asm {x : Asm α} {e : Fault} (h : Refuses x e) : Refuses (liftM x : Lower α) e := by
  intro t s
  rw [asm_eq, h t s.asm]
  rfl

theorem yields_lift {c : Except Fault α} {r : α} {Q : α → Prop} (h : c = .ok r) (hq : Q r) :
    Yields (liftM c : Lower α) Q := by
  subst h
  exact fun _ s => ⟨r, s, rfl, hq⟩

theorem yields_compressedOop (k : ValueKind) : Yields (compressedOop k) fun _ => True := fun _ s => ⟨_, s, rfl, trivial⟩

/-! ### What is lowered -/

theorem passes_constToReg (hl : Literal k bits) (hd : rd.isInt = true) : Passes (constToReg (.constant k bits) rd) := by
  unfold constToReg
  refine (yields_lift (r := bits) (Q := (· = bits)) rfl rfl).bind ?_
  rintro _ rfl
  have hkind := hl.kind
  cases k with
  | object =>
    exact yields_ite (fun _ => yields_asm (passes_mv hd rfl)) fun _ => yields_asm (passes_movptr hd (hl.low (.inl rfl)))
  | metadata => exact yields_asm (passes_movptr hd (hl.low (.inr rfl)))
  | int | long | float | double | address => exact yields_asm (passes_li hd)
  | _ => simp at hkind

/-- The store of a constant takes an integer register. -/
theorem yields_constStoreOp (hl : Literal k bits) :
    Yields (constStoreOp k) fun o => o.info.rs2 = .int ∧ o.info.rs1 = .int ∧ o.info.rd = .none := by
  have hkind := hl.kind
  have hstore : ∃ st, memStoreOp k = .ok st := by
    cases k <;> first | exact ⟨_, rfl⟩ | simp at hkind
  obtain ⟨st, hst⟩ := hstore
  unfold constStoreOp
  refine (yields_lift (Q := (· = st)) hst rfl).bind ?_
  rintro _ rfl
  refine (yields_compressedOop k).bind fun c _ => yields_ite (fun _ => yields_pure ⟨rfl, rfl, rfl⟩) fun _ =>
    yields_pure ?_
  cases k <;> first | (cases hst; exact ⟨rfl, rfl, rfl⟩) | simp at hkind

theorem passes_moveConstToMemory {a : Address} (hl : Literal k bits) (hb : a.base.isInt = true)
    (hi : a.hasIndex = true → a.index.isInt = true) : Passes (moveConstToMemory (.constant k bits) bits k a) := by
  unfold moveConstToMemory
  refine (yields_asm (yields_legitimize hb hi)).bind fun p hp => (yields_constStoreOp hl).bind fun o ho => ?_
  have hstore (src : Reg) (hs : src.isInt = true) : Passes (liftM (store o src p.1 p.2)) :=
    yields_asm (passes_store (by rw [ho.1]; exact hs) (by rw [ho.2.1]; exact hp.1) ho.2.2 hp.2)
  refine yields_ite (fun _ => hstore zr rfl) fun _ => (yields_compressedOop k).bind fun c _ =>
    yields_ite (fun _ => ?_) fun _ => ?_
  · exact Yields.bind (P := fun _ => True) (fun t s => ⟨t, s, rfl, trivial⟩) fun t _ =>
      (yields_asm (passes_li rfl)).bind fun _ _ => hstore t1 rfl
  · exact (passes_constToReg hl rfl).bind fun _ _ => hstore t1 rfl

theorem stackStoreOp_base (k : ValueKind) : (stackStoreOp k).info.rs1 = .int ∧ (stackStoreOp k).info.rd = .none := by
  unfold stackStoreOp
  split
  · exact ⟨rfl, rfl⟩
  · exact ⟨rfl, rfl⟩
  · split <;> exact ⟨rfl, rfl⟩

/-- The store of a value that is no float takes an integer register. -/
theorem stackStoreOp_int (h : k.isFloat = false) : (stackStoreOp k).info.rs2 = .int := by
  unfold stackStoreOp
  split
  · cases h
  · cases h
  · split <;> rfl

/-- Every constant is lowered on its way to every home, but for floats that go to a stack slot. -/
theorem passes_moveFromConst (hl : Literal k bits) (hh : Home k dst) (hslot : k.isFloat = true → dst.isStack = false) :
    Passes (moveFromConst (.constant k bits) bits dst) := by
  cases hh with
  | register r hi kept file => exact passes_constToReg hl rfl
  | floatRegister r file =>
    have hmove (src : Reg) (hs : src.isInt = true) : Passes (liftM (fmv (toFloatOp k) (.f r) src)) := by
      refine yields_asm (passes_emit ?_ ?_ ?_)
      all_goals (unfold toFloatOp; split <;> first | rfl | exact hs | trivial)
    exact yields_ite (fun _ => hmove zr rfl) fun _ => (yields_asm (passes_li rfl)).bind fun _ _ => hmove t0 rfl
  | slot n =>
    have hplain : k.isFloat = false := by
      cases hf : k.isFloat with
      | false => rfl
      | true => cases hslot hf
    have hstore (src : Reg) (hs : src.isInt = true) (hne : t0 ≠ src) :
        Passes (liftM (storeOff (stackStoreOp k) src sp (slotBytes n) t0)) :=
      yields_asm (passes_storeOff (by rw [stackStoreOp_int hplain]; exact hs) (stackStoreOp_base k).1
      (stackStoreOp_base k).2
        rfl rfl (by decide) hne)
    exact yields_ite (fun _ => hstore zr rfl (by decide)) fun _ => (passes_constToReg hl rfl).bind fun _ _ =>
      hstore t1 rfl (by decide)
  | memory a base index => exact passes_moveConstToMemory hl base index

/-- A float that goes to a stack slot is refused. -/
theorem refuses_floatToSlot (hl : Literal k bits) (hf : k.isFloat = true) (n : Nat) :
    Refuses (moveFromConst (.constant k bits) bits (.stack k n))
    (notFloat (stackStoreOp k) (if bits = 0 then zr else t1)) := by
  have hfloat : (stackStoreOp k).info.rs2 = .float := by
    cases k <;> first | rfl | cases hf
  have hstore (src : Reg) (hs : src.isFloat = false) (hne : t0 ≠ src) :
      Refuses (liftM (storeOff (stackStoreOp k) src sp (slotBytes n) t0) : Lower Unit) (notFloat (stackStoreOp k) src) :=
    refuses_asm (refuses_storeOff hfloat hs (stackStoreOp_base k).1 (stackStoreOp_base k).2 rfl rfl (by decide) hne)
  unfold moveFromConst
  dsimp only
  split
  · exact hstore zr rfl (by decide)
  · exact (passes_constToReg hl rfl).refuses fun _ _ => hstore t1 rfl (by decide)

end Lower

/-! ## What the code does -/

namespace Lower

theorem spaces_movptr (rd : Reg) (addr : UInt64) : (movptr rd addr).Spaces :=
  Spaces.after fun _ => Spaces.after fun _ => spaces_emit

theorem seals_constToReg {k : ValueKind} {bits : UInt64} {rd : Reg} (h : rd ≠ zr) :
    Seals (constToReg (.constant k bits) rd) := by
  have hli (imm : Int64) : Seals (liftM (li rd imm) : Lower Unit) := seals_of_spaces (spaces_li rd imm)
  have hmv : Seals (liftM (mv rd zr) : Lower Unit) := seals_of_spaces (spaces_mv h)
  have hmovptr (addr : UInt64) : Seals (liftM (movptr rd addr) : Lower Unit) := seals_of_spaces (spaces_movptr rd addr)
  unfold constToReg
  cases k <;> (dsimp only [Operand.kind]; infer_instance)

theorem seals_moveFromConst {k : ValueKind} {bits : UInt64} {dst : Operand} (hh : Home k dst) :
    Seals (moveFromConst (.constant k bits) bits dst) := by
  unfold moveFromConst
  cases hh with
  | register r hi kept file => exact seals_constToReg kept
  | floatRegister r file =>
    have (src : Reg) : Seals (liftM (fmv (toFloatOp k) (.f r) src) : Lower Unit) := seals_emit ..
    dsimp only
    infer_instance
  | slot n =>
    dsimp only
    infer_instance
  | memory a base index =>
    dsimp only
    infer_instance

end Lower

namespace Site

variable {S : Site} {m : Machine} {E : Exits} {k : ValueKind} {bits : UInt64} {Q : Unit → Machine → Prop}

theorem does_fmv {o : Op} {rd rs : Reg} (hf : o.info.format = .floatMove) (hk : Keeps rd)
    (h : ∀ m', Put rd [] (o.extend (m.get rs)) m m' → Q () m') : S.Does (fmv o rd rs) m E Q := by
  refine does_puts (v := fun m => o.extend (m.get rs)) (fun _ _ _ hrun =>
    puts_of_sets hk ⟨_, wrote_emit hrun (valid_of_format (by rw [hf]; decide)) hf nofun nofun (fun _ => rfl) rfl rfl,
      fun m => ?_⟩) h
  rw [Machine.exec, Op.instOf]
  simp only [hf]

/-- The raw bits of a constant go to a float register. -/
theorem lowers_constToFloat {r : Fin 32} (h : ∀ m', Put (.f r) [t0] (k.floatWord bits) m m' → Q () m') :
    S.Lowers (moveFromConst (.constant k bits) bits (.floatRegister k (.f r))) m E Q := by
  have hfmv {m1 : Machine} {src : Reg} (hsrc : m1.get src = bits) (hrest : ∀ q, q ≠ t0 → m1.get q = m.get q)
    (hmem : m1.mem = m.mem) :
      S.Lowers (liftM (fmv (toFloatOp k) (.f r) src)) m1 E Q := by
    have hformat : (toFloatOp k).info.format = .floatMove := by
      unfold toFloatOp
      split <;> rfl
    have hextend : (toFloatOp k).extend bits = k.floatWord bits := by
      unfold toFloatOp ValueKind.floatWord
      split <;> rfl
    refine lowers_asm (does_fmv hformat ⟨nofun, nofun⟩ fun m2 h2 =>
      h m2 ⟨?_, fun q hq ht => ?_, h2.mem.trans hmem⟩)
    · rw [h2.value, hsrc, hextend]
    · rw [h2.other q hq, hrest q (by simpa using ht)]
  unfold moveFromConst
  dsimp only
  split
  case _ hzero => exact @hfmv m zr hzero.symm (fun _ _ => rfl) rfl
  case _ =>
    exact .bind (lowers_asm (does_li fun m1 h1 => hfmv h1.value (fun q hq => h1.other q hq) h1.mem))

/-- A constant goes to a stack slot, where the move is not refused. -/
theorem lowers_constToSlot {n : Nat}
    (hfree : ∀ j < k.slotBytes, S.Free (m.get sp + (slotBytes n).toUInt64 + UInt64.ofNat j))
    (h : ∀ m', Stored [t0, t1] (m.get sp + (slotBytes n).toUInt64) k.slotBytes bits m m' → Q () m') :
    S.Lowers (moveFromConst (.constant k bits) bits (.stack k n)) m E Q := by
  obtain ⟨hf, hw⟩ := stackStoreOp_stores k
  have hstore {m1 : Machine} {src : Reg} (hsrc : (m1.get src).toUInt32 = bits.toUInt32 ∧
    (k.is64 = true → m1.get src = bits))
      (hrest : ∀ q, q ≠ t1 → m1.get q = m.get q) (hmem : m1.mem = m.mem) :
      S.Lowers (liftM (storeOff (stackStoreOp k) src sp (slotBytes n) t0)) m1 E Q := by
    refine lowers_asm (does_spillAfter hf hw hfree ?_ (fun q _ => hrest q) h)
    rw [hmem]
    exact Ram.write_slot _ _ hsrc.1 hsrc.2
  unfold moveFromConst
  dsimp only
  split
  case _ hzero => exact @hstore m zr ⟨congrArg _ hzero.symm, fun _ => hzero.symm⟩ (fun _ _ => rfl) rfl
  case _ =>
    refine .bind (lowers_constToReg (by decide) fun m1 h1 => hstore ?_ (fun q hq => h1.other q hq) h1.mem)
    rw [h1.value]
    exact constantWord_low k bits

end Site

/-! ## Moves of constants in a compiled method -/

/-- What becomes of the moves of constants. -/
structure ConstantsSettle (t : Target) : Prop where
  /-- All are lowered, whatever was lowered before, but for floats that go to a stack slot. -/
  lowered : ∀ {i : Instruction} {k : ValueKind} {bits : UInt64}, i.op = .move → i.inputs[0]? = some (Operand.constant k bits) →
    i.Admitted → Literal k bits → Home k i.result → (k.isFloat = true → i.result.isStack = false) →
    ∀ s, ∃ s', instruction i t s = .ok ((), s')
  /-- The code leaves the bits in their home. -/
  settled : ∀ {c : Resident t} {W : World} {j : Nat} {i : Instruction} {m : Machine} {k : ValueKind} {bits : UInt64},
    c.Facing W j i m → i.op = .move → i.inputs[0]? = some (Operand.constant k bits) → Literal k bits → Home k i.result →
    (k.isFloat = true → i.result.isStack = false) → (∀ addr, t.opts.Occupies m i.result addr → c.Clear addr) →
    c.Runs W j m fun m' => t.opts.Settled k bits m m' i.result
  /-- Floats that go to a stack slot are refused, whatever was lowered before. -/
  refused : ∀ {i : Instruction} {k : ValueKind} {bits : UInt64} {n : Nat}, i.op = .move →
    i.inputs[0]? = some (Operand.constant k bits) → i.Admitted → Literal k bits → k.isFloat = true → i.result = .stack k n →
    ∀ s, instruction i t s = .error (notFloat (stackStoreOp k) (if bits = 0 then zr else t1))

section
variable {i : Instruction} {k : ValueKind} {bits : UInt64}

theorem float_refused {n : Nat} (hop : i.op = .move) (hin : i.inputs[0]? = some (Operand.constant k bits)) (hi : i.Admitted)
    (hl : Literal k bits) (hf : k.isFloat = true) (hres : i.result = .stack k n) :
    Refuses (instruction i) (notFloat (stackStoreOp k) (if bits = 0 then zr else t1)) := by
  rw [instruction, dispatch_move hop hin, hres]
  exact (Lower.yields_lift (checkOperands_eq_ok.mpr hi) trivial).refuses fun _ (_ : True) => refuses_floatToSlot hl hf n

end

/-- The instruction that puts one and a half into a stack slot. -/
def spillsFloat : Instruction := { op := .move, inputs := [.constant .float 0x3fc00000], result := .stack .float 0 }

/-- There is no lowering of it, though it moves a constant to a home of its kind. -/
theorem a_float_does_not_reach_its_slot : spillsFloat.Admitted ∧ Literal .float 0x3fc00000 ∧
    Home .float spillsFloat.result ∧ ∀ t s, instruction spillsFloat t s = .error
    (.precondition "rs2 of fsw must be a float register, got x6") := by
  have hi : spillsFloat.Admitted := ⟨by simp [spillsFloat, Operand.Admitted], by simp [spillsFloat], trivial, nofun⟩
  have hl : Literal .float 0x3fc00000 := ⟨by decide, by decide⟩
  have htext : notFloat (stackStoreOp .float) (if (0x3fc00000 : UInt64) = 0 then zr else t1) =
      .precondition "rs2 of fsw must be a float register, got x6" := by
    rw [if_neg (by decide)]
    exact congrArg Fault.precondition (by decide +kernel)
  exact ⟨hi, hl, .slot 0, htext ▸ float_refused (n := 0) rfl rfl hi hl rfl rfl⟩

/-- Constants come to all their homes, but floats do not come to stack slots. -/
theorem constants_settle {t : Target} (hopts : t.opts.refusal? = none) : ConstantsSettle t where
  lowered {i k bits} hop hin hi hl hh hslot s := by
    rw [instruction, dispatch_move hop hin]
    obtain ⟨_, s', h, -⟩ := (Lower.yields_lift (checkOperands_eq_ok.mpr hi) trivial).bind (fun _ (_ : True) =>
      passes_moveFromConst hl hh hslot) t s
    exact ⟨s', h⟩
  settled {c W j i m k bits} hm hop hin hl hh hslot hclear := by
    have hseals : Lower.Seals (moveFromConst (.constant k bits) bits i.result) := seals_moveFromConst hh
    refine hm.runs (x := moveFromConst (.constant k bits) bits i.result) (dispatch_move hop hin)
      fun S ht hfree hadmitted => ?_
    subst ht
    have hresult := hadmitted.result
    generalize i.result = dst at *
    cases hh with
    | register r hi kept file => exact Site.lowers_constToReg (Machine.keeps_x kept) fun m' h => h
    | floatRegister r file => exact Site.lowers_constToFloat fun m' h => h
    | slot n => exact Site.lowers_constToSlot (fun j hj => hfree _ (hclear _ ⟨j, hj, rfl⟩)) fun m' h => h
    | memory a base index =>
      exact Site.lowers_constantToMemory hopts (steady_of_admitted hresult) (fun j hj =>
        hfree _ (hclear _ ⟨j, hj, rfl⟩)) fun m' h => h
  refused hop hin hi hl hf hres := float_refused hop hin hi hl hf hres t

def namesDouble : Instruction :=
  { op := .move, inputs := [.constant .double 0x3ff8000000000000], result := .floatRegister .double (.f 10) }

def namesInt : Instruction := { op := .move, inputs := [.constant .int 0xfffffffb], result := .register .int (.x 10) .none }

/-- A method that names a double and a negative int. -/
def namesConstants : Program where
  name := "p"
  frameSize := 32
  code := #[namesDouble, namesInt, { op := .ret }]

/-- Both are in their registers, the int with its sign. -/
theorem constants_are_named : ∃ method off m', namesConstants.compile baseTarget 0 = .ok method ∧
    namesConstants.placeOf baseTarget 0 0 = .ok off ∧
    World.bare.Reaches (carrying method.blob.code (0x10000 + UInt64.ofNat off)) m' ∧ m'.get (.f 10) = 0x3ff8000000000000 ∧
    m'.get (.x 10) = -5 := by
  obtain ⟨method, off, hcompiled, hsize, hoff⟩ : namesConstants.CompilesWithin baseTarget 0 0 0x1000 :=
    .of_checks (by decide +kernel) (by decide +kernel)
  have hsettle := constants_settle (t := baseTarget) (by decide)
  let c : Resident baseTarget := ⟨namesConstants, 0, method, 0x10000, hcompiled, absurd rfl⟩
  let m := carrying method.blob.code (0x10000 + UInt64.ofNat off)
  have hlow : (0x10000 : UInt64).toNat = 0x10000 := rfl
  have hbefore : c.Before 0 m := .of_overlay hsize hoff rfl rfl
  obtain ⟨m1, hreach1, hbefore1, h1⟩ := hsettle.settled (c := c) (W := World.bare) (i := namesDouble)
    (m := m) ⟨rfl, fun _ _ => rfl, hbefore⟩ rfl rfl
    ⟨by decide, by decide⟩ (.floatRegister 10 rfl) (fun _ => rfl) fun _ (h : False) => h.elim
  obtain ⟨m2, hreach2, -, h2⟩ := hsettle.settled (c := c) (W := World.bare) (i := namesInt) (m := m1)
    ⟨rfl, fun _ _ => rfl, hbefore1⟩ rfl rfl
    ⟨by decide, by decide⟩ (.register 10 .none (by decide) rfl) (fun _ => rfl) fun _ (h : False) => h.elim
  have hdouble : m1.get (.f 10) = 0x3ff8000000000000 := Put.value h1
  have hint : m2.get (.x 10) = Operand.constantWord .int 0xfffffffb := Put.value h2
  refine ⟨method, off, m2, hcompiled, hoff, hreach1.trans hreach2, ?_, hint.trans (by decide)⟩
  rw [Put.rest h2 (.f 10) (by decide) List.not_mem_nil, hdouble]

end RiscvJit
