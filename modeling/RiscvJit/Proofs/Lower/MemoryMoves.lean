import RiscvJit.Proofs.Lower.CompressedFields

/-
  RiscvJit.Proofs.Lower.MemoryMoves — what moves to memory write, and what moves from memory bring.

  A value has a width in memory and one in a stack slot, and a word that stands for it in a register. In
  the heap a reference may have a narrow form instead (`Options.heapImage`, `Options.fromHeap`). A move
  to memory writes the bytes of the value and no others, wherever the value comes from; a move from memory
  gives its destination the word, whatever registers the address is made of (`MovesThroughMemory`). On the
  way there at most the scratch registers change.

  Each route is taken apart twice, with and without compression: compression works in t1, so a spilled
  reference and the address it goes to are brought up in the other order.
-/

namespace RiscvJit

open Machine (Keeps)
open Reg (sp t0 t1)
open Location
open Lower
open Options
open Site

/-! ## Values and their bytes -/

/-- Kinds of values that integer registers hold. -/
def ValueKind.Integral : ValueKind → Bool
  | .float | .double | .void | .unknown _ => false
  | _ => true

/-- The word in a register for the bytes of a value: bytes, shorts and ints are signed. -/
def ValueKind.widened (k : ValueKind) (raw : UInt64) : UInt64 :=
  match k with
  | .byte => raw.toUInt8.toInt8.toInt64.toUInt64
  | .short => raw.toUInt16.toInt16.toInt64.toUInt64
  | .int => sext raw.toUInt32
  | _ => raw

/-- How many bytes a value takes in its stack slot. -/
def ValueKind.slotBytes (k : ValueKind) : Nat := if k.is64 then 8 else 4

namespace Options

/-- The heap holds values of the kind in narrow form. -/
def compresses (o : Options) (k : ValueKind) : Bool := isOop k && o.compressedOops

/-- How many bytes a value takes in the heap. -/
def heapBytes (o : Options) (k : ValueKind) : Nat := if o.compresses k then 4 else k.size

/-- What these bytes are for a value. -/
def heapImage (o : Options) (k : ValueKind) (v : UInt64) : UInt64 := if o.compresses k then o.narrow v else v

/-- The word in a register for a value in the heap. -/
def fromHeap (o : Options) (k : ValueKind) (raw : UInt64) : UInt64 :=
  if o.compresses k then o.expanded raw else k.widened raw

end Options

/-- The value of an operand that is no address. -/
def Operand.valueIn (m : Machine) : Operand → UInt64
  | .register _ r _ => m.get r
  | .stack k slot => m.mem.read (m.get sp + (slotBytes slot).toUInt64) k.slotBytes
  | .constant _ bits => bits
  | _ => 0

/-- Operands that have a value of their own. -/
def Operand.isValue : Operand → Bool
  | .register .. | .stack .. | .constant .. => true
  | _ => false

theorem Operand.Admitted.ne_scratch {k : ValueKind} {r hi : Reg} (h : (Operand.register k r hi).Admitted) :
    r ≠ t0 ∧ r ≠ t1 := by
  rcases h with e | hfree
  · rw [e]
    decide
  · exact RiscvJit.ne_scratch hfree

/-! ## Instructions by kind -/

namespace Lower

variable {k : ValueKind}

theorem memStoreOp_integral (hk : k.Integral = true) :
    ∃ o, memStoreOp k = .ok o ∧ o.info.format = .store ∧ o.width = some k.size := by
  cases k <;> first | exact ⟨_, rfl, rfl, rfl⟩ | cases hk

theorem memLoadOp_integral (hk : k.Integral = true) :
    ∃ o, memLoadOp k = .ok o ∧ o.info.format = .load ∧ o.width = some k.size ∧ o.extend = k.widened := by
  cases k <;> first | exact ⟨_, rfl, rfl, rfl, rfl⟩ | cases hk

theorem stackStoreOp_stores (k : ValueKind) :
    (stackStoreOp k).info.format = .store ∧ (stackStoreOp k).width = some k.slotBytes := by
  cases k <;> exact ⟨rfl, rfl⟩

/-- The load of a slot brings the low half of a narrow value. -/
theorem slotLoad_integral (k : ValueKind) :
    (if k.is64 then Op.ld else .lw).info.format = .load ∧
      (if k.is64 then Op.ld else .lw).width = some k.slotBytes ∧
      ∀ raw, ((if k.is64 then Op.ld else .lw).extend raw).toUInt32 = raw.toUInt32 ∧
        (k.is64 = true → (if k.is64 then Op.ld else .lw).extend raw = raw) := by
  unfold ValueKind.slotBytes
  split
  · exact ⟨rfl, rfl, fun _ => ⟨rfl, fun _ => rfl⟩⟩
  · exact ⟨rfl, rfl, fun raw => ⟨toUInt32_sext _, fun h => absurd h ‹_›⟩⟩

/-- A value that does not fill a register takes at most four bytes. -/
theorem size_le_four (h : k.is64 = false) : k.size ≤ 4 := by
  cases k <;> first | decide | exact Nat.zero_le _ | cases h

theorem constantWord_low (k : ValueKind) (bits : UInt64) : (Operand.constantWord k bits).toUInt32 = bits.toUInt32 ∧
    (k.is64 = true → Operand.constantWord k bits = bits) := by
  cases k <;> first
    | exact ⟨rfl, fun _ => rfl⟩
    | exact ⟨toUInt32_sext _, nofun⟩
    | exact ⟨UInt32.toUInt32_toUInt64 _, nofun⟩

end Lower

/-- The bytes of a value depend on as much of a word as the kind fills. -/
theorem Ram.write_value (mem : Ram) (addr : UInt64) {k : ValueKind} {v w : UInt64} (hlow : v.toUInt32 = w.toUInt32)
    (hwhole : k.is64 = true → v = w) : mem.write addr k.size v = mem.write addr k.size w := by
  cases h64 : k.is64 with
  | true => rw [hwhole h64]
  | false => exact write_low mem addr (size_le_four h64) hlow

/-- The bytes of a slot depend on as much of a word as the kind fills. -/
theorem Ram.write_slot (mem : Ram) (addr : UInt64) {k : ValueKind} {v w : UInt64} (hlow : v.toUInt32 = w.toUInt32)
    (hwhole : k.is64 = true → v = w) : mem.write addr k.slotBytes v = mem.write addr k.slotBytes w := by
  unfold ValueKind.slotBytes
  split
  case isTrue h64 => rw [hwhole h64]
  case isFalse => exact write_low mem addr (Nat.le_refl _) hlow

/-! ## Routes -/

namespace Site

variable {S : Site} {m : Machine} {E : Exits} {a : Address} {k : ValueKind}

theorem lowers_compresses {Q : Bool → Machine → Prop} (h : Q (S.target.opts.compresses k) m) :
    S.Lowers (compressedOop k) m E Q := by
  unfold compressedOop
  exact .bind (lowers_read (lowers_pure h))

/-- The bytes of a constant are stored from an integer register, those of floats too. -/
theorem lowers_constStoreOp {Q : Op → Machine → Prop} (hc : S.target.opts.compresses k = false)
    (h : ∀ o : Op, o.info.format = .store → o.width = some k.size → Q o m) :
    S.Lowers (constStoreOp k) m E Q := by
  unfold constStoreOp
  refine .bind (lowers_lift fun o ho => .bind (lowers_compresses ?_))
  rw [hc, if_neg Bool.false_ne_true]
  refine lowers_pure ?_
  cases k <;> cases ho <;> exact h _ rfl rfl

section
variable {Q : Unit → Machine → Prop} (hopts : S.target.opts.refusal? = none) (hk : k.Integral = true) (ha : a.Steady)
include hopts hk ha

theorem lowers_storeValue {r : Reg} (hr : r ≠ t0 ∧ r ≠ t1)
    (hfree : ∀ i < S.target.opts.heapBytes k, S.Free (a.eval m + UInt64.ofNat i))
    (h : ∀ m', Stored [t0, t1] (a.eval m) (S.target.opts.heapBytes k)
    (S.target.opts.heapImage k (m.get r)) m m' → Q () m') :
    S.Lowers (storeToMemory r k a) m E Q := by
  unfold heapBytes heapImage at h
  unfold heapBytes at hfree
  cases hc : S.target.opts.compresses k with
  | true =>
    simp only [hc, if_true] at h hfree
    obtain ⟨hoop, hc⟩ := Bool.and_eq_true_iff.mp hc
    exact lowers_storeToMemory hopts hc hoop ha hr hfree h
  | false =>
    simp only [hc, Bool.false_eq_true, if_false] at h hfree
    obtain ⟨o, ho, hf, hw⟩ := memStoreOp_integral hk
    unfold storeToMemory
    refine .bind (lowers_asm (does_legitimize ha.spared fun b d m1 h1 => .bind (lowers_compresses ?_)))
    rw [hc, if_neg Bool.false_ne_true]
    refine .bind (lowers_lift fun o' ho' => lowers_asm ?_)
    obtain rfl : o = o' := Except.ok.inj (ho.symm.trans ho')
    refine does_storeAfter hf hw h1.value hfree ?_ h1.rest h
    rw [h1.mem, h1.rest r hr.1 hr.2]

set_option synthInstance.maxSize 512 in
theorem lowers_slotToMemory {src dst : Operand} {slot : Nat}
    (hfree : ∀ i < S.target.opts.heapBytes k, S.Free (a.eval m + UInt64.ofNat i))
    (h : ∀ m', Stored [t0, t1] (a.eval m) (S.target.opts.heapBytes k)
      (S.target.opts.heapImage k ((Operand.stack k slot).valueIn m)) m m' → Q () m') :
    S.Lowers (moveStackToMemory src k (slotBytes slot) dst k a) m E Q := by
  unfold heapBytes heapImage Operand.valueIn at h
  unfold heapBytes at hfree
  cases hc : S.target.opts.compresses k with
  | true =>
    simp only [hc, if_true] at h hfree
    obtain ⟨hoop, hc⟩ := Bool.and_eq_true_iff.mp hc
    have hslot : k.slotBytes = 8 := by cases k <;> first | rfl | cases hoop
    rw [hslot] at h
    exact lowers_moveStackToMemory hopts hc hoop ha hfree h
  | false =>
    simp only [hc, Bool.false_eq_true, if_false] at h hfree
    obtain ⟨o, ho, hf, hw⟩ := memStoreOp_integral hk
    obtain ⟨hlf, hlw, hextend⟩ := slotLoad_integral k
    unfold moveStackToMemory
    refine .bind (lowers_lift fun _ _ => .bind (lowers_compresses ?_))
    rw [hc, if_neg Bool.false_ne_true]
    refine .bind (lowers_asm (does_legitimize ha.spared fun b d m1 h₁ => ?_))
    refine .bind (lowers_asm (does_loadOff hlf hlw (by decide) (by decide) fun m2 h2 =>
      .bind (lowers_lift fun o' ho' => ?_)))
    obtain rfl : o = o' := Except.ok.inj (ho.symm.trans ho')
    have haddr : m2.get b + d.toUInt64 = a.eval m := by
      rw [h2.rest b (h₁.base_ne ha) (by simpa using h₁.base_ne ha), h₁.value]
    refine lowers_asm (does_storeAfter hf hw haddr hfree ?_ (fun q h0 h1 => ?_) h)
    · rw [h2.value, h2.mem, h₁.mem, h₁.rest sp (by decide) (by decide)]
      exact Ram.write_value _ _ (hextend _).1 (hextend _).2
    · rw [h2.rest q h1 (by simpa using h1), h₁.rest q h0 h1]

omit hk in
theorem lowers_constantToMemory {bits : UInt64}
    (hfree : ∀ i < S.target.opts.heapBytes k, S.Free (a.eval m + UInt64.ofNat i))
    (h : ∀ m', Stored [t0, t1] (a.eval m) (S.target.opts.heapBytes k) (S.target.opts.heapImage k bits) m m' → Q () m') :
    S.Lowers (moveConstToMemory (.constant k bits) bits k a) m E Q := by
  unfold heapBytes heapImage at h
  unfold heapBytes at hfree
  cases hc : S.target.opts.compresses k with
  | true =>
    simp only [hc, if_true] at h hfree
    obtain ⟨hoop, hc⟩ := Bool.and_eq_true_iff.mp hc
    exact lowers_moveConstToMemory hopts hc hoop ha hfree h
  | false =>
    simp only [hc, Bool.false_eq_true, if_false] at h hfree
    unfold moveConstToMemory
    refine .bind (lowers_asm (does_legitimize ha.spared fun b d m1 h₁ =>
      .bind (lowers_constStoreOp hc fun o hf hw => ?_)))
    split
    case _ hzero =>
      refine lowers_asm (does_storeAfter hf hw h₁.value hfree ?_ h₁.rest h)
      rw [h₁.mem, hzero]
      rfl
    case _ =>
      refine .bind (lowers_compresses ?_)
      rw [hc, if_neg Bool.false_ne_true]
      refine .bind (lowers_constToReg (by decide) fun m2 h2 => lowers_asm ?_)
      have haddr : m2.get b + d.toUInt64 = a.eval m := by
        rw [h2.other b (h₁.base_ne ha), h₁.value]
      refine does_storeAfter hf hw haddr hfree ?_ (fun q h0 h1 => ?_) h
      · rw [h2.value, h2.mem, h₁.mem]
        exact Ram.write_value _ _ (constantWord_low k bits).1 (constantWord_low k bits).2
      · rw [h2.other q h1, h₁.rest q h0 h1]

theorem lowers_loadValue {rd : Reg} (hd : Keeps rd)
    (h : ∀ m', Put rd [t0, t1] (S.target.opts.fromHeap k
    (m.mem.read (a.eval m) (S.target.opts.heapBytes k))) m m' → Q () m') :
    S.Lowers (loadFromMemory rd k a) m E Q := by
  unfold heapBytes fromHeap at h
  cases hc : S.target.opts.compresses k with
  | true =>
    simp only [hc, if_true] at h
    obtain ⟨hoop, hc⟩ := Bool.and_eq_true_iff.mp hc
    exact lowers_loadFromMemory hopts hc hoop ha hd h
  | false =>
    simp only [hc, Bool.false_eq_true, if_false] at h
    obtain ⟨o, ho, hf, hw, hextend⟩ := memLoadOp_integral hk
    unfold loadFromMemory
    refine .bind (lowers_asm (does_legitimize ha.spared fun b d m1 h₁ => .bind (lowers_compresses ?_)))
    rw [hc, if_neg Bool.false_ne_true]
    refine .bind (lowers_lift fun o' ho' => lowers_asm ?_)
    obtain rfl : o = o' := Except.ok.inj (ho.symm.trans ho')
    refine does_load hf hw hd fun m2 h2 => h m2 ⟨?_, fun q hq ht => ?_, h2.mem.trans h₁.mem⟩
    · rw [h2.value, h₁.value, h₁.mem, hextend]
    · obtain ⟨h0, h1⟩ : q ≠ t0 ∧ q ≠ t1 := by simpa using ht
      rw [h2.other q hq, h₁.rest q h0 h1]

end

end Site

/-! ## Moves of a compiled method -/

/-- What moves to memory write, and what moves from memory bring. -/
structure MovesThroughMemory (t : Target) : Prop where
  /-- A register, a stack slot or a constant goes to memory: the bytes of its value are written, and no others. -/
  store : ∀ {c : Resident t} {W : World} {k : Nat} {i : Instruction} {m : Machine} {src : Operand}
    {kind : ValueKind} {a : Address}, c.Facing W k i m → i.op = .move → i.inputs[0]? = some src →
    i.result = .memory kind a → kind.Integral = true →
    src.kind = kind → src.isValue = true → (∀ j < t.opts.heapBytes kind, c.Clear (a.eval m + UInt64.ofNat j)) →
    c.Runs W k m (Stored [t0, t1] (a.eval m) (t.opts.heapBytes kind) (t.opts.heapImage kind (src.valueIn m)) m)
  /-- A register is given the word of the value in memory. -/
  load : ∀ {c : Resident t} {W : World} {k : Nat} {i : Instruction} {m : Machine} {kind : ValueKind}
    {a : Address} {r hi : Reg}, c.Facing W k i m → i.op = .move → i.inputs[0]? = some (Operand.memory kind a) →
    i.result = .register kind r hi → r ≠ .none → kind.Integral = true →
    c.Runs W k m (Put r [t0, t1] (t.opts.fromHeap kind (m.mem.read (a.eval m) (t.opts.heapBytes kind))) m)
  /-- A stack slot is given as much of the word as the kind fills. -/
  spill : ∀ {c : Resident t} {W : World} {k : Nat} {i : Instruction} {m : Machine} {kind : ValueKind}
    {a : Address} {slot : Nat},
    c.Facing W k i m → i.op = .move → i.inputs[0]? = some (Operand.memory kind a) → i.result = .stack kind slot →
    kind.Integral = true → (∀ j < kind.slotBytes, c.Clear (m.get sp + (slotBytes slot).toUInt64 + UInt64.ofNat j)) →
    c.Runs W k m (Stored [t0, t1] (m.get sp + (slotBytes slot).toUInt64) kind.slotBytes
      (t.opts.fromHeap kind (m.mem.read (a.eval m) (t.opts.heapBytes kind))) m)

/-- Moves to memory write the bytes of a value, and moves from memory bring its word. -/
theorem memory_moves {t : Target} (hopts : t.opts.refusal? = none) : MovesThroughMemory t where
  store {c W k i m src kind a} hm hop hin hres hk hkind hvalue hclear := by
    have hdispatch := dispatch_move hop hin
    have hsteady (h : i.Admitted) : a.Steady := steady_of_admitted (k := kind) (hres ▸ h.result)
    rw [hres] at hdispatch
    subst hkind
    cases src with
    | register ks r hi =>
      refine hm.runs (x := storeToMemory r ks a) hdispatch fun S ht hfree hadmitted => ?_
      subst ht
      exact lowers_storeValue hopts hk (hsteady hadmitted) (hadmitted.input hin).ne_scratch
        (fun j hj => hfree _ (hclear j hj)) fun m' h => h
    | stack ks slot =>
      refine hm.runs (x := moveStackToMemory (.stack ks slot) ks (slotBytes slot) (.memory ks a) ks a) hdispatch
        fun S ht hfree hadmitted => ?_
      subst ht
      exact lowers_slotToMemory hopts hk (hsteady hadmitted) (fun j hj => hfree _ (hclear j hj)) fun m' h => h
    | constant ks bits =>
      refine hm.runs (x := moveConstToMemory (.constant ks bits) bits ks a) hdispatch fun S ht hfree hadmitted => ?_
      subst ht
      exact lowers_constantToMemory hopts (hsteady hadmitted) (fun j hj => hfree _ (hclear j hj)) fun m' h => h
    | _ => cases hvalue
  load {c W k i m kind a r hi} hm hop hin hres hr hk := by
    have hdispatch := dispatch_move hop hin
    rw [hres] at hdispatch
    refine hm.runs (x := loadFromMemory r kind a) hdispatch fun S ht hfree hadmitted => ?_
    subst ht
    have hkeeps : Keeps r := hadmitted.keeps hres hr
    exact lowers_loadValue hopts hk (steady_of_admitted (hadmitted.input hin))
      hkeeps fun m' h => h
  spill {c W k i m kind a slot} hm hop hin hres hk hclear := by
    have hdispatch := dispatch_move hop hin
    rw [hres] at hdispatch
    obtain ⟨hf, hw⟩ := stackStoreOp_stores kind
    refine hm.runs (x := do
      check (!kind.isFloat) fun _ => "cannot move " ++ (Operand.memory kind a).text ++ " to " ++
      (Operand.stack kind slot).text
      loadFromMemory t1 kind a
      Asm.storeOff (stackStoreOp kind) t1 sp (slotBytes slot) t0) hdispatch fun S ht hfree hadmitted => ?_
    subst ht
    have hsteady := steady_of_admitted (hadmitted.input hin)
    refine .bind (lowers_lift fun _ _ => .bind (lowers_loadValue hopts hk hsteady (by decide) fun m1 h₁ => ?_))
    refine lowers_asm (does_spillAfter hf hw (fun j hj => hfree _ (hclear j hj)) ?_
      (fun q h0 h1 => h₁.rest q h1 (by simp [h0, h1])) fun m2 h2 => h2)
    rw [h₁.value, h₁.mem]

/-- An element of an array of ints, too far from its start for a short displacement. -/
def farElement : Address := ⟨.x 11, .x 12, 2, 0x3000⟩

/-- A method that writes an element, spills it, and loads it over the register of the array. -/
def elementTrip : Program where
  name := "p"
  frameSize := 32
  code := #[
    { op := .move, inputs := [.constant .int (-5)], result := .memory .int farElement },
    { op := .move, inputs := [.memory .int farElement], result := .stack .int 1 },
    { op := .move, inputs := [.memory .int farElement], result := .register .int (.x 11) .none },
    { op := .ret }]

/-- A machine with an array at `0x2000` and the index three. -/
def indexing (code : List UInt8) (pc : UInt64) : Machine where
  x n := if n = 2 then 0x8000 else if n = 11 then 0x2000 else if n = 12 then 3 else 0
  f _ := 0
  pc
  mem := Ram.overlay (fun _ => 0) 0x10000 code

/-- The element is minus five in memory, in the slot and in the register. -/
theorem element_goes_round : ∃ method off m', elementTrip.compile baseTarget 0 = .ok method ∧
    elementTrip.placeOf baseTarget 0 0 = .ok off ∧
    World.bare.Reaches (indexing method.blob.code (0x10000 + UInt64.ofNat off)) m' ∧ m'.get (.x 11) = -5 ∧
    m'.mem.read 0x500c 4 = 0xfffffffb ∧ m'.mem.read 0x8004 4 = 0xfffffffb := by
  obtain ⟨method, off, hcompiled, hsize, hoff⟩ : elementTrip.CompilesWithin baseTarget 0 0 0x1000 :=
    .of_checks (by decide +kernel) (by decide +kernel)
  have hmoves := memory_moves (t := baseTarget) (by decide)
  let c : Resident baseTarget := ⟨elementTrip, 0, method, 0x10000, hcompiled, absurd rfl⟩
  have hlow : (0x10000 : UInt64).toNat = 0x10000 := rfl
  have hclear (spot : UInt64) (hspot : spot.toNat + 4 ≤ 0x10000 ∨ 0x11000 ≤ spot.toNat ∧ spot.toNat + 4 < 2 ^ 64) :
      ∀ j < 4, c.Clear (spot + UInt64.ofNat j) := by
    intro j hj
    refine (CodeBlob.clear_iff (show (0x10000 : UInt64).toNat + method.blob.code.length ≤ _ by omega)).mpr ?_
    rw [Spans, toNat_off (by omega)]
    omega
  have hread (mem : Ram) (spot : UInt64) : (mem.write spot 4 (-5)).read spot 4 = 0xfffffffb := by
    apply UInt64.toNat_inj.mp
    rw [Ram.read_write _ _ _ (by decide)]
    rfl
  let m := indexing method.blob.code (0x10000 + UInt64.ofNat off)
  have hbefore : c.Before 0 m := .of_overlay hsize hoff rfl rfl
  have hspot : farElement.eval m = 0x500c := by
    show (0x2000 : UInt64) + (3 : UInt64) <<< (2 : UInt8).toUInt64 + (0x3000 : Int64).toUInt64 = 0x500c
    decide
  obtain ⟨m1, hreach1, hbefore1, h1⟩ := hmoves.store (c := c) (W := World.bare) (m := m) (a := farElement)
    ⟨rfl, fun _ _ => rfl, hbefore⟩ rfl rfl rfl rfl rfl rfl (by rw [hspot]; exact hclear _ (by decide))
  rw [hspot] at h1
  have hspot1 : farElement.eval m1 = 0x500c := by
    rw [← hspot]
    unfold Address.eval
    rw [h1.rest farElement.base (by decide), h1.rest farElement.index (by decide)]
  have hslot1 : m1.get sp + (slotBytes 1).toUInt64 = 0x8004 := by
    rw [h1.rest sp (by decide)]
    rfl
  have hheld1 : m1.mem.read 0x500c 4 = 0xfffffffb := by
    rw [h1.mem]
    exact hread m.mem _
  obtain ⟨m2, hreach2, hbefore2, h2⟩ := hmoves.spill (c := c) (W := World.bare) (m := m1) (a := farElement)
    ⟨rfl, fun _ _ => rfl, hbefore1⟩ rfl rfl (show _ = Operand.stack .int 1 from rfl) rfl
      (by rw [hslot1]; exact hclear _ (by decide))
  rw [hspot1, hslot1] at h2
  have hspot2 : farElement.eval m2 = 0x500c := by
    rw [← hspot1]
    unfold Address.eval
    rw [h2.rest farElement.base (by decide), h2.rest farElement.index (by decide)]
  have hheld2 : m2.mem.read 0x500c 4 = 0xfffffffb := by
    rw [h2.mem, Ram.read_write_off _ _ (by decide) (by decide) (by decide), hheld1]
  obtain ⟨m3, hreach3, -, h3⟩ := hmoves.load (c := c) (W := World.bare) (m := m2) (a := farElement)
    ⟨rfl, fun _ _ => rfl, hbefore2⟩ rfl rfl rfl (by decide) rfl
  rw [hspot2] at h3
  have hloaded : m3.get (.x 11) = ValueKind.int.widened (m2.mem.read 0x500c 4) := h3.value
  have hslot : m2.mem.read 0x8004 4 = 0xfffffffb := by
    have hword : baseTarget.opts.fromHeap .int (m1.mem.read 0x500c 4) = -5 := by
      rw [hheld1]
      decide
    rw [h2.mem]
    exact (congrArg (fun v => (m1.mem.write 0x8004 4 v).read 0x8004 4) hword).trans (hread _ _)
  refine ⟨method, off, m3, hcompiled, hoff, hreach1.trans (hreach2.trans hreach3), ?_, ?_, ?_⟩
  · rw [hloaded, hheld2]
    decide
  · rw [h3.mem, hheld2]
  · rw [h3.mem, hslot]

end RiscvJit
