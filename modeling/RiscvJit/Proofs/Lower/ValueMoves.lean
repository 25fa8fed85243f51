import RiscvJit.Proofs.Lower.ConstantHomes

/-
  RiscvJit.Proofs.Lower.ValueMoves — a value of any kind gets from wherever it is to wherever it can live.

  A value comes from a register, a stack slot, memory or the method itself (`Origin`) and goes to a home of its kind.
  Most of these ways are there, and on each of them the home receives the bits that stand for the value in the width
  of its kind, and nothing else changes but scratch registers (`Options.Receives`). The others, a float that goes to a
  slot by way of an integer register and memory that goes straight to memory, are refused when they are lowered, so of
  what is lowered one statement holds for all (`Site.lowers_move`).
-/

namespace RiscvJit

open Machine (Keeps)
open Reg (sp t0 t1)
open Lower
open Options

/-! ## Origins and homes -/

/-- Where a value of a kind can come from. -/
inductive Origin (k : ValueKind) : Operand → Prop where
  | register (r : Fin 32) (hi : Reg) (file : k.isFloat = false) : Origin k (.register k (.x r) hi)
  | floatRegister (r : Fin 32) (file : k.isFloat = true) : Origin k (.floatRegister k (.f r))
  | slot (n : Nat) : Origin k (.stack k n)
  | constant (bits : UInt64) : Origin k (.constant k bits)
  | memory (a : Address) : Origin k (.memory k a)

/-- The bits that stand for the value of an operand. -/
def Options.bitsOf (o : Options) (m : Machine) : Operand → UInt64
  | .register _ r _ | .floatRegister _ r => m.get r
  | .stack k n => m.mem.read (m.get sp + (Location.slotBytes n).toUInt64) k.slotBytes
  | .constant _ bits => bits
  | .memory k a => o.fromHeap k (m.mem.read (a.eval m) (o.heapBytes k))
  | .absent => 0

/-- A register holds a word that stands for a value of its kind: an int with its sign, a single in its box. -/
def Operand.Held (m : Machine) : Operand → Prop
  | .register k r _ => Operand.constantWord k (m.get r) = m.get r
  | .floatRegister k r => k.floatWord (m.get r) = m.get r
  | _ => True

/-- The home holds these bits; else scratch registers may have changed. -/
def Options.Receives (o : Options) (k : ValueKind) (bits : UInt64) (m m' : Machine) : Operand → Prop
  | .register _ r _ => Put r [t0, t1] (Operand.constantWord k bits) m m'
  | .floatRegister _ r => Put r [t0, t1] (k.floatWord bits) m m'
  | .stack _ n => Site.Stored [t0, t1] (m.get sp + (Location.slotBytes n).toUInt64) k.slotBytes bits m m'
  | .memory _ a => Site.Stored [t0, t1] (a.eval m) (o.heapBytes k) (o.heapImage k bits) m m'
  | _ => False

/-! ## Instructions by kind -/

variable {v : UInt64}

theorem and_low_word (h : v.toNat < 2 ^ 32) : v &&& 0xffffffff = v := by
  apply UInt64.toNat_inj.mp
  rw [UInt64.toNat_and, show UInt64.toNat 0xffffffff = 2 ^ 32 - 1 from rfl,
    Nat.and_two_pow_sub_one_eq_mod, Nat.mod_eq_of_lt h]

/-- A number without the sign bit of an int is the int. -/
theorem sext_small (h : v.toNat < 2 ^ 31) : sext v.toUInt32 = v := by
  have hlow : v.toUInt32.toNat = v.toNat := by rw [UInt64.toNat_toUInt32, Nat.mod_eq_of_lt (by omega)]
  apply UInt64.toNat_inj.mp
  have := toNat_sext v.toUInt32
  omega

/-- A number of 32 bits is its low word. -/
theorem low_word_small (h : v.toNat < 2 ^ 32) : v.toUInt32.toUInt64 = v := by
  apply UInt64.toNat_inj.mp
  rw [UInt32.toNat_toUInt64, UInt64.toNat_toUInt32]
  exact Nat.mod_eq_of_lt h

namespace Lower

variable {k : ValueKind}

/-- A slot is loaded as the word of its kind. -/
theorem stackLoadOp_integral (hk : k.Integral = true) : (stackLoadOp k).info.format = .load ∧
    (stackLoadOp k).width = some k.slotBytes ∧ ∀ raw : UInt64, raw.toNat < 2 ^ (8 * k.slotBytes) →
      (stackLoadOp k).extend raw = Operand.constantWord k raw := by
  cases k <;> first
    | exact ⟨rfl, rfl, fun raw _ => rfl⟩
    | exact ⟨rfl, rfl, fun raw hraw => (low_word_small hraw).symm⟩
    | cases hk

/-- A slot of a float is loaded in its width. -/
theorem stackLoadOp_float (hk : k.isFloat = true) :
    (stackLoadOp k).info.format = .load ∧ (stackLoadOp k).width = some k.slotBytes ∧
      ∀ raw : UInt64, raw.toNat < 2 ^ (8 * k.slotBytes) → (stackLoadOp k).extend raw = k.floatWord raw := by
  cases k with
  | float => exact ⟨rfl, rfl, fun raw hraw => congrArg boxed (and_low_word hraw).symm⟩
  | double => exact ⟨rfl, rfl, fun _ _ => rfl⟩
  | _ => cases hk

/-- A float in memory is loaded and stored in its width. -/
theorem memOps_float (hk : k.isFloat = true) :
    (∃ o, memLoadOp k = .ok o ∧ o.info.format = .load ∧ o.width = some k.size ∧
      ∀ raw : UInt64, raw.toNat < 2 ^ (8 * k.size) → o.extend raw = k.floatWord raw) ∧
    ∃ o, memStoreOp k = .ok o ∧ o.info.format = .store ∧ o.width = some k.size ∧ o.info.rs2 = .float := by
  cases k with
  | float =>
    exact ⟨⟨_, rfl, rfl, rfl, fun raw hraw => congrArg boxed (and_low_word hraw).symm⟩, _,
      rfl, rfl, rfl, rfl⟩
  | double => exact ⟨⟨_, rfl, rfl, rfl, fun _ _ => rfl⟩, _, rfl, rfl, rfl, rfl⟩
  | _ => cases hk

end Lower

namespace Site

variable {S : Site} {m : Machine} {E : Exits} {Q : Unit → Machine → Prop}

/-- There is no store of an integer register in the place of a float register. -/
theorem does_misstore {o : Op} {src base : Reg} {off : Int64} (hf : o.info.rs2 = .float) (hs : src.isFloat = false) :
    S.Does (Asm.store o src base off) m E Q := by
  intro a _ a' hrun
  obtain ⟨_, b, -, hemit⟩ := Asm.bind_eq_ok.mp hrun
  have hclass := (checkClasses_eq_ok (Asm.emit_eq_ok.mp hemit).1).2.2
  rw [hf, Asm.checkClass] at hclass
  cases hs.symm.trans (check_eq_ok.mp hclass)

theorem lowers_refused {x : Lower Unit} {e : Fault} (h : Refuses x e) : S.Lowers x m E Q := by
  intro s a p a' hrun
  obtain ⟨hx, -⟩ := asmFrom_eq_ok.mp hrun
  cases (h _ _).symm.trans hx

end Site

/-! ## What is in memory is in its width -/

namespace Options

variable {o : Options} {k : ValueKind}

theorem compresses_float (hk : k.isFloat = true) : o.compresses k = false := by
  cases k <;> first | rfl | cases hk

theorem heapBytes_float (hk : k.isFloat = true) : o.heapBytes k = k.size := by
  rw [heapBytes, compresses_float hk, if_neg Bool.false_ne_true]

/-- A value from the heap is the word of its kind. -/
theorem constantWord_fromHeap (mem : Ram) (addr : UInt64) (hk : k.Integral = true) :
    Operand.constantWord k (o.fromHeap k (mem.read addr (o.heapBytes k))) = o.fromHeap k
    (mem.read addr (o.heapBytes k)) := by
  unfold fromHeap heapBytes
  cases hc : o.compresses k with
  | true => cases k <;> first | rfl | cases hc
  | false =>
    simp only [Bool.false_eq_true, if_false]
    have hlt {n : Nat} (hn : n ≤ 8) := mem.toNat_read_lt addr hn
    cases k with
    | boolean => exact sext_small (Nat.lt_trans (hlt (n := 1) (by decide)) (by decide))
    | char => exact sext_small (Nat.lt_trans (hlt (n := 2) (by decide)) (by decide))
    | byte | short =>
      refine (sext_toUInt32 _).trans ?_
      simp [ValueKind.widened]
    | int => exact congrArg sext (toUInt32_sext _)
    | narrowOop | narrowKlass => exact low_word_small (hlt (n := 4) (by decide))
    | _ => rfl

end Options

/-! ## Moves -/

namespace Site

variable {S : Site} {m : Machine} {E : Exits} {k : ValueKind} {Q : Unit → Machine → Prop} {src dst : Operand}
  (hopts : S.target.opts.refusal? = none) (hk : k.Integral = true ∨ k.isFloat = true) (hdst : Home k dst)
  (hadm : dst.Admitted)
  (hfree : ∀ addr, S.target.opts.Occupies m dst addr → S.Free addr)
  (h : ∀ m', S.target.opts.Receives k (S.target.opts.bitsOf m src) m m' dst → Q () m')
include hopts hk hdst hadm hfree h

theorem lowers_fromRegister {r : Fin 32} {hi : Reg} (hsrc : src = .register k (.x r) hi) (hs : src.Admitted)
    (hheld : src.Held m)
    (hfile : k.isFloat = false) : S.Lowers (move src dst) m E Q := by
  subst hsrc
  have hint : k.Integral = true := hk.resolve_right (by rw [hfile]; decide)
  cases hdst with
  | register r' hi' kept file =>
    exact lowers_asm (does_mv (fun m' h' => h m' ⟨h'.value.trans hheld.symm, fun q hq _ =>
      h'.other q hq, h'.mem⟩) (Machine.keeps_x kept))
  | floatRegister r' file => cases hfile.symm.trans file
  | slot n =>
    obtain ⟨hf, hw⟩ := stackStoreOp_stores k
    exact lowers_asm (does_storeOff hf hw (by decide) (fun j hj => hfree _ ⟨j, hj, rfl⟩) fun m' h' =>
      h m' ⟨h'.mem, fun q hq => h'.rest q (by simp_all)⟩)
  | memory a base index =>
    exact lowers_storeValue hopts hint (steady_of_admitted hadm) hs.ne_scratch (fun j hj => hfree _ ⟨j, hj, rfl⟩) h

omit hopts hk in
theorem lowers_fromFloatRegister {r : Fin 32} (hsrc : src = .floatRegister k (.f r)) (hheld : src.Held m)
    (hfile : k.isFloat = true) :
    S.Lowers (move src dst) m E Q := by
  subst hsrc
  cases hdst with
  | register r' hi' kept file => cases hfile.symm.trans file
  | floatRegister r' file =>
    exact lowers_asm (does_mv (fun m' h' => h m' ⟨h'.value.trans hheld.symm, fun q hq _ =>
      h'.other q hq, h'.mem⟩) ⟨nofun, nofun⟩)
  | slot n =>
    obtain ⟨hf, hw⟩ := stackStoreOp_stores k
    exact lowers_asm (does_storeOff hf hw (by decide) (fun j hj => hfree _ ⟨j, hj, rfl⟩) fun m' h' =>
      h m' ⟨h'.mem, fun q hq => h'.rest q (by simp_all)⟩)
  | memory a base index =>
    obtain ⟨-, o, ho, hf, hw, -⟩ := memOps_float hfile
    have hbytes := heapBytes_float (o := S.target.opts) hfile
    have hsteady := steady_of_admitted hadm
    refine .bind (lowers_asm (does_legitimize hsteady.spared fun b d m1 h1 =>
      .bind (lowers_lift fun o' ho' => lowers_asm ?_)))
    obtain rfl : o = o' := Except.ok.inj (ho.symm.trans ho')
    rw [← hbytes] at hw
    refine does_storeAfter hf hw h1.value (fun j hj => hfree _ ⟨j, hj, rfl⟩) ?_ h1.rest h
    rw [h1.mem, h1.rest (.f r) nofun nofun, heapImage, compresses_float hfile, if_neg Bool.false_ne_true]
    rfl

set_option synthInstance.maxSize 512 in
theorem lowers_fromSlot {n : Nat} (hsrc : src = .stack k n) : S.Lowers (move src dst) m E Q := by
  subst hsrc
  have hraw : (m.mem.read (m.get sp + (Location.slotBytes n).toUInt64) k.slotBytes).toNat < 2 ^ (8 * k.slotBytes) :=
    m.mem.toNat_read_lt _ (by unfold ValueKind.slotBytes; split <;> decide)
  cases hdst with
  | register r' hi' kept file =>
    have hint : k.Integral = true := hk.resolve_right (by rw [file]; decide)
    obtain ⟨hf, hw, hextend⟩ := stackLoadOp_integral hint
    have hkeeps : Keeps (.x r') := Machine.keeps_x kept
    exact lowers_asm (does_loadOff hf hw hkeeps hkeeps fun m' h' =>
      h m' ⟨h'.value.trans (hextend _ hraw), fun q hq _ => h'.rest q hq (by simpa using hq), h'.mem⟩)
  | floatRegister r' file =>
    obtain ⟨hf, hw, hextend⟩ := stackLoadOp_float file
    exact lowers_asm (does_loadOff hf hw ⟨nofun, nofun⟩ (by decide) fun m' h' =>
      h m' ⟨h'.value.trans (hextend _ hraw), fun q hq ht => h'.rest q hq (by simp_all), h'.mem⟩)
  | slot n' =>
    obtain ⟨hf, hw, hextend⟩ := slotLoad_integral k
    refine .bind (lowers_asm (does_loadOff hf hw (by decide) (by decide) fun m1 h₁ => lowers_asm ?_))
    have hstore : (if k.is64 then Op.sd else .sw).info.format = .store ∧
        (if k.is64 then Op.sd else .sw).width = some k.slotBytes := by
      unfold ValueKind.slotBytes
      split <;> exact ⟨rfl, rfl⟩
    refine does_spillAfter hstore.1 hstore.2 (fun j hj => hfree _ ⟨j, hj, rfl⟩) ?_
      (fun q _ h1 => h₁.rest q h1 (by simpa using h1)) h
    rw [h₁.mem, h₁.value]
    exact Ram.write_slot _ _ (hextend _).1 (hextend _).2
  | memory a base index =>
    rcases hk with hint | hfile
    · exact lowers_slotToMemory hopts hint (steady_of_admitted hadm) (fun j hj => hfree _ ⟨j, hj, rfl⟩) h
    · -- the value would be stored from t1
      obtain ⟨-, o, ho, -, -, hfloat⟩ := memOps_float hfile
      have hsteady := steady_of_admitted hadm
      obtain ⟨hf, hw, -⟩ := slotLoad_integral k
      show S.Lowers (moveStackToMemory _ k _ _ k a) m E Q
      unfold moveStackToMemory
      refine .bind (lowers_lift fun _ _ => .bind (lowers_compresses ?_))
      rw [compresses_float hfile, if_neg Bool.false_ne_true]
      refine .bind (lowers_asm (does_legitimize hsteady.spared fun b d m1 _ => ?_))
      refine .bind (lowers_asm (does_loadOff hf hw (by decide) (by decide) fun m2 _ =>
        .bind (lowers_lift fun o' ho' => ?_)))
      obtain rfl : o = o' := Except.ok.inj (ho.symm.trans ho')
      exact lowers_asm (does_misstore hfloat rfl)

omit hk in
theorem lowers_fromConstant {bits : UInt64} (hsrc : src = .constant k bits) : S.Lowers (move src dst) m E Q := by
  subst hsrc
  cases hdst with
  | register r' hi' kept file =>
    exact lowers_constToReg (Machine.keeps_x kept) fun m' h' => h m' ⟨h'.value, fun q hq _ => h'.other q hq, h'.mem⟩
  | floatRegister r' file =>
    exact lowers_constToFloat fun m' h' => h m' ⟨h'.value, fun q hq ht => h'.rest q hq (by simp_all), h'.mem⟩
  | slot n => exact lowers_constToSlot (fun j hj => hfree _ ⟨j, hj, rfl⟩) h
  | memory a base index =>
    exact lowers_constantToMemory hopts (steady_of_admitted hadm) (fun j hj => hfree _ ⟨j, hj, rfl⟩) h

theorem lowers_fromMemory {a : Address} (hsrc : src = .memory k a) (hs : src.Admitted) :
    S.Lowers (move src dst) m E Q := by
  subst hsrc
  have hsteady := steady_of_admitted hs
  cases hdst with
  | register r' hi' kept file =>
    have hint : k.Integral = true := hk.resolve_right (by rw [file]; decide)
    exact lowers_loadValue hopts hint hsteady (Machine.keeps_x kept) fun m' h' =>
      h m' ⟨h'.value.trans (constantWord_fromHeap _ _ hint).symm, h'.rest, h'.mem⟩
  | floatRegister r' file =>
    obtain ⟨⟨o, ho, hf, hw, hextend⟩, -⟩ := memOps_float file
    refine .bind (lowers_asm (does_legitimize hsteady.spared fun b d m1 h₁ =>
      .bind (lowers_lift fun o' ho' => lowers_asm ?_)))
    obtain rfl : o = o' := Except.ok.inj (ho.symm.trans ho')
    refine does_load hf hw ⟨nofun, nofun⟩ fun m2 h2 => h m2 ⟨?_, fun q hq ht => ?_, h2.mem.trans h₁.mem⟩
    · rw [h2.value, h₁.value, h₁.mem, hextend _ (m.mem.toNat_read_lt _ (by cases k <;> first | decide | cases file))]
      show _ = k.floatWord (S.target.opts.fromHeap k _)
      rw [fromHeap, heapBytes_float file, compresses_float file, if_neg Bool.false_ne_true]
      cases k <;> first | rfl | cases file
    · obtain ⟨h0, h1⟩ : q ≠ t0 ∧ q ≠ t1 := by simpa using ht
      rw [h2.other q hq, h₁.rest q h0 h1]
  | slot n =>
    refine .bind (lowers_lift fun _ hplain => ?_)
    have hint : k.Integral = true := hk.resolve_right (by simpa using check_eq_ok.mp hplain)
    obtain ⟨hf, hw⟩ := stackStoreOp_stores k
    refine .bind (lowers_loadValue hopts hint hsteady (by decide) fun m1 h₁ => ?_)
    refine lowers_asm (does_spillAfter hf hw (fun j hj => hfree _ ⟨j, hj, rfl⟩) ?_
      (fun q h0 h1 => h₁.rest q h1 (by simp [h0, h1])) h)
    rw [h₁.value, h₁.mem]
    rfl
  | memory a' base index => exact lowers_refused fun _ _ => rfl

/-- A value gets from where it is to its new home. -/
theorem lowers_move (hsrc : Origin k src) (hs : src.Admitted) (hheld : src.Held m) : S.Lowers (move src dst) m E Q := by
  cases hsrc with
  | register r hi file => exact lowers_fromRegister hopts hk hdst hadm hfree h rfl hs hheld file
  | floatRegister r file => exact lowers_fromFloatRegister hdst hadm hfree h rfl hheld file
  | slot n => exact lowers_fromSlot hopts hk hdst hadm hfree h rfl
  | constant bits => exact lowers_fromConstant hopts hdst hadm hfree h rfl
  | memory a => exact lowers_fromMemory hopts hk hdst hadm hfree h rfl hs

end Site

end RiscvJit
