import RiscvJit.Proofs.Lower.HeapReferences
import RiscvJit.Proofs.Lower.SlowPaths

/-
  RiscvJit.Proofs.Lower.CompressedFields — compiled methods agree on what is in a compressed field.

  A field of the heap holds the number of a reference. Instructions that move a reference there write
  this number, wherever they take the reference from; those that move it from there, and an exchange,
  find the reference again (`FieldsAgree`). Type descriptors in the headers of objects are likewise found
  again by whoever loads them.
-/

namespace RiscvJit

open Machine (Keeps)
open Reg (sp t0 t1)
open Site
open Lower
open Asm

/-! ## Code without a barrier at its end -/

namespace Asm

/-- What expands a reference writes nothing, or ends with an instruction or a label. -/
theorem mergeable_decodeHeapOop {rd tmp : Reg} {t : Target} {a a' : Assembler} {r : Unit} (hb : a.Behind)
    (ha : a.mergeable? = none)
    (h : decodeHeapOop rd tmp t a = .ok (r, a')) : a'.mergeable? = none := by
  unfold decodeHeapOop at h
  obtain ⟨o, b, ho, h⟩ := bind_eq_ok.mp h
  cases ho
  split at h
  · cases h
    exact ha
  split at h
  · split at h
    · exact mergeable_none_of_spaced (spaces_emit _ _ _ _ hb h)
    · cases h
      exact ha
  · obtain ⟨_, _, -, h⟩ := bind_eq_ok.mp h
    obtain ⟨_, _, -, h⟩ := bind_eq_ok.mp h
    obtain ⟨_, _, -, h⟩ := bind_eq_ok.mp h
    obtain ⟨_, _, -, h⟩ := bind_eq_ok.mp h
    obtain ⟨_, _, -, h⟩ := bind_eq_ok.mp h
    obtain ⟨_, _, -, h⟩ := bind_eq_ok.mp h
    exact mergeable_none_of_bound (lastBind_bindLabel h)

end Asm

namespace Lower

/-- A reference is expanded after an instruction. -/
theorem seals_decodeHeapOop {x : Lower Unit} [hx : Seals x] [htraced : Traced x] (rd tmp : Reg) :
    Seals (x >>= fun _ => (liftM (decodeHeapOop rd tmp) : Lower Unit)) where
  seals hb h := by
    obtain ⟨r, s1, hr, hrest⟩ := bind_eq_ok.mp h
    obtain ⟨_, htrace⟩ := htraced.trace hb hr
    obtain ⟨a, ha, rfl⟩ := asm_eq_ok.mp hrest
    exact mergeable_decodeHeapOop (htrace.behind hb) (hx.seals hb hr) ha

variable {src : Operand} (k : ValueKind) (a : Address)

instance seals_storeToMemory (r : Reg) : Seals (storeToMemory r k a) := by
  unfold storeToMemory
  infer_instance

instance seals_moveStackToMemory (off : Int64) (dst : Operand) (dk : ValueKind) :
    Seals (moveStackToMemory src k off dst dk a) := by
  unfold moveStackToMemory
  infer_instance

instance seals_moveConstToMemory (bits : UInt64) : Seals (moveConstToMemory src bits k a) := by
  unfold moveConstToMemory
  infer_instance

instance seals_loadFromMemory (rd : Reg) : Seals (loadFromMemory rd k a) := by
  have (base : Reg) (disp : Int64) : Seals (liftM (lwu rd base disp) : Lower Unit) := seals_load ..
  have (tmp base : Reg) (disp : Int64) := seals_decodeHeapOop (x := (liftM (lwu rd base disp) : Lower Unit)) rd tmp
  unfold loadFromMemory
  infer_instance

instance seals_exchange (res val addr : Reg) : Seals (exchange k res val addr) := by
  have : Seals (liftM (srli res res 32) : Lower Unit) := seals_emit ..
  have := seals_decodeHeapOop (x := (liftM (srli res res 32) : Lower Unit)) res t0
  have (o : Op) (src : Reg) : Seals (liftM (amo o res src addr acquireRelease) : Lower Unit) := seals_emit ..
  unfold exchange
  infer_instance

/-! ## Instructions -/

theorem lift_ok_bind {α β : Type} (r : α) (f : α → Lower β) :
    ((liftM (Except.ok r : Except Fault α) : Lower α) >>= f) = f r := rfl

theorem dispatch_move {i : Instruction} (hop : i.op = .move) (hin : i.inputs[0]? = some src) :
    dispatch i = move src i.result := by
  rw [dispatch.eq_def]
  simp only [hop, input_eq_ok.mpr hin, lift_ok_bind]

theorem dispatch_xchg {i : Instruction} {o : Operand} {ka kr : ValueKind} {addr hia res hir : Reg} (hop : i.op = .xchg)
    (hin : i.inputs[0]? = some (Operand.register ka addr hia)) (hin' : i.inputs[1]? = some o)
    (hres : i.result = .register kr res hir) :
    dispatch i = srcReg o t1 >>= fun val => exchange o.kind res val addr := by
  rw [dispatch.eq_def]
  simp only [hop]
  rw [atomicUpdate]
  simp only [hop, input_eq_ok.mpr hin, input_eq_ok.mpr hin', hres, reg_register, lift_ok_bind]
  rfl

end Lower

/-! ## Fields of the heap -/

/-- Routes of a reference through a field, and of a type descriptor through a header. -/
structure FieldsAgree (t : Target) : Prop where
  /-- From wherever it comes, a reference leaves its number in the field, and no other byte is written. -/
  store : ∀ {c : Resident t} {W : World} {k : Nat} {i : Instruction} {m : Machine} {src : Operand}
    {kd : ValueKind} {a : Address} {p : UInt64} {n : UInt32}, c.Facing W k i m → i.op = .move →
    i.inputs[0]? = some src → i.result = .memory kd a →
    isOop kd = true → src.Holds m p → t.opts.Numbers p n → (∀ j < 4, c.Clear (a.eval m + UInt64.ofNat j)) →
    c.Runs W k m (Stored [t0, t1] (a.eval m) 4 n.toUInt64 m)
  /-- The reference is found again by a move to a register. -/
  load : ∀ {c : Resident t} {W : World} {k : Nat} {i : Instruction} {m : Machine} {kd kr : ValueKind}
    {a : Address} {r : Fin 32} {hi : Reg} {p : UInt64} {n : UInt32}, c.Facing W k i m → i.op = .move →
    i.inputs[0]? = some (Operand.memory kd a) →
    i.result = .register kr (.x r) hi → isOop kd = true → t.opts.Numbers p n → m.mem.read (a.eval m) 4 = n.toUInt64 →
    c.Runs W k m (Put (.x r) [t0, t1] p m)
  /-- So it is by a move to a stack slot. -/
  spill : ∀ {c : Resident t} {W : World} {k : Nat} {i : Instruction} {m : Machine} {kd ks : ValueKind}
    {a : Address} {slot : Nat}
    {p : UInt64} {n : UInt32}, c.Facing W k i m → i.op = .move → i.inputs[0]? = some (Operand.memory kd a) →
    i.result = .stack ks slot → isOop kd = true → isOop ks = true → t.opts.Numbers p n →
    m.mem.read (a.eval m) 4 = n.toUInt64 → (∀ j < 8, c.Clear
    (m.get sp + (Location.slotBytes slot).toUInt64 + UInt64.ofNat j)) →
    c.Runs W k m (Stored [t0, t1] (m.get sp + (Location.slotBytes slot).toUInt64) 8 p m)
  /-- An exchange finds it, and leaves the number of another. -/
  exchange : ∀ {c : Resident t} {W : World} {k : Nat} {i : Instruction} {m : Machine} {ka kr : ValueKind}
    {addr hia hir : Reg} {src : Operand} {r : Fin 32} {p q : UInt64} {n n' : UInt32}, c.Facing W k i m → i.op = .xchg →
    i.inputs[0]? = some (Operand.register ka addr hia) → i.inputs[1]? = some src → i.result = .register kr (.x r) hir →
    isOop src.kind = true → src.Holds m q → t.opts.Numbers p n → t.opts.Numbers q n' →
    m.mem.read (m.get addr) 4 = n.toUInt64 → (∀ j < 4, c.Clear (m.get addr + UInt64.ofNat j)) →
    c.Runs W k m fun m' => m'.get (.x r) = p ∧ Stored [.x r, t0, t1] (m.get addr) 4 n'.toUInt64 m m'
  /-- A type descriptor is found again in the header of an object, as long as nobody writes there. -/
  klass : ∀ {S S' : Site} {obj klass tmp obj' dst tmp' : Reg} {m : Machine} {n : UInt32}, S.target = t → S'.target = t →
    Keeps tmp → tmp ≠ obj → Keeps dst → Keeps tmp' → tmp' ≠ dst →
    m.get klass = t.opts.klassBase + n.toUInt64 <<< t.opts.klassShift.toUInt64 →
    (∀ j < t.opts.klassBytes, S.Free (m.get obj + 8 + UInt64.ofNat j)) →
    S.Does (storeKlass obj klass tmp) m .none fun _ m1 => ∀ m2, m2.get obj' = m.get obj →
      (∀ j < t.opts.klassBytes, m2.mem (m.get obj + 8 + UInt64.ofNat j) = m1.mem (m.get obj + 8 + UInt64.ofNat j)) →
      S'.Does (loadKlass dst obj' tmp') m2 .none fun _ m' => Put dst [tmp'] (m.get klass) m2 m'

/-- Every route of a reference through a compressed field leads back to it. -/
theorem references_survive_compression {t : Target} (hopts : t.opts.refusal? = none) (hc : t.opts.compressedOops = true) :
    FieldsAgree t where
  store {c W k i m src kd a p n} hm hop hin hres hk hv hp hclear := by
    have hdispatch := dispatch_move hop hin
    have hsrc : src ∈ i.inputs := List.mem_of_getElem? hin
    have hsteady (h : i.Admitted) : a.Steady := steady_of_admitted (k := kd) (hres ▸ h.result)
    have hnarrow : t.opts.narrow p = n.toUInt64 := hp.narrow (Options.oopShift_le hopts)
    rw [hres] at hdispatch
    cases src with
    | register ks r hi =>
      refine hm.runs (x := storeToMemory r kd a) hdispatch fun S ht hfree hadmitted => ?_
      subst ht
      by_cases hr : r = t0 ∨ r = t1
      · rcases hadmitted.inputs _ hsrc with e | hr'
        · rw [e] at hr
          exact absurd hr (by decide)
        · have := ne_scratch hr'
          exact absurd hr (by simp [this])
      · exact lowers_storeToMemory hopts hc hk (hsteady hadmitted) (by simpa using hr) (fun j hj => hfree _ (hclear j hj))
          fun m' h => by rwa [show m.get r = p from hv, hnarrow] at h
    | stack ks slot =>
      refine hm.runs (x := moveStackToMemory (.stack ks slot) ks (Location.slotBytes slot) (.memory kd a) kd a) hdispatch
        fun S ht hfree hadmitted => ?_
      subst ht
      exact lowers_moveStackToMemory hopts hc hk (hsteady hadmitted) (fun j hj => hfree _ (hclear j hj))
        fun m' h => by rwa [show m.mem.read _ 8 = p from hv, hnarrow] at h
    | constant ks bits =>
      obtain rfl : bits = p := hv
      refine hm.runs (x := moveConstToMemory (.constant ks bits) bits kd a) hdispatch fun S ht hfree hadmitted => ?_
      subst ht
      exact lowers_moveConstToMemory hopts hc hk (hsteady hadmitted) (fun j hj => hfree _ (hclear j hj))
        fun m' h => by rwa [hnarrow] at h
    | _ => exact hv.elim
  load {c W k i m kd kr a r hi p n} hm hop hin hres hk hp hv := by
    have hdispatch := dispatch_move hop hin
    rw [hres] at hdispatch
    refine hm.runs (x := loadFromMemory (.x r) kd a) hdispatch fun S ht hfree hadmitted => ?_
    subst ht
    have hkeeps : Keeps (.x r) := hadmitted.keeps hres nofun
    exact lowers_loadFromMemory hopts hc hk (steady_of_admitted (hadmitted.input hin)) hkeeps
      fun m' h => by rwa [hv, hp.expanded (Options.oopShift_le hopts) hc] at h
  spill {c W k i m kd ks a slot p n} hm hop hin hres hk hks hp hv hclear := by
    have hdispatch := dispatch_move hop hin
    rw [hres] at hdispatch
    have hstore : stackStoreOp ks = .sd := by cases ks <;> first | rfl | cases hks
    refine hm.runs (x := do
      check (!kd.isFloat) fun _ => "cannot move " ++ (Operand.memory kd a).text ++ " to " ++ (Operand.stack ks slot).text
      loadFromMemory t1 kd a
      storeOff (stackStoreOp ks) t1 sp (Location.slotBytes slot) t0) hdispatch fun S ht hfree hadmitted => ?_
    subst ht
    have hsteady := steady_of_admitted (hadmitted.input hin)
    rw [hstore]
    refine .bind (lowers_lift fun _ _ => .bind (lowers_loadFromMemory hopts hc hk hsteady (by decide) fun m1 h₁ => ?_))
    rw [hv, hp.expanded (Options.oopShift_le hopts) hc] at h₁
    refine lowers_asm (does_spillAfter rfl rfl (fun j hj => hfree _ (hclear j hj)) ?_
      (fun q h0 h1 => h₁.rest q h1 (by simp [h0, h1])) fun m2 h2 => h2)
    rw [h₁.value, h₁.mem]
  exchange {c W k i m ka kr addr hia hir src r p q n n'} hm hop hin hin' hres hk hv hp hq hold hclear := by
    refine hm.runs (dispatch_xchg hop hin hin' hres) fun S ht hfree hadmitted => ?_
    subst ht
    have hkeeps : Keeps (.x r) := hadmitted.keeps hres nofun
    have hresult : (Reg.x r).isReserved = false := by
      have h := hadmitted.result
      rw [hres] at h
      exact h.resolve_left hkeeps.1
    have haddr : addr ≠ t0 ∧ addr ≠ t1 := by
      rcases hadmitted.input hin with e | h
      · rw [e]
        decide
      · exact ne_scratch h
    refine .bind (lowers_srcReg hk (hadmitted.inputs _ (List.mem_of_getElem? hin')) hv fun val m1 _ hv1 hrest hmem => ?_)
    have hbase : m1.get addr = m.get addr := hrest addr haddr.2
    refine lowers_exchange hopts hc hk hp hq hkeeps (ne_scratch hresult).1 haddr hv1 (by rwa [hbase, hmem])
      (fun j hj => hfree _ (by rw [hbase]; exact hclear j hj)) fun m2 hm2 h2 => ⟨hm2, ?_, fun s hs => ?_⟩
    · rw [h2.mem, hbase, hmem]
    · have hs1 : s ≠ t1 := fun e => hs (by simp [e])
      rw [h2.rest s hs, hrest s hs1]
  klass {S S' obj klass tmp obj' dst tmp' m n} ht ht' htmp hobj hd htmp' hdst hk hfree := by
    subst ht
    refine does_storeKlass hopts htmp hobj hfree fun m1 h₁ m2 hobj' hsame => ?_
    rw [← ht'] at hopts
    refine does_loadKlass hopts hd htmp' hdst fun m3 h3 => ?_
    have hfound : S'.target.opts.klassAt m2.mem (m2.get obj') = m.get klass := by
      rw [ht', hobj', klassAt_congr hsame, h₁.mem, klassAt_stored (Options.klassShift_le (by rwa [ht'] at hopts)) hk]
    rwa [hfound] at h3

/-- References are eight bytes apart and start at a base. -/
def baseTarget : Target := ⟨{ oopBase := 0x10000000 }, .empty⟩

/-- A method that puts a reference into a field, loads it again and exchanges it for a constant. -/
def roundTrip : Program where
  name := "p"
  frameSize := 32
  code := #[
    { op := .move, inputs := [.register .object (.x 10) .none], result := .memory .object (.ofBase (.x 11) 8) },
    { op := .move, inputs := [.memory .object (.ofBase (.x 11) 8)], result := .register .object (.x 12) .none },
    { op := .xchg, inputs := [.register .address (.x 13) .none, .constant .object 0x10000040],
      result := .register .object (.x 14) .none },
    { op := .ret }]

/-- A machine with a reference in x10 and an object at `0x2000`. -/
def carrying (code : List UInt8) (pc : UInt64) : Machine where
  x n := if n = 10 then 0x10000028 else if n = 11 then 0x2000 else if n = 13 then 0x2008 else 0
  f _ := 0
  pc
  mem := Ram.overlay (fun _ => 0) 0x10000 code

/-- The reference comes back from the field twice, and its number makes room for that of the constant. -/
theorem reference_goes_round : ∃ method off m', roundTrip.compile baseTarget 0 = .ok method ∧
    roundTrip.placeOf baseTarget 0 0 = .ok off ∧
    World.bare.Reaches (carrying method.blob.code (0x10000 + UInt64.ofNat off)) m' ∧ m'.get (.x 12) = 0x10000028 ∧
    m'.get (.x 14) = 0x10000028 ∧ m'.mem.read 0x2008 4 = 8 := by
  obtain ⟨method, off, hcompiled, hsize, hoff⟩ : roundTrip.CompilesWithin baseTarget 0 0 0x1000 :=
    .of_checks (by decide +kernel) (by decide +kernel)
  have hagree := references_survive_compression (t := baseTarget) (by decide) (by decide)
  let c : Resident baseTarget := ⟨roundTrip, 0, method, 0x10000, hcompiled, absurd rfl⟩
  have hlow : (0x10000 : UInt64).toNat = 0x10000 := rfl
  have hclear : ∀ j < 4, c.Clear (0x2008 + UInt64.ofNat j) := by
    intro j hj
    refine (CodeBlob.clear_iff (show (0x10000 : UInt64).toNat + method.blob.code.length ≤ _ by omega)).mpr ?_
    have hspot : (0x2008 + UInt64.ofNat j).toNat = 0x2008 + j := toNat_off (a := 0x2008) (by show 0x2008 + j < _; omega)
    rw [Spans, hspot]
    omega
  have hread (mem : Ram) (v : UInt32) : (mem.write 0x2008 4 v.toUInt64).read 0x2008 4 = v.toUInt64 := by
    apply UInt64.toNat_inj.mp
    rw [Ram.read_write _ _ _ (by decide)]
    exact Nat.mod_eq_of_lt v.toNat_lt
  have hp : baseTarget.opts.Numbers 0x10000028 5 := by decide
  have hq : baseTarget.opts.Numbers 0x10000040 8 := by decide
  let m := carrying method.blob.code (0x10000 + UInt64.ofNat off)
  have hbefore : c.Before 0 m := .of_overlay hsize hoff rfl rfl
  have hsource : (Operand.register .object (.x 10) .none).Holds m 0x10000028 := rfl
  have hfield : (Address.ofBase (.x 11) 8).eval m = 0x2008 := rfl
  obtain ⟨m1, hreach1, hbefore1, h1⟩ := hagree.store (c := c) (W := World.bare) (m := m) (a := .ofBase (.x 11) 8)
    ⟨rfl, fun _ _ => rfl, hbefore⟩ rfl rfl rfl rfl hsource hp (by rw [hfield]; exact hclear)
  rw [hfield] at h1
  have hfield1 : (Address.ofBase (.x 11) 8).eval m1 = 0x2008 := by
    rw [Address.eval, show (Address.ofBase (.x 11) 8).base = .x 11 from rfl, h1.rest _ (by decide)]
    rfl
  have hheld1 : m1.mem.read 0x2008 4 = UInt32.toUInt64 5 := by rw [h1.mem, hread]
  obtain ⟨m2, hreach2, hbefore2, h2⟩ := hagree.load (c := c) (W := World.bare) (m := m1)
    ⟨rfl, fun _ _ => rfl, hbefore1⟩ rfl rfl rfl rfl hp (by rw [hfield1, hheld1])
  have haddr2 : m2.get (.x 13) = 0x2008 := by
    rw [h2.rest _ (by decide) (by decide), h1.rest _ (by decide)]
    rfl
  have hconstant : (Operand.constant .object 0x10000040).Holds m2 0x10000040 := rfl
  obtain ⟨m3, hreach3, -, hv, h3⟩ := hagree.exchange (c := c) (W := World.bare) (m := m2)
    ⟨rfl, fun _ _ => rfl, hbefore2⟩ rfl rfl rfl rfl rfl hconstant hp hq (by rw [haddr2, h2.mem, hheld1])
      (by rw [haddr2]; exact hclear)
  rw [haddr2] at h3
  refine ⟨method, off, m3, hcompiled, hoff, hreach1.trans (hreach2.trans hreach3), ?_, hv, ?_⟩
  · rw [h3.rest _ (by decide), h2.value]
  · rw [h3.mem, hread]
    rfl

end RiscvJit
