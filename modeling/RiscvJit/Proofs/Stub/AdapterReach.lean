import RiscvJit.Proofs.Code.Lawful
import RiscvJit.Proofs.Code.Nearby
import RiscvJit.Proofs.Stub.AdapterMoves
import RiscvJit.Proofs.Stub.WrapperGuarded

/-
  RiscvJit.Proofs.Stub.AdapterReach — which signatures have adapters.

  With at most 255 slots, elements of the expression stack are named in immediates of twelve bits, and so are the
  outgoing arguments. So writing adapters breaks no rule, and since it is guarded it goes through. It takes at
  most 24 bytes for an argument, in both directions, and 448 for the rest; all labels are bound in the first
  part, which is short enough for every branch (`adapters_written`). What is left is the size of the buffer
  (`adapters_made`).
-/

namespace RiscvJit

open Reg (zr sp t0 t1 t2 fp method esp)
open CodeBuffer
open Convention (managed)

theorem Options.bufferSizes_pos {o : Options} (h : o.refusal? = none) : 0 < o.codeBufferSize.toInt ∧
    0 < o.stubBufferSize.toInt := by
  unfold Options.refusal? at h
  repeat' split at h
  all_goals try cases h
  case _ hsizes =>
    rw [Bool.or_eq_true, decide_eq_true_iff, decide_eq_true_iff, not_or] at hsizes
    exact ⟨Int64.lt_iff_toInt_lt.mp (Int64.not_le.mp hsizes.1), Int64.lt_iff_toInt_lt.mp (Int64.not_le.mp hsizes.2)⟩

theorem isImm12_ofNat {n : Nat} (h : n ≤ 2047) : isImm12 (Int64.ofNat n) = true := by
  rw [isImm12, fitsSigned_iff, Int64.toInt_ofNat_of_lt (by omega)]
  simp only [Nat.reduceSub, Int.reducePow]
  omega

theorem addressed_synthetic {opts : Options} {base : UInt64} (hpos : 0 < base.toNat) (hlow : base.toNat + 1024 ≤ 2 ^ 47) :
    Target.Addressed ⟨opts, .synthetic base⟩ := by
  have hcode (e : RuntimeEntry) : (base + UInt64.ofNat e.code * 16).toNat = base.toNat + 16 * e.code := by
    have hle : e.code ≤ RuntimeEntry.all.length := List.idxOf_le_length
    have hlen : RuntimeEntry.all.length ≤ 63 := by decide
    rw [UInt64.toNat_add, UInt64.toNat_mul, UInt64.toNat_ofNat', show (16 : UInt64).toNat = 16 from rfl]
    omega
  refine ⟨fun e he hzero => ?_, fun e => ?_⟩
  · have hzero : base + UInt64.ofNat e.code * 16 = 0 := (if_neg he).symm.trans hzero
    have := congrArg UInt64.toNat hzero
    rw [hcode] at this
    exact absurd this (by simp only [UInt64.toNat_zero]; omega)
  · show (if e = .invalid then 0 else base + UInt64.ofNat e.code * 16).toNat < 2 ^ 47
    split
    · exact Nat.two_pow_pos 47
    · have hle : e.code ≤ RuntimeEntry.all.length := List.idxOf_le_length
      have hlen : RuntimeEntry.all.length ≤ 63 := by decide
      rw [hcode]
      omega

/-! ## Signatures -/

/-- Kinds of a descriptor, with at most 255 slots of arguments. -/
structure Signature.Legal (sig : Signature) : Prop where
  args : ∀ k ∈ sig.args, k.Passable
  ret : sig.ret = .void ∨ sig.ret.Passable
  few : sig.expanded.length ≤ 255

theorem ValueKind.Passable.letter {k : ValueKind} (h : k.Passable) : ∃ c, k.letter = .ok c := by
  cases k with
  | unknown code => exact absurd rfl (h.named code)
  | _ => exact ⟨_, rfl⟩

namespace Signature

theorem exists_letters {ks : List ValueKind} (h : ∀ k ∈ ks, k.Passable) : ∃ cs, letters ks = .ok cs := by
  induction ks with
  | nil => exact ⟨[], rfl⟩
  | cons k ks ih =>
    obtain ⟨c, hc⟩ := (h k List.mem_cons_self).letter
    obtain ⟨cs, hcs⟩ := ih fun k' hk' => h k' (List.mem_cons_of_mem _ hk')
    exact ⟨c :: cs, by rw [letters, hc, hcs]; rfl⟩

variable {sig : Signature}

theorem Legal.text (h : sig.Legal) : ∃ s, sig.text = .ok s := by
  obtain ⟨cs, hcs⟩ := exists_letters h.args
  have hret : ∃ c, sig.ret.letter = .ok c := by
    rcases h.ret with hvoid | hret
    · exact ⟨'V', by rw [hvoid]; rfl⟩
    · exact hret.letter
  obtain ⟨c, hc⟩ := hret
  exact ⟨_, by rw [Signature.text, hcs, hc]; rfl⟩

theorem Legal.located (h : sig.Legal) : ∃ locs slots, managed.locate sig.expanded = .ok (locs, slots) := by
  obtain ⟨⟨locs, slots⟩, hlocs⟩ := Convention.exists_assignFrom (c := .managed) (Convention.passed_expanded h.args none) 0
    managed.supply
  exact ⟨locs, slots, hlocs⟩

end Signature

namespace Stub

open Asm

/-! ## Parts -/

/-- All but the main part of the way to the interpreter: every label is bound in it. -/
def approach (args : List AdapterArg) (stackSlots : Nat) : Asm Unit := do
  markEntry EntryPoint.i2c
  i2c args stackSlots
  let skipFixup ← newLabel
  markEntry EntryPoint.c2iUnverified
  c2iUnverified skipFixup
  markEntry EntryPoint.c2i
  fixupCallSite
  Asm.bind skipFixup

/-- The way to the interpreter once the call site is right. -/
def enterInterpreter (args : List AdapterArg) (elements : Nat) : Asm Unit := do
  let extra := alignUp (Int64.ofNat elements * 8) stackAlignment
  mv senderSp sp
  if 0 < extra then addImm sp sp (-extra) t0
  args.forM (storeArg extra)
  mv esp sp
  ld t0 method methodLayout.interpreterEntry
  jr t0

/-- The call site is corrected on the way to a label behind. -/
theorem fixupCallSite_eq : fixupCallSite = newLabel >>= fun done => (do
    ld t0 method methodLayout.code
    beqz t0 done
    enter
    let _ ← pushRegs argumentRegs
    mv (.x 10) method
    ld (.x 11) fp 8
    rtCall .fixupCallersCallsite
    popRegs argumentRegs
    leave) >>= fun _ => Asm.bind done >>= fun _ => pure () := by
  simp only [fixupCallSite, bind_assoc, bind_pure_unit]

theorem c2iUnverified_eq (skipFixup : Label) : c2iUnverified skipFixup = newLabel >>= fun ok => (do
    loadKlass t0 (.x 11) t2
    ld t2 t1 holderLayout.klass
    ld method t1 holderLayout.metadata
    branch .beq t0 t2 ok
    rtJump .icMissStub) >>= fun _ => Asm.bind ok >>= fun _ => (do
    ld t0 method methodLayout.code
    beqz t0 skipFixup
    rtJump .icMissStub) := by
  simp only [c2iUnverified, bind_assoc]

theorem adaptersBody_parts (kinds : List ValueKind) (locs : List Location) (slots : Nat) :
    adaptersBody kinds locs slots = approach (adapterArgs kinds locs) slots >>= fun _ =>
    enterInterpreter (adapterArgs kinds locs) kinds.length := by
  unfold adaptersBody approach c2i enterInterpreter
  simp only [bind_assoc]

section
variable {F : List Bool} (args : List AdapterArg) (slots n : Nat) (skipFixup : Label)

instance guarded_loadArg (a : AdapterArg) : Guarded F (loadArg a) := by
  unfold loadArg
  split <;> infer_instance

instance guarded_storeArg (extra : Int64) (a : AdapterArg) : Guarded F (storeArg extra a) := by
  unfold storeArg
  split <;> infer_instance

instance guarded_i2c : Guarded F (i2c args slots) := by
  unfold i2c jr
  dsimp only
  infer_instance

instance guarded_c2iUnverified [hl : KnownLabel F skipFixup] : Guarded F (c2iUnverified skipFixup) := by
  have := guarded_rtJump (F := F) (e := .icMissStub) (by decide)
  have : Guarded F (beqz t0 skipFixup) := guarded_bcond_beq ..
  rw [c2iUnverified_eq]
  refine guarded_ownLabel _ _ (fun F' _ _ _ => ?_) inferInstance
  have := guarded_rtJump (F := F') (e := .icMissStub) (by decide)
  infer_instance

instance guarded_fixupCallSite : Guarded F fixupCallSite := by
  rw [fixupCallSite_eq]
  refine guarded_ownLabel _ (pure ()) (fun F' done _ _ => ?_) inferInstance
  have := guarded_rtCall (F := F') (e := .fixupCallersCallsite) (by decide)
  have : Guarded F' (beqz t0 done) := guarded_bcond_beq ..
  unfold enter leave
  infer_instance

instance guarded_approach : Guarded F (approach args slots) := by
  have hown := guarded_ownLabel (F := F) (fun skipFixup => do
    markEntry EntryPoint.c2iUnverified
    c2iUnverified skipFixup
    markEntry EntryPoint.c2i
    fixupCallSite) (pure ()) (fun _ _ _ _ => inferInstance) inferInstance
  simp only [bind_assoc, bind_pure_unit] at hown
  unfold approach
  infer_instance

instance guarded_enterInterpreter : Guarded F (enterInterpreter args n) := by
  unfold enterInterpreter jr
  dsimp only
  infer_instance

/-! ## All labels are near -/

theorem nearby_approach : Nearby (approach args slots) := by
  have hmark (name : String) : Nearby (markEntry name) := nearby_plain inferInstance
  have hcomposed {x : Asm Unit} (hx : Composed false x) : Nearby x := hx.has closed_nearby
  exact (hmark _).bind fun _ => (hcomposed inferInstance).bind fun _ => nearby_newLabel.bind fun _ =>
    (hmark _).bind fun _ =>
    (hcomposed inferInstance).bind fun _ => (hmark _).bind fun _ => (hcomposed inferInstance).bind fun _ =>
    nearby_bindLabel _

instance plain_storeArg (extra : Int64) (a : AdapterArg) : Plain (storeArg extra a) := by
  unfold storeArg sd
  split <;> infer_instance

instance plain_enterInterpreter : Plain (enterInterpreter args n) := by
  unfold enterInterpreter ld
  dsimp only
  infer_instance

end

/-! ## Arguments -/

instance integer_method : method.Integer := ⟨rfl⟩
instance integer_esp : esp.Integer := ⟨rfl⟩
instance integer_senderSp : senderSp.Integer := ⟨rfl⟩
instance apart_t2_sp : t2.Apart sp := ⟨by decide⟩
instance short_fromCompiled : Short methodLayout.fromCompiled := ⟨by decide⟩
instance short_interpreterEntry : Short methodLayout.interpreterEntry := ⟨by decide⟩
instance short_methodCode : Short methodLayout.code := ⟨by decide⟩
instance short_holderKlass : Short holderLayout.klass := ⟨by decide⟩
instance short_holderMetadata : Short holderLayout.metadata := ⟨by decide⟩
instance short_calleeTarget : Short threadLayout.calleeTarget := ⟨by decide⟩

theorem pushable_argumentRegs : Pushable argumentRegs := by
  unfold Pushable
  decide

section
variable {args : List AdapterArg} {n slots : Nat} (h : Argued args n slots) (hfew : n ≤ 255) {a : AdapterArg}
  (ha : a ∈ args)

include h in
theorem Argued.length : args.length ≤ n := by
  have hlt : ∀ e ∈ args.map AdapterArg.element, e < n := by
    intro e he
    obtain ⟨a, ha, rfl⟩ := List.mem_map.mp he
    exact h.elements.lt a ha
  have hnodup : (args.map AdapterArg.element).Nodup := by
    refine List.pairwise_map.mpr (h.elements.descend.imp fun hlt => ?_)
    exact Nat.ne_of_gt hlt
  have hsub : args.map AdapterArg.element ⊆ List.range n := fun e he => List.mem_range.mpr (hlt e he)
  have hlen := (hnodup.subperm hsub).length_le
  rwa [List.length_map, List.length_range] at hlen

include h hfew ha

theorem Argued.short : Short a.interpreted := by
  have hlt := h.elements.lt a ha
  rw [h.elements.offset a ha]
  exact ⟨isImm12_ofNat (by omega)⟩

theorem Argued.shortSlot {slot : Nat} (hslot : a.compiled = .stack slot) :
    Short (managed.stackByteOffset slot .outgoing) := by
  have hgiven := h.given a ha
  rw [hslot] at hgiven
  have hle : slot + 2 ≤ slots := hgiven.2
  have hslots := h.slots
  have hbytes : managed.stackByteOffset slot .outgoing = Int64.ofNat (4 * slot) := by
    rw [Nat.mul_comm, Int64.ofNat_mul]
    rfl
  rw [hbytes]
  exact ⟨isImm12_ofNat (by omega)⟩

theorem lawful_loadArg : Lawful (loadArg a) := by
  have := h.short hfew ha
  have hgiven := h.given a ha
  unfold loadArg
  cases hc : a.compiled with
  | stack slot =>
    have := lawful_storeOff sp .sd (r := t0) rfl rfl rfl (managed.stackByteOffset slot .outgoing) t2
    dsimp only
    infer_instance
  | int r =>
    have hop : interpreterLoadOp a.kind (.x r) = .lw ∨ interpreterLoadOp a.kind (.x r) = .ld := by
      rw [interpreterLoadOp, if_neg (show ¬ (Reg.x r).isFloat = true from Bool.false_ne_true)]
      split
      · exact .inl rfl
      · exact .inr rfl
    show Lawful (load (interpreterLoadOp a.kind (.x r)) (.x r) esp a.interpreted)
    rcases hop with hop | hop <;> rw [hop]
    · exact lawful_load esp .lw (r := .x r) rfl rfl rfl _
    · exact lawful_load esp .ld (r := .x r) rfl rfl rfl _
  | float r =>
    have hop : interpreterLoadOp a.kind (.f r) = .flw ∨ interpreterLoadOp a.kind (.f r) = .fld := by
      rw [interpreterLoadOp, if_pos (show (Reg.f r).isFloat = true from rfl)]
      split
      · exact .inl rfl
      · exact .inr rfl
    show Lawful (load (interpreterLoadOp a.kind (.f r)) (.f r) esp a.interpreted)
    rcases hop with hop | hop <;> rw [hop]
    · exact lawful_load esp .flw (r := .f r) rfl rfl rfl _
    · exact lawful_load esp .fld (r := .f r) rfl rfl rfl _
  | nowhere =>
    rw [hc] at hgiven
    exact hgiven.elim

theorem lawful_storeArg (extra : Int64) : Lawful (storeArg extra a) := by
  have := h.short hfew ha
  have hgiven := h.given a ha
  unfold storeArg
  cases hc : a.compiled with
  | stack slot =>
    have := lawful_loadOff sp .ld (r := t0) rfl rfl rfl (extra + managed.stackByteOffset slot .outgoing) t1
    dsimp only
    infer_instance
  | int r => exact lawful_store sp .sd (r := .x r) rfl rfl rfl a.interpreted
  | float r =>
    have hop : (if (Reg.f r).isFloat && a.kind = .float then Op.fsw else storeOpFor (.f r)) = .fsw ∨
        (if (Reg.f r).isFloat && a.kind = .float then Op.fsw else storeOpFor (.f r)) = .fsd := by
      split
      · exact .inl rfl
      · exact .inr rfl
    show Lawful (store (if (Reg.f r).isFloat && a.kind = .float then Op.fsw else storeOpFor (.f r))
      (.f r) sp a.interpreted)
    rcases hop with hop | hop <;> rw [hop]
    · exact lawful_store sp .fsw (r := .f r) rfl rfl rfl _
    · exact lawful_store sp .fsd (r := .f r) rfl rfl rfl _
  | nowhere =>
    rw [hc] at hgiven
    exact hgiven.elim

theorem takes_loadArg : Takes (loadArg a) 8 := by
  unfold loadArg
  cases hc : a.compiled with
  | stack slot =>
    have := takes_storeOff_short .sd t0 sp t2 _ (h.shortSlot hfew ha hc).fits
    dsimp only
    infer_instance
  | _ => exact (takes_load ..).weaken (by decide)

theorem takes_storeArg : Takes (storeArg (Int64.ofNat (areaBytes n)) a) 16 := by
  unfold storeArg
  cases hc : a.compiled with
  | stack slot =>
    have hgiven := h.given a ha
    rw [hc] at hgiven
    have hle : slot + 2 ≤ slots := hgiven.2
    have hslots := h.slots
    have hbytes : Int64.ofNat (areaBytes n) + managed.stackByteOffset slot .outgoing = Int64.ofNat
      (areaBytes n + 4 * slot) := by
      rw [Int64.ofNat_add, Nat.mul_comm 4 slot, Int64.ofNat_mul]
      rfl
    have hword : isInt32 (high12 (Int64.ofNat (areaBytes n) + managed.stackByteOffset slot .outgoing)) = true := by
      unfold areaBytes at hbytes ⊢
      rw [hbytes, isInt32_iff, toInt_high12, Int64.toInt_ofNat_of_lt (by omega), Int.bmod_def, Int.bmod_def]
      simp only [Nat.reducePow, Int.reducePow]
      omega
    have := takes_loadOff_of .ld t0 sp t1 _ (takes_li_upper (show t1 ≠ zr by decide) hword)
    dsimp only
    infer_instance
  | _ => exact (takes_store ..).weaken (by decide)

end

/-! ## Sizes -/

instance lawful_beqz (r : Reg) [r.Integer] (l : Label) : Lawful (beqz r l) := lawful_bcond_beq r zr l

instance lawful_fixupCallSite : Lawful fixupCallSite := by
  have := lawful_pushRegs pushable_argumentRegs
  have := lawful_popRegs pushable_argumentRegs
  have : Short (-16) := ⟨by decide⟩
  have : Short 16 := ⟨by decide⟩
  have : Short 8 := ⟨by decide⟩
  unfold fixupCallSite enter leave
  simp only [bind_assoc]
  infer_instance

section
variable {args : List AdapterArg} {n slots : Nat} (h : Argued args n slots) (hfew : n ≤ 255)
include h hfew

theorem takes_approach : Takes (approach args slots) (396 + 8 * n) := by
  have hlen := h.length
  have : Takes (args.forM loadArg) (args.length * 8) := takes_forM fun a ha => takes_loadArg h hfew ha
  have hi2c : Takes (i2c args slots) (4 + max (36 + (4 + (args.length * 8 + 8))) (args.length * 8 + 8)) := by
    unfold i2c
    dsimp only
    infer_instance
  have := hi2c.weaken (m := 52 + 8 * n) (by omega)
  have (skipFixup : Label) : Takes (c2iUnverified skipFixup) 116 := by
    unfold c2iUnverified
    infer_instance
  have : Takes fixupCallSite 228 := by
    unfold fixupCallSite
    infer_instance
  have hall : Takes (approach args slots) (0 + (52 + 8 * n + 344)) := by
    unfold approach
    infer_instance
  exact hall.weaken (by omega)

theorem takes_enterInterpreter : Takes (enterInterpreter args n) (52 + 16 * n) := by
  have hlen := h.length
  have : Takes (args.forM (storeArg (Int64.ofNat (areaBytes n)))) (args.length * 16) :=
    takes_forM fun a ha => takes_storeArg h hfew ha
  have hall : Takes (enterInterpreter args n) (4 + max (36 + (args.length * 16 + 12)) (args.length * 16 + 12)) := by
    unfold enterInterpreter
    dsimp only
    rw [extra_eq h.few]
    infer_instance
  exact hall.weaken (by omega)

theorem lawful_approach : Lawful (approach args slots) := by
  have : Lawful (args.forM loadArg) := lawful_forM fun a ha => lawful_loadArg h hfew ha
  have : Short (-stackAlignment) := ⟨by decide⟩
  have : Lawful (i2c args slots) := by
    unfold i2c jr
    dsimp only
    infer_instance
  have (skipFixup : Label) : Lawful (c2iUnverified skipFixup) := by
    unfold c2iUnverified
    dsimp only
    infer_instance
  unfold approach
  infer_instance

theorem lawful_enterInterpreter : Lawful (enterInterpreter args n) := by
  have (extra : Int64) : Lawful (args.forM (storeArg extra)) := lawful_forM fun a ha => lawful_storeArg h hfew ha extra
  unfold enterInterpreter jr
  dsimp only
  infer_instance

end

/-! ## Writing adapters -/

section
variable {kinds : List ValueKind} {locs : List Location} {slots : Nat} {t : Target} {a b : Assembler}

/-- What is written takes no more than it is said to, and every reference reaches. -/
theorem adaptersBody_spent (h : Argued (adapterArgs kinds locs) kinds.length slots) (hfew : kinds.length ≤ 255)
    (hrun : adaptersBody kinds locs slots t a = .ok ((), b)) (hempty : a.buf.offset = 0) (hnear : a.Near) :
    a.buf.Spent (448 + 24 * kinds.length) b.buf ∧ b.buf.failure ≠ branchOutOfRange := by
  rw [adaptersBody_parts] at hrun
  obtain ⟨_, c, hfirst, hlast⟩ := bind_eq_ok.mp hrun
  have hspent := (takes_approach h hfew).spent hfirst
  have hshort : c.buf.offset < 4096 := by
    have := hspent.size
    omega
  have hreached := ((nearby_approach ..).near hfirst hnear hshort).reached
  refine ⟨?_, ((plain_enterInterpreter ..).extended hlast).reached hreached⟩
  exact (hspent.trans ((takes_enterInterpreter h hfew).spent hlast)).weaken (by omega)

/-- Writing adapters goes through. -/
theorem adapters_written (h : Argued (adapterArgs kinds locs) kinds.length slots) (hfew : kinds.length ≤ 255)
    (ht : t.Addressed)
    (ha : a.Sound []) : ∃ b, adaptersBody kinds locs slots t a = .ok ((), b) := by
  have hguarded : Guarded [] (adaptersBody kinds locs slots) := by
    rw [adaptersBody_parts]
    infer_instance
  have hlawful : Lawful (adaptersBody kinds locs slots) := by
    have := lawful_approach h hfew
    have := lawful_enterInterpreter h hfew
    rw [adaptersBody_parts]
    infer_instance
  obtain ⟨⟨⟨⟩, b⟩, hb, -⟩ := ((hguarded.safe (List.prefix_refl _)).ends ht.complete ha).lawful (hlawful.kept ht)
  exact ⟨b, hb⟩

end

section
variable {t : Target} {sig : Signature} (base : UInt64) (ht : t.Addressed) (hsig : sig.Legal)
  (hpos : 0 ≤ t.opts.stubBufferSize.toInt)
  (hlimit : t.opts.stubBufferSize.toInt ≤ capacityLimit)
include ht hsig hpos hlimit

/-- A legal signature has adapters, or the buffer is too small. -/
theorem adapters_made : (∃ blob, adapters t sig base = .ok blob ∧ blob.code.length ≤ 448 + 24 * sig.expanded.length) ∨
    (∃ name reason, adapters t sig base = .error (.failure (.bailout name reason))) ∧
      t.opts.stubBufferSize.toInt < 448 + 24 * sig.expanded.length := by
  obtain ⟨text, htext⟩ := hsig.text
  obtain ⟨locs, slots, hlocs⟩ := hsig.located
  have hargs := argued_adapterArgs hlocs (Nat.le_trans hsig.few (by decide))
  obtain ⟨a, hstart, hsound, -⟩ := (start_ok hpos hlimit : ∃ a,
    Assembler.start ("adapters" ++ text) base t.opts.stubBufferSize = .ok a ∧ _)
  obtain ⟨b, hrun⟩ := adapters_written hargs hsig.few ht hsound
  have hmade : adapters t sig base = Stop.ofFailure (b.finish 0) := by
    rw [adapters_eq, htext]
    show assembled t base ("adapters" ++ text) sig.expanded = _
    rw [assembled, hstart, hlocs]
    show (Stop.ofFault (adaptersBody sig.expanded locs slots t a) >>= _) = _
    rw [hrun]
    rfl
  have hfresh : a.buf.offset = 0 ∧ a.buf.failure = "" ∧ a.buf.capacity = t.opts.stubBufferSize.toNatClampNeg := by
    unfold Assembler.start at hstart
    obtain ⟨buf, hbuf, hstart⟩ := except_bind_eq_ok.mp hstart
    cases hstart
    unfold create at hbuf
    split at hbuf
    · cases hbuf
    · cases hbuf
      exact ⟨rfl, rfl, rfl⟩
  obtain ⟨hempty, hworks, hcapacity⟩ := hfresh
  obtain ⟨hspent, hreached⟩ := adaptersBody_spent hargs hsig.few hrun hempty (Assembler.near_fresh hstart)
  rw [hmade]
  have hroom : (t.opts.stubBufferSize.toNatClampNeg : Int) = t.opts.stubBufferSize.toInt := Int.toNat_of_nonneg hpos
  cases hw : b.buf.failed with
  | false =>
    obtain ⟨blob, hblob, hcode⟩ : ∃ blob, b.finish 0 = .ok blob ∧ blob.code = b.buf.bytes.toList := by
      rw [Assembler.finish, hw]
      exact ⟨_, rfl, rfl⟩
    refine .inl ⟨blob, congrArg Stop.ofFailure hblob, ?_⟩
    have hsize : b.buf.bytes.size ≤ a.buf.offset + (448 + 24 * sig.expanded.length) := hspent.size
    rw [hcode, Array.length_toList]
    omega
  | true =>
    refine .inr ⟨⟨_, _, congrArg Stop.ofFailure (finish_failed hw)⟩, ?_⟩
    -- the one reason left is the size
    have hover : b.buf.failure = codeOverflow := by
      rcases hspent.reason with hsame | hover | hfar
      · rw [CodeBuffer.failed, hsame, hworks] at hw
        exact absurd hw (by decide)
      · exact hover
      · exact absurd hfar hreached
    refine Int.not_le.mp fun hfits => ?_
    have hnone := hspent.fits (by rw [hempty, hcapacity]; omega) hover
    rw [hworks] at hnone
    exact absurd hnone (by decide)

theorem adapters_exist (hroom : 448 + 24 * (sig.expanded.length : Int) ≤ t.opts.stubBufferSize.toInt) :
    ∃ blob, adapters t sig base = .ok blob ∧ blob.code.length ≤ 448 + 24 * sig.expanded.length :=
  (adapters_made base ht hsig hpos hlimit).resolve_right fun h => absurd h.2 (Int.not_lt.mpr hroom)

end

/-- A legal signature has adapters, or there is a bailout since the buffer is too small; 8192 bytes are enough. -/
theorem legal_signatures_have_adapters {t : Target} {sig : Signature} (base : UInt64)
    (hopts : t.opts.refusal? = none) (ht : t.Addressed)
    (hsig : sig.Legal) (hlimit : t.opts.stubBufferSize.toInt ≤ capacityLimit) :
    ((∃ blob, adapters t sig base = .ok blob) ∨ ∃ name reason,
    adapters t sig base = .error (.failure (.bailout name reason))) ∧
      (8192 ≤ t.opts.stubBufferSize.toInt → ∃ blob, adapters t sig base = .ok blob) := by
  have hpos := Int.le_of_lt (Options.bufferSizes_pos hopts).2
  have hfew := hsig.few
  refine ⟨?_, fun hroom => ?_⟩
  · rcases adapters_made base ht hsig hpos hlimit with ⟨blob, hblob, -⟩ | ⟨hfull, -⟩
    · exact .inl ⟨blob, hblob⟩
    · exact .inr hfull
  · obtain ⟨blob, hblob, -⟩ := adapters_exist base ht hsig hpos hlimit (by omega)
    exact ⟨blob, hblob⟩

/-- A method of 255 ints. -/
def manyInts : Signature := ⟨List.replicate 255 .int, .void⟩

theorem legal_manyInts : manyInts.Legal where
  args k hk := by
    rw [List.eq_of_mem_replicate hk]
    exact ⟨nofun, nofun, nofun⟩
  ret := .inl rfl
  few := by decide +kernel

/-- 255 arguments have adapters in a buffer of 8192 bytes. -/
theorem many_ints_have_adapters : ({ stubBufferSize := 8192 } : Options).refusal? = none ∧
    Target.Addressed ⟨{ stubBufferSize := 8192 }, .synthetic 0x10000⟩ ∧ manyInts.Legal ∧
    ∃ blob, adapters ⟨{ stubBufferSize := 8192 }, .synthetic 0x10000⟩ manyInts 0x1000 = .ok blob :=
  ⟨by decide, addressed_synthetic (by decide) (by decide), legal_manyInts,
    (legal_signatures_have_adapters 0x1000 (by decide) (addressed_synthetic (by decide) (by decide))
    legal_manyInts (by decide)).2 (by decide)⟩

/-- Sizes that no memory can have are not refused, and no adapters come of them. -/
theorem no_memory_for_adapters : ({ stubBufferSize := 0x4000000000000000 } : Options).refusal? = none ∧
    Target.Addressed ⟨{ stubBufferSize := 0x4000000000000000 }, .synthetic 0x10000⟩ ∧ manyInts.Legal ∧
    8192 ≤ (0x4000000000000000 : Int64).toInt ∧
    adapters ⟨{ stubBufferSize := 0x4000000000000000 }, .synthetic 0x10000⟩ manyInts 0 = .error (.fault .trap) := by
  refine ⟨by decide, addressed_synthetic (by decide) (by decide), legal_manyInts, by decide, ?_⟩
  obtain ⟨text, htext⟩ := legal_manyInts.text
  rw [adapters_eq, htext]
  rfl

end Stub

end RiscvJit
