import RiscvJit.Proofs.Code.Compressed
import RiscvJit.Proofs.Lower.Resident

/-
  RiscvJit.Proofs.Lower.HeapReferences — references on their way to the heap and back.

  A reference may come from a register, a stack slot or a constant. Whichever it is, the field receives
  its number and nothing else changes in memory (`lowers_storeToMemory`, `lowers_moveStackToMemory`,
  `lowers_moveConstToMemory`); the constant is compressed when the code is generated. A field that
  holds the number of a reference gives the reference back (`lowers_loadFromMemory`), and so does an
  exchange, which leaves the number of another there (`lowers_exchange`).
-/

namespace RiscvJit

open Machine (Keeps)
open Reg (zr sp t0 t1)
open Lower
open Operand
open Options

/-! ## Operands -/

/-- The machine has the value where the operand says. -/
def Operand.Holds (m : Machine) (p : UInt64) : Operand → Prop
  | .register _ r _ => m.get r = p
  | .stack _ slot => m.mem.read (m.get sp + (Location.slotBytes slot).toUInt64) 8 = p
  | .constant _ bits => bits = p
  | _ => False

/-- The word of a constant in an integer register: ints are extended with their sign. -/
def Operand.constantWord (k : ValueKind) (bits : UInt64) : UInt64 :=
  match k with
  | .boolean | .char | .byte | .short | .int => sext bits.toUInt32
  | .narrowOop | .narrowKlass => bits.toUInt32.toUInt64
  | _ => bits

/-- The address uses no scratch register. -/
structure Address.Steady (a : Address) : Prop where
  base : a.base ≠ t0 ∧ a.base ≠ t1
  index : a.hasIndex = true → a.index ≠ t0 ∧ a.index ≠ t1

theorem Address.Steady.spared {a : Address} (h : a.Steady) : a.Spared := (absurd · h.base.1)

theorem ne_scratch {r : Reg} (h : r.isReserved = false) : r ≠ t0 ∧ r ≠ t1 :=
  ⟨Reg.ne_of_free h rfl, Reg.ne_of_free h rfl⟩

variable {a : Address}

theorem steady_of_admitted {k : ValueKind} (h : (memory k a).Admitted) : a.Steady := by
  obtain ⟨hbase, hindex⟩ := h
  refine ⟨?_, fun hi => ne_scratch (hindex hi)⟩
  rcases hbase with e | e | hfree
  · rw [e]
    decide
  · rw [e]
    decide
  · exact ne_scratch hfree

/-- The address is the same wherever only scratch registers differ. -/
theorem Address.Steady.eval_eq {m m' : Machine} (h : a.Steady) (hsame : ∀ r, r ≠ t0 → r ≠ t1 → m'.get r = m.get r) :
    a.eval m' = a.eval m := by
  rw [Address.eval, Address.eval, hsame _ h.base.1 h.base.2]
  split
  case _ hi => rw [hsame _ (h.index hi).1 (h.index hi).2]
  case _ => rfl

theorem Addressed.base_ne {b : Reg} {d : Int64} {m m' : Machine} (h : Addressed a b d m m') (ha : a.Steady) : b ≠ t1 := by
  rcases h.base with e | e
  · rw [e]
    decide
  · rw [e]
    exact ha.base.2

/-- Up to four bytes take the low half of a word only. -/
theorem Ram.write_low (mem : Ram) (addr : UInt64) {v w : UInt64} {n : Nat} (hn : n ≤ 4) (h : v.toUInt32 = w.toUInt32) :
    mem.write addr n v = mem.write addr n w := by
  have hlow (v : UInt64) {i : Nat} (hi : i < 4) : CodeBuffer.byteAt v.toUInt32.toUInt64 i = CodeBuffer.byteAt v i := by
    apply UInt8.toNat_inj.mp
    rw [toNat_byteAt _ (by omega), toNat_byteAt _ (by omega), UInt32.toNat_toUInt64, UInt64.toNat_toUInt32]
    have hcases : i = 0 ∨ i = 1 ∨ i = 2 ∨ i = 3 := by omega
    rcases hcases with rfl | rfl | rfl | rfl <;> omega
  funext x
  unfold Ram.write
  split
  case _ hx => rw [← hlow v (by omega), h, hlow w (by omega)]
  case _ => rfl

/-- A constant is compressed as the code would compress it. -/
theorem narrowConst_eq {o : Options} {p : UInt64} (hs : o.oopShift ≤ 3) (hp : p ≠ 0) :
    (narrowConst o p).toUInt64 = (o.narrow p).toUInt32.toUInt64 := by
  have hshifted : UInt64.ofNat ((p - o.oopBase).toNat >>> o.oopShift.toNat) = (p - o.oopBase)
    >>> o.oopShift.toUInt64 := by
    apply UInt64.toNat_inj.mp
    rw [(toNat_shifts hs _).1, Nat.shiftRight_eq_div_pow, UInt64.toNat_ofNat']
    exact Nat.mod_eq_of_lt (Nat.lt_of_le_of_lt (Nat.div_le_self ..) (p - o.oopBase).toNat_lt)
  rw [narrowConst, hshifted, narrow, if_neg hp, Int64.toUInt64_ofNat']
  exact UInt64.toNat_inj.mp (Nat.mod_eq_of_lt (Nat.lt_trans (UInt32.toNat_lt _) (by decide)))

namespace Site

variable {S : Site} {m : Machine} {E : Exits} {a : Address} {k : ValueKind} {p : UInt64} {n : UInt32}

section
variable {m0 : Machine} {Q : Unit → Machine → Prop} {o : Op} {r : Reg} {w : UInt64} {len : Nat}
  (hf : o.info.format = .store) (hw : o.width = some len)
include hf hw

/-- A store after code that changed scratch registers only. -/
theorem does_storeAfter {b : Reg} {d : Int64} {addr : UInt64} (haddr : m.get b + d.toUInt64 = addr)
    (hfree : ∀ i < len, S.Free (addr + UInt64.ofNat i)) (hmem : m.mem.write addr len (m.get r) = m0.mem.write addr len w)
    (hrest : ∀ q, q ≠ t0 → q ≠ t1 → m.get q = m0.get q) (h : ∀ m', Stored [t0, t1] addr len w m0 m' → Q () m') :
    S.Does (Asm.store o r b d) m E Q := by
  subst haddr
  refine does_store hf hw hfree fun m' h' => h m' ⟨h'.mem.trans hmem, fun q hq => ?_⟩
  obtain ⟨h0, h1⟩ : q ≠ t0 ∧ q ≠ t1 := by simpa using hq
  rw [h'.rest q List.not_mem_nil, hrest q h0 h1]

/-- A stack slot is filled after such code. -/
theorem does_spillAfter {off : Int64} (hfree : ∀ i < len, S.Free (m0.get sp + off.toUInt64 + UInt64.ofNat i))
    (hmem : m.mem.write (m0.get sp + off.toUInt64) len (m.get r) = m0.mem.write (m0.get sp + off.toUInt64) len w)
    (hrest : ∀ q, q ≠ t0 → q ≠ t1 → m.get q = m0.get q)
    (h : ∀ m', Stored [t0, t1] (m0.get sp + off.toUInt64) len w m0 m' → Q () m') : S.Does
    (Asm.storeOff o r sp off t0) m E Q := by
  rw [← hrest sp (by decide) (by decide)] at hfree hmem h
  refine does_storeOff hf hw (by decide) hfree fun m' h' => h m' ⟨h'.mem.trans hmem, fun q hq => ?_⟩
  obtain ⟨h0, h1⟩ : q ≠ t0 ∧ q ≠ t1 := by simpa using hq
  rw [h'.rest q (by simpa using h0), hrest q h0 h1]

end

theorem lowers_compressedOop {Q : Bool → Machine → Prop} (hc : S.target.opts.compressedOops = true) (hk : isOop k = true)
    (h : Q true m) : S.Lowers (compressedOop k) m E Q := by
  unfold compressedOop
  refine .bind (lowers_read (lowers_pure ?_))
  rw [hk, hc]
  exact h

section
variable {Q : Unit → Machine → Prop} (hopts : S.target.opts.refusal? = none) (hc : S.target.opts.compressedOops = true)
  (hk : isOop k = true) (ha : a.Steady)
include hopts hc hk ha

/-- A reference in a register goes to a field. -/
theorem lowers_storeToMemory {r : Reg} (hr : r ≠ t0 ∧ r ≠ t1) (hfree : ∀ i < 4, S.Free (a.eval m + UInt64.ofNat i))
    (h : ∀ m', Stored [t0, t1] (a.eval m) 4 (S.target.opts.narrow (m.get r)) m m' → Q () m') :
    S.Lowers (storeToMemory r k a) m E Q := by
  unfold storeToMemory
  refine .bind (lowers_asm (does_legitimize ha.spared fun b d m1 h₁ => .bind (lowers_compressedOop hc hk ?_)))
  rw [if_pos rfl]
  refine .bind (lowers_asm (does_encodeHeapOop hopts hc (by decide) (by decide) ⟨rfl, rfl⟩ fun m2 h2 => lowers_asm ?_))
  have haddr : m2.get b + d.toUInt64 = a.eval m := by
    rw [h2.rest b (h₁.base_ne ha) (by simpa using h₁.base_ne ha), h₁.value]
  refine does_storeAfter rfl rfl haddr hfree ?_ (fun q h0 h1 => ?_) h
  · rw [h2.value, h2.mem, h₁.mem, h₁.rest r hr.1 hr.2]
  · rw [h2.rest q h1 (by simpa using h1), h₁.rest q h0 h1]

set_option synthInstance.maxSize 512 in
/-- A reference in a stack slot goes to a field. -/
theorem lowers_moveStackToMemory {src dst : Operand} {ks : ValueKind} {off : Int64}
    (hfree : ∀ i < 4, S.Free (a.eval m + UInt64.ofNat i))
    (h : ∀ m', Stored [t0, t1] (a.eval m) 4 (S.target.opts.narrow
    (m.mem.read (m.get sp + off.toUInt64) 8)) m m' → Q () m') :
    S.Lowers (moveStackToMemory src ks off dst k a) m E Q := by
  unfold moveStackToMemory
  refine .bind (lowers_lift fun _ _ => .bind (lowers_compressedOop hc hk ?_))
  rw [if_pos rfl]
  refine .bind (lowers_lift fun _ hwaits => .bind (lowers_asm ?_))
  have hwaits : a.hasIndex = false ∨ isImm12 a.disp = true := by simpa using check_eq_ok.mp hwaits
  refine does_loadOff (n := 8) rfl rfl (by decide) (by decide) fun m1 h₁ => ?_
  refine .bind (lowers_asm (does_encodeHeapOop hopts hc (by decide) (by decide) ⟨rfl, rfl⟩ fun m2 h2 => ?_))
  -- the reference waits in t1 while the address is worked out
  have hsame (q : Reg) (h0 : q ≠ t0) (h1 : q ≠ t1) : m2.get q = m.get q := by
    rw [h2.rest q h1 (by simpa using h0), h₁.rest q h1 (by simpa using h1)]
  refine .bind (lowers_asm (does_legitimize ha.spared fun b d m3 h3 => lowers_asm ?_))
  refine does_storeAfter rfl rfl (h3.value.trans (ha.eval_eq hsame)) hfree ?_ (fun q h0 h1 => ?_) h
  · rw [h3.waits hwaits, h2.value, h₁.value, h3.mem, h2.mem, h₁.mem]
    rfl
  · rw [h3.rest q h0 h1, hsame q h0 h1]

theorem lowers_moveConstToMemory {src : Operand} (hfree : ∀ i < 4, S.Free (a.eval m + UInt64.ofNat i))
    (h : ∀ m', Stored [t0, t1] (a.eval m) 4 (S.target.opts.narrow p) m m' → Q () m') :
    S.Lowers (moveConstToMemory src p k a) m E Q := by
  unfold moveConstToMemory
  refine .bind (lowers_asm (does_legitimize ha.spared fun b d m1 h₁ => ?_))
  unfold constStoreOp
  refine .bind (.bind (lowers_lift fun _ _ => .bind (lowers_compressedOop hc hk ?_)))
  rw [if_pos rfl]
  refine lowers_pure ?_
  split
  case _ hzero =>
    refine lowers_asm (does_storeAfter rfl rfl h₁.value hfree ?_ h₁.rest h)
    rw [h₁.mem, narrow, if_pos hzero]
    rfl
  case _ hne =>
    refine .bind (lowers_compressedOop hc hk ?_)
    rw [if_pos rfl]
    refine .bind (lowers_read (.bind (lowers_asm (does_li fun m2 h2 => lowers_asm ?_))))
    have haddr : m2.get b + d.toUInt64 = a.eval m := by
      rw [h2.other b (h₁.base_ne ha), h₁.value]
    refine does_storeAfter rfl rfl haddr hfree ?_ (fun q h0 h1 => ?_) h
    · rw [h2.value, h2.mem, h₁.mem, narrowConst_eq (oopShift_le hopts) hne]
      exact Ram.write_low _ _ (Nat.le_refl _) (UInt32.toUInt32_toUInt64 _)
    · rw [h2.other q h1, h₁.rest q h0 h1]

/-- A reference comes from a field. -/
theorem lowers_loadFromMemory {rd : Reg} (hd : Keeps rd)
    (h : ∀ m', Put rd [t0, t1] (S.target.opts.expanded (m.mem.read (a.eval m) 4)) m m' → Q () m') :
    S.Lowers (loadFromMemory rd k a) m E Q := by
  unfold loadFromMemory
  refine .bind (lowers_asm (does_legitimize ha.spared fun b d m1 h₁ => .bind (lowers_compressedOop hc hk ?_)))
  rw [if_pos rfl]
  have htmp : Keeps (if rd = t1 then t0 else t1) ∧ (if rd = t1 then t0 else t1) ≠ rd ∧
      ∀ r, r ≠ t0 → r ≠ t1 → r ∉ [if rd = t1 then t0 else t1] := by
    split
    case _ e =>
      rw [e]
      exact ⟨by decide, by decide, fun r h0 _ => by simpa using h0⟩
    case _ hne => exact ⟨by decide, fun e => hne e.symm, fun r _ h1 => by simpa using h1⟩
  refine .bind (lowers_asm (does_lwu hd fun m2 h2 => lowers_asm (does_decodeHeapOop hopts hd htmp.1 htmp.2.1 fun m3 h3 =>
    h m3 ⟨?_, fun r hr ht => ?_, ?_⟩)))
  · rw [h3.value, h2.value, h₁.value, h₁.mem]
  · obtain ⟨h0, h1⟩ : r ≠ t0 ∧ r ≠ t1 := by simpa using ht
    rw [h3.rest r hr (htmp.2.2 r h0 h1), h2.other r hr, h₁.rest r h0 h1]
  · rw [h3.mem, h2.mem, h₁.mem]

end

theorem lowers_constToReg {Q : Unit → Machine → Prop} {rd : Reg} (hd : Keeps rd)
    (h : ∀ m', Put rd [] (constantWord k p) m m' → Q () m') : S.Lowers (constToReg (.constant k p) rd) m E Q := by
  have hpointer (hk : isOop k = true) : S.Lowers
    (if p = 0 then (liftM (Asm.mv rd zr) : Lower Unit) else Asm.movptr rd p) m E Q := by
    have hplain : constantWord k p = p := by cases k <;> first | rfl | cases hk
    rw [hplain] at h
    split
    case _ hzero => exact lowers_asm (does_mv (fun m1 h1 => h m1 (hzero ▸ h1)) hd)
    case _ => exact lowers_asm (does_movptr hd h)
  have hbits : (liftM (Operand.constant k p).bits : Lower UInt64) = pure p := rfl
  rw [constToReg, hbits, pure_bind, kind]
  cases k with
  | object => exact hpointer rfl
  | array => exact hpointer rfl
  | metadata => exact lowers_asm (does_movptr hd h)
  | narrowOop | narrowKlass =>
    refine lowers_asm (does_li (fun m1 h1 => h m1 ?_) hd)
    rw [Int64.toUInt64_ofNat'] at h1
    rwa [show UInt64.ofNat p.toUInt32.toNat = p.toUInt32.toUInt64 from
      UInt64.toNat_inj.mp (Nat.mod_eq_of_lt (Nat.lt_trans (UInt32.toNat_lt _) (by decide)))] at h1
  | _ => exact lowers_asm (does_li h hd)

/-- An operand that holds a reference is put into a register. -/
theorem lowers_srcReg {Q : Reg → Machine → Prop} {o : Operand} (hk : isOop o.kind = true) (ho : o.Admitted)
    (hv : o.Holds m p)
    (h : ∀ r m', r ≠ t0 → m'.get r = p → (∀ q, q ≠ t1 → m'.get q = m.get q) → m'.mem = m.mem → Q r m') :
    S.Lowers (srcReg o t1) m E Q := by
  unfold srcReg
  cases o with
  | register k r hi =>
    refine lowers_pure (h r m ?_ hv (fun _ _ => rfl) rfl)
    rcases ho with e | hfree
    · rw [e]
      decide
    · exact (ne_scratch hfree).1
  | constant k bits =>
    obtain rfl : bits = p := hv
    dsimp only
    split
    case _ hzero => exact lowers_pure (h zr m (by decide) hzero.symm (fun _ _ => rfl) rfl)
    case _ hne =>
      have hplain : constantWord k bits = bits := by cases k <;> first | rfl | cases hk
      refine .bind (lowers_constToReg (by decide) fun m1 h1 => lowers_pure ?_)
      exact h t1 m1 (by decide) (h1.value.trans hplain) (fun q hq => h1.other q hq) h1.mem
  | stack k slot =>
    have hload : stackLoadOp k = .ld := by cases k <;> first | rfl | cases hk
    refine .bind (lowers_asm ?_)
    rw [hload]
    refine does_loadOff (n := 8) rfl rfl (by decide) (by decide) fun m1 h1 => lowers_pure ?_
    exact h t1 m1 (by decide) (h1.value.trans hv) (fun q hq => h1.rest q hq (by simpa using hq)) h1.mem
  | _ => exact hv.elim

/-- A field is exchanged for another reference. -/
theorem lowers_exchange {Q : Unit → Machine → Prop} (hopts : S.target.opts.refusal? = none)
    (hc : S.target.opts.compressedOops = true)
    (hk : isOop k = true) {res val addr : Reg} {q : UInt64} {n' : UInt32} (hp : S.target.opts.Numbers p n)
    (hq : S.target.opts.Numbers q n') (hd : Keeps res) (hres : res ≠ t0) (haddr : addr ≠ t0 ∧ addr ≠ t1)
    (hv : m.get val = q) (hold : m.mem.read (m.get addr) 4 = n.toUInt64)
    (hfree : ∀ i < 4, S.Free (m.get addr + UInt64.ofNat i))
    (h : ∀ m', m'.get res = p → Stored [res, t0, t1] (m.get addr) 4 n'.toUInt64 m m' → Q () m') :
    S.Lowers (exchange k res val addr) m E Q := by
  unfold exchange
  refine .bind (lowers_compressedOop hc hk ?_)
  rw [if_pos rfl]
  refine .bind (lowers_asm (does_encodeHeapOop hopts hc (by decide) (by decide) ⟨rfl, rfl⟩ fun m1 h₁ => ?_))
  have hbase : m1.get addr = m.get addr := h₁.rest addr haddr.2 (by simpa using haddr.1)
  refine .bind (lowers_asm (does_amoswapW (by decide) hd (by rwa [hbase]) fun m2 hvalue hrest hmem => ?_))
  refine .bind (lowers_asm (does_slli hd (by decide) fun m3 h3 =>
    .bind (lowers_asm (does_srli hd (by decide) fun m4 h4 => ?_))))
  have hnumber : m4.get res = n.toUInt64 := by
    rw [h4.value, h3.value, shifted_twice, hvalue, h₁.mem, hbase, hold, toUInt32_sext, UInt32.toUInt32_toUInt64]
  refine lowers_asm (does_decodeHeapOop hopts hd (by decide) hres.symm fun m5 h5 => h m5 ?_ ⟨?_, fun r hr => ?_⟩)
  · rw [h5.value, hnumber, hp.expanded (oopShift_le hopts) hc]
  · rw [h5.mem, h4.mem, h3.mem, hmem, hbase, h₁.value, h₁.mem, hv, hq.narrow (oopShift_le hopts)]
  · obtain ⟨hr, h0, h1⟩ : r ≠ res ∧ r ≠ t0 ∧ r ≠ t1 := by simpa using hr
    rw [h5.rest r hr (by simpa using h0), h4.other r hr, h3.other r hr, hrest r hr,
      h₁.rest r h1 (by simpa using h0)]

end Site

end RiscvJit
