import RiscvJit.Proofs.Code.Locks
import RiscvJit.Proofs.Stub.ValueCapture
import RiscvJit.Proofs.Lower.TypeProfiles

/-
  RiscvJit.Proofs.Code.Compressed — what the code that compresses references does.

  A reference is null or lies on the grid of base and shift; its number there, and zero for null, is its
  narrow form (`Options.Numbers.narrow`), from which it comes back (`Options.Numbers.expanded`). The code
  has a branch for null only when there is a base (`does_encodeHeapOop`). A type descriptor pointer is
  compressed without regard to null, and is found again in the header it was stored in (`klassAt_stored`).

  An address is brought to a base register and a short displacement (`does_legitimize`). That takes
  t0, and t1 only for an index with a long displacement, so that a value may wait in t1 otherwise.
-/

namespace RiscvJit

open Machine (Keeps)
open Reg (zr t0 t1)
open Asm
open Options

/-! ## Narrow references -/

section
variable {o : Options} {p : UInt64} {n : UInt32}

/-- The narrow form of a reference. -/
def Options.narrow (o : Options) (p : UInt64) : UInt64 :=
  if p = 0 then 0 else (p - o.oopBase) >>> o.oopShift.toUInt64

/-- The number of a reference: zero for null, and otherwise its place on the grid of base and shift. -/
def Options.Numbers (o : Options) (p : UInt64) (n : UInt32) : Prop :=
  if n = 0 then p = 0 else p.toNat = o.oopBase.toNat + n.toNat * 2 ^ o.oopShift.toNat

instance (o : Options) (p : UInt64) (n : UInt32) : Decidable (o.Numbers p n) := inferInstanceAs (Decidable (ite _ _ _))

/-- A shift by at most three bits, in both directions. -/
theorem toNat_shifts {s : UInt8} (hs : s ≤ 3) (v : UInt64) :
    (v >>> s.toUInt64).toNat = v.toNat / 2 ^ s.toNat ∧
      (v.toNat * 2 ^ s.toNat < 2 ^ 64 → (v <<< s.toUInt64).toNat = v.toNat * 2 ^ s.toNat) := by
  have hs : s.toNat ≤ 3 := hs
  have hmod : s.toUInt64.toNat % 64 = s.toNat := by
    rw [UInt8.toNat_toUInt64]
    omega
  refine ⟨?_, fun hfits => ?_⟩
  · rw [UInt64.toNat_shiftRight, hmod, Nat.shiftRight_eq_div_pow]
  · rw [UInt64.toNat_shiftLeft, hmod, Nat.shiftLeft_eq, Nat.mod_eq_of_lt hfits]

theorem Options.Numbers.eq_zero_iff (h : o.Numbers p n) : p = 0 ↔ n = 0 := by
  unfold Numbers at h
  split at h
  case _ hzero => exact iff_of_true h hzero
  case _ hne =>
    refine iff_of_false (fun hp => ?_) hne
    have hpos : 0 < n.toNat * 2 ^ o.oopShift.toNat :=
      Nat.mul_pos (Nat.pos_of_ne_zero fun e => hne (UInt32.toNat_inj.mp e)) (Nat.two_pow_pos _)
    have hzero : p.toNat = 0 := congrArg UInt64.toNat hp
    omega

/-- The place of a reference that is not null. -/
theorem Options.Numbers.place (h : o.Numbers p n) (hp : p ≠ 0) :
    p.toNat = o.oopBase.toNat + n.toNat * 2 ^ o.oopShift.toNat := by
  have hn := mt h.eq_zero_iff.mpr hp
  rwa [Numbers, if_neg hn] at h

/-- The distance of a reference from the base, by its number. -/
theorem Options.Numbers.above (h : o.Numbers p n) (hp : p ≠ 0) :
    (p - o.oopBase).toNat = n.toNat * 2 ^ o.oopShift.toNat := by
  have hplace := h.place hp
  have hle : o.oopBase ≤ p := UInt64.le_iff_toNat_le.mpr (by omega)
  rw [UInt64.toNat_sub_of_le _ _ hle, hplace, Nat.add_sub_cancel_left]

/-- The narrow form of a reference is its number. -/
theorem Options.Numbers.narrow (hs : o.oopShift ≤ 3) (h : o.Numbers p n) : o.narrow p = n.toUInt64 := by
  by_cases hp : p = 0
  · rw [Options.narrow, if_pos hp, h.eq_zero_iff.mp hp]
    rfl
  · rw [Options.narrow, if_neg hp]
    apply UInt64.toNat_inj.mp
    rw [(toNat_shifts hs _).1, h.above hp, Nat.mul_div_cancel _ (Nat.two_pow_pos _)]
    rfl

theorem Options.Numbers.expanded (hs : o.oopShift ≤ 3) (hc : o.compressedOops = true) (h : o.Numbers p n) :
    o.expanded n.toUInt64 = p := by
  rw [Options.expanded, if_neg (by rw [hc]; decide)]
  by_cases hp : p = 0
  · rw [h.eq_zero_iff.mp hp, hp]
    show (if o.oopBase = 0 then (0 : UInt64) <<< o.oopShift.toUInt64 else 0) = 0
    rw [UInt64.zero_shiftLeft, ite_self]
  · have hplace := h.place hp
    have hne : n.toUInt64 ≠ 0 := fun e => hp (h.eq_zero_iff.mpr (UInt32.toNat_inj.mp (congrArg UInt64.toNat e)))
    have hshift : (n.toUInt64 <<< o.oopShift.toUInt64).toNat = n.toNat * 2 ^ o.oopShift.toNat := by
      have := p.toNat_lt
      exact (toNat_shifts hs _).2 (show n.toNat * 2 ^ o.oopShift.toNat < _ by omega)
    rw [if_neg hne]
    apply UInt64.toNat_inj.mp
    split
    case _ hbase =>
      rw [hshift, hplace, hbase]
      exact (Nat.zero_add _).symm
    case _ =>
      have := p.toNat_lt
      rw [UInt64.toNat_add, hshift, hplace]
      omega

end

/-! ## Compressing -/

namespace Site

variable {S : Site} {m : Machine} {E : Exits} {rd rs dst src tmp : Reg} {imm : Int64}

variable {Q : Unit → Machine → Prop}

theorem does_srli (hk : Keeps rd) (hn : Op.srli.info.format.admits imm = true)
    (h : ∀ m', Put rd [] (m.get rs >>> (imm.toUInt64 &&& 63)) m m' → Q () m') : S.Does (srli rd rs imm) m E Q :=
  does_puts (fun _ _ _ => emit_puts (f := fun x y => x >>> (y &&& 63)) (.inr (.inl rfl))
  hn (fun _ => rfl) hk) h

/-- A reference is compressed, whatever others do. -/
theorem goes_encodeHeapOop {C : Company S} (hopts : S.target.opts.refusal? = none)
    (hc : S.target.opts.compressedOops = true) (hd : Keeps dst) (ht : Keeps tmp)
    (hint : dst.isFloat = false ∧ tmp.isFloat = false)
    (h : ∀ m', m'.get dst = S.target.opts.narrow (m.get src) → (∀ r, r ≠ dst → r ≠ tmp → m'.get r = m.get r) →
      C.others m.shared m'.shared → Q () m') : S.Goes C (encodeHeapOop dst src tmp) m E Q := by
  obtain ⟨hadmits, hshift⟩ := small_shift (oopShift_le hopts)
  have hadmits' : Op.srli.info.format.admits (Int64.ofNat S.target.opts.oopShift.toNat) = true := hadmits
  -- without a base, null needs no branch
  have hplain (hbase : S.target.opts.oopBase = 0) :
      S.target.opts.narrow (m.get src) = m.get src >>> S.target.opts.oopShift.toUInt64 := by
    unfold narrow
    split
    case _ hzero => rw [hzero, UInt64.zero_shiftRight]
    case _ => rw [hbase, UInt64.sub_zero]
  unfold encodeHeapOop
  refine .bind (goes_opts ?_)
  rw [if_neg (by rw [hc]; decide)]
  split
  case _ hbase =>
    split
    case _ hnone =>
      refine goes_mv hd hint.1 fun m1 h1 => h m1 ?_ (fun r hr _ => h1.rest r hr) h1.others
      rw [h1.value, hplain hbase, hnone]
      exact UInt64.shiftRight_zero.symm
    case _ =>
      refine goes_srli hadmits' hd fun m1 h1 => h m1 ?_ (fun r hr _ => h1.rest r hr) h1.others
      rw [h1.value, hplain hbase, hshift]
  case _ hbase =>
    have hshape : (do
        liftM (check (tmp ≠ src) fun _ => "scratch " ++ tmp.abiName ++ " aliases the oop")
        let notNull ← newLabel
        li tmp S.target.opts.oopBase.toInt64
        sub tmp src tmp
        srli tmp tmp (Int64.ofNat S.target.opts.oopShift.toNat)
        branch .bne src zr notNull
        mv tmp zr
        Asm.bind notNull
        mv dst tmp : Asm Unit) =
        (liftM (check (tmp ≠ src) fun _ => "scratch " ++ tmp.abiName ++ " aliases the oop") : Asm Unit) >>= fun _ =>
        newLabel >>= fun notNull => (do
        li tmp S.target.opts.oopBase.toInt64
        sub tmp src tmp
        srli tmp tmp (Int64.ofNat S.target.opts.oopShift.toNat)
        branch .bne src zr notNull
        mv tmp zr) >>= fun _ => Asm.bind notNull >>= fun _ => mv dst tmp := by
      simp only [bind_assoc]
    rw [hshape]
    -- both ways lead to the label with the narrow form in the scratch register
    have hend {m1 : Machine} (hv : m1.get tmp = S.target.opts.narrow (m.get src))
      (hrest : ∀ r, r ≠ tmp → m1.get r = m.get r)
        (hothers : C.others m.shared m1.shared) : S.Goes C (mv dst tmp) m1 E Q :=
      goes_mv hd hint.1 fun m2 h2 => h m2 (h2.value.trans hv) (fun r hr hr' => (h2.rest r hr).trans (hrest r hr'))
        (C.trans hothers h2.others)
    refine .bind (goes_lift fun _ hchecked => .bind (goes_newLabel fun notNull => Goes.label fun hl => ?_))
    have hne : tmp ≠ src := of_decide_eq_true (check_eq_ok.mp hchecked)
    refine .bind (goes_li ht fun m1 h1 => .bind (goes_sub ht fun m2 h2 =>
      .bind (goes_srli hadmits' ht fun m3 h3 => .bind ?_)))
    have hrest (r : Reg) (hr : r ≠ tmp) : m3.get r = m.get r := by rw [h3.rest r hr, h2.rest r hr, h1.rest r hr]
    have hsrc : m3.get src = m.get src := hrest src hne.symm
    have hothers := C.trans h1.others (C.trans h2.others h3.others)
    refine goes_branch rfl hl (fun htaken m4 h4 =>
      .inl ⟨rfl, fun _ => hend ?_ (fun r hr => (h4.regs r).trans (hrest r hr))
      (C.trans hothers h4.others)⟩) fun hnot m4 h4 => ?_
    · have hsome : m.get src ≠ 0 := by
        have htaken : m3.get src ≠ m3.get zr := by simpa [Op.taken] using htaken
        rw [hsrc] at htaken
        exact htaken
      rw [h4.regs, h3.value, h2.value, h1.value, h1.rest _ hne.symm, hshift, narrow, if_neg hsome,
        UInt64.toUInt64_toInt64]
    · have hzero : m.get src = 0 := by
        have hnot : m3.get src = m3.get zr := by simpa [Op.taken] using hnot
        rw [hsrc] at hnot
        exact hnot
      refine goes_mv ht hint.2 fun m5 h5 => hend ?_ (fun r hr => ?_) (C.trans hothers (C.trans h4.others h5.others))
      · rw [h5.value, narrow, if_pos hzero]
        rfl
      · rw [h5.rest r hr, h4.regs, hrest r hr]

theorem does_encodeHeapOop (hopts : S.target.opts.refusal? = none) (hc : S.target.opts.compressedOops = true)
    (hd : Keeps dst) (ht : Keeps tmp) (hint : dst.isFloat = false ∧ tmp.isFloat = false)
    (h : ∀ m', Put dst [tmp] (S.target.opts.narrow (m.get src)) m m' → Q () m') :
    S.Does (encodeHeapOop dst src tmp) m E Q := by
  refine Goes.does (goes_encodeHeapOop hopts hc hd ht hint fun m' hv hrest hothers => h m' ⟨hv, fun r hr hr' => ?_, ?_⟩)
  · exact hrest r hr (by simpa using hr')
  · exact congrArg Shared.mem hothers

end Site

/-! ## Addresses -/

/-- The address that an operand in memory stands for; the shift of the index counts modulo 64. -/
def Address.eval (a : Address) (m : Machine) : UInt64 :=
  m.get a.base + (if a.hasIndex then m.get a.index <<< a.scale.toUInt64 else 0) + a.disp.toUInt64

/-- If t0 is the base, the index is not shifted into it, and without an index nothing is added to it. -/
def Address.Spared (a : Address) : Prop := a.base = t0 → if a.hasIndex then a.scale = 0 else isImm12 a.disp = true

/-- A base register and a displacement stand for the address, at the cost of scratch registers. -/
structure Addressed (a : Address) (b : Reg) (d : Int64) (m m' : Machine) : Prop where
  value : m'.get b + d.toUInt64 = a.eval m
  base : b = t0 ∨ b = a.base
  rest : ∀ r, r ≠ t0 → r ≠ t1 → m'.get r = m.get r
  mem : m'.mem = m.mem
  /-- Without an index or with a short displacement, a value can wait in t1. -/
  waits : a.hasIndex = false ∨ isImm12 a.disp = true → m'.get t1 = m.get t1

namespace Site

variable {S : Site} {m : Machine} {E : Exits} {rd rs : Reg} {a : Address}

/-- The encoding of a shift keeps six bits of the count. -/
theorem slli_scale (rd rs : Reg) (s : UInt8) :
    slli rd rs (Int64.ofNat s.toNat) = slli rd rs (Int64.ofNat (s.toNat % 64)) := by
  have hword : lowWord (Int64.ofNat s.toNat) &&& 0x3f = lowWord (Int64.ofNat (s.toNat % 64)) &&& 0x3f := by
    have hall : ∀ n < 256, lowWord (Int64.ofNat n) &&& 0x3f = lowWord (Int64.ofNat (n % 64)) &&& 0x3f := by decide +kernel
    exact hall _ s.toNat_lt
  have hencode : Op.slli.encode rd rs .none (Int64.ofNat s.toNat) 0 = Op.slli.encode rd rs .none
    (Int64.ofNat (s.toNat % 64)) 0 := by
    show encodeI .. = encodeI ..
    rw [hword]
  unfold slli shiftI emit
  rw [hencode]

theorem does_slliScale {Q : Unit → Machine → Prop} {s : UInt8} (hk : Keeps rd)
    (h : ∀ m', Put rd [] (m.get rs <<< s.toUInt64) m m' → Q () m') : S.Does (slli rd rs (Int64.ofNat s.toNat)) m E Q := by
  have hsmall : s.toNat % 64 < 64 := Nat.mod_lt _ (by decide)
  have hadmits : Op.slli.info.format.admits (Int64.ofNat (s.toNat % 64)) = true ∧
      ((Int64.ofNat (s.toNat % 64)).toUInt64 &&& 63).toNat = s.toNat % 64 := by
    have hall : ∀ n < 64, Format.shift64.admits (Int64.ofNat n) = true ∧
      ((Int64.ofNat n).toUInt64 &&& 63).toNat = n := by decide
    exact hall _ hsmall
  rw [slli_scale]
  refine does_slli hk hadmits.1 fun m1 h1 => h m1 ⟨h1.value.trans ?_, h1.rest, h1.mem⟩
  apply UInt64.toNat_inj.mp
  rw [UInt64.toNat_shiftLeft, UInt64.toNat_shiftLeft, hadmits.2, Nat.mod_mod, UInt8.toNat_toUInt64]

/-- The index, if there is one, is added to the base. -/
theorem does_indexedBase {Q : Reg → Machine → Prop} (hbase : a.hasIndex = true → a.base = t0 → a.scale = 0)
    (h : ∀ b m', m'.get b = m.get a.base + (if a.hasIndex then m.get a.index <<< a.scale.toUInt64 else 0) →
      b = (if a.hasIndex then t0 else a.base) → (∀ r, r ≠ t0 → m'.get r = m.get r) → m'.mem = m.mem → Q b m') :
    S.Does (indexedBase a) m E Q := by
  unfold indexedBase
  split
  case _ hindex =>
    simp only [hindex, if_true] at h
    split
    case _ hscale =>
      refine .bind (does_add (by decide) fun m1 h1 => does_pure (h t0 m1 ?_ rfl (fun r hr => h1.other r hr) h1.mem))
      rw [h1.value, hscale]
      exact congrArg _ UInt64.shiftLeft_zero.symm
    case _ hscale =>
      refine .bind (does_slliScale (by decide) fun m1 h1 => .bind (does_add (by decide) fun m2 h2 => does_pure ?_))
      refine h t0 m2 ?_ rfl (fun r hr => ?_) (h2.mem.trans h1.mem)
      · rw [h2.value, h1.value, h1.other _ fun e => hscale (hbase hindex e)]
      · rw [h2.other r hr, h1.other r hr]
  case _ hindex =>
    refine does_pure (h a.base m ?_ (if_neg hindex).symm (fun _ _ => rfl) rfl)
    rw [if_neg hindex, UInt64.add_zero]

/-- Any address is brought to a base register and a short displacement. -/
theorem does_legitimize {Q : Reg × Int64 → Machine → Prop} (hspared : a.Spared)
    (h : ∀ b d m', Addressed a b d m m' → Q (b, d) m') : S.Does (legitimize a) m E Q := by
  unfold legitimize
  refine .bind (does_indexedBase (fun hindex e => by simpa [hindex] using hspared e) fun b m1 hvalue hb hrest hmem => ?_)
  have hb' : b = t0 ∨ b = a.base := by
    rw [hb]
    split
    · exact .inl rfl
    · exact .inr rfl
  split
  case _ hshort =>
    refine does_pure (h b a.disp m1 ⟨?_, hb', fun r hr _ => hrest r hr, hmem, fun _ => hrest _ (by decide)⟩)
    rw [hvalue]
    rfl
  case _ hlong =>
    split
    case _ hindexed =>
      refine .bind (does_li fun m2 h2 => .bind (does_add (by decide) fun m3 h3 => does_pure
        (h t0 _ m3 ⟨?_, .inl rfl, fun r hr hr' => ?_, ?_, fun hwaits => ?_⟩)))
      · rw [h3.value, h2.value, h2.other _, ← hindexed, hvalue, UInt64.add_comm _ (high12 _).toUInt64,
          add_high12_low12]
        rfl
      · rw [h3.other r hr, h2.other r hr', hrest r hr]
      · rw [h3.mem, h2.mem, hmem]
      · rcases hwaits with hnone | hshort
        · rw [hnone] at hb
          exact absurd (by simpa [hnone] using hspared (hb.symm.trans hindexed)) hlong
        · exact absurd hshort hlong
    case _ hplain =>
      refine .bind (does_li fun m2 h2 => .bind (does_add (by decide) fun m3 h3 => does_pure
        (h t0 _ m3 ⟨?_, .inl rfl, fun r hr _ => ?_, ?_, fun _ => ?_⟩)))
      · rw [h3.value, h2.value, h2.other _ hplain, hvalue, add_high12_low12]
        rfl
      · rw [h3.other r hr, h2.other r hr, hrest r hr]
      · rw [h3.mem, h2.mem, hmem]
      · rw [h3.other _, h2.other _, hrest _ (by decide)]

end Site

/-! ## Type descriptors -/

/-- The narrow form of a type descriptor pointer. -/
def Options.narrowKlass (o : Options) (k : UInt64) : UInt64 := (k - o.klassBase) >>> o.klassShift.toUInt64

/-- How many bytes of a header hold the descriptor. -/
def Options.klassBytes (o : Options) : Nat := if o.compressedClassPointers then 4 else 8

/-- What these bytes are for a descriptor. -/
def Options.klassImage (o : Options) (k : UInt64) : UInt64 := if o.compressedClassPointers then o.narrowKlass k else k

variable {o : Options}

/-- A descriptor whose number has 32 bits comes back from its narrow form. -/
theorem narrowKlass_grid (hs : o.klassShift ≤ 3) (n : UInt32) :
    o.narrowKlass (o.klassBase + n.toUInt64 <<< o.klassShift.toUInt64) = n.toUInt64 := by
  have hs' : o.klassShift.toNat ≤ 3 := hs
  have hpow : 2 ^ o.klassShift.toNat ≤ 2 ^ 3 := Nat.pow_le_pow_right (by decide) hs'
  have hfits : n.toUInt64.toNat * 2 ^ o.klassShift.toNat < 2 ^ 64 := by
    have hn : n.toUInt64.toNat < 2 ^ 32 := n.toNat_lt
    calc n.toUInt64.toNat * 2 ^ o.klassShift.toNat ≤ n.toUInt64.toNat * 2 ^ 3 := Nat.mul_le_mul_left _ hpow
      _ < 2 ^ 64 := by omega
  rw [narrowKlass, UInt64.add_comm, UInt64.add_sub_cancel]
  apply UInt64.toNat_inj.mp
  rw [(toNat_shifts hs _).1, (toNat_shifts hs _).2 hfits, Nat.mul_div_cancel _ (Nat.two_pow_pos _)]

/-- A descriptor that was stored in a header is what is found there. -/
theorem klassAt_stored (hs : o.klassShift ≤ 3) {mem : Ram} {v k : UInt64} {n : UInt32}
    (hk : k = o.klassBase + n.toUInt64 <<< o.klassShift.toUInt64) :
    o.klassAt (mem.write (v + 8) o.klassBytes (o.klassImage k)) v = k := by
  subst hk
  unfold klassAt klassBytes klassImage
  split
  · rw [narrowKlass_grid hs]
    congr 2
    apply UInt64.toNat_inj.mp
    rw [Ram.read_write _ _ _ (by decide)]
    exact Nat.mod_eq_of_lt n.toNat_lt
  · exact read_write_eight ..

theorem klassAt_congr {mem mem' : Ram} {v : UInt64}
    (h : ∀ i < o.klassBytes, mem' (v + 8 + UInt64.ofNat i) = mem (v + 8 + UInt64.ofNat i)) :
    o.klassAt mem' v = o.klassAt mem v := by
  unfold klassBytes at h
  unfold klassAt
  split at h
  case _ hc => rw [if_pos hc, if_pos hc, Ram.read_congr h]
  case _ hc => rw [if_neg hc, if_neg hc, Ram.read_congr h]

namespace Site

variable {S : Site} {m : Machine} {E : Exits} {dst src obj klass tmp : Reg}

variable {Q : Unit → Machine → Prop}

/-- A type descriptor pointer is compressed. -/
theorem does_encodeKlass (hopts : S.target.opts.refusal? = none) (hd : Keeps dst) (ht : Keeps tmp)
    (h : ∀ m', Put dst [tmp] (S.target.opts.narrowKlass (m.get src)) m m' → Q () m') :
    S.Does (encodeKlass dst src tmp) m E Q := by
  obtain ⟨hadmits, hshift⟩ := small_shift (klassShift_le hopts)
  have hadmits : Op.srli.info.format.admits (Int64.ofNat S.target.opts.klassShift.toNat) = true := hadmits
  -- the base, which may be none, is gone, and then the shift, which may be none
  have hrest (cur : Reg) (m1 : Machine) (hcur : m1.get cur = m.get src - S.target.opts.klassBase)
      (hregs : ∀ r, r ≠ dst → r ∉ [tmp] → m1.get r = m.get r) (hmem : m1.mem = m.mem) :
      S.Does (if S.target.opts.klassShift ≠ 0 then srli dst cur (Int64.ofNat S.target.opts.klassShift.toNat)
        else mv dst cur) m1 E Q := by
    split
    case _ =>
      refine does_srli hd hadmits fun m2 h2 => h m2 ⟨?_, fun r hr ht => ?_, h2.mem.trans hmem⟩
      · rw [h2.value, hcur, hshift, narrowKlass]
      · exact (h2.other r hr).trans (hregs r hr ht)
    case _ hnone =>
      refine does_mv (fun m2 h2 => h m2 ⟨?_, fun r hr ht => ?_, h2.mem.trans hmem⟩) hd
      · rw [h2.value, hcur, narrowKlass, Classical.not_not.mp hnone]
        exact UInt64.shiftRight_zero.symm
      · exact (h2.other r hr).trans (hregs r hr ht)
  unfold encodeKlass
  refine .bind (does_opts ?_)
  dsimp only
  split
  case _ =>
    refine .bind (does_lift fun _ hne => .bind (does_li (fun m1 h1 =>
      .bind (does_sub hd fun m2 h2 => .bind (does_pure ?_))) ht))
    have hne : src ≠ tmp := fun e => of_decide_eq_true (check_eq_ok.mp hne) e.symm
    refine hrest dst m2 ?_ (fun r hr ht => ?_) (h2.mem.trans h1.mem)
    · rw [h2.value, h1.value, h1.other _ hne, UInt64.toUInt64_toInt64]
    · exact (h2.other r hr).trans (h1.other r (by simpa using ht))
  case _ hnone =>
    refine .bind (does_pure (hrest src m ?_ (fun _ _ _ => rfl) rfl))
    rw [Classical.not_not.mp hnone, UInt64.sub_zero]

/-- A type descriptor is stored in the header of an object. -/
theorem does_storeKlass (hopts : S.target.opts.refusal? = none) (ht : Keeps tmp) (hne : tmp ≠ obj)
    (hfree : ∀ i < S.target.opts.klassBytes, S.Free (m.get obj + 8 + UInt64.ofNat i))
    (h : ∀ m', Stored [tmp] (m.get obj + 8) S.target.opts.klassBytes
    (S.target.opts.klassImage (m.get klass)) m m' → Q () m') :
    S.Does (storeKlass obj klass tmp) m E Q := by
  unfold klassBytes klassImage at h
  unfold klassBytes at hfree
  unfold storeKlass
  refine .bind (does_opts ?_)
  split
  case _ hcompressed =>
    rw [if_pos hcompressed, if_pos hcompressed] at h
    rw [if_pos hcompressed] at hfree
    refine .bind (does_encodeKlass hopts ht ht fun m1 h1 => ?_)
    have hobj : m1.get obj = m.get obj := h1.rest _ hne.symm (by simpa using hne.symm)
    refine does_store (n := 4) rfl rfl (fun i hi => ?_) fun m2 h2 => h m2 ⟨?_, fun r hr => ?_⟩
    · rw [hobj]
      exact hfree i hi
    · rw [h2.mem, h1.mem, h1.value, hobj]
      rfl
    · exact (h2.rest r List.not_mem_nil).trans (h1.rest r (by simpa using hr) hr)
  case _ hplain =>
    rw [if_neg hplain, if_neg hplain] at h
    rw [if_neg hplain] at hfree
    exact does_sd hfree fun m1 h1 => h m1 ⟨h1.mem, fun r _ => h1.rest r List.not_mem_nil⟩

/-- The type descriptor of an object is loaded. -/
theorem does_loadKlass (hopts : S.target.opts.refusal? = none) (hd : Keeps dst) (ht : Keeps tmp) (hne : tmp ≠ dst)
    (h : ∀ m', Put dst [tmp] (S.target.opts.klassAt m.mem (m.get obj)) m m' → Q () m') :
    S.Does (loadKlass dst obj tmp) m E Q := by
  refine Goes.does (goes_loadKlass hopts hd ht hne (fun s hs => ?_) fun m' hv hrest hshared =>
    h m' ⟨hv, fun r hr ht => ?_, ?_⟩)
  · rw [show s = m.shared from hs]
    rfl
  · exact hrest r hr (by simpa using ht)
  · exact congrArg Shared.mem (show m'.shared = m.shared from hshared)

end Site

/-! ## Exchanging -/

/-- Two shifts clear the upper half of a register. -/
theorem shifted_twice (v : UInt64) : v <<< (Int64.toUInt64 32 &&& 63) >>> (Int64.toUInt64 32 &&& 63) =
    v.toUInt32.toUInt64 := by
  apply UInt64.toNat_inj.mp
  rw [UInt64.toNat_shiftRight, UInt64.toNat_shiftLeft, Nat.shiftLeft_eq, Nat.shiftRight_eq_div_pow]
  show _ = v.toNat % 2 ^ 32
  simp only [show (Int64.toUInt64 32 &&& 63).toNat % 64 = 32 from rfl]
  omega

namespace Site

variable {S : Site} {m : Machine} {E : Exits} {Q : Unit → Machine → Prop} {rd rs addr : Reg}

/-- Four bytes are exchanged with a register. -/
theorem does_amoswapW {aqrl : UInt32} (ha : aqrl < 4) (hk : Keeps rd)
    (hfree : ∀ i < 4, S.Free (m.get addr + UInt64.ofNat i))
    (h : ∀ m', m'.get rd = sext (m.mem.read (m.get addr) 4).toUInt32 → (∀ r, r ≠ rd → m'.get r = m.get r) →
      m'.mem = m.mem.write (m.get addr) 4 (m.get rs) → Q () m') : S.Does (amo .amoswapW rd rs addr aqrl) m E Q := by
  let v := sext (m.mem.read (m.get addr) 4).toUInt32
  refine does_exec ({ m.next with mem := m.mem.write (m.get addr) 4 (m.get rs) }.set rd v)
    (F := fun x => ∃ i < 4, x = m.get addr + UInt64.ofNat i)
    (fun _ _ _ hrun => ⟨_, wrote_ordered hrun ha (by decide) nofun nofun nofun rfl rfl, rfl⟩)
    ((Machine.set_pc ..).trans rfl) (fun x hx => ?_) (fun _ ⟨i, hi, e⟩ => e ▸ hfree i hi) (h _ ?_ (fun r hr => ?_) ?_)
  · refine (congrFun (Machine.set_mem ..) x).trans ?_
    refine Ram.write_outside _ _ (Nat.le_of_not_lt fun hlt => hx ⟨_, hlt, ?_⟩)
    rw [UInt64.ofNat_toNat, UInt64.add_comm, UInt64.sub_add_cancel]
  · exact (Machine.get_set _ hk v rd).trans (if_pos rfl)
  · exact ((Machine.get_set _ hk v r).trans (if_neg hr)).trans (Machine.get_next m r)
  · exact Machine.set_mem ..

end Site

end RiscvJit
