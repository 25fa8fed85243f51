import RiscvJit.Proofs.Lower.NewObjects

/-
  RiscvJit.Proofs.Lower.NewArrays — what an instruction that allocates an array does.

  Arrays have their length behind the type, and the elements start at a multiple of eight. The size is
  computed by the code, for lengths up to a limit. A length beyond it, a negative one among them, is left to
  the runtime, as is an array that does not fit into the buffer of the thread (`array_allocation`).

  The routines of the runtime keep all integer registers but t0, t1 and the result register
  (`Resident.Served`). Allocation makes objects without changing registers that are not its own. But before it asks the
  runtime it moves the class to x13 and a length to x19, and nobody moves back what was there
  (`allocation_keeps_registers`, `class_register_is_lost`).
-/

namespace RiscvJit

open Machine (Keeps Fits)
open Reg (zr ra t0 t1 thread)
open Asm
open Site
open Options

/-! ## Sizes -/

namespace Options

/-- Bytes of an element of an array. -/
def elementBytes (o : Options) (k : ValueKind) : Nat := if Lower.isOop k then o.heapOopSize else k.size

/-- Where the elements of arrays start. -/
def arrayBase (o : Options) : Nat := if o.compressedClassPointers then 16 else 24

/-- Bytes of an array. -/
def arraySize (o : Options) (k : ValueKind) (length : Nat) : Nat := (o.arrayBase + length * o.elementBytes k + 7) / 8 * 8

variable (o : Options)

theorem lengthOffset_eq : objectLayout.arrayLengthFor o.compressedClassPointers = Int64.ofNat (8 + o.klassBytes) := by
  unfold klassBytes
  cases o.compressedClassPointers <;> rfl

theorem arrayBase_eq : objectLayout.arrayBase o.compressedClassPointers = Int64.ofNat o.arrayBase := by
  unfold arrayBase
  cases o.compressedClassPointers <;> rfl

/-- Elements start behind the length, or a half word further on. -/
theorem arrayBase_gap : o.arrayBase = 12 + o.klassBytes ∨ o.arrayBase = 12 + o.klassBytes + 4 := by
  unfold arrayBase klassBytes
  cases o.compressedClassPointers <;> simp

/-- Elements of a kind that takes memory have one, two, four or eight bytes. -/
theorem elementBytes_pow {o : Options} {k : ValueKind} (hk : k.size ≠ 0) : ∃ s ≤ 3, o.elementBytes k = 2 ^ s := by
  have hsize : ∃ s ≤ 3, k.size = 2 ^ s := by
    cases k with
    | boolean | byte => exact ⟨0, by decide, rfl⟩
    | char | short => exact ⟨1, by decide, rfl⟩
    | int | float | narrowOop | narrowKlass => exact ⟨2, by decide, rfl⟩
    | long | double | object | array | address | metadata => exact ⟨3, by decide, rfl⟩
    | void | unknown _ => exact absurd rfl hk
  unfold elementBytes heapOopSize
  split
  · split
    · exact ⟨2, by decide, rfl⟩
    · exact ⟨3, by decide, rfl⟩
  · exact hsize

theorem trailingZeros_pow : ∀ s ≤ 3, trailingZeros 64 (UInt64.ofNat (2 ^ s)) = s := by decide

theorem elementShift_eq {o : Options} {k : ValueKind} {s : Nat} (hs : s ≤ 3) (h : o.elementBytes k = 2 ^ s) :
    Lower.elementShift o k = Int64.ofNat s := by
  show Int64.ofNat (trailingZeros 64 (UInt64.ofNat (o.elementBytes k))) = _
  rw [h, trailingZeros_pow s hs]

end Options

/-- What is left of a number when its low three bits are cleared. -/
theorem toNat_and_neg_eight (x : UInt64) : (x &&& Int64.toUInt64 (-8)).toNat = x.toNat / 8 * 8 :=
  toNat_and_not_low x.toBitVec (k := 3) (by decide)

namespace Options

variable {o : Options} {k : ValueKind} {n : Nat}

theorem arrayBase_cases (o : Options) : o.arrayBase = 16 ∨ o.arrayBase = 24 := by
  unfold arrayBase
  split
  · exact .inl rfl
  · exact .inr rfl

theorem elements_small (hk : k.size ≠ 0) (hn : n ≤ 0xffffff) : n * o.elementBytes k ≤ 0x7fffff8 := by
  obtain ⟨s, hs, hbytes⟩ := elementBytes_pow (o := o) hk
  have h8 : o.elementBytes k ≤ 8 := hbytes ▸ Nat.pow_le_pow_right (by decide) hs
  exact Nat.le_trans (Nat.mul_le_mul hn h8) (by decide)

/-- Behind the start of the elements there are whole words. -/
theorem arraySize_words : o.arraySize k n = o.arrayBase + 8 * ((n * o.elementBytes k + 7) / 8) := by
  unfold arraySize
  rcases o.arrayBase_cases with h | h <;> rw [h] <;> omega

theorem arraySize_small (hk : k.size ≠ 0) (hn : n ≤ 0xffffff) : o.arraySize k n < 2 ^ 28 := by
  have := elements_small (o := o) hk hn
  rw [arraySize_words]
  rcases o.arrayBase_cases with h | h <;> rw [h] <;> omega

theorem arraySize_computed {len : UInt64} (hk : k.size ≠ 0) (hlen : len.toNat ≤ 0xffffff) :
    (len <<< ((Lower.elementShift o k).toUInt64 &&& 63) + (objectLayout.arrayBase
    o.compressedClassPointers + 7).toUInt64) &&&
      Int64.toUInt64 (-8) = UInt64.ofNat (o.arraySize k len.toNat) := by
  obtain ⟨s, hs, hbytes⟩ := elementBytes_pow (o := o) hk
  have hsmall := elements_small (o := o) hk hlen
  have hshift : ∀ s ≤ 3, ((Int64.ofNat s).toUInt64 &&& 63).toNat = s := by decide
  have hbase : (objectLayout.arrayBase o.compressedClassPointers + 7).toUInt64 = UInt64.ofNat (o.arrayBase + 7) := by
    rw [arrayBase_eq, show (7 : Int64) = Int64.ofNat 7 from rfl, ← Int64.ofNat_add, Int64.toUInt64_ofNat']
  have hcases := o.arrayBase_cases
  have hscaled : (len <<< ((Int64.ofNat s).toUInt64 &&& 63)).toNat = len.toNat * o.elementBytes k := by
    rw [UInt64.toNat_shiftLeft, hshift s hs, Nat.mod_eq_of_lt (a := s) (by omega), Nat.shiftLeft_eq,
      ← hbytes, Nat.mod_eq_of_lt (by omega)]
  apply UInt64.toNat_inj.mp
  rw [toNat_and_neg_eight, elementShift_eq hs hbytes, hbase, toNat_off (by omega), hscaled]
  unfold arraySize
  rw [UInt64.toNat_ofNat', Nat.mod_eq_of_lt (by omega)]
  omega

end Options

/-! ## The code of an allocation -/

namespace Lower

instance seals_clearLoop (cur end' : Reg) : Seals (clearLoop cur end') := by
  unfold clearLoop
  infer_instance

/-- What is written into an array that was cut off. -/
def layArray (o : Options) (obj klass length tmp1 tmp2 : Reg) : Lower Unit := do
  initializeHeader obj klass
  sw length obj (objectLayout.arrayLengthFor o.compressedClassPointers)
  if objectLayout.arrayLengthFor o.compressedClassPointers + 4 < objectLayout.arrayBase o.compressedClassPointers then
    sw zr obj (objectLayout.arrayLengthFor o.compressedClassPointers + 4)
  addi tmp1 obj (objectLayout.arrayBase o.compressedClassPointers)
  clearLoop tmp1 tmp2

variable (o : Options) (element : ValueKind) (obj : Reg) (i : Instruction) (e : RuntimeEntry)
  (klass length tmp1 tmp2 : Reg)
  (slow : Label) (result : Reg) (info : Option SiteInfo) (entry cont : Label)

instance traced_layArray : Traced (layArray o obj klass length tmp1 tmp2) := by
  unfold layArray
  infer_instance

instance seals_layArray : Seals (layArray o obj klass length tmp1 tmp2) := by
  unfold layArray
  infer_instance

/-- An array is cut off the buffer and written. -/
def makeArray (o : Options) (obj klass length tmp1 tmp2 : Reg) (slow : Label) : Lower Unit :=
  (tlabAllocate obj tmp2 (.register tmp1) slow >>= fun _ => layArray o obj klass length tmp1 tmp2) >>= fun _ =>
    (liftM (membar MemoryOrder.storeStore) : Lower Unit)

instance traced_makeArray :
    Traced (makeArray o obj klass length tmp1 tmp2 slow) := traced_barrier _

theorem allocArrayInline_eq :
    allocArrayInline element obj klass length tmp1 tmp2 slow = (do
      let t ← read
      li t0 maxArrayAllocationLength
      bcond .bltu t0 length slow
      slli tmp1 length (elementShift t.opts element)
      addi tmp1 tmp1 (objectLayout.arrayBase t.opts.compressedClassPointers + 7)
      andi tmp1 tmp1 (-8)
      makeArray t.opts obj klass length tmp1 tmp2 slow) := by
  unfold allocArrayInline makeArray layArray
  simp only [bind_assoc, ite_bind]

instance traced_allocArrayInline : Traced (allocArrayInline element obj klass length tmp1 tmp2 slow) := by
  rw [allocArrayInline_eq]
  infer_instance

/-- The code that makes an array, or leaves for the slow path. -/
def inlineArray (element : ValueKind) (obj klass length tmp1 tmp2 : Reg) (slow : Label) : Lower Unit := do
  if (← read).opts.useTlab then allocArrayInline element obj klass length tmp1 tmp2 slow
  else Asm.j slow

instance traced_inlineArray : Traced (inlineArray element obj klass length tmp1 tmp2 slow) := by
  unfold inlineArray
  infer_instance

instance grows_inlineArray : Grows (inlineArray element obj klass length tmp1 tmp2 slow) := by
  unfold inlineArray
  infer_instance

/-- The routine that makes arrays with such elements. -/
def arrayRoutine (element : ValueKind) : RuntimeEntry := if isOop element then .newObjectArray else .newTypeArray

theorem allocArray_eq : allocArray i = (do
    let obj ← reg i.result "new array"
    let a ← payload i.alloc
    let klass ← reg a.klass "klass"
    let length ← reg a.len "length"
    let tmp1 ← reg a.tmp1 "temporary"
    let tmp2 ← reg a.tmp2 "temporary"
    distinct "allocate array" [obj, klass, length, tmp1, tmp2]
    let entry ← newLabel
    let cont ← newLabel
    addSlowPath (.newArray (arrayRoutine a.element) klass length obj i.info entry cont)
    inlineArray a.element obj klass length tmp1 tmp2 entry
    Asm.bind cont) := by
  unfold allocArray inlineArray
  simp only [bind_assoc, ite_bind]
  rfl

instance traced_allocArray : Traced (allocArray i) := by
  rw [allocArray_eq]
  infer_instance

instance seals_allocArray : Seals (allocArray i) := by
  rw [allocArray_eq]
  infer_instance

theorem emit_newArray :
    emitSlowPath (.newArray e klass length result info entry cont) = (liftM (Asm.bind entry) : Lower Unit) >>= fun _ =>
      (liftM (mv t0 length) : Lower Unit) >>= fun _ => (liftM (mv (.x 13) klass) : Lower Unit) >>= fun _ =>
        (liftM (mv (.x 19) t0) : Lower Unit) >>= fun _ => request e info result cont := rfl

instance traced_newArray : Traced (emitSlowPath (.newArray e klass length result info entry cont)) := by
  rw [emit_newArray]
  infer_instance

instance seals_newArray : Seals (emitSlowPath (.newArray e klass length result info entry cont)) := by
  rw [emit_newArray]
  infer_instance

end Lower

open Lower (InReg layArray arrayRoutine allocArray dispatch)

/-! ## Arrays -/

/-- An instruction that allocates an array of elements that take memory, with registers that are not reserved. -/
structure Instruction.MakesArray (i : Instruction) (a : AllocInfo) (obj klass length tmp1 tmp2 : Reg) : Prop where
  op : i.op = .allocArray
  alloc : i.alloc = some a
  element : a.element.size ≠ 0
  inResult : InReg i.result obj
  inKlass : InReg a.klass klass
  inLength : InReg a.len length
  inTmp1 : InReg a.tmp1 tmp1
  inTmp2 : InReg a.tmp2 tmp2
  general : ∀ r ∈ [obj, klass, length, tmp1, tmp2], r.General

/-- Arrays are made inline, this one is not too long and the buffer has room for it. -/
def AllocInfo.ReadyFor (a : AllocInfo) (o : Options) (length : UInt64) (m : Machine) : Prop :=
  o.useTlab = true ∧ length.toNat ≤ 0x00ffffff ∧ m.Fits (o.arraySize a.element length.toNat)

/-- A new array: its length is behind the type, and the rest is clear. -/
structure NewArray (o : Options) (result : Reg) (rs : List Reg) (klass length : UInt64) (size : Nat)
    (m m' : Machine) : Prop
    extends NewObject o result rs klass (12 + o.klassBytes) size m m' where
  length : m'.mem.read (m.tlabTop + UInt64.ofNat (8 + o.klassBytes)) 4 = length

theorem NewArray.after {o : Options} {result : Reg} {rs rs' : List Reg} {klass length : UInt64} {size : Nat}
    {m m1 m' : Machine} (h : NewArray o result rs klass length size m1 m')
    (h1 : Alters rs' (fun _ => False) m m1) (hr : thread ∉ rs')
    (hrs : ∀ r ∈ rs', r ∈ rs) : NewArray o result rs klass length size m m' :=
  ⟨h.toNewObject.after h1 hr hrs, by
    rw [← (h1.tlab_eq hr).1]
    exact h.length⟩

namespace Site

variable {S : Site} {m : Machine} {E : Exits} {Q : Unit → Machine → Prop} {obj klass length tmp1 tmp2 : Reg}
  {v : UInt64} {n : Nat}

/-- Header, length and elements of an array are written. -/
theorem lowers_layArray (hopts : S.target.opts.refusal? = none) (htmp1 : Keeps tmp1) (hobj0 : obj ≠ t0)
    (hklass0 : klass ≠ t0)
    (hlength0 : length ≠ t0) (htmp0 : tmp2 ≠ t0) (hne : tmp1 ≠ tmp2) (hobj : m.get obj = v)
    (hstop : m.get tmp2 = v + UInt64.ofNat (S.target.opts.arrayBase + 8 * n))
    (hend : v.toNat + S.target.opts.arrayBase + 8 * n < 2 ^ 64)
    (hfree : ∀ addr, Spans v.toNat (S.target.opts.arrayBase + 8 * n) addr → S.Free addr)
    (h : ∀ m1 m2 m', Headed S.target.opts v (m.get klass) m m1 →
      Stored [] (v + UInt64.ofNat (8 + S.target.opts.klassBytes)) 4 (m.get length) m1 m2 →
      Cleared [tmp1] (v.toNat + (12 + S.target.opts.klassBytes))
      (S.target.opts.arrayBase + 8 * n - (12 + S.target.opts.klassBytes)) m2 m' → Q () m') :
    S.Lowers (layArray S.target.opts obj klass length tmp1 tmp2) m E Q := by
  have hbytes := S.target.opts.klassBytes_le
  have hcases := S.target.opts.arrayBase_cases
  have hgap := S.target.opts.arrayBase_gap
  have hspan (lo k : Nat) (hlo : v.toNat ≤ lo) (hk : lo + k ≤ v.toNat + (S.target.opts.arrayBase + 8 * n)) (addr : UInt64)
      (ha : Spans lo k addr) : S.Free addr := hfree addr (by omega)
  unfold layArray
  rw [lengthOffset_eq, arrayBase_eq]
  refine .bind (lowers_initializeHeader hopts hobj0 hklass0 hobj (by omega)
    (hspan _ _ (by omega) (by omega)) fun m1 h1 => ?_)
  have hobj1 : m1.get obj = v := (h1.alters.regs _ (by simpa using hobj0)).trans hobj
  have hlength1 : m1.get length = m.get length := h1.alters.regs _ (by simpa using hlength0)
  have hstop1 : m1.get tmp2 = m.get tmp2 := h1.alters.regs _ (by simpa using htmp0)
  have hplace {x : Nat} (hx : x ≤ S.target.opts.arrayBase) : (v + UInt64.ofNat x).toNat = v.toNat + x :=
    toNat_off (by omega)
  have hoff {x : Nat} {m2 : Machine} (h2 : m2.get obj = v) : m2.get obj + (Int64.ofNat x).toUInt64 =
    v + UInt64.ofNat x := by
    rw [h2, Int64.toUInt64_ofNat']
  refine .bind (lowers_asm (does_store (n := 4) rfl rfl (fun i hi => ?_) fun m2 h2 => ?_))
  · rw [hoff hobj1]
    exact hspan (v.toNat + (8 + S.target.opts.klassBytes)) 4 (by omega) (by omega) _ (spans_off (by omega) hi)
  rw [hoff hobj1, hlength1] at h2
  have hobj2 : m2.get obj = v := (h2.rest _ List.not_mem_nil).trans hobj1
  -- from the elements on, with the gap in front of them clear
  have hrest (m3 : Machine) (h3 : Cleared [] (v.toNat + (12 + S.target.opts.klassBytes))
    (S.target.opts.arrayBase - (12 + S.target.opts.klassBytes)) m2 m3) :
      S.Lowers (do
        addi tmp1 obj (Int64.ofNat S.target.opts.arrayBase)
        Lower.clearLoop tmp1 tmp2) m3 E Q := by
    have hobj3 : m3.get obj = v := (h3.alters.regs _ List.not_mem_nil).trans hobj2
    have hstop3 : m3.get tmp2 = m.get tmp2 :=
      (h3.alters.regs _ List.not_mem_nil).trans ((h2.rest _ List.not_mem_nil).trans hstop1)
    refine .bind (lowers_asm (does_addi (fun m4 h4 => ?_) htmp1))
    refine lowers_clearLoop (a := v + UInt64.ofNat S.target.opts.arrayBase) (n := n) htmp1 hne
      (h4.value.trans (hoff hobj3)) ?_ ?_
      (hspan _ _ ?_ ?_) fun m5 h5 => h m1 m2 m5 h1 h2 ?_
    · rw [h4.other _ hne.symm, hstop3, hstop, off_off]
    · rw [hplace (Nat.le_refl _)]
      omega
    · rw [hplace (Nat.le_refl _)]
      omega
    · rw [hplace (Nat.le_refl _)]
      omega
    · have hset : Cleared [tmp1] (v.toNat + S.target.opts.arrayBase) 0 m3 m4 := (h4.alters (by simp) (by simp)).cleared _
      rw [hplace (Nat.le_refl _)] at h5
      have hgap : Cleared [tmp1] _ _ m2 m3 := h3.mono (by simp)
      have hfrom : v.toNat + (12 + S.target.opts.klassBytes) + (S.target.opts.arrayBase - (12 + S.target.opts.klassBytes)) =
          v.toNat + S.target.opts.arrayBase := by omega
      have hall := hgap.append (hfrom ▸ hset.append h5)
      rwa [show S.target.opts.arrayBase - (12 + S.target.opts.klassBytes) + (0 + 8 * n) =
        S.target.opts.arrayBase + 8 * n - (12 + S.target.opts.klassBytes) by omega] at hall
  have hnext : Int64.ofNat (8 + S.target.opts.klassBytes) + 4 = Int64.ofNat (12 + S.target.opts.klassBytes) := by
    rw [show (4 : Int64) = Int64.ofNat 4 from rfl, ← Int64.ofNat_add]
    congr 1
    omega
  have hlt : Int64.ofNat (12 + S.target.opts.klassBytes) < Int64.ofNat S.target.opts.arrayBase ↔
      12 + S.target.opts.klassBytes < S.target.opts.arrayBase := by
    rw [Int64.lt_iff_toInt_lt, Int64.toInt_ofNat_of_lt (by omega), Int64.toInt_ofNat_of_lt (by omega)]
    omega
  rw [hnext]
  split
  · next hsome =>
    have hbase := hlt.mp hsome
    refine .bind (lowers_asm (does_store (n := 4) rfl rfl (fun i hi => ?_) fun m3 h3 => hrest m3 ?_))
    · rw [hoff hobj2]
      exact hspan (v.toNat + (12 + S.target.opts.klassBytes)) 4 (by omega) (by omega) _ (spans_off (by omega) hi)
    · rw [hoff hobj2] at h3
      have hcleared : Cleared [] (v + UInt64.ofNat (12 + S.target.opts.klassBytes)).toNat 4 m2 m3 := h3.cleared
        (by rw [hplace (by omega)]; omega) (by simp)
      rwa [hplace (by omega), show 4 = S.target.opts.arrayBase - (12 + S.target.opts.klassBytes) by omega] at hcleared
  · next hnone =>
    have hbase : ¬ 12 + S.target.opts.klassBytes < S.target.opts.arrayBase := fun hbase => hnone (hlt.mpr hbase)
    refine hrest m2 ?_
    rw [show S.target.opts.arrayBase - (12 + S.target.opts.klassBytes) = 0 by omega]
    exact (alters_refl ..).cleared _

variable {i : Instruction} {a : AllocInfo} (hopts : S.target.opts.refusal? = none)
  (hi : i.MakesArray a obj klass length tmp1 tmp2)
  (hdistinct : [obj, klass, length, tmp1, tmp2].Nodup)
include hopts hi hdistinct

/-- An array that fits is made, and otherwise nothing is written. -/
theorem lowers_makeArray {slow : Label} (hbuf : AllocBuffer S.Free m) (hl : S.Binds slow)
    (hsize : m.get tmp1 = UInt64.ofNat (S.target.opts.arraySize a.element (m.get length).toNat))
    (hlong : (m.get length).toNat ≤ 0x00ffffff)
    (hslow : ¬ m.Fits (S.target.opts.arraySize a.element (m.get length).toNat) →
      ∀ m', Alters [obj, tmp1, tmp2, t0] (fun _ => False) m m' → E (.label slow) m')
    (h : m.Fits (S.target.opts.arraySize a.element (m.get length).toNat) → ∀ m',
      NewArray S.target.opts obj [obj, tmp1, tmp2, t0] (m.get klass) (m.get length)
      (S.target.opts.arraySize a.element (m.get length).toNat) m m' → Q () m') :
    S.Lowers (Lower.makeArray S.target.opts obj klass length tmp1 tmp2 slow) m E Q := by
  have hobj := hi.general obj (by simp)
  have hklass := hi.general klass (by simp)
  have hlength := hi.general length (by simp)
  have htmp1 := hi.general tmp1 (by simp)
  have htmp2 := hi.general tmp2 (by simp)
  obtain ⟨hobjKlass, hobjLength, hobj1, hobj2, -, -, hklass2, -, hlength2, h12⟩ : obj ≠ klass ∧
    obj ≠ length ∧ obj ≠ tmp1 ∧ obj ≠ tmp2 ∧
      klass ≠ length ∧ klass ≠ tmp1 ∧ klass ≠ tmp2 ∧ length ≠ tmp1 ∧ length ≠ tmp2 ∧ tmp1 ≠ tmp2 := by
    simpa [and_assoc] using hdistinct
  have hsmall := arraySize_small (o := S.target.opts) hi.element hlong
  have hlow := hbuf.low
  have hbytes := S.target.opts.klassBytes_le
  have hgap := S.target.opts.arrayBase_gap
  have hwords := arraySize_words (o := S.target.opts) (k := a.element) (n := (m.get length).toNat)
  generalize hn : S.target.opts.arraySize a.element (m.get length).toNat = size at *
  refine .barrier (show Op.fence.info.format.admits _ = true by decide) ?_
  refine .bind (lowers_tlabAllocate hl hobj.keeps htmp2.keeps hobj2 (hobj.ne rfl) (htmp2.ne rfl)
    (hobj.ne rfl) (htmp2.ne rfl) hbuf
    (n := size) ⟨hsize, hobj1.symm⟩ (by omega) (fun hnot m1 h1 =>
    hslow hnot m1 (h1.mono (by simp) fun _ h => h)) fun hfits m1 h1 => ?_)
  have hroom : m.tlabTop.toNat + size ≤ m.tlabEnd.toNat := hfits
  have hklass1 : m1.get klass = m.get klass :=
    h1.alters.regs _ (by simp [hobjKlass.symm, hklass2, hklass.ne (s := t0) rfl])
  have hlength1 : m1.get length = m.get length :=
    h1.alters.regs _ (by simp [hobjLength.symm, hlength2, hlength.ne (s := t0) rfl])
  refine lowers_layArray hopts htmp1.keeps (hobj.ne rfl) (hklass.ne rfl) (hlength.ne rfl) (htmp2.ne rfl) h12 h1.start
    (by rw [h1.stop, hwords]) (by omega) (fun addr ha => hbuf.free addr ?_) fun m2 m3 m4 h2 h3 h4 p => h hfits _ ?_
  · omega
  have hplace {x : Nat} (hx : x ≤ size) : (m.tlabTop + UInt64.ofNat x).toNat = m.tlabTop.toNat + x := toNat_off (by omega)
  rw [hklass1] at h2
  rw [hlength1] at h3
  rw [← hwords] at h4
  have hbody : Alters [tmp1] (Spans (m.tlabTop.toNat + (8 + S.target.opts.klassBytes))
    (size - (8 + S.target.opts.klassBytes))) m2 m4 := by
    refine (h3.alters (by simp) (by rw [hplace (by omega)]; omega) fun x hx => ?_).trans
      (h4.alters.mono (fun _ hr => hr) fun x hx => ?_)
    · rw [hplace (by omega)] at hx
      omega
    · omega
  have hnew := h1.newObject (12 + S.target.opts.klassBytes) hbuf hfits h2 (by omega) hbody (fun j hj hlt => h4.zero _ (by
    unfold Spans
    rw [hplace (by omega)]
    omega)) (by simpa using hobj1) (hobj.ne rfl)
  have hlen : m4.mem.read (m.tlabTop + UInt64.ofNat (8 + S.target.opts.klassBytes)) 4 = m.get length := by
    rw [h4.alters.read (by rw [hplace (by omega)]; omega) fun x hx hin => ?_, h3.mem]
    · apply UInt64.toNat_inj.mp
      rw [Ram.read_write _ _ _ (by decide), Nat.mod_eq_of_lt (by omega)]
    · rw [hplace (by omega)] at hx
      omega
  exact ⟨(hnew.mono (by simp)).withPc p, hlen⟩

/-- The array is made if that can be done, and otherwise nothing is written. -/
theorem lowers_inlineArray {slow : Label} (hbuf : S.target.opts.useTlab = true → AllocBuffer S.Free m) (hl : S.Binds slow)
    (hslow : ¬ a.ReadyFor S.target.opts (m.get length) m → ∀ m',
    Alters [obj, tmp1, tmp2, t0] (fun _ => False) m m' → E (.label slow) m')
    (h : a.ReadyFor S.target.opts (m.get length) m → ∀ m',
    NewArray S.target.opts obj [obj, tmp1, tmp2, t0] (m.get klass) (m.get length)
      (S.target.opts.arraySize a.element (m.get length).toNat) m m' → Q () m') :
    S.Lowers (Lower.inlineArray a.element obj klass length tmp1 tmp2 slow) m E Q := by
  have hklass := hi.general klass (by simp)
  have hlength := hi.general length (by simp)
  have htmp1 := hi.general tmp1 (by simp)
  obtain ⟨hklass1, hlength1⟩ : klass ≠ tmp1 ∧ length ≠ tmp1 := by
    have hnodup := hdistinct
    simp only [List.nodup_cons, List.mem_cons, not_or] at hnodup
    exact ⟨hnodup.2.1.2.1, hnodup.2.2.1.1⟩
  unfold Lower.inlineArray
  refine .bind (lowers_read ?_)
  split
  case _ htlab =>
    rw [Lower.allocArrayInline_eq]
    refine .bind (lowers_read (.bind (lowers_asm (does_li fun m1 h1 => ?_))))
    have hset1 : Alters [tmp1, t0] (fun _ => False) m m1 := h1.alters (by simp) (by simp)
    have hlength₁ : m1.get length = m.get length := h1.other _ (hlength.ne rfl)
    have hmax : (m1.get t0).toNat = 0xffffff := congrArg UInt64.toNat h1.value
    refine .bind (lowers_asm (does_bcond rfl hl (fun ht p =>
      hslow (fun hr => ?_) _ ((hset1.mono (by simp) fun _ h => h).withPc p)) fun hf p => ?_))
    · -- the length is beyond the limit
      have hlt := UInt64.lt_iff_toNat_lt.mp (of_decide_eq_true ht)
      have hle := hr.2.1
      rw [hmax, hlength₁] at hlt
      omega
    have hlong : (m.get length).toNat ≤ 0xffffff := by
      have hnot := fun hlt => of_decide_eq_false hf (UInt64.lt_iff_toNat_lt.mpr hlt)
      rw [hmax, hlength₁] at hnot
      exact Nat.not_lt.mp hnot
    refine .bind (lowers_asm (does_slli htmp1.keeps ?_ fun m2 h2 => ?_))
    · obtain ⟨s, hs, hbytes⟩ := elementBytes_pow (o := S.target.opts) hi.element
      have hadmits : ∀ s ≤ 3, Op.slli.info.format.admits (Int64.ofNat s) = true := by decide
      rw [elementShift_eq hs hbytes]
      exact hadmits s hs
    refine .bind (lowers_asm (does_addi (fun m3 h3 =>
      .bind (lowers_asm (does_andi htmp1.keeps fun m4 h4 => ?_))) htmp1.keeps))
    have hset : Alters [tmp1, t0] (fun _ => False) m m4 :=
      (((hset1.withPc p).trans (h2.alters (by simp) (by simp))).trans (h3.alters (by simp) (by simp))).trans
      (h4.alters (by simp) (by simp))
    have hthread : thread ∉ [tmp1, t0] := by simp [(htmp1.ne (s := thread) rfl).symm]; decide
    have hklass4 : m4.get klass = m.get klass := hset.regs _ (by simp [hklass1, hklass.ne (s := t0) rfl])
    have hlength4 : m4.get length = m.get length := hset.regs _ (by simp [hlength1, hlength.ne (s := t0) rfl])
    have hsize : m4.get tmp1 = UInt64.ofNat (S.target.opts.arraySize a.element (m.get length).toNat) := by
      rw [h4.value, h3.value, h2.value, Machine.get_withPc, hlength₁]
      exact arraySize_computed hi.element hlong
    have hfits {size : Nat} : m4.Fits size ↔ m.Fits size := by
      obtain ⟨htop, hend⟩ := hset.tlab_eq hthread
      unfold Fits
      rw [htop, hend]
    refine lowers_makeArray hopts hi hdistinct ((hbuf htlab).stays hset hthread) hl
      (by rw [hlength4]; exact hsize) (by rw [hlength4]; exact hlong)
      (fun hnot m' h' => hslow (fun hr => hnot ?_) m' ((hset.mono (by simp) fun _ h => h).trans h')) fun hroom m' h' => ?_
    · rw [hfits, hlength4]
      exact hr.2.2
    · rw [hfits, hlength4] at hroom
      rw [hklass4, hlength4] at h'
      exact h ⟨htlab, hlong, hroom⟩ m' (h'.after hset hthread (by simp))
  case _ hnone => exact lowers_asm (does_j hl fun p => hslow (fun hr => hnone hr.1) _ ((alters_refl ..).withPc p))

end Site

section
variable {t : Target} {c : Resident t} {W : World} {k : Nat} {i : Instruction} {a : AllocInfo}
  {obj klass length tmp1 tmp2 : Reg} {m : Machine} (hopts : t.opts.refusal? = none)
  (hi : i.MakesArray a obj klass length tmp1 tmp2) (hm : c.Facing W k i m)
  (hbuf : t.opts.useTlab = true → AllocBuffer c.Clear m)
  (hstart : c.start % 2 = 0) (heven : t.runtime.addr (arrayRoutine a.element) % 2 = 0)
include hopts hi hm hbuf hstart heven

/-- An instruction that allocates an array makes it or asks the runtime. -/
theorem makesArray_outcome :
    a.ReadyFor t.opts (m.get length) m ∧ c.Runs W k m
    (NewArray t.opts obj [obj, tmp1, tmp2, t0] (m.get klass) (m.get length)
      (t.opts.arraySize a.element (m.get length).toNat) m) ∨
    ¬ a.ReadyFor t.opts (m.get length) m ∧ ∃ m', W.Reaches m m' ∧ c.Asks W k (arrayRoutine a.element) obj m' ∧
      m'.get (.x 13) = m.get klass ∧ m'.get (.x 19) = m.get length ∧
      Alters [obj, tmp1, tmp2, t0, .x 13, .x 19, ra] (fun _ => False) m m' := by
  have hdispatch : dispatch i = allocArray i := by
    rw [Lower.dispatch.eq_def]
    simp only [hi.op]
  have hobj := hi.general obj (by simp)
  have hklass := hi.general klass (by simp)
  have hlength := hi.general length (by simp)
  have hgo := hm.completes (P := fun m' => ¬ a.ReadyFor t.opts (m.get length) m ∧
    c.Asks W k (arrayRoutine a.element) obj m' ∧
      m'.get (.x 13) = m.get klass ∧ m'.get (.x 19) = m.get length ∧
      Alters [obj, tmp1, tmp2, t0, .x 13, .x 19, ra] (fun _ => False) m m')
    (Q := fun m' => a.ReadyFor t.opts (m.get length) m ∧
    NewArray t.opts obj [obj, tmp1, tmp2, t0] (m.get klass) (m.get length)
      (t.opts.arraySize a.element (m.get length).toNat) m m') hdispatch fun S hviews _ => ?_
  · rcases hgo with ⟨m', hreach, hbefore, hready, hnew⟩ | ⟨m', hreach, hnot, hasks⟩
    · exact .inl ⟨hready, m', hreach, hbefore, hnew⟩
    · exact .inr ⟨hnot, m', hreach, hasks⟩
  rw [Lower.allocArray_eq]
  refine completes_lift fun r0 h0 => completes_lift fun a' ha => completes_lift fun r1 h1 => completes_lift fun r2 h2 =>
    completes_lift fun r3 h3 => completes_lift fun r4 h4 => completes_lift fun _ hdistinct => ?_
  obtain rfl := hi.inResult.unique h0
  obtain rfl : a = a' := Option.some.inj (hi.alloc.symm.trans (Lower.payload_eq_ok.mp ha))
  obtain rfl := hi.inKlass.unique h1
  obtain rfl := hi.inLength.unique h2
  obtain rfl := hi.inTmp1.unique h3
  obtain rfl := hi.inTmp2.unique h4
  obtain ⟨hobjKlass, hobjLength, hklass1, hklass2, hlength1, hlength2⟩ : obj ≠ klass ∧ obj ≠ length ∧
    klass ≠ tmp1 ∧ klass ≠ tmp2 ∧
      length ≠ tmp1 ∧ length ≠ tmp2 := by
    have hnodup := Lower.nodup_of_distinct hdistinct
    simp only [List.nodup_cons, List.mem_cons, List.not_mem_nil, or_false, not_or] at hnodup
    exact ⟨hnodup.1.1, hnodup.1.2.1, hnodup.2.1.2.1, hnodup.2.1.2.2, hnodup.2.2.1.1, hnodup.2.2.1.2⟩
  refine completes_newLabel fun entry => completes_newLabel fun cont => completes_slowPath fun hwrites hcont hend => ?_
  have ht := hviews.target
  subst ht
  refine Lowers.detour (P := fun m' => ¬ a.ReadyFor S.target.opts (m.get length) m ∧
    Alters [obj, tmp1, tmp2, t0] (fun _ => False) m m')
    (Lower.emit_newArray (arrayRoutine a.element) klass length obj i.info entry cont) hwrites
    (fun hentry => ?_) fun S' hbeside m1 hslow => ?_
  · exact lowers_inlineArray hopts hi (Lower.nodup_of_distinct hdistinct)
      (fun htlab => (hbuf htlab).mono fun addr => (hviews.free addr).mpr) hentry
      (fun hnot m' h => .inl ⟨rfl, hnot, h⟩) fun hready m' h => ⟨hready, h⟩
  · obtain ⟨hnot, h1⟩ := hslow
    have hklass₁ : m1.get klass = m.get klass :=
      h1.regs _ (by simp [hobjKlass.symm, hklass1, hklass2, hklass.ne (s := t0) rfl])
    have hlength₁ : m1.get length = m.get length :=
      h1.regs _ (by simp [hobjLength.symm, hlength1, hlength2, hlength.ne (s := t0) rfl])
    refine .bind (lowers_asm (does_mv fun m2 h2 => .bind (lowers_asm (does_mv fun m3 h3 =>
      .bind (lowers_asm (does_mv fun m4 h4 => ?_))))))
    refine lowers_request hviews hbeside hcont hend hobj.keeps heven hstart fun ret m5 hcalled hasks =>
      .inr (.inl ⟨rfl, hnot, hasks, ?_, ?_, ?_⟩)
    · rw [hcalled.rest _ (by decide) (by decide), h4.other _, h3.value,
        h2.other _ (hklass.ne rfl), hklass₁]
    · rw [hcalled.rest _ (by decide) (by decide), h4.value, h3.other _, h2.value, hlength₁]
    · exact ((((h1.mono (by simp) fun _ h => h).trans (h2.alters (by simp) (by simp))).trans
        (h3.alters (by simp) (by simp))).trans
        (h4.alters (by simp) (by simp))).trans (hcalled.alters (by simp) (by simp))

/-- Arrays are made in the buffer of the thread when that can be done, and by the runtime otherwise. -/
theorem array_allocation :
    (a.ReadyFor t.opts (m.get length) m → c.Runs W k m
    (NewArray t.opts obj [obj, tmp1, tmp2, t0] (m.get klass) (m.get length)
      (t.opts.arraySize a.element (m.get length).toNat) m)) ∧
    (¬ a.ReadyFor t.opts (m.get length) m → ∃ m', W.Reaches m m' ∧ c.Asks W k (arrayRoutine a.element) obj m' ∧
      m'.get (.x 13) = m.get klass ∧ m'.get (.x 19) = m.get length ∧
      Alters [obj, tmp1, tmp2, t0, .x 13, .x 19, ra] (fun _ => False) m m') := by
  rcases makesArray_outcome hopts hi hm hbuf hstart heven with ⟨hready, hmade⟩ | ⟨hnot, hasked⟩
  · exact ⟨fun _ => hmade, fun hn => absurd hready hn⟩
  · exact ⟨fun hr => absurd hr hnot, fun _ => hasked⟩

end

/-- An array of shorts, of the length in x12. -/
def shortArray : AllocInfo := { smallObject with len := .register .int (.x 12) .none, element := .short }

def makingArray : Instruction := { op := .allocArray, alloc := some shortArray, result := .register .array (.x 14) .none }

/-- Five shorts take 32 bytes with the header; a buffer of `0x18` bytes has no room for them. -/
theorem short_array_is_made : ∃ (c : Resident allocTarget) (pc : UInt64) (m1 m2 : Machine),
    c.program = single makingArray ∧
    World.bare.Reaches (allocator c.method.blob.code pc 0x8000 0x8100) m1 ∧ m1.get (.x 14) = 0x8000 ∧
    m1.mem.read 0x9060 8 = 0x8020 ∧
      m1.mem.read 0x8000 8 = 1 ∧ allocTarget.opts.klassAt m1.mem 0x8000 = 0x4000 ∧ m1.mem.read 0x800c 4 = 5 ∧
      m1.mem 0x801f = 0 ∧
    World.bare.Reaches (allocator c.method.blob.code pc 0x8000 0x8018) m2 ∧
    m2.pc = allocTarget.runtime.addr .newTypeArray ∧
      m2.get (.x 13) = 0x4000 ∧ m2.get (.x 19) = 5 ∧ m2.mem.read 0x9060 8 = 0x8000 := by
  obtain ⟨c, pc, hprogram, hstart, hsize, hclear, hfacing⟩ :=
    stationed (i := makingArray) (by decide +kernel) (by decide +kernel)
  have hmakes : makingArray.MakesArray shortArray (.x 14) (.x 11) (.x 12) (.x 15) (.x 16) :=
    ⟨rfl, rfl, by decide, ⟨rfl, rfl⟩, ⟨rfl, rfl⟩, ⟨rfl, rfl⟩, ⟨rfl, rfl⟩, ⟨rfl, rfl⟩, by
      simp only [List.mem_cons, List.not_mem_nil, or_false]
      rintro r (rfl | rfl | rfl | rfl | rfl) <;> exact ⟨⟨_, rfl⟩, rfl⟩⟩
  have hrun (top stop : UInt64) (hordered : top.toNat ≤ stop.toNat) (hlow : stop.toNat ≤ 0x9000) :=
    array_allocation (by decide) hmakes (hfacing World.bare (fun _ _ => rfl) top stop)
    (fun _ => (allocator_buffer _ _ _ hsize hordered hlow hclear).1)
      (by rw [hstart]; rfl) (by decide)
  have hbytes (top stop : UInt64) : allocTarget.opts.arraySize shortArray.element
      ((allocator c.method.blob.code pc top stop).get (.x 12)).toNat = 32 :=
    (by decide : allocTarget.opts.arraySize .short 5 = 32)
  obtain ⟨-, htop, hend⟩ := allocator_buffer pc 0x8000 0x8100 hsize (by decide) (by decide) hclear
  obtain ⟨-, htop', hend'⟩ := allocator_buffer pc 0x8000 0x8018 hsize (by decide) (by decide) hclear
  obtain ⟨m1, hreach1, -, hnew⟩ := (hrun 0x8000 0x8100 (by decide) (by decide)).1 ⟨rfl, (by decide : 5 ≤ 0xffffff), by
    unfold Fits
    rw [htop, hend, hbytes]
    decide⟩
  obtain ⟨m2, hreach2, hasks, hklass, hlength, hsame⟩ := (hrun 0x8000 0x8018 (by decide) (by decide)).2 fun hready => by
    have hfits := hready.2.2
    unfold Fits at hfits
    rw [htop', hend', hbytes] at hfits
    exact absurd hfits (by decide)
  obtain ⟨⟨hresult, hnext, hmark, hheader, hbody, -⟩, hlen⟩ := hnew
  rw [htop] at hresult hnext hmark hheader hbody hlen
  rw [hbytes] at hnext hbody
  refine ⟨c, pc, m1, m2, hprogram, hreach1, hresult, hnext, hmark, hheader fun _ => ⟨0x4000, rfl⟩, hlen,
    hbody 31 (by decide) (by decide), hreach2, hasks.pc, hklass, hlength, ?_⟩
  rw [hsame.mem_eq]
  exact htop'

/-! ## Registers that live across an allocation -/

/-- A routine of the runtime returns, and keeps the code and the integer registers but for t0, t1 and the
result register. -/
def Resident.Served {t : Target} (c : Resident t) (W : World) (e : RuntimeEntry) : Prop :=
  ∀ m, m.pc = t.runtime.addr e → c.method.blob.Stands c.start m → ∃ m', W.Reaches m m' ∧ m'.pc = m.get ra ∧
    c.method.blob.Stands c.start m' ∧ ∀ n : Fin 32, Reg.x n ∉ [t0, t1, .x 10] → m'.get (.x n) = m.get (.x n)

section
variable {t : Target} {c : Resident t} {W : World} {k : Nat} {i : Instruction} {m : Machine}

/-- When the runtime was asked, what it kept is kept in front of the next instruction. -/
theorem Resident.Asks.served {e : RuntimeEntry} {result : Reg} {m1 : Machine} (h : c.Asks W k e result m1)
    (hserved : c.Served W e)
    (hstands : c.method.blob.Stands c.start m1) :
    c.Runs W k m1 fun m' => ∀ n : Fin 32, Reg.x n ∉ [result, t0, t1, .x 10] → m'.get (.x n) = m1.get (.x n) := by
  obtain ⟨m2, hreach, hpc, hstands2, hkept⟩ := hserved m1 h.pc hstands
  obtain ⟨m3, hreach', hbefore, hput⟩ := h.back m2 hstands2 hpc
  refine ⟨m3, hreach.trans hreach', hbefore, fun n hn => ?_⟩
  simp only [List.mem_cons, not_or] at hn
  rw [hput.other _ hn.1, hkept n (by simpa using hn.2)]

/-- What an allocation leaves in registers that are not its own. -/
theorem allocation_keeps_registers (hopts : t.opts.refusal? = none) (hm : c.Facing W k i m)
    (hbuf : t.opts.useTlab = true → AllocBuffer c.Clear m) (hstart : c.start % 2 = 0) :
    (∀ a size obj klass tmp1 tmp2, i.MakesObject a size obj klass tmp1 tmp2 →
    t.runtime.addr .newInstance % 2 = 0 → c.Served W .newInstance →
      c.Runs W k m fun m' => ∀ n : Fin 32, Reg.x n ∉ [obj, tmp1, tmp2, .x 10, ra, t0, t1] → m'.get (.x n) = m.get (.x n) ∨
        ¬ a.Ready t.opts klass size m ∧ n = 13 ∧ m'.get (.x n) = m.get klass) ∧
    (∀ a obj klass length tmp1 tmp2, i.MakesArray a obj klass length tmp1 tmp2 →
    t.runtime.addr (arrayRoutine a.element) % 2 = 0 →
      c.Served W (arrayRoutine a.element) →
      c.Runs W k m fun m' => ∀ n : Fin 32, Reg.x n ∉ [obj, tmp1, tmp2, .x 10, ra, t0, t1] → m'.get (.x n) = m.get (.x n) ∨
        ¬ a.ReadyFor t.opts (m.get length) m ∧
        (n = 13 ∧ m'.get (.x n) = m.get klass ∨ n = 19 ∧ m'.get (.x n) = m.get length)) := by
  have hstands {m1 : Machine} {rs : List Reg} (h : Alters rs (fun _ => False) m m1) : c.method.blob.Stands c.start m1 :=
    hm.before.stands.keep fun addr _ => h.mem addr not_false
  constructor
  · intro a size obj klass tmp1 tmp2 hi heven hserved
    rcases makesObject_outcome hopts hi hm hbuf hstart heven with
      ⟨hready, m', hreach, hbefore, hnew⟩ | ⟨hready, m1, hreach, hasks, hklass, hsame⟩
    · exact ⟨m', hreach, hbefore, fun n hn => .inl ((hnew.alters.mono (by simp) fun _ => id).regs _ hn)⟩
    · obtain ⟨m', hreach', hbefore, hkept⟩ := hasks.served hserved (hstands hsame)
      refine ⟨m', hreach.trans hreach', hbefore, fun n hn => ?_⟩
      have hown : [obj, t0, t1, .x 10] ⊆ [obj, tmp1, tmp2, .x 10, ra, t0, t1] := by simp
      rw [hkept n (mt (@hown _) hn)]
      by_cases h13 : n = 13
      · subst h13
        exact .inr ⟨hready, rfl, hklass⟩
      · have hne : Reg.x n ≠ .x 13 := mt Reg.x.inj h13
        exact .inl ((hsame.mono (by simp) fun _ => id).regs _ (List.not_mem_cons_of_ne_of_not_mem hne hn))
  · intro a obj klass length tmp1 tmp2 hi heven hserved
    rcases makesArray_outcome hopts hi hm hbuf hstart heven with
      ⟨hready, m', hreach, hbefore, hnew⟩ | ⟨hready, m1, hreach, hasks, hklass, hlength, hsame⟩
    · exact ⟨m', hreach, hbefore, fun n hn => .inl ((hnew.alters.mono (by simp) fun _ => id).regs _ hn)⟩
    · obtain ⟨m', hreach', hbefore, hkept⟩ := hasks.served hserved (hstands hsame)
      refine ⟨m', hreach.trans hreach', hbefore, fun n hn => ?_⟩
      have hown : [obj, t0, t1, .x 10] ⊆ [obj, tmp1, tmp2, .x 10, ra, t0, t1] := by simp
      rw [hkept n (mt (@hown _) hn)]
      by_cases h13 : n = 13
      · subst h13
        exact .inr ⟨hready, .inl ⟨rfl, hklass⟩⟩
      by_cases h19 : n = 19
      · subst h19
        exact .inr ⟨hready, .inr ⟨rfl, hlength⟩⟩
      · have hne : Reg.x n ∉ [Reg.x 13, .x 19] := by simp [h13, h19]
        exact .inl ((hsame.mono (by simp) fun _ => id).regs _ (List.not_mem_append hne hn))

end

/-- The runtime comes back at once. -/
def returning (m : Machine) : Machine := { m with pc := m.get ra }

/-- A runtime whose routine for objects comes back. -/
def returningWorld : World := fun pc => if pc = allocTarget.runtime.addr .newInstance then some returning else none

theorem returningWorld_outside : ∀ j < 0x1000, returningWorld (0x10000 + UInt64.ofNat j) = none := by
  intro j hj
  refine if_neg fun e => ?_
  have haddr : (0x10000 + UInt64.ofNat j).toNat = 0x10000 + j := toNat_off (a := 0x10000) (by show 0x10000 + j < _; omega)
  have hnat := congrArg UInt64.toNat e
  rw [haddr, show (allocTarget.runtime.addr .newInstance).toNat = 0x20090 by decide] at hnat
  omega

theorem returningWorld_serves (c : Resident allocTarget) : c.Served returningWorld .newInstance := fun m hpc hstands =>
  ⟨returning m, .one (by rw [World.step, hpc]; rfl), rfl, hstands, fun _ _ => rfl⟩

/-- The runtime was asked, and x12 is as before. -/
theorem live_register_is_kept : ∃ (c : Resident allocTarget) (pc : UInt64) (m1 : Machine),
    c.program = single makingObject ∧
    returningWorld.Reaches (allocator c.method.blob.code pc 0x8000 0x8018) m1 ∧ c.Before 1 m1 ∧ m1.get (.x 12) = 5 := by
  obtain ⟨c, pc, hprogram, hstart, hsize, hclear, hfacing⟩ := makingObject_stationed
  obtain ⟨m1, hreach, hbefore, hregs⟩ := (allocation_keeps_registers (by decide)
    (hfacing returningWorld returningWorld_outside 0x8000 0x8018)
    (fun _ => (allocator_buffer _ _ _ hsize (by decide) (by decide) hclear).1) (by rw [hstart]; rfl)).1
    smallObject 32 (.x 14) (.x 11) (.x 15) (.x 16)
      makingObject_makes (by decide) (returningWorld_serves c)
  refine ⟨c, pc, m1, hprogram, hreach, hbefore, (hregs 12 (by decide)).resolve_right fun h => absurd h.2.1 (by decide)⟩

/-- With room in the buffer, x13 has zero in it as before. Without room it has the class, which is in x11; and x13 is none of the
operands nor a register that the runtime may change. -/
theorem class_register_is_lost : ∃ (c : Resident allocTarget) (pc : UInt64) (m1 m2 : Machine),
    c.program = single makingObject ∧ c.Served returningWorld .newInstance ∧
    (allocator c.method.blob.code pc 0x8000 0x8100).get (.x 13) = 0 ∧
    returningWorld.Reaches (allocator c.method.blob.code pc 0x8000 0x8100) m1 ∧ c.Before 1 m1 ∧ m1.get (.x 13) = 0 ∧
    (allocator c.method.blob.code pc 0x8000 0x8018).get (.x 13) = 0 ∧
    returningWorld.Reaches (allocator c.method.blob.code pc 0x8000 0x8018) m2 ∧ c.Before 1 m2 ∧
    m2.get (.x 13) = 0x4000 := by
  obtain ⟨c, pc, hprogram, hstart, hsize, hclear, hfacing⟩ := makingObject_stationed
  have hrun (top stop : UInt64) (hordered : top.toNat ≤ stop.toNat) (hlow : stop.toNat ≤ 0x9000) :=
    makesObject_outcome (by decide) makingObject_makes (hfacing returningWorld returningWorld_outside top stop)
      (fun _ => (allocator_buffer _ _ _ hsize hordered hlow hclear).1) (by rw [hstart]; rfl) (by decide)
  obtain ⟨-, htop, hend⟩ := allocator_buffer pc 0x8000 0x8100 hsize (by decide) (by decide) hclear
  obtain ⟨-, htop', hend'⟩ := allocator_buffer pc 0x8000 0x8018 hsize (by decide) (by decide) hclear
  rcases hrun 0x8000 0x8100 (by decide) (by decide) with ⟨-, m1, hreach1, hbefore1, hnew⟩ | ⟨hnot, -⟩
  case inr =>
    refine absurd ⟨rfl, ?_, fun _ => (allocator_read 0x4120 hsize (by decide)).trans (bufferMemory_holds _ _).2.2⟩ hnot
    unfold Fits
    rw [htop, hend]
    decide
  rcases hrun 0x8000 0x8018 (by decide) (by decide) with ⟨hready, -⟩ | ⟨-, m2, hreach2, hasks, hklass, hsame⟩
  · have hfits := hready.2.1
    unfold Fits at hfits
    rw [htop', hend'] at hfits
    exact absurd hfits (by decide)
  · obtain ⟨m3, hreach3, hbefore3, hkept⟩ := hasks.served (returningWorld_serves c)
      ((hfacing returningWorld returningWorld_outside 0x8000 0x8018).before.stands.keep fun addr _ =>
      hsame.mem addr not_false)
    exact ⟨c, pc, m1, m3, hprogram, returningWorld_serves c, rfl, hreach1, hbefore1, hnew.alters.regs _ (by decide), rfl,
      hreach2.trans hreach3, hbefore3, (hkept 13 (by decide)).trans hklass⟩

end RiscvJit
