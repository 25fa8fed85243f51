import RiscvJit.Proofs.Lower.Allocation

/-
  RiscvJit.Proofs.Lower.NewObjects — what an instruction that allocates an object does.

  When the buffer of the thread has room, and the class is initialized if that is asked for, the instruction
  makes the object there and goes on with the next instruction. Otherwise it asks the runtime, with memory
  as it was, and goes on with the runtime's result (`Resident.Asks`, `object_allocation`).
-/

namespace RiscvJit

open Machine (Keeps)
open Reg (ra t0 t1 thread)
open Asm
open Site

/-! ## Asking the runtime -/

namespace Lower

/-- How slow paths that ask the runtime for an object end. -/
def request (e : RuntimeEntry) (info : Option SiteInfo) (result : Reg) (cont : Label) : Lower Unit := do
  rtCall e
  addSite info
  mv result (.x 10)
  Asm.j cont

section
variable (e : RuntimeEntry) (info : Option SiteInfo) (result : Reg) (cont : Label)

instance traced_request : Traced (request e info result cont) := by
  unfold request
  infer_instance

instance seals_request : Seals (request e info result cont) := by
  unfold request
  infer_instance

end

end Lower

/-- The machine is at a routine of the runtime. Whenever one is back, what it has in x10 becomes the result
of the instruction, and nothing else happens before the next instruction. -/
structure Resident.Asks {t : Target} (c : Resident t) (W : World) (k : Nat) (e : RuntimeEntry) (result : Reg)
    (m : Machine) : Prop where
  pc : m.pc = t.runtime.addr e
  back : ∀ m', c.method.blob.Stands c.start m' → m'.pc = m.get ra → c.Runs W k m' (Put result [] (m'.get (.x 10)) m')

namespace Site

variable {t : Target} {c : Resident t} {W : World} {S S' : Site} {m : Machine} {E : Exits}
  {Q : Unit → Machine → Prop} {k : Nat}

/-- On a slow path the runtime is asked. -/
theorem lowers_request (hviews : c.Views W S) (hbeside : S.Beside S') {e : RuntimeEntry}
    {info : Option SiteInfo} {result : Reg} {cont : Label}
    (hl : S.Binds cont) (hend : ∀ m', S.To cont m' → c.Before (k + 1) m') (hk : Keeps result)
    (heven : t.runtime.addr e % 2 = 0)
    (hstart : c.start % 2 = 0)
    (h : ∀ ret m1, Called [t0] (t.runtime.addr e) ret m m1 → c.Asks W k e result m1 → E .away m1) :
    S'.Lowers (Lower.request e info result cont) m E Q := by
  have hstart' : S'.start % 2 = 0 := by rw [hbeside.start, hviews.start]; exact hstart
  have haddr : S'.target.runtime.addr e = t.runtime.addr e := by rw [hbeside.target, hviews.target]
  unfold Lower.request
  refine .calls (R := fun m2 => Exits.none.or (.label cont) (Put result [] (m2.get (.x 10)) m2)) hstart'
    (fun a a' hrun ha ha' hat => runtime_reaches (by decide) (by rw [haddr]; exact heven) hstart' hrun ha ha' hat)
    (fun ret m1 hcalled _ hback => h ret m1 (haddr ▸ hcalled) ⟨haddr ▸ hcalled.pc, fun m' hstands hpc => ?_⟩) fun m2 => ?_
  · rw [hcalled.ra] at hpc
    obtain ⟨m'', hreach, hleave⟩ := hback m' (hbeside.stands_iff.mpr ((hviews.stands m').mpr hstands)) hpc
    rw [hbeside.world, hviews.world] at hreach
    rcases hleave with (⟨hlabel, -⟩ | h) | ⟨l, hto, ⟨hlabel, hput⟩ | h⟩
    · cases hlabel
    · exact h.elim
    · cases hlabel
      exact ⟨m'', hreach, hend m'' (hbeside.to_iff.mp hto), hput⟩
    · exact h.elim
  · refine .bind (lowers_addSite (.bind (lowers_asm (does_mv (fun m3 h3 => ?_) hk))))
    exact lowers_asm (does_j (hbeside.binds_iff.mpr hl) fun p => .inl ⟨rfl, h3.withPc p⟩)

end Site

/-! ## The code of an allocation -/

namespace Lower

variable (obj klass tmp1 tmp2 : Reg) (size : Int64) (slow : Label) (i : Instruction) (result : Reg)
  (info : Option SiteInfo)
  (entry cont : Label)

instance seals_storeKlass (tmp : Reg) : Seals (liftM (storeKlass obj klass tmp) : Lower Unit) := by
  refine seals_of_spaces (Spaces.after fun o => ?_)
  split
  · exact Spaces.after fun _ => spaces_store _ _ _ _
  · exact spaces_store _ _ _ _

instance seals_initializeHeader : Seals (initializeHeader obj klass) := by
  unfold initializeHeader
  infer_instance

instance settles_clearWords (n : Nat) (off : Int64) : Settles (clearWords obj n off) := by
  induction n generalizing off with
  | zero => exact settles_pure ()
  | succ n ih =>
    unfold clearWords
    infer_instance

instance settles_clearRange (cur end' : Reg) (start stop : Int64) : Settles (clearRange obj cur end' start stop) := by
  unfold clearRange
  infer_instance

instance settles_clearGap : Settles (clearGap obj size) := by
  unfold clearGap
  dsimp only
  infer_instance

/-- What is written into an object that was cut off. -/
def layObject (obj klass tmp1 tmp2 : Reg) (size : Int64) : Lower Unit := do
  initializeHeader obj klass
  let body ← clearGap obj size
  clearRange obj tmp1 tmp2 body size

instance traced_layObject : Traced (layObject obj klass tmp1 tmp2 size) := by
  unfold layObject
  infer_instance

instance seals_layObject : Seals (layObject obj klass tmp1 tmp2 size) := by
  unfold layObject
  exact seals_then

/-- An object is cut off the buffer and written. -/
def makeObject (obj klass tmp1 tmp2 : Reg) (size : Int64) (slow : Label) : Lower Unit := do
  tlabAllocate obj tmp2 (.const size) slow
  layObject obj klass tmp1 tmp2 size
  membar MemoryOrder.storeStore

theorem makeObject_eq : makeObject obj klass tmp1 tmp2 size slow =
    (tlabAllocate obj tmp2 (.const size) slow >>= fun _ => layObject obj klass tmp1 tmp2 size) >>= fun _ =>
      (liftM (membar MemoryOrder.storeStore) : Lower Unit) := by
  unfold makeObject
  simp only [bind_assoc]

instance traced_makeObject : Traced (makeObject obj klass tmp1 tmp2 size slow) := by
  rw [makeObject_eq]
  exact traced_barrier _

/-- The code that makes an object, or leaves for the slow path. -/
def inlineObject (a : AllocInfo) (obj klass tmp1 tmp2 : Reg) (slow : Label) : Lower Unit := do
  if a.initCheck then checkInitialized klass slow
  if (← read).opts.useTlab then makeObject obj klass tmp1 tmp2 a.size slow
  else Asm.j slow

theorem ite_bind {α β : Type} (p : Prop) [Decidable p] (x y : Lower α) (f : α → Lower β) :
    (if p then x else y) >>= f = if p then x >>= f else y >>= f := by
  split <;> rfl

instance traced_inlineObject (a : AllocInfo) : Traced (inlineObject a obj klass tmp1 tmp2 slow) := by
  unfold inlineObject
  infer_instance

instance grows_inlineObject (a : AllocInfo) : Grows (inlineObject a obj klass tmp1 tmp2 slow) := by
  unfold inlineObject makeObject layObject
  infer_instance

theorem allocObject_eq : allocObject i = (do
    let obj ← reg i.result "new object"
    let a ← payload i.alloc
    let klass ← reg a.klass "klass"
    let tmp1 ← reg a.tmp1 "temporary"
    let tmp2 ← reg a.tmp2 "temporary"
    distinct "allocate object" [obj, klass, tmp1, tmp2]
    checkObjectSize a.size
    let entry ← newLabel
    let cont ← newLabel
    addSlowPath (.newInstance klass obj i.info entry cont)
    inlineObject a obj klass tmp1 tmp2 entry
    Asm.bind cont) := by
  unfold allocObject inlineObject makeObject layObject
  simp only [bind_assoc, ite_bind]

instance traced_allocObject : Traced (allocObject i) := by
  rw [allocObject_eq]
  infer_instance

instance seals_allocObject : Seals (allocObject i) := by
  rw [allocObject_eq]
  infer_instance

theorem emit_newInstance :
    emitSlowPath (.newInstance klass result info entry cont) = (liftM (Asm.bind entry) : Lower Unit) >>= fun _ =>
      (liftM (mv (.x 13) klass) : Lower Unit) >>= fun _ => request .newInstance info result cont := rfl

instance traced_newInstance : Traced (emitSlowPath (.newInstance klass result info entry cont)) := by
  rw [emit_newInstance]
  infer_instance

instance seals_newInstance : Seals (emitSlowPath (.newInstance klass result info entry cont)) := by
  rw [emit_newInstance]
  infer_instance

end Lower

namespace Site

variable {S : Site} {m : Machine} {E : Exits} {Q : Unit → Machine → Prop} {obj klass tmp1 tmp2 : Reg}
  {v : UInt64} {size : Nat}

/-- The half word between a compressed type and the body is cleared. -/
theorem lowers_clearGap {Q : Int64 → Machine → Prop} (hobj : m.get obj = v) (h16 : 16 ≤ size) (hsmall : size < 2 ^ 63)
    (hend : v.toNat + 16 ≤ 2 ^ 64) (hfree : ∀ addr, Spans v.toNat 16 addr → S.Free addr)
    (h : ∀ m', Cleared [] (v.toNat + (8 + S.target.opts.klassBytes))
    (16 - (8 + S.target.opts.klassBytes)) m m' → Q 16 m') :
    S.Lowers (Lower.clearGap obj (Int64.ofNat size)) m E Q := by
  unfold Lower.clearGap
  refine .bind (lowers_read ?_)
  unfold Options.klassBytes at h
  split
  · next hc =>
    rw [if_pos hc] at h
    have hgap : (decide (objectLayout.instanceHeaderNarrow % 8 ≠ 0) && decide
      (objectLayout.instanceHeaderNarrow < Int64.ofNat size)) = true := by
      have hlt : (12 : Int64) < Int64.ofNat size := by
        rw [Int64.lt_iff_toInt_lt, Int64.toInt_ofNat_of_lt hsmall]
        show (12 : Int) < size
        omega
      exact Bool.and_eq_true_iff.mpr ⟨by decide, decide_eq_true hlt⟩
    have hplace : (v + 12).toNat = v.toNat + 12 := toNat_off (k := 12) (by omega)
    have hoff : m.get obj + objectLayout.instanceHeaderNarrow.toUInt64 = v + 12 := by
      rw [hobj]
      rfl
    dsimp only
    rw [if_pos hgap]
    refine .bind (lowers_asm (does_store (n := 4) rfl rfl (fun i hi => hfree _ ?_) fun m1 h1 =>
      lowers_pure (h m1 ?_)))
    · have := spans_at (a := v + 12) (n := 4) (i := i) (by omega) hi
      rw [hoff]
      omega
    · rw [hoff] at h1
      have hcleared : Cleared [] (v + 12).toNat 4 m m1 := h1.cleared (by omega) (by simp)
      rwa [hplace] at hcleared
  · next hc =>
    rw [if_neg hc] at h
    exact lowers_pure (h m ((alters_refl ..).cleared _))

/-- Header and body of an object are written. -/
theorem lowers_layObject (hopts : S.target.opts.refusal? = none) (htmp1 : Keeps tmp1) (htmp2 : Keeps tmp2)
    (hobj0 : obj ≠ t0) (hklass0 : klass ≠ t0)
    (hobj1 : obj ≠ tmp1) (htmp0 : tmp1 ≠ t0) (hne : tmp1 ≠ tmp2) (hobj : m.get obj = v)
    (hwords : size % 8 = 0) (h16 : 16 ≤ size) (hsmall : size < 2 ^ 63) (hend : v.toNat + size < 2 ^ 64)
    (hfree : ∀ addr, Spans v.toNat size addr → S.Free addr)
    (h : ∀ m1 m', Headed S.target.opts v (m.get klass) m m1 →
      Cleared [tmp1, tmp2, t0] (v.toNat + (8 + S.target.opts.klassBytes))
      (size - (8 + S.target.opts.klassBytes)) m1 m' → Q () m') :
    S.Lowers (Lower.layObject obj klass tmp1 tmp2 (Int64.ofNat size)) m E Q := by
  have hbytes := S.target.opts.klassBytes_le
  have hspan {lo n : Nat} (hlo : v.toNat ≤ lo) (hn : lo + n ≤ v.toNat + size) (addr : UInt64)
    (ha : Spans lo n addr) : S.Free addr :=
    hfree addr (by omega)
  unfold Lower.layObject
  refine .bind (lowers_initializeHeader hopts hobj0 hklass0 hobj (by omega) (hspan (by omega) (by omega)) fun m1 h1 => ?_)
  have hobj₁ : m1.get obj = v := (h1.alters.regs _ (by simpa using hobj0)).trans hobj
  refine .bind (lowers_clearGap hobj₁ h16 hsmall (by omega) (hspan (by omega) (by omega)) fun m2 h2 => ?_)
  have hobj2 : m2.get obj = v := (h2.alters.regs _ List.not_mem_nil).trans hobj₁
  obtain ⟨n, rfl⟩ : ∃ n, size = 16 + 8 * n := ⟨(size - 16) / 8, by omega⟩
  refine lowers_clearRange (b := 16) htmp1 htmp2 hobj0 hobj1 htmp0 hne hobj2 (by omega) hsmall
    (hspan (by omega) (by omega)) fun m3 h3 =>
    h m1 m3 h1 ?_
  have hgap : Cleared [tmp1, tmp2, t0] _ _ m1 m2 := h2.mono (by simp)
  have hfrom : v.toNat + (8 + S.target.opts.klassBytes) + (16 - (8 + S.target.opts.klassBytes)) = v.toNat + 16 := by omega
  have hcleared := hgap.append (hfrom ▸ h3)
  rwa [show 16 - (8 + S.target.opts.klassBytes) + 8 * n =
    16 + 8 * n - (8 + S.target.opts.klassBytes) by omega] at hcleared

/-- Classes that are not initialized are left to the slow path. -/
theorem lowers_checkInitialized {slow : Label} (hl : S.Binds slow)
    (hnot : m.mem.read (m.get klass + 0x120) 1 ≠ 4 → ∀ m', Alters [t0, t1] (fun _ => False) m m' → E (.label slow) m')
    (h : m.mem.read (m.get klass + 0x120) 1 = 4 → ∀ m', Alters [t0, t1] (fun _ => False) m m' → Q () m') :
    S.Lowers (Lower.checkInitialized klass slow) m E Q := by
  unfold Lower.checkInitialized
  refine .bind (lowers_asm (does_load (n := 1) rfl rfl (by decide) fun m1 h1 => ?_))
  refine .bind (lowers_asm (does_li fun m2 h2 => ?_))
  have hset : Alters [t0, t1] (fun _ => False) m m2 :=
    (h1.alters (by simp) (by simp)).trans (h2.alters (by simp) (by simp))
  have hstate : m2.get t0 = m.mem.read (m.get klass + 0x120) 1 := (h2.other _).trans h1.value
  have hfour : m2.get t1 = 4 := h2.value
  refine lowers_asm (does_bcond rfl hl (fun ht p => hnot ?_ _ (hset.withPc p)) fun hf p => h ?_ _ (hset.withPc p))
  · rw [← hstate, ← hfour]
    exact of_decide_eq_true ht
  · have hnot := of_decide_eq_false hf
    rw [hstate, hfour] at hnot
    exact Classical.not_not.mp hnot

end Site

/-! ## Objects -/

/-- An instruction that allocates an object of so many bytes, with registers that are not reserved. -/
structure Instruction.MakesObject (i : Instruction) (a : AllocInfo) (size : Nat) (obj klass tmp1 tmp2 : Reg) : Prop where
  op : i.op = .allocObject
  alloc : i.alloc = some a
  bytes : a.size.toInt = size
  words : size % 8 = 0
  header : 16 ≤ size
  inResult : Lower.InReg i.result obj
  inKlass : Lower.InReg a.klass klass
  inTmp1 : Lower.InReg a.tmp1 tmp1
  inTmp2 : Lower.InReg a.tmp2 tmp2
  general : ∀ r ∈ [obj, klass, tmp1, tmp2], r.General

/-- Objects are made inline, the buffer has room for this one, and its class is initialized if that is asked for. -/
def AllocInfo.Ready (a : AllocInfo) (o : Options) (klass : Reg) (size : Nat) (m : Machine) : Prop :=
  o.useTlab = true ∧ m.Fits size ∧ (a.initCheck = true → m.mem.read (m.get klass + 0x120) 1 = 4)

theorem Instruction.MakesObject.size_eq {i : Instruction} {a : AllocInfo} {size : Nat} {obj klass tmp1 tmp2 : Reg}
    (h : i.MakesObject a size obj klass tmp1 tmp2) : a.size = Int64.ofNat size ∧ size < 2 ^ 63 := by
  have hlt := a.size.toInt_lt
  rw [h.bytes] at hlt
  have hsmall : size < 2 ^ 63 := by omega
  refine ⟨Int64.toInt_inj.mp ?_, hsmall⟩
  rw [h.bytes, Int64.toInt_ofNat_of_lt hsmall]

namespace Site

variable {S : Site} {m : Machine} {E : Exits} {Q : Unit → Machine → Prop} {i : Instruction} {a : AllocInfo}
  {obj klass tmp1 tmp2 : Reg} {size : Nat}

variable (hopts : S.target.opts.refusal? = none) (hi : i.MakesObject a size obj klass tmp1 tmp2)
  (hdistinct : [obj, klass, tmp1, tmp2].Nodup)
include hopts hi hdistinct

/-- An object that fits is made, and otherwise nothing is written. -/
theorem lowers_makeObject {slow : Label} (hbuf : AllocBuffer S.Free m) (hl : S.Binds slow)
    (hslow : ¬ m.Fits size → ∀ m', Alters [obj, tmp2, t0, t1] (fun _ => False) m m' → E (.label slow) m')
    (h : m.Fits size → ∀ m', NewObject S.target.opts obj [obj, tmp1, tmp2, t0, t1] (m.get klass)
    (8 + S.target.opts.klassBytes) size m m' →
      Q () m') : S.Lowers (Lower.makeObject obj klass tmp1 tmp2 a.size slow) m E Q := by
  obtain ⟨hsize, hsmall⟩ := hi.size_eq
  have hobj := hi.general obj (by simp)
  have hklass := hi.general klass (by simp)
  have htmp1 := hi.general tmp1 (by simp)
  have htmp2 := hi.general tmp2 (by simp)
  obtain ⟨hobjKlass, hobj1, hobj2, -, hklass2, h12⟩ : obj ≠ klass ∧ obj ≠ tmp1 ∧ obj ≠ tmp2 ∧ klass ≠ tmp1 ∧
    klass ≠ tmp2 ∧ tmp1 ≠ tmp2 := by
    simpa [and_assoc] using hdistinct
  have hlow := hbuf.low
  rw [Lower.makeObject_eq]
  refine .barrier (show Op.fence.info.format.admits _ = true by decide) ?_
  refine .bind (lowers_tlabAllocate hl hobj.keeps htmp2.keeps hobj2 (hobj.ne rfl) (htmp2.ne rfl)
    (hobj.ne rfl) (htmp2.ne rfl) hbuf
    (n := size) hsize hsmall (fun hnot m1 h1 => hslow hnot m1 (h1.mono (by simp) fun _ h => h)) fun hfits m1 h1 => ?_)
  have hroom : m.tlabTop.toNat + size ≤ m.tlabEnd.toNat := hfits
  have hklass1 : m1.get klass = m.get klass :=
    h1.alters.regs _ (by simp [hobjKlass.symm, hklass2, hklass.ne (s := t0) rfl])
  rw [hsize]
  refine lowers_layObject hopts htmp1.keeps htmp2.keeps (hobj.ne rfl) (hklass.ne rfl) hobj1 (htmp1.ne rfl) h12 h1.start
    hi.words hi.header hsmall (by omega) (fun addr ha => hbuf.free addr ?_) fun m2 m3 h2 h3 p =>
      h hfits _ (.withPc ?_ p)
  · omega
  · have hheader := hi.header
    have hbytes := S.target.opts.klassBytes_le
    rw [hklass1] at h2
    refine (h1.newObject _ hbuf hfits h2 (by omega) h3.alters (fun j hj hlt => h3.zero _ ?_)
      (by simp [hobj1, hobj2, hobj.ne (s := t0) rfl]) (hobj.ne rfl)).mono (by simp)
    unfold Spans
    rw [toNat_off (by omega)]
    omega

/-- The object is made if that can be done, and otherwise nothing is written. -/
theorem lowers_inlineObject {slow : Label} (hbuf : S.target.opts.useTlab = true → AllocBuffer S.Free m)
    (hl : S.Binds slow)
    (hslow : ¬ a.Ready S.target.opts klass size m → ∀ m',
    Alters [obj, tmp2, t0, t1] (fun _ => False) m m' → E (.label slow) m')
    (h : a.Ready S.target.opts klass size m → ∀ m',
    NewObject S.target.opts obj [obj, tmp1, tmp2, t0, t1] (m.get klass) (8 + S.target.opts.klassBytes) size m m' →
      Q () m') : S.Lowers (Lower.inlineObject a obj klass tmp1 tmp2 slow) m E Q := by
  have hklass := hi.general klass (by simp)
  have hthread : thread ∉ [t0, t1] := by decide
  -- from the buffer on
  have hmake (m1 : Machine) (h1 : Alters [t0, t1] (fun _ => False) m m1)
      (hinit : a.initCheck = true → m.mem.read (m.get klass + 0x120) 1 = 4) :
      S.Lowers ((read : Lower Target) >>= fun t =>
      if t.opts.useTlab = true then Lower.makeObject obj klass tmp1 tmp2 a.size slow
        else (liftM (Asm.j slow) : Lower Unit)) m1 E Q := by
    have hklass1 : m1.get klass = m.get klass := h1.regs _ (by simp [hklass.ne (s := t0) rfl, hklass.ne (s := t1) rfl])
    have hfits : m1.Fits size ↔ m.Fits size := by
      obtain ⟨htop, hend⟩ := h1.tlab_eq hthread
      unfold Machine.Fits
      rw [htop, hend]
    refine .bind (lowers_read ?_)
    split
    · next htlab =>
      refine lowers_makeObject hopts hi hdistinct ((hbuf htlab).stays h1 hthread) hl
        (fun hnot m' h' => hslow (fun hr => hnot (hfits.mpr hr.2.1)) m'
        ((h1.mono (by simp) fun _ h => h).trans h')) fun hroom m' h' =>
          h ⟨htlab, hfits.mp hroom, hinit⟩ m' (.after ?_ h1 hthread (by simp))
      rwa [hklass1] at h'
    · next hnone => exact lowers_asm (does_j hl fun p =>
        hslow (fun hr => hnone hr.1) _ ((h1.mono (by simp) fun _ h => h).withPc p))
  unfold Lower.inlineObject
  split
  · next hinit =>
    exact .bind (lowers_checkInitialized hl (fun hnot m1 h1 =>
      hslow (fun hr => hnot (hr.2.2 hinit)) m1 (h1.mono (by simp) fun _ h => h))
      fun hstate m1 h1 => hmake m1 h1 fun _ => hstate)
  · next hinit => exact hmake m (alters_refl ..) fun h => absurd h hinit

end Site

section
variable {t : Target} {c : Resident t} {W : World} {k : Nat} {i : Instruction} {a : AllocInfo} {size : Nat}
  {obj klass tmp1 tmp2 : Reg} {m : Machine} (hopts : t.opts.refusal? = none)
  (hi : i.MakesObject a size obj klass tmp1 tmp2) (hm : c.Facing W k i m) (hbuf : t.opts.useTlab = true →
  AllocBuffer c.Clear m)
  (hstart : c.start % 2 = 0) (heven : t.runtime.addr .newInstance % 2 = 0)
include hopts hi hm hbuf hstart heven

/-- An instruction that allocates an object makes it or asks the runtime. -/
theorem makesObject_outcome :
    a.Ready t.opts klass size m ∧
      c.Runs W k m (NewObject t.opts obj [obj, tmp1, tmp2, t0, t1] (m.get klass) (8 + t.opts.klassBytes) size m) ∨
    ¬ a.Ready t.opts klass size m ∧ ∃ m', W.Reaches m m' ∧ c.Asks W k .newInstance obj m' ∧ m'.get (.x 13) = m.get klass ∧
      Alters [obj, tmp2, t0, t1, .x 13, ra] (fun _ => False) m m' := by
  have hdispatch : Lower.dispatch i = Lower.allocObject i := by
    rw [Lower.dispatch.eq_def]
    simp only [hi.op]
  have hobj := hi.general obj (by simp)
  have hklass := hi.general klass (by simp)
  have hgo := hm.completes (P := fun m' => ¬ a.Ready t.opts klass size m ∧ c.Asks W k .newInstance obj m' ∧
    m'.get (.x 13) = m.get klass ∧
      Alters [obj, tmp2, t0, t1, .x 13, ra] (fun _ => False) m m')
    (Q := fun m' => a.Ready t.opts klass size m ∧
      NewObject t.opts obj [obj, tmp1, tmp2, t0, t1] (m.get klass) (8 + t.opts.klassBytes) size m m')
      hdispatch fun S hviews hadmitted => ?_
  · rcases hgo with ⟨m', hreach, hbefore, hready, hnew⟩ | ⟨m', hreach, hnot, hasks⟩
    · exact .inl ⟨hready, m', hreach, hbefore, hnew⟩
    · exact .inr ⟨hnot, m', hreach, hasks⟩
  rw [Lower.allocObject_eq]
  refine completes_lift fun r0 h0 => completes_lift fun a' ha => completes_lift fun r1 h1 => completes_lift fun r2 h2 =>
    completes_lift fun r3 h3 => completes_lift fun _ hdistinct => completes_lift fun _ _ => ?_
  obtain rfl := hi.inResult.unique h0
  obtain rfl : a = a' := Option.some.inj (hi.alloc.symm.trans (Lower.payload_eq_ok.mp ha))
  obtain rfl := hi.inKlass.unique h1
  obtain rfl := hi.inTmp1.unique h2
  obtain rfl := hi.inTmp2.unique h3
  obtain ⟨hklassObj, hklass2⟩ : klass ≠ obj ∧ klass ≠ tmp2 := by
    have hnodup := Lower.nodup_of_distinct hdistinct
    simp only [List.nodup_cons, List.mem_cons, not_or] at hnodup
    exact ⟨Ne.symm hnodup.1.1, hnodup.2.1.2.1⟩
  refine completes_newLabel fun entry => completes_newLabel fun cont => completes_slowPath fun hwrites hcont hend => ?_
  have ht := hviews.target
  subst ht
  refine Lowers.detour (P := fun m' => ¬ a.Ready S.target.opts klass size m ∧
    Alters [obj, tmp2, t0, t1] (fun _ => False) m m')
    (Lower.emit_newInstance klass obj i.info entry cont) hwrites (fun hentry => ?_) fun S' hbeside m1 hslow => ?_
  · refine lowers_inlineObject hopts hi (Lower.nodup_of_distinct hdistinct)
      (fun htlab => (hbuf htlab).mono fun addr => (hviews.free addr).mpr) hentry
      (fun hnot m' h => .inl ⟨rfl, hnot, h⟩) fun hready m' h => ⟨hready, h⟩
  · obtain ⟨hnot, h1⟩ := hslow
    refine .bind (lowers_asm (does_mv fun m2 h2 => ?_))
    refine lowers_request hviews hbeside hcont hend hobj.keeps heven hstart fun ret m3 hcalled hasks =>
      .inr (.inl ⟨rfl, hnot, hasks, ?_, ?_⟩)
    · rw [hcalled.rest _ (by decide) (by decide), h2.value, h1.regs]
      simp [hklassObj, hklass2, hklass.ne (s := t0) rfl, hklass.ne (s := t1) rfl]
    · exact ((h1.mono (by simp) fun _ h => h).trans (h2.alters (by simp) (by simp))).trans
        (hcalled.alters (by simp) (by simp))

/-- Objects are made in the buffer of the thread when that can be done, and by the runtime otherwise. -/
theorem object_allocation :
    (a.Ready t.opts klass size m →
      c.Runs W k m (NewObject t.opts obj [obj, tmp1, tmp2, t0, t1] (m.get klass) (8 + t.opts.klassBytes) size m)) ∧
    (¬ a.Ready t.opts klass size m → ∃ m', W.Reaches m m' ∧ c.Asks W k .newInstance obj m' ∧
    m'.get (.x 13) = m.get klass ∧
      Alters [obj, tmp2, t0, t1, .x 13, ra] (fun _ => False) m m') := by
  rcases makesObject_outcome hopts hi hm hbuf hstart heven with ⟨hready, hmade⟩ | ⟨hnot, hasked⟩
  · exact ⟨fun _ => hmade, fun hn => absurd hready hn⟩
  · exact ⟨fun hr => absurd hr hnot, fun _ => hasked⟩

end

/-- A method with one instruction. -/
def single (i : Instruction) : Program where
  name := "p"
  frameSize := 32
  code := #[i, { op := .ret }]

def allocTarget : Target := ⟨{}, .synthetic 0x20000⟩

/-- An object of 32 bytes. -/
def smallObject : AllocInfo where
  klass := .register .metadata (.x 11) .none
  size := 32
  initCheck := true
  len := .absent
  element := .none
  tmp1 := .register .long (.x 15) .none
  tmp2 := .register .long (.x 16) .none
  tmp3 := .absent

def makingObject : Instruction := { op := .allocObject, alloc := some smallObject, result := .register .object (.x 14) .none }

/-- Memory with the free part of a buffer and an initialized class. -/
def bufferMemory (top stop : UInt64) : Ram :=
  ((Ram.write (fun _ => 0) 0x9060 8 top).write 0x9068 8 stop).write 0x4120 1 4

theorem bufferMemory_holds (top stop : UInt64) : (bufferMemory top stop).read 0x9060 8 = top ∧
    (bufferMemory top stop).read 0x9068 8 = stop ∧ (bufferMemory top stop).read 0x4120 1 = 4 := by
  refine ⟨?_, ?_, ?_⟩
  · rw [bufferMemory, Ram.read_write_off _ _ (by decide) (by decide) (.inr (by decide)),
      Ram.read_write_off _ _ (by decide) (by decide) (.inl (by decide)), read_write_eight]
  · rw [bufferMemory, Ram.read_write_off _ _ (by decide) (by decide) (.inr (by decide)), read_write_eight]
  · exact UInt64.toNat_inj.mp (Ram.read_write _ _ _ (by decide))

/-- A machine in front of code at `0x10000`, with a class at `0x4000` and five in x12. -/
def allocator (code : List UInt8) (pc top stop : UInt64) : Machine where
  x n := if n = 23 then 0x9000 else if n = 11 then 0x4000 else if n = 12 then 5 else 0
  f _ := 0
  pc
  mem := (bufferMemory top stop).overlay 0x10000 code

theorem allocator_read {code : List UInt8} {pc top stop : UInt64} {n : Nat} (addr : UInt64)
    (hsize : code.length ≤ 0x1000) (h : addr.toNat + n ≤ 0x10000) :
    (allocator code pc top stop).mem.read addr n = (bufferMemory top stop).read addr n :=
  Ram.read_overlay _ (by show 0x10000 + code.length ≤ _; omega) (by omega) (.inr h)

theorem allocator_buffer {code : List UInt8} (pc top stop : UInt64) {Free : UInt64 → Prop} (hsize : code.length ≤ 0x1000)
    (hordered : top.toNat ≤ stop.toNat) (hlow : stop.toNat ≤ 0x9000) (hfree : ∀ addr : UInt64,
    addr.toNat < 0x10000 → Free addr) :
    AllocBuffer Free (allocator code pc top stop) ∧ (allocator code pc top stop).tlabTop = top ∧
    (allocator code pc top stop).tlabEnd = stop := by
  have htop : (allocator code pc top stop).tlabTop = top :=
    (allocator_read 0x9060 hsize (by decide)).trans (bufferMemory_holds top stop).1
  have hstop : (allocator code pc top stop).tlabEnd = stop :=
    (allocator_read 0x9068 hsize (by decide)).trans (bufferMemory_holds top stop).2.1
  have hthread : ((allocator code pc top stop).get thread).toNat = 0x9000 := rfl
  refine ⟨⟨by rwa [htop, hstop], by rw [hstop]; omega, by rw [hthread]; decide, .inl (by rw [hstop, hthread]; omega),
    fun addr ha => hfree addr ?_, fun addr ha =>
      hfree addr (Nat.lt_of_lt_of_le ha.2 (by rw [hthread]; decide))⟩, htop, hstop⟩
  rw [htop, hstop] at ha
  omega

/-- The method with one instruction is in memory at `0x10000`, and machines are in front of it. -/
def Stationed (i : Instruction) : Prop :=
  ∃ (c : Resident allocTarget) (pc : UInt64), c.program = single i ∧
      c.start = 0x10000 ∧ c.method.blob.code.length ≤ 0x1000 ∧ (∀ addr : UInt64, addr.toNat < 0x10000 → c.Clear addr) ∧
      ∀ W : World, (∀ j < 0x1000, W (0x10000 + UInt64.ofNat j) = none) →
        ∀ top stop, c.Facing W 0 i (allocator c.method.blob.code pc top stop)

theorem stationed {i : Instruction} (h : ((single i).compile allocTarget 0).toOption.any (fun c => decide
    (c.blob.code.length ≤ 0x1000)) = true)
    (hoff : ((single i).placeOf allocTarget 0 0).toBool = true) : Stationed i := by
  cases hc : (single i).compile allocTarget 0 with
  | error e =>
    rw [hc] at h
    cases h
  | ok method =>
    cases hp : (single i).placeOf allocTarget 0 0 with
    | error e =>
      rw [hp] at hoff
      cases hoff
    | ok off =>
      rw [hc] at h
      have hsize : method.blob.code.length ≤ 0x1000 := of_decide_eq_true h
      have hend : (0x10000 : UInt64).toNat + method.blob.code.length ≤
        2 ^ 64 := by show 0x10000 + method.blob.code.length ≤ _; omega
      exact ⟨⟨single i, 0, method, 0x10000, hc, absurd rfl⟩, 0x10000 + UInt64.ofNat off, rfl, rfl, hsize,
        fun addr haddr => (CodeBlob.clear_iff hend).mpr fun hs => absurd hs.1 (Nat.not_le.mpr haddr),
        fun W hW top stop => ⟨rfl, fun j hj => hW j (Nat.lt_of_lt_of_le hj hsize),
          CodeBlob.stands_overlay (Nat.le_trans hsize (by decide)) rfl, off, hp, rfl⟩⟩

theorem makingObject_makes : makingObject.MakesObject smallObject 32 (.x 14) (.x 11) (.x 15) (.x 16) :=
  ⟨rfl, rfl, rfl, rfl, by decide, ⟨rfl, rfl⟩, ⟨rfl, rfl⟩, ⟨rfl, rfl⟩, ⟨rfl, rfl⟩, by
    simp only [List.mem_cons, List.not_mem_nil, or_false]
    rintro r (rfl | rfl | rfl | rfl) <;> exact ⟨⟨_, rfl⟩, rfl⟩⟩

theorem makingObject_stationed : Stationed makingObject := stationed (by decide +kernel) (by decide +kernel)

/-- A buffer of `0x100` bytes has room for the object, one of `0x18` bytes has not. -/
theorem small_object_is_made : ∃ (c : Resident allocTarget) (pc : UInt64) (m1 m2 : Machine),
    c.program = single makingObject ∧
    World.bare.Reaches (allocator c.method.blob.code pc 0x8000 0x8100) m1 ∧ m1.get (.x 14) = 0x8000 ∧
    m1.mem.read 0x9060 8 = 0x8020 ∧
      m1.mem.read 0x8000 8 = 1 ∧ allocTarget.opts.klassAt m1.mem 0x8000 = 0x4000 ∧ m1.mem 0x801f = 0 ∧
    World.bare.Reaches (allocator c.method.blob.code pc 0x8000 0x8018) m2 ∧
    m2.pc = allocTarget.runtime.addr .newInstance ∧
      m2.get (.x 13) = 0x4000 ∧ m2.mem.read 0x9060 8 = 0x8000 := by
  obtain ⟨c, pc, hprogram, hstart, hsize, hclear, hfacing⟩ := makingObject_stationed
  have hrun (top stop : UInt64) (hordered : top.toNat ≤ stop.toNat) (hlow : stop.toNat ≤ 0x9000) :=
    object_allocation (by decide) makingObject_makes (hfacing World.bare (fun _ _ => rfl) top stop)
    (fun _ => (allocator_buffer _ _ _ hsize hordered hlow hclear).1)
      (by rw [hstart]; rfl) (by decide)
  obtain ⟨-, htop, hend⟩ := allocator_buffer pc 0x8000 0x8100 hsize (by decide) (by decide) hclear
  obtain ⟨-, htop', hend'⟩ := allocator_buffer pc 0x8000 0x8018 hsize (by decide) (by decide) hclear
  obtain ⟨m1, hreach1, -, hnew⟩ := (hrun 0x8000 0x8100 (by decide) (by decide)).1 ⟨rfl, by
    unfold Machine.Fits
    rw [htop, hend]
    decide, fun _ => (allocator_read 0x4120 hsize (by decide)).trans (bufferMemory_holds _ _).2.2⟩
  obtain ⟨m2, hreach2, hasks, hklass, hsame⟩ := (hrun 0x8000 0x8018 (by decide) (by decide)).2 fun hready => by
    have hfits := hready.2.1
    unfold Machine.Fits at hfits
    rw [htop', hend'] at hfits
    exact absurd hfits (by decide)
  obtain ⟨hresult, hnext, hmark, hheader, hbody, -⟩ := hnew
  rw [htop] at *
  refine ⟨c, pc, m1, m2, hprogram, hreach1, hresult, hnext, hmark, hheader fun _ => ⟨0x4000, rfl⟩,
    hbody 31 (by decide) (by decide), hreach2, hasks.pc, hklass, ?_⟩
  rw [hsame.mem_eq]
  exact htop'

end RiscvJit
