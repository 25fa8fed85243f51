import RiscvJit.Proofs.Code.Effects

/-
  RiscvJit.Proofs.Code.Locks — locking and unlocking an object, with nobody else around.

  A reserving load is followed by a conditional store that succeeds, so a compare-and-swap decides by
  what is in memory (`does_cmpxchgptr`). Locking writes the lock slot and the mark of the object, and
  the slot remembers the object whichever way it ends (`does_fastLock`). Unlocking puts a displaced
  mark back where the mark still is the slot; otherwise it changes nothing and goes to its slow path,
  and a mark of zero stands for a lock that is held further out (`does_fastUnlock`).
-/

namespace RiscvJit

open Machine (Keeps set_pc get_set get_next set_mem get_withPc)
open Reg (zr sp t0)
open Asm

namespace Asm

/-- What a failed compare-and-swap goes on with. -/
def whenFailed : Option Label → Asm Unit
  | some l => j l
  | none => pure ()

/-- One attempt of a compare-and-swap, from the load to the jump where it succeeded. -/
def attempt (old new addr tmp : Reg) (succeed retry nope : Label) : Asm Unit := do
  lr .lrD tmp addr acquireRelease
  branch .bne tmp old nope
  sc .scD tmp new addr release
  let _ ← branch .bne tmp zr retry
  membar anyOrder
  j succeed

/-- What follows a failed compare-and-swap. -/
def giveUp (old tmp : Reg) (fail : Option Label) : Asm Unit := do
  let _ ← mv old tmp
  membar anyOrder
  whenFailed fail

theorem cmpxchgptr_eq (old new addr tmp : Reg) (succeed : Label) (fail : Option Label) :
    cmpxchgptr old new addr tmp succeed fail = newLabel >>= fun retry => newLabel >>= fun nope =>
      (bind retry >>= fun _ => attempt old new addr tmp succeed retry nope) >>= fun _ =>
        bind nope >>= fun _ => giveUp old tmp fail := by
  unfold cmpxchgptr attempt giveUp
  simp only [bind_assoc]
  cases fail <;> rfl

instance traced_whenFailed (fail : Option Label) : Traced (whenFailed fail) := by
  cases fail <;> unfold whenFailed <;> infer_instance

variable {old tmp : Reg}

instance traced_attempt (new addr : Reg) (succeed retry nope : Label) :
    Traced (attempt old new addr tmp succeed retry nope) := by
  have := traced_membar (f := j succeed) (spaces_branch .bne tmp zr retry) anyOrder
  unfold attempt
  infer_instance

theorem traced_giveUp (h : old ≠ tmp) (fail : Option Label) : Traced (giveUp old tmp fail) :=
  traced_membar (spaces_mv h) anyOrder

theorem traced_cmpxchgptr (h : old ≠ tmp) (new addr : Reg) (succeed : Label) (fail : Option Label) :
    Traced (cmpxchgptr old new addr tmp succeed fail) := by
  have := traced_giveUp h fail
  rw [cmpxchgptr_eq]
  infer_instance

end Asm

namespace Site

variable {S : Site} {m : Machine} {E : Exits} {Q : Unit → Machine → Prop} {rd rs addr : Reg}

/-- An instruction that does what it does and goes on. -/
theorem does_exec (m' : Machine) {x : Asm Unit} {F : UInt64 → Prop}
    (hx : ∀ t a a', x t a = .ok ((), a') → ∃ i, Wrote [i] a a' ∧ m.exec i = some m') (hpc : m'.pc = m.pc + 4)
    (hmem : ∀ addr, ¬ F addr → m'.mem addr = m.mem addr) (hfree : ∀ addr, F addr → S.Free addr) (h : Q () m') :
    S.Does x m E Q := by
  intro a _ a' hrun ha ha' hat
  obtain ⟨i, hw, hexec⟩ := hx _ _ _ hrun
  obtain ⟨hreach, hat'⟩ := hat.runs ha ha' hw hfree (.cons hexec hpc hmem (.nil m'))
  exact ⟨m', hreach, .inl ⟨hat', h⟩⟩

theorem does_and {rs1 rs2 : Reg} (hk : Keeps rd) (h : ∀ m', Put rd [] (m.get rs1 &&& m.get rs2) m m' → Q () m') :
    S.Does (Asm.and rd rs1 rs2) m E Q :=
  does_puts (fun _ _ _ => rr_puts (f := fun x y => x &&& y) rfl (fun _ _ => rfl) hk) h

/-- A load that reserves its address. -/
theorem does_lr {aqrl : UInt32} (ha : aqrl < 4) (hk : Keeps rd)
    (h : ∀ m', Put rd [] (m.mem.read (m.get addr) 8) m m' → m'.reserved = some (m.get addr) → Q () m') :
    S.Does (lr .lrD rd addr aqrl) m E Q := by
  let v := m.mem.read (m.get addr) 8
  refine does_exec { m.next.set rd v with reserved := some (m.get addr) } (F := fun _ => False)
    (fun _ _ _ hrun => ⟨_, wrote_ordered hrun ha (by decide) nofun nofun (fun _ => rfl) rfl rfl, rfl⟩)
    ((set_pc ..).trans rfl) (fun addr _ => by simp) (fun _ hf => hf.elim) (h _ ⟨?_, fun r hr _ => ?_, ?_⟩ rfl)
  · exact (get_set _ hk v rd).trans (if_pos rfl)
  · exact ((get_set _ hk v r).trans (if_neg hr)).trans (get_next ..)
  · exact set_mem ..

/-- A conditional store to the address that is reserved. -/
theorem does_sc {aqrl : UInt32} (ha : aqrl < 4) (hk : Keeps rd) (hreserved : m.reserved = some (m.get addr))
    (hfree : ∀ i < 8, S.Free (m.get addr + UInt64.ofNat i))
    (h : ∀ m', m'.get rd = 0 → (∀ r, r ≠ rd → m'.get r = m.get r) →
    m'.mem = m.mem.write (m.get addr) 8 (m.get rs) → Q () m') :
    S.Does (sc .scD rd rs addr aqrl) m E Q := by
  have hstored : m.next.storeConditional rd (m.get addr) 8 (m.get rs) =
      { { m.next with mem := m.mem.write (m.get addr) 8 (m.get rs) }.set rd 0 with reserved := none } := by
    rw [Machine.storeConditional, if_pos (show m.next.reserved = _ from hreserved)]
    rfl
  have hexec : m.exec (Op.scD.instOf rd addr rs 0 aqrl 0) = some
    (m.next.storeConditional rd (m.get addr) 8 (m.get rs)) := rfl
  rw [hstored] at hexec
  refine does_exec _ (F := fun x => ∃ i < 8, x = m.get addr + UInt64.ofNat i)
    (fun _ _ _ hrun => ⟨_, wrote_ordered hrun ha (by decide) (absurd · (by decide)) (absurd · (by decide))
    (absurd · (by decide)) rfl rfl, hexec⟩)
    ((set_pc ..).trans rfl) (fun x hx => ?_) (fun x hx => ?_) (h _ ?_ (fun r hr => ?_) ?_)
  · refine ((congrFun (set_mem ..) x).trans ?_)
    refine Ram.write_outside _ _ (Nat.le_of_not_lt fun hlt => hx ⟨_, hlt, ?_⟩)
    rw [UInt64.ofNat_toNat, UInt64.add_comm, UInt64.sub_add_cancel]
  · obtain ⟨i, hi, rfl⟩ := hx
    exact hfree i hi
  · exact (get_set _ hk 0 rd).trans (if_pos rfl)
  · exact ((get_set _ hk 0 r).trans (if_neg hr)).trans (get_next m r)
  · exact set_mem ..

/-- A barrier between other work that ends with an instruction, and more. -/
theorem Does.anyOrder {β : Type} {x : Asm Unit} {f : Asm β} {Q : β → Machine → Prop} [x.Traced] [f.Traced] (hs : x.Spaces)
    (h : S.Does x m E fun _ m' => ∀ p, S.Does f { m' with pc := p } E Q) :
    S.Does (do let _ ← x; Asm.membar anyOrder; f) m E Q :=
  Does.membar hs (show Op.fence.info.format.admits _ = true by decide) h

variable {old new tmp : Reg} {succeed : Label} {fail : Option Label}

/-- Compare-and-swap goes to `succeed` when the word is the old one, which is replaced then; otherwise it
goes on, or to `fail`, with the word it found. -/
theorem does_cmpxchgptr (hold : Keeps old) (htmp : Keeps tmp) (ho : old ≠ tmp) (hn : new ≠ tmp) (haddr : addr ≠ tmp)
    (hsucceed : S.Binds succeed) (hfree : ∀ i < 8, S.Free (m.get addr + UInt64.ofNat i))
    (hhit : m.mem.read (m.get addr) 8 = m.get old → ∀ m', Stored [tmp] (m.get addr) 8 (m.get new) m m' →
    E (.label succeed) m')
    (hmiss : m.mem.read (m.get addr) 8 ≠ m.get old → ∀ m', Put old [tmp] (m.mem.read (m.get addr) 8) m m' →
      S.Does (whenFailed fail) m' E Q) :
    S.Does (cmpxchgptr old new addr tmp succeed fail) m E Q := by
  have := traced_giveUp ho fail
  have := traced_membar (f := j succeed) (spaces_branch .bne tmp zr 0) anyOrder
  rw [cmpxchgptr_eq]
  refine .bind (does_newLabel fun retry => .bind (does_newLabel fun nope => Does.label fun hnope => ?_))
  -- nobody interferes, so the store succeeds the first time
  refine Does.loop (fun _ m' => m' = m) (n := 0) (fun hretry _ m0 e => ?_) rfl
  subst e
  unfold attempt
  have := traced_membar (f := j succeed) (spaces_branch .bne tmp zr retry) anyOrder
  refine .bind (does_lr (by decide) htmp fun m1 h1 hreserved =>
    .bind (does_branch rfl hnope (fun htaken p => ?_) fun hnot p => ?_))
  · -- another word was found
    refine .inr (.inl ⟨rfl, fun _ => ?_⟩)
    have hne : m0.mem.read (m0.get addr) 8 ≠ m0.get old := by
      have := of_decide_eq_true htaken
      rwa [h1.value, h1.other _ ho] at this
    refine Does.anyOrder (spaces_mv ho) (does_mv (fun m2 h2 q => hmiss hne _ ⟨?_, fun r hr ht => ?_, ?_⟩) hold)
    · show m2.get old = _
      rw [h2.value, get_withPc, h1.value]
    · show m2.get r = _
      rw [h2.other r hr, get_withPc, h1.other r (fun e => ht (List.mem_singleton.mpr e))]
    · exact h2.mem.trans h1.mem
  · have heq : m0.mem.read (m0.get addr) 8 = m0.get old := by
      have := Decidable.of_not_not (of_decide_eq_false hnot)
      rwa [h1.value, h1.other _ ho] at this
    have hreg {r : Reg} (hr : r ≠ tmp) : ({ m1 with pc := p } : Machine).get r = m0.get r :=
      (get_withPc ..).trans (h1.other r hr)
    refine .bind (does_sc (by decide) htmp ?_ ?_ fun m2 hzero hrest hmem => ?_)
    · rw [hreg haddr]
      exact hreserved
    · rw [hreg haddr]
      exact hfree
    rw [hreg haddr, hreg hn] at hmem
    refine Does.anyOrder (spaces_branch _ _ _ _) (does_branch rfl hretry (fun htaken => ?_) fun _ q q' => ?_)
    · rw [Op.taken, hzero] at htaken
      exact absurd rfl (of_decide_eq_true htaken)
    · refine does_j hsucceed fun q'' => .inr (.inr (hhit heq _ ⟨?_, fun r hr => ?_⟩))
      · rw [show m1.mem = m0.mem from h1.mem] at hmem
        exact hmem
      · have hr : r ≠ tmp := fun e => hr (List.mem_singleton.mpr e)
        exact ((get_withPc ..).trans (hrest r hr)).trans (hreg hr)

end Site

/-! ## Locking -/

/-- Registers of a lock operation that do not get in each other's way. -/
structure LockRegs.Apart (r : LockRegs) : Prop where
  hdr : Keeps r.hdr
  scratch : Keeps r.scratch
  distinct : [r.obj, r.lock, r.hdr, r.scratch, t0, sp].Nodup

theorem LockRegs.Apart.traced_fastLock {r : LockRegs} (h : r.Apart) (slow : Label) : (fastLock r slow).Traced := by
  have hne : r.hdr ≠ r.scratch := by
    have := h.distinct
    grind
  have (done : Label) := traced_cmpxchgptr hne r.lock r.obj done none
  rw [fastLock_eq]
  infer_instance

theorem LockRegs.Apart.traced_fastUnlock {r : LockRegs} (h : r.Apart) (slow : Label) : (fastUnlock r slow).Traced := by
  have hne : r.scratch ≠ t0 := by
    have := h.distinct
    grind
  have (done : Label) := traced_cmpxchgptr hne r.hdr r.obj done (some slow)
  rw [fastUnlock_eq]
  infer_instance

/-- The address is one of the lock slot or of the object's mark. -/
abbrev LockWords (lock obj addr : UInt64) : Prop := Spans lock.toNat 16 addr ∨ Spans obj.toNat 8 addr

/-- What an attempt to lock an object leaves, whether it succeeded or not. -/
structure LockTried (r : LockRegs) (lock obj : UInt64) (m m' : Machine) : Prop where
  alters : Alters [r.hdr, r.scratch, t0] (LockWords lock obj) m m'
  object : m'.mem.read (lock + UInt64.ofNat 8) 8 = obj

/-- The lock of an object was given back: it was held further out, or the mark was the slot. -/
structure LockReleased (r : LockRegs) (lock obj : UInt64) (m m' : Machine) : Prop where
  regs : ∀ s, s ∉ [r.hdr, r.scratch, t0] → m'.get s = m.get s
  mem : m.mem.read lock 8 = 0 ∧ m'.mem = m.mem ∨
    m.mem.read lock 8 ≠ 0 ∧ m.mem.read obj 8 = lock ∧ m'.mem = m.mem.write obj 8 (m.mem.read lock 8)

/-- The lock of an object could not be given back. -/
structure LockKept (r : LockRegs) (lock obj : UInt64) (m m' : Machine) : Prop where
  regs : ∀ s, s ∉ [r.hdr, r.scratch, t0] → m'.get s = m.get s
  held : m.mem.read lock 8 ≠ 0
  other : m.mem.read obj 8 ≠ lock
  mem : m'.mem = m.mem

/-- The monitor was given back without the runtime: it was taken further out as well, or its mark is the slot's. -/
structure GivenBack (opts : Options) (slot obj : UInt64) (mem mem' : Ram) : Prop where
  fast : opts.useFastLocking = true
  mem : mem.read slot 8 = 0 ∧ mem' = mem ∨ mem.read slot 8 ≠ 0 ∧ mem.read obj 8 = slot ∧
    mem' = mem.write obj 8 (mem.read slot 8)

section
variable {r : LockRegs} {lock obj : UInt64} {m m1 m' : Machine}

theorem LockTried.put (h : LockTried r lock obj m m1) {rd : Reg} {tmps : List Reg} {v : UInt64}
    (hput : Put rd tmps v m1 m')
    (hr : rd ∈ [r.hdr, r.scratch, t0]) (ht : ∀ s ∈ tmps, s ∈ [r.hdr, r.scratch, t0]) : LockTried r lock obj m m' where
  alters := h.alters.trans (hput.alters hr ht)
  object := by rw [hput.mem, h.object]

theorem LockTried.withPc (h : LockTried r lock obj m m1) (p : UInt64) : LockTried r lock obj m { m1 with pc := p } :=
  ⟨h.alters.withPc p, h.object⟩

theorem LockTried.displaced (h : LockTried r lock obj m m1) (hlock : lock.toNat + 16 ≤ 2 ^ 64) {v : UInt64}
    (hs : Site.Stored [] lock 8 v m1 m') : LockTried r lock obj m m' where
  alters := h.alters.trans (hs.alters (by simp) (by omega) fun x hx => .inl (by omega))
  object := by
    have hslot : (lock + UInt64.ofNat 8).toNat = lock.toNat + 8 := toNat_off (by omega)
    rw [hs.mem, Ram.read_write_off _ _ (by omega) (by omega) (by omega), h.object]

end

namespace Site

variable {S : Site} {m : Machine} {E : Exits} {Q : Unit → Machine → Prop} {r : LockRegs} {lock obj : UInt64}
  {slow : Label}

/-- Locking, or going to the slow path. -/
theorem does_fastLock (hr : r.Apart) (hobj : m.get r.obj = obj) (hlock : m.get r.lock = lock)
    (hlockEnd : lock.toNat + 16 ≤ 2 ^ 64) (hobjEnd : obj.toNat + 8 ≤ 2 ^ 64)
    (hapart : lock.toNat + 16 ≤ obj.toNat ∨ obj.toNat + 8 ≤ lock.toNat) (hfree : ∀ x, LockWords lock obj x → S.Free x)
    (hl : S.Binds slow) (h : ∀ m', LockTried r lock obj m m' → Q () m')
    (hslow : ∀ m', LockTried r lock obj m m' → E (.label slow) m') :
    S.Does (fastLock r slow) m E Q := by
  have hne : r.hdr ≠ r.scratch ∧ r.obj ∉ [r.hdr, r.scratch, t0] ∧ r.lock ∉ [r.hdr, r.scratch, t0] ∧ r.lock ≠ r.scratch ∧
      r.obj ≠ r.scratch := by
    have := hr.distinct
    grind
  obtain ⟨hne, hobjReg, hlockReg, hnew, haddr⟩ := hne
  have (done : Label) := traced_cmpxchgptr hne r.lock r.obj done none
  have keeps {m' : Machine} (h' : LockTried r lock obj m m') : m'.get r.obj = obj ∧ m'.get r.lock = lock :=
    ⟨(h'.alters.regs _ hobjReg).trans hobj, (h'.alters.regs _ hlockReg).trans hlock⟩
  have displace {m' : Machine} {E : Exits} {Q : Unit → Machine → Prop} (h' : LockTried r lock obj m m')
      (hq : ∀ m'', LockTried r lock obj m m'' → Q () m'') : S.Does (sd r.hdr r.lock lockDisplacedHeader) m' E Q :=
    does_sdAt (a := lock) (by rw [(keeps h').2]; exact UInt64.add_zero _) (by omega)
      (fun x hx => hfree x (.inl (by omega))) fun m'' hs => hq m'' (h'.displaced hlockEnd hs)
  rw [fastLock_eq]
  refine .bind (does_newLabel fun done => Does.label fun hdone => ?_)
  unfold noteMark tellOwn
  simp only [bind_assoc]
  have hslot : (lock + UInt64.ofNat 8).toNat = lock.toNat + 8 := toNat_off (by omega)
  refine .bind (does_sdAt (a := lock + UInt64.ofNat 8) (by rw [hlock]; rfl) (by omega)
    (fun x hx => hfree x (.inl (by rw [hslot] at hx; omega))) fun m1 h1 => ?_)
  have tried1 : LockTried r lock obj m m1 := by
    refine ⟨h1.alters (by simp) (by omega) fun x hx => .inl (by rw [hslot] at hx; omega), ?_⟩
    rw [h1.mem, read_write_eight, hobj]
  refine .bind (does_ld (fun m2 h2 => .bind (does_ori hr.hdr fun m3 h3 => ?_)) hr.hdr)
  have tried3 := (tried1.put h2 (by simp) (by simp)).put h3 (by simp) (by simp)
  refine .bind (displace tried3 fun m4 tried4 => .bind (does_andi hr.scratch fun m5 h5 => ?_))
  have tried5 := tried4.put h5 (by simp) (by simp)
  refine .bind (does_bcond rfl hl (fun _ p => .inr (hslow _ (tried5.withPc p))) fun _ p => ?_)
  have tried6 := tried5.withPc p
  generalize { m5 with pc := p } = m6 at tried6
  obtain ⟨hobj6, hlock6⟩ := keeps tried6
  refine .bind (does_cmpxchgptr hr.hdr hr.scratch hne hnew haddr hdone (fun i hi => ?_)
    (fun _ m7 h7 => ?_) fun _ m7 h7 => ?_)
  · rw [hobj6]
    exact hfree _ (.inr (spans_at hobjEnd hi))
  · -- the mark is swapped for the slot
    rw [hobj6] at h7
    have tried7 : LockTried r lock obj m m7 := by
      refine ⟨tried6.alters.trans (h7.alters (by simp) hobjEnd fun x hx => .inr hx), ?_⟩
      rw [h7.mem, Ram.read_write_off _ _ (by omega) hobjEnd (by omega), tried6.object]
    exact .inl ⟨rfl, fun _ => does_pure (h m7 tried7)⟩
  · -- the mark is another, perhaps that of an outer lock
    have tried7 := tried6.put h7 (by simp) (by simp)
    refine does_pure (.bind (does_sub hr.hdr fun m8 h8 => .bind (does_opts (.bind (does_li fun m9 h9 => ?_)))))
    have tried9 := (tried7.put h8 (by simp) (by simp)).put h9 (by simp) (by simp)
    refine .bind (does_and hr.hdr fun m10 h10 =>
      .bind (displace (tried9.put h10 (by simp) (by simp)) fun m11 tried11 => ?_))
    refine does_bcond rfl hl (fun _ p => .inr (hslow _ (tried11.withPc p))) fun _ p => does_pure (h _ (tried11.withPc p))

/-- Unlocking, or going to the slow path. -/
theorem does_fastUnlock (hr : r.Apart) (hobj : m.get r.obj = obj) (hlock : m.get r.lock = lock)
    (hobjEnd : obj.toNat + 8 ≤ 2 ^ 64) (hfree : ∀ x, Spans obj.toNat 8 x → S.Free x)
    (hl : S.Binds slow) (h : ∀ m', LockReleased r lock obj m m' → Q () m')
    (hslow : ∀ m', LockKept r lock obj m m' → E (.label slow) m') :
    S.Does (fastUnlock r slow) m E Q := by
  have hne : r.scratch ≠ t0 ∧ r.hdr ≠ t0 ∧ r.obj ≠ t0 ∧ r.hdr ≠ r.scratch ∧ r.lock ≠ r.hdr ∧ r.obj ≠ r.hdr ∧
    r.obj ≠ r.scratch ∧
      r.lock ≠ r.scratch := by
    have := hr.distinct
    grind
  obtain ⟨hne, hnew, haddr, hhs, hlh, hoh, hos, hls⟩ := hne
  have (done : Label) := traced_cmpxchgptr hne r.hdr r.obj done (some slow)
  rw [fastUnlock_eq]
  refine .bind (does_newLabel fun done => Does.label fun hdone => .bind (does_ld (fun m1 h1 => ?_) hr.hdr))
  rw [hlock, show lockDisplacedHeader.toUInt64 = 0 from rfl, UInt64.add_zero] at h1
  refine .bind (does_branch rfl hdone (fun htaken p =>
    .inl ⟨rfl, fun _ => does_pure (h _ ⟨fun s hs => ?_, .inl ⟨?_, h1.mem⟩⟩)⟩)
    fun hnot p => ?_)
  · exact h1.other s (fun e => hs (by simp [e]))
  · exact h1.value.symm.trans (of_decide_eq_true htaken)
  have hheld : m.mem.read lock 8 ≠ 0 := fun e => of_decide_eq_false hnot (h1.value.trans e)
  refine .bind (does_mv (fun m2 h2 => ?_) hr.scratch)
  have hregs {s : Reg} (hs : s ≠ r.hdr) (hs' : s ≠ r.scratch) : m2.get s = m.get s :=
    (h2.other s hs').trans ((get_withPc ..).trans (h1.other s hs))
  have hmem : m2.mem = m.mem := h2.mem.trans h1.mem
  have hobj2 := (hregs hoh hos).trans hobj
  have hscratch : m2.get r.scratch = lock := by
    rw [h2.value, get_withPc, h1.other _ hlh, hlock]
  have hhdr : m2.get r.hdr = m.mem.read lock 8 := by
    rw [h2.other _ hhs, get_withPc, h1.value]
  refine does_cmpxchgptr hr.scratch (by decide) hne hnew haddr hdone (fun i hi => ?_) (fun heq m3 h3 => ?_)
    fun hother m3 h3 => ?_
  · rw [hobj2]
    exact hfree _ (spans_at hobjEnd hi)
  · rw [hobj2, hscratch, hmem] at heq
    refine .inl ⟨rfl, fun _ => does_pure (h m3 ⟨fun s hs => ?_, .inr ⟨hheld, heq, ?_⟩⟩)⟩
    · rw [h3.rest s (by grind), hregs (by grind) (by grind)]
    · rw [h3.mem, hobj2, hmem, hhdr]
  · rw [hobj2, hscratch, hmem] at hother
    refine does_j hl fun p => .inr (hslow _ ⟨fun s hs => ?_, hheld, hother, h3.mem.trans hmem⟩)
    rw [get_withPc, h3.rest s (by grind) (by grind), hregs (by grind) (by grind)]

end Site

end RiscvJit
