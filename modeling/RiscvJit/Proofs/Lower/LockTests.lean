import RiscvJit.Proofs.Code.OwnMarks
import RiscvJit.Proofs.Lower.ImplicitExceptions

/-
  RiscvJit.Proofs.Lower.LockTests — which marks a thread takes for its own.

  Where the compare-and-swap of a lock finds another mark than it expected, the lock is taken to be held already exactly if
  the mark lies less than a page above the stack pointer, at a multiple of eight (`locks_tell_own_marks`). Pages have to be
  of eight bytes at least: smaller ones are accepted as well, and then marks far above the stack are taken for the
  thread's own (`a_far_mark_passes`).
-/

namespace RiscvJit

open Reg (sp)
open Asm
open Site
open Lower

/-! ## The test -/

/-- Locks tell the marks of the thread's own stack from all others. -/
structure TellsOwnMarks (t : Target) : Prop where
  /-- A lock notes the mark, tries to exchange it, and tells what it found instead. -/
  parts : ∀ r slow, fastLock r slow = newLabel >>= fun done => (noteMark r slow >>= fun _ =>
    cmpxchgptr r.hdr r.lock r.obj r.scratch done none >>= fun _ => tellOwn r slow) >>= fun _ =>
    Asm.bind done >>= fun _ => pure ()
  /-- Whatever mark is expected and whatever mark is there: another one than expected lets the thread go on, with a zero in
  its slot, if it is an own one, and sends it to the slow path if not. -/
  alone : ∀ {S : Site} {r : LockRegs} {slow done : Label} {m : Machine} {slot obj : UInt64}, S.target = t → r.Apart →
    m.get r.obj = obj → m.get r.lock = slot → slot.toNat + 16 ≤ 2 ^ 64 → obj.toNat + 8 ≤ 2 ^ 64 →
    (∀ x, LockWords slot obj x → S.Free x) → S.Binds slow → S.Binds done →
    S.Does (cmpxchgptr r.hdr r.lock r.obj r.scratch done none >>= fun _ => tellOwn r slow) m
      (fun e _ => e = .label done ∧ m.mem.read obj 8 = m.get r.hdr ∨
        e = .label slow ∧ m.mem.read obj 8 ≠ m.get r.hdr ∧ ¬ t.opts.OwnMark (m.get sp) (m.mem.read obj 8))
      fun _ m' => m.mem.read obj 8 ≠ m.get r.hdr ∧ t.opts.OwnMark (m.get sp) (m.mem.read obj 8) ∧ m'.mem.read slot 8 = 0
  /-- The mark that was found decides, whatever others do that leave the slot alone. -/
  among : ∀ {S : Site} {C : Company S} {r : LockRegs} {slow : Label} {m : Machine} {slot : UInt64},
    S.target = t → r.Apart → m.get r.lock = slot → (∀ i < 8, S.Free (slot + UInt64.ofNat i)) → S.Binds slow →
    (∀ {s s'}, C.others s s' → s'.mem.read slot 8 = s.mem.read slot 8) → (∀ mem v, C.ours mem (mem.write slot 8 v)) →
    S.Goes C (tellOwn r slow) m (fun e _ => e = .label slow ∧ ¬ t.opts.OwnMark (m.get sp) (m.get r.hdr))
      fun _ m' => t.opts.OwnMark (m.get sp) (m.get r.hdr) ∧ m'.mem.read slot 8 = 0

section
variable {S : Site} {r : LockRegs} {slow done : Label} {m : Machine} {slot obj : UInt64} {E : Exits}
  {Q : Unit → Machine → Prop}

/-- The exchange and the test, for any page size. -/
theorem Site.does_exchange (hr : r.Apart) (hobj : m.get r.obj = obj) (hlock : m.get r.lock = slot)
    (hslot : slot.toNat + 16 ≤ 2 ^ 64)
    (hfits : obj.toNat + 8 ≤ 2 ^ 64) (hfree : ∀ x, LockWords slot obj x → S.Free x) (hl : S.Binds slow)
    (hdone : S.Binds done)
    (hhit : m.mem.read obj 8 = m.get r.hdr → ∀ m', E (.label done) m')
    (hown : m.mem.read obj 8 ≠ m.get r.hdr → S.target.opts.remains (m.get sp) (m.mem.read obj 8) = 0 →
      ∀ m', m'.mem.read slot 8 = 0 → Q () m')
    (hother : m.mem.read obj 8 ≠ m.get r.hdr → S.target.opts.remains (m.get sp) (m.mem.read obj 8) ≠ 0 →
    ∀ m', E (.label slow) m') :
    S.Does (cmpxchgptr r.hdr r.lock r.obj r.scratch done none >>= fun _ => tellOwn r slow) m E Q := by
  have hne : r.hdr ≠ r.scratch ∧ r.lock ≠ r.scratch ∧ r.obj ≠ r.scratch ∧ r.lock ≠ r.hdr ∧ sp ≠ r.hdr ∧
    sp ≠ r.scratch := by
    have := hr.distinct
    grind
  obtain ⟨hne, hnew, haddr, hlh, hsh, hss⟩ := hne
  have := traced_cmpxchgptr hne r.lock r.obj done none
  refine .bind (does_cmpxchgptr hr.hdr hr.scratch hne hnew haddr hdone (fun i hi => ?_) (fun heq m1 _ => ?_)
    fun hdiffers m1 h1 => ?_)
  · rw [hobj]
    exact hfree _ (.inr (spans_at hfits hi))
  · rw [hobj] at heq
    exact hhit heq m1
  · rw [hobj] at hdiffers h1
    have hsp1 : m1.get sp = m.get sp := h1.rest _ hsh (by simpa using hss)
    refine does_pure (does_tellOwn hr ((h1.rest _ hlh (by simpa using hnew)).trans hlock)
      (fun i hi => hfree _ (.inl ?_)) hl
      (fun hzero m' hread => ?_) fun hremains m' => ?_)
    · have := spans_at (by omega : slot.toNat + 8 ≤ 2 ^ 64) hi
      omega
    · rw [hsp1, h1.value] at hzero
      exact hown hdiffers hzero m' hread
    · rw [hsp1, h1.value] at hremains
      exact hother hdiffers hremains m'

end

/-! ## Locks in compiled methods -/

namespace Lower

/-- The code of a lock before the label where its slow path comes back. -/
def lockInline (r : LockRegs) (entry : Label) : Lower Unit := do
  if (← read).opts.useFastLocking then fastLock r entry else Asm.j entry

instance grows_lockInline (r : LockRegs) (entry : Label) : Grows (lockInline r entry) := by
  unfold lockInline
  infer_instance

instance traced_monitorEnter (obj lock : Reg) (info : Option SiteInfo) (entry cont : Label) :
    Traced (emitSlowPath (.monitorEnter obj lock info entry cont)) := by
  unfold emitSlowPath
  infer_instance

instance seals_monitorEnter (obj lock : Reg) (info : Option SiteInfo) (entry cont : Label) :
    Seals (emitSlowPath (.monitorEnter obj lock info entry cont)) := by
  unfold emitSlowPath
  infer_instance

theorem traced_lockInline {r : LockRegs} (hr : r.Apart) (entry : Label) : Traced (lockInline r entry) := by
  have := hr.traced_fastLock entry
  unfold lockInline
  infer_instance

end Lower

/-- A lock whose mark allows a stack lock comes to the exchange, with the mark that it noted. -/
theorem Site.does_fastLock_exchanging {S : Site} {r : LockRegs} {slow : Label} {m : Machine}
    {slot obj mark : UInt64} {E : Exits}
    {Q : Unit → Machine → Prop} (hr : r.Apart) (hobj : m.get r.obj = obj) (hlock : m.get r.lock = slot)
    (hslot : slot.toNat + 16 ≤ 2 ^ 64)
    (hfits : obj.toNat + 8 ≤ 2 ^ 64) (hapart : slot.toNat + 16 ≤ obj.toNat ∨ obj.toNat + 8 ≤ slot.toNat)
    (hfree : ∀ x, LockWords slot obj x → S.Free x) (hl : S.Binds slow) (hmark : m.mem.read obj 8 = mark)
    (hstack : (mark ||| 1) &&& 6 = 0)
    (hexchange : ∀ {done : Label} {m1 : Machine}, S.Binds done → m1.get r.obj = obj → m1.get r.lock = slot →
    m1.get sp = m.get sp →
      m1.get r.hdr = mark ||| 1 → m1.mem.read obj 8 = mark →
      S.Does (cmpxchgptr r.hdr r.lock r.obj r.scratch done none >>= fun _ => tellOwn r slow) m1 .none Q) :
    S.Does (fastLock r slow) m E Q := by
  have hne : r.hdr ≠ r.scratch ∧ (r.obj ≠ r.hdr ∧ r.obj ≠ r.scratch) ∧ (r.lock ≠ r.hdr ∧ r.lock ≠ r.scratch) ∧
    sp ≠ r.hdr ∧ sp ≠ r.scratch := by
    have := hr.distinct
    grind
  obtain ⟨hne, ⟨hoh, hos⟩, ⟨hlh, hls⟩, hsh, hss⟩ := hne
  have (done : Label) := traced_cmpxchgptr hne r.lock r.obj done none
  have hsecond : (slot + UInt64.ofNat 8).toNat = slot.toNat + 8 := toNat_off (by omega)
  rw [fastLock_eq]
  refine .bind (does_newLabel fun done => Does.label fun hdone => .bind ?_)
  unfold noteMark
  refine .bind (does_sdAt (a := slot + UInt64.ofNat 8) (by rw [hlock]; rfl) (by omega)
    (fun x hx => hfree x (.inl (by rw [hsecond] at hx; omega))) fun m1 h1 => ?_)
  have hmark1 : m1.mem.read obj 8 = mark := by
    rw [h1.mem, Ram.read_write_off _ _ hfits (by omega) (by omega), hmark]
  have hobj1 : m1.get r.obj = obj := (h1.rest _ List.not_mem_nil).trans hobj
  refine .bind (does_ld (fun m2 h2 => .bind (does_ori hr.hdr fun m3 h3 => ?_)) hr.hdr)
  have hhdr3 : m3.get r.hdr = mark ||| 1 := by
    rw [h3.value, h2.value, hobj1, show objectLayout.mark.toUInt64 = 0 from rfl, UInt64.add_zero, hmark1]
    rfl
  have hmem3 : m3.mem = m1.mem := h3.mem.trans h2.mem
  have hregs3 {s : Reg} (hs : s ≠ r.hdr) : m3.get s = m.get s := by
    rw [h3.other s hs, h2.other s hs, h1.rest s List.not_mem_nil]
  refine .bind (does_sdAt (a := slot) (by rw [hregs3 hlh, hlock]; exact UInt64.add_zero _) (by omega)
    (fun x hx => hfree x (.inl (by omega))) fun m4 h4 => .bind (does_andi hr.scratch fun m5 h5 => ?_))
  have hregs5 {s : Reg} (hs : s ≠ r.hdr) (hs' : s ≠ r.scratch) : m5.get s = m.get s := by
    rw [h5.other s hs', h4.rest s List.not_mem_nil, hregs3 hs]
  have hhdr5 : m5.get r.hdr = mark ||| 1 := by
    rw [h5.other _ hne, h4.rest _ List.not_mem_nil, hhdr3]
  have hmark5 : m5.mem.read obj 8 = mark := by
    rw [h5.mem, h4.mem, hmem3, Ram.read_write_off _ _ hfits (by omega) (by omega), hmark1]
  have hscratch5 : m5.get r.scratch = 0 := by
    rw [h5.value, h4.rest _ List.not_mem_nil, hhdr3]
    exact hstack
  refine does_bcond rfl hl (fun htaken => absurd hscratch5 (of_decide_eq_true htaken)) fun _ p => ?_
  refine (hexchange hdone (show ({ m5 with pc := p } : Machine).get r.obj = obj
    from (Machine.get_withPc ..).trans ((hregs5 hoh hos).trans hobj))
    ((Machine.get_withPc ..).trans ((hregs5 hlh hls).trans hlock)) ((Machine.get_withPc ..).trans (hregs5 hsh hss))
    ((Machine.get_withPc ..).trans hhdr5) hmark5).imp (fun _ _ h => h.elim) fun _ m' hq => does_pure hq

/-- A lock whose exchange finds an own mark instead of the one it noted is taken without the runtime. -/
theorem Resident.Facing.takesLock {t : Target} {c : Resident t} {W : World} {j : Nat} {i : Instruction}
    {m : Machine} {l : LockInfo}
    {r : LockRegs} {slot obj mark : UInt64} {Q : Machine → Prop} (hm : c.Facing W j i m) (hop : i.op = .lock)
    (hl : i.lock = some l)
    (hregs : lockOperands l "lock" = .ok r) (hfast : t.opts.useFastLocking = true) (hr : r.Apart)
    (hobj : m.get r.obj = obj) (hlock : m.get r.lock = slot) (hslot : slot.toNat + 16 ≤ 2 ^ 64)
    (hfits : obj.toNat + 8 ≤ 2 ^ 64)
    (hapart : slot.toNat + 16 ≤ obj.toNat ∨ obj.toNat + 8 ≤ slot.toNat) (hfree : ∀ x, LockWords slot obj x → c.Clear x)
    (hmark : m.mem.read obj 8 = mark) (hstack : (mark ||| 1) &&& 6 = 0)
    (hexchange : ∀ {S : Site} {slow done : Label} {m1 : Machine}, S.target = t → (∀ x, LockWords slot obj x → S.Free x) →
      S.Binds slow → S.Binds done → m1.get r.obj = obj → m1.get r.lock = slot → m1.get sp = m.get sp →
      m1.get r.hdr = mark ||| 1 → m1.mem.read obj 8 = mark →
      S.Does (cmpxchgptr r.hdr r.lock r.obj r.scratch done none >>= fun _ => tellOwn r slow) m1 .none fun _ => Q) :
    c.Runs W j m Q := by
  have hdispatch : dispatch i = (do
      let entry ← newLabel
      let cont ← newLabel
      addSlowPath (.monitorEnter r.obj r.lock i.info entry cont)
      lockInline r entry
      Asm.bind cont) := by
    have hpayload : payload (some l) = .ok l := rfl
    have hlock : dispatch i = Lower.lock i := by
      rw [Lower.dispatch.eq_def]
      simp only [hop]
    rw [hlock]
    unfold Lower.lock lockInline
    simp only [hl, hpayload, hregs, lift_ok_bind, bind_assoc]
    refine bind_congr fun entry => bind_congr fun cont => bind_congr fun _ => bind_congr fun t => ?_
    split <;> rfl
  have (entry : Label) := traced_lockInline hr entry
  have hgo := hm.completes (P := fun _ => False) (Q := Q) hdispatch fun S hviews _ => ?_
  · exact hgo.resolve_right fun h => h.elim fun _ hleft => hleft.2
  refine completes_newLabel fun entry => completes_newLabel fun cont => completes_slowPath fun hwrites hcont hend => ?_
  refine Lowers.detour (P := fun _ => False) rfl hwrites (fun hentry => ?_) fun _ _ _ hnever => hnever.elim
  obtain rfl := hviews.target
  have hspace : ∀ x, LockWords slot obj x → S.Free x := fun x hx => (hviews.free x).mpr (hfree x hx)
  have := hr.traced_fastLock entry
  unfold lockInline
  refine .bind (lowers_read ?_)
  rw [if_pos hfast]
  exact lowers_asm (does_fastLock_exchanging hr hobj hlock hslot hfits hapart hspace hentry hmark hstack
    (fun hdone hobj1 hlock1 hsp1 hhdr1 hmark1 => hexchange rfl hspace hentry hdone hobj1 hlock1 hsp1 hhdr1 hmark1))

/-! ## All marks -/

/-- With pages of at least eight bytes, locks tell exactly whether a mark is an own one. -/
theorem locks_tell_own_marks {t : Target} (hopts : t.opts.refusal? = none) (hpage : 8 ≤ t.opts.pageSize) :
    TellsOwnMarks t where
  parts := fastLock_eq
  alone {S r slow done m slot obj} ht hr hobj hlock hslot hfits hfree hl hdone := by
    subst ht
    exact does_exchange hr hobj hlock hslot hfits hfree hl hdone (fun heq _ => .inl ⟨rfl, heq⟩)
      (fun hne hzero _ hread => ⟨hne, (Options.remains_eq_zero hopts hpage).mp hzero, hread⟩)
      fun hne hremains _ => .inr ⟨rfl, hne, fun hown => hremains ((Options.remains_eq_zero hopts hpage).mpr hown)⟩
  among {S C r slow m slot} ht hr hlock hfree hl hothers hours := by
    subst ht
    exact goes_tellOwn (I := fun _ => True) hr hlock hfree hl trivial (fun h _ => ⟨trivial, hothers h⟩)
      (fun mem v _ => ⟨hours mem v, trivial⟩) (fun hzero _ _ hread =>
      ⟨(Options.remains_eq_zero hopts hpage).mp hzero, hread⟩)
      fun hremains _ _ => ⟨rfl, fun hown => hremains ((Options.remains_eq_zero hopts hpage).mpr hown)⟩

/-- A target with pages of this size. -/
def paged (size : Int64) : Target := ⟨{ pageSize := size }, .synthetic 0x20000⟩

def lockOfTen : LockInfo where
  obj := .register .object (.x 10) .none
  lock := .register .address (.x 11) .none
  hdr := .register .address (.x 12) .none
  scratch := .register .address (.x 13) .none

/-- A method that takes a lock. -/
def locksOnce : Program where
  name := "p"
  frameSize := 64
  code := #[{ op := .lock, lock := some lockOfTen }, { op := .ret }]

/-- A machine in front of code at `0x10000`, with its stack at `0x8000`, a lock slot above that, and an
object with this mark. -/
def marked (mark : UInt64) (code : List UInt8) (pc : UInt64) : Machine where
  x n := if n = 2 then 0x8000 else if n = 10 then 0x4000 else if n = 11 then 0x8010 else 0
  f _ := 0
  pc
  mem := (Ram.write (fun _ => 0) 0x4000 8 mark).overlay 0x10000 code

/-- The lock is taken if the exchange goes on with a zero in the slot. -/
theorem marked_takes {size : Int64} {mark : UInt64}
    (hfast : (paged size).opts.useFastLocking = true) (hcompiles : locksOnce.CompilesWithin (paged size) 0 0 0x1000)
    (hstack : (mark ||| 1) &&& 6 = 0)
    (hexchange : ∀ {S : Site} {slow done : Label} {m1 : Machine}, S.target = paged size →
    (∀ x, LockWords 0x8010 0x4000 x → S.Free x) →
      S.Binds slow → S.Binds done → m1.get (.x 10) = 0x4000 → m1.get (.x 11) = 0x8010 → m1.get sp = 0x8000 →
      m1.get (.x 12) = mark ||| 1 → m1.mem.read 0x4000 8 = mark →
      S.Does (cmpxchgptr (.x 12) (.x 11) (.x 10) (.x 13) done none >>= fun _ =>
      tellOwn ⟨.x 10, .x 11, .x 12, .x 13⟩ slow) m1 .none
        fun _ m' => m'.mem.read 0x8010 8 = 0) :
    ∃ method off next m', locksOnce.compile (paged size) 0 = .ok method ∧ locksOnce.placeOf (paged size) 0 0 = .ok off ∧
      locksOnce.placeOf (paged size) 0 1 = .ok next ∧
      World.bare.Reaches (marked mark method.blob.code (0x10000 + UInt64.ofNat off)) m' ∧
      m'.pc = 0x10000 + UInt64.ofNat next ∧ m'.mem.read 0x8010 8 = 0 := by
  obtain ⟨method, off, hcompiled, hsize, hoff⟩ := hcompiles
  let c : Resident (paged size) := ⟨locksOnce, 0, method, 0x10000, hcompiled, absurd rfl⟩
  let m := marked mark method.blob.code (0x10000 + UInt64.ofNat off)
  have hlow : (0x10000 : UInt64).toNat = 0x10000 := rfl
  have hplaces : (0x4000 : UInt64).toNat = 0x4000 ∧ (0x8010 : UInt64).toNat = 0x8010 := ⟨rfl, rfl⟩
  have hcode : (0x10000 : UInt64).toNat + method.blob.code.length ≤ 2 ^ 64 := by omega
  have hbefore : c.Before 0 m := .of_overlay hsize hoff rfl rfl
  have hmark : m.mem.read 0x4000 8 = mark := by
    have hsame : m.mem.read 0x4000 8 = (Ram.write (fun _ => 0) 0x4000 8 mark).read 0x4000 8 :=
      Ram.read_same (by decide) fun x hx => Ram.overlay_apart _ hcode fun h => by
        omega
    exact hsame.trans (read_write_eight ..)
  have hfree : ∀ x, LockWords 0x8010 0x4000 x → c.Clear x := fun x hx => (CodeBlob.clear_iff hcode).mpr fun h => by
    omega
  have hfacing : c.Facing World.bare 0 { op := .lock, lock := some lockOfTen } m := ⟨rfl, fun _ _ => rfl, hbefore⟩
  obtain ⟨m', hreach, ⟨-, next, hnext, hpc⟩, hzero⟩ :=
    hfacing.takesLock (l := lockOfTen) (r := ⟨.x 10, .x 11, .x 12, .x 13⟩)
    rfl rfl rfl hfast ⟨by decide, by decide, by decide⟩ rfl rfl (show (0x8010 : UInt64).toNat + 16 ≤ 2 ^ 64 by decide)
    (show (0x4000 : UInt64).toNat + 8 ≤ 2 ^ 64 by decide)
    (.inr (show (0x4000 : UInt64).toNat + 8 ≤ (0x8010 : UInt64).toNat by decide)) hfree hmark hstack hexchange
  exact ⟨method, off, next, m', hcompiled, hoff, hnext, hreach, hpc, hzero⟩

/-- A mark above the stack pointer is that of a lock further out. -/
theorem a_near_mark_is_held : (paged 4096).opts.refusal? = none ∧ 8 ≤ (paged 4096).opts.pageSize ∧
    (paged 4096).opts.OwnMark 0x8000 0x8020 ∧ ∃ method off next m', locksOnce.compile (paged 4096) 0 = .ok method ∧
    locksOnce.placeOf (paged 4096) 0 0 = .ok off ∧ locksOnce.placeOf (paged 4096) 0 1 = .ok next ∧
    World.bare.Reaches (marked 0x8020 method.blob.code (0x10000 + UInt64.ofNat off)) m' ∧
    m'.pc = 0x10000 + UInt64.ofNat next ∧ m'.mem.read 0x8010 8 = 0 := by
  have hopts : (paged 4096).opts.refusal? = none := by decide
  have hown : (paged 4096).opts.OwnMark 0x8000 0x8020 := by decide
  refine ⟨hopts, by decide, hown, marked_takes rfl (.of_checks (by decide +kernel) (by decide +kernel))
    (show ((0x8020 : UInt64) ||| 1) &&& 6 = 0 by decide) fun ht hfree hslow hdone hobj hlock hsp hhdr hmark => ?_⟩
  refine ((locks_tell_own_marks hopts (by decide)).alone (r := ⟨.x 10, .x 11, .x 12, .x 13⟩) ht
    ⟨by decide, by decide, by decide⟩ hobj hlock (by decide) (by decide) hfree hslow hdone).imp (fun e _ h => ?_)
    fun _ _ h => h.2.2
  rw [hsp, hhdr, hmark] at h
  rcases h with ⟨-, heq⟩ | ⟨-, -, hnot⟩
  · exact absurd heq (by decide)
  · exact absurd hown hnot

/-- Pages of four bytes are accepted, and then a mark `0x10000` above the stack pointer is taken for an own one. -/
theorem a_far_mark_passes : (paged 4).opts.refusal? = none ∧ ¬ (paged 4).opts.OwnMark 0x8000 0x18000 ∧
    ∃ method off next m', locksOnce.compile (paged 4) 0 = .ok method ∧ locksOnce.placeOf (paged 4) 0 0 = .ok off ∧
    locksOnce.placeOf (paged 4) 0 1 = .ok next ∧
    World.bare.Reaches (marked 0x18000 method.blob.code (0x10000 + UInt64.ofNat off)) m' ∧
    m'.pc = 0x10000 + UInt64.ofNat next ∧ m'.mem.read 0x8010 8 = 0 := by
  refine ⟨by decide, by decide, marked_takes rfl (.of_checks (by decide +kernel) (by decide +kernel))
    (show ((0x18000 : UInt64) ||| 1) &&& 6 = 0 by decide) fun ht hfree hslow hdone hobj hlock hsp hhdr hmark => ?_⟩
  refine does_exchange (r := ⟨.x 10, .x 11, .x 12, .x 13⟩) ⟨by decide, by decide, by decide⟩ hobj hlock (by decide)
    (by decide) hfree hslow hdone (fun heq => ?_) (fun _ _ _ h => h) fun _ hremains => ?_
  · rw [hmark, hhdr] at heq
    exact absurd heq (by decide)
  · rw [ht, hsp, hmark] at hremains
    exact absurd (by decide) hremains

end RiscvJit
