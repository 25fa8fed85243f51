import RiscvJit.Proofs.Code.Rehearsal
import RiscvJit.Proofs.Stub.SavedRegisters

/-
  RiscvJit.Proofs.Stub.Interrupts — shared code that interrupts is not noticed.

  Both the safepoint handler and the resolver park every register in a frame, call the runtime from
  there and take the registers back. `Parked` says what is in the frame; it survives the call
  (`does_callFromSaveFrame`), since the runtime leaves the saved registers alone. What is written
  over a place afterwards is what its register has in the end.

    - The handler goes on where the return address in its frame says, or behind the poll when that is
      still the poll (`safepointHandler_ends`).
    - The resolver goes to the code that the runtime found (`resolver_ends`).
    - When an exception is pending, either pops its frame and forwards it.
-/

namespace RiscvJit

open Reg (zr ra sp t0 t1 fp thread method)
open RegisterSave (place floats ints word_of_saved areaSize slotOf)
open Ram
open Site

/-- The words of the thread from the record of the last frame to the pc that a poll leaves. -/
def ThreadRecord (thr : UInt64) : UInt64 → Prop := OfThread thr 0x1d0 0x50

/-- The bytes of the frame that holds every register, but for the return address on top. -/
abbrev SavedRegisters (top : UInt64) : UInt64 → Prop := Spans (top.toNat - 496) 488

/-- There is room for the registers below the stack pointer, apart from the code and from words of the
thread that are written. -/
structure SaveRoom (Clear : UInt64 → Prop) (top thr : UInt64) : Prop where
  below : 496 ≤ top.toNat
  threadEnd : thr.toNat + 0x220 ≤ 2 ^ 64
  saveClear : ∀ addr, SaveFrame top addr → Clear addr
  threadClear : ∀ addr, ThreadRecord thr addr → Clear addr
  threadApart : ∀ addr, ThreadRecord thr addr → ¬ SaveFrame top addr

/-- The word of the thread that says which exception is pending. -/
def pendingException (thr : UInt64) (m : Machine) : UInt64 := m.mem.read (thr + 8) 8

/-- All registers have what they had, but for some. -/
def Resumes (except : List Reg) (m0 m : Machine) : Prop := ∀ r, r ∉ except → m.get r = m0.get r

/-- The memory that code may change when it stops with the stack pointer and the thread. -/
def StopMemory (top thr : UInt64) (addr : UInt64) : Prop := SaveFrame top addr ∨ ThreadRecord thr addr

/-- A run calls a routine for the current thread, and goes on when it is back. What it changes in memory
by itself is its own. -/
structure Through (W : World) (target : UInt64) (routine : Machine → Machine) (Own : UInt64 → Prop)
    (m called m' : Machine) :
    Prop where
  before : W.Reaches m called
  there : called.pc = target
  current : called.get (.x 10) = m.get thread
  kept : ∀ addr, ¬ Own addr → called.mem addr = m.mem addr
  after : W.Reaches (routine called) m'
  left : ∀ addr, ¬ Own addr → m'.mem addr = (routine called).mem addr

variable {top : UInt64} {m m' : Machine} {addr : UInt64}

/-- A longer run calls the routine, too. -/
theorem Through.within {W : World} {target : UInt64} {routine : Machine → Machine} {Own Own' : UInt64 → Prop}
    {m0 called m1 : Machine} (h : Through W target routine Own m called m') (hbefore : W.Reaches m0 m)
    (hthread : m.get thread = m0.get thread) (hkept : ∀ addr, ¬ Own' addr → m.mem addr = m0.mem addr)
    (hown : ∀ addr, Own addr → Own' addr) (hafter : W.Reaches m' m1)
    (hleft : ∀ addr, ¬ Own' addr → m1.mem addr = m'.mem addr) : Through W target routine Own' m0 called m1 where
  before := hbefore.trans h.before
  there := h.there
  current := h.current.trans hthread
  kept addr hnot := (h.kept addr fun hin => hnot (hown addr hin)).trans (hkept addr hnot)
  after := h.after.trans hafter
  left addr hnot := (hleft addr hnot).trans (h.left addr fun hin => hnot (hown addr hin))

/-- With the routine in between, it is one run. -/
theorem Through.reaches {W : World} {target : UInt64} {routine : Machine → Machine} {Own : UInt64 → Prop}
    {called : Machine} (h : Through W target routine Own m called m')
    (hthere : W target = some routine) : W.Reaches m m' := by
  refine h.before.trans (.head ?_ h.after)
  rw [World.step, h.there, hthere]

theorem lastFrame_threadRecord {thr : UInt64} (h : LastFrame thr addr) : ThreadRecord thr addr := by
  unfold ThreadRecord at *
  omega

theorem saveFrame_of_savedRegisters (h : SavedRegisters top addr) : SaveFrame top addr := by
  unfold SaveFrame
  unfold SavedRegisters at h
  omega

/-- The word of the return address is part of the frame. -/
theorem saveFrame_of_return (hbelow : 496 ≤ top.toNat) (h : Spans (top - 8).toNat 8 addr) : SaveFrame top addr := by
  have htop := top.toNat_lt
  have hback : (top - 8).toNat = top.toNat - 8 := toNat_back (k := 8) (by omega)
  omega

/-- The record of the last frame does not touch the return address. -/
theorem SaveRoom.read_return {Clear : UInt64 → Prop} {thr : UInt64} (hroom : SaveRoom Clear top thr)
    (hmem : ∀ addr, ¬ LastFrame thr addr → m'.mem addr = m.mem addr) : m'.mem.read (top - 8) 8 = m.mem.read
    (top - 8) 8 := by
  have hbelow := hroom.below
  have htop := top.toNat_lt
  have hback : (top - 8).toNat = top.toNat - 8 := toNat_back (k := 8) (by omega)
  exact read_same (by omega) fun x hx => hmem x fun hin =>
    hroom.threadApart x (lastFrame_threadRecord hin) (saveFrame_of_return hbelow hx)

/-! ## Parked registers -/

/-- The registers of a machine are in the places of its frame, but for some that were overwritten. -/
structure Parked (except : List Reg) (m0 m : Machine) : Prop where
  frame : m.get sp = m0.get sp - 496
  current : m.get thread = m0.get thread
  places : ∀ r ∈ floats ++ ints, r ∉ except → m.at (m0.get sp - 496) (place r) = m0.get r
  savedFp : m.mem.read (m0.get sp - 16) 8 = m0.get fp

section
variable {except : List Reg} {m0 m m' : Machine}

theorem Saved.parked (h : Saved m0 m) : Parked [] m0 m where
  frame := h.sp
  current := h.alters.regs _ (by decide)
  places r hr _ := by
    rw [← h.places r hr, h.sp]
  savedFp := h.savedFp

variable {r : Reg}

/-- A place of the frame depends on the saved registers only. -/
theorem at_savedRegisters {top : UInt64} (hroom : 496 ≤ top.toNat) (hr : r ∈ floats ++ ints)
    (hmem : ∀ addr, SavedRegisters top addr → m'.mem addr = m.mem addr) :
    m'.at (top - 496) (place r) = m.at (top - 496) (place r) := by
  have htop := top.toNat_lt
  have hlow : (top - 496).toNat = top.toNat - 496 := toNat_back (k := 496) hroom
  obtain ⟨k, hk, -, hplace⟩ := word_of_saved hr
  have hword : (top - 496 + UInt64.ofNat (4 * (2 * k))).toNat = top.toNat - 496 + 4 * (2 * k) := by
    rw [toNat_off (by omega), hlow]
  rw [hplace]
  refine read_same (by omega) fun x hx => hmem x ?_
  omega

/-- Memory outside the frame does not matter, nor do the registers that are parked. -/
theorem Parked.keep (h : Parked except m0 m) (hroom : 496 ≤ (m0.get sp).toNat) (hsp : m'.get sp = m.get sp)
    (hthread : m'.get thread = m.get thread) (hmem : ∀ addr, SavedRegisters (m0.get sp) addr → m'.mem addr = m.mem addr) :
    Parked except m0 m' := by
  have htop := (m0.get sp).toNat_lt
  have hfp : (m0.get sp - 16).toNat = (m0.get sp).toNat - 16 := toNat_back (k := 16) (by omega)
  refine ⟨hsp.trans h.frame, hthread.trans h.current, fun r hr hnot => ?_, ?_⟩
  · rw [at_savedRegisters hroom hr hmem, h.places r hr hnot]
  · rw [← h.savedFp]
    refine read_same (by omega) fun x hx => hmem x ?_
    omega

theorem Parked.put {v : UInt64} (h : Parked except m0 m) (hp : Put r [] v m m') (hsp : sp ≠ r) (hthread : thread ≠ r) :
    Parked except m0 m' where
  frame := (hp.other _ hsp).trans h.frame
  current := (hp.other _ hthread).trans h.current
  places r' hr' hnot := (at_place hr' hp.mem).trans (h.places r' hr' hnot)
  savedFp := by
    rw [hp.mem]
    exact h.savedFp

theorem Parked.withPc (h : Parked except m0 m) (p : UInt64) : Parked except m0 { m with pc := p } where
  frame := (Machine.get_withPc m p _).trans h.frame
  current := (Machine.get_withPc m p _).trans h.current
  places r hr hnot := (at_place hr rfl).trans (h.places r hr hnot)
  savedFp := h.savedFp

/-- What is written over the place of a register leaves the other places alone. -/
theorem Parked.over (h : Parked except m0 m) (hroom : 496 ≤ (m0.get sp).toNat) (hr : r ∈ floats ++ ints)
    (hapart : ∀ r' ∈ floats ++ ints, r' ≠ r → (place r).aliases (place r') = false)
    (hc : Changed (m0.get sp - 496) [place r] [] m m') : Parked (r :: except) m0 m' := by
  have htop := (m0.get sp).toNat_lt
  have hlow : (m0.get sp - 496).toNat = (m0.get sp).toNat - 496 := toNat_back (k := 496) hroom
  have hfp : (m0.get sp - 16).toNat = (m0.get sp).toNat - 16 := toNat_back (k := 16) (by omega)
  obtain ⟨k, hk, -, hplace⟩ := word_of_saved hr
  have hreg (l : Location) (hl : l ∈ [place r]) (r' : Reg) (hr' : r' ≠ .none) : l.reg ≠ r' := by
    rw [List.mem_singleton.mp hl, hplace]
    exact hr'.symm
  refine ⟨?_, ?_, fun r' hr' hnot => ?_, ?_⟩
  · rw [hc.regs _ List.not_mem_nil fun l hl => hreg l hl _ (by decide), h.frame]
  · rw [hc.regs _ List.not_mem_nil fun l hl => hreg l hl _ (by decide), h.current]
  · obtain ⟨hne, hexcept⟩ := not_or.mp fun h => hnot (List.mem_cons.mpr h)
    obtain ⟨k', hk', -, hplace'⟩ := word_of_saved hr'
    rw [hc.at_eq (l := place r') ?_ List.not_mem_nil fun l hl => ?_, h.places r' hr' hexcept]
    · rw [hplace']
      show (m0.get sp - 496).toNat + 4 * (2 * k') + 8 ≤ 2 ^ 64
      omega
    · rw [List.mem_singleton.mp hl]
      exact hapart r' hr' hne
  · rw [← h.savedFp]
    refine read_same (by omega) fun x hx => hc.mem x fun l hl hcovers => ?_
    rw [List.mem_singleton.mp hl, hplace] at hcovers
    simp only [Location.Covers] at hcovers
    omega

/-- Writing words of the thread leaves parked registers alone. -/
theorem Parked.alters {Clear : UInt64 → Prop} {rs : List Reg} {Mem : UInt64 → Prop} (h : Parked except m0 m)
    (hroom : SaveRoom Clear (m0.get sp) (m0.get thread)) (ha : Alters rs Mem m m') (hsp : sp ∉ rs) (hthread : thread ∉ rs)
    (hmem : ∀ addr, Mem addr → ThreadRecord (m0.get thread) addr) : Parked except m0 m' :=
  h.keep hroom.below (ha.regs _ hsp) (ha.regs _ hthread) fun addr hin => ha.mem addr fun hword =>
    hroom.threadApart addr (hmem addr hword) (saveFrame_of_savedRegisters hin)

/-- Every register but the return address is restored from its place, or keeps its value. -/
theorem saved_of_ne_ra (r : Reg) (hr : r ≠ ra) : r ∈ floats ++ ints ∨ r = sp ∨ r = fp ∨ r = zr ∨ r = .none := by
  have hints : ∀ n : Fin 32, .x n = ra ∨ .x n ∈ floats ++ ints ∨ .x n = sp ∨ .x n = fp ∨ .x n = zr := by decide +kernel
  have hfloats : ∀ n : Fin 32, .f n ∈ floats ++ ints := by decide +kernel
  cases r with
  | x n =>
    rcases hints n with h | h | h | h | h
    · exact absurd h hr
    · exact .inl h
    · exact .inr (.inl h)
    · exact .inr (.inr (.inl h))
    · exact .inr (.inr (.inr (.inl h)))
  | f n => exact .inl (hfloats n)
  | none => exact .inr (.inr (.inr (.inr rfl)))

/-- Parked registers that are restored are what they were. -/
theorem Parked.restored (h : Parked except m0 m) (hr : Site.Restored m m') : Resumes (ra :: except) m0 m' := by
  intro r hnot
  obtain ⟨hra, hexcept⟩ := not_or.mp fun h => hnot (List.mem_cons.mpr h)
  rcases saved_of_ne_ra r hra with hsaved | rfl | rfl | rfl | rfl
  · rw [hr.regs r hsaved, h.frame, h.places r hsaved hexcept]
  · rw [hr.sp, h.frame, UInt64.sub_add_cancel]
  · rw [hr.fp, h.frame, show m0.get sp - 496 + 480 = m0.get sp - 16 by grind, h.savedFp]
  · rfl
  · rfl

/-- The return address in the frame. -/
theorem Parked.restored_ra (h : Parked except m0 m) (hr : Site.Restored m m') :
    m'.get ra = m.mem.read (m0.get sp - 8) 8 := by
  rw [hr.ra, h.frame, show m0.get sp - 496 + 488 = m0.get sp - 8 by grind]

theorem Parked.restored_place (h : Parked except m0 m) (hr : Site.Restored m m') (hsaved : r ∈ floats ++ ints) :
    m'.get r = m.at (m0.get sp - 496) (place r) := by
  rw [hr.regs r hsaved, h.frame]

end

/-! ## Calling from the frame -/

namespace Asm

instance traced_forwardPendingException : Traced forwardPendingException := by
  unfold forwardPendingException
  infer_instance

instance traced_callFromSaveFrame (e : RuntimeEntry) (map : OopMap) : Traced (callFromSaveFrame e map) := by
  unfold callFromSaveFrame
  infer_instance

end Asm

namespace Site

variable {S : Site} {E : Exits} {Q : Unit → Machine → Prop} {except : List Reg} {m0 m : Machine}

/-- When an exception is pending, the frame is popped and the exception is forwarded. -/
theorem does_forwardPendingException (hstart : S.start % 2 = 0)
    (hforward : S.target.runtime.addr .forwardException % 2 = 0) (hm : Parked except m0 m)
    (hpending : pendingException (m0.get thread) m ≠ 0 → ∀ m', m'.pc = S.target.runtime.addr .forwardException →
      Resumes (t0 :: ra :: except) m0 m' → m'.get ra = m.mem.read (m0.get sp - 8) 8 → m'.mem = m.mem → E .away m')
    (h : pendingException (m0.get thread) m = 0 → ∀ m', Alters [t0] (fun _ => False) m m' → Q () m') :
    S.Does Asm.forwardPendingException m E Q := by
  have hshape : Asm.forwardPendingException = Asm.newLabel >>= fun noException => (do
      Asm.ld t0 thread threadLayout.pendingException
      Asm.branch .beq t0 zr noException
      Asm.restoreLiveRegisters
      Asm.rtJump .forwardException) >>= fun _ => Asm.bind noException >>= fun _ => pure () := by
    simp only [Asm.forwardPendingException, bind_assoc, bind_pure_unit]
  rw [hshape]
  refine .bind (does_newLabel fun noException => Does.label fun hl => .bind (does_ld fun m1 h1 => ?_))
  have hvalue : m1.get t0 = pendingException (m0.get thread) m := by
    rw [h1.value, hm.current]
    rfl
  have halters : Alters [t0] (fun _ => False) m m1 := h1.alters (by simp) (by simp)
  refine .bind (does_branch rfl hl (fun htaken p =>
    .inl ⟨rfl, fun _ => does_pure (h ?_ _ (halters.withPc p))⟩) fun hnot p => ?_)
  · rw [← hvalue]
    exact of_decide_eq_true htaken
  have hm1 := (hm.put h1 (by decide) (by decide)).withPc p
  refine .bind (does_restoreLiveRegisters fun m2 h2 => does_rtJump hforward hstart fun m3 h3 => .inr (hpending ?_ m3 h3.pc
    (fun r hr => ?_) ?_ ?_))
  · rw [← hvalue]
    exact of_decide_eq_false hnot
  · obtain ⟨ht0, hrest⟩ := not_or.mp fun h => hr (List.mem_cons.mpr h)
    rw [h3.rest r (by simpa using ht0), hm1.restored h2 r hrest]
  · rw [h3.rest _ (by decide), hm1.restored_ra h2]
    show m1.mem.read _ 8 = _
    rw [h1.mem]
  · rw [h3.mem, h2.mem]
    exact h1.mem

/-- The runtime is called from the frame. It comes back, and unless an exception is pending the run goes on. -/
theorem does_callFromSaveFrame {e : RuntimeEntry} {map : OopMap} {Kept : UInt64 → Prop} {routine : Machine → Machine}
    (hstart : S.start % 2 = 0) (hserves : Serves S.world (S.target.runtime.addr e) Kept routine)
    (hforward : S.target.runtime.addr .forwardException % 2 = 0) (hcode : ∀ addr, ¬ S.Free addr → Kept addr)
    (hkept : ∀ addr, SavedRegisters (m0.get sp) addr → Kept addr)
    (hroom : SaveRoom S.Free (m0.get sp) (m0.get thread)) (hm : Parked except m0 m)
    (hpending : ∀ called m', Through S.world (S.target.runtime.addr e) routine (LastFrame (m0.get thread)) m called m' →
      pendingException (m0.get thread) (routine called) ≠ 0 → m'.pc = S.target.runtime.addr .forwardException →
      Resumes (t0 :: ra :: except) m0 m' → m'.get ra = (routine called).mem.read (m0.get sp - 8) 8 → E .away m')
    (h : ∀ called m', Through S.world (S.target.runtime.addr e) routine (LastFrame (m0.get thread)) m called m' →
      pendingException (m0.get thread) (routine called) = 0 → Parked except m0 m' →
      (∀ r, r ≠ t0 → m'.get r = (routine called).get r) → Q () m') :
    S.Does (Asm.callFromSaveFrame e map) m E Q := by
  have hfree (addr : UInt64) (ha : LastFrame (m0.get thread) addr) : S.Free addr :=
    hroom.threadClear addr (lastFrame_threadRecord ha)
  have hsmall : (m0.get thread).toNat + 0x1e8 ≤ 2 ^ 64 := by
    have := hroom.threadEnd
    omega
  have hshape : Asm.callFromSaveFrame e map = Asm.newLabel >>= fun returned => ((do
      Asm.setLastJavaFrame sp fp returned t0
      Asm.mv (.x 10) thread) >>= fun _ => Asm.rtCall e) >>= fun _ => Asm.bind returned >>= fun _ => (do
      Asm.addOopMap map
      Asm.resetLastJavaFrame false
      Asm.forwardPendingException) := by
    simp only [Asm.callFromSaveFrame, bind_assoc]
  rw [hshape]
  refine .bind (does_newLabel fun returned => Does.label fun hl => ?_)
  have hrecord : S.Does (do
      Asm.setLastJavaFrame sp fp returned t0
      Asm.mv (.x 10) thread) m Exits.none fun _ m' => Parked except m0 m' ∧ m'.get (.x 10) = m.get thread ∧
        ∀ addr, ¬ LastFrame (m0.get thread) addr → m'.mem addr = m.mem addr := by
    refine .bind (does_setLastJavaFrame (by decide) (by decide) (by decide) hl hm.current hsmall hfree fun m1 h1 => ?_)
    have hm1 := hm.alters hroom h1 (by decide) (by decide) fun _ => lastFrame_threadRecord
    refine does_mv fun m2 h2 => ⟨hm1.put h2 (by decide) (by decide), ?_, fun addr ha => ?_⟩
    · rw [h2.value, hm1.current, hm.current]
    · rw [h2.mem, h1.mem addr ha]
  refine .bind (hrecord.reaching.imp (fun _ _ h => h.2.elim) fun _ m2 ⟨hreach2, hm2, hcurrent, hkept2⟩ => ?_)
  refine does_rtCall hserves hstart hcode fun m3 h3 => ?_
  have hm3 : Parked except m0 m3 :=
    hm2.keep hroom.below (h3.regs _ (by decide)) (h3.regs _ (by decide)) fun addr ha => h3.mem addr (hkept addr ha)
  obtain ⟨called, hreach, ⟨ret, hcalled⟩, rfl⟩ := h3.answer
  have through {m' : Machine} (hafter : S.world.Reaches (routine called) m')
      (hleft : ∀ addr, ¬ LastFrame (m0.get thread) addr → m'.mem addr = (routine called).mem addr) :
      Through S.world (S.target.runtime.addr e) routine (LastFrame (m0.get thread)) m called m' :=
    ⟨hreach2.trans hreach, hcalled.pc, (hcalled.rest _ (by decide) (by decide)).trans hcurrent,
      fun addr ha => by rw [hcalled.mem, hkept2 addr ha], hafter, hleft⟩
  -- what comes behind the call
  have htail : S.Does (do
      Asm.addOopMap map
      Asm.resetLastJavaFrame false
      Asm.forwardPendingException) (routine called) (fun e' m' => S.world.Reaches (routine called) m' → E e' m')
      fun r m' => S.world.Reaches (routine called) m' → Q r m' := by
    refine .bind (does_addOopMap (.bind (does_resetLastJavaFrame hm3.current hsmall hfree fun m4 h4 => ?_)))
    have hm4 := hm3.alters hroom h4 (by decide) (by decide) fun _ => lastFrame_threadRecord
    have hsame : pendingException (m0.get thread) m4 = pendingException (m0.get thread) (routine called) := by
      have hword : (m0.get thread + 8).toNat = (m0.get thread).toNat + 8 := toNat_off (k := 8) (by omega)
      refine h4.read (by omega) fun x hx hin => ?_
      omega
    have hreturn : m4.mem.read (m0.get sp - 8) 8 = (routine called).mem.read (m0.get sp - 8) 8 := hroom.read_return h4.mem
    refine does_forwardPendingException hstart hforward hm4 (fun hne m5 hpc hregs hra hmem hafter => ?_)
      fun hzero m5 h5 hafter => ?_
    · exact hpending called m5 (through hafter fun addr ha => by rw [hmem, h4.mem addr ha]) (hsame ▸ hne) hpc hregs
        (hra.trans hreturn)
    · have hall := (h4.mono (show ∀ r ∈ _, r ∈ [t0] by simp) fun _ ha => ha).trans (h5.mono (by simp) nofun)
      exact h called m5 (through hafter hall.mem) (hsame.symm.trans hzero)
        (hm4.alters hroom h5 (by decide) (by decide) nofun)
        fun r hr => hall.regs r (by simpa using hr)
  exact htail.reaching.imp (fun _ _ ⟨hreach, hexit⟩ => hexit hreach) fun _ _ ⟨hreach, hend⟩ => hend hreach

theorem does_setReturnAddress {src : Reg} (hroom : SaveRoom S.Free (m0.get sp) (m0.get thread)) (hm : Parked except m0 m)
    (h : ∀ m', Parked except m0 m' → (∀ r, m'.get r = m.get r) →
    m'.mem = m.mem.write (m0.get sp - 8) 8 (m.get src) → Q () m') :
    S.Does (Asm.sd src sp (areaSize + 8)) m E Q := by
  have hbelow := hroom.below
  have htop := (m0.get sp).toNat_lt
  have hword : (m0.get sp - 8).toNat = (m0.get sp).toNat - 8 := toNat_back (k := 8) (by omega)
  have haddr : m.get sp + (areaSize + 8).toUInt64 = m0.get sp - 8 := by
    rw [hm.frame, show (areaSize + 8).toUInt64 = 488 from rfl]
    grind
  refine does_sdAt haddr (by omega) (fun x hx => hroom.saveClear x ?_) fun m' h' =>
    h m' ?_ (fun r => h'.rest r List.not_mem_nil) h'.mem
  · omega
  · refine hm.keep hbelow (h'.rest _ List.not_mem_nil) (h'.rest _ List.not_mem_nil) fun x hx => ?_
    rw [h'.mem, write_apart _ _ (by omega) fun hs => ?_]
    omega

end Site

namespace Stub

open Asm

/-! ## The safepoint handler -/

/-- Where the run goes on after a safepoint: where the return address in the frame says, or behind the poll
when that is the poll. -/
def resumeAddress (poll top : UInt64) (m : Machine) : UInt64 :=
  let ret := m.mem.read (top - 8) 8
  if ret = poll then poll + 16 else ret

/-- What the runtime keeps at a safepoint: the code, the saved registers and the pc of the poll. -/
def KeptAtSafepoint (Clear : UInt64 → Prop) (top thr addr : UInt64) : Prop :=
  ¬ Clear addr ∨ SavedRegisters top addr ∨ OfThread thr 0x218 8 addr

/-- The end of a stop for a safepoint that was entered from a poll. -/
structure HandlerEnd (W : World) (t : Target) (routine : Machine → Machine) (poll : UInt64)
    (m called m' : Machine) : Prop where
  through : Through W (t.runtime.addr .handlePollingPageException) routine
    (StopMemory (m.get sp) (m.get thread)) m called m'
  /-- To the runtime the poll looks like the return address. -/
  noted : called.mem.read (m.get sp - 8) 8 = poll
  regs : Resumes [t0, ra] m m'
  forwards : pendingException (m.get thread) (routine called) ≠ 0 → m'.pc = t.runtime.addr .forwardException
  resumes : pendingException (m.get thread) (routine called) = 0 →
    Jumped m' (resumeAddress poll (m.get sp) (routine called))

instance traced_safepointHandlerBody : Traced safepointHandlerBody := by
  unfold safepointHandlerBody
  infer_instance

instance traced_resolverBody (e : RuntimeEntry) : Traced (resolverBody e) := by
  unfold resolverBody
  infer_instance

section
variable {S : Site} {E : Exits} {Q : Unit → Machine → Prop} {m0 m : Machine} {routine : Machine → Machine} {poll : UInt64}

variable {thr : UInt64}

theorem lastFrame_stopMemory {top addr : UInt64} (h : LastFrame thr addr) : StopMemory top thr addr :=
  .inr (lastFrame_threadRecord h)

/-- The word of the poll is one of the thread, which the record of the last frame does not cover. -/
theorem pollWord_of_spans {addr : UInt64} (hend : thr.toNat + 0x220 ≤ 2 ^ 64) (h : Spans (thr + 0x218).toNat 8 addr) :
    OfThread thr 0x218 8 addr ∧ ThreadRecord thr addr ∧ ¬ LastFrame thr addr := by
  have hword : (thr + 0x218).toNat = thr.toNat + 0x218 := toNat_off (k := 0x218) (by omega)
  unfold ThreadRecord LastFrame OfThread
  omega

theorem pollWord_end (hend : thr.toNat + 0x220 ≤ 2 ^ 64) : (thr + 0x218).toNat + 8 ≤ 2 ^ 64 := by
  have hword : (thr + 0x218).toNat = thr.toNat + 0x218 := toNat_off (k := 0x218) (by omega)
  omega

/-- All registers are parked, with the poll in place of the return address. -/
theorem does_parkAtPoll (hroom : SaveRoom S.Free (m0.get sp) (m0.get thread)) :
    S.Does (saveLiveRegisters >>= fun map => (do
      ld t0 thread threadLayout.savedExceptionPc
      sd t0 sp (areaSize + 8)) >>= fun _ => pure map) m0 E fun _ m => Parked [] m0 m ∧
        (∀ addr, ¬ StopMemory (m0.get sp) (m0.get thread) addr → m.mem addr = m0.mem addr) ∧
        m.mem.read (m0.get thread + 0x218) 8 = m0.mem.read (m0.get thread + 0x218) 8 ∧
        m.mem.read (m0.get sp - 8) 8 = m0.mem.read (m0.get thread + 0x218) 8 := by
  have htop := (m0.get sp).toNat_lt
  have hbelow := hroom.below
  have hback : (m0.get sp - 8).toNat = (m0.get sp).toNat - 8 := toNat_back (k := 8) (by omega)
  refine .bind (does_saveLiveRegisters hbelow hroom.saveClear fun map m1 h1 => .bind ?_)
  refine .bind (does_ld fun m2 h2 => ?_)
  have hm2 := h1.parked.put h2 (by decide) (by decide)
  have hpoll : m1.mem.read (m0.get thread + 0x218) 8 = m0.mem.read (m0.get thread + 0x218) 8 := by
    refine read_same (pollWord_end hroom.threadEnd) fun x hx => h1.alters.mem x fun hin => ?_
    exact hroom.threadApart x (pollWord_of_spans hroom.threadEnd hx).2.1 hin
  refine does_setReturnAddress hroom hm2 fun m3 hm3 _ hmem => does_pure ⟨hm3, fun addr hnot => ?_, ?_, ?_⟩
  · rw [hmem, write_apart _ _ (by omega) fun hs => hnot (.inl (saveFrame_of_return hbelow hs)), h2.mem]
    exact h1.alters.mem addr fun hin => hnot (.inl hin)
  · rw [← hpoll]
    refine read_same (pollWord_end hroom.threadEnd) fun x hx => ?_
    obtain ⟨-, hrecord, -⟩ := pollWord_of_spans hroom.threadEnd hx
    rw [hmem, write_apart _ _ (by omega) fun hs => hroom.threadApart x hrecord (saveFrame_of_return hbelow hs), h2.mem]
  · rw [hmem, read_write_eight, h2.value, h1.parked.current]
    exact hpoll

/-- The frame is popped, and the run goes on where its return address says. -/
theorem does_returnFromFrame {except : List Reg} (hm : Parked except m0 m)
    (h : ∀ m', Resumes (ra :: except) m0 m' → Jumped m' (m.mem.read (m0.get sp - 8) 8) → m'.mem = m.mem → E .away m') :
    S.Does (do restoreLiveRegisters; ret) m E Q := by
  refine .bind (does_restoreLiveRegisters fun m1 h1 => does_jr (h _ (fun r hr => ?_) (jumped_of_pc ?_) h1.mem))
  · rw [Machine.get_withPc, hm.restored h1 r hr]
  · rw [← hm.restored_ra h1]

/-- When the return address is still the poll, it is moved behind the poll. -/
def leavePoll (returnAddress : Int64) (resume : Label) : Asm Unit := do
  ld t0 sp returnAddress
  ld t1 thread threadLayout.savedExceptionPc
  branch .bne t0 t1 resume
  addi t0 t0 safepointPollSize
  sd t0 sp returnAddress

instance traced_leavePoll (returnAddress : Int64) (resume : Label) : Traced (leavePoll returnAddress resume) := by
  unfold leavePoll
  infer_instance

theorem does_leavePoll {resume : Label} (hl : S.Binds resume) (hroom : SaveRoom S.Free (m0.get sp) (m0.get thread))
    (hm : Parked [] m0 m) (hpoll : m.mem.read (m0.get thread + 0x218) 8 = poll)
    (h : ∀ m', Parked [] m0 m' → m'.mem.read (m0.get sp - 8) 8 = resumeAddress poll (m0.get sp) m →
      (∀ addr, ¬ SaveFrame (m0.get sp) addr → m'.mem addr = m.mem addr) → E (.label resume) m' ∧ Q () m') :
    S.Does (leavePoll (areaSize + 8) resume) m E Q := by
  have htop := (m0.get sp).toNat_lt
  have hbelow := hroom.below
  have hback : (m0.get sp - 8).toNat = (m0.get sp).toNat - 8 := toNat_back (k := 8) (by omega)
  unfold leavePoll
  refine .bind (does_ld fun m1 h1 => .bind (does_ld fun m2 h2 => ?_))
  have hm1 := hm.put h1 (by decide) (by decide)
  have hm2 := hm1.put h2 (by decide) (by decide)
  have hreturn : m2.get t0 = m.mem.read (m0.get sp - 8) 8 := by
    rw [h2.other _, h1.value, hm.frame, show (areaSize + 8).toUInt64 = 488 from rfl,
      show m0.get sp - 496 + 488 = m0.get sp - 8 by grind]
  have hvalue : m2.get t1 = poll := by
    rw [h2.value, hm1.current, h1.mem]
    exact hpoll
  have hmem : m2.mem = m.mem := h2.mem.trans h1.mem
  refine .bind (does_branch rfl hl (fun htaken p => (h _ (hm2.withPc p) ?_ fun addr _ => ?_).1) fun hnot p => ?_)
  · have hne : m.mem.read (m0.get sp - 8) 8 ≠ poll := by
      rw [← hreturn, ← hvalue]
      exact of_decide_eq_true htaken
    rw [resumeAddress, if_neg hne, ← hmem]
  · rw [← hmem]
  · have heq : m.mem.read (m0.get sp - 8) 8 = poll := by
      rw [← hreturn, ← hvalue]
      exact Classical.not_not.mp (of_decide_eq_false hnot)
    refine .bind (does_addi fun m3 h3 => ?_)
    have hm3 := (hm2.withPc p).put h3 (by decide) (by decide)
    refine does_setReturnAddress hroom hm3 fun m4 hm4 _ hmem4 => (h m4 hm4 ?_ fun addr hnot => ?_).2
    · rw [hmem4, read_write_eight, h3.value, Machine.get_withPc, hreturn, resumeAddress, if_pos heq, heq]
      rfl
    · rw [hmem4, write_apart _ _ (by omega) fun hs => hnot (saveFrame_of_return hbelow hs), h3.mem]
      exact congrFun hmem addr

set_option synthInstance.maxSize 512 in
theorem does_safepointHandler (hstart : S.start % 2 = 0) (hroom : SaveRoom S.Free (m0.get sp) (m0.get thread))
    (hserves : Serves S.world (S.target.runtime.addr .handlePollingPageException)
      (KeptAtSafepoint S.Free (m0.get sp) (m0.get thread)) routine)
    (hforward : S.target.runtime.addr .forwardException % 2 = 0) :
    S.Does safepointHandlerBody m0 (Exits.none.or .away fun m' => ∃ called,
    HandlerEnd S.world S.target routine (m0.mem.read (m0.get thread + 0x218) 8) m0 called m')
      fun _ _ => False := by
  have hshape : safepointHandlerBody = (liftM (slotOf ra) : Asm Int64) >>= fun returnAddress => newLabel >>= fun resume =>
      (saveLiveRegisters >>= fun map => (do
        ld t0 thread threadLayout.savedExceptionPc
        sd t0 sp returnAddress) >>= fun _ => pure map) >>= fun map =>
      callFromSaveFrame .handlePollingPageException map >>= fun _ => leavePoll returnAddress resume >>= fun _ =>
      bind resume >>= fun _ => (do
        restoreLiveRegisters
        ret) := by
    simp only [safepointHandlerBody, leavePoll, bind_assoc, pure_bind]
  rw [hshape]
  refine .bind (does_lift fun returnAddress hslot => ?_)
  cases hslot
  refine .bind (does_newLabel fun resume => ?_)
  refine .bind ((does_parkAtPoll (E := Exits.none) hroom).reaching.imp (fun _ _ h => h.2.elim)
    fun map m1 ⟨hreach1, hm1, hmem1, hpoll1, hreturn1⟩ => ?_)
  refine .bind (does_callFromSaveFrame hstart hserves hforward (fun addr ha => .inl ha)
    (fun addr ha => .inr (.inl ha)) hroom hm1
    (fun called m2 hthrough hne hpc hregs _ => .inl ⟨rfl, called, ?_⟩) fun called m2 hthrough hzero hm2 _ => ?_)
  · exact ⟨hthrough.within hreach1 hm1.current hmem1 (fun _ => lastFrame_stopMemory) (.refl _ _) fun _ _ => rfl,
      (hroom.read_return hthrough.kept).trans hreturn1, hregs, fun _ => hpc, fun hzero => absurd hzero hne⟩
  -- neither the call nor the runtime changes the pc of the poll
  have hpoll2 : m2.mem.read (m0.get thread + 0x218) 8 = m0.mem.read (m0.get thread + 0x218) 8 := by
    rw [← hpoll1]
    refine read_same (pollWord_end hroom.threadEnd) fun x hx => ?_
    obtain ⟨hword, -, hnot⟩ := pollWord_of_spans hroom.threadEnd hx
    rw [hthrough.left x hnot, hserves.mem called x (.inr (.inr hword)), hthrough.kept x hnot]
  have hreturn2 : m2.mem.read (m0.get sp - 8) 8 = (routine called).mem.read (m0.get sp - 8) 8 :=
    hroom.read_return hthrough.left
  have htail : S.Does (leavePoll (areaSize + 8) resume >>= fun _ => bind resume >>= fun _ => (do
      restoreLiveRegisters
      ret)) m2 (fun e m' => S.world.Reaches m2 m' → Exits.none.or .away (fun m' => ∃ called,
        HandlerEnd S.world S.target routine (m0.mem.read (m0.get thread + 0x218) 8) m0 called m') e m')
        fun _ _ => False := by
    refine Does.label fun hl => does_leavePoll hl hroom hm2 hpoll2 fun m3 hm3 hreturn3 hmem3 => ?_
    have hgo : S.Does (do restoreLiveRegisters; ret) m3 (fun e m' => S.world.Reaches m2 m' → Exits.none.or .away
        (fun m' => ∃ called, HandlerEnd S.world S.target routine
        (m0.mem.read (m0.get thread + 0x218) 8) m0 called m') e m') fun _ _ => False := by
      refine does_returnFromFrame hm3 fun m4 hregs hjumped hmem4 hreach4 => .inl ⟨rfl, called, ?_⟩
      refine ⟨hthrough.within hreach1 hm1.current hmem1 (fun _ => lastFrame_stopMemory) hreach4 fun addr hnot => ?_,
        (hroom.read_return hthrough.kept).trans hreturn1, fun r hr => hregs r fun hmem =>
        hr (List.mem_cons_of_mem _ hmem), fun hne => absurd hzero hne, fun _ => ?_⟩
      · rw [hmem4, hmem3 addr fun hin => hnot (.inl hin)]
      · rwa [hreturn3, resumeAddress, hreturn2] at hjumped
    exact ⟨.inl ⟨rfl, fun _ => hgo⟩, hgo⟩
  exact htail.reaching.imp (fun _ _ ⟨hreach, hexit⟩ => hexit hreach) fun _ _ h => h.2

end

/-! ## Resolvers -/

/-- The way out of a resolver: what the runtime found is put where registers are restored from. -/
def leaveResolver : Asm Unit := do
  ld t1 thread threadLayout.vmResult2
  sd t1 sp (← slotOf method)
  sd (.x 10) sp (← slotOf t0)
  sd zr thread threadLayout.vmResult2
  restoreLiveRegisters
  jr t0

/-- What the runtime keeps while it resolves: the code and the frame. -/
def KeptAtResolve (Clear : UInt64 → Prop) (top addr : UInt64) : Prop := ¬ Clear addr ∨ SaveFrame top addr

/-- The end of a run of a resolver. -/
structure ResolverEnd (W : World) (t : Target) (e : RuntimeEntry) (routine : Machine → Machine) (m called m' : Machine) :
    Prop where
  through : Through W (t.runtime.addr e) routine (StopMemory (m.get sp) (m.get thread)) m called m'
  forwards : pendingException (m.get thread) (routine called) ≠ 0 →
    m'.pc = t.runtime.addr .forwardException ∧ Resumes [t0] m m'
  resolves : pendingException (m.get thread) (routine called) = 0 →
    Jumped m' ((routine called).get (.x 10)) ∧ Resumes [t0, method] m m' ∧
      m'.get method = (routine called).mem.read (m.get thread + 0x210) 8

section
variable {S : Site} {E : Exits} {m0 m : Machine} {routine : Machine → Machine} {except : List Reg}

/-- A register is to have another value when the frame is popped. -/
theorem does_replace {src r : Reg} (hroom : SaveRoom S.Free (m0.get sp) (m0.get thread)) (hm : Parked except m0 m)
    (hr : r ∈ floats ++ ints) (hapart : ∀ r' ∈ floats ++ ints, r' ≠ r → (place r).aliases (place r') = false) :
    S.Does (do sd src sp (← slotOf r)) m E fun _ m' => Parked (r :: except) m0 m' ∧
      Changed (m0.get sp - 496) [place r] [] m m' ∧ m'.at (m0.get sp - 496) (place r) = m.get src := by
  have hbelow := hroom.below
  have htop := (m0.get sp).toNat_lt
  have hlow : (m0.get sp - 496).toNat = (m0.get sp).toNat - 496 := toNat_back (k := 496) hbelow
  have hsave := does_saveRegister (S := S) (E := E) (o := .sd) (m := m) src rfl rfl hr
    (by rw [hm.frame]; omega) fun addr ha => hroom.saveClear addr (by
      rw [hm.frame] at ha
      omega)
  rw [hm.frame] at hsave
  exact hsave.imp (fun _ _ h => h) fun _ m' ⟨hc, hv⟩ => ⟨hm.over hbelow hr hapart hc, hc, hv⟩

/-- The machine when a resolver has left its frame. -/
structure ResolverLeft (m0 m m' : Machine) : Prop where
  jumped : Jumped m' (m.get (.x 10))
  found : m'.get method = m.mem.read (m0.get thread + 0x210) 8
  ret : m'.get ra = m.mem.read (m0.get sp - 8) 8
  regs : Resumes [ra, t0, method] m0 m'
  kept : ∀ addr, ¬ SavedRegisters (m0.get sp) addr → ¬ ThreadRecord (m0.get thread) addr → m'.mem addr = m.mem addr

theorem does_leaveResolver (hroom : SaveRoom S.Free (m0.get sp) (m0.get thread)) (hm : Parked [] m0 m) :
    S.Does leaveResolver m (Exits.none.or .away (ResolverLeft m0 m)) fun _ _ => False := by
  have hbelow := hroom.below
  have hthreadEnd := hroom.threadEnd
  have htop := (m0.get sp).toNat_lt
  have hlow : (m0.get sp - 496).toNat = (m0.get sp).toNat - 496 := toNat_back (k := 496) hbelow
  have hshape : leaveResolver = ld t1 thread threadLayout.vmResult2 >>= fun _ =>
    (do sd t1 sp (← slotOf method)) >>= fun _ =>
      (do sd (.x 10) sp (← slotOf t0)) >>= fun _ => sd zr thread threadLayout.vmResult2 >>= fun _ =>
        restoreLiveRegisters >>= fun _ => jr t0 := by
    simp only [leaveResolver, bind_assoc]
  rw [hshape]
  refine .bind (does_ld fun m1 h1 => ?_)
  have hm1 := hm.put h1 (by decide) (by decide)
  refine .bind ((does_replace hroom hm1 (by decide +kernel) (by decide +kernel)).imp (fun _ _ h => h)
    fun _ m2 ⟨hm2, hc2, hmethod⟩ => ?_)
  refine .bind ((does_replace hroom hm2 (by decide +kernel) (by decide +kernel)).imp (fun _ _ h => h)
    fun _ m3 ⟨hm3, hc3, htarget⟩ => ?_)
  have hword {addr : UInt64} (ha : OfThread (m0.get thread) 0x210 8 addr) : ThreadRecord (m0.get thread) addr := by
    unfold ThreadRecord
    omega
  refine .bind (does_threadWord 0x210 hm3.current (by omega) (fun addr ha =>
    hroom.threadClear addr (hword ha)) fun m4 h4 => ?_)
  have hm4 := hm3.alters hroom h4 List.not_mem_nil List.not_mem_nil fun _ => hword
  have hplace {r : Reg} (hr : r ∈ floats ++ ints) : m4.at (m0.get sp - 496) (place r) = m3.at
    (m0.get sp - 496) (place r) :=
    at_savedRegisters hbelow hr fun addr ha => h4.mem addr fun hin =>
      hroom.threadApart addr (hword hin) (saveFrame_of_savedRegisters ha)
  have hcovers {r : Reg} {addr : UInt64} (hr : r ∈ floats ++ ints) (hc : (place r).Covers (m0.get sp - 496) addr) :
      SavedRegisters (m0.get sp) addr := by
    have hin := spans_of_place hr hc
    omega
  have hleft {addr : UInt64} (hsaved : ¬ SavedRegisters (m0.get sp) addr)
    (hrecord : ¬ ThreadRecord (m0.get thread) addr) :
      m4.mem addr = m.mem addr := by
    rw [h4.mem addr fun hin => hrecord (hword hin),
      hc3.mem addr fun l hl hc => hsaved (hcovers (by decide +kernel) (List.mem_singleton.mp hl ▸ hc)),
      hc2.mem addr fun l hl hc => hsaved (hcovers (by decide +kernel) (List.mem_singleton.mp hl ▸ hc)), h1.mem]
  refine .bind (does_restoreLiveRegisters fun m5 h5 => does_jr (.inl ⟨rfl, jumped_of_pc ?_, ?_, ?_, fun r hr => ?_,
    fun addr hsaved hrecord => (congrFun h5.mem addr).trans (hleft hsaved hrecord)⟩))
  · have hx10 : m2.get (.x 10) = m1.get (.x 10) :=
      (alters_of_places (show [method].Sublist _ from List.singleton_sublist.mpr (by decide +kernel)) hc2).regs
      _ List.not_mem_nil
    rw [hm4.restored_place h5 (by decide +kernel), hplace (by decide +kernel), htarget, hx10, h1.other _]
  · have hkept : m3.at (m0.get sp - 496) (place method) = m2.at (m0.get sp - 496) (place method) := by
      obtain ⟨k, hk, -, hplace⟩ := word_of_saved (r := method) (by decide +kernel)
      refine hc3.at_eq ?_ List.not_mem_nil fun l hl => ?_
      · rw [hplace]
        show (m0.get sp - 496).toNat + 4 * (2 * k) + 8 ≤ 2 ^ 64
        omega
      · rw [List.mem_singleton.mp hl]
        decide +kernel
    rw [Machine.get_withPc, hm4.restored_place h5 (by decide +kernel), hplace (by decide +kernel), hkept,
      hmethod, h1.value, hm.current]
    rfl
  · have hback : (m0.get sp - 8).toNat = (m0.get sp).toNat - 8 := toNat_back (k := 8) (by omega)
    rw [Machine.get_withPc, hm4.restored_ra h5]
    refine read_same (by omega) fun x hx => hleft (fun h => ?_) fun h =>
      hroom.threadApart x h (saveFrame_of_return hbelow hx)
    omega
  · exact (Machine.get_withPc ..).trans (hm4.restored h5 r hr)

theorem does_resolver {e : RuntimeEntry} (hstart : S.start % 2 = 0) (hroom : SaveRoom S.Free (m0.get sp) (m0.get thread))
    (hserves : Serves S.world (S.target.runtime.addr e) (KeptAtResolve S.Free (m0.get sp)) routine)
    (hforward : S.target.runtime.addr .forwardException % 2 = 0) :
    S.Does (resolverBody e) m0 (Exits.none.or .away fun m' => ∃ called,
    ResolverEnd S.world S.target e routine m0 called m')
      fun _ _ => False := by
  have hbelow := hroom.below
  have hthreadEnd := hroom.threadEnd
  have htop := (m0.get sp).toNat_lt
  have hback : (m0.get sp - 8).toNat = (m0.get sp).toNat - 8 := toNat_back (k := 8) (by omega)
  refine .bind ((does_saveLiveRegisters (E := Exits.none) (Q := fun _ => Saved m0) hbelow hroom.saveClear
    fun _ _ h => h).reaching.imp (fun _ _ h => h.2.elim) fun map m1 ⟨hreach1, hm1⟩ => ?_)
  have hkept1 (addr : UInt64) (hnot : ¬ StopMemory (m0.get sp) (m0.get thread) addr) : m1.mem addr = m0.mem addr :=
    hm1.alters.mem addr fun hin => hnot (.inl hin)
  have hapart {x : UInt64} (hx : Spans (m0.get sp - 8).toNat 8 x) : ¬ LastFrame (m0.get thread) x := fun hin =>
    hroom.threadApart x (lastFrame_threadRecord hin) (saveFrame_of_return hbelow hx)
  -- the runtime keeps the return address of the site
  have hreturn {called : Machine} (hkept : ∀ addr, ¬ LastFrame (m0.get thread) addr → called.mem addr = m1.mem addr) :
      (routine called).mem.read (m0.get sp - 8) 8 = m0.get ra := by
    rw [← hm1.savedRa]
    refine read_same (by omega) fun x hx => ?_
    rw [hserves.mem called x (.inr (saveFrame_of_return hbelow hx)), hkept x (hapart hx)]
  refine .bind (does_callFromSaveFrame hstart hserves hforward (fun addr ha => .inl ha)
    (fun addr ha => .inr (saveFrame_of_savedRegisters ha)) hroom hm1.parked
    (fun called m2 hthrough hne hpc hregs hra =>
    .inl ⟨rfl, called, ?_, fun _ => ⟨hpc, fun r hr => ?_⟩, fun hzero => absurd hzero hne⟩)
    fun called m2 hthrough hzero hm2 hregs2 => ?_)
  · exact hthrough.within hreach1 hm1.parked.current hkept1 (fun _ => lastFrame_stopMemory) (.refl _ _) fun _ _ => rfl
  · by_cases h : r = ra
    · rw [h, hra, hreturn hthrough.kept]
    · exact hregs r (by simpa [h] using hr)
  refine (does_leaveResolver hroom hm2).reaching.imp (fun x m' ⟨hreach, hexit⟩ => ?_) fun _ _ h => h.2
  rcases hexit with ⟨hx, hleft⟩ | hnone
  · refine .inl ⟨hx, called, ?_, fun hne => absurd hzero hne, fun _ =>
      ⟨hregs2 (.x 10) (by decide) ▸ hleft.jumped, fun r hr => ?_, ?_⟩⟩
    · exact hthrough.within hreach1 hm1.parked.current hkept1 (fun _ => lastFrame_stopMemory) hreach fun addr hnot =>
        hleft.kept addr (fun h => hnot (.inl (saveFrame_of_savedRegisters h))) fun h => hnot (.inr h)
    · by_cases hra : r = ra
      · rw [hra, hleft.ret, ← hreturn hthrough.kept]
        exact read_same (by omega) fun x hx => hthrough.left x (hapart hx)
      · exact hleft.regs r (by simpa [hra] using hr)
    · have hword : (m0.get thread + 0x210).toNat = (m0.get thread).toNat + 0x210 := toNat_off (k := 0x210) (by omega)
      rw [hleft.found]
      refine read_same (by omega) fun x hx => hthrough.left x fun hin => ?_
      omega
  · exact .inr hnone

end

/-! ## Generating them -/

section
variable {p : Bool}

instance rehearsed_forwardPendingException : Rehearsed p forwardPendingException true 72 := by
  unfold forwardPendingException
  infer_instance

instance rehearsed_callFromSaveFrame (e : RuntimeEntry) (map : OopMap) :
    Rehearsed p (callFromSaveFrame e map) true 87 := by
  unfold callFromSaveFrame
  infer_instance

instance rehearsed_safepointHandlerBody : Rehearsed p safepointHandlerBody true 224 := by
  unfold safepointHandlerBody
  infer_instance

instance rehearsed_resolverBody (e : RuntimeEntry) : Rehearsed p (resolverBody e) true 221 := by
  unfold resolverBody
  infer_instance

end

/-! ## In memory -/

section
variable {t : Target} {base start : UInt64} {blob : CodeBlob} {W : World} {routine : Machine → Machine} {m : Machine}

theorem safepointHandler_ends (h : safepointHandler t base = .ok blob)
    (hclear : ∀ i < blob.code.length, W (start + UInt64.ofNat i) = none) (hbase : base ≠ 0 → start = base)
    (hstart : start % 2 = 0) (hstands : blob.Stands start m) (hpc : m.pc = start)
    (hroom : SaveRoom (blob.Clear start) (m.get sp) (m.get thread))
    (hserves : Serves W (t.runtime.addr .handlePollingPageException)
      (KeptAtSafepoint (blob.Clear start) (m.get sp) (m.get thread)) routine)
    (hforward : t.runtime.addr .forwardException % 2 = 0) :
    ∃ called m', HandlerEnd W t routine (m.mem.read (m.get thread + 0x218) 8) m called m' := by
  obtain ⟨⟨blob, u⟩, hgen, rfl⟩ := except_map_ok h
  obtain ⟨m', -, called, hend⟩ := generated_leaves hgen hclear hbase hstands hpc
    (P := fun m' => ∃ called, HandlerEnd W t routine (m.mem.read (m.get thread + 0x218) 8) m called m')
    fun S hworld htarget hstart' hfree => by
      subst hworld htarget hstart'
      exact does_safepointHandler hstart (by rwa [hfree]) (by rwa [hfree]) hforward
  exact ⟨called, m', hend⟩

/-- A resolver, wherever its code stands. -/
theorem resolver_ends {name : String} {e : RuntimeEntry} (h : resolver t name e base = .ok blob)
    (hclear : ∀ i < blob.code.length, W (start + UInt64.ofNat i) = none) (hbase : base ≠ 0 → start = base)
    (hstart : start % 2 = 0) (hstands : blob.Stands start m) (hpc : m.pc = start)
    (hroom : SaveRoom (blob.Clear start) (m.get sp) (m.get thread))
    (hserves : Serves W (t.runtime.addr e) (KeptAtResolve (blob.Clear start) (m.get sp)) routine)
    (hforward : t.runtime.addr .forwardException % 2 = 0) : ∃ called m', ResolverEnd W t e routine m called m' := by
  obtain ⟨⟨blob, u⟩, hgen, rfl⟩ := except_map_ok h
  obtain ⟨m', -, called, hend⟩ := generated_leaves hgen hclear hbase hstands hpc
    (P := fun m' => ∃ called, ResolverEnd W t e routine m called m') fun S hworld htarget hstart' hfree => by
      subst hworld htarget hstart'
      exact does_resolver hstart (by rwa [hfree]) (by rwa [hfree]) hforward
  exact ⟨called, m', hend⟩

end

end Stub

end RiscvJit
