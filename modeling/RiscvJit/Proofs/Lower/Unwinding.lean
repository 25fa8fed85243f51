import RiscvJit.Proofs.Code.Frames
import RiscvJit.Proofs.Code.Locks
import RiscvJit.Proofs.Lower.SlowPaths

/-
  RiscvJit.Proofs.Lower.Unwinding — an exception leaves a compiled method.

  All unwinds of a method jump to one handler, which is written behind everything else. It parks the exception, gives back
  the monitor of a synchronized method, pops the frame and goes on unwinding in the caller. The monitor is given back by
  the handler itself or by one call of the runtime, never by both: what is shown is where the run leaves the code for the
  first time (`World.Passes`), from the unwind and then from the return of that call (`unwinding_leaves_cleanly`).

  For that the code is run in a world where everything outside is a dead end. Of a run that ends outside there, nothing but
  the last machine was outside (`World.passes_of_deadEnds`).
-/

namespace RiscvJit

open Reg (ra sp t0 fp moveScratch)
open Asm
open Site

/-! ## The code of the handler -/

namespace Lower

/-- What the unwind handler ends with. -/
def leaveFrame (frameSize : Int64) : Asm Unit := do
  removeFrame frameSize
  rtJump .unwindException

/-- What follows when the monitor is given back: the exception is where it was parked. -/
def resumeUnwind (frameSize : Int64) : Asm Unit := do
  mv exceptionReg moveScratch
  leaveFrame frameSize

/-- The unwind handler behind its label. -/
def handlerBody (p : Program) : Asm Unit := do
  if p.isSynchronized then releaseMonitor p.monitorOffset
  leaveFrame p.frameSize

/-- The monitor is given back without the runtime. -/
def tryRelease (slow unlocked : Label) : Asm Unit := do
  if (← read).opts.useFastLocking then
    fastUnlock unwindLockRegs slow
    Asm.j unlocked

/-- The monitor is given back by the runtime. -/
def askRuntime : Asm Unit := do
  sd unwindLockRegs.lock sp 0
  rtCall .monitorExit

variable (p : Program) (frameSize : Int64)

theorem unwindHandler_eq (entry : Label) : unwindHandler p entry =
    comment "unwind handler" >>= fun _ => Asm.bind entry >>= fun _ => handlerBody p := rfl

theorem handlerBody_plain {p : Program} (h : p.isSynchronized = false) : handlerBody p = leaveFrame p.frameSize := by
  unfold handlerBody
  rw [h]
  rfl

theorem handlerBody_synchronized {p : Program} (h : p.isSynchronized = true) : handlerBody p =
    newLabel >>= fun slow => newLabel >>= fun unlocked => (do
      mv moveScratch exceptionReg
      addImm unwindLockRegs.lock sp p.monitorOffset t0
      ld unwindLockRegs.obj unwindLockRegs.lock lockSlotObject
      tryRelease slow unlocked
      Asm.bind slow
      askRuntime) >>= fun _ => Asm.bind unlocked >>= fun _ => resumeUnwind p.frameSize := by
  unfold handlerBody
  rw [if_pos h]
  simp only [releaseMonitor, tryRelease, askRuntime, resumeUnwind, leaveFrame, bind_assoc]
  refine bind_congr fun slow => bind_congr fun unlocked => bind_congr fun _ => bind_congr fun _ =>
    bind_congr fun _ => bind_congr fun t => ?_
  split <;> simp only [bind_assoc, pure_bind]

instance traced_leaveFrame : (leaveFrame frameSize).Traced := by
  unfold leaveFrame
  infer_instance

instance traced_resumeUnwind : (resumeUnwind frameSize).Traced := by
  unfold resumeUnwind
  infer_instance

theorem unwindLockRegs_apart : unwindLockRegs.Apart := ⟨by decide, by decide, by decide⟩

instance traced_tryRelease (slow unlocked : Label) : (tryRelease slow unlocked).Traced := by
  have := unwindLockRegs_apart.traced_fastUnlock slow
  unfold tryRelease
  infer_instance

instance traced_askRuntime : askRuntime.Traced := by
  unfold askRuntime
  infer_instance

instance traced_handlerBody : (handlerBody p).Traced := by
  cases h : p.isSynchronized with
  | false =>
    rw [handlerBody_plain h]
    infer_instance
  | true =>
    rw [handlerBody_synchronized h]
    infer_instance

instance grows_handlerBody : Asm.Grows (handlerBody p) := by
  unfold handlerBody leaveFrame
  infer_instance

theorem spaces_leaveFrame : (leaveFrame frameSize).Spaces :=
  Spaces.after fun _ => Spaces.after fun _ => spaces_farCall _ _ _

theorem spaces_handlerBody : (handlerBody p).Spaces := by
  cases h : p.isSynchronized with
  | false =>
    rw [handlerBody_plain h]
    exact spaces_leaveFrame _
  | true =>
    rw [handlerBody_synchronized h]
    exact Spaces.after fun _ => Spaces.after fun _ => Spaces.after fun _ => Spaces.after fun _ =>
      Spaces.after fun _ => spaces_leaveFrame _

end Lower

open Lower (resumeUnwind unwindLockRegs askRuntime tryRelease handlerBody unwind)

/-! ## Frames that are left -/

/-- The machine is in the frame that a method built below the stack pointer of its caller. -/
structure InFrame (frame : Nat) (caller m : Machine) : Prop where
  sp : m.get .sp + UInt64.ofNat frame = caller.get .sp
  room : (m.get .sp).toNat + frame ≤ 2 ^ 64
  ra : m.mem.read (m.get .sp + UInt64.ofNat (frame - 8)) 8 = caller.get .ra
  fp : m.mem.read (m.get .sp + UInt64.ofNat (frame - 16)) 8 = caller.get .fp

/-- The frame was popped, and the runtime goes on with the exception. -/
structure FrameLeft (t : Target) (frame : Nat) (ex : UInt64) (m m' : Machine) : Prop where
  pc : m'.pc = t.runtime.addr .unwindException
  exception : m'.get (.x 10) = ex
  sp : m'.get .sp = m.get .sp + UInt64.ofNat frame
  ra : m'.get .ra = m.mem.read (m.get .sp + UInt64.ofNat (frame - 8)) 8
  fp : m'.get .fp = m.mem.read (m.get .sp + UInt64.ofNat (frame - 16)) 8
  mem : m'.mem = m.mem

/-- The runtime goes on with the exception, in the frame of the caller. -/
structure Unwound (t : Target) (caller : Machine) (ex : UInt64) (m' : Machine) : Prop where
  pc : m'.pc = t.runtime.addr .unwindException
  exception : m'.get (.x 10) = ex
  sp : m'.get .sp = caller.get .sp
  fp : m'.get .fp = caller.get .fp
  ra : m'.get .ra = caller.get .ra

section
variable {t : Target} {frame : Nat} {caller m m' : Machine} {ex : UInt64}

theorem FrameLeft.unwound (h : FrameLeft t frame ex m m') (hin : InFrame frame caller m) : Unwound t caller ex m' :=
  ⟨h.pc, h.exception, h.sp.trans hin.sp, h.fp.trans hin.fp, h.ra.trans hin.ra⟩

/-- The frame stays while its upper two words do. -/
theorem InFrame.keep (h : InFrame frame caller m) (hframe : 16 ≤ frame) (hsp : m'.get .sp = m.get .sp)
    (hmem : ∀ x, Spans ((m.get .sp).toNat + (frame - 16)) 16 x → m'.mem x = m.mem x) : InFrame frame caller m' := by
  have hroom := h.room
  have word {k : Nat} (hk : 8 ≤ k) (hk' : k ≤ 16) : m'.mem.read (m.get .sp + UInt64.ofNat (frame - k)) 8 =
      m.mem.read (m.get .sp + UInt64.ofNat (frame - k)) 8 := by
    have hword : (m.get .sp + UInt64.ofNat (frame - k)).toNat = (m.get .sp).toNat + (frame - k) := toNat_off (by omega)
    refine Ram.read_same (by omega) fun x hx => hmem x ?_
    omega
  refine ⟨?_, ?_, ?_, ?_⟩ <;> rw [hsp]
  · exact h.sp
  · exact h.room
  · rw [word (by decide) (by decide), h.ra]
  · rw [word (by decide) (by decide), h.fp]

end

namespace Site

variable {S : Site} {m : Machine} {E : Exits} {frame : Nat}

theorem does_read {Q : Target → Machine → Prop} (h : Q S.target m) : S.Does (read : Asm Target) m E Q := by
  intro a r a' hrun _ _ hat
  cases hrun
  exact ⟨m, .refl _ _, .inl ⟨hat, h⟩⟩

theorem does_leaveFrame {Q : Unit → Machine → Prop} (hframe : 16 ≤ frame)
    (heven : S.target.runtime.addr .unwindException % 2 = 0)
    (hstart : S.start % 2 = 0) (h : ∀ m', FrameLeft S.target frame (m.get (.x 10)) m m' → E .away m') :
    S.Does (Lower.leaveFrame (Int64.ofNat frame)) m E Q := by
  refine .bind (does_removeFrame hframe fun m1 h1 => does_rtJump heven hstart fun m2 h2 =>
    h m2 ⟨h2.pc, ?_, ?_, ?_, ?_, h2.mem.trans h1.mem⟩)
  · rw [h2.rest _ (by decide), h1.rest _ (by decide)]
  · rw [h2.rest _ (by decide), h1.sp]
  · rw [h2.rest _ (by decide), h1.ra]
  · rw [h2.rest _ (by decide), h1.fp]

end Site

/-! ## Monitors that are given back -/

/-- The runtime is asked to give the monitor back. -/
structure MonitorRequested (t : Target) (slot obj : UInt64) (m m' : Machine) : Prop where
  /-- The handler could not do it itself. -/
  cause : t.opts.useFastLocking = true → m.mem.read slot 8 ≠ 0 ∧ m.mem.read obj 8 ≠ slot
  pc : m'.pc = t.runtime.addr .monitorExit
  sp : m'.get .sp = m.get .sp
  argument : m'.mem.read (m'.get .sp) 8 = slot
  mem : m'.mem = m.mem.write (m.get .sp) 8 slot

/-- The runtime is back. -/
structure MonitorExited (frame : Nat) (m m' : Machine) : Prop where
  pc : m'.pc = m.get .ra
  regs : ∀ r ∈ calleeSaved, m'.get r = m.get r
  saved : ∀ x, Spans ((m.get .sp).toNat + (frame - 16)) 16 x → m'.mem x = m.mem x

/-- Where the monitor of a method is, seen from a machine in its frame: the slot is above the arguments of stubs and below
the saved registers, and the object is not on the stack. -/
structure MonitorAt (opts : Options) (off frame : Nat) (slot obj : UInt64) (m : Machine) : Prop where
  above : 16 ≤ off
  below : off + 32 ≤ frame
  place : slot = m.get .sp + UInt64.ofNat off
  holds : obj = m.mem.read (slot + UInt64.ofNat 8) 8
  fits : opts.useFastLocking = true → obj.toNat + 8 ≤ 2 ^ 64
  apart : opts.useFastLocking = true → obj.toNat + 8 ≤ (m.get .sp).toNat ∨ (m.get .sp).toNat + frame ≤ obj.toNat

namespace Site

section
variable {S : Site} {m caller : Machine} {E : Exits} {Q : Unit → Machine → Prop} {frame : Nat} {slot obj : UInt64}

theorem does_resumeUnwind (hframe : 16 ≤ frame) (heven : S.target.runtime.addr .unwindException % 2 = 0)
    (hstart : S.start % 2 = 0)
    (h : ∀ m', FrameLeft S.target frame (m.get moveScratch) m m' → E .away m') :
    S.Does (resumeUnwind (Int64.ofNat frame)) m E Q := by
  refine .bind (does_mv fun m1 h1 => does_leaveFrame hframe heven hstart fun m' h' => h m' ⟨h'.pc, ?_, ?_, ?_, ?_, ?_⟩)
  · exact h'.exception.trans h1.value
  · rw [h'.sp, h1.other _]
  · rw [h'.ra, h1.other _, h1.mem]
  · rw [h'.fp, h1.other _, h1.mem]
  · exact h'.mem.trans h1.mem

/-- The runtime is asked, and when it is back the frame is popped. -/
theorem does_askRuntime {unlocked : Label} (hframe : 32 ≤ frame) (hin : InFrame frame caller m)
    (hlock : m.get unwindLockRegs.lock = slot) (hbottom : ∀ x, Spans (m.get .sp).toNat 8 x → S.Free x)
    (hstart : S.start % 2 = 0)
    (hexit : S.target.runtime.addr .monitorExit % 2 = 0) (heven : S.target.runtime.addr .unwindException % 2 = 0)
    (h : ∀ m1, m1.pc = S.target.runtime.addr .monitorExit → m1.get .sp = m.get .sp →
    m1.mem = m.mem.write (m.get .sp) 8 slot →
      (∀ m2, S.Stands m2 → MonitorExited frame m1 m2 →
        ∃ m', S.world.Reaches m2 m' ∧ Unwound S.target caller (m.get moveScratch) m' ∧ m'.mem = m2.mem) → E .away m1) :
    S.Does (askRuntime >>= fun _ => Asm.bind unlocked >>= fun _ => resumeUnwind (Int64.ofNat frame)) m E Q := by
  have hroom := hin.room
  simp only [askRuntime, bind_assoc]
  refine .bind (does_sdAt (a := m.get .sp) (UInt64.add_zero _) (by omega) hbottom fun m1 h1 => ?_)
  rw [hlock] at h1
  refine Does.calls (R := fun m3 => Exits.none.or .away (FrameLeft S.target frame (m3.get moveScratch) m3)) hstart
    (fun a a' hrun ha ha' hat => runtime_reaches (by decide) hexit hstart hrun ha ha' hat)
    (fun ret m2 hcalled _ hback => ?_)
    fun m3 => .bind (does_bindLabel (does_resumeUnwind (by omega) heven hstart fun m' hleft => .inl ⟨rfl, hleft⟩))
  have hregs {r : Reg} (hr : r ≠ ra) (ht : r ∉ [t0]) : m2.get r = m.get r :=
    (hcalled.rest r hr ht).trans (h1.rest r List.not_mem_nil)
  have hmem : m2.mem = m.mem.write (m.get .sp) 8 slot := hcalled.mem.trans h1.mem
  have hsp : m2.get .sp = m.get .sp := hregs (by decide) (by decide)
  refine h m2 hcalled.pc hsp hmem fun m3 hstands hexited => ?_
  have hin3 : InFrame frame caller m3 := hin.keep (by omega) ((hexited.regs _ (by decide)).trans hsp) fun x hx => by
    rw [hexited.saved x (by rw [hsp]; exact hx), hmem]
    exact Ram.write_apart _ _ (by omega) (by omega)
  have hex3 : m3.get moveScratch = m.get moveScratch := (hexited.regs _ (by decide)).trans (hregs (by decide) (by decide))
  obtain ⟨m', hreach, (⟨-, hleft⟩ | hnever) | ⟨_, _, ⟨e, -⟩ | hnever⟩⟩ := hback m3 hstands (hexited.pc.trans hcalled.ra)
  · exact ⟨m', hreach, hex3 ▸ hleft.unwound hin3, hleft.mem⟩
  · exact hnever.elim
  · cases e
  · exact hnever.elim

/-- With fast locking the monitor is given back, or left for the slow path; without it nothing happens. -/
theorem does_tryRelease {slow unlocked : Label} (hlock : m.get unwindLockRegs.lock = slot)
    (hobj : m.get unwindLockRegs.obj = obj)
    (hfits : S.target.opts.useFastLocking = true → obj.toNat + 8 ≤ 2 ^ 64)
    (hmark : S.target.opts.useFastLocking = true → ∀ x, Spans obj.toNat 8 x → S.Free x) (hslow : S.Binds slow)
    (hunlocked : S.Binds unlocked)
    (hgiven : ∀ m', GivenBack S.target.opts slot obj m.mem m'.mem →
    (∀ r, r ∉ [.x 15, .x 16, t0] → m'.get r = m.get r) → E (.label unlocked) m')
    (hkept : ∀ m', (S.target.opts.useFastLocking = true → m.mem.read slot 8 ≠ 0 ∧ m.mem.read obj 8 ≠ slot) →
      (∀ r, r ∉ [.x 15, .x 16, t0] → m'.get r = m.get r) → m'.mem = m.mem → E (.label slow) m' ∧ Q () m') :
    S.Does (tryRelease slow unlocked) m E Q := by
  have := Lower.unwindLockRegs_apart.traced_fastUnlock slow
  unfold tryRelease
  refine .bind (does_read ?_)
  by_cases hfast : S.target.opts.useFastLocking = true
  · rw [if_pos hfast]
    refine .bind (does_fastUnlock Lower.unwindLockRegs_apart hobj hlock (hfits hfast) (hmark hfast)
      hslow (fun m1 h1 => ?_) fun m1 h1 => ?_)
    · exact does_j hunlocked fun p => hgiven _ ⟨hfast, h1.mem⟩ fun r hr => (Machine.get_withPc ..).trans (h1.regs r hr)
    · exact (hkept m1 (fun _ => ⟨h1.held, h1.other⟩) h1.regs h1.mem).1
  · rw [if_neg hfast]
    exact does_pure (hkept m (fun h => absurd h hfast) (fun _ _ => rfl) rfl).2

end

section
variable {S : Site} {m caller : Machine} {E : Exits} {Q : Unit → Machine → Prop} {p : Program}
  {off frame : Nat} {slot obj : UInt64}

/-- The handler of a synchronized method leaves the method when it has given back the monitor, or asks the runtime to give
it back and leaves when that is done. -/
theorem does_handlerBody (hsync : p.isSynchronized = true) (hoff : p.monitorOffset = Int64.ofNat off)
    (hsize : p.frameSize = Int64.ofNat frame) (hin : InFrame frame caller m)
    (hmonitor : MonitorAt S.target.opts off frame slot obj m)
    (hmark : S.target.opts.useFastLocking = true → ∀ x, Spans obj.toNat 8 x → S.Free x)
    (hbottom : ∀ x, Spans (m.get .sp).toNat 8 x → S.Free x) (hstart : S.start % 2 = 0)
    (hexit : S.target.runtime.addr .monitorExit % 2 = 0) (heven : S.target.runtime.addr .unwindException % 2 = 0)
    (hgiven : ∀ m', GivenBack S.target.opts slot obj m.mem m'.mem →
    Unwound S.target caller (m.get (.x 10)) m' → E .away m')
    (hasked : ∀ m1, MonitorRequested S.target slot obj m m1 → (∀ m2, S.Stands m2 → MonitorExited frame m1 m2 →
      ∃ m', S.world.Reaches m2 m' ∧ Unwound S.target caller (m.get (.x 10)) m' ∧ m'.mem = m2.mem) → E .away m1) :
    S.Does (handlerBody p) m E Q := by
  have hroom := hin.room
  have habove := hmonitor.above
  have hbelow := hmonitor.below
  have hframe : 16 ≤ frame := by omega
  rw [Lower.handlerBody_synchronized hsync, hsize, hoff]
  refine .bind (does_newLabel fun slow => .bind (does_newLabel fun unlocked => ?_))
  refine Does.containing (fun _ => rfl) fun hcontains => ?_
  have hunlocked := hcontains.binds
  refine Does.onward (l := unlocked) (P := fun m1 => GivenBack S.target.opts slot obj m.mem m1.mem ∧
    InFrame frame caller m1 ∧ m1.get moveScratch = m.get (.x 10)) ?_ fun m1 hto ⟨hback, hin1, hex1⟩ =>
    hcontains.goesOn hto
      (does_resumeUnwind hframe heven hstart fun m' hleft => hgiven m' (hleft.mem ▸ hback) (hex1 ▸ hleft.unwound hin1))
  simp only [bind_assoc]
  refine .bind (does_mv fun m1 h1 => .bind (does_addImm (by decide) (by decide) fun m2 h2 =>
    .bind (does_ld fun m3 h3 => ?_)))
  have hmem3 : m3.mem = m.mem := h3.mem.trans (h2.mem.trans h1.mem)
  have hregs3 {r : Reg} (hr : r ∉ [moveScratch, .x 11, t0, .x 14]) : m3.get r = m.get r := by
    simp only [List.mem_cons, List.not_mem_nil, or_false, not_or] at hr
    rw [h3.other r hr.2.2.2, h2.rest r hr.2.1 (by simpa using hr.2.2.1), h1.other r hr.1]
  have hlock3 : m3.get unwindLockRegs.lock = slot := by
    rw [h3.other _, h2.value, h1.other _, Int64.toUInt64_ofNat', hmonitor.place]
  have hobj3 : m3.get unwindLockRegs.obj = obj := by
    have hlock2 := (h3.other unwindLockRegs.lock).symm.trans hlock3
    rw [h3.value, hlock2, h2.mem, h1.mem, hmonitor.holds]
    rfl
  have hex3 : m3.get moveScratch = m.get (.x 10) := by
    rw [h3.other _, h2.rest _ (by decide) (by decide), h1.value]
    rfl
  refine Does.label fun hslow => does_tryRelease hlock3 hobj3 hmonitor.fits hmark hslow hunlocked
    (fun m4 hback hregs => ?_)
    fun m4 hcause hregs hmem => ?_
  · rw [hmem3] at hback
    have hsp4 : m4.get .sp = m.get .sp := (hregs _ (by decide)).trans (hregs3 (by decide))
    refine .inr (.inl ⟨rfl, hback, hin.keep hframe hsp4 fun x hx => ?_, (hregs _ (by decide)).trans hex3⟩)
    have hapart := hmonitor.apart hback.fast
    rcases hback.mem with ⟨-, e⟩ | ⟨-, -, e⟩ <;> rw [e]
    exact Ram.write_apart _ _ (hmonitor.fits hback.fast) (by omega)
  · rw [hmem3] at hcause hmem
    have hsp4 : m4.get .sp = m.get .sp := (hregs _ (by decide)).trans (hregs3 (by decide))
    have hex4 : m4.get moveScratch = m.get (.x 10) := (hregs _ (by decide)).trans hex3
    have hasks {E : Exits} {Q : Unit → Machine → Prop} (hE : ∀ m1, MonitorRequested S.target slot obj m m1 →
      (∀ m2, S.Stands m2 →
        MonitorExited frame m1 m2 → ∃ m', S.world.Reaches m2 m' ∧ Unwound S.target caller (m.get (.x 10)) m' ∧
        m'.mem = m2.mem) → E .away m1) :
        S.Does (askRuntime >>= fun _ => Asm.bind unlocked >>= fun _ => resumeUnwind (Int64.ofNat frame)) m4 E Q := by
      refine does_askRuntime (by omega) (hin.keep hframe hsp4 fun x _ => by rw [hmem])
        ((hregs _ (by decide)).trans hlock3)
        (by rw [hsp4]; exact hbottom) hstart hexit heven fun m5 hpc hsp hmem5 hback => ?_
      rw [hsp4] at hsp hmem5
      rw [hmem] at hmem5
      rw [hex4] at hback
      exact hE m5 ⟨hcause, hpc, hsp, by rw [hsp, hmem5, read_write_eight], hmem5⟩ hback
    exact ⟨.inl ⟨rfl, fun _ => hasks fun m5 hasks hback => .inr (hasked m5 hasks hback)⟩,
      hasks fun m5 hasks hback => .inr (hasked m5 hasks hback)⟩

end

end Site

/-! ## Unwinds of compiled methods -/

namespace Lower

variable {t : Target} {s s' : Lowering} {i : Instruction}

/-- The label of the handler stays at the end of the code when it is found or made. -/
theorem offset_unwindLabel {l : Label} (h : unwindLabel t s = .ok (l, s')) : s'.asm.buf.offset = s.asm.buf.offset := by
  obtain ⟨-, rfl | ⟨-, a, hnew, rfl⟩⟩ := unwindLabel_eq_ok h
  · rfl
  · cases hnew
    rfl

theorem dispatch_unwind (hop : i.op = .unwind) : dispatch i = unwind i := by
  rw [dispatch.eq_def, hop]

theorem unwind_parts (hop : i.op = .unwind) (h : instruction i t s = .ok ((), s')) :
    ∃ l s1, unwindLabel t s = .ok (l, s1) ∧ (liftM (Asm.j l) : Lower Unit) t s1 = .ok ((), s') := by
  rw [instruction, dispatch_unwind hop] at h
  obtain ⟨_, -, h⟩ := lift_bind_eq_ok.mp h
  unfold unwind at h
  obtain ⟨_, -, h⟩ := lift_bind_eq_ok.mp h
  obtain ⟨_, -, h⟩ := lift_bind_eq_ok.mp h
  obtain ⟨l, s1, hlabel, hj⟩ := bind_eq_ok.mp h
  exact ⟨l, s1, hlabel, hj⟩

end Lower

/-- The size of the frame in bytes. -/
def Program.frameBytes (p : Program) : Nat := p.frameSize.toInt.toNat

/-- Compiled methods have frames of at least 32 bytes. -/
theorem compile_frame {p : Program} {t : Target} {base : UInt64} {c : CompiledMethod} (h : p.compile t base = .ok c) :
    p.frameSize = Int64.ofNat p.frameBytes ∧ 32 ≤ p.frameBytes := by
  obtain ⟨_, hframe, -⟩ := except_bind_eq_ok.mp h
  rw [ofFault_eq_ok] at hframe
  obtain ⟨_, -, hroom⟩ := except_bind_eq_ok.mp hframe
  have hroom : (32 : Int) ≤ p.frameSize.toInt := Int64.le_iff_toInt_le.mp (of_decide_eq_true (check_eq_ok.mp hroom))
  unfold Program.frameBytes
  exact ⟨(ofNat_eq_of_toInt (by omega)).symm, by omega⟩

namespace Resident

variable {t : Target} {c : Resident t} {W : World} {k : Nat} {i : Instruction} {m : Machine}

/-- From an unwind the run comes to the handler. -/
theorem Facing.handles (h : c.Facing W k i m) (hop : i.op = .unwind) : ∃ S a a' p, c.Views W S ∧
    handlerBody c.program S.target a = .ok ((), a') ∧ S.Early a ∧ S.Late a' ∧ S.At a { m with pc := p } ∧
      W.Reaches m { m with pc := p } := by
  have htraced : Lower.Traced (unwind i) := by
    unfold unwind
    infer_instance
  have hseals : Lower.Seals (unwind i) := by
    unfold unwind
    infer_instance
  have := Lower.traced_of_dispatch (Lower.dispatch_unwind hop)
  have := Lower.seals_of_dispatch (Lower.dispatch_unwind hop)
  obtain ⟨S, s, s', hspelled⟩ := Resident.spelled h.code W h.outside
  obtain ⟨l, s1, hlabel, hj⟩ := Lower.unwind_parts hop hspelled.lowered
  -- the handler that is bound to the label
  obtain ⟨final, hfinal, hlast, hgrown⟩ := hspelled.grown
  have hheld : final.unwind = some l :=
    hgrown.unwind l ((Lower.Grows.grown inferInstance hj).unwind l (Lower.unwindLabel_eq_ok hlabel).1)
  obtain ⟨first, b, b', hfinished, hhandler, hpart⟩ := compile_unwinds c.compiled hfinal hheld
  rw [Lower.unwindHandler_eq] at hhandler
  obtain ⟨_, b1, hcomment, hhandler⟩ := Asm.bind_eq_ok.mp hhandler
  obtain ⟨_, b2, hbind, hbody⟩ := Asm.bind_eq_ok.mp hhandler
  have hbase : Part t c.base final.asm b1 b' := hpart.inner (Asm.Grows.grown inferInstance hcomment)
    ((Asm.Grows.grown inferInstance hbind).trans (Asm.Grows.grown inferInstance hbody)) .refl hfinished.working
  obtain ⟨items2, htrace2, -⟩ := Asm.Traced.trace _ _ _ _ hbase.behind hbind
  have hbehind := htrace2.behind hbase.behind
  obtain ⟨items3, htrace3, -⟩ := Asm.Traced.trace _ _ _ _ hbehind hbody
  obtain ⟨S', hworld', htarget', hstart', hlast', hearly', hlate'⟩ := hbase.site hfinished (htrace3.behind hbehind)
    (mergeable_none_of_spaced (Lower.spaces_handlerBody _ _ _ _ _ hbehind hbody)) h.outside c.based
  subst htarget'
  have hbeside : S.Beside S' := ⟨hworld'.trans hspelled.world.symm, hspelled.target.symm,
    hstart'.trans hspelled.start.symm, hlast'.trans hlast⟩
  obtain ⟨hbinds, hto⟩ := To.at_bind hbind hearly' (hlate'.append htrace3)
  -- the jump
  obtain ⟨_, htrace⟩ := Lower.traced_unwindLabel.trace hspelled.early.behind hlabel
  obtain ⟨hstands, hpc⟩ := (hspelled.before m).mp h.before
  have hat : S.At s1.asm m := ⟨hstands, by rw [hpc, Lower.offset_unwindLabel hlabel]⟩
  have hgo : S.Lowers (liftM (Asm.j l) : Lower Unit) m (Exits.none.or (.label l) fun m' => ∃ p,
    m' = { m with pc := p }) fun _ _ => False :=
    lowers_asm (does_j (hbeside.binds_iff.mp hbinds) fun p => .inl ⟨rfl, p, rfl⟩)
  obtain ⟨m', hreach, ⟨-, hnever⟩ | hnever | ⟨l', hl', hexit⟩⟩ :=
    hgo.run hj (hspelled.early.append htrace) hspelled.late hat
  · exact hnever.elim
  · rcases hnever with ⟨e, -⟩ | hnever
    · cases e
    · exact hnever.elim
  · rcases hexit with ⟨e, p, rfl⟩ | hnever
    · cases e
      obtain ⟨hstands', hpc'⟩ := hto _ (hbeside.to_iff.mpr hl')
      refine ⟨S', b2, b', p, ⟨hworld', rfl, hstart', fun m =>
        hbeside.stands_iff.trans (hspelled.stands m), fun addr => ?_⟩, hbody,
        hearly'.append htrace2, hlate', ⟨hstands', ?_⟩, hspelled.world ▸ hreach⟩
      · rw [Free, hbeside.last, hbeside.start]
        exact hspelled.free addr
      · rw [hpc', ← offset_bindLabel hbind]
    · exact hnever.elim

/-- The address is one of the code. -/
def Within (c : Resident t) (pc : UInt64) : Prop := ¬ c.Clear pc

/-- Unwinding leaves the method with the exception and the registers of its caller, and gives a monitor back
exactly once. -/
structure LeavesCleanly (c : Resident t) (W : World) (caller m : Machine) : Prop where
  /-- Without a monitor, the unwinding of the caller is where the code is left. -/
  plain : c.program.isSynchronized = false → ∃ m', W.Passes c.Within m m' ∧ m'.mem = m.mem ∧
    Unwound t caller (m.get (.x 10)) m'
  /-- With a monitor, either this is so, and the monitor was given back on the way, or the code is left for the runtime, to
  give the monitor back, and from there on this is so. -/
  synchronized : ∀ {off : Nat} {slot obj : UInt64}, c.program.isSynchronized = true →
    c.program.monitorOffset = Int64.ofNat off → MonitorAt t.opts off c.program.frameBytes slot obj m →
    (∀ x, Spans (m.get .sp).toNat 8 x → c.Clear x) →
    (t.opts.useFastLocking = true → ∀ x, Spans obj.toNat 8 x → c.Clear x) →
    t.runtime.addr .monitorExit % 2 = 0 → c.Clear (t.runtime.addr .monitorExit) →
    (∃ m', W.Passes c.Within m m' ∧ GivenBack t.opts slot obj m.mem m'.mem ∧ Unwound t caller (m.get (.x 10)) m') ∨
    ∃ m1, W.Passes c.Within m m1 ∧ MonitorRequested t slot obj m m1 ∧
      ∀ m2, c.method.blob.Stands c.start m2 → MonitorExited c.program.frameBytes m1 m2 →
        ∃ m', W.Passes c.Within m2 m' ∧ m'.mem = m2.mem ∧ Unwound t caller (m.get (.x 10)) m'

end Resident

/-- Whatever the method, its frame and its monitor: an unwind leaves it cleanly. -/
theorem unwinding_leaves_cleanly {t : Target} {c : Resident t} {W : World} {k : Nat} {i : Instruction}
    {m caller : Machine} (hm : c.Facing W k i m) (hop : i.op = .unwind)
    (hin : InFrame c.program.frameBytes caller m) (hstart : c.start % 2 = 0)
    (heven : t.runtime.addr .unwindException % 2 = 0) (hunwind : c.Clear (t.runtime.addr .unwindException)) :
    c.LeavesCleanly W caller m := by
  classical
  obtain ⟨hsize, hframe⟩ := compile_frame c.compiled
  have hcode (pc : UInt64) (h : c.Within pc) : W pc = none := by
    obtain ⟨j, hj, rfl⟩ : ∃ j < c.method.blob.code.length, pc = c.start + UInt64.ofNat j := by
      simpa [Resident.Within, Resident.Clear, CodeBlob.Clear] using h
    exact hm.outside j hj
  -- seen where everything outside is a dead end
  have hdead : c.Facing (World.deadEnds c.Within) k i m :=
    ⟨hm.code, fun j hj => if_pos fun hclear => hclear j hj rfl, hm.before⟩
  have passes {m1 m2 : Machine} (hreach : (World.deadEnds c.Within).Reaches m1 m2)
    (hout : c.Clear m2.pc) : W.Passes c.Within m1 m2 :=
    World.passes_of_deadEnds hcode hreach fun h => h hout
  obtain ⟨S, a, a', p, hviews, hbody, hearly, hlate, hat, hjump⟩ := hdead.handles hop
  obtain rfl := hviews.target
  have hstart : S.start % 2 = 0 := by rw [hviews.start, hstart]
  have hin' : InFrame c.program.frameBytes caller { m with pc := p } := hin.keep (by omega) rfl fun _ _ => rfl
  refine ⟨fun hplain => ?_, fun {off slot obj} hsync hoff hmonitor hbottom hmark hexit hexitClear => ?_⟩
  · have hgo : S.Does (handlerBody c.program) { m with pc := p }
        (Exits.none.or .away (FrameLeft S.target c.program.frameBytes (m.get (.x 10)) { m with pc := p }))
        fun _ _ => False := by
      rw [Lower.handlerBody_plain hplain, hsize]
      exact does_leaveFrame (by omega) heven hstart fun m' h => .inl ⟨rfl, h⟩
    obtain ⟨m', hreach, ⟨-, hnever⟩ | (⟨-, hleft⟩ | hnever) | ⟨_, _, ⟨e, -⟩ | hnever⟩⟩ := hgo _ _ _ hbody hearly hlate hat
    · exact hnever.elim
    · rw [hviews.world] at hreach
      exact ⟨m', passes (hjump.trans hreach) (hleft.pc ▸ hunwind), hleft.mem, hleft.unwound hin'⟩
    · exact hnever.elim
    · cases e
    · exact hnever.elim
  · have hmonitor' : MonitorAt S.target.opts off c.program.frameBytes slot obj { m with pc := p } :=
      ⟨hmonitor.above, hmonitor.below, hmonitor.place, hmonitor.holds, hmonitor.fits, hmonitor.apart⟩
    let Given (m' : Machine) := GivenBack S.target.opts slot obj m.mem m'.mem ∧ Unwound S.target caller (m.get (.x 10)) m'
    let Asks (m1 : Machine) := MonitorRequested S.target slot obj m m1 ∧ ∀ m2, S.Stands m2 →
      MonitorExited c.program.frameBytes m1 m2 → ∃ m', S.world.Reaches m2 m' ∧
      Unwound S.target caller (m.get (.x 10)) m' ∧ m'.mem = m2.mem
    have hgo : S.Does (handlerBody c.program) { m with pc := p } (Exits.none.or .away fun m' => Given m' ∨ Asks m')
        fun _ _ => False :=
      does_handlerBody hsync hoff hsize hin' hmonitor' (fun hfast x hx => (hviews.free x).mpr (hmark hfast x hx))
        (fun x hx => (hviews.free x).mpr (hbottom x hx)) hstart hexit heven (fun m' hgiven hleft =>
        .inl ⟨rfl, .inl ⟨hgiven, hleft⟩⟩)
        fun m1 hasked hback => .inl ⟨rfl, .inr ⟨⟨hasked.cause, hasked.pc, hasked.sp, hasked.argument, hasked.mem⟩, hback⟩⟩
    obtain ⟨m', hreach, ⟨-, hnever⟩ | (⟨-, ⟨hgiven, hleft⟩ | ⟨hasked, hback⟩⟩ | hnever) | ⟨_, _, ⟨e, -⟩ | hnever⟩⟩ :=
      hgo _ _ _ hbody hearly hlate hat
    · exact hnever.elim
    · rw [hviews.world] at hreach
      exact .inl ⟨m', passes (hjump.trans hreach) (hleft.pc ▸ hunwind), hgiven, hleft⟩
    · rw [hviews.world] at hreach
      refine .inr ⟨m', passes (hjump.trans hreach) (hasked.pc ▸ hexitClear), hasked, fun m2 hstands hexited => ?_⟩
      obtain ⟨m'', hreach', hleft, hmem⟩ := hback m2 ((hviews.stands m2).mpr hstands) hexited
      rw [hviews.world] at hreach'
      exact ⟨m'', passes hreach' (hleft.pc ▸ hunwind), hmem, hleft⟩
    · exact hnever.elim
    · cases e
    · exact hnever.elim

/-- A synchronized method that unwinds. -/
def unwindsLocked : Program where
  name := "p"
  frameSize := 64
  isSynchronized := true
  monitorOffset := 16
  code := #[{ op := .unwind, inputs := [.register .object (.x 10) .none] }]

def unwindingTarget : Target := ⟨{}, .synthetic 0x20000⟩

/-- A frame at `0x8000` with a lock slot for the object at `0x4000`, whose mark is the slot. -/
def lockedStack : Ram :=
  (((Ram.write (fun _ => 0) 0x8010 8 1).write 0x8018 8 0x4000).write 0x4000 8 0x8010).write 0x8038 8 0x1234

/-- A machine in that frame with an exception at `0x5000`, in front of code at `0x10000`. -/
def unwindingMachine (code : List UInt8) (pc : UInt64) : Machine where
  x n := if n = 2 then 0x8000 else if n = 10 then 0x5000 else 0
  f _ := 0
  pc
  mem := lockedStack.overlay 0x10000 code

/-- The caller when it entered the method. -/
def unwindingCaller : Machine where
  x n := if n = 2 then 0x8040 else if n = 1 then 0x1234 else 0
  f _ := 0
  pc := 0
  mem _ := 0

/-- The monitor is given back by the handler, and the exception goes on to the caller. -/
theorem a_held_monitor_is_given_back : ∃ method off m', unwindsLocked.compile unwindingTarget 0 = .ok method ∧
    unwindsLocked.placeOf unwindingTarget 0 0 = .ok off ∧
    World.bare.Reaches (unwindingMachine method.blob.code (0x10000 + UInt64.ofNat off)) m' ∧
    Unwound unwindingTarget unwindingCaller 0x5000 m' ∧ m'.mem.read 0x4000 8 = 1 := by
  obtain ⟨method, off, hcompiled, hsize, hoff⟩ :
    unwindsLocked.CompilesWithin unwindingTarget 0 0 0x1000 := .of_checks (by decide +kernel) (by decide +kernel)
  let c : Resident unwindingTarget := ⟨unwindsLocked, 0, method, 0x10000, hcompiled, absurd rfl⟩
  let m := unwindingMachine method.blob.code (0x10000 + UInt64.ofNat off)
  have hlow : (0x10000 : UInt64).toNat = 0x10000 := rfl
  have hcode : (0x10000 : UInt64).toNat + method.blob.code.length ≤ 2 ^ 64 := by omega
  have hclear {addr : UInt64} (h : addr.toNat < 0x10000 ∨ 0x11000 ≤ addr.toNat) : c.Clear addr :=
    (CodeBlob.clear_iff hcode).mpr fun hin => by
      have hin : 0x10000 ≤ addr.toNat ∧ addr.toNat < 0x10000 + method.blob.code.length := hin
      omega
  have hword {addr v : UInt64} (h : addr.toNat + 8 ≤ 0x10000) (hv : lockedStack.read addr 8 = v) : m.mem.read
    addr 8 = v :=
    (Ram.read_overlay _ (by omega) (by omega) (by omega)).trans hv
  have hfacing : c.Facing World.bare 0 { op := .unwind, inputs := [.register .object (.x 10) .none] } m :=
    ⟨rfl, fun _ _ => rfl, .of_overlay hsize hoff rfl rfl⟩
  have hin : InFrame 64 unwindingCaller m := ⟨rfl, show (0x8000 : UInt64).toNat + 64 ≤ 2 ^ 64 by decide,
    @hword 0x8038 0x1234 (by decide) (by decide), @hword 0x8030 0 (by decide) (by decide)⟩
  have hobject : m.mem.read (0x8010 + UInt64.ofNat 8) 8 = 0x4000 := hword (by decide) (by decide)
  have hmonitor : MonitorAt unwindingTarget.opts 16 64 0x8010 0x4000 m :=
    ⟨by decide, by decide, rfl, hobject.symm, fun _ => by decide,
    fun _ => .inl (show (0x4000 : UInt64).toNat + 8 ≤ (0x8000 : UInt64).toNat by decide)⟩
  have hcleanly := unwinding_leaves_cleanly hfacing rfl hin (show (0x10000 : UInt64) % 2 = 0 by decide)
    (by decide) (hclear (.inr (by decide)))
  have hplaces : (0x8000 : UInt64).toNat = 0x8000 ∧ (0x4000 : UInt64).toNat = 0x4000 := ⟨rfl, rfl⟩
  have hbottom (x : UInt64) (hx : Spans (0x8000 : UInt64).toNat 8 x) : c.Clear x := hclear (.inl (by omega))
  have hmark (x : UInt64) (hx : Spans (0x4000 : UInt64).toNat 8 x) : c.Clear x := hclear (.inl (by omega))
  have hdisplaced : m.mem.read 0x8010 8 = 1 := hword (by decide) (by decide)
  have hslot : m.mem.read 0x4000 8 = 0x8010 := hword (by decide) (by decide)
  rcases hcleanly.synchronized rfl rfl hmonitor hbottom (fun _ => hmark) (by decide) (hclear (.inr (by decide))) with
    ⟨m', hpass, hgiven, hleft⟩ | ⟨m1, -, hasked, -⟩
  · refine ⟨method, off, m', hcompiled, hoff, hpass.reaches, hleft, ?_⟩
    rcases hgiven.mem with ⟨hzero, -⟩ | ⟨-, -, hmem⟩
    · exact absurd (hdisplaced.symm.trans hzero) (by decide)
    · rw [hmem, read_write_eight, hdisplaced]
  · exact absurd hslot (hasked.cause rfl).2

end RiscvJit
