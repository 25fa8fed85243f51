import RiscvJit.Proofs.Code.Rehearsal
import RiscvJit.Proofs.Stub.DeoptFrames

/-
  RiscvJit.Proofs.Stub.DeoptBlob — replacing a compiled frame leads to the frames of its plan.

  From each entry the registers are saved below the compiled frame (`Stopped`). The runtime answers
  with the image of a plan (`does_fetchPlan`), the values are captured and the results move to
  registers that calls keep (`Carried`), the compiled frame is popped (`does_popCompiledFrame`), and
  the frames of the plan are pushed (`Chained`). Filling and finishing them keeps their link words, so
  the innermost frame goes on with the results of the interrupted code (`deopt_chains_frames`).
-/

namespace RiscvJit

open Reg (zr ra sp t0 t1 fp thread)
open RegisterSave (place word_of_saved floats ints frameSize)
open Site
open Machine (get_withPc get_set)
open EntryPoint

namespace Stub

open Asm

/-! ## What has to be in place -/

/-- The stack pointer of the sender, for that of the compiled frame. -/
def senderOfFrame (u : UnrollBlock) (top : UInt64) : UInt64 := top + u.deoptimizedFrameSize.toUInt64

/-- What is still needed of the interrupted code: its registers, saved below its frame, and the frame
pointer and return address at the end of the frame. -/
def Interrupted (u : UnrollBlock) (top addr : UInt64) : Prop :=
  SaveFrame top addr ∨ Spans ((senderOfFrame u top).toNat - 16) 16 addr

/-- The words of the thread that are written. -/
abbrev ThreadWords (thr : UInt64) : UInt64 → Prop := OfThread thr 0x1b0 56

/-- A compiled frame on top of the stack, with room for the saved registers below it and for the frames
of the plan below its sender. All this is apart from the code, from words of the thread that are written
and, as far as it is still needed, from the image of the plan. -/
structure DeoptRoom (Clear : UInt64 → Prop) (u : UnrollBlock) (image top thr : UInt64) : Prop where
  proper : u.Proper
  some : 1 ≤ u.frameCount
  fits : u.Fits (senderOfFrame u top)
  below : 496 ≤ top.toNat
  linkage : 16 ≤ u.deoptimizedFrameSize.toUInt64.toNat
  above : top.toNat + u.deoptimizedFrameSize.toUInt64.toNat < 2 ^ 64
  imageEnd : image.toNat + u.valuesOffset ≤ 2 ^ 64
  threadEnd : thr.toNat + 0x1e8 ≤ 2 ^ 64
  saveClear : ∀ addr, SaveFrame top addr → Clear addr
  framesClear : ∀ addr, u.Linked (senderOfFrame u top) addr → Clear addr
  threadClear : ∀ addr, ThreadWords thr addr → Clear addr
  imageApart : ∀ addr, u.Linked (senderOfFrame u top) addr → ¬ Spans image.toNat u.valuesOffset addr
  threadApart : ∀ addr, ThreadWords thr addr → ¬ Interrupted u top addr ∧ ¬ Spans image.toNat u.valuesOffset addr ∧
    ¬ u.Linked (senderOfFrame u top) addr

/-- The runtime fetches the image of the plan, and its routines and those of the plan change only
registers that a caller saves and memory of their own. -/
structure DeoptHelp (W : World) (t : Target) (Clear : UInt64 → Prop) (u : UnrollBlock) (image top : UInt64) : Prop where
  fetch : ∃ f, Serves W (t.runtime.addr .fetchUnrollInfo) (fun addr => ¬ Clear addr ∨ Interrupted u top addr) f ∧
    ∀ m, (f m).get (.x 10) = image ∧ u.Image image (f m).mem
  capture : ∃ f, Serves W u.captureRoutine
    (fun addr => ¬ Clear addr ∨ Interrupted u top addr ∨ Spans image.toNat u.valuesOffset addr) f
  fill : ∃ f, Serves W u.fillRoutine
    (fun addr => ¬ Clear addr ∨ Spans image.toNat u.valuesOffset addr ∨ u.Linked (senderOfFrame u top) addr) f
  finish : ∃ f, Serves W (t.runtime.addr .unpackFrames)
    (fun addr => ¬ Clear addr ∨ Spans image.toNat u.valuesOffset addr ∨ u.Linked (senderOfFrame u top) addr) f

theorem lastFrame_threadWords {thr addr : UInt64} (h : LastFrame thr addr) : ThreadWords thr addr := by
  omega

/-! ## The stages -/

/-- The compiled frame is on the stack, and the registers are saved below it. -/
structure Stopped (u : UnrollBlock) (top thr callerFp int float : UInt64) (m : Machine) : Prop where
  sp : m.get sp = top - 496
  thread : m.get thread = thr
  int : m.at (top - 496) (place (.x 10)) = int
  float : m.at (top - 496) (place (.f 10)) = float
  link : m.mem.read (senderOfFrame u top - 16) 8 = callerFp

/-- The results of the interrupted code and the image of the plan are in registers that calls keep. -/
structure Carried (u : UnrollBlock) (image thr int float : UInt64) (m : Machine) : Prop where
  thread : m.get thread = thr
  plan : m.get deoptPlan = image
  image : u.Image image m.mem
  int : m.get deoptResult = int
  float : m.get deoptFloatResult = float

/-- The frames of the plan are on the stack, each linked to the one before. -/
structure Chained (u : UnrollBlock) (image sender callerFp thr int float : UInt64) (m : Machine) : Prop where
  carried : Carried u image thr int float m
  sp : m.get sp = u.frameTop sender u.frameCount
  lastPc : m.get deoptLastPc = image + UInt64.ofNat (u.pcsOffset + 8 * u.frameCount)
  frames : ∀ i < u.frameCount, ∀ pc, u.framePcs[i]? = some pc →
    FrameWords m.mem (u.framePointer sender i) pc (u.linkOf sender callerFp i) (u.senderOf sender i)

section
variable {Clear : UInt64 → Prop} {u : UnrollBlock} {image top thr callerFp int float : UInt64} {m m' : Machine}

theorem DeoptRoom.roomy (h : DeoptRoom Clear u image top thr)
    (hsizes : ∀ s ∈ u.frameSizes.dropLast, 32 ≤ s.toUInt64.toNat) :
    u.Roomy (senderOfFrame u top) := ⟨hsizes, h.fits⟩

theorem DeoptRoom.toNat_sender (h : DeoptRoom Clear u image top thr) :
    (senderOfFrame u top).toNat = top.toNat + u.deoptimizedFrameSize.toUInt64.toNat := by
  rw [senderOfFrame, UInt64.toNat_add, Nat.mod_eq_of_lt h.above]

/-- A saved register stays where it is as long as the memory there does. -/
theorem place_eq (hbelow : 496 ≤ top.toNat) (hmem : ∀ addr, SaveFrame top addr → m'.mem addr = m.mem addr) {r : Reg}
    (hr : r ∈ floats ++ ints) : m'.at (top - 496) (place r) = m.at (top - 496) (place r) := by
  obtain ⟨k, hk, -, hplace⟩ := word_of_saved hr
  have htop : (top - 496).toNat = top.toNat - 496 := toNat_back (k := 496) hbelow
  have hsmall := top.toNat_lt
  have haddr : (top - 496 + UInt64.ofNat (4 * (2 * k))).toNat = top.toNat - 496 + 4 * (2 * k) := by
    rw [toNat_off (by omega), htop]
  rw [hplace]
  refine Ram.read_same (by omega) fun x hx => hmem x ?_
  omega

theorem Stopped.keep (h : Stopped u top thr callerFp int float m) (hroom : DeoptRoom Clear u image top thr)
    (hsp : m'.get Reg.sp = m.get Reg.sp) (hthread : m'.get Reg.thread = m.get Reg.thread)
    (hmem : ∀ addr, Interrupted u top addr → m'.mem addr = m.mem addr) : Stopped u top thr callerFp int float m' where
  sp := hsp.trans h.sp
  thread := hthread.trans h.thread
  int := (place_eq hroom.below (fun addr ha => hmem addr (.inl ha)) (by decide +kernel)).trans h.int
  float := (place_eq hroom.below (fun addr ha => hmem addr (.inl ha)) (by decide +kernel)).trans h.float
  link := by
    have hsender := hroom.toNat_sender
    have hsmall := (senderOfFrame u top).toNat_lt
    have hback : (senderOfFrame u top - 16).toNat = (senderOfFrame u top).toNat - 16 :=
      toNat_back (k := 16) (by have := hroom.linkage; omega)
    rw [← h.link]
    refine Ram.read_same (by omega) fun x hx => hmem x (.inr ?_)
    omega

theorem Carried.keep (h : Carried u image thr int float m) (hend : image.toNat + u.valuesOffset ≤ 2 ^ 64)
    (hregs : ∀ r ∈ [Reg.thread, deoptPlan, deoptResult, deoptFloatResult], m'.get r = m.get r)
    (hmem : ∀ addr, Spans image.toNat u.valuesOffset addr → m'.mem addr = m.mem addr) : Carried u image
    thr int float m' where
  thread := (hregs _ (by decide)).trans h.thread
  plan := (hregs _ (by decide)).trans h.plan
  image := h.image.keep hend hmem
  int := (hregs _ (by decide)).trans h.int
  float := (hregs _ (by decide)).trans h.float

theorem Chained.keep {sender : UInt64} (h : Chained u image sender callerFp thr int float m) (hroomy : u.Roomy sender)
    (hend : image.toNat + u.valuesOffset ≤ 2 ^ 64)
    (hregs : ∀ r ∈ [Reg.sp, deoptLastPc, Reg.thread, deoptPlan, deoptResult, deoptFloatResult], m'.get r = m.get r)
    (hmem : ∀ addr, Spans image.toNat u.valuesOffset addr ∨ u.Linked sender addr → m'.mem addr = m.mem addr) :
    Chained u image sender callerFp thr int float m' where
  carried := h.carried.keep hend (fun r hr => hregs r (List.mem_cons_of_mem _ (List.mem_cons_of_mem _ hr)))
    fun addr ha => hmem addr (.inl ha)
  sp := (hregs _ (by decide)).trans h.sp
  lastPc := (hregs _ (by decide)).trans h.lastPc
  frames i hi pc hpc := by
    have hlow := hroomy.le_top hi
    have hpointer := hroomy.toNat_pointer hi
    have hsmall := (u.frameTop sender i).toNat_lt
    refine (h.frames i hi pc hpc).keep (by omega) (by omega) fun addr ha => hmem addr (.inr ⟨i, hi, ?_⟩)
    omega

end

/-! ## From the saved registers to the plan -/

instance traced_captureValues : Traced captureValues := by
  unfold captureValues
  infer_instance

instance traced_popCompiledFrame (sender : Reg) : Traced (popCompiledFrame sender) := by
  unfold popCompiledFrame
  infer_instance

instance traced_fillFrames : Traced fillFrames := by
  unfold fillFrames
  infer_instance

instance traced_finishFrames : Traced finishFrames := by
  unfold finishFrames
  infer_instance

/-- The runtime is asked for the plan. -/
def fetchPlan (map : OopMap) : Asm Unit := do
  let fetched ← newLabel
  mv (.x 10) thread
  mv (.x 11) deoptKind
  setLastJavaFrame sp fp fetched t0
  rtCall .fetchUnrollInfo
  Asm.bind fetched
  addOopMap map
  resetLastJavaFrame false
  mv deoptPlan (.x 10)

variable (map : OopMap)

theorem unpack_eq : unpack map = (do
    fetchPlan map
    captureValues
    popCompiledFrame (.x 21)
    pushFrames (.x 21)
    fillFrames
    finishFrames) := by
  simp only [unpack, fetchPlan, bind_assoc]

instance traced_fetchPlan : Traced (fetchPlan map) := by
  unfold fetchPlan
  infer_instance

instance traced_unpack : Traced (unpack map) := by
  rw [unpack_eq]
  infer_instance

section
variable {S : Site} {E : Exits} {Q : Unit → Machine → Prop} {u : UnrollBlock}
  {image top thr callerFp int float : UInt64} {m : Machine}

theorem does_fetchPlan {map : OopMap} (hstart : S.start % 2 = 0) (hroom : DeoptRoom S.Free u image top thr)
    (hhelp : DeoptHelp S.world S.target S.Free u image top) (hm : Stopped u top thr callerFp int float m)
    (h : ∀ m', Stopped u top thr callerFp int float m' → m'.get deoptPlan = image → u.Image image m'.mem → Q () m') :
    S.Does (fetchPlan map) m E Q := by
  obtain ⟨fetch, hserves, hanswer⟩ := hhelp.fetch
  have hlast {rs : List Reg} {m1 m2 : Machine} (h1 : Stopped u top thr callerFp int float m1)
    (h2 : Alters rs (LastFrame thr) m1 m2)
      (hsp : sp ∉ rs) (hthread : thread ∉ rs) : Stopped u top thr callerFp int float m2 :=
    h1.keep hroom (h2.regs _ hsp) (h2.regs _ hthread) fun addr ha => h2.mem addr fun hin =>
      (hroom.threadApart addr (lastFrame_threadWords hin)).1 ha
  have hput {r : Reg} {v : UInt64} {m1 m2 : Machine} (h1 : Stopped u top thr callerFp int float m1)
    (h2 : Put r [] v m1 m2)
      (hsp : sp ≠ r) (hthread : thread ≠ r) : Stopped u top thr callerFp int float m2 :=
    hlast h1 (show Alters [r] (LastFrame thr) m1 m2 from h2.alters (by simp) (by simp)) (by simpa using hsp)
      (by simpa using hthread)
  have hfree : ∀ addr, LastFrame thr addr → S.Free addr :=
    fun addr ha => hroom.threadClear addr (lastFrame_threadWords ha)
  have hshape : fetchPlan map = newLabel >>= fun fetched => (do
      mv (.x 10) thread
      mv (.x 11) deoptKind
      setLastJavaFrame sp fp fetched t0
      rtCall .fetchUnrollInfo) >>= fun _ => Asm.bind fetched >>= fun _ => (do
      addOopMap map
      resetLastJavaFrame false
      mv deoptPlan (.x 10)) := by
    simp only [fetchPlan, bind_assoc]
  rw [hshape]
  refine .bind (does_newLabel fun fetched => Does.label fun hbinds => ?_)
  refine .bind (does_mv fun m1 h1 => .bind (does_mv fun m2 h2 => ?_))
  have hm2 := hput (hput hm h1 (by decide) (by decide)) h2 (by decide) (by decide)
  refine .bind (does_setLastJavaFrame (by decide) (by decide) (by decide) hbinds hm2.thread hroom.threadEnd hfree
    fun m3 h3 => ?_)
  have hm3 := hlast hm2 h3 (by decide) (by decide)
  refine does_rtCall hserves hstart (fun addr ha => .inl ha) fun m4 h4 => ?_
  have hm4 : Stopped u top thr callerFp int float m4 :=
    hm3.keep hroom (h4.regs _ (by decide)) (h4.regs _ (by decide)) fun addr ha => h4.mem addr (.inr ha)
  obtain ⟨m0, -, -, rfl⟩ := h4.answer
  obtain ⟨hx10, himage⟩ := hanswer m0
  refine .bind (does_addOopMap (.bind (does_resetLastJavaFrame hm4.thread hroom.threadEnd hfree fun m5 h5 =>
    does_mv fun m6 h6 => h m6 ?_ ?_ ?_)))
  · exact hput (hlast hm4 h5 (by decide) (by decide)) h6 (by decide) (by decide)
  · rw [h6.value, h5.regs _ (by decide), hx10]
  · rw [h6.mem]
    exact himage.keep hroom.imageEnd fun addr ha => h5.mem addr fun hin =>
      (hroom.threadApart addr (lastFrame_threadWords hin)).2.1 ha

/-- The values are captured, and the results are brought to where calls keep them. -/
theorem does_captureValues (hstart : S.start % 2 = 0) (hroom : DeoptRoom S.Free u image top thr)
    (hhelp : DeoptHelp S.world S.target S.Free u image top) (hm : Stopped u top thr callerFp int float m)
    (hplan : m.get deoptPlan = image) (himage : u.Image image m.mem)
    (h : ∀ m', Carried u image thr int float m' → m'.get sp = top → m'.mem.read (senderOfFrame u top - 16) 8 = callerFp →
      Q () m') : S.Does captureValues m E Q := by
  obtain ⟨capture, hserves⟩ := hhelp.capture
  refine .bind (does_ld fun m1 h1 => .bind (does_addi fun m2 h2 =>
    .bind (does_mv fun m3 h3 => .bind (does_ld fun m4 h4 => ?_))))
  have hregs {r : Reg} (hr : r ∉ [.x 10, .x 11, .x 12, t0]) : m4.get r = m.get r := by
    simp only [List.mem_cons, List.not_mem_nil, or_false, not_or] at hr
    rw [h4.other r hr.2.2.2, h3.other r hr.2.2.1, h2.other r hr.2.1,
      h1.other r hr.1]
  have hmem3 : m3.mem = m.mem := h3.mem.trans (h2.mem.trans h1.mem)
  have hroutine : m4.get t0 = u.captureRoutine := by
    rw [h4.value, hmem3, h3.other _, h2.other _,
      h1.other _, hplan]
    exact (himage.reads hroom.proper).capture
  refine .bind (does_serveThrough hserves hstart hroutine (fun addr ha => .inl ha) fun m5 h5 => ?_)
  have hmem4 : m4.mem = m.mem := h4.mem.trans hmem3
  have hm5 : Stopped u top thr callerFp int float m5 := by
    refine hm.keep hroom ?_ ?_ fun addr ha => ?_
    · rw [h5.regs _ (by decide), hregs (by decide)]
    · rw [h5.regs _ (by decide), hregs (by decide)]
    · rw [h5.mem addr (.inr (.inl ha)), hmem4]
  have himage5 : u.Image image m5.mem := himage.keep hroom.imageEnd fun addr ha => by
    rw [h5.mem addr (.inr (.inr ha)), hmem4]
  refine .bind (does_restoreResultRegisters fun m6 h6 => .bind (does_mv fun m7 h7 =>
    does_mv fun m8 h8 => h m8 ⟨?_, ?_, ?_, ?_, ?_⟩ ?_ ?_))
  · rw [h8.other _, h7.other _, h6.alters.regs _ (by decide),
      hm5.thread]
  · rw [h8.other _, h7.other _, h6.alters.regs _ (by decide),
      h5.regs _ (by decide), hregs (by decide), hplan]
  · rw [h8.mem, h7.mem]
    exact himage5.keep hroom.imageEnd fun addr _ => h6.alters.mem addr id
  · rw [h8.other _, h7.value, h6.int, hm5.sp, hm5.int]
  · rw [h8.value, h7.other _, h6.float, hm5.sp, hm5.float]
  · rw [h8.other _, h7.other _, h6.sp, hm5.sp, UInt64.sub_add_cancel]
  · rw [h8.mem, h7.mem, ← hm5.link]
    exact Ram.read_congr fun i _ => h6.alters.mem _ id

/-- The compiled frame is popped, and its caller made larger. -/
theorem does_popCompiledFrame (hroom : DeoptRoom S.Free u image top thr) (hm : Carried u image thr int float m)
    (hsp : m.get sp = top) (hlink : m.mem.read (senderOfFrame u top - 16) 8 = callerFp)
    (h : ∀ m', Carried u image thr int float m' → m'.get sp = u.frameTop (senderOfFrame u top) 0 → m'.get fp = callerFp →
      m'.get (.x 21) = senderOfFrame u top → Q () m') : S.Does (popCompiledFrame (.x 21)) m E Q := by
  have hreads := hm.image.reads hroom.proper
  refine .bind (does_lwu (by decide) fun m1 h1 => .bind (does_add (by decide) fun m2 h2 =>
    .bind (does_ld fun m3 h3 => .bind (does_ld fun m4 h4 =>
    .bind (does_mv fun m5 h5 => .bind (does_lwu (by decide) fun m6 h6 =>
    does_sub (by decide) fun m7 h7 => ?_))))))
  rw [hm.plan, show image + unrollLayout.deoptimizedFrameSize.toUInt64 = image from UInt64.add_zero _,
    hreads.frameSize] at h1
  have hsp2 : m2.get sp = senderOfFrame u top := by
    rw [h2.value, h1.other _, h1.value, hsp]
    rfl
  have hsp5 : m5.get sp = senderOfFrame u top := by
    rw [h5.other _, h4.other _,
      h3.other _, hsp2]
  have hmem5 : m5.mem = m.mem := h5.mem.trans (h4.mem.trans (h3.mem.trans (h2.mem.trans h1.mem)))
  have hregs5 {r : Reg} (hr : r ∉ [t1, sp, ra, fp, .x 21]) : m5.get r = m.get r := by
    simp only [List.mem_cons, List.not_mem_nil, or_false, not_or] at hr
    rw [h5.other r hr.2.2.2.2, h4.other r hr.2.2.2.1, h3.other r hr.2.2.1,
      h2.other r hr.2.1, h1.other r hr.1]
  rw [hregs5 (by decide), hm.plan, hmem5, show image + unrollLayout.callerAdjustment.toUInt64 = image + 4 from rfl,
    hreads.adjustment] at h6
  have hrest {r : Reg} (hsp : r ≠ sp) (ht1 : r ≠ t1) : m7.get r = m5.get r := by
    rw [h7.other r hsp, h6.other r ht1]
  refine h m7 (hm.keep hroom.imageEnd (fun r hr => ?_) fun addr _ => ?_) ?_ ?_ ?_
  · have hother : r ∉ [t1, sp, ra, fp, .x 21] ∧ r ≠ sp ∧ r ≠ t1 := by
      revert hr
      revert r
      decide
    rw [hrest hother.2.1 hother.2.2, hregs5 hother.1]
  · rw [h7.mem, h6.mem, hmem5]
  · rw [h7.value, h6.value, h6.other _, hsp5, UnrollBlock.frameTop_zero]
  · rw [hrest (by decide) (by decide), h5.other _, h4.value, h3.other _,
      hsp2, h3.mem, h2.mem, h1.mem, add_neg_toUInt64]
    exact hlink
  · rw [hrest (by decide) (by decide), h5.value, h4.other _,
      h3.other _, hsp2]

/-! ## From the frames to the innermost one -/

theorem does_fillFrames {sender : UInt64} (hstart : S.start % 2 = 0) (hroom : DeoptRoom S.Free u image top thr)
    (hroomy : u.Roomy sender) (hhelp : DeoptHelp S.world S.target S.Free u image top)
    (hsender : sender = senderOfFrame u top)
    (hm : Chained u image sender callerFp thr int float m)
    (h : ∀ m', Chained u image sender callerFp thr int float m' → Q () m') : S.Does fillFrames m E Q := by
  subst hsender
  obtain ⟨fill, hserves⟩ := hhelp.fill
  refine .bind (does_ld fun m1 h1 => .bind (does_mv fun m2 h2 =>
    .bind (does_ld fun m3 h3 => ?_)))
  have hroutine : m3.get t0 = u.fillRoutine := by
    rw [h3.value, h2.mem, h1.mem, h2.other _, h1.other _,
      hm.carried.plan]
    exact (hm.carried.image.reads hroom.proper).fill
  refine does_serveThrough hserves hstart hroutine (fun addr ha => .inl ha) fun m4 h4 => h m4 ?_
  refine hm.keep hroomy hroom.imageEnd (fun r hr => ?_) fun addr ha => ?_
  · have hother : r ∈ calleeSaved ∧ r ≠ t0 ∧ r ≠ .x 11 ∧ r ≠ .x 10 := by
      revert hr
      revert r
      decide
    rw [h4.regs r hother.1, h3.other r hother.2.1, h2.other r hother.2.2.1,
      h1.other r hother.2.2.2]
  · rw [h4.mem addr (.inr ha), h3.mem, h2.mem, h1.mem]

/-- The machine goes on in the innermost frame of the plan: the frames are there, and the results are
those of the interrupted code. -/
structure Unrolled (u : UnrollBlock) (sender callerFp int float : UInt64) (m : Machine) : Prop where
  pc : ∃ pc, u.framePcs[u.frameCount]? = some pc ∧ Jumped m pc
  int : m.get (.x 10) = int
  float : m.get (.f 10) = float
  sp : m.get sp = sender - u.callerAdjustment.toUInt64 - u.totalFrameSizes.toUInt64
  frames : ∀ i < u.frameCount, ∀ pc, u.framePcs[i]? = some pc →
    FrameWords m.mem (u.framePointer sender i) pc (u.linkOf sender callerFp i) (u.senderOf sender i)

theorem does_finishFrames {sender : UInt64} (hstart : S.start % 2 = 0) (hroom : DeoptRoom S.Free u image top thr)
    (hroomy : u.Roomy sender) (hhelp : DeoptHelp S.world S.target S.Free u image top)
    (hsender : sender = senderOfFrame u top)
    (hm : Chained u image sender callerFp thr int float m)
    (h : ∀ m', Unrolled u sender callerFp int float m' → E .away m') : S.Does finishFrames m E Q := by
  subst hsender
  obtain ⟨finish, hserves⟩ := hhelp.finish
  have hother {r : Reg} (hr : r ∈ [Reg.sp, deoptLastPc, Reg.thread, deoptPlan, deoptResult, deoptFloatResult]) :
      r ∈ calleeSaved ∧ r ∉ [ra, t0, .x 10, .x 11, .f 10] := by
    revert hr
    revert r
    decide
  have hkeep {rs : List Reg} {m1 m2 : Machine} (h1 : Chained u image (senderOfFrame u top) callerFp thr int float m1)
      (h2 : Alters rs (LastFrame thr) m1 m2) (hrs : ∀ r ∈ rs, r ∈ [ra, t0, .x 10, .x 11, .f 10]) :
      Chained u image (senderOfFrame u top) callerFp thr int float m2 := by
    refine h1.keep hroomy hroom.imageEnd (fun r hr => h2.regs r fun hin => (hother hr).2 (hrs r hin)) fun addr ha =>
      h2.mem addr fun hin => ?_
    have hapart := hroom.threadApart addr (lastFrame_threadWords hin)
    exact ha.elim hapart.2.1 hapart.2.2
  have hput {r : Reg} {v : UInt64} {m1 m2 : Machine}
    (h1 : Chained u image (senderOfFrame u top) callerFp thr int float m1)
      (h2 : Put r [] v m1 m2) (hr : r ∈ [ra, t0, .x 10, .x 11, .f 10]) :
      Chained u image (senderOfFrame u top) callerFp thr int float m2 :=
    hkeep h1 (show Alters [r] (LastFrame thr) m1 m2 from h2.alters (by simp) (by simp)) (by simpa using hr)
  have hfree : ∀ addr, LastFrame thr addr → S.Free addr :=
    fun addr ha => hroom.threadClear addr (lastFrame_threadWords ha)
  have hshape : finishFrames = newLabel >>= fun unpacked => (do
      mv (.x 10) thread
      lwu (.x 11) deoptPlan unrollLayout.unpackKind
      setLastJavaFrame sp fp unpacked t0
      rtCall .unpackFrames) >>= fun _ => Asm.bind unpacked >>= fun _ => (do
      addOopMap { frameSlots := 0 }
      resetLastJavaFrame true
      mv (.x 10) deoptResult
      mv (.f 10) deoptFloatResult
      ld ra deoptLastPc 0
      jr ra) := by
    simp only [finishFrames, bind_assoc]
  rw [hshape]
  refine .bind (does_newLabel fun unpacked => Does.label fun hbinds => ?_)
  refine .bind (does_mv fun m1 h1 => .bind (does_lwu (by decide) fun m2 h2 => ?_))
  have hm2 := hput (hput hm h1 (by decide)) h2 (by decide)
  refine .bind (does_setLastJavaFrame (by decide) (by decide) (by decide) hbinds hm2.carried.thread hroom.threadEnd hfree
    fun m3 h3 => ?_)
  have hm3 := hkeep hm2 h3 (by decide)
  refine does_rtCall hserves hstart (fun addr ha => .inl ha) fun m4 h4 => ?_
  have hm4 : Chained u image (senderOfFrame u top) callerFp thr int float m4 :=
    hm3.keep hroomy hroom.imageEnd (fun r hr => h4.regs r (hother hr).1) fun addr ha => h4.mem addr (.inr ha)
  refine .bind (does_addOopMap (.bind (does_resetLastJavaFrame hm4.carried.thread hroom.threadEnd hfree fun m5 h5 => ?_)))
  have hm5 := hkeep hm4 h5 (by simp)
  refine .bind (does_mv fun m6 h6 => .bind (does_mv fun m7 h7 =>
    .bind (does_ld fun m8 h8 => does_jr (h _ ?_))))
  have hm7 := hput (hput hm5 h6 (by decide)) h7 (by decide)
  have hm8 := hput hm7 h8 (by decide)
  obtain ⟨pc, hpc⟩ : ∃ pc, u.framePcs[u.frameCount]? = some pc :=
    ⟨_, List.getElem?_eq_getElem (by rw [hroom.proper.pcs]; omega)⟩
  have hra : m8.get ra = pc := by
    rw [h8.value, hm7.lastPc, show (0 : Int64).toUInt64 = 0 from rfl, UInt64.add_zero]
    exact (hm7.carried.image.reads hroom.proper).pcAt _ pc hpc
  refine ⟨⟨pc, hpc, jumped_of_pc (by rw [← hra])⟩, ?_, ?_, ?_, hm8.frames⟩
  · rw [get_withPc, h8.other _, h7.other _, h6.value,
      hm5.carried.int]
  · rw [get_withPc, h8.other _, h7.value, h6.other _,
      hm5.carried.float]
  · rw [get_withPc, hm8.sp, UnrollBlock.frameTop_count]

/-- From the saved registers the frames of the plan are reached. -/
theorem does_unpack {map : OopMap} (hstart : S.start % 2 = 0) (hroom : DeoptRoom S.Free u image top thr)
    (hroomy : u.Roomy (senderOfFrame u top)) (hhelp : DeoptHelp S.world S.target S.Free u image top)
    (hm : Stopped u top thr callerFp int float m)
    (h : ∀ m', Unrolled u (senderOfFrame u top) callerFp int float m' → E .away m') : S.Does (unpack map) m E Q := by
  rw [unpack_eq]
  refine .bind (does_fetchPlan hstart hroom hhelp hm fun m1 hm1 hplan himage => ?_)
  refine .bind (does_captureValues hstart hroom hhelp hm1 hplan himage fun m2 hm2 hsp hlink => ?_)
  refine .bind (does_popCompiledFrame hroom hm2 hsp hlink fun m3 hm3 hsp3 hfp3 hnoted => ?_)
  refine .bind (does_pushFrames hroom.proper hroomy hroom.some hroom.framesClear hm3.image hroom.imageEnd
    hroom.imageApart hm3.plan hsp3 hfp3 hnoted fun m4 h4 => ?_)
  have hm4 : Chained u image (senderOfFrame u top) callerFp thr int float m4 := by
    refine ⟨hm3.keep hroom.imageEnd (fun r hr => h4.alters.regs r ?_) fun addr ha => h4.alters.mem addr fun hin =>
      hroom.imageApart addr hin ha, h4.sp, h4.lastPc, h4.frames⟩
    revert hr
    revert r
    decide
  exact .bind (does_fillFrames hstart hroom hroomy hhelp rfl hm4 fun m5 hm5 =>
    does_finishFrames hstart hroom hroomy hhelp rfl hm5 h)

end

/-! ## The entries -/

instance traced_noteKind (k : UnpackKind) : Traced (noteKind k) := by
  unfold noteKind
  infer_instance

/-- The registers are saved, for a reason. -/
def stop (k : UnpackKind) : Asm Unit := do
  let _ ← saveLiveRegisters
  noteKind k

/-- The exception is left with the thread. -/
def storeException : Asm Unit := do
  sd (.x 10) thread threadLayout.exceptionOop
  sd (.x 13) thread threadLayout.exceptionPc

instance traced_stop (k : UnpackKind) : Traced (stop k) := by
  unfold stop
  infer_instance

instance traced_storeException : Traced storeException := by
  unfold storeException
  infer_instance

/-- The machine in front of an entry, with the compiled frame on top of the stack. -/
structure Entering (u : UnrollBlock) (top thr callerFp int float : UInt64) (m : Machine) : Prop where
  sp : m.get sp = top
  thread : m.get thread = thr
  int : m.get (.x 10) = int
  float : m.get (.f 10) = float
  link : m.mem.read (senderOfFrame u top - 16) 8 = callerFp

section
variable {S : Site} {E : Exits} {u : UnrollBlock} {image top thr callerFp int float : UInt64} {m : Machine}

theorem does_stop {k : UnpackKind} (hroom : DeoptRoom S.Free u image top thr)
    (hm : Entering u top thr callerFp int float m) :
    S.Does (stop k) m E fun _ m' => Stopped u top thr callerFp int float m' := by
  have hsender := hroom.toNat_sender
  have hlinkage := hroom.linkage
  have hbelow := hroom.below
  have hsmall := (senderOfFrame u top).toNat_lt
  refine .bind (does_saveLiveRegisters (by rw [hm.sp]; exact hroom.below) (by rw [hm.sp]; exact hroom.saveClear)
    fun map m1 h1 => does_li fun m2 h2 => ?_)
  have hsp : m1.get sp = top - 496 := by rw [h1.sp, hm.sp]
  have hplace {r : Reg} (hr : r ∈ floats ++ ints) : m2.at (top - 496) (place r) = m.get r := by
    obtain ⟨k, -, -, hplace⟩ := word_of_saved hr
    have hsaved := h1.places r hr
    rw [hsp] at hsaved
    rw [← hsaved, hplace]
    show m2.mem.read _ 8 = m1.mem.read _ 8
    rw [h2.mem]
  have hback : (senderOfFrame u top - 16).toNat = (senderOfFrame u top).toNat - 16 := toNat_back (k := 16) (by omega)
  refine ⟨?_, ?_, ?_, ?_, ?_⟩
  · rw [h2.other _, hsp]
  · rw [h2.other _, h1.alters.regs _ (by decide), hm.thread]
  · rw [hplace (by decide +kernel), hm.int]
  · rw [hplace (by decide +kernel), hm.float]
  · rw [h2.mem, h1.alters.read (by omega) fun x hx hin => ?_, hm.link]
    rw [hm.sp] at hin
    omega

theorem does_storeException (hroom : DeoptRoom S.Free u image top thr) (hm : Entering u top thr callerFp int float m) :
    S.Does storeException m E fun _ m' => Entering u top thr callerFp int float m' := by
  have hlinkage := hroom.linkage
  have hsender := hroom.toNat_sender
  have hsmall := (senderOfFrame u top).toNat_lt
  have hback : (senderOfFrame u top - 16).toNat = (senderOfFrame u top).toNat - 16 := toNat_back (k := 16) (by omega)
  have hend := hroom.threadEnd
  have hwords {k : Nat} (hk : k = 0 ∨ k = 8) (addr : UInt64)
    (ha : OfThread thr (0x1b0 + k) 8 addr) : ThreadWords thr addr := by
    omega
  have hkeep {k : Nat} (hk : k = 0 ∨ k = 8) {m1 m2 : Machine} (h1 : Entering u top thr callerFp int float m1)
      (h2 : Alters [] (OfThread thr (0x1b0 + k) 8) m1 m2) : Entering u top thr callerFp int float m2 := by
    have hregs (r : Reg) : m2.get r = m1.get r := h2.regs r List.not_mem_nil
    refine ⟨(hregs _).trans h1.sp, (hregs _).trans h1.thread, (hregs _).trans h1.int, (hregs _).trans h1.float, ?_⟩
    rw [h2.read (by omega) fun x hx hin => ?_, h1.link]
    refine (hroom.threadApart x (hwords hk x hin)).1 (.inr ?_)
    omega
  refine .bind (does_threadWord (0x1b0 + 0) hm.thread (by omega)
    (fun addr ha => hroom.threadClear addr (hwords (.inl rfl) addr ha)) fun m1 h1 => ?_)
  have hm1 := hkeep (.inl rfl) hm h1
  exact does_threadWord (0x1b0 + 8) hm1.thread (by omega)
    (fun addr ha => hroom.threadClear addr (hwords (.inr rfl) addr ha)) fun m2 h2 => hkeep (.inr rfl) hm1 h2

end

/-- The entries of the code. -/
def deoptEntries : List String := [EntryPoint.deopt, reexecute, exception, exceptionInTls]

/-- Where the entries and the code they share were written. -/
structure EntriesWritten (t : Target) (cont : Label) (map : OopMap) (first last : Assembler) : Prop where
  start : last.entries.lookup EntryPoint.deopt = some first.buf.offset
  shared : ∃ c pre, Trace t pre first c ∧ (Asm.bind cont >>= fun _ => unpack map) t c = .ok ((), last) ∧
    ∃ a b, (∃ pre, Trace t pre first a) ∧ storeException t a = .ok ((), b) ∧
      stop .exception t (b.markEntry exceptionInTls) = .ok ((), c) ∧
      last.entries.lookup exception = some a.buf.offset ∧
      last.entries.lookup exceptionInTls = some b.buf.offset
  jumping : ∀ name ∈ [EntryPoint.deopt, reexecute], ∃ k a b pre post, Trace t pre first a ∧
    (stop k >>= fun _ => j cont) t a = .ok ((), b) ∧ Trace t post b last ∧ last.entries.lookup name = some a.buf.offset

theorem deoptBody_eq : deoptBody = (do
    let cont ← newLabel
    markEntry EntryPoint.deopt
    let m ← saveLiveRegisters
    noteKind .deopt
    j cont
    markEntry reexecute
    stop .reexecute
    j cont
    markEntry exception
    storeException
    markEntry exceptionInTls
    stop .exception
    Asm.bind cont
    unpack m) := by
  simp only [deoptBody, stop, storeException, bind_assoc]

theorem written_deoptBody {t : Target} {first last : Assembler} (hfirst : first.Behind)
    (h : deoptBody t first = .ok ((), last)) : ∃ cont map, EntriesWritten t cont map first last := by
  rw [deoptBody_eq] at h
  obtain ⟨cont, a0, hlabel, h⟩ := bind_eq_ok.mp h
  obtain ⟨is0, htrace0, hfree0⟩ := traced_newLabel.trace _ _ _ _ hfirst hlabel
  obtain ⟨_, a1, hmark, h⟩ := bind_eq_ok.mp h
  cases hmark
  have hfrom1 := htrace0.append (trace_entry t EntryPoint.deopt a0)
  obtain ⟨map, a2, hsave, h⟩ := bind_eq_ok.mp h
  obtain ⟨_, a3, hnote, h⟩ := bind_eq_ok.mp h
  obtain ⟨_, a4, hjump, h⟩ := bind_eq_ok.mp h
  have hrun1 : (stop .deopt >>= fun _ => j cont) t (a0.markEntry EntryPoint.deopt) = .ok ((), a4) :=
    bind_eq_ok.mpr ⟨(), a3, bind_eq_ok.mpr ⟨map, a2, hsave, hnote⟩, hjump⟩
  obtain ⟨is1, htrace1, hfree1⟩ := (traced_bind _ _).trace _ _ _ _ (hfrom1.behind hfirst) hrun1
  have hfrom2 := (hfrom1.append htrace1).append (trace_entry t reexecute a4)
  obtain ⟨_, a5, hmark, h⟩ := bind_eq_ok.mp h
  cases hmark
  obtain ⟨_, a6, hstop, h⟩ := bind_eq_ok.mp h
  obtain ⟨_, a7, hjump, h⟩ := bind_eq_ok.mp h
  have hrun2 : (stop .reexecute >>= fun _ => j cont) t (a4.markEntry reexecute) = .ok ((), a7) :=
    bind_eq_ok.mpr ⟨(), a6, hstop, hjump⟩
  obtain ⟨is2, htrace2, hfree2⟩ := (traced_bind _ _).trace _ _ _ _ (hfrom2.behind hfirst) hrun2
  have hfrom3 := (hfrom2.append htrace2).append (trace_entry t exception a7)
  obtain ⟨_, a8, hmark, h⟩ := bind_eq_ok.mp h
  cases hmark
  obtain ⟨_, a9, hstore, h⟩ := bind_eq_ok.mp h
  obtain ⟨is3, htrace3, hfree3⟩ := traced_storeException.trace _ _ _ _ (hfrom3.behind hfirst) hstore
  have hfrom4 := (hfrom3.append htrace3).append (trace_entry t exceptionInTls a9)
  obtain ⟨_, a10, hmark, h⟩ := bind_eq_ok.mp h
  cases hmark
  obtain ⟨_, c, hstop, h⟩ := bind_eq_ok.mp h
  obtain ⟨is4, htrace4, hfree4⟩ := (traced_stop _).trace _ _ _ _ (hfrom4.behind hfirst) hstop
  have hfrom5 := hfrom4.append htrace4
  obtain ⟨is5, htrace5, hfree5⟩ := (traced_bind _ _).trace _ _ _ _ (hfrom5.behind hfirst) h
  have hlast (name : String) : last.entries.lookup name = (a9.markEntry exceptionInTls).entries.lookup name := by
    rw [htrace5.lookup (hfree5 _), htrace4.lookup (hfree4 _)]
  have hstart : last.entries.lookup EntryPoint.deopt = some a0.buf.offset := by
    rw [hlast, lookup_markEntry_other _ (by decide), htrace3.lookup (hfree3 _), lookup_markEntry_other _ (by decide),
      htrace2.lookup (hfree2 _), lookup_markEntry_other _ (by decide), htrace1.lookup (hfree1 _), lookup_markEntry]
  refine ⟨cont, map, ?_, ⟨c, _, hfrom5, h, _, a9, ⟨_, hfrom3⟩, hstore, hstop, ?_, ?_⟩, fun name hname => ?_⟩
  · cases hlabel
    exact hstart
  · rw [hlast, lookup_markEntry_other _ (by decide), htrace3.lookup (hfree3 _), lookup_markEntry]
    rfl
  · rw [hlast, lookup_markEntry]
  · have hpost2 := (trace_entry t exception a7).append (htrace3.append
      ((trace_entry t exceptionInTls a9).append (htrace4.append htrace5)))
    rcases List.mem_cons.mp hname with rfl | hname
    · exact ⟨_, _, _, _, _, hfrom1, hrun1, (trace_entry t reexecute a4).append (htrace2.append hpost2), hstart⟩
    · rw [List.mem_singleton] at hname
      subst hname
      refine ⟨_, _, _, _, _, hfrom2, hrun2, hpost2, ?_⟩
      rw [hlast, lookup_markEntry_other _ (by decide), htrace3.lookup (hfree3 _), lookup_markEntry_other _ (by decide),
        htrace2.lookup (hfree2 _), lookup_markEntry]
      rfl

/-! ## Every entry -/

section
variable {S : Site} {u : UnrollBlock} {image top thr callerFp int float : UInt64} {m : Machine} {cont : Label}
  {map : OopMap} {a b c : Assembler}

/-- An entry that jumps to the shared code gets there. -/
theorem reaches_shared {k : UnpackKind} (hroom : DeoptRoom S.Free u image top thr)
    (hm : Entering u top thr callerFp int float m) (hrun : (stop k >>= fun _ => j cont) S.target a = .ok ((), b))
    (ha : S.Early a) (hb : S.Late b) (hat : S.At a m) (hbinds : S.Binds cont) (hto : ∀ m, S.To cont m → S.At c m) :
    ∃ m', S.world.Reaches m m' ∧ S.At c m' ∧ Stopped u top thr callerFp int float m' := by
  have hdoes : S.Does (stop k >>= fun _ => j cont) m (Exits.none.or (.label cont) (Stopped u top thr callerFp int float))
      fun _ _ => False := by
    refine .bind ((does_stop hroom hm).imp (fun _ _ h => h) fun _ m1 hm1 => does_j hbinds fun p => .inl ⟨rfl, ?_⟩)
    exact hm1.keep hroom (get_withPc ..) (get_withPc ..) fun _ _ => rfl
  obtain ⟨m', hreach, ⟨-, hnever⟩ | haway | ⟨l, hl, hstopped⟩⟩ := hdoes a () b hrun ha hb hat
  · exact hnever.elim
  · rcases haway with ⟨e, -⟩ | hnever
    · cases e
    · exact hnever.elim
  · rcases hstopped with ⟨e, hm'⟩ | hnever
    · cases e
      exact ⟨m', hreach, hto m' hl, hm'⟩
    · exact hnever.elim

/-- From the shared code the frames of the plan are reached. -/
theorem reaches_frames (hstart : S.start % 2 = 0) (hroom : DeoptRoom S.Free u image top thr)
    (hroomy : u.Roomy (senderOfFrame u top)) (hhelp : DeoptHelp S.world S.target S.Free u image top)
    (hm : Stopped u top thr callerFp int float m)
    (hrun : (Asm.bind cont >>= fun _ => unpack map) S.target c = .ok ((), S.last)) (hc : S.Early c) (hat : S.At c m) :
    ∃ m', S.world.Reaches m m' ∧ Unrolled u (senderOfFrame u top) callerFp int float m' := by
  have hdoes : S.Does (Asm.bind cont >>= fun _ => unpack map) m
      (Exits.none.or .away (Unrolled u (senderOfFrame u top) callerFp int float)) fun _ _ => False :=
    .bind (does_bindLabel (does_unpack hstart hroom hroomy hhelp hm fun m' h => .inl ⟨rfl, h⟩))
  exact hdoes.leaves hrun hc (late_of_trace (.nil _)) hat

/-- Every entry leads to the shared code, with the registers saved. -/
theorem reaches_stopped {name : String} {k : Nat} (hroom : DeoptRoom S.Free u image top thr)
    (hm : Entering u top thr callerFp int float m) (hwritten : EntriesWritten S.target cont map S.first S.last)
    (hname : name ∈ deoptEntries) (hk : S.last.entries.lookup name = some k) (hstands : S.Stands m)
    (hpc : m.pc = S.start + UInt64.ofNat k) :
    ∃ m' c, S.world.Reaches m m' ∧ S.Early c ∧ S.At c m' ∧
      (Asm.bind cont >>= fun _ => unpack map) S.target c = .ok ((), S.last) ∧
      Stopped u top thr callerFp int float m' := by
  obtain ⟨c, preC, hpreC, hrest, a, b, ⟨preA, hpreA⟩, hstore, hstop, hexception, hinTls⟩ := hwritten.shared
  obtain ⟨_, d, hbind, hunpack⟩ := bind_eq_ok.mp hrest
  have hc : S.Early c := ⟨preC, hpreC⟩
  have hbound := trace_call (c := .bind cont) trivial hbind
  obtain ⟨is, htrace, -⟩ := (traced_unpack map).trace _ _ _ _ (hc.append hbound).behind hunpack
  have hd : S.Late d := late_of_trace htrace
  obtain ⟨hbinds, hto⟩ := To.at_bind hbind hc hd
  have hcLate := hd.append hbound
  have ha : S.Early a := ⟨preA, hpreA⟩
  obtain ⟨js, hjs, -⟩ := traced_storeException.trace _ _ _ _ ha.behind hstore
  have hmark := trace_entry S.target exceptionInTls b
  have hb := (ha.append hjs).append hmark
  obtain ⟨ks, hks, -⟩ := (traced_stop .exception).trace _ _ _ _ hb.behind hstop
  have hbLate := (hcLate.append hks).append hmark
  -- the last entry runs into the shared code
  have inTls {m : Machine} (hm : Entering u top thr callerFp int float m) (hat : S.At b m) :
      ∃ m', S.world.Reaches m m' ∧ S.At c m' ∧ Stopped u top thr callerFp int float m' := by
    obtain ⟨m', hreach, ⟨hat', hm'⟩ | haway | ⟨_, _, hlabel⟩⟩ :=
      does_stop (E := Exits.none) hroom hm _ _ _ hstop hb hcLate ⟨hat.stands, hat.pc⟩
    · exact ⟨m', hreach, hat', hm'⟩
    · exact haway.elim
    · exact hlabel.elim
  have jumping (hname : name ∈ [EntryPoint.deopt, reexecute]) :
      ∃ m', S.world.Reaches m m' ∧ S.At c m' ∧ Stopped u top thr callerFp int float m' := by
    obtain ⟨kind, a, b, pre, post, hpre, hrun, hpost, hk'⟩ := hwritten.jumping name hname
    rw [hk] at hk'
    cases hk'
    exact reaches_shared hroom hm hrun ⟨pre, hpre⟩ (late_of_trace hpost) ⟨hstands, hpc⟩ hbinds hto
  have hend : ∃ m', S.world.Reaches m m' ∧ S.At c m' ∧ Stopped u top thr callerFp int float m' := by
    simp only [deoptEntries, List.mem_cons, List.not_mem_nil, or_false] at hname
    rcases hname with rfl | rfl | rfl | rfl
    · exact jumping (by decide)
    · exact jumping (by decide)
    · rw [hexception] at hk
      cases hk
      obtain ⟨m1, hreach, ⟨hat1, hm1⟩ | haway | ⟨_, _, hlabel⟩⟩ :=
        does_storeException (E := Exits.none) hroom hm _ _ _ hstore ha hbLate ⟨hstands, hpc⟩
      · obtain ⟨m', hreach', hend⟩ := inTls hm1 hat1
        exact ⟨m', hreach.trans hreach', hend⟩
      · exact haway.elim
      · exact hlabel.elim
    · rw [hinTls] at hk
      cases hk
      exact inTls hm ⟨hstands, hpc⟩
  obtain ⟨m', hreach, hat', hm'⟩ := hend
  exact ⟨m', c, hreach, hc, hat', hrest, hm'⟩

end

theorem EntriesWritten.entry {t : Target} {cont : Label} {map : OopMap} {first last : Assembler} {name : String}
    (h : EntriesWritten t cont map first last) (hname : name ∈ deoptEntries) : ∃ k,
    last.entries.lookup name = some k := by
  obtain ⟨_, _, -, -, _, _, -, -, -, hexception, hinTls⟩ := h.shared
  have jumping (hname : name ∈ [EntryPoint.deopt, reexecute]) : ∃ k, last.entries.lookup name = some k := by
    obtain ⟨_, _, _, _, _, -, -, -, hk⟩ := h.jumping name hname
    exact ⟨_, hk⟩
  simp only [deoptEntries, List.mem_cons, List.not_mem_nil, or_false] at hname
  rcases hname with rfl | rfl | rfl | rfl
  · exact jumping (by decide)
  · exact jumping (by decide)
  · exact ⟨_, hexception⟩
  · exact ⟨_, hinTls⟩

theorem deopt_entry {t : Target} {base : UInt64} {blob : CodeBlob} {name : String} (hblob : deopt t base = .ok blob)
    (hname : name ∈ deoptEntries) : ∃ off, blob.entryOffset name = .ok off := by
  obtain ⟨_, hgenerate, rfl⟩ := except_map_ok hblob
  obtain ⟨first, last, hdone, hbody⟩ := finished_generate hgenerate
  obtain ⟨cont, map, hwritten⟩ := written_deoptBody hdone.behind hbody
  obtain ⟨k, hk⟩ := hwritten.entry hname
  exact ⟨_, hdone.entry hk⟩

/-- Code that replaces compiled frames has four entries. Run from any of them, with a compiled frame on
top of the stack, among routines that keep to what is theirs, it goes on where the plan says, with the
results of the interrupted code, and the frames of the plan are on the stack, each linked to the one
before, if every frame with another on top of it has room for its four link words. -/
theorem deopt_chains_frames {t : Target} {base start : UInt64} {blob : CodeBlob} {name : String}
    (hblob : deopt t base = .ok blob) (hbase : base ≠ 0 → start = base) (heven : start % 2 = 0)
    (hname : name ∈ deoptEntries) :
    ∃ off, blob.entryOffset name = .ok off ∧ ∀ (W : World) (u : UnrollBlock) (image : UInt64) (m : Machine),
      (∀ i < blob.code.length, W (start + UInt64.ofNat i) = none) →
      blob.Stands start m → m.pc = start + off.toUInt64 →
      (∀ s ∈ u.frameSizes.dropLast, 32 ≤ s.toUInt64.toNat) →
      DeoptRoom (blob.Clear start) u image (m.get sp) (m.get thread) →
      DeoptHelp W t (blob.Clear start) u image (m.get sp) →
      ∃ m', W.Reaches m m' ∧ Unrolled u (senderOfFrame u (m.get sp))
        (m.mem.read (senderOfFrame u (m.get sp) - 16) 8) (m.get (.x 10)) (m.get (.f 10)) m' := by
  obtain ⟨⟨blob', _⟩, hgenerate, rfl⟩ := except_map_ok hblob
  obtain ⟨first, last, hdone, hbody⟩ := finished_generate hgenerate
  obtain ⟨cont, map, hwritten⟩ := written_deoptBody hdone.behind hbody
  obtain ⟨k, hk⟩ := hwritten.entry hname
  refine ⟨_, hdone.entry hk, fun W u image m hworld hstands hpc hsizes hroom hhelp => ?_⟩
  let S := hdone.site t start W hworld hbase
  have hfree : S.Free = CodeBlob.Clear blob' start := funext fun addr => propext (hdone.free_iff addr)
  have hroom' : DeoptRoom S.Free u image (m.get sp) (m.get thread) := by rw [hfree]; exact hroom
  have hhelp' : DeoptHelp S.world S.target S.Free u image (m.get sp) := by rw [hfree]; exact hhelp
  rw [Int64.toUInt64_ofNat'] at hpc
  obtain ⟨m1, c, hreach, hc, hat, hrest, hm1⟩ :=
    reaches_stopped (S := S) hroom' ⟨rfl, rfl, rfl, rfl, rfl⟩ hwritten hname hk
    ((hdone.stands_iff m).mpr hstands) hpc
  obtain ⟨m', hreach', hend⟩ := reaches_frames (S := S) heven hroom' (hroom.roomy hsizes) hhelp' hm1 hrest hc hat
  exact ⟨m', hreach.trans hreach', hend⟩

/-! ## Generating it -/

section
variable {p : Bool}

instance rehearsed_noteKind (k : UnpackKind) :
    Rehearsed p (noteKind k) p ((constSteps (deoptKind = zr) constRounds k.code.toInt64).length * 1) := by
  unfold noteKind
  infer_instance

instance rehearsed_captureValues : Rehearsed p captureValues true 13 := by
  unfold captureValues
  infer_instance

instance rehearsed_popCompiledFrame (sender : Reg) : Rehearsed p (popCompiledFrame sender) true 7 := by
  unfold popCompiledFrame
  infer_instance

instance rehearsed_pushFrames (sender : Reg) : Rehearsed p (pushFrames sender) true 19 := by
  unfold pushFrames
  infer_instance

instance rehearsed_fillFrames : Rehearsed p fillFrames true 4 := by
  unfold fillFrames
  infer_instance

instance rehearsed_finishFrames : Rehearsed p finishFrames true 20 := by
  unfold finishFrames
  infer_instance

instance rehearsed_unpack (m : OopMap) : Rehearsed p (unpack m) true 80 := by
  unfold unpack
  infer_instance

instance rehearsed_deoptBody : Rehearsed p deoptBody true 282 := by
  unfold deoptBody
  infer_instance

end

/-- A plan of two frames, the outer one of some size, with its routines. -/
def twoFrames (outer : Int64) : UnrollBlock where
  kind := .deopt
  deoptimizedFrameSize := 64
  callerAdjustment := 16
  frameSizes := [outer, 112]
  framePcs := [0x7000, 0x7100, 0x7200]
  values := []
  frames := []
  captureRoutine := 0x6000
  fillRoutine := 0x6100

/-- A routine that only returns. -/
def returning (m : Machine) : Machine := { m.set t0 0 with pc := m.get ra &&& ~~~1 }

/-- A routine that returns the image of the plan. -/
def fetching (outer : Int64) (m : Machine) : Machine :=
  { m.set (.x 10) 0xa000 with pc := m.get ra &&& ~~~1, mem := m.mem.overlay 0xa000 ((twoFrames outer).encode 0xa000) }

theorem get_fetching (outer : Int64) (m : Machine) (r : Reg) :
    (fetching outer m).get r = if r = .x 10 then 0xa000 else m.get r := by
  have hset : (fetching outer m).get r = (m.set (.x 10) 0xa000).get r := by cases r <;> rfl
  rw [hset, get_set _ (by decide)]

theorem mem_fetching (outer : Int64) (m : Machine) :
    (fetching outer m).mem = m.mem.overlay 0xa000 ((twoFrames outer).encode 0xa000) := by
  simp only [fetching]

/-- The runtime and the routines of the plan. -/
def deoptWorld (outer : Int64) : World := fun addr =>
  if addr = (RuntimeEntries.synthetic 0x10000).addr .fetchUnrollInfo then some (fetching outer)
  else if addr = 0x6000 ∨ addr = 0x6100 ∨ addr = (RuntimeEntries.synthetic 0x10000).addr .unpackFrames then some returning
  else none

/-- A machine with a compiled frame at `0x8000` and the code at `0x1000`. -/
def interrupted (code : List UInt8) (pc : UInt64) : Machine where
  x n := if n = 2 then 0x8000 else if n = 23 then 0x9000 else UInt64.ofNat n
  f n := UInt64.ofNat (100 + n)
  pc
  mem := Ram.overlay (fun addr => addr.toUInt8) 0x1000 code

theorem serves_returning {outer : Int64} {target : UInt64} (hthere : deoptWorld outer target = some returning)
    (heven : target % 2 = 0) (Kept : UInt64 → Prop) : Serves (deoptWorld outer) target Kept returning where
  there := hthere
  even := heven
  returns _ := rfl
  regs m r hr := by
    have hne : r ≠ t0 := by
      rintro rfl
      exact absurd hr (by decide)
    rw [returning, get_withPc, get_set _ (by decide), if_neg hne]
  mem m addr _ := congrFun (m.set_mem t0 0) addr

/-- Where the link words of the frames are. -/
theorem linked_twoFrames {outer : Int64} (houter : outer = 96 ∨ outer = 16) {addr : UInt64}
    (h : (twoFrames outer).Linked 0x8040 addr) : 0x7fb0 ≤ addr.toNat ∧ addr.toNat < 0x8030 := by
  obtain ⟨i, hi, ha⟩ := h
  have hi : i < 2 := hi
  have htop : i = 0 ∨ i = 1 := by omega
  have h0 : ((twoFrames outer).frameTop 0x8040 0).toNat = 0x8030 := by
    rcases houter with rfl | rfl <;> rfl
  have h1 : 0x7fd0 ≤ ((twoFrames outer).frameTop 0x8040 1).toNat ∧
    ((twoFrames outer).frameTop 0x8040 1).toNat < 0x8030 := by
    rcases houter with rfl | rfl <;> decide
  rcases htop with rfl | rfl
  · omega
  · omega

theorem image_fetching {outer : Int64} (houter : outer = 96 ∨ outer = 16) (m : Machine) :
    (twoFrames outer).Image 0xa000 (fetching outer m).mem := by
  have hlength : ((twoFrames outer).encode 0xa000).length ≤ 2 ^ 64 := by rcases houter with rfl | rfl <;> decide +kernel
  have hall := Ram.has_overlay m.mem 0xa000 hlength
  rw [← mem_fetching, ← List.take_append_drop (twoFrames outer).valuesOffset ((twoFrames outer).encode 0xa000)] at hall
  exact (Ram.has_append.mp hall).1

section
variable {outer : Int64} {Clear : UInt64 → Prop} {addr : UInt64}

theorem interrupted_twoFrames (h : Interrupted (twoFrames outer) 0x8000 addr) :
    0x7e10 ≤ addr.toNat ∧ addr.toNat < 0x8040 := by
  rcases h with h | h
  · have : 0x7e10 ≤ addr.toNat ∧ addr.toNat < 0x8000 := h
    omega
  · have : 0x8030 ≤ addr.toNat ∧ addr.toNat < 0x8040 := h
    omega

/-- There is room for the plan, whichever of two sizes the outer frame has. -/
theorem room_twoFrames (houter : outer = 96 ∨ outer = 16) (hclear : ∀ {addr : UInt64}, 0x2000 ≤ addr.toNat → Clear addr) :
    DeoptRoom Clear (twoFrames outer) 0xa000 0x8000 0x9000 := by
  have hproper : (twoFrames outer).Proper :=
    ⟨show (64 : Int64).toUInt64.toNat < 2 ^ 32 by decide, show (16 : Int64).toUInt64.toNat < 2 ^ 32 by decide,
      show 2 < 2 ^ 32 by decide, rfl⟩
  have hsave {addr : UInt64} (h : SaveFrame 0x8000 addr) : 0x7e10 ≤ addr.toNat ∧ addr.toNat < 0x8000 := h
  have hthread {addr : UInt64} (h : ThreadWords 0x9000 addr) : 0x91b0 ≤ addr.toNat ∧ addr.toNat < 0x91e8 := h
  have himage {addr : UInt64} (h : Spans (0xa000 : UInt64).toNat (twoFrames outer).valuesOffset addr) :
      0xa000 ≤ addr.toNat ∧ addr.toNat < 0xa068 := h
  have hlinked {addr : UInt64} (h : (twoFrames outer).Linked (senderOfFrame (twoFrames outer) 0x8000) addr) :
      0x7fb0 ≤ addr.toNat ∧ addr.toNat < 0x8030 := linked_twoFrames houter h
  refine ⟨hproper, show 1 ≤ 2 by decide, ?_, by decide, show 16 ≤ (64 : Int64).toUInt64.toNat by decide,
    show 0x8000 + (64 : Int64).toUInt64.toNat < 2 ^ 64 by decide, show 0xa000 + 0x68 ≤ 2 ^ 64 by decide, by decide,
    fun addr h => hclear ?_, fun addr h => hclear ?_, fun addr h => hclear ?_, fun addr h hin => ?_,
    fun addr h => ⟨fun hin => ?_, fun hin => ?_, fun hin => ?_⟩⟩
  · rcases houter with rfl | rfl <;> unfold UnrollBlock.Fits <;> decide
  · have := hsave h
    omega
  · have := hlinked h
    omega
  · have := hthread h
    omega
  · have := hlinked h
    have := himage hin
    omega
  · have := hthread h
    have := interrupted_twoFrames hin
    omega
  · have := hthread h
    have := himage hin
    omega
  · have := hthread h
    have := hlinked hin
    omega

theorem help_twoFrames (houter : outer = 96 ∨ outer = 16)
    (hclear : ∀ {addr : UInt64}, ¬ Clear addr → addr.toNat < 0x2000) :
    DeoptHelp (deoptWorld outer) ⟨{}, .synthetic 0x10000⟩ Clear (twoFrames outer) 0xa000 0x8000 := by
  have hlength : ((twoFrames outer).encode 0xa000).length ≤ 0x1000 := by rcases houter with rfl | rfl <;> decide +kernel
  have hat : (0xa000 : UInt64).toNat = 0xa000 := rfl
  have hfetching : Serves (deoptWorld outer) ((RuntimeEntries.synthetic 0x10000).addr .fetchUnrollInfo)
      (fun addr => ¬ Clear addr ∨ Interrupted (twoFrames outer) 0x8000 addr) (fetching outer) := by
    refine ⟨rfl, by decide, fun _ => rfl, fun m r hr => ?_, fun m addr h => ?_⟩
    · have hne : r ≠ .x 10 := by
        rintro rfl
        exact absurd hr (by decide)
      rw [get_fetching, if_neg hne]
    · rw [mem_fetching]
      refine Ram.overlay_apart m.mem (by omega) fun hin => ?_
      rcases h with h | h
      · have := hclear h
        omega
      · have := interrupted_twoFrames h
        omega
  exact ⟨⟨fetching outer, hfetching, fun m => ⟨by rw [get_fetching, if_pos rfl], image_fetching houter m⟩⟩,
    ⟨returning, serves_returning rfl (show (0x6000 : UInt64) % 2 = 0 by decide) _⟩,
    ⟨returning, serves_returning rfl (show (0x6100 : UInt64) % 2 = 0 by decide) _⟩,
    ⟨returning, serves_returning rfl (by decide) _⟩⟩

/-- Code that stands apart from the frames, the plan and the routines. -/
theorem twoFrames_ready (houter : outer = 96 ∨ outer = 16) : ∃ blob, deopt ⟨{}, .synthetic 0x10000⟩ 0 = .ok blob ∧
    (∀ i < blob.code.length, deoptWorld outer (0x1000 + UInt64.ofNat i) = none) ∧
    (∀ pc, blob.Stands 0x1000 (interrupted blob.code pc)) ∧
    DeoptRoom (blob.Clear 0x1000) (twoFrames outer) 0xa000 0x8000 0x9000 ∧
    DeoptHelp (deoptWorld outer) ⟨{}, .synthetic 0x10000⟩ (blob.Clear 0x1000) (twoFrames outer) 0xa000 0x8000 := by
  obtain ⟨blob, r, hgenerate, hsize⟩ : ∃ blob r, Asm.generate ⟨{}, .synthetic 0x10000⟩ "deopt_blob" 0
      ({} : Options).stubBufferSize frameSize deoptBody = .ok (blob, r) ∧ blob.code.length ≤ 4 * 282 :=
    generate_of_rehearsal (by decide +kernel) (by decide) (by decide) (by decide)
  have hblob : deopt ⟨{}, .synthetic 0x10000⟩ 0 = .ok blob := by
    rw [deopt, hgenerate]
    rfl
  have hstart : (0x1000 : UInt64).toNat = 0x1000 := rfl
  have hclear {addr : UInt64} (h : 0x2000 ≤ addr.toNat) : blob.Clear 0x1000 addr := by
    rw [CodeBlob.clear_iff (by omega)]
    omega
  refine ⟨blob, hblob, fun i hi => ?_, fun pc => CodeBlob.stands_overlay (by omega) rfl, room_twoFrames houter hclear,
    help_twoFrames houter fun h => Nat.lt_of_not_le fun hge => h (hclear hge)⟩
  have hfar {addr : UInt64} (h : 0x2000 ≤ addr.toNat) : ¬ (0x1000 + UInt64.ofNat i = addr) := by
    intro e
    have := congrArg UInt64.toNat e
    rw [toNat_off (by omega)] at this
    omega
  rw [deoptWorld, if_neg (hfar (by decide)), if_neg]
  rintro (h | h | h)
  · exact hfar (by decide) h
  · exact hfar (by decide) h
  · exact hfar (by decide) h

end

/-- The outer frame and the inner one replace the compiled frame, and the inner one goes on. -/
theorem two_frames_are_chained : ∃ blob, deopt ⟨{}, .synthetic 0x10000⟩ 0 = .ok blob ∧
    ∃ entry m', (deoptWorld 96).Reaches (interrupted blob.code entry) m' ∧ m'.pc = 0x7200 ∧ m'.get (.x 10) = 10 ∧
      m'.get (.f 10) = 110 ∧ m'.get sp = 0x7f60 ∧ m'.mem.read 0x7fc8 8 = 0x7100 ∧ m'.mem.read 0x7fc0 8 = 0x8020 := by
  obtain ⟨blob, hblob, hworld, hstands, hroom, hhelp⟩ := @twoFrames_ready 96 (.inl rfl)
  obtain ⟨off, -, hreaches⟩ := @deopt_chains_frames _ 0 0x1000 blob EntryPoint.deopt hblob (absurd rfl) (by decide)
    (by decide)
  obtain ⟨m', hreach, ⟨pc, hpc, hjumped⟩, hint, hfloat, hsp, hframes⟩ :=
    hreaches (deoptWorld 96) (twoFrames 96) 0xa000 (interrupted blob.code (0x1000 + off.toUInt64)) hworld
      (hstands _) rfl (List.forall_mem_singleton.mpr (by decide)) hroom hhelp
  have hinner := hframes 1 (by decide) 0x7100 rfl
  have hsender : senderOfFrame (twoFrames 96) ((interrupted blob.code (0x1000 + off.toUInt64)).get sp) = 0x8040 := rfl
  have hpointer : (twoFrames 96).framePointer 0x8040 1 = 0x7fc0 := by decide
  have hlink : (twoFrames 96).framePointer 0x8040 0 = 0x8020 := by decide
  rw [hsender] at hsp hinner
  rw [hpointer, UnrollBlock.linkOf, hlink] at hinner
  cases hpc
  exact ⟨blob, hblob, _, m', hreach, hjumped.even (by decide), hint, hfloat, hsp.trans (by decide),
    hinner.ret, hinner.link⟩

/-- An outer frame of sixteen bytes has no room for its link words: the word for the stack pointer of its
sender is that of the return address of the inner frame. So there is no machine with both frames linked. -/
theorem crowded_frames_are_not_chained : ∃ blob, deopt ⟨{}, .synthetic 0x10000⟩ 0 = .ok blob ∧
    ∀ name ∈ deoptEntries, ∃ off, blob.entryOffset name = .ok off ∧
      let m := interrupted blob.code (0x1000 + off.toUInt64)
      (∀ i < blob.code.length, deoptWorld 16 (0x1000 + UInt64.ofNat i) = none) ∧ blob.Stands 0x1000 m ∧
        DeoptRoom (blob.Clear 0x1000) (twoFrames 16) 0xa000 (m.get sp) (m.get thread) ∧
        DeoptHelp (deoptWorld 16) ⟨{}, .synthetic 0x10000⟩ (blob.Clear 0x1000) (twoFrames 16) 0xa000 (m.get sp) ∧
        ∀ callerFp int float m', ¬ Unrolled (twoFrames 16) (senderOfFrame (twoFrames 16) (m.get sp))
        callerFp int float m' := by
  obtain ⟨blob, hblob, hworld, hstands, hroom, hhelp⟩ := @twoFrames_ready 16 (.inr rfl)
  refine ⟨blob, hblob, fun name hname => ?_⟩
  obtain ⟨off, hoff⟩ := deopt_entry hblob hname
  refine ⟨off, hoff, hworld, hstands _, hroom, hhelp, fun callerFp int float m' h => ?_⟩
  have hsender : senderOfFrame (twoFrames 16) ((interrupted blob.code (0x1000 + off.toUInt64)).get sp) = 0x8040 := rfl
  have hframes := h.frames
  rw [hsender] at hframes
  have houter := (hframes 0 (by decide) 0x7000 rfl).sender
  have hinner := (hframes 1 (by decide) 0x7100 rfl).ret
  have hsame : (twoFrames 16).framePointer 0x8040 0 + (InterpreterShape.riscv.senderSp * 8).toUInt64 =
      (twoFrames 16).framePointer 0x8040 1 + 8 := by decide
  exact absurd (houter.symm.trans ((congrArg (m'.mem.read · 8) hsame).trans hinner)) (by decide)

end Stub

end RiscvJit
