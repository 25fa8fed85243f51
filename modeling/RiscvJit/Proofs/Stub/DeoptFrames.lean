import Mathlib.Algebra.Ring.Nat
import RiscvJit.Proofs.Stub.SavedRegisters
import RiscvJit.Stub.Deopt

/-
  RiscvJit.Proofs.Stub.DeoptFrames — reading a plan and pushing its frames.

  The image is a row of little-endian numbers. Bytes that stand in memory one after the other are
  read part by part (`Ram.has_append`), so every number of the header, and every frame size and
  return address, is read from its place (`Image.reads`). The room for values behind
  them may change, and the rest is an image still (`Image.keep`).
-/

namespace RiscvJit

/-! ## Bytes in memory -/

/-- The bytes stand in memory from an address on. -/
def Ram.Has (mem : Ram) (addr : UInt64) (bytes : List UInt8) : Prop :=
  ∀ i b, bytes[i]? = some b → mem (addr + UInt64.ofNat i) = b

section
variable {mem : Ram} {addr : UInt64} {xs ys : List UInt8}

theorem Ram.has_append : mem.Has addr (xs ++ ys) ↔
    mem.Has addr xs ∧ mem.Has (addr + UInt64.ofNat xs.length) ys := by
  constructor
  · intro h
    refine ⟨fun i b hb => h i b ?_, fun i b hb => ?_⟩
    · rw [List.getElem?_append_left (List.getElem?_eq_some_iff.mp hb).1, hb]
    · rw [off_off]
      refine h (xs.length + i) b ?_
      rw [List.getElem?_append_right (Nat.le_add_right ..), Nat.add_sub_cancel_left, hb]
  · rintro ⟨hx, hy⟩ i b hb
    by_cases hi : i < xs.length
    · rw [List.getElem?_append_left hi] at hb
      exact hx i b hb
    · obtain ⟨j, rfl⟩ : ∃ j, i = xs.length + j := ⟨i - xs.length, by omega⟩
      rw [List.getElem?_append_right (Nat.le_add_right ..), Nat.add_sub_cancel_left] at hb
      rw [← off_off]
      exact hy j b hb

theorem Ram.has_overlay (mem : Ram) (start : UInt64) {bytes : List UInt8} (h : bytes.length ≤ 2 ^ 64) :
    (mem.overlay start bytes).Has start bytes := fun _ _ hb => overlay_at mem start h hb

theorem length_littleEndian (width : Nat) (v : UInt64) : (littleEndian width v).length = width := by
  simp [littleEndian]

/-- A number that stands in memory is read, as far as its bytes go. -/
theorem Ram.Has.read {width : Nat} {v : UInt64} (h : mem.Has addr (littleEndian width v)) (hw : width ≤ 8) :
    (mem.read addr width).toNat = v.toNat % 2 ^ (8 * width) := by
  refine Ram.toNat_read mem width addr v hw fun i hi => h i _ ?_
  rw [littleEndian, List.getElem?_map, List.getElem?_range hi]
  rfl

theorem Ram.Has.long {v : UInt64} (h : mem.Has addr (littleEndian 8 v)) : mem.read addr 8 = v := by
  apply UInt64.toNat_inj.mp
  rw [h.read (by decide)]
  exact Nat.mod_eq_of_lt v.toNat_lt

theorem Ram.Has.word {v : UInt64} (h : mem.Has addr (littleEndian 4 v)) (hv : v.toNat < 2 ^ 32) :
    mem.read addr 4 = v := by
  apply UInt64.toNat_inj.mp
  rw [h.read (by decide)]
  exact Nat.mod_eq_of_lt hv

/-- Numbers one after the other are eight bytes apart. -/
theorem Ram.Has.longs {α : Type} {f : α → UInt64} {vs : List α}
    (h : mem.Has addr (vs.flatMap fun v => littleEndian 8 (f v))) {i : Nat} {v : α} (hv : vs[i]? = some v) :
    mem.read (addr + UInt64.ofNat (8 * i)) 8 = f v := by
  induction vs generalizing addr i with
  | nil => cases hv
  | cons w vs ih =>
    rw [List.flatMap_cons, Ram.has_append, length_littleEndian] at h
    cases i with
    | zero =>
      cases hv
      rw [show addr + UInt64.ofNat (8 * 0) = addr from UInt64.add_zero addr]
      exact h.1.long
    | succ i =>
      have := ih h.2 hv
      rwa [off_off, show 8 + 8 * i = 8 * (i + 1) by omega] at this

theorem length_longs {α : Type} (f : α → UInt64) (vs : List α) :
    (vs.flatMap fun v => littleEndian 8 (f v)).length = 8 * vs.length := by
  induction vs with
  | nil => rfl
  | cons v vs ih =>
    rw [List.flatMap_cons, List.length_append, length_littleEndian, ih, List.length_cons]
    omega

end

/-! ## Images -/

namespace UnrollBlock

/-- Memory holds the image of the plan, but for the room for values. -/
def Image (u : UnrollBlock) (base : UInt64) (mem : Ram) : Prop := mem.Has base ((u.encode base).take u.valuesOffset)

/-- The header fields that the code reads are not negative and fit 32 bits, and there is one return
address more than there are frames. -/
structure Proper (u : UnrollBlock) : Prop where
  frameSize : u.deoptimizedFrameSize.toUInt64.toNat < 2 ^ 32
  adjustment : u.callerAdjustment.toUInt64.toNat < 2 ^ 32
  count : u.frameCount < 2 ^ 32
  pcs : u.framePcs.length = u.frameCount + 1

section
variable {u : UnrollBlock} {base : UInt64} {mem mem' : Ram}

theorem Image.keep (h : u.Image base mem) (hbase : base.toNat + u.valuesOffset ≤ 2 ^ 64)
    (hmem : ∀ addr, Spans base.toNat u.valuesOffset addr → mem' addr = mem addr) : u.Image base mem' := by
  intro i b hb
  rw [hmem _ ?_, h i b hb]
  have hi : i < u.valuesOffset := by
    have := (List.getElem?_eq_some_iff.mp hb).1
    rw [List.length_take] at this
    omega
  exact spans_at hbase hi

/-- What is read from an image. -/
structure Reads (u : UnrollBlock) (base : UInt64) (mem : Ram) : Prop where
  frameSize : mem.read base 4 = u.deoptimizedFrameSize.toUInt64
  adjustment : mem.read (base + 4) 4 = u.callerAdjustment.toUInt64
  count : mem.read (base + 8) 4 = UInt64.ofNat u.frameCount
  sizes : mem.read (base + 16) 8 = base + UInt64.ofNat sizesOffset
  pcs : mem.read (base + 24) 8 = base + UInt64.ofNat u.pcsOffset
  capture : mem.read (base + 48) 8 = u.captureRoutine
  fill : mem.read (base + 56) 8 = u.fillRoutine
  sizeAt : ∀ i s, u.frameSizes[i]? = some s → mem.read (base + UInt64.ofNat (sizesOffset + 8 * i)) 8 = s.toUInt64
  pcAt : ∀ i pc, u.framePcs[i]? = some pc → mem.read (base + UInt64.ofNat (u.pcsOffset + 8 * i)) 8 = pc

theorem Image.reads (h : u.Image base mem) (hu : u.Proper) : u.Reads base mem := by
  unfold Image encode at h
  rw [List.take_left' ?_] at h
  · simp only [Ram.has_append, List.length_append, length_littleEndian, length_longs] at h
    obtain ⟨⟨⟨⟨⟨⟨⟨⟨⟨⟨⟨⟨hsize, hadjust⟩, hcount⟩, -⟩, hsizes⟩, hpcs⟩, -⟩, -⟩, -⟩, hcapture⟩, hfill⟩, hsizeAt⟩, hpcAt⟩ := h
    have hcount' : (Int64.ofNat u.frameCount).toUInt64 = UInt64.ofNat u.frameCount := Int64.toUInt64_ofNat' ..
    have hsmall : (UInt64.ofNat u.frameCount).toNat < 2 ^ 32 := by
      have := hu.count
      rw [UInt64.toNat_ofNat']
      omega
    refine ⟨hsize.word hu.frameSize, hadjust.word hu.adjustment, ?_, hsizes.long, hpcs.long, hcapture.long, hfill.long,
      fun i v hv => ?_, fun i v hv => ?_⟩
    · rw [hcount'] at hcount
      exact hcount.word hsmall
    · rw [← off_off]
      exact hsizeAt.longs (f := Int64.toUInt64) hv
    · rw [← off_off]
      exact hpcAt.longs (f := id) hv
  · have hlengths := length_longs id u.framePcs
    have hpcs := hu.pcs
    simp only [List.length_append, length_littleEndian, length_longs]
    rw [show u.framePcs.flatMap (littleEndian 8) = u.framePcs.flatMap fun v => littleEndian 8 (id v) from rfl, hlengths,
      hpcs, valuesOffset, pcsOffset, sizesOffset, frameCount]

end

end UnrollBlock

end RiscvJit

/-! ## Pushing the frames

The stack pointer goes down by the size of every frame (`UnrollBlock.frameTop`), so a frame has its
four link words to itself when it has room for them (`Roomy.lower`). `Pushed` says what holds when
some frames are pushed: the registers that walk over the sizes and return addresses are in step with
the stack pointer, and every frame so far is linked to the one before. One time round the loop pushes
one frame (`does_pushFrame`), so the loop pushes all of them (`does_pushFrames`). -/

namespace RiscvJit

open Site
open Reg (zr ra sp t1 fp)

/-! ## Where the frames are -/

namespace UnrollBlock

/-- The stack pointer when `i` frames are pushed, for the stack pointer of the sender. -/
def frameTop (u : UnrollBlock) (sender : UInt64) (i : Nat) : UInt64 :=
  sender - u.callerAdjustment.toUInt64 - ((u.frameSizes.take i).foldl (· + ·) 0).toUInt64

/-- The frame pointer of frame `i`. -/
def framePointer (u : UnrollBlock) (sender : UInt64) (i : Nat) : UInt64 := u.frameTop sender i - 16

/-- The frame pointer of the frame before frame `i`. -/
def linkOf (u : UnrollBlock) (sender callerFp : UInt64) : Nat → UInt64
  | 0 => callerFp
  | i + 1 => u.framePointer sender i

/-- The stack pointer of the frame before frame `i`. -/
def senderOf (u : UnrollBlock) (sender : UInt64) : Nat → UInt64
  | 0 => sender
  | i + 1 => u.frameTop sender (i + 1)

/-- Bytes of the first `i` frames. -/
def pushedBytes (u : UnrollBlock) (i : Nat) : Nat := ((u.frameSizes.take i).map fun s => s.toUInt64.toNat).sum

/-- The link words of all frames fit below the sender. -/
def Fits (u : UnrollBlock) (sender : UInt64) : Prop :=
  u.callerAdjustment.toUInt64.toNat + u.pushedBytes (u.frameCount - 1) + 32 ≤ sender.toNat

/-- Every frame but the innermost has room for its four link words, and they all fit below the sender. -/
structure Roomy (u : UnrollBlock) (sender : UInt64) : Prop where
  sizes : ∀ s ∈ u.frameSizes.dropLast, 32 ≤ s.toUInt64.toNat
  fits : u.Fits sender

/-- The address is one of the link words of a frame. -/
def Linked (u : UnrollBlock) (sender addr : UInt64) : Prop :=
  ∃ i < u.frameCount, Spans ((u.frameTop sender i).toNat - 32) 32 addr

section
variable {u : UnrollBlock} {sender : UInt64} {i j : Nat} {s : Int64}

theorem pushedBytes_succ (h : u.frameSizes[i]? = some s) :
    u.pushedBytes (i + 1) = u.pushedBytes i + s.toUInt64.toNat := by
  rw [pushedBytes, List.take_add_one, h, Option.toList_some, List.map_append, List.sum_append]
  rfl

theorem frameTop_zero : u.frameTop sender 0 = sender - u.callerAdjustment.toUInt64 := UInt64.sub_zero _

theorem frameTop_succ (h : u.frameSizes[i]? = some s) : u.frameTop sender (i + 1) = u.frameTop sender i - s.toUInt64 := by
  rw [frameTop, List.take_add_one, h, Option.toList_some, List.foldl_append, List.foldl_cons, List.foldl_nil,
    Int64.toUInt64_add, frameTop]
  grind

theorem frameTop_count : u.frameTop sender u.frameCount =
    sender - u.callerAdjustment.toUInt64 - u.totalFrameSizes.toUInt64 := by
  rw [frameTop, frameCount, List.take_length, totalFrameSizes]

namespace Roomy

variable (h : u.Roomy sender)
include h

theorem grows (hij : i < j) (hj : j < u.frameCount) : u.pushedBytes i + 32 ≤ u.pushedBytes j := by
  induction j with
  | zero => cases hij
  | succ j ih =>
    have hlt : j < u.frameSizes.dropLast.length := by rw [List.length_dropLast]; exact Nat.lt_sub_of_add_lt hj
    have := h.sizes _ (List.getElem_mem hlt)
    rw [List.getElem_dropLast] at this
    rw [pushedBytes_succ (List.getElem?_eq_getElem (Nat.lt_of_succ_lt hj))]
    rcases Nat.lt_succ_iff_lt_or_eq.mp hij with hij | rfl
    · have := ih hij (by omega)
      omega
    · omega

theorem fits_pushed (hi : i < u.frameCount) :
    u.callerAdjustment.toUInt64.toNat + u.pushedBytes i + 32 ≤ sender.toNat := by
  have hfits : _ + u.pushedBytes (u.frameCount - 1) + 32 ≤ _ := h.fits
  rcases Nat.lt_or_eq_of_le (Nat.le_sub_one_of_lt hi) with hlt | rfl
  · have := h.grows hlt (by omega)
    omega
  · exact hfits

/-- The stack pointer as a number: nothing wraps around. -/
theorem toNat_top (hi : i < u.frameCount) :
    (u.frameTop sender i).toNat + u.callerAdjustment.toUInt64.toNat + u.pushedBytes i = sender.toNat := by
  have hfits := h.fits_pushed hi
  induction i with
  | zero =>
    rw [frameTop_zero, UInt64.toNat_sub_of_le _ _ (UInt64.le_iff_toNat_le.mpr (by omega))]
    show _ + 0 = _
    omega
  | succ i ih =>
    have hlt : i < u.frameSizes.length := Nat.lt_of_succ_lt hi
    have hs := List.getElem?_eq_getElem hlt
    have hbefore := ih hlt (h.fits_pushed hlt)
    rw [pushedBytes_succ hs] at hfits ⊢
    rw [frameTop_succ hs, UInt64.toNat_sub_of_le _ _ (UInt64.le_iff_toNat_le.mpr (by omega))]
    omega

/-- Later frames are below the link words of earlier ones. -/
theorem lower (hij : i < j) (hj : j < u.frameCount) : (u.frameTop sender j).toNat + 32 ≤ (u.frameTop sender i).toNat := by
  have := h.grows hij hj
  have := h.toNat_top (Nat.lt_trans hij hj)
  have := h.toNat_top hj
  omega

/-- There is room for the link words of every frame. -/
theorem le_top (hi : i < u.frameCount) : 32 ≤ (u.frameTop sender i).toNat := by
  have := h.fits_pushed hi
  have := h.toNat_top hi
  omega

theorem toNat_pointer (hi : i < u.frameCount) : (u.framePointer sender i).toNat + 16 = (u.frameTop sender i).toNat := by
  have := h.le_top hi
  have hback : (u.framePointer sender i).toNat = _ := toNat_back (k := 16) (by omega)
  omega

end Roomy

end

end UnrollBlock

/-! ## Frames of the interpreter -/

/-- The link words of a frame: its return address, the frame pointer and the stack pointer of the
frame before, and no last stack pointer. -/
structure FrameWords (mem : Ram) (fp ret link sender : UInt64) : Prop where
  ret : mem.read (fp + 8) 8 = ret
  link : mem.read fp 8 = link
  sender : mem.read (fp + (InterpreterShape.riscv.senderSp * 8).toUInt64) 8 = sender
  last : mem.read (fp + (InterpreterShape.riscv.lastSp * 8).toUInt64) 8 = 0

theorem senderSlot_eq (a : UInt64) : a + (InterpreterShape.riscv.senderSp * 8).toUInt64 = a - UInt64.ofNat 8 :=
  add_neg_toUInt64 a 8

theorem lastSlot_eq (a : UInt64) : a + (InterpreterShape.riscv.lastSp * 8).toUInt64 = a - UInt64.ofNat 16 :=
  add_neg_toUInt64 a 16

/-- The words stay as long as their memory does. -/
theorem FrameWords.keep {mem mem' : Ram} {fp ret link sender : UInt64} (h : FrameWords mem fp ret link sender)
    (hlow : 16 ≤ fp.toNat) (hhigh : fp.toNat + 16 ≤ 2 ^ 64)
    (hmem : ∀ addr, Spans (fp.toNat - 16) 32 addr → mem' addr = mem addr) : FrameWords mem' fp ret link sender := by
  have word {a : UInt64} (hlo : fp.toNat - 16 ≤ a.toNat) (hhi : a.toNat + 8 ≤ fp.toNat + 16) :
      mem'.read a 8 = mem.read a 8 := by
    refine Ram.read_same (by omega) fun x hx => hmem x ?_
    omega
  have hret : (fp + 8).toNat = fp.toNat + 8 := toNat_off (k := 8) (by omega)
  have hsender := toNat_back (a := fp) (k := 8) (by omega)
  have hlast := toNat_back (a := fp) (k := 16) (by omega)
  refine ⟨?_, ?_, ?_, ?_⟩
  · rw [word (by omega) (by omega), h.ret]
  · rw [word (by omega) (by omega), h.link]
  · rw [word (by rw [senderSlot_eq]; omega) (by rw [senderSlot_eq]; omega), h.sender]
  · rw [word (by rw [lastSlot_eq]; omega) (by rw [lastSlot_eq]; omega), h.last]

/-- The words for the stack pointers are written under those that link the frame. -/
theorem frameWords_write {mem : Ram} {fp ret link sender : UInt64} (hlow : 16 ≤ fp.toNat) (hhigh : fp.toNat + 16 ≤ 2 ^ 64)
    (hret : mem.read (fp + 8) 8 = ret) (hlink : mem.read fp 8 = link) :
    FrameWords ((mem.write (fp - UInt64.ofNat 8) 8 sender).write (fp - UInt64.ofNat 16) 8 0) fp ret link sender := by
  have hup : (fp + 8).toNat = fp.toNat + 8 := toNat_off (k := 8) (by omega)
  have hsender := toNat_back (a := fp) (k := 8) (by omega)
  have hlast := toNat_back (a := fp) (k := 16) (by omega)
  have above {a : UInt64} (ha : fp.toNat ≤ a.toNat) (hend : a.toNat + 8 ≤ 2 ^ 64) :
      ((mem.write (fp - UInt64.ofNat 8) 8 sender).write (fp - UInt64.ofNat 16) 8 0).read a 8 = mem.read a 8 := by
    rw [Ram.read_write_off _ _ hend (by omega) (by omega), Ram.read_write_off _ _ hend (by omega) (by omega)]
  refine ⟨?_, ?_, ?_, ?_⟩
  · rw [above (by omega) (by omega), hret]
  · rw [above (Nat.le_refl _) (by omega), hlink]
  · rw [senderSlot_eq, Ram.read_write_off _ _ (by omega) (by omega) (by omega), read_write_eight]
  · rw [lastSlot_eq, read_write_eight]

namespace Stub

open Asm

/-! ## Pushing one frame -/

/-- One time round the loop that pushes frames. -/
def pushFrame (sender : Reg) : Asm Unit := do
  ld t1 (.x 28) 0
  ld ra (.x 29) 0
  enter
  addi t1 t1 (-16)
  sub sp sp t1
  sd sender fp (InterpreterShape.riscv.senderSp * 8)
  sd zr fp (InterpreterShape.riscv.lastSp * 8)
  mv sender sp
  addi (.x 28) (.x 28) 8
  addi (.x 29) (.x 29) 8
  addi (.x 30) (.x 30) (-1)

variable (sender : Reg)

theorem pushFrames_eq : pushFrames sender = (do
    let loop ← newLabel
    ld (.x 28) deoptPlan unrollLayout.frameSizes
    ld (.x 29) deoptPlan unrollLayout.framePcs
    lwu (.x 30) deoptPlan unrollLayout.numberOfFrames
    Asm.bind loop
    pushFrame sender
    branch .bne (.x 30) zr loop
    mv deoptLastPc (.x 29)) := by
  simp only [pushFrames, pushFrame, bind_assoc]

/-- A frame is entered, with its link words and as large as the block says. -/
def openFrame : Asm Unit := do
  ld t1 (.x 28) 0
  ld ra (.x 29) 0
  enter
  addi t1 t1 (-16)
  sub sp sp t1

/-- The other words of a frame, and the registers of the loop. -/
def noteFrame : Asm Unit := do
  sd sender fp (InterpreterShape.riscv.senderSp * 8)
  sd zr fp (InterpreterShape.riscv.lastSp * 8)
  mv sender sp
  addi (.x 28) (.x 28) 8
  addi (.x 29) (.x 29) 8
  addi (.x 30) (.x 30) (-1)

theorem pushFrame_eq : pushFrame sender = openFrame >>= fun _ => noteFrame sender := by
  simp only [pushFrame, openFrame, noteFrame, bind_assoc]

instance traced_openFrame : Traced openFrame := by
  unfold openFrame
  infer_instance

instance traced_noteFrame : Traced (noteFrame sender) := by
  unfold noteFrame
  infer_instance

instance traced_pushFrame : Traced (pushFrame sender) := by
  rw [pushFrame_eq]
  infer_instance

instance traced_pushFrames : Traced (pushFrames sender) := by
  rw [pushFrames_eq]
  infer_instance

/-- Registers that change while frames are pushed. -/
def pushingRegs : List Reg := [.x 28, .x 29, .x 30, .x 21, sp, fp, ra, t1]

/-- The machine when `k` frames are pushed, and what was pushed since `m0`. -/
structure Pushed (u : UnrollBlock) (image sender callerFp : UInt64) (k : Nat) (m0 m : Machine) : Prop where
  sizes : m.get (.x 28) = image + UInt64.ofNat (UnrollBlock.sizesOffset + 8 * k)
  pcs : m.get (.x 29) = image + UInt64.ofNat (u.pcsOffset + 8 * k)
  count : m.get (.x 30) = UInt64.ofNat (u.frameCount - k)
  sp : m.get sp = u.frameTop sender k
  fp : m.get fp = u.linkOf sender callerFp k
  noted : m.get (.x 21) = u.senderOf sender k
  frames : ∀ i < k, ∀ pc, u.framePcs[i]? = some pc →
    FrameWords m.mem (u.framePointer sender i) pc (u.linkOf sender callerFp i) (u.senderOf sender i)
  alters : Alters pushingRegs (u.Linked sender) m0 m

section
variable {S : Site} {m m0 : Machine} {E : Exits} {u : UnrollBlock} {image sender callerFp : UInt64} {k : Nat}

/-- The machine when a frame is entered and made as large as the block says. -/
structure FrameOpened (u : UnrollBlock) (sender callerFp pc : UInt64) (k : Nat) (m m' : Machine) : Prop where
  sp : m'.get sp = u.frameTop sender (k + 1)
  fp : m'.get fp = u.framePointer sender k
  ret : m'.mem.read (u.framePointer sender k + 8) 8 = pc
  link : m'.mem.read (u.framePointer sender k) 8 = u.linkOf sender callerFp k
  regs : ∀ r, r ∉ [Reg.sp, Reg.fp, ra, t1] → m'.get r = m.get r
  alters : Alters pushingRegs (Spans ((u.frameTop sender k).toNat - 32) 32) m m'

/-- What one time round the loop changes. -/
structure FramePushed (u : UnrollBlock) (sender callerFp pc : UInt64) (k : Nat) (m m' : Machine) : Prop where
  sizes : m'.get (.x 28) = m.get (.x 28) + 8
  pcs : m'.get (.x 29) = m.get (.x 29) + 8
  count : m'.get (.x 30) = m.get (.x 30) - UInt64.ofNat 1
  sp : m'.get sp = u.frameTop sender (k + 1)
  fp : m'.get fp = u.framePointer sender k
  noted : m'.get (.x 21) = u.frameTop sender (k + 1)
  frame : FrameWords m'.mem (u.framePointer sender k) pc (u.linkOf sender callerFp k) (u.senderOf sender k)
  alters : Alters pushingRegs (Spans ((u.frameTop sender k).toNat - 32) 32) m m'

theorem put_alters {r : Reg} {v : UInt64} {m1 m2 : Machine} {Mem : UInt64 → Prop} (h : Put r [] v m1 m2)
    (hr : r ∈ pushingRegs) :
    Alters pushingRegs Mem m1 m2 := h.alters hr (by simp)

theorem does_openFrame {s : Int64} {pc : UInt64} (hreads : u.Reads image m.mem) (hroomy : u.Roomy sender)
    (hk : k < u.frameCount)
    (hs : u.frameSizes[k]? = some s) (hpc : u.framePcs[k]? = some pc) (hfree : ∀ addr, u.Linked sender addr → S.Free addr)
    (h : Pushed u image sender callerFp k m0 m) :
    S.Does openFrame m E fun _ m' => FrameOpened u sender callerFp pc k m m' := by
  have hroom := hroomy.le_top hk
  have hpointer := hroomy.toNat_pointer hk
  have hsmall := (u.frameTop sender k).toNat_lt
  refine .bind (does_ld fun m1 h1 => .bind (does_ld fun m2 h2 => ?_))
  rw [show (0 : Int64).toUInt64 = 0 from rfl, UInt64.add_zero] at h1 h2
  rw [h.sizes, hreads.sizeAt k s hs] at h1
  rw [h1.other _, h.pcs, h1.mem, hreads.pcAt k pc hpc] at h2
  -- the registers of the loop are as before but for the two that were loaded
  have hsame {r : Reg} (ht1 : r ≠ t1) (hra : r ≠ ra) : m2.get r = m.get r := by
    rw [h2.other r hra, h1.other r ht1]
  have hsp2 : m2.get sp = u.frameTop sender k := (hsame (by decide) (by decide)).trans h.sp
  refine .bind (does_enter (by rw [hsp2]; omega) (fun addr ha => hfree addr ⟨k, hk, ?_⟩) fun m3 h3 => ?_)
  · rw [hsp2] at ha
    omega
  refine .bind (does_addi fun m4 h4 => does_sub (by decide) fun m' h' => ?_)
  have hmem : m'.mem = m3.mem := h'.mem.trans h4.mem
  refine ⟨?_, ?_, ?_, ?_, fun r hr => ?_, ?_⟩
  · have ht1 : m3.get t1 = s.toUInt64 := by
      rw [h3.alters.regs _ (by decide), h2.other _, h1.value]
    rw [h'.value, h4.value, h4.other _, h3.sp, hsp2, ht1, add_neg_toUInt64,
      show (16 : Int64).toUInt64 = 16 from rfl, UnrollBlock.frameTop_succ hs]
    grind
  · rw [h'.other _, h4.other _, h3.fp, hsp2]
    rfl
  · have hret : u.framePointer sender k + 8 = u.frameTop sender k - 8 := by
      rw [UnrollBlock.framePointer]
      grind
    rw [hret, hmem, ← hsp2, h3.savedRa, h2.value]
  · rw [hmem, UnrollBlock.framePointer, ← hsp2, h3.savedFp, hsame (by decide) (by decide), h.fp]
  · simp only [List.mem_cons, List.not_mem_nil, or_false, not_or] at hr
    rw [h'.other r hr.1, h4.other r hr.2.2.2, h3.alters.regs r (by simp [hr]), hsame hr.2.2.2 hr.2.2.1]
  · refine (put_alters h1 (by decide)).trans ((put_alters h2 (by decide)).trans ((h3.alters.mono (by decide) ?_).trans
      ((put_alters h4 (by decide)).trans (put_alters h' (by decide)))))
    intro addr ha
    rw [hsp2] at ha
    omega

theorem does_noteFrame {pc : UInt64} {m1 : Machine} (hroomy : u.Roomy sender) (hk : k < u.frameCount)
    (hfree : ∀ addr, u.Linked sender addr → S.Free addr) (hnoted : m.get (.x 21) = u.senderOf sender k)
    (h : FrameOpened u sender callerFp pc k m m1) :
    S.Does (noteFrame (.x 21)) m1 E fun _ m' => FramePushed u sender callerFp pc k m m' := by
  have hroom := hroomy.le_top hk
  have hpointer := hroomy.toNat_pointer hk
  have hsmall := (u.frameTop sender k).toNat_lt
  have hsender := toNat_back (a := u.framePointer sender k) (k := 8) (by omega)
  have hlast := toNat_back (a := u.framePointer sender k) (k := 16) (by omega)
  refine .bind (does_sdAt (by rw [h.fp, senderSlot_eq]) (by omega) (fun addr ha =>
    hfree addr ⟨k, hk, ?_⟩) fun m2 h2 => ?_)
  · omega
  refine .bind (does_sdAt (by rw [h2.rest _ List.not_mem_nil, h.fp, lastSlot_eq]) (by omega)
    (fun addr ha => hfree addr ⟨k, hk, ?_⟩) fun m3 h3 => ?_)
  · omega
  refine .bind (does_mv fun m4 h4 => .bind (does_addi fun m5 h5 =>
    .bind (does_addi fun m6 h6 => does_addi fun m' h' => ?_)))
  have hrest4 {r : Reg} (hr : r ≠ .x 21) : m4.get r = m1.get r := by
    rw [h4.other r hr, h3.rest r List.not_mem_nil, h2.rest r List.not_mem_nil]
  have hrest {r : Reg} (h28 : r ≠ .x 28) (h29 : r ≠ .x 29) (h30 : r ≠ .x 30) : m'.get r = m4.get r := by
    rw [h'.other r h30, h6.other r h29, h5.other r h28]
  have hmem : m'.mem = (m1.mem.write (u.framePointer sender k - UInt64.ofNat 8) 8 (u.senderOf sender k)).write
      (u.framePointer sender k - UInt64.ofNat 16) 8 0 := by
    rw [h'.mem, h6.mem, h5.mem, h4.mem, h3.mem, h2.mem, h.regs (.x 21) (by decide), hnoted]
    rfl
  refine ⟨?_, ?_, ?_, ?_, ?_, ?_, ?_, ?_⟩
  · rw [h'.other _, h6.other _, h5.value, hrest4 (by decide), h.regs _ (by decide)]
    rfl
  · rw [h'.other _, h6.value, h5.other _, hrest4 (by decide), h.regs _ (by decide)]
    rfl
  · rw [h'.value, h6.other _, h5.other _, hrest4 (by decide), h.regs _ (by decide), add_neg_toUInt64]
    rfl
  · rw [hrest (by decide) (by decide) (by decide), hrest4 (by decide), h.sp]
  · rw [hrest (by decide) (by decide) (by decide), hrest4 (by decide), h.fp]
  · rw [hrest (by decide) (by decide) (by decide), h4.value, h3.rest _ List.not_mem_nil, h2.rest _ List.not_mem_nil, h.sp]
  · rw [hmem]
    exact frameWords_write (by omega) (by omega) h.ret h.link
  · refine h.alters.trans ((h2.alters (by simp) (by omega) fun addr ha => ?_).trans
      ((h3.alters (by simp) (by omega) fun addr ha => ?_).trans
      ((put_alters h4 (by decide)).trans ((put_alters h5 (by decide)).trans ((put_alters h6 (by decide)).trans
        (put_alters h' (by decide)))))))
    · omega
    · omega

/-- The frames below are left as they were. -/
theorem Pushed.succ {pc : UInt64} {m' : Machine} (hroomy : u.Roomy sender) (hk : k < u.frameCount)
    (hpc : u.framePcs[k]? = some pc)
    (h : Pushed u image sender callerFp k m0 m) (h' : FramePushed u sender callerFp pc k m m') :
    Pushed u image sender callerFp (k + 1) m0 m' := by
  have hnext (a : UInt64) (n : Nat) : a + UInt64.ofNat (n + 8 * k) + 8 = a + UInt64.ofNat (n + 8 * (k + 1)) := by
    rw [show (8 : UInt64) = UInt64.ofNat 8 from rfl, off_off, Nat.add_assoc, Nat.mul_succ]
  refine ⟨?_, ?_, ?_, h'.sp, h'.fp, h'.noted, fun i hi pc' hpc' => ?_,
    h.alters.trans (h'.alters.mono (fun _ h => h) fun _ ha => ⟨k, hk, ha⟩)⟩
  · rw [h'.sizes, h.sizes, hnext]
  · rw [h'.pcs, h.pcs, hnext]
  · rw [h'.count, h.count, show u.frameCount - k = u.frameCount - (k + 1) + 1 by omega, UInt64.ofNat_add]
    exact UInt64.add_sub_cancel _ _
  · rcases Nat.lt_succ_iff_lt_or_eq.mp hi with hi | rfl
    · have hbelow := hroomy.lower hi hk
      have hpointer := hroomy.toNat_pointer (Nat.lt_trans hi hk)
      have hroom := hroomy.le_top hk
      have hsmall := (u.frameTop sender i).toNat_lt
      refine (h.frames i hi pc' hpc').keep (by omega) (by omega) fun addr ha => h'.alters.mem addr fun hin => ?_
      omega
    · rw [hpc] at hpc'
      cases hpc'
      exact h'.frame

theorem does_pushFrame (hreads : u.Reads image m.mem) (hu : u.Proper) (hroomy : u.Roomy sender) (hk : k < u.frameCount)
    (hfree : ∀ addr, u.Linked sender addr → S.Free addr) (h : Pushed u image sender callerFp k m0 m) :
    S.Does (pushFrame (.x 21)) m E fun _ m' => Pushed u image sender callerFp (k + 1) m0 m' := by
  obtain ⟨s, hs⟩ : ∃ s, u.frameSizes[k]? = some s := ⟨_, List.getElem?_eq_getElem hk⟩
  obtain ⟨pc, hpc⟩ : ∃ pc, u.framePcs[k]? = some pc := ⟨_, List.getElem?_eq_getElem (by rw [hu.pcs]; omega)⟩
  rw [pushFrame_eq]
  exact .bind ((does_openFrame hreads hroomy hk hs hpc hfree h).imp (fun _ _ h => h) fun _ m1 h1 =>
    (does_noteFrame hroomy hk hfree h.noted h1).imp (fun _ _ h => h) fun _ m' h' => h.succ hroomy hk hpc h')

/-! ## Pushing all frames -/

theorem Pushed.withPc (h : Pushed u image sender callerFp k m0 m) (p : UInt64) :
    Pushed u image sender callerFp k m0 { m with pc := p } where
  sizes := (Machine.get_withPc ..).trans h.sizes
  pcs := (Machine.get_withPc ..).trans h.pcs
  count := (Machine.get_withPc ..).trans h.count
  sp := (Machine.get_withPc ..).trans h.sp
  fp := (Machine.get_withPc ..).trans h.fp
  noted := (Machine.get_withPc ..).trans h.noted
  frames := h.frames
  alters := h.alters.withPc p

/-- The machine when all frames are pushed. -/
structure AllPushed (u : UnrollBlock) (image sender callerFp : UInt64) (m m' : Machine) : Prop where
  sp : m'.get sp = u.frameTop sender u.frameCount
  lastPc : m'.get deoptLastPc = image + UInt64.ofNat (u.pcsOffset + 8 * u.frameCount)
  frames : ∀ i < u.frameCount, ∀ pc, u.framePcs[i]? = some pc →
    FrameWords m'.mem (u.framePointer sender i) pc (u.linkOf sender callerFp i) (u.senderOf sender i)
  alters : Alters (deoptLastPc :: pushingRegs) (u.Linked sender) m m'

theorem does_pushFrames {Q : Unit → Machine → Prop} (hu : u.Proper) (hroomy : u.Roomy sender) (hcount : 1 ≤ u.frameCount)
    (hfree : ∀ addr, u.Linked sender addr → S.Free addr) (himage : u.Image image m.mem)
    (hend : image.toNat + u.valuesOffset ≤ 2 ^ 64)
    (hapart : ∀ addr, u.Linked sender addr → ¬ Spans image.toNat u.valuesOffset addr)
    (hplan : m.get deoptPlan = image) (hsp : m.get sp = u.frameTop sender 0) (hfp : m.get fp = callerFp)
    (hnoted : m.get (.x 21) = sender) (h : ∀ m', AllPushed u image sender callerFp m m' → Q () m') :
    S.Does (pushFrames (.x 21)) m E Q := by
  have hreads := himage.reads hu
  rw [pushFrames_eq]
  refine .bind (does_newLabel fun loop => .bind (does_ld fun m1 h1 =>
    .bind (does_ld fun m2 h2 => .bind (does_lwu (by decide) fun m3 h3 => ?_))))
  rw [hplan, show image + unrollLayout.frameSizes.toUInt64 = image + 16 from rfl, hreads.sizes] at h1
  rw [h1.other _, hplan, h1.mem,
    show image + unrollLayout.framePcs.toUInt64 = image + 24 from rfl, hreads.pcs] at h2
  rw [h2.other _, h1.other _, hplan, h2.mem, h1.mem,
    show image + unrollLayout.numberOfFrames.toUInt64 = image + 8 from rfl, hreads.count] at h3
  have hsame {r : Reg} (h28 : r ≠ .x 28) (h29 : r ≠ .x 29) (h30 : r ≠ .x 30) : m3.get r = m.get r := by
    rw [h3.other r h30, h2.other r h29, h1.other r h28]
  have hstart : Pushed u image sender callerFp 0 m m3 := by
    refine ⟨?_, ?_, h3.value, ?_, ?_, ?_, nofun, ?_⟩
    · rw [h3.other _, h2.other _, h1.value]
      rfl
    · rw [h3.other _, h2.value]
      rfl
    · rw [hsame (by decide) (by decide) (by decide), hsp]
    · rw [hsame (by decide) (by decide) (by decide), hfp]
      rfl
    · rw [hsame (by decide) (by decide) (by decide), hnoted]
      rfl
    · exact (h1.alters (by decide) (by simp)).trans
        ((h2.alters (by decide) (by simp)).trans (h3.alters (by decide) (by simp)))
  -- what is left to push goes down each time round
  refine Does.loop (fun left m' => ∃ k, k + left = u.frameCount ∧ 0 < left ∧ Pushed u image sender callerFp k m m')
    (fun hbinds left m4 ⟨k, hleft, hpos, hpushed⟩ => ?_) ⟨0, Nat.zero_add _, hcount, hstart⟩
  have hreads4 : u.Reads image m4.mem :=
    (himage.keep hend fun addr ha => hpushed.alters.mem addr fun hin => hapart addr hin ha).reads hu
  refine .bind ((does_pushFrame hreads4 hu hroomy (by omega) hfree hpushed).imp (fun _ _ h => h) fun _ m5 hnext => ?_)
  have htaken : Op.taken .bne (m5.get (.x 30)) (m5.get zr) = decide (k + 1 < u.frameCount) := by
    have hlt := hu.count
    rw [hnext.count]
    refine decide_eq_decide.mpr ⟨fun hne => Nat.lt_of_not_le fun hge => hne ?_, fun hlt' heq => ?_⟩
    · rw [show u.frameCount - (k + 1) = 0 by omega]
      rfl
    · have := congrArg UInt64.toNat heq
      rw [UInt64.toNat_ofNat_of_lt' (by show _ < 2 ^ 64; omega), show m5.get zr = 0 from rfl, UInt64.toNat_zero] at this
      omega
  refine .bind (does_branch rfl hbinds (fun htrue p => ?_) fun hfalse p => ?_)
  · have hlt := of_decide_eq_true (htaken.symm.trans htrue)
    exact .inl ⟨rfl, left - 1, by omega, k + 1, by omega, by omega, hnext.withPc p⟩
  · have hge := of_decide_eq_false (htaken.symm.trans hfalse)
    have hdone : k + 1 = u.frameCount := by omega
    have hall := hnext.withPc p
    rw [hdone] at hall
    refine does_mv fun m6 h6 => h m6 ⟨?_, ?_, fun i hi pc hpc => ?_, ?_⟩
    · rw [h6.other _, hall.sp]
    · rw [h6.value, hall.pcs]
    · rw [h6.mem]
      exact hall.frames i hi pc hpc
    · exact (hall.alters.mono (fun _ hr => List.mem_cons_of_mem _ hr) fun _ ha => ha).trans
        (h6.alters (by decide) (by simp))

end

end Stub

end RiscvJit
