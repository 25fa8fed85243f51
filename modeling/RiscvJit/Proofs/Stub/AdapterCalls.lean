import RiscvJit.Proofs.Code.Finished
import RiscvJit.Proofs.Stub.AdapterReach

/-
  RiscvJit.Proofs.Stub.AdapterCalls — adapters enter the other side with every argument.

  From the interpreter the stack pointer is lowered by the outgoing arguments, these are moved, and
  the method's compiled code is entered (`does_i2c`). From compiled code, when the method has none
  itself, the expression stack is made below the stack pointer and the interpreter is entered
  (`does_c2i`). The code of a signature has both ways at their entry points
  (`written_adaptersBody`), which gives the main statement (`adapters_move_arguments`).
-/

namespace RiscvJit

open Reg (sp t0 t1 t2 fp thread method esp)
open Site
open Machine (get_withPc at_withPc)
open Location
open Convention (managed placed_locate)

namespace Stub

open Asm

/-! ## From the interpreter to compiled code -/

/-- Bytes of the outgoing stack arguments, with the stack pointer aligned. -/
def outgoingBytes (slots : Nat) : Nat := (4 * slots + 15) / 16 * 16

theorem toNat_aligned (x : UInt64) : (x &&& (-stackAlignment).toUInt64).toNat = x.toNat / 16 * 16 :=
  toNat_and_not_low x.toBitVec (k := 4) (by decide)

theorem toUInt64_lowered {slots : Nat} (h : slots ≤ 516) :
    (-(alignUp (slotBytes slots) 8)).toUInt64 = -UInt64.ofNat ((4 * slots + 7) / 8 * 8) := by
  have hbytes : slotBytes slots = Int64.ofNat (4 * slots) := by
    rw [Nat.mul_comm, Int64.ofNat_mul]
    rfl
  have halign := alignUp_ofNat (n := 4 * slots) (k := 3) (by decide) (by omega)
  rw [Int64.toUInt64_neg, hbytes, show (8 : Int64) = Int64.ofNat (2 ^ 3) from rfl, halign, Int64.toUInt64_ofNat']

section
variable {S : Site} {m : Machine} {args : List AdapterArg} {n slots : Nat}

theorem does_lowerStack {E : Exits} {x : Asm Unit} {Q : Unit → Machine → Prop} [hx : Traced x]
    (hslots : slots ≤ 516) (haligned : (m.get sp).toNat % 16 = 0) (hroom : outgoingBytes slots ≤ (m.get sp).toNat)
    (h : ∀ m', (m'.get sp).toNat = (m.get sp).toNat - outgoingBytes slots →
      (∀ r, r ≠ sp → r ≠ t0 → m'.get r = m.get r) → m'.mem = m.mem → S.Does x m' E Q) :
    S.Does (if 0 < slots then do
        addImm t0 sp (-(alignUp (slotBytes slots) 8)) t0
        andi sp t0 (-stackAlignment)
        x
      else x) m E Q := by
  unfold outgoingBytes at hroom
  split
  case _ hpos =>
    refine .bind (does_addImm (by decide) (by decide) fun m1 hput1 => .bind (does_andi (by decide) fun m2 hput2 => ?_))
    refine h m2 ?_ (fun r hsp ht0 => ?_) (hput2.mem.trans hput1.mem)
    · have hlow : (m.get sp + (-(alignUp (slotBytes slots) 8)).toUInt64).toNat =
          (m.get sp).toNat - (4 * slots + 7) / 8 * 8 := by
        rw [toUInt64_lowered hslots, ← UInt64.sub_eq_add_neg, toNat_back (by omega)]
      rw [hput2.value, toNat_aligned, hput1.value, hlow, outgoingBytes]
      omega
    · rw [hput2.other r hsp, hput1.rest r ht0 (by simpa using ht0)]
  case _ hzero =>
    refine h m ?_ (fun _ _ _ => rfl) rfl
    rw [outgoingBytes, show slots = 0 by omega]
    rfl

/-- The machine at a compiled method: it has the arguments that the interpreter had. -/
structure EnteredCompiled (args : List AdapterArg) (m m' : Machine) : Prop where
  pc : m'.pc = m.mem.read (m.get method + methodLayout.fromCompiled.toUInt64) 8 &&& ~~~1
  aligned : (m'.get sp).toNat % 16 = 0
  method : m'.get method = m.get method
  args : ∀ a ∈ args, a.kind.Same (m.mem.read (m.get esp + a.interpreted.toUInt64) 8) (m'.at (m'.get sp) a.compiled)

/-- The address where the thread keeps the method that is entered. -/
def calleeTarget (m : Machine) : UInt64 := m.get thread + threadLayout.calleeTarget.toUInt64

/-- What the way to compiled code needs: an aligned stack pointer below the expression stack, and room
below it that is neither code nor where the thread keeps the method. -/
structure InterpreterReady (Clear : UInt64 → Prop) (n slots : Nat) (m : Machine) : Prop where
  aligned : (m.get sp).toNat % 16 = 0
  below : (m.get sp).toNat ≤ (m.get esp).toNat
  area : (m.get esp).toNat + 8 * n ≤ 2 ^ 64
  room : outgoingBytes slots ≤ (m.get sp).toNat
  free : ∀ addr, Spans ((m.get sp).toNat - outgoingBytes slots) (outgoingBytes slots) addr → Clear addr
  target : (calleeTarget m).toNat + 8 ≤ 2 ^ 64
  targetFree : ∀ addr, Spans (calleeTarget m).toNat 8 addr → Clear addr
  targetApart : (calleeTarget m).toNat + 8 ≤ (m.get sp).toNat - outgoingBytes slots ∨
    (m.get sp).toNat ≤ (calleeTarget m).toNat

theorem does_i2c (h : Argued args n slots) (hm : InterpreterReady S.Free n slots m) :
    S.Does (i2c args slots) m (Exits.none.or .away (EnteredCompiled args m)) fun _ _ => False := by
  have hslots := h.slots
  have hfew := h.few
  have harea := hm.area
  have hbelow := hm.below
  have hroom := hm.room
  have hout : 4 * slots ≤ outgoingBytes slots := by unfold outgoingBytes; omega
  refine .bind (does_ld fun m1 hput1 => ?_)
  have hsp1 : m1.get sp = m.get sp := hput1.rest _ (by decide) (by decide)
  refine does_lowerStack (by omega) (by rw [hsp1]; exact hm.aligned) (by rw [hsp1]; exact hroom)
    fun m2 hsp2 hrest2 hmem2 => ?_
  rw [hsp1] at hsp2
  -- all but the stack pointer and two scratch registers is as before
  have hsame {r : Reg} (h0 : r ≠ t0) (h1 : r ≠ t1) (hsp : r ≠ sp) : m2.get r = m.get r := by
    rw [hrest2 r hsp h0, hput1.other r h1]
  have hmem : m2.mem = m.mem := hmem2.trans hput1.mem
  have hesp : m2.get esp = m.get esp := hsame (by decide) (by decide) (by decide)
  refine .bind ((does_loadArgs h (by rw [hesp]; omega) (by rw [hesp]; omega) fun addr ha => hm.free addr ?_).imp
    (fun _ _ h => h) fun _ m3 ⟨hchanged, hargs⟩ => ?_)
  · omega
  · have hkept {r : Reg} (hr : r ∉ [t0, t2])
        (hne : r ∉ managed.intArgs.map Reg.x ++ managed.floatArgs.map Reg.f) (hnone : r ≠ .none) :
        m3.get r = m2.get r := by
      refine hchanged.regs r hr fun l hl => ?_
      obtain ⟨b, hb, rfl⟩ := List.mem_map.mp hl
      exact given_ne (h.given b hb) hne hnone
    have hthread : m3.get thread + threadLayout.calleeTarget.toUInt64 = calleeTarget m := by
      rw [hkept (by decide) (by decide) (by decide), hsame (by decide) (by decide) (by decide)]
      rfl
    have htarget := hm.target
    refine .bind (does_sd (fun i hi => ?_) fun m4 hstored => ?_)
    · rw [hthread]
      exact hm.targetFree _ (spans_at htarget hi)
    · rw [hthread] at hstored
      have hsp4 : m4.get sp = m2.get sp := by
        rw [hstored.rest _ List.not_mem_nil, hkept (by decide) (by decide) (by decide)]
      refine does_jr (.inl ⟨rfl, ?_, ?_, ?_, fun a ha => ?_⟩)
      · have ht1 : m4.get t1 = m1.get t1 := by
          rw [hstored.rest _ List.not_mem_nil, hkept (by decide) (by decide) (by decide),
            hrest2 _ (by decide) (by decide)]
        show m4.get t1 &&& ~~~1 = _
        rw [ht1, hput1.value]
      · rw [get_withPc, hsp4, hsp2]
        have := hm.aligned
        unfold outgoingBytes
        omega
      · rw [get_withPc, hstored.rest _ List.not_mem_nil, hkept (by decide) (by decide) (by decide),
          hsame (by decide) (by decide) (by decide)]
      · have hgiven := h.given a ha
        have hat : m4.at (m2.get sp) a.compiled = m3.at (m2.get sp) a.compiled := by
          refine hstored.at_eq List.not_mem_nil (fits_of_given hgiven (by omega)) (by omega) fun x hx htargeted => ?_
          have := spans_of_given hgiven hx
          have := hm.targetApart
          omega
        simp only [at_withPc, get_withPc]
        rw [hsp4, hat]
        have := hargs a ha
        rwa [hmem, hesp] at this

end

/-! ## From compiled code to the interpreter -/

section
variable {S : Site} {m : Machine} {E : Exits} {args : List AdapterArg} {n slots : Nat}

/-- The word that says whether the method has compiled code. -/
def methodCode (m : Machine) : UInt64 := m.get method + methodLayout.code.toUInt64

/-- A call site is only corrected when the method has compiled code. -/
theorem does_fixupCallSite {Q : Unit → Machine → Prop} (hcode : m.mem.read (methodCode m) 8 = 0)
    (h : ∀ m', (∀ r, r ≠ t0 → m'.get r = m.get r) → m'.mem = m.mem → Q () m') : S.Does fixupCallSite m E Q := by
  rw [fixupCallSite_eq]
  refine .bind (does_newLabel fun done => Does.label fun hbinds => ?_)
  refine .bind (does_ld fun m1 hput => .bind ?_)
  have hput : Put t0 [] 0 m m1 := by
    rw [← hcode]
    exact hput
  refine does_bcond rfl hbinds (fun _ p => .inl ⟨rfl, fun _ => does_pure (h _ (fun r hr => ?_) hput.mem)⟩) fun hnot => ?_
  · rw [get_withPc]
    exact hput.other r hr
  · rw [hput.value] at hnot
    cases hnot

theorem extra_pos (h : n ≤ 258) : 0 < Int64.ofNat (areaBytes n) ↔ 0 < n := by
  unfold areaBytes
  rw [Int64.lt_iff_toInt_lt, Int64.toInt_ofNat_of_lt (by omega)]
  show (0 : Int) < _ ↔ _
  omega

theorem does_makeArea {x : Asm Unit} {Q : Unit → Machine → Prop} [hx : Traced x] (hn : n ≤ 258)
    (h : ∀ m', m'.get sp = m.get sp - UInt64.ofNat (areaBytes n) → (∀ r, r ≠ sp → r ≠ t0 → m'.get r = m.get r) →
      m'.mem = m.mem → S.Does x m' E Q) :
    S.Does (if 0 < Int64.ofNat (areaBytes n) then addImm sp sp (-Int64.ofNat (areaBytes n)) t0 >>= fun _ => x else x)
      m E Q := by
  split
  case _ hpos =>
    refine .bind (does_addImm (by decide) (by decide) fun m1 hput => h m1 ?_ (fun r hsp ht0 => ?_) hput.mem)
    · rw [hput.value, Int64.toUInt64_neg, Int64.toUInt64_ofNat', ← UInt64.sub_eq_add_neg]
    · exact hput.rest r hsp (by simpa using ht0)
  case _ hzero =>
    have hn0 : n = 0 := by
      rw [extra_pos hn] at hzero
      omega
    refine h m ?_ (fun _ _ _ => rfl) rfl
    rw [hn0]
    exact (UInt64.sub_zero _).symm

/-- The address of the interpreter's entry for the method. -/
def interpreterEntry (m : Machine) : UInt64 := m.get method + methodLayout.interpreterEntry.toUInt64

/-- The machine at the interpreter's entry: it has the arguments that compiled code had, on an expression stack with room
for `n` elements. -/
structure EnteredInterpreter (args : List AdapterArg) (n : Nat) (m m' : Machine) : Prop where
  pc : m'.pc = m.mem.read (interpreterEntry m) 8 &&& ~~~1
  low : m'.get sp = m.get sp - UInt64.ofNat (areaBytes n)
  top : m'.get esp = m'.get sp
  sender : m'.get senderSp = m.get sp
  rest : ∀ r ∈ [method, Reg.ra, fp], m'.get r = m.get r
  args : ∀ a ∈ args, a.kind.SameWord (m.at (m.get sp) a.compiled) (m'.mem.read (m'.get esp + a.interpreted.toUInt64) 8)
  mem : ∀ x, ¬ Spans ((m.get sp).toNat - areaBytes n) (areaBytes n) x → m'.mem x = m.mem x

/-- What the way to the interpreter needs: a method without compiled code, stack arguments above the
stack pointer, and room below it that is neither code nor holds the interpreter's entry. -/
structure CompiledReady (Clear : UInt64 → Prop) (n slots : Nat) (m : Machine) : Prop where
  code : m.mem.read (m.get method + methodLayout.code.toUInt64) 8 = 0
  above : (m.get sp).toNat + 4 * slots ≤ 2 ^ 64
  room : areaBytes n ≤ (m.get sp).toNat
  free : ∀ addr, Spans ((m.get sp).toNat - areaBytes n) (areaBytes n) addr → Clear addr
  entry : (interpreterEntry m).toNat + 8 ≤ 2 ^ 64
  entryApart : (interpreterEntry m).toNat + 8 ≤ (m.get sp).toNat - areaBytes n ∨
    (m.get sp).toNat ≤ (interpreterEntry m).toNat

/-- What the expression stack needs: stack arguments above the stack pointer, and room below it that is neither code nor holds
the interpreter's entry. -/
structure AreaReady (Clear : UInt64 → Prop) (n slots : Nat) (m : Machine) : Prop where
  above : (m.get sp).toNat + 4 * slots ≤ 2 ^ 64
  room : areaBytes n ≤ (m.get sp).toNat
  free : ∀ addr, Spans ((m.get sp).toNat - areaBytes n) (areaBytes n) addr → Clear addr
  entry : (interpreterEntry m).toNat + 8 ≤ 2 ^ 64
  entryApart : (interpreterEntry m).toNat + 8 ≤ (m.get sp).toNat - areaBytes n ∨
    (m.get sp).toNat ≤ (interpreterEntry m).toNat

theorem AreaReady.congr {Clear : UInt64 → Prop} {m m' : Machine} (h : AreaReady Clear n slots m)
    (hsp : m'.get sp = m.get sp)
    (hmethod : m'.get method = m.get method) : AreaReady Clear n slots m' := by
  have hentry : interpreterEntry m' = interpreterEntry m := by rw [interpreterEntry, interpreterEntry, hmethod]
  constructor
  · rw [hsp]; exact h.above
  · rw [hsp]; exact h.room
  · rw [hsp]; exact h.free
  · rw [hentry]; exact h.entry
  · rw [hentry, hsp]; exact h.entryApart

theorem c2i_eq (args : List AdapterArg) (n : Nat) (skipFixup : Label) :
    c2i args n skipFixup = fixupCallSite >>= fun _ => Asm.bind skipFixup >>= fun _ => enterInterpreter args n := rfl

instance traced_enterInterpreter (args : List AdapterArg) (n : Nat) : Traced (enterInterpreter args n) := by
  unfold enterInterpreter
  infer_instance

theorem does_enterInterpreter (h : Argued args n slots) (hm : AreaReady S.Free n slots m) :
    S.Does (enterInterpreter args n) m (Exits.none.or .away (EnteredInterpreter args n m)) fun _ _ => False := by
  have hslots := h.slots
  have hfew := h.few
  have hroom := hm.room
  have habove := hm.above
  have harea : 8 * n ≤ areaBytes n := by unfold areaBytes; omega
  unfold enterInterpreter
  rw [extra_eq hfew]
  refine .bind (does_mv fun m2 hput2 => does_makeArea hfew fun m3 hsp3 hregs3 hmem3 => ?_)
  have hsp2 : m2.get sp = m.get sp := hput2.other _
  rw [hsp2] at hsp3
  -- all but the two stack pointers and a scratch register is as before
  have hsame {r : Reg} (h0 : r ≠ t0) (hsp : r ≠ sp) (hsender : r ≠ senderSp) : m3.get r = m.get r := by
    rw [hregs3 r hsp h0, hput2.other r hsender]
  have hmem : m3.mem = m.mem := hmem3.trans hput2.mem
  have hlow : (m3.get sp).toNat = (m.get sp).toNat - areaBytes n := by rw [hsp3, toNat_back hroom]
  refine .bind ((does_storeArgs (k := areaBytes n) h (Int64.toUInt64_ofNat' ..) harea (by omega) fun addr ha =>
    hm.free addr ?_).imp (fun _ _ h => h) fun _ m4 ⟨hchanged, hargs⟩ => ?_)
  · omega
  have hkept {r : Reg} (hr : r ∉ [t0, t1]) (hnone : r ≠ .none) : m4.get r = m3.get r := by
    refine hchanged.regs r hr fun l hl => ?_
    obtain ⟨b, hb, rfl⟩ := List.mem_map.mp hl
    exact hnone.symm
  refine .bind (does_mv fun m5 hput5 => .bind (does_ld fun m6 hput6 => ?_))
  have hrest {r : Reg} (h0 : r ≠ t0) (hr : r ≠ esp) : m6.get r = m4.get r := by
    rw [hput6.other r h0, hput5.other r hr]
  have hesp : m6.get esp = m3.get sp := by
    rw [hput6.other _, hput5.value, hkept (by decide) (by decide)]
  have hsp : m6.get sp = m3.get sp := by
    rw [hrest (by decide) (by decide), hkept (by decide) (by decide)]
  -- the arguments are written to the expression stack only
  have houtside (x : UInt64) (hx : ¬ Spans ((m.get sp).toNat - areaBytes n) (areaBytes n) x) : m4.mem x = m.mem x := by
    rw [← hmem]
    refine hchanged.mem x fun l hl hc => ?_
    obtain ⟨b, hb, rfl⟩ := List.mem_map.mp hl
    have := h.elements.lt b hb
    simp only [Covers] at hc
    omega
  refine does_jr (.inl ⟨rfl, ?_, ?_, ?_, ?_, fun r hr => ?_, fun a ha => ?_, fun x hx => ?_⟩)
  · have hmethod : m5.get method = m.get method := by
      rw [hput5.other _, hkept (by decide) (by decide), hsame (by decide) (by decide) (by decide)]
    have hentry := hm.entry
    have hapart := hm.entryApart
    show m6.get t0 &&& ~~~1 = _
    rw [hput6.value, hmethod, hput5.mem]
    congr 1
    refine Ram.read_same hentry fun x hx => houtside x ?_
    unfold interpreterEntry at *
    omega
  · rw [get_withPc, hsp, hsp3]
  · simp only [get_withPc]
    rw [hesp, hsp]
  · rw [get_withPc, hrest (by decide) (by decide), hkept (by decide) (by decide), hregs3 _ (by decide) (by decide),
      hput2.value]
  · have hne : ∀ r ∈ [method, Reg.ra, fp], r ≠ t0 ∧ r ≠ esp ∧ r ≠ sp ∧ r ≠ senderSp ∧ r ∉ [t0, t1] ∧
      r ≠ .none := by decide
    obtain ⟨h0, htop, hlow, hsender, hscratch, hnone⟩ := hne r hr
    rw [get_withPc, hrest h0 htop, hkept hscratch hnone, hsame h0 hlow hsender]
  · have hlt := h.elements.lt a ha
    have hfrom : m3.at (m3.get sp + (Int64.ofNat (areaBytes n)).toUInt64) a.compiled = m.at (m.get sp) a.compiled := by
      rw [hsp3, Int64.toUInt64_ofNat', UInt64.sub_add_cancel]
      cases hl : a.compiled with
      | nowhere => rfl
      | stack slot =>
        show m3.mem.read _ 8 = m.mem.read _ 8
        rw [hmem]
      | _ =>
        have hgiven := h.given a ha
        rw [hl] at hgiven
        rw [m3.at_reg _ rfl, m.at_reg _ rfl]
        exact hsame (given_ne hgiven (by decide) (by decide)) (given_ne hgiven (by decide) (by decide))
          (given_ne hgiven (by decide) (by decide))
    have hto : m6.mem.read (m3.get sp + a.interpreted.toUInt64) 8 = m4.at (m3.get sp) (.stack (2 * a.element)) := by
      rw [hput6.mem, hput5.mem, h.elements.offset a ha, Int64.toUInt64_ofNat', Machine.at, ← Nat.mul_assoc]
    simp only [get_withPc]
    rw [hesp, hto, ← hfrom]
    exact hargs a ha
  · show m6.mem x = _
    rw [hput6.mem, hput5.mem, houtside x hx]

/-- Machines that agree on arguments and memory enter the interpreter alike. -/
theorem EnteredInterpreter.idle {m1 m' : Machine} (h : EnteredInterpreter args n m1 m') (hargs : Argued args n slots)
    (hregs : ∀ r, r ≠ t0 → m1.get r = m.get r) (hmem : m1.mem = m.mem) : EnteredInterpreter args n m m' := by
  have hmethod : m1.get method = m.get method := hregs _ (by decide)
  have hsp : m1.get sp = m.get sp := hregs _ (by decide)
  refine ⟨?_, ?_, h.top, ?_, fun r hr => ?_, fun a ha => ?_, fun x hx => ?_⟩
  · rw [h.pc, interpreterEntry, hmethod, hmem]
    rfl
  · rw [h.low, hsp]
  · rw [h.sender, hsp]
  · rw [h.rest r hr, hregs r (by rintro rfl; revert hr; decide)]
  · have hone := h.args a ha
    have hgiven := hargs.given a ha
    have hat : m1.at (m1.get sp) a.compiled = m.at (m.get sp) a.compiled := by
      rw [hsp]
      cases hl : a.compiled with
      | stack slot =>
        show m1.mem.read _ 8 = m.mem.read _ 8
        rw [hmem]
      | nowhere => rfl
      | _ =>
        rw [hl] at hgiven
        rw [m1.at_reg _ rfl, m.at_reg _ rfl]
        exact hregs _ (given_ne hgiven (by decide) (by decide))
    rwa [hat] at hone
  · rw [h.mem x (by rwa [hsp]), hmem]

theorem CompiledReady.area {Clear : UInt64 → Prop} (h : CompiledReady Clear n slots m) : AreaReady Clear n slots m :=
  ⟨h.above, h.room, h.free, h.entry, h.entryApart⟩

theorem does_c2i {skipFixup : Label} (h : Argued args n slots) (hm : CompiledReady S.Free n slots m) :
    S.Does (c2i args n skipFixup) m (Exits.none.or .away (EnteredInterpreter args n m)) fun _ _ => False := by
  rw [c2i_eq]
  refine .bind (does_fixupCallSite hm.code fun m1 hregs hmem => .bind (does_bindLabel ?_))
  refine (does_enterInterpreter h (hm.area.congr (hregs _ (by decide)) (hregs _ (by decide)))).imp ?_ fun _ _ h => h
  exact fun e m' hend => hend.imp_left fun ⟨he, hentered⟩ => ⟨he, hentered.idle h hregs hmem⟩

end

/-! ## The adapters of a signature -/

section
variable {t : Target} {a a' : Assembler} {args : List AdapterArg} {slots : Nat}

theorem imm12_of_load {o : Op} {rd base : Reg} {off : Int64} (h : load o rd base off t a = .ok ((), a')) :
    isImm12 off = true := by
  obtain ⟨_, a0, hlift, -⟩ := bind_eq_ok.mp h
  exact check_eq_ok.mp (lift_eq_ok.mp hlift).1

theorem imm12_of_loadArg {arg : AdapterArg} (h : loadArg arg t a = .ok ((), a')) : isImm12 arg.interpreted = true := by
  obtain ⟨k, off, l⟩ := arg
  cases l with
  | stack slot =>
    obtain ⟨_, b, hload, -⟩ := bind_eq_ok.mp h
    exact imm12_of_load hload
  | _ => exact imm12_of_load h

theorem imm12_of_loadArgs (h : args.forM loadArg t a = .ok ((), a')) : ∀ arg ∈ args, isImm12 arg.interpreted = true := by
  induction args generalizing a with
  | nil => exact nofun
  | cons arg args ih =>
    obtain ⟨_, b, hfirst, hrest⟩ := bind_eq_ok.mp h
    intro arg' harg
    rcases List.mem_cons.mp harg with rfl | harg
    · exact imm12_of_loadArg hfirst
    · exact ih hrest arg' harg

/-- Every argument is within reach of an instruction. -/
theorem imm12_of_i2c (h : i2c args slots t a = .ok ((), a')) : ∀ arg ∈ args, isImm12 arg.interpreted = true := by
  obtain ⟨_, b, -, h⟩ := bind_eq_ok.mp h
  have rest {b : Assembler} (h : (args.forM loadArg >>= fun _ => do
      sd method thread threadLayout.calleeTarget
      jr t1) t b = .ok ((), a')) : ∀ arg ∈ args, isImm12 arg.interpreted = true := by
    obtain ⟨_, c, hargs, -⟩ := bind_eq_ok.mp h
    exact imm12_of_loadArgs hargs
  split at h
  · obtain ⟨_, c, -, h⟩ := bind_eq_ok.mp h
    obtain ⟨_, d, -, h⟩ := bind_eq_ok.mp h
    exact rest h
  · exact rest h

end

/-- Where the two ways were written. -/
structure Written (t : Target) (kinds : List ValueKind) (locs : List Location) (slots : Nat)
    (first last : Assembler) : Prop where
  small : kinds.length ≤ 258
  start : last.entries.lookup EntryPoint.i2c = some first.buf.offset
  toCompiled : ∃ a b pre post, Trace t pre first a ∧ i2c (adapterArgs kinds locs) slots t a = .ok ((), b) ∧
    Trace t post b last ∧ last.entries.lookup EntryPoint.i2c = some a.buf.offset
  toInterpreter : ∃ skipFixup, (∃ a pre, Trace t pre first a ∧
      c2i (adapterArgs kinds locs) kinds.length skipFixup t a = .ok ((), last) ∧
      last.entries.lookup EntryPoint.c2i = some a.buf.offset) ∧
    ∃ a b pre post, Trace t pre first a ∧ c2iUnverified skipFixup t a = .ok ((), b) ∧ Trace t post b last ∧
      last.entries.lookup EntryPoint.c2iUnverified = some a.buf.offset

theorem written_adaptersBody {t : Target} {kinds : List ValueKind} {locs : List Location} {slots : Nat}
    {first last : Assembler} (hlocate : managed.locate kinds = .ok (locs, slots)) (hfirst : first.Behind)
    (h : adaptersBody kinds locs slots t first = .ok ((), last)) : Written t kinds locs slots first last := by
  obtain ⟨_, a1, hmark, h⟩ := bind_eq_ok.mp h
  cases hmark
  have htrace1 := trace_entry t EntryPoint.i2c first
  obtain ⟨_, a2, hi2c, h⟩ := bind_eq_ok.mp h
  obtain ⟨is2, htrace2, hfree2⟩ := (traced_of_composed (i2c _ _)).trace _ _ _ _ (htrace1.behind hfirst) hi2c
  have hfrom2 := htrace1.append htrace2
  obtain ⟨skipFixup, a3, hlabel, h⟩ := bind_eq_ok.mp h
  obtain ⟨is3, htrace3, hfree3⟩ := traced_newLabel.trace _ _ _ _ (hfrom2.behind hfirst) hlabel
  have hfrom3 := hfrom2.append htrace3
  obtain ⟨_, a4, hmark, h⟩ := bind_eq_ok.mp h
  cases hmark
  have htrace4 := trace_entry t EntryPoint.c2iUnverified a3
  have hfrom4 := hfrom3.append htrace4
  obtain ⟨_, a5, hunverified, h⟩ := bind_eq_ok.mp h
  obtain ⟨is5, htrace5, hfree5⟩ := (traced_of_composed (c2iUnverified _)).trace _ _ _ _ (hfrom4.behind hfirst) hunverified
  have hfrom5 := hfrom4.append htrace5
  obtain ⟨_, a6, hmark, h⟩ := bind_eq_ok.mp h
  cases hmark
  have htrace6 := trace_entry t EntryPoint.c2i a5
  have hfrom6 := hfrom5.append htrace6
  obtain ⟨is7, htrace7, hfree7⟩ := (traced_of_composed (c2i _ _ _)).trace _ _ _ _ (hfrom6.behind hfirst) h
  have hstart : last.entries.lookup EntryPoint.i2c = some first.buf.offset := by
    rw [htrace7.lookup (hfree7 _), lookup_markEntry_other _ (by decide), htrace5.lookup (hfree5 _),
      lookup_markEntry_other _ (by decide), htrace3.lookup (hfree3 _), htrace2.lookup (hfree2 _), lookup_markEntry]
  refine ⟨?_, hstart, ⟨_, a2, _, _, htrace1, hi2c,
    htrace3.append (htrace4.append (htrace5.append (htrace6.append htrace7))), hstart⟩,
    ⟨skipFixup, ⟨_, _, hfrom6, h, ?_⟩, _, a5, _, _, hfrom4, hunverified, htrace6.append htrace7, ?_⟩⟩
  · have hplaced := placed_locate hlocate
    exact (length_of_reachable hplaced.length hplaced.paired (imm12_of_i2c hi2c)).1
  · rw [htrace7.lookup (hfree7 _), lookup_markEntry]
    rfl
  · rw [htrace7.lookup (hfree7 _), lookup_markEntry_other _ (by decide), htrace5.lookup (hfree5 _), lookup_markEntry]
    rfl

/-! ## Every argument arrives -/

/-- The value of an argument on the expression stack. -/
def argumentOf (kinds : List ValueKind) (m : Machine) (i : Nat) (k : ValueKind) : UInt64 :=
  m.mem.read (m.get esp + (interpreterArgOffset k (kinds.length - 1 - i)).toUInt64) 8

/-- Every argument that is not void has one value: for one machine on its expression stack, for the
other at its place, from the stack pointer on. -/
def SameArguments (kinds : List ValueKind) (locs : List Location) (interpreted compiled : Machine) : Prop :=
  ∀ (i : Nat) (k : ValueKind) (l : Location), kinds[i]? = some k → k ≠ .void → locs[i]? = some l →
    k.Same (argumentOf kinds interpreted i k) (compiled.at (compiled.get sp) l)

section
variable {t : Target} {sig : Signature} {base start : UInt64} {blob : CodeBlob} {kinds : List ValueKind}
  {locs : List Location} {slots : Nat} {first last : Assembler} {m : Machine}

theorem adapters_eq_ok (h : adapters t sig base = .ok blob) : ∃ locs slots first last,
    managed.locate sig.expanded = .ok (locs, slots) ∧ Finished base blob first last ∧
      adaptersBody sig.expanded locs slots t first = .ok ((), last) := by
  rw [adapters_eq] at h
  obtain ⟨text, -, h⟩ := except_bind_eq_ok.mp h
  obtain ⟨first, hstart, h⟩ := except_bind_eq_ok.mp h
  obtain ⟨⟨locs, slots⟩, hlocate, h⟩ := except_bind_eq_ok.mp h
  obtain ⟨⟨_, last⟩, hbody, hfinish⟩ := except_bind_eq_ok.mp h
  rw [ofFault_eq_ok] at hstart hlocate hbody
  rw [ofFailure_eq_ok] at hfinish
  exact ⟨locs, slots, first, last, hlocate, finished_of hstart hfinish, hbody⟩

/-- Every way has its entry point, and the way to compiled code comes first. -/
theorem adapters_entries (h : adapters t sig base = .ok blob) : blob.entries.lookup EntryPoint.i2c = some 0 ∧
    (∃ off, blob.entries.lookup EntryPoint.c2i = some off) ∧ ∃ off,
    blob.entries.lookup EntryPoint.c2iUnverified = some off := by
  obtain ⟨locs, slots, first, last, hlocate, hdone, hbody⟩ := adapters_eq_ok h
  obtain ⟨-, hstart, -, skipFixup, ⟨_, _, -, -, hc2i⟩, _, _, _, _, -, -, -, hunverified⟩ :=
    written_adaptersBody hlocate hdone.behind hbody
  have hplace {name : String} {off : Nat} (hoff : last.entries.lookup name = some off) : blob.entries.lookup
    name = some (Int64.ofNat off) := by
    rw [hdone.entries, lookup_map_offset, hoff]
    rfl
  refine ⟨?_, ⟨_, hplace hc2i⟩, _, hplace hunverified⟩
  rw [hplace hstart, hdone.fresh.offset]
  rfl

/-- The way to compiled code reaches it, with every argument. -/
theorem enters_compiled (hdone : Finished base blob first last) (hbase : base ≠ 0 → start = base)
    (hargs : Argued (adapterArgs kinds locs) kinds.length slots) (hwritten : Written t kinds locs slots first last)
    (hm : blob.Enters start EntryPoint.i2c m) (hready : InterpreterReady (blob.Clear start) kinds.length slots m) :
    ∃ n m', m.steps n = some m' ∧ EnteredCompiled (adapterArgs kinds locs) m m' := by
  obtain ⟨a, b, pre, post, hpre, hrun, hpost, hentry⟩ := hwritten.toCompiled
  let S := hdone.site t start World.bare (fun _ _ => rfl) hbase
  have hfree : S.Free = blob.Clear start := funext fun addr => propext (hdone.free_iff addr)
  obtain ⟨m', ⟨n, hn⟩, hend⟩ := (does_i2c (S := S) hargs (by rw [hfree]; exact hready)).leaves hrun ⟨pre, hpre⟩
    (late_of_trace (S := S) hpost) (hdone.at_entry hm hentry)
  exact ⟨n, m', (World.steps_bare n m).symm.trans hn, hend⟩

/-- The way to the interpreter reaches it, with every argument. -/
theorem enters_interpreter (hdone : Finished base blob first last) (hbase : base ≠ 0 → start = base)
    (hargs : Argued (adapterArgs kinds locs) kinds.length slots) (hwritten : Written t kinds locs slots first last)
    (hm : blob.Enters start EntryPoint.c2i m) (hready : CompiledReady (blob.Clear start) kinds.length slots m) :
    ∃ n m', m.steps n = some m' ∧ EnteredInterpreter (adapterArgs kinds locs) kinds.length m m' := by
  obtain ⟨skipFixup, ⟨a, pre, hpre, hrun, hentry⟩, -⟩ := hwritten.toInterpreter
  let S := hdone.site t start World.bare (fun _ _ => rfl) hbase
  have hfree : S.Free = blob.Clear start := funext fun addr => propext (hdone.free_iff addr)
  obtain ⟨m', ⟨n, hn⟩, hend⟩ := (does_c2i (S := S) hargs (by rw [hfree]; exact hready)).leaves hrun ⟨pre, hpre⟩
    (late_of_trace (S := S) (.nil last)) (hdone.at_entry hm hentry)
  exact ⟨n, m', (World.steps_bare n m).symm.trans hn, hend⟩

theorem EnteredCompiled.same {m' : Machine} (h : EnteredCompiled (adapterArgs kinds locs) m m') :
    SameArguments kinds locs m m' :=
  fun _ _ _ hk hvoid hl => h.args _ (mem_adapterArgs hk hvoid hl)

theorem EnteredInterpreter.same {m' : Machine} {n : Nat} (h : EnteredInterpreter (adapterArgs kinds locs) n m m') :
    SameArguments kinds locs m' m :=
  fun _ _ _ hk hvoid hl => (h.args _ (mem_adapterArgs hk hvoid hl)).same.symm

/-- The adapters of a signature move every argument, in both directions. Through both of them, one
after the other, the arguments come back to an expression stack as they were. -/
theorem adapters_move_arguments (start : UInt64) (h : adapters t sig base = .ok blob) (hbase : base ≠ 0 → start = base) :
    ∃ locs slots, managed.locate sig.expanded = .ok (locs, slots) ∧
      (∀ m, blob.Enters start EntryPoint.i2c m → InterpreterReady (blob.Clear start) sig.expanded.length slots m →
        ∃ n m', m.steps n = some m' ∧
          Jumped m' (m.mem.read (m.get method + methodLayout.fromCompiled.toUInt64) 8) ∧
          (m'.get sp).toNat % 16 = 0 ∧ m'.get method = m.get method ∧ SameArguments sig.expanded locs m m' ∧
          ∀ pc, blob.Enters start EntryPoint.c2i { m' with pc } →
            CompiledReady (blob.Clear start) sig.expanded.length slots { m' with pc } →
            ∃ n m'', ({ m' with pc } : Machine).steps n = some m'' ∧
              ∀ (i : Nat) (k : ValueKind), sig.expanded[i]? = some k → k ≠ .void →
                k.Same (argumentOf sig.expanded m i k) (argumentOf sig.expanded m'' i k)) ∧
      ∀ m, blob.Enters start EntryPoint.c2i m → CompiledReady (blob.Clear start) sig.expanded.length slots m →
        ∃ n m', m.steps n = some m' ∧
          Jumped m' (m.mem.read (m.get method + methodLayout.interpreterEntry.toUInt64) 8) ∧
          m'.get esp = m'.get sp ∧ m'.get senderSp = m.get sp ∧ SameArguments sig.expanded locs m' m := by
  obtain ⟨locs, slots, first, last, hlocate, hdone, hbody⟩ := adapters_eq_ok h
  have hwritten := written_adaptersBody hlocate hdone.behind hbody
  have hargs := argued_adapterArgs hlocate hwritten.small
  refine ⟨locs, slots, hlocate, fun m hm hready => ?_, fun m hm hready => ?_⟩
  · obtain ⟨n, m', hsteps, hend⟩ := enters_compiled hdone hbase hargs hwritten hm hready
    refine ⟨n, m', hsteps, jumped_of_pc hend.pc, hend.aligned, hend.method, hend.same, fun pc hm' hready' => ?_⟩
    obtain ⟨n', m'', hsteps', hend'⟩ := enters_interpreter hdone hbase hargs hwritten hm' hready'
    refine ⟨n', m'', hsteps', fun i k hk hvoid => ?_⟩
    -- the place in between is the same for both ways
    obtain ⟨l, hl⟩ : ∃ l, locs[i]? = some l := by
      have hlen := (placed_locate hlocate).length
      exact ⟨_, List.getElem?_eq_getElem (by rw [hlen]; exact (List.getElem?_eq_some_iff.mp hk).1)⟩
    have hback := hend'.same i k l hk hvoid hl
    simp only [at_withPc, get_withPc] at hback
    exact (hend.same i k l hk hvoid hl).trans hback.symm
  · obtain ⟨n, m', hsteps, hend⟩ := enters_interpreter hdone hbase hargs hwritten hm hready
    exact ⟨n, m', hsteps, jumped_of_pc hend.pc, hend.top, hend.sender, hend.same⟩

end

/-- Nine longs and a float: one long is passed on the stack. -/
def ninePassed : Signature := ⟨List.replicate 9 ValueKind.long ++ [.float], .void⟩

theorem legal_ninePassed : ninePassed.Legal where
  args k hk := by
    rcases List.mem_append.mp hk with hk | hk
    · rw [List.eq_of_mem_replicate hk]
      exact ⟨nofun, nofun, nofun⟩
    · rw [List.mem_singleton.mp hk]
      exact ⟨nofun, nofun, nofun⟩
  ret := .inl rfl
  few := by decide

/-- Memory of a method without code at `0x4000`, and of a stack that holds the low bytes of its addresses. -/
def passedMemory : Ram := fun addr =>
  if addr = 0x4039 then 0x70 else if addr = 0x4041 then 0x60 else if addr < 0x8000 then 0 else addr.toUInt8

/-- A machine with adapters at `0x1000`. -/
def passing (code : List UInt8) (pc : UInt64) : Machine where
  x n := if n = 2 then 0x8000 else if n = 20 then 0x8100 else if n = 23 then 0x9000 else if n = 31 then 0x4000
    else UInt64.ofNat n
  f n := UInt64.ofNat (100 + n)
  pc
  mem := passedMemory.overlay 0x1000 code

/-- Longs in a register and on the stack, and the float, go to compiled code and to the interpreter. -/
theorem nine_are_passed : ∃ blob, adapters ⟨{}, .synthetic 0x10000⟩ ninePassed 0 = .ok blob ∧
    (∃ n m', (passing blob.code 0x1000).steps n = some m' ∧ m'.pc = 0x7000 ∧ m'.get (.x 11) = 0x8f8e8d8c8b8a8988 ∧
      m'.at (m'.get sp) (.stack 0) = 0x0f0e0d0c0b0a0908 ∧ (m'.get (.f 10)).toUInt32 = 0x03020100) ∧
    ∃ entry n m', (passing blob.code entry).steps n = some m' ∧ m'.pc = 0x6000 ∧ m'.get senderSp = 0x8000 ∧
      m'.mem.read (m'.get esp + 136) 8 = 11 ∧ m'.mem.read (m'.get esp + 8) 8 = 0x0706050403020100 := by
  obtain ⟨blob, hblob, hsize⟩ := adapters_exist (t := ⟨{}, .synthetic 0x10000⟩) 0
    (addressed_synthetic (by decide) (by decide)) legal_ninePassed
    (by decide) (by decide) (by decide)
  have hroom : blob.code.length ≤ 0x1000 := Nat.le_trans hsize (by decide)
  obtain ⟨hi2c, ⟨off, hoff⟩, -⟩ := adapters_entries hblob
  obtain ⟨locs, slots, hlocate, hto, hfrom⟩ := adapters_move_arguments 0x1000 hblob (absurd rfl)
  have hplaces : managed.locate ninePassed.expanded = .ok ([.int 11, .nowhere, .int 12, .nowhere, .int 13,
      .nowhere, .int 14, .nowhere, .int 15, .nowhere, .int 16, .nowhere, .int 17, .nowhere, .int 10, .nowhere, .stack 0,
      .nowhere, .float 10], 2) := rfl
  rw [hplaces] at hlocate
  cases hlocate
  have hstart : (0x1000 : UInt64).toNat = 0x1000 := rfl
  have hstands (pc : UInt64) : blob.Stands 0x1000 (passing blob.code pc) :=
    CodeBlob.stands_overlay (by omega) rfl
  have hclear {lo n : Nat} (hlo : 0x2000 ≤ lo) (addr : UInt64) (h : Spans lo n addr) : blob.Clear 0x1000 addr := by
    rw [CodeBlob.clear_iff (by omega)]
    omega
  have hsp (pc : UInt64) : (passing blob.code pc).get sp = 0x8000 := rfl
  have hesp (pc : UInt64) : (passing blob.code pc).get esp = 0x8100 := rfl
  have htarget (pc : UInt64) : calleeTarget (passing blob.code pc) = 0x91c0 := rfl
  have hentry (pc : UInt64) : interpreterEntry (passing blob.code pc) = 0x4040 := rfl
  have hread (pc addr : UInt64) (h : 0x2000 ≤ addr.toNat) (hend : addr.toNat + 8 ≤ 2 ^ 64) :
      (passing blob.code pc).mem.read addr 8 = passedMemory.read addr 8 :=
    Ram.read_overlay passedMemory (by omega) hend (by omega)
  refine ⟨blob, hblob, ?_, ?_⟩
  · have hm : blob.Enters 0x1000 EntryPoint.i2c (passing blob.code 0x1000) :=
      ⟨hstands _, 0, by rw [CodeBlob.entryOffset, hi2c], rfl⟩
    have hready : InterpreterReady (blob.Clear 0x1000) ninePassed.expanded.length 2 (passing blob.code 0x1000) := by
      refine ⟨?_, ?_, ?_, ?_, ?_, ?_, ?_, ?_⟩ <;> simp only [hsp, hesp, htarget]
      · decide
      · decide
      · decide
      · decide
      · exact hclear (by decide)
      · decide
      · exact hclear (by decide)
      · decide
    obtain ⟨n, m', hn, hpc, -, -, hsame, -⟩ := hto _ hm hready
    have htarget : (passing blob.code 0x1000).mem.read 0x4038 8 = 0x7000 :=
      (hread _ _ (by decide) (by decide)).trans (by decide +kernel)
    have hlong : argumentOf ninePassed.expanded (passing blob.code 0x1000) 0 .long = 0x8f8e8d8c8b8a8988 :=
      (hread _ 0x8188 (by decide) (by decide)).trans (by decide +kernel)
    have hninth : argumentOf ninePassed.expanded (passing blob.code 0x1000) 16 .long = 0x0f0e0d0c0b0a0908 :=
      (hread _ 0x8108 (by decide) (by decide)).trans (by decide +kernel)
    have hfloat : argumentOf ninePassed.expanded (passing blob.code 0x1000) 18 .float = 0x0706050403020100 :=
      (hread _ 0x8100 (by decide) (by decide)).trans (by decide +kernel)
    have h0 : _ = m'.get (.x 11) := hsame 0 .long (.int 11) rfl (by simp) rfl
    have h16 : _ = m'.at (m'.get sp) (.stack 0) := hsame 16 .long (.stack 0) rfl (by simp) rfl
    have h18 : _ = (m'.get (.f 10)).toUInt32 := hsame 18 .float (.float 10) rfl (by simp) rfl
    rw [hlong] at h0
    rw [hninth] at h16
    rw [hfloat] at h18
    refine ⟨n, m', hn, (hpc.even ?_).trans htarget, h0.symm, h16.symm, h18.symm⟩
    exact (congrArg (· % 2) htarget).trans (by decide)
  · have hm : blob.Enters 0x1000 EntryPoint.c2i (passing blob.code (0x1000 + off.toUInt64)) :=
      ⟨hstands _, off, by rw [CodeBlob.entryOffset, hoff], rfl⟩
    have hready : CompiledReady (blob.Clear 0x1000) ninePassed.expanded.length 2
        (passing blob.code (0x1000 + off.toUInt64)) := by
      refine ⟨(hread _ 0x4048 (by decide) (by decide)).trans (by decide +kernel), ?_, ?_, ?_, ?_, ?_⟩ <;>
        simp only [hsp, hentry]
      · decide
      · decide
      · exact hclear (by decide)
      · decide
      · decide
    obtain ⟨n, m', hn, hpc, -, hsender, hsame⟩ := hfrom _ hm hready
    have htarget : (passing blob.code (0x1000 + off.toUInt64)).mem.read 0x4040 8 = 0x6000 :=
      (hread _ _ (by decide) (by decide)).trans (by decide +kernel)
    have hninth : (passing blob.code (0x1000 + off.toUInt64)).at 0x8000 (.stack 0) = 0x0706050403020100 :=
      (hread _ 0x8000 (by decide) (by decide)).trans (by decide +kernel)
    have h0 : m'.mem.read (m'.get esp + 136) 8 = 11 := hsame 0 .long (.int 11) rfl (by simp) rfl
    have h16 : m'.mem.read (m'.get esp + 8) 8 = _ := hsame 16 .long (.stack 0) rfl (by simp) rfl
    refine ⟨_, n, m', hn, (hpc.even ?_).trans htarget, hsender, h0, h16.trans hninth⟩
    exact (congrArg (· % 2) htarget).trans (by decide)

end Stub

end RiscvJit
