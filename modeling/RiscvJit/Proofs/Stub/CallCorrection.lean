import RiscvJit.Proofs.Code.Compressed
import RiscvJit.Proofs.Stub.AdapterCalls

/-
  RiscvJit.Proofs.Stub.CallCorrection — the method that is entered does not see that its call site was corrected.

  A routine that corrects call sites may change every register that callers save and all memory below its
  stack pointer (`Corrects`). The adapter calls it with its own frame and the registers of arguments on the
  stack, so afterwards these, the linkage and the caller's memory are as before (`Conserved`, `does_correction`).
  The way to the interpreter reads nothing else; so what arrives there is the same as if the method had no
  code (`EnteredInterpreter.sameEntry`).

  The entry for calls through an inline cache compares the receiver's class with that of the holder and looks
  for code of the holder's method. It leaves for the miss routine, or goes on behind the correction
  (`does_c2iUnverified`). Its run calls nothing, so it is followed instruction by instruction until it is
  outside the code (`CodeBlob.Leaves`).

  Main statement: `corrections_are_invisible`.
-/

namespace RiscvJit

open Reg (ra sp t0 t1 t2 fp method esp)
open Machine (steps get_withPc get_withMem at_reg get_set set_mem)
open Site
open CodeBlob

/-! ## Runs up to the end of the code -/

/-- The run of the machine leaves the code, there. -/
def CodeBlob.Leaves (b : CodeBlob) (start : UInt64) (m m' : Machine) : Prop :=
  ∃ n, m.steps n = some m' ∧ b.Clear start m'.pc ∧ ∀ k < n, ∃ m1, m.steps k = some m1 ∧ ¬ b.Clear start m1.pc

instance (b : CodeBlob) (start addr : UInt64) : Decidable (b.Clear start addr) :=
  inferInstanceAs (Decidable (∀ i < b.code.length, addr ≠ start + UInt64.ofNat i))

/-- A world in which machines stop outside the code. -/
def CodeBlob.alone (b : CodeBlob) (start : UInt64) : World := fun addr => if b.Clear start addr then some id else none

theorem CodeBlob.alone_inside (b : CodeBlob) (start : UInt64) :
    ∀ i < b.code.length, b.alone start (start + UInt64.ofNat i) = none :=
  fun i hi => if_neg fun hclear => hclear i hi rfl

/-- Where a machine stops that stops outside the code, the code is left. -/
theorem CodeBlob.leaves_of_reaches {b : CodeBlob} {start : UInt64} {m m' : Machine} (h : (b.alone start).Reaches m m')
    (hout : b.Clear start m'.pc) : b.Leaves start m m' := by
  obtain ⟨n, hn⟩ := h
  induction n generalizing m with
  | zero =>
    cases hn
    exact ⟨0, rfl, hout, fun k hk => absurd hk (Nat.not_lt_zero k)⟩
  | succ n ih =>
    obtain ⟨m1, hstep, hrest⟩ := Option.bind_eq_some_iff.mp hn
    unfold World.step alone at hstep
    by_cases hclear : b.Clear start m.pc
    · rw [if_pos hclear] at hstep
      cases hstep
      exact ih hrest
    · rw [if_neg hclear] at hstep
      change m.step = some m1 at hstep
      obtain ⟨k, hk, -, hinside⟩ := ih hrest
      refine ⟨k + 1, ?_, hout, fun j hj => ?_⟩
      · show m.step.bind (steps k) = _
        rw [hstep]
        exact hk
      · cases j with
        | zero => exact ⟨m, rfl, hclear⟩
        | succ j =>
          obtain ⟨m2, hm2, hin⟩ := hinside j (Nat.lt_of_succ_lt_succ hj)
          refine ⟨m2, ?_, hin⟩
          show m.step.bind (steps j) = _
          rw [hstep]
          exact hm2

namespace Stub

open Asm

/-! ## Correcting the call site -/

/-- A routine of the runtime that corrects call sites: it returns, and keeps the registers that callees save, the code, and the
memory from its stack pointer on. -/
structure Corrects (W : World) (target : UInt64) (Clear : UInt64 → Prop) (routine : Machine → Machine) : Prop where
  there : W target = some routine
  even : target % 2 = 0
  returns : ∀ m, (routine m).pc = m.get ra &&& ~~~1
  regs : ∀ m, ∀ r ∈ calleeSaved, (routine m).get r = m.get r
  code : ∀ m x, ¬ Clear x → (routine m).mem x = m.mem x
  above : ∀ m x, (m.get sp).toNat ≤ x.toNat → (routine m).mem x = m.mem x

/-- What a callee finds: the registers of arguments and those that it saves, the return address, and the
caller's memory. -/
structure Conserved (m m' : Machine) : Prop where
  regs : ∀ r ∈ ra :: (argumentRegs ++ calleeSaved), m'.get r = m.get r
  mem : ∀ x, (m.get sp).toNat ≤ x.toNat → m'.mem x = m.mem x

/-- Bytes below the stack pointer for correcting a call site: a frame, and the registers of arguments. -/
def correctionBytes : Nat := 160

section
variable {S : Site} {m m1 : Machine} {E : Exits} {args : List AdapterArg} {n slots : Nat} {routine : Machine → Machine}

variable {Q : Unit → Machine → Prop} {m' : Machine}

theorem does_correct {e : RuntimeEntry} (hs : Corrects S.world (S.target.runtime.addr e) S.Free routine)
    (hstart : S.start % 2 = 0) (h : ∀ m', (∀ r ∈ calleeSaved, m'.get r = m.get r) →
      (∀ x, (m.get sp).toNat ≤ x.toNat → m'.mem x = m.mem x) → Q () m') : S.Does (rtCall e) m E Q := by
  refine .bind (does_entryAddress (does_routine [t0] hstart (fun a a' hrun ha ha' hat => ?_) hs.there
    fun m1 ret _ hcalled => ⟨hs.returns m1, hs.code m1, h _ (fun r hr => ?_) fun x hx => ?_⟩))
  · exact farCall_reaches (by decide) hs.even hstart hrun ha ha' hat
  · have hother : ∀ r ∈ calleeSaved, r ≠ ra ∧ r ∉ [t0] := by decide
    rw [hs.regs m1 r hr, hcalled.rest r (hother r hr).1 (hother r hr).2]
  · rw [← hcalled.rest sp (by decide) (by decide)] at hx
    rw [hs.above m1 x hx, hcalled.mem]

/-- Whether or not the call site is corrected, the callee finds what the caller left for it. -/
theorem does_correction (hs : Corrects S.world (S.target.runtime.addr .fixupCallersCallsite) S.Free routine)
    (hstart : S.start % 2 = 0) (hroom : correctionBytes ≤ (m.get sp).toNat)
    (hfree : ∀ x, Spans ((m.get sp).toNat - correctionBytes) correctionBytes x → S.Free x)
    (h : ∀ m', Conserved m m' → Q () m') : S.Does fixupCallSite m E Q := by
  unfold correctionBytes at hroom hfree
  have hsp := (m.get sp).toNat_lt
  rw [fixupCallSite_eq]
  refine .bind (does_newLabel fun done => Does.label fun hbinds => ?_)
  refine .bind (does_ld fun m1 h1 => .bind (does_bcond rfl hbinds (fun _ p => .inl ⟨rfl, fun _ =>
    does_pure (h _ ⟨fun r hr => ?_, fun x _ => ?_⟩)⟩) fun _ p => ?_))
  · have hne : ∀ r ∈ ra :: (argumentRegs ++ calleeSaved), r ≠ t0 := by decide
    exact h1.other r (hne r hr)
  · show m1.mem x = _
    rw [h1.mem]
  have hregs1 {r : Reg} (hr : r ≠ t0) : ({ m1 with pc := p } : Machine).get r = m.get r :=
    (get_withPc ..).trans (h1.other r hr)
  have hsp1 : ({ m1 with pc := p } : Machine).get sp = m.get sp := hregs1 (by decide)
  have hmem1 : ({ m1 with pc := p } : Machine).mem = m.mem := h1.mem
  generalize ({ m1 with pc := p } : Machine) = m1 at *
  refine .bind (does_enter (by rw [hsp1]; omega) (fun x hx => hfree x (by rw [hsp1] at hx; omega))
    fun m2 h2 => ?_)
  have hlow2 : (m2.get sp).toNat = (m.get sp).toNat - 16 := by
    rw [h2.sp, hsp1]
    exact toNat_back (k := 16) (by omega)
  refine .bind (does_pushRegs saveable_argumentRegs (by omega) (fun x hx => hfree x (by omega))
    fun _ m3 h3 => ?_)
  have hlow3 : (m3.get sp).toNat = (m.get sp).toNat - 160 := by rw [h3.sp, toNat_back (by omega), hlow2]; omega
  refine .bind (does_mv fun m4 h4 => .bind (does_ld fun m5 h5 => ?_))
  have hmem5 : m5.mem = m3.mem := h5.mem.trans h4.mem
  have hregs5 {r : Reg} (hr : r ∉ [Reg.x 10, .x 11]) : m5.get r = m3.get r := by
    simp only [List.mem_cons, List.not_mem_nil, or_false, not_or] at hr
    rw [h5.other r hr.2, h4.other r hr.1]
  refine .bind (does_correct hs hstart fun m6 hregs6 hmem6 => .bind (does_popRegs saveable_argumentRegs fun m7 h7 =>
    does_leave fun m8 h₈ => does_pure (h m8 ?_)))
  -- what was pushed lies above the routine's stack pointer
  have hkept {x : UInt64} (hx : (m.get sp).toNat - 160 ≤ x.toNat) : m6.mem x = m3.mem x := by
    rw [hmem6 x (by rwa [hregs5 (by decide), hlow3]), hmem5]
  have hsp6 : m6.get sp = m2.get sp - UInt64.ofNat 144 := by rw [hregs6 _ (by decide), hregs5 (by decide), h3.sp]
  -- registers that are neither pushed nor the two stack pointers
  have hother : ∀ r ∈ calleeSaved, r ∉ argumentRegs → r ∉ [sp, fp] → m7.get r = m.get r := by
    intro r hr hpushed hstack
    have hne : ∀ r ∈ calleeSaved, r ∉ argumentRegs → r ∉ [Reg.x 10, .x 11] ∧ r ≠ t0 := by decide
    obtain ⟨hargs, h0⟩ := hne r hr hpushed
    have hstack' : r ≠ sp := fun e => hstack (by rw [e]; exact List.mem_cons_self)
    rw [h7.rest r (by simp only [List.mem_cons, not_or]; exact ⟨hstack', hpushed⟩), hregs6 r hr,
      hregs5 hargs, h3.rest r hstack', h2.alters.regs r hstack, hregs1 h0]
  have hpushed : ∀ r ∈ argumentRegs, m7.get r = m.get r := by
    intro r hr
    obtain ⟨i, hi⟩ := List.mem_iff_getElem?.mp hr
    have hlt : i < 18 := (List.getElem?_eq_some_iff.mp hi).1
    have haddr : (m2.get sp - UInt64.ofNat 144 + UInt64.ofNat (8 * i)).toNat = (m.get sp).toNat - 160 + 8 * i := by
      rw [toNat_off (by rw [toNat_back (by omega)]; omega), toNat_back (by omega), hlow2]
      omega
    have hne : ∀ r ∈ argumentRegs, r ∉ [sp, fp] ∧ r ≠ t0 := by decide
    rw [h7.words i r hi, hsp6, ← hregs1 (hne r hr).2, ← h2.alters.regs r (hne r hr).1, ← h3.words i r hi]
    refine Ram.read_same (by omega) fun x hx => hkept ?_
    rw [haddr] at hx
    omega
  have hfp7 : m7.get fp = m.get sp - 16 := by
    rw [h7.rest fp (by decide), hregs6 fp (by decide), hregs5 (by decide), h3.rest fp (by decide), h2.fp, hsp1]
  have hlink {k : Nat} (hk : k ≤ 16) (h8 : 8 ≤ k) : m7.mem.read (m.get sp - UInt64.ofNat k) 8 =
      m2.mem.read (m.get sp - UInt64.ofNat k) 8 := by
    have haddr : (m.get sp - UInt64.ofNat k).toNat = (m.get sp).toNat - k := toNat_back (by omega)
    refine Ram.read_same (by omega) fun x hx => ?_
    rw [haddr] at hx
    rw [h7.mem, hkept (by omega), h3.mem x (by omega)]
  refine ⟨fun r hr => ?_, fun x hx => ?_⟩
  · by_cases hlinkage : r ∈ [sp, fp, ra]
    · have hcases : r = sp ∨ r = fp ∨ r = ra := by simpa using hlinkage
      rcases hcases with rfl | rfl | rfl
      · rw [h₈.sp, hfp7]
        exact UInt64.sub_add_cancel ..
      · rw [h₈.fp, hfp7]
        refine (hlink (k := 16) (by decide) (by decide)).trans ?_
        rw [← hregs1 (show fp ≠ t0 by decide), ← h2.savedFp, hsp1]
        rfl
      · rw [h₈.ra, hfp7, show m.get sp - 16 + 8 = m.get sp - UInt64.ofNat 8 by grind]
        refine (hlink (k := 8) (by decide) (by decide)).trans ?_
        rw [← hregs1 (show ra ≠ t0 by decide), ← h2.savedRa, hsp1]
        rfl
    · rw [h₈.alters.regs r hlinkage]
      by_cases hr' : r ∈ argumentRegs
      · exact hpushed r hr'
      · have hsaved : ∀ r ∈ ra :: (argumentRegs ++ calleeSaved), r ∉ [sp, fp, ra] → r ∉ argumentRegs →
          r ∈ calleeSaved ∧ r ∉ [sp, fp] := by
          decide
        obtain ⟨hcallee, hstack⟩ := hsaved r hr hlinkage hr'
        exact hother r hcallee hr' hstack
  · rw [h₈.alters.mem x not_false, h7.mem, hkept (by omega), h3.mem x (by omega),
      h2.alters.mem x (by rw [hsp1]; omega), hmem1]

/-! ## The way to the interpreter -/

/-- Arguments are found where they were. -/
theorem Conserved.at_eq (h : Conserved m m1) (hargs : Argued args n slots)
    (habove : (m.get sp).toNat + 4 * slots ≤ 2 ^ 64)
    {a : AdapterArg} (ha : a ∈ args) : m1.at (m1.get sp) a.compiled = m.at (m.get sp) a.compiled := by
  have hsp : m1.get sp = m.get sp := h.regs _ (by decide)
  have hgiven := hargs.given a ha
  rw [hsp]
  cases hl : a.compiled with
  | nowhere => rfl
  | stack slot =>
    rw [hl] at hgiven
    have hle : slot + 2 ≤ slots := hgiven.2
    have haddr : (m.get sp + UInt64.ofNat (4 * slot)).toNat = (m.get sp).toNat + 4 * slot := toNat_off (by omega)
    refine Ram.read_same (by omega) fun x hx => h.mem x ?_
    omega
  | int k =>
    rw [hl] at hgiven
    rw [m1.at_reg _ rfl, m.at_reg _ rfl]
    refine h.regs _ (List.mem_cons_of_mem _ (List.mem_append_left _ (List.mem_append_left _ (List.mem_append_left _ ?_))))
    exact List.mem_map_of_mem hgiven
  | float k =>
    rw [hl] at hgiven
    rw [m1.at_reg _ rfl, m.at_reg _ rfl]
    refine h.regs _ (List.mem_cons_of_mem _ (List.mem_append_left _
      (List.mem_append_left _ (List.mem_append_right _ ?_))))
    exact List.mem_map_of_mem hgiven

/-- What the adapter needs when the call site may be corrected: room for the correction, and the word that says whether the
method has code apart from the adapter and from the arguments on the stack. -/
structure CallReady (Clear : UInt64 → Prop) (n slots : Nat) (m : Machine) : Prop where
  area : AreaReady Clear n slots m
  room : correctionBytes ≤ (m.get sp).toNat
  free : ∀ x, Spans ((m.get sp).toNat - correctionBytes) correctionBytes x → Clear x
  code : (methodCode m).toNat + 8 ≤ 2 ^ 64
  codeFree : ∀ x, Spans (methodCode m).toNat 8 x → Clear x
  codeApart : (methodCode m).toNat + 8 ≤ (m.get sp).toNat ∨ (m.get sp).toNat + 4 * slots ≤ (methodCode m).toNat

/-- The machine before its method had code. -/
def withoutCode (m : Machine) : Machine := { m with mem := m.mem.write (methodCode m) 8 0 }

/-- Two machines make the same call: the method, the linkage and the arguments are the same. -/
structure SameCall (args : List AdapterArg) (m m' : Machine) : Prop where
  regs : ∀ r ∈ [method, ra, fp, sp], m'.get r = m.get r
  args : ∀ a ∈ args, m'.at (m'.get sp) a.compiled = m.at (m.get sp) a.compiled

theorem SameCall.symm (h : SameCall args m m') : SameCall args m' m :=
  ⟨fun r hr => (h.regs r hr).symm, fun a ha => (h.args a ha).symm⟩

theorem SameCall.trans (h : SameCall args m m1) (h' : SameCall args m1 m') : SameCall args m m' :=
  ⟨fun r hr => (h'.regs r hr).trans (h.regs r hr), fun a ha => (h'.args a ha).trans (h.args a ha)⟩

theorem Conserved.sameCall (h : Conserved m m1) (hargs : Argued args n slots)
    (habove : (m.get sp).toNat + 4 * slots ≤ 2 ^ 64) :
    SameCall args m m1 := by
  have hsub : ∀ r ∈ [method, ra, fp, sp], r ∈ ra :: (argumentRegs ++ calleeSaved) := by decide
  exact ⟨fun r hr => h.regs r (hsub r hr), fun a ha => h.at_eq hargs habove ha⟩

theorem sameCall_withoutCode {Clear : UInt64 → Prop} (hargs : Argued args n slots) (hm : CallReady Clear n slots m) :
    SameCall args m (withoutCode m) := by
  have habove := hm.area.above
  have hcode := hm.code
  have hapart := hm.codeApart
  refine ⟨fun r _ => get_withMem .., fun a ha => ?_⟩
  have hgiven := hargs.given a ha
  rw [show (withoutCode m).get sp = m.get sp from get_withMem ..]
  cases hl : a.compiled with
  | stack slot =>
    rw [hl] at hgiven
    have hle : slot + 2 ≤ slots := hgiven.2
    have haddr : (m.get sp + UInt64.ofNat (4 * slot)).toNat = (m.get sp).toNat + 4 * slot := toNat_off (by omega)
    exact Ram.read_write_off _ _ (by omega) (by omega) (by omega)
  | nowhere => rfl
  | _ =>
    rw [at_reg _ _ rfl, m.at_reg _ rfl]
    exact get_withMem ..

/-- The adapter hands the call to the interpreter, as it was made. -/
theorem does_c2iCorrected {skipFixup : Label} (h : Argued args n slots)
    (hs : Corrects S.world (S.target.runtime.addr .fixupCallersCallsite) S.Free routine) (hstart : S.start % 2 = 0)
    (hm : CallReady S.Free n slots m) :
    S.Does (c2i args n skipFixup) m
      (Exits.none.or .away fun m' => ∃ m1, SameCall args m m1 ∧ AreaReady S.Free n slots m1 ∧
      EnteredInterpreter args n m1 m')
      fun _ _ => False := by
  rw [c2i_eq]
  refine .bind (does_correction hs hstart hm.room hm.free fun m1 hcarried => .bind (does_bindLabel ?_))
  have hready : AreaReady S.Free n slots m1 := hm.area.congr (hcarried.regs _ (by decide)) (hcarried.regs _ (by decide))
  refine (does_enterInterpreter h hready).imp ?_ fun _ _ h => h
  exact fun e m' hend => hend.imp_left fun ⟨he, hentered⟩ =>
    ⟨he, m1, hcarried.sameCall h hm.area.above, hready, hentered⟩

/-- The machine is where its method is interpreted. -/
def AtInterpreter (m : Machine) : Prop := Jumped m (m.mem.read (interpreterEntry m) 8)

theorem EnteredInterpreter.atInterpreter {Clear : UInt64 → Prop} (h : EnteredInterpreter args n m m')
    (hm : AreaReady Clear n slots m) : AtInterpreter m' := by
  have hmethod : interpreterEntry m' = interpreterEntry m := by
    rw [interpreterEntry, h.rest method (by decide)]
    rfl
  have hroom := hm.room
  have hentry := hm.entry
  have hapart := hm.entryApart
  refine jumped_of_pc ?_
  rw [hmethod, h.pc, Ram.read_same hentry fun x hx => h.mem x ?_]
  omega

/-! ## Calls through an inline cache -/

/-- The method of the holder that the inline cache refers to. -/
def heldMethod (m : Machine) : UInt64 := m.mem.read (m.get t1 + holderLayout.metadata.toUInt64) 8

/-- The machine with the holder's method. -/
def holding (m : Machine) : Machine := m.set method (heldMethod m)

/-- The receiver, in the first register of arguments, is not of the holder's class, or the holder's method
has code by now. -/
def Misses (o : Options) (m : Machine) : Prop :=
  o.klassAt m.mem (m.get (.x 11)) ≠ m.mem.read (m.get t1 + holderLayout.klass.toUInt64) 8 ∨
    m.mem.read (methodCode (holding m)) 8 ≠ 0

/-- After the check: the holder's method is there, and all but two scratch registers are as before. -/
structure Checked (m m' : Machine) : Prop where
  regs : ∀ r, r ∉ [t0, t2] → m'.get r = (holding m).get r
  mem : m'.mem = m.mem

/-- The check goes to the miss routine, or on behind the correction. -/
theorem does_c2iUnverified {skipFixup : Label} (hopts : S.target.opts.refusal? = none)
    (heven : S.target.runtime.addr .icMissStub % 2 = 0) (hstart : S.start % 2 = 0) (hl : S.Binds skipFixup)
    (hmiss : ∀ m', m'.pc = S.target.runtime.addr .icMissStub → Misses S.target.opts m → Checked m m' → E .away m')
    (hhit : ∀ m', ¬ Misses S.target.opts m → Checked m m' → E (.label skipFixup) m') :
    S.Does (c2iUnverified skipFixup) m E Q := by
  rw [c2iUnverified_eq]
  refine .bind (does_newLabel fun ok => Does.label fun hok => ?_)
  refine .bind (does_loadKlass hopts (by decide) (by decide) (by decide) fun m1 h1 => .bind (does_ld fun m2 h2 =>
    .bind (does_ld fun m3 h3 => ?_)))
  have hholder : m2.get t1 = m.get t1 := by
    rw [h2.other _, h1.rest _ (by decide) (by decide)]
  have hmem : m3.mem = m.mem := h3.mem.trans (h2.mem.trans h1.mem)
  have hchecked : Checked m m3 := by
    refine ⟨fun r hr => ?_, hmem⟩
    simp only [List.mem_cons, List.not_mem_nil, or_false, not_or] at hr
    rw [holding, get_set _ (by decide)]
    split
    case _ he => rw [he, h3.value, hholder, h2.mem, h1.mem, heldMethod]
    case _ he => rw [h3.other r he, h2.other r hr.2, h1.rest r hr.1 (by simpa using hr.2)]
  have hreceiver : m3.get t0 = S.target.opts.klassAt m.mem (m.get (.x 11)) := by
    rw [h3.other _, h2.other _, h1.value]
  have hclass : m3.get t2 = m.mem.read (m.get t1 + holderLayout.klass.toUInt64) 8 := by
    rw [h3.other _, h2.value, h1.rest _ (by decide) (by decide), h1.mem]
  -- a jump to the miss routine changes a scratch register
  have leaves {m4 m' : Machine} (h4 : Checked m m4) {pc : UInt64}
      (hleft : Site.Left [t0] (S.target.runtime.addr .icMissStub) { m4 with pc } m') : Checked m m' := by
    refine ⟨fun r hr => ?_, hleft.mem.trans h4.mem⟩
    simp only [List.mem_cons, List.not_mem_nil, or_false, not_or] at hr
    rw [hleft.rest r (by simpa using hr.1), get_withPc, h4.regs r (by simpa using hr)]
  refine .bind (does_branch rfl hok (fun htaken p => .inl ⟨rfl, fun _ => ?_⟩) fun hnot p => ?_)
  · have hsame : m3.get t0 = m3.get t2 := of_decide_eq_true htaken
    refine .bind (does_ld fun m4 h4 => ?_)
    have hchecked4 : Checked m m4 := by
      refine ⟨fun r hr => ?_, h4.mem.trans hmem⟩
      have hr0 : r ≠ t0 := by
        rintro rfl
        exact hr List.mem_cons_self
      rw [h4.other r hr0]
      exact hchecked.regs r hr
    have hcode : m4.get t0 = m.mem.read (methodCode (holding m)) 8 := by
      rw [h4.value]
      show m3.mem.read (m3.get method + _) 8 = _
      rw [hmem, hchecked.regs method (by decide)]
      rfl
    refine .bind (does_bcond rfl hl (fun hnull p' =>
      hhit _ ?_ ⟨fun r hr => hchecked4.regs r hr, hchecked4.mem⟩) fun hsome p' => ?_)
    · rw [Misses, ← hreceiver, ← hclass, ← hcode, not_or, not_not, not_not]
      exact ⟨hsame, of_decide_eq_true hnull⟩
    · refine does_rtJump heven hstart fun m' hleft => hmiss m' hleft.pc (.inr ?_) (leaves hchecked4 hleft)
      rw [← hcode]
      exact of_decide_eq_false hsome
  · refine does_rtJump heven hstart fun m' hleft => .inr (hmiss m' hleft.pc (.inl ?_) (leaves hchecked hleft))
    rw [← hreceiver, ← hclass]
    exact of_decide_eq_false hnot

theorem Checked.sameCall (h : Checked m m1) (hargs : Argued args n slots) : SameCall args (holding m) m1 := by
  have hsp : m1.get sp = (holding m).get sp := h.regs _ (by decide)
  have hmem : m1.mem = (holding m).mem := by
    rw [h.mem, holding, set_mem]
  have hne : ∀ r ∈ [method, ra, fp, sp], r ∉ [t0, t2] := by decide
  refine ⟨fun r hr => h.regs r (hne r hr), fun a ha => ?_⟩
  have hgiven := hargs.given a ha
  rw [hsp]
  cases hl : a.compiled with
  | stack slot =>
    show m1.mem.read _ 8 = (holding m).mem.read _ 8
    rw [hmem]
  | nowhere => rfl
  | _ =>
    rw [hl] at hgiven
    rw [m1.at_reg _ rfl, at_reg _ _ rfl]
    refine h.regs _ ?_
    simp only [List.mem_cons, List.not_mem_nil, or_false, not_or]
    exact ⟨given_ne hgiven (by decide) (by decide), given_ne hgiven (by decide) (by decide)⟩

end

/-! ## What the interpreter finds -/

/-- The interpreter finds the same in two machines: the method, the linkage, the caller's stack pointer, and
the arguments. -/
structure SameEntry (kinds : List ValueKind) (m m' : Machine) : Prop where
  regs : ∀ r ∈ [method, ra, fp, sp, senderSp, esp], m'.get r = m.get r
  args : ∀ (i : Nat) (k : ValueKind), kinds[i]? = some k → k ≠ .void →
    k.SameWord (argumentOf kinds m i k) (argumentOf kinds m' i k)

section
variable {t : Target} {sig : Signature} {base start : UInt64} {blob : CodeBlob} {kinds : List ValueKind}
  {locs : List Location} {slots n : Nat} {first last : Assembler} {m m1 m2 m' m'' : Machine}

theorem EnteredInterpreter.sameEntry (h : EnteredInterpreter (adapterArgs kinds locs) n m1 m')
    (h' : EnteredInterpreter (adapterArgs kinds locs) n m2 m'') (hsame : SameCall (adapterArgs kinds locs) m1 m2)
    (hlen : locs.length = kinds.length) : SameEntry kinds m' m'' := by
  have hsp : m''.get sp = m'.get sp := by rw [h'.low, h.low, hsame.regs sp (by decide)]
  refine ⟨fun r hr => ?_, fun i k hk hvoid => ?_⟩
  · have hrest {r : Reg} (hr : r ∈ [method, ra, fp]) (hr' : r ∈ [method, ra, fp, sp]) : m''.get r = m'.get r := by
      rw [h'.rest r hr, h.rest r hr, hsame.regs r hr']
    simp only [List.mem_cons, List.not_mem_nil, or_false] at hr
    rcases hr with rfl | rfl | rfl | rfl | rfl | rfl
    · exact hrest (by decide) (by decide)
    · exact hrest (by decide) (by decide)
    · exact hrest (by decide) (by decide)
    · exact hsp
    · rw [h'.sender, h.sender, hsame.regs sp (by decide)]
    · rw [h'.top, h.top, hsp]
  · obtain ⟨l, hl⟩ : ∃ l, locs[i]? = some l :=
      ⟨_, List.getElem?_eq_getElem (by rw [hlen]; exact (List.getElem?_eq_some_iff.mp hk).1)⟩
    have hmem := mem_adapterArgs hk hvoid hl
    have hto := h'.args _ hmem
    rw [hsame.args _ hmem] at hto
    exact (h.args _ hmem).symm.trans hto

/-- The adapter leads to the interpreter, with the call that was made. -/
theorem enters_corrected {W : World} {routine : Machine → Machine} (hdone : Finished base blob first last)
    (hbase : base ≠ 0 → start = base)
    (hargs : Argued (adapterArgs kinds locs) kinds.length slots) (hwritten : Written t kinds locs slots first last)
    (hclear : ∀ i < blob.code.length, W (start + UInt64.ofNat i) = none) (hstart : start % 2 = 0)
    (hs : Corrects W (t.runtime.addr .fixupCallersCallsite) (blob.Clear start) routine)
    (hm : blob.Enters start EntryPoint.c2i m)
    (hready : CallReady (blob.Clear start) kinds.length slots m) :
    ∃ m' m1, W.Reaches m m' ∧ AtInterpreter m' ∧ SameCall (adapterArgs kinds locs) m m1 ∧
      EnteredInterpreter (adapterArgs kinds locs) kinds.length m1 m' := by
  obtain ⟨skipFixup, ⟨a, pre, hpre, hrun, hentry⟩, -⟩ := hwritten.toInterpreter
  let S := hdone.site t start W hclear hbase
  have hfree : S.Free = blob.Clear start := funext fun addr => propext (hdone.free_iff addr)
  obtain ⟨m', hreach, m1, hsame, harea, hentered⟩ := (does_c2iCorrected (S := S) hargs (by rw [hfree]; exact hs) hstart
    (by rw [hfree]; exact hready)).leaves hrun ⟨pre, hpre⟩ (late_of_trace (S := S) (.nil last)) (hdone.at_entry hm hentry)
  exact ⟨m', m1, hreach, hentered.atInterpreter harea, hsame, hentered⟩

/-- What calls through an inline cache need: the interpreter's entry for the holder's method and the miss routine are different
addresses outside the adapter. -/
structure CacheReady (Clear : UInt64 → Prop) (miss : UInt64) (n slots : Nat) (m : Machine) : Prop where
  area : AreaReady Clear n slots (holding m)
  even : miss % 2 = 0
  outside : Clear miss
  entry : Clear (m.mem.read (interpreterEntry (holding m)) 8 &&& ~~~1)
  apart : m.mem.read (interpreterEntry (holding m)) 8 &&& ~~~1 ≠ miss

/-- The check leads to the miss routine, or to the interpreter. -/
theorem enters_checked (hopts : t.opts.refusal? = none) (hdone : Finished base blob first last)
    (hbase : base ≠ 0 → start = base)
    (hargs : Argued (adapterArgs kinds locs) kinds.length slots) (hwritten : Written t kinds locs slots first last)
    (hstart : start % 2 = 0) (hm : blob.Enters start EntryPoint.c2iUnverified m)
    (hready : CacheReady (blob.Clear start) (t.runtime.addr .icMissStub) kinds.length slots m) :
    ∃ m', blob.Leaves start m m' ∧
      (m'.pc = t.runtime.addr .icMissStub ∧ Misses t.opts m ∧ Checked m m' ∨
        m'.pc = m.mem.read (interpreterEntry (holding m)) 8 &&& ~~~1 ∧ ¬ Misses t.opts m ∧
          ∃ m1, SameCall (adapterArgs kinds locs) (holding m) m1 ∧
          EnteredInterpreter (adapterArgs kinds locs) kinds.length m1 m') := by
  obtain ⟨skipFixup, ⟨a, pre, hpre, hrun, -⟩, a', b', pre', post', hpre', hrun', hpost', hentry'⟩ :=
    hwritten.toInterpreter
  let S := hdone.site t start (blob.alone start) (blob.alone_inside start) hbase
  have hfree : S.Free = blob.Clear start := funext fun addr => propext (hdone.free_iff addr)
  -- the way behind the correction is part of the code
  have hbehind : S.Contains (Asm.bind skipFixup >>= fun _ => enterInterpreter (adapterArgs kinds locs) kinds.length) := by
    rw [c2i_eq] at hrun
    obtain ⟨_, b, hfix, hrest⟩ := bind_eq_ok.mp hrun
    obtain ⟨is, htrace, -⟩ := (traced_of_composed fixupCallSite).trace _ _ _ _ (hpre.behind hdone.behind) hfix
    exact ⟨b, (), last, hrest, ⟨_, hpre.append htrace⟩, late_of_trace (S := S) (.nil last)⟩
  have hdoes : S.Does (c2iUnverified skipFixup) m (Exits.none.or .away fun m' =>
      m'.pc = t.runtime.addr .icMissStub ∧ Misses t.opts m ∧ Checked m m' ∨
        m'.pc = m.mem.read (interpreterEntry (holding m)) 8 &&& ~~~1 ∧ ¬ Misses t.opts m ∧
          ∃ m1, SameCall (adapterArgs kinds locs) (holding m) m1 ∧
          EnteredInterpreter (adapterArgs kinds locs) kinds.length m1 m')
      fun _ _ => False := by
    refine Does.onward (l := skipFixup) (P := fun m1 => ¬ Misses t.opts m ∧ Checked m m1)
      (does_c2iUnverified hopts hready.even hstart hbehind.binds (fun m' hpc hmisses hchecked => ?_)
      fun m' hhit hchecked => .inl ⟨rfl, hhit, hchecked⟩)
      fun m1 hto ⟨hhit, hchecked⟩ => ?_
    · exact .inr (.inl ⟨rfl, .inl ⟨hpc, hmisses, hchecked⟩⟩)
    · have harea : AreaReady S.Free kinds.length slots m1 := by
        rw [hfree]
        exact hready.area.congr (hchecked.regs _ (by decide)) (hchecked.regs _ (by decide))
      refine hbehind.goesOn hto ((does_enterInterpreter hargs harea).imp ?_ fun _ _ h => h)
      refine fun e m' hend => hend.imp_left fun ⟨he, hentered⟩ =>
        ⟨he, .inr ⟨?_, hhit, m1, hchecked.sameCall hargs, hentered⟩⟩
      rw [hentered.pc, interpreterEntry, hchecked.regs method (by decide), hchecked.mem]
      rfl
  obtain ⟨m', hreach, hend⟩ := hdoes.leaves hrun' ⟨pre', hpre'⟩ (late_of_trace (S := S) hpost')
    (hdone.at_entry hm hentry')
  refine ⟨m', leaves_of_reaches hreach ?_, hend⟩
  rcases hend with ⟨hpc, -⟩ | ⟨hpc, -⟩
  · rw [hpc]
    exact hready.outside
  · rw [hpc]
    exact hready.entry

/-- A method that has no code is entered in the interpreter. -/
theorem leaves_for_interpreter (hdone : Finished base blob first last) (hbase : base ≠ 0 → start = base)
    (hargs : Argued (adapterArgs kinds locs) kinds.length slots) (hwritten : Written t kinds locs slots first last)
    (hm : blob.Enters start EntryPoint.c2i m) (hready : CompiledReady (blob.Clear start) kinds.length slots m)
    (hout : blob.Clear start (m.mem.read (interpreterEntry m) 8 &&& ~~~1)) :
    ∃ m', blob.Leaves start m m' ∧ EnteredInterpreter (adapterArgs kinds locs) kinds.length m m' := by
  obtain ⟨skipFixup, ⟨a, pre, hpre, hrun, hentry⟩, -⟩ := hwritten.toInterpreter
  let S := hdone.site t start (blob.alone start) (blob.alone_inside start) hbase
  have hfree : S.Free = blob.Clear start := funext fun addr => propext (hdone.free_iff addr)
  obtain ⟨m', hreach, hend⟩ := (does_c2i (S := S) hargs (by rw [hfree]; exact hready)).leaves hrun ⟨pre, hpre⟩
    (late_of_trace (S := S) (.nil last)) (hdone.at_entry hm hentry)
  exact ⟨m', leaves_of_reaches hreach (by rw [hend.pc]; exact hout), hend⟩

/-- Correcting the call site is invisible to the method that is entered: whatever the routine does to registers that callers
save and to memory below its stack pointer, the interpreter finds what it finds for a method without code. A call through an
inline cache leaves the adapter for the miss routine exactly if the receiver's class is not the holder's or the holder's
method has code; otherwise the interpreter finds what it finds after a call of the holder's method. -/
theorem corrections_are_invisible (start : UInt64) (h : adapters t sig base = .ok blob) (hopts : t.opts.refusal? = none)
    (hbase : base ≠ 0 → start = base) (hstart : start % 2 = 0) :
    ∃ locs slots, Convention.managed.locate sig.expanded = .ok (locs, slots) ∧
      (∀ (W : World) (routine : Machine → Machine), (∀ i < blob.code.length, W (start + UInt64.ofNat i) = none) →
        Corrects W (t.runtime.addr .fixupCallersCallsite) (blob.Clear start) routine →
        ∀ m, blob.Enters start EntryPoint.c2i m → CallReady (blob.Clear start) sig.expanded.length slots m →
          ∃ m' m'', W.Reaches m m' ∧ W.Reaches (withoutCode m) m'' ∧ AtInterpreter m' ∧ AtInterpreter m'' ∧
            (∀ r ∈ [method, ra, fp], m'.get r = m.get r) ∧ m'.get senderSp = m.get sp ∧ SameEntry sig.expanded m'' m') ∧
      ∀ m, blob.Enters start EntryPoint.c2iUnverified m →
        CacheReady (blob.Clear start) (t.runtime.addr .icMissStub) sig.expanded.length slots m →
        ∃ m', blob.Leaves start m m' ∧ (m'.pc = t.runtime.addr .icMissStub ↔ Misses t.opts m) ∧
          (Misses t.opts m → Checked m m') ∧
          (¬ Misses t.opts m → ∀ pc, blob.Enters start EntryPoint.c2i { holding m with pc } →
            ∃ m'', blob.Leaves start { holding m with pc } m'' ∧ m''.pc = m'.pc ∧ SameEntry sig.expanded m'' m') := by
  obtain ⟨locs, slots, first, last, hlocate, hdone, hbody⟩ := adapters_eq_ok h
  have hwritten := written_adaptersBody hlocate hdone.behind hbody
  have hargs := argued_adapterArgs hlocate hwritten.small
  have hlen := (Convention.placed_locate hlocate).length
  refine ⟨locs, slots, hlocate, fun W routine hclear hs m hm hready => ?_, fun m hm hready => ?_⟩
  · have hm0 : blob.Enters start EntryPoint.c2i (withoutCode m) := by
      refine ⟨hm.1.keep fun addr hcode => ?_, hm.2⟩
      exact Ram.write_apart _ _ hready.code fun hin => hcode (hready.codeFree addr hin)
    have hready0 : CallReady (blob.Clear start) sig.expanded.length slots (withoutCode m) :=
      ⟨hready.area.congr (get_withMem ..) (get_withMem ..), hready.room, hready.free, hready.code, hready.codeFree,
        hready.codeApart⟩
    obtain ⟨m', m1, hreach, hat, hsame, hentered⟩ :=
      enters_corrected hdone hbase hargs hwritten hclear hstart hs hm hready
    obtain ⟨m'', m2, hreach', hat', hsame', hentered'⟩ :=
      enters_corrected hdone hbase hargs hwritten hclear hstart hs hm0 hready0
    refine ⟨m', m'', hreach, hreach', hat, hat', fun r hr => ?_, ?_, hentered'.sameEntry hentered ?_ hlen⟩
    · have hsub : ∀ r ∈ [method, ra, fp], r ∈ [method, ra, fp, sp] := by decide
      rw [hentered.rest r hr, hsame.regs r (hsub r hr)]
    · rw [hentered.sender, hsame.regs sp (by decide)]
    exact hsame'.symm.trans ((sameCall_withoutCode hargs hready).symm.trans hsame)
  · obtain ⟨m', hleaves, hend⟩ := enters_checked hopts hdone hbase hargs hwritten hstart hm hready
    refine ⟨m', hleaves, ?_⟩
    rcases hend with ⟨hpc, hmisses, hchecked⟩ | ⟨hpc, hhit, m1, hsame, hentered⟩
    · exact ⟨⟨fun _ => hmisses, fun _ => hpc⟩, fun _ => hchecked, fun hhit => absurd hmisses hhit⟩
    · refine ⟨⟨fun he => absurd (hpc.symm.trans he) hready.apart, fun hmisses => absurd hmisses hhit⟩,
        fun hmisses => absurd hmisses hhit, fun _ pc hm' => ?_⟩
      have hcode : m.mem.read (methodCode (holding m)) 8 = 0 := not_not.mp fun hne => hhit (.inr hne)
      have hmem : (holding m).mem = m.mem := set_mem ..
      have harea := hready.area
      have hready' : CompiledReady (blob.Clear start) sig.expanded.length slots { holding m with pc } :=
        ⟨(congrArg (fun mem : Ram => mem.read (methodCode (holding m)) 8) hmem).trans hcode, harea.above,
          harea.room, harea.free, harea.entry, harea.entryApart⟩
      have hentry : ({ holding m with pc } : Machine).mem.read (interpreterEntry { holding m with pc }) 8 =
          m.mem.read (interpreterEntry (holding m)) 8 :=
          congrArg (fun mem : Ram => mem.read (interpreterEntry (holding m)) 8) hmem
      obtain ⟨m'', hleaves', hentered'⟩ := leaves_for_interpreter hdone hbase hargs hwritten hm' hready'
        (by rw [hentry]; exact hready.entry)
      refine ⟨m'', hleaves', by rw [hentered'.pc, hentry, hpc], hentered'.sameEntry hentered ?_ hlen⟩
      exact ⟨fun r hr => hsame.regs r hr, fun a ha => (hsame.args a ha).trans (Machine.at_withPc (holding m) pc _ _).symm⟩

end

/-- A receiver, a long and a float. -/
def receiverPassed : Signature := ⟨[.object, .long, .float], .void⟩

theorem legal_receiverPassed : receiverPassed.Legal where
  args k hk := by
    simp only [receiverPassed, List.mem_cons, List.not_mem_nil, or_false] at hk
    rcases hk with rfl | rfl | rfl <;> exact ⟨nofun, nofun, nofun⟩
  ret := .inl rfl
  few := by decide

/-- Memory of a method with code at `0x4000`, of one without at `0x4100`, and of an inline cache at `0x5000` that refers to this
one and to the class of the object at `0x6000`. -/
def cachedMemory : Ram := fun addr =>
  if addr = 0x4041 ∨ addr = 0x4141 then 0x70 else if addr = 0x4048 then 0x77 else if addr = 0x5001 then 0x41
  else if addr = 0x5008 ∨ addr = 0x6008 then 0x50 else 0

/-- A machine with adapters at `0x1000` that calls the first method with the object. -/
def callingMethod (code : List UInt8) (pc : UInt64) : Machine where
  x n := if n = 2 then 0x8000 else if n = 6 then 0x5000 else if n = 11 then 0x6000 else if n = 31 then
  0x4000 else UInt64.ofNat n
  f n := UInt64.ofNat (100 + n)
  pc
  mem := cachedMemory.overlay 0x1000 code

/-- A routine that leaves nothing in registers of arguments and in that of the method. -/
def scrambling (m : Machine) : Machine :=
  { [Reg.x 10, .x 11, .x 12, .f 10, .x 31].foldl (fun m r => m.set r 0xbad) m with pc := m.get ra &&& ~~~1 }

def correctingTarget : Target := ⟨{}, .synthetic 0x20000⟩

/-- A world with this routine. -/
def scramblingWorld : World := fun addr =>
  if addr = correctingTarget.runtime.addr .fixupCallersCallsite then some scrambling else none

theorem scrambling_corrects (Clear : UInt64 → Prop) :
    Corrects scramblingWorld (correctingTarget.runtime.addr .fixupCallersCallsite) Clear scrambling := by
  have hmem (m : Machine) : (scrambling m).mem = m.mem := by
    simp only [scrambling, List.foldl_cons, List.foldl_nil, set_mem]
  refine ⟨if_pos rfl, by decide, fun _ => rfl, fun m r hr => ?_, fun m x _ => by rw [hmem], fun m x _ => by rw [hmem]⟩
  have hne : ∀ r ∈ calleeSaved, r ≠ .x 10 ∧ r ≠ .x 11 ∧ r ≠ .x 12 ∧ r ≠ .f 10 ∧ r ≠ .x 31 := by decide
  obtain ⟨h10, h11, h12, hf10, h31⟩ := hne r hr
  simp only [scrambling, List.foldl_cons, List.foldl_nil, get_withPc]
  rw [get_set _ (by decide), if_neg h31, get_set _ (by decide), if_neg hf10, get_set _ (by decide),
    if_neg h12, get_set _ (by decide), if_neg h11, get_set _ (by decide), if_neg h10]

/-- The first method's call site is corrected unseen, and the object passes the cache. -/
theorem scrambled_call_arrives : ∃ blob, adapters correctingTarget receiverPassed 0 = .ok blob ∧
    (∃ entry m' m'', scramblingWorld.Reaches (callingMethod blob.code entry) m' ∧
      scramblingWorld.Reaches (withoutCode (callingMethod blob.code entry)) m'' ∧ AtInterpreter m' ∧
      m'.get method = 0x4000 ∧ m'.get senderSp = 0x8000 ∧ SameEntry receiverPassed.expanded m'' m') ∧
    ∃ entry m', blob.Leaves 0x1000 (callingMethod blob.code entry) m' ∧
    m'.pc ≠ correctingTarget.runtime.addr .icMissStub := by
  obtain ⟨blob, hblob, hsize⟩ := adapters_exist (t := correctingTarget) 0
    (addressed_synthetic (by decide) (by decide)) legal_receiverPassed
    (by decide) (by decide) (by decide)
  have hsmall : blob.code.length ≤ 0x1000 := Nat.le_trans hsize (by decide)
  obtain ⟨-, ⟨off, hoff⟩, off', hoff'⟩ := adapters_entries hblob
  obtain ⟨locs, slots, hlocate, hcorrected, hchecked⟩ := corrections_are_invisible 0x1000 hblob rfl (absurd rfl) rfl
  cases hlocate
  have hstart : (0x1000 : UInt64).toNat = 0x1000 := rfl
  have hstands (pc : UInt64) : blob.Stands 0x1000 (callingMethod blob.code pc) := stands_overlay (by omega) rfl
  have hclear {addr : UInt64} (h : 0x2000 ≤ addr.toNat) : blob.Clear 0x1000 addr := by
    rw [clear_iff (by omega)]
    omega
  have hread (pc addr : UInt64) (h : 0x2000 ≤ addr.toNat) (hend : addr.toNat + 8 ≤ 2 ^ 64) :
      (callingMethod blob.code pc).mem.read addr 8 = cachedMemory.read addr 8 :=
    Ram.read_overlay cachedMemory (by omega) hend (by omega)
  have hinside {lo n : Nat} (hlo : 0x2000 ≤ lo) (addr : UInt64) (h : Spans lo n addr) : blob.Clear 0x1000 addr :=
    hclear (Nat.le_trans hlo h.1)
  have hsp (pc : UInt64) : (callingMethod blob.code pc).get sp = 0x8000 := rfl
  refine ⟨blob, hblob, ⟨0x1000 + off.toUInt64, ?_⟩, 0x1000 + off'.toUInt64, ?_⟩
  · have hm : blob.Enters 0x1000 EntryPoint.c2i (callingMethod blob.code (0x1000 + off.toUInt64)) :=
      ⟨hstands _, off, by rw [entryOffset, hoff], rfl⟩
    have hentry : interpreterEntry (callingMethod blob.code (0x1000 + off.toUInt64)) = 0x4040 := rfl
    have hcode : methodCode (callingMethod blob.code (0x1000 + off.toUInt64)) = 0x4048 := rfl
    have hready : CallReady (blob.Clear 0x1000) receiverPassed.expanded.length 0
        (callingMethod blob.code (0x1000 + off.toUInt64)) := by
      refine ⟨⟨?_, ?_, ?_, ?_, ?_⟩, ?_, ?_, ?_, ?_, ?_⟩ <;> simp only [hsp, hentry, hcode]
      · decide
      · decide
      · exact hinside (by decide)
      · decide
      · decide
      · decide
      · exact hinside (by decide)
      · decide
      · exact hinside (by decide)
      · decide
    have houtside (i : Nat) (hi : i < blob.code.length) : scramblingWorld (0x1000 + UInt64.ofNat i) = none := by
      refine if_neg fun e => ?_
      have hfar : 0x20000 ≤ (correctingTarget.runtime.addr .fixupCallersCallsite).toNat := by decide
      have := congrArg UInt64.toNat e
      rw [toNat_off (by omega)] at this
      omega
    obtain ⟨m', m'', hreach, hreach', hat, -, hregs, hsender, hsame⟩ :=
      hcorrected _ _ houtside (scrambling_corrects _) _ hm hready
    exact ⟨m', m'', hreach, hreach', hat, hregs method (by decide), hsender, hsame⟩
  · have hm : blob.Enters 0x1000 EntryPoint.c2iUnverified (callingMethod blob.code (0x1000 + off'.toUInt64)) :=
      ⟨hstands _, off', by rw [entryOffset, hoff'], rfl⟩
    generalize 0x1000 + off'.toUInt64 = pc at hm
    have hheld : heldMethod (callingMethod blob.code pc) = 0x4100 :=
      (hread pc 0x5000 (by decide) (by decide)).trans (by decide +kernel)
    have hentry : interpreterEntry (holding (callingMethod blob.code pc)) = 0x4140 := by
      rw [interpreterEntry, holding, get_set _ (by decide), if_pos rfl, hheld]
      rfl
    have hgoes : (callingMethod blob.code pc).mem.read 0x4140 8 = 0x7000 :=
      (hread pc _ (by decide) (by decide)).trans (by decide +kernel)
    have hsp' : (holding (callingMethod blob.code pc)).get sp = 0x8000 := by
      rw [holding, get_set _ (by decide), if_neg (by decide), hsp]
    have hready : CacheReady (blob.Clear 0x1000) (correctingTarget.runtime.addr .icMissStub)
      receiverPassed.expanded.length 0
        (callingMethod blob.code pc) := by
      refine ⟨⟨?_, ?_, ?_, ?_, ?_⟩, by decide, hclear (by decide), ?_, ?_⟩ <;> simp only [hsp', hentry, hgoes]
      · decide
      · decide
      · exact hinside (by decide)
      · decide
      · decide
      · exact hclear (by decide)
      · decide
    obtain ⟨m', hleaves, hmiss, -⟩ := hchecked _ hm hready
    refine ⟨m', hleaves, fun e => ?_⟩
    rcases hmiss.mp e with hclass | hcode
    · refine hclass ?_
      have hnarrow : (callingMethod blob.code pc).mem.read 0x6008 4 = cachedMemory.read 0x6008 4 :=
        Ram.read_overlay cachedMemory (by omega) (by decide) (.inl (show 0x1000 + blob.code.length ≤ 0x6008 by omega))
      have hobject : correctingTarget.opts.klassAt (callingMethod blob.code pc).mem 0x6000 = 0x50 := by
        show (0 : UInt64) + (callingMethod blob.code pc).mem.read 0x6008 4 <<< (0 : UInt64) = 0x50
        rw [hnarrow]
        decide +kernel
      exact hobject.trans ((hread pc 0x5008 (by decide) (by decide)).trans (by decide +kernel)).symm
    · refine hcode ?_
      have haddr : methodCode (holding (callingMethod blob.code pc)) = 0x4148 := by
        rw [methodCode, holding, get_set _ (by decide), if_pos rfl, hheld]
        rfl
      rw [haddr]
      exact (hread pc _ (by decide) (by decide)).trans (by decide +kernel)

end Stub

end RiscvJit
