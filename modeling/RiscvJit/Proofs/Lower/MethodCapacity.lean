import RiscvJit.Proofs.Lower.Capacity
import RiscvJit.Proofs.Lower.Compiled

/-
  RiscvJit.Proofs.Lower.MethodCapacity — a whole method in a smaller buffer.

  Instructions are lowered, and slow paths are written, only as long as the buffer works. So the
  run in the smaller buffer may end early, with a buffer that failed and no stub open; until then
  it is the run in the larger buffer (`Advances`). Nothing that follows touches a buffer that failed
  (`Idles`), and the outcome is a bailout (`compile_shrinks`).
-/

namespace RiscvJit

open Assembler (Persists)
open Asm

namespace Lower

section
variable {α β : Type} {far : UInt64 → Prop}

/-- From the same state on, the work in the smaller buffer does the same, or its buffer fails, and
no stub is left open. -/
structure Advances (far : UInt64 → Prop) (x : Lower α) : Prop where
  persists : ∀ {t s r s'}, x t s = .ok (r, s') → Persists s.asm s'.asm
  advances : ∀ {t m n u c r u'}, (∀ e, far (t.runtime.addr e)) → u.asm.Fits c → u.asm.buf.inStub = false →
    x t u = .ok (r, u') → u'.asm.buf.failed = false → Strays far u.asm (x (t.resized m n) (u.cropped c)) ∨
      (∃ c', u'.asm.Fits c' ∧ x (t.resized m n) (u.cropped c) = .ok (r, u'.cropped c')) ∨
      ∃ q s', x (t.resized m n) (u.cropped c) = .ok (q, s') ∧ s'.asm.buf.failed = true ∧ s'.asm.buf.inStub = false

/-- The work does nothing when the buffer has failed. -/
def Idles (x : Lower α) : Prop :=
  ∀ t s, s.asm.buf.failed = true → s.asm.buf.inStub = false → ∃ r, x t s = .ok (r, s)

theorem Scales.advances {x : Lower α} (h : Scales far x) : Advances far x where
  persists := h.persists
  advances {t m n u c r u'} hfar hfits hin hrun hw := by
    rcases h.scales (m := m) (n := n) hfar (.same hfits) hrun hw with hstray | ⟨s', hs', hshadows⟩
    · exact .inl hstray
    · refine .inr ?_
      cases hshadows with
      | same hfits' => exact .inl ⟨_, hfits', hs'⟩
      | lost hl => exact .inr ⟨r, s', hs', hl.asm.failed, hl.asm.inStub.trans ((h.persists hrun).inStub.trans hin)⟩

theorem Advances.bind {x : Lower α} {f : α → Lower β} (hx : Advances far x) (hf : ∀ r, Advances far (f r))
    (hidle : ∀ r, Idles (f r)) : Advances far (x >>= f) where
  persists h := by
    obtain ⟨r, s, hr, hs⟩ := bind_eq_ok.mp h
    exact (hx.persists hr).trans ((hf r).persists hs)
  advances {t m n u c q u'} hfar hfits hin h hw := by
    obtain ⟨r, u1, hr, hrest⟩ := bind_eq_ok.mp h
    have hp := hx.persists hr
    rcases hx.advances (m := m) (n := n) hfar hfits hin hr (((hf r).persists hrest).working hw) with
      ⟨addr, h1, h2, h3, hstop⟩ | ⟨c1, hfits1, hrun⟩ | ⟨q1, s1, hrun, hfailed, hout⟩
    · refine .inl ⟨addr, h1, h2, h3, ?_⟩
      show (x (t.resized m n) (u.cropped c) >>= _) = _
      rw [hstop]
      rfl
    · rw [bind_ok hrun]
      rcases (hf r).advances (m := m) (n := n) hfar hfits1 (hp.inStub.trans hin) hrest hw with
        ⟨addr, h1, h2, h3, hstop⟩ | hdone
      · exact .inl ⟨addr, h1, h2, hp.base ▸ h3, hstop⟩
      · exact .inr hdone
    · obtain ⟨q2, hidle⟩ := hidle q1 (t.resized m n) s1 hfailed hout
      exact .inr (.inr ⟨q2, s1, (bind_ok hrun).trans hidle, hfailed, hout⟩)

/-- A check or a look at an operand comes first. -/
theorem Advances.after {e : Except Fault α} {f : α → Lower β} (hf : ∀ r, Advances far (f r)) :
    Advances far ((liftM e : Lower α) >>= f) where
  persists h := by
    obtain ⟨r, -, hr⟩ := lift_bind_eq_ok.mp h
    exact (hf r).persists hr
  advances hfar hfits hin h hw := by
    obtain ⟨r, he, hr⟩ := lift_bind_eq_ok.mp h
    rw [bind_ok (lift_eq_ok.mpr ⟨he, rfl⟩)]
    exact (hf r).advances hfar hfits hin hr hw

/-- From the same state on, even the position may be read. -/
theorem advances_get {f : Lowering → Lower α} (hsame : ∀ u c, f (u.cropped c) = f u) (hf : ∀ u, Advances far (f u)) :
    Advances far (get >>= f) where
  persists h := by
    obtain ⟨s, s1, hget, hs⟩ := bind_eq_ok.mp h
    cases hget
    exact (hf _).persists hs
  advances {t m n u c q u'} hfar hfits hin h hw := by
    obtain ⟨u1, u2, hget, hrest⟩ := bind_eq_ok.mp h
    cases hget
    rw [bind_ok get_ok, hsame]
    exact (hf u).advances hfar hfits hin hrest hw

end

/-! ## Instructions -/

section
variable {far : UInt64 → Prop}

variable {α : Type} {t : Target} {s : Lowering} {name : String} {size : Int64} {x : Lower Unit} {done : Lower α}
  (i : Instruction)

theorem advances_call : Advances far (call i) := by
  unfold call
  dsimp only
  refine Advances.after fun _ => advances_get (fun _ _ => rfl) fun u => ?_
  cases directDistance? u.asm ((i.call.map (·.target)).getD 0) <;> exact Scales.advances inferInstance

theorem advances_dispatch : Advances far (dispatch i) := by
  unfold dispatch
  cases i.op
  case call => exact advances_call i
  all_goals exact Scales.advances inferInstance

theorem advances_instruction : Advances far (instruction i) :=
  Advances.after fun _ => advances_dispatch i

theorem failed_ok : (liftM failed : Lower Bool) t s = .ok (s.asm.buf.failed, s) :=
  asm_eq_ok.mpr ⟨s.asm, rfl, rfl⟩

theorem idles_instructions (is : List Instruction) : Idles (instructions is) := by
  intro t s hf _
  cases is with
  | nil => exact ⟨(), rfl⟩
  | cons i rest =>
    refine ⟨(), ?_⟩
    unfold instructions
    rw [bind_ok failed_ok, hf]
    rfl

theorem advances_instructions (is : List Instruction) : Advances far (instructions is) := by
  induction is with
  | nil => exact Scales.advances (scales_pure ())
  | cons i rest ih =>
    have hstep : Advances far (instruction i >>= fun _ => instructions rest) :=
      (advances_instruction i).bind (fun _ => ih) fun _ => idles_instructions rest
    have hrun {t : Target} {s : Lowering} : instructions (i :: rest) t s =
        (if s.asm.buf.failed then pure () else instruction i >>= fun _ => instructions rest) t s := by
      rw [instructions, bind_ok failed_ok]
    refine ⟨fun {t s r s'} h => ?_, fun {t m n u c r u'} hfar hfits hin h hw => ?_⟩
    · rw [hrun] at h
      split at h
      · exact (pure_eq_ok.mp h).2 ▸ Assembler.persists_refl _
      · exact hstep.persists h
    · rw [hrun] at h ⊢
      rw [show (u.cropped c).asm.buf.failed = u.asm.buf.failed from rfl]
      split at h
      case _ hf =>
        obtain ⟨-, rfl⟩ := pure_eq_ok.mp h
        exact absurd (hf.symm.trans hw) (by decide)
      case _ hf =>
        rw [if_neg hf]
        exact hstep.advances hfar hfits hin h hw

/-! ## Slow paths -/

instance scales_emitSlowPath (p : SlowPath) : Scales far (emitSlowPath p) :=
  closed_scales.emitSlowPath (fun target entry => by
    dsimp only [emitSlowPath]
    infer_instance) p

theorem startStub_ok {r : Bool} {a : Assembler} (h : startStub name size t s.asm = .ok (r, a)) :
    (liftM (startStub name size) : Lower Bool) t s = .ok (r, { s with asm := a }) := asm_eq_ok.mpr ⟨a, h, rfl⟩

/-- A stub, and what follows when there was room for it. -/
def stub (name : String) (size : Int64) (x : Lower Unit) (done : Lower α) (none : α) : Lower α := do
  if ← startStub name size then
    x
    endStub
    done
  else return none

theorem idles_stub (name : String) (size : Int64) (x : Lower Unit) (done : Lower α) (none : α) :
    Idles (stub name size x done none) := by
  intro t s hf hin
  refine ⟨none, ?_⟩
  unfold stub
  rw [bind_ok (startStub_ok (startStub_failed hf hin))]
  rfl

/-- A run of a stub: it was opened and closed, or there was no room for it. -/
theorem stub_eq_ok {u u' : Lowering} {none r : α} (h : stub name size x done none t u = .ok (r, u')) :
    u.asm.buf.inStub = false ∧
      ((∃ u1, u.asm.buf.failed = false ∧ x t { u with asm := opened u.asm name } = .ok ((), u1) ∧
        done t { u1 with asm := closed u1.asm } = .ok (r, u')) ∨ Persists u.asm u'.asm ∧ u'.asm.buf.failed = true) := by
  obtain ⟨ok, s, hstart, h⟩ := bind_eq_ok.mp h
  obtain ⟨a, hopen, rfl⟩ := asm_eq_ok.mp hstart
  obtain ⟨hin, ⟨rfl, hw, -, rfl⟩ | ⟨rfl, hp, hf⟩⟩ := startStub_eq_ok hopen
  · obtain ⟨_, u1, hrun, h⟩ := bind_eq_ok.mp h
    obtain ⟨_, s2, hend, h⟩ := bind_eq_ok.mp h
    obtain ⟨a2, hclose, rfl⟩ := asm_eq_ok.mp hend
    obtain ⟨-, rfl⟩ := endStub_eq_ok hclose
    exact ⟨hin, .inl ⟨u1, hw, hrun, h⟩⟩
  · obtain ⟨-, rfl⟩ := pure_eq_ok.mp h
    exact ⟨hin, .inr ⟨hp, hf⟩⟩

theorem stub_opened {none : α} (h : startStub name size t s.asm = .ok (true, opened s.asm name)) :
    stub name size x done none t s =
      (x >>= fun _ => (liftM endStub : Lower Unit) >>= fun _ => done) t { s with asm := opened s.asm name } := by
  unfold stub
  rw [bind_ok (startStub_ok h)]
  rfl

theorem endStub_ok (hin : s.asm.buf.inStub = true) :
    (liftM endStub : Lower Unit) t s = .ok ((), { s with asm := closed s.asm }) :=
  asm_eq_ok.mpr ⟨_, Asm.endStub_ok hin, rfl⟩

/-- From inside a stub on, to its end and beyond. -/
theorem advances_within {m n : Int64} {v u1 u' : Lowering} {c : Nat} {r : α} (hx : Scales far x)
    (hdone : Advances far done)
    (hidle : Idles done) (hfar : ∀ e, far (t.runtime.addr e)) (hfits : v.asm.Fits c) (hin : v.asm.buf.inStub = true)
    (hrun : x t v = .ok ((), u1)) (hrest : done t { u1 with asm := closed u1.asm } = .ok (r, u'))
    (hw : u'.asm.buf.failed = false) :
    Strays far v.asm ((x >>= fun _ => (liftM endStub : Lower Unit) >>= fun _ => done) (t.resized m n) (v.cropped c)) ∨
      (∃ c', u'.asm.Fits c' ∧ (x >>= fun _ =>
      (liftM endStub : Lower Unit) >>= fun _ => done) (t.resized m n) (v.cropped c) =
        .ok (r, u'.cropped c')) ∨
      ∃ q s', (x >>= fun _ => (liftM endStub : Lower Unit) >>= fun _ => done) (t.resized m n)
      (v.cropped c) = .ok (q, s') ∧
        s'.asm.buf.failed = true ∧ s'.asm.buf.inStub = false := by
  have hp := hx.persists hrun
  have hw1 : u1.asm.buf.failed = false := (hdone.persists hrest).working hw
  have hin1 : u1.asm.buf.inStub = true := hp.inStub.trans hin
  rcases hx.scales (m := m) (n := n) hfar (Lowering.Shadows.same hfits) hrun hw1 with
    ⟨addr, h1, h2, h3, hstop⟩ | ⟨s1, hs1, hshadows⟩
  · refine .inl ⟨addr, h1, h2, h3, ?_⟩
    show (x (t.resized m n) (v.cropped c) >>= _) = _
    rw [hstop]
    rfl
  · rw [bind_ok hs1]
    cases hshadows with
    | @same _ c1 hfits1 =>
      have hclosed : (Lowering.asm { u1 with asm := closed u1.asm }).Fits c1 :=
        ⟨hfits1.le, hfits1.small, hfits1.offset, hfits1.written⟩
      have hend : (liftM endStub : Lower Unit) (t.resized m n) (u1.cropped c1) =
          .ok ((), Lowering.cropped { u1 with asm := closed u1.asm } c1) := endStub_ok hin1
      rw [bind_ok hend]
      rcases hdone.advances (m := m) (n := n) hfar hclosed rfl hrest hw with ⟨addr, h1, h2, h3, hstop⟩ | hdone
      · exact .inl ⟨addr, h1, h2, hp.base ▸ h3, hstop⟩
      · exact .inr hdone
    | lost hl =>
      rw [bind_ok (endStub_ok (hl.asm.inStub.trans hin1))]
      obtain ⟨q, hq⟩ := hidle (t.resized m n) { s1 with asm := closed s1.asm } hl.asm.failed rfl
      exact .inr (.inr ⟨q, _, hq, hl.asm.failed, rfl⟩)

theorem advances_stub {none : α} (hx : Scales far x) (hdone : Advances far done) (hidle : Idles done) :
    Advances far (stub name size x done none) := by
  refine ⟨fun {t s r s'} h => ?_, fun {t m n u c r u'} hfar hfits hin h hw => ?_⟩
  · obtain ⟨hin, ⟨s1, hw, hrun, hrest⟩ | ⟨hp, -⟩⟩ := stub_eq_ok h
    · have hp1 := hx.persists hrun
      have hp2 := hdone.persists hrest
      exact ⟨fun hf => hp2.failed (hp1.failed hf), hp2.inStub.trans hin.symm, hp2.base.trans hp1.base⟩
    · exact hp
  · obtain ⟨-, ⟨u1, hw0, hrun, hrest⟩ | ⟨-, hf⟩⟩ := stub_eq_ok h
    · have hp1 := hx.persists hrun
      have hw1 : u1.asm.buf.failed = false := (hdone.persists hrest).working hw
      have hcases : startStub name size (t.resized m n) (u.asm.cropped c) = .ok (true, (opened u.asm name).cropped c) ∧
            (opened u.asm name).Fits c ∨
          ∃ a, startStub name size (t.resized m n) (u.asm.cropped c) = .ok (false, a) ∧ a.buf.failed = true ∧
            a.buf.inStub = false := startStub_same hfits hw0 hin
      rcases hcases with ⟨hopen, hfits0⟩ | ⟨a, hfull, hf, hout⟩
      · have hbegun : stub name size x done none (t.resized m n) (u.cropped c) =
            (x >>= fun _ => (liftM endStub : Lower Unit) >>= fun _ => done) (t.resized m n)
              (Lowering.cropped { u with asm := opened u.asm name } c) := stub_opened hopen
        rw [hbegun]
        have hopened : (Lowering.asm { u with asm := opened u.asm name }).Fits c := hfits0
        exact advances_within hx hdone hidle hfar hopened rfl hrun hrest hw
      · refine .inr (.inr ⟨none, { u.cropped c with asm := a }, ?_, hf, hout⟩)
        unfold stub
        rw [bind_ok (startStub_ok (s := u.cropped c) hfull)]
        rfl
    · exact absurd (hf.symm.trans hw) (by decide)

theorem idles_pure (r : α) : Idles (pure r) := fun _ _ _ _ => ⟨r, rfl⟩

theorem Idles.bind {β : Type} {x : Lower α} {f : α → Lower β} (hx : Idles x) (hf : ∀ r, Idles (f r)) :
    Idles (x >>= f) := by
  intro t s hfailed hin
  obtain ⟨r, hr⟩ := hx t s hfailed hin
  obtain ⟨q, hq⟩ := hf r t s hfailed hin
  exact ⟨q, (bind_ok hr).trans hq⟩

theorem idles_get {f : Lowering → Lower α} (hf : ∀ s, Idles (f s)) : Idles (get >>= f) :=
  fun t s hfailed hin => hf s t s hfailed hin

theorem emitSlowPaths_cons (p : SlowPath) (rest : List SlowPath) : emitSlowPaths (p :: rest) =
    stub p.name SlowPath.maxSize (comment p.name >>= fun _ => emitSlowPath p) (emitSlowPaths rest) false := by
  simp only [emitSlowPaths, stub, bind_assoc]

theorem idles_emitSlowPaths (ps : List SlowPath) : Idles (emitSlowPaths ps) := by
  cases ps with
  | nil => exact idles_pure true
  | cons p rest =>
    rw [emitSlowPaths_cons]
    exact idles_stub _ _ _ _ _

theorem advances_emitSlowPaths (ps : List SlowPath) : Advances far (emitSlowPaths ps) := by
  induction ps with
  | nil => exact Scales.advances (scales_pure true)
  | cons p rest ih =>
    rw [emitSlowPaths_cons]
    exact advances_stub inferInstance ih (idles_emitSlowPaths rest)

instance scales_releaseMonitor (monitorOffset : Int64) : Asm.Scales far (releaseMonitor monitorOffset) := by
  unfold releaseMonitor
  have (slow unlocked : Label) : Asm.Scales far (read >>= fun t : Target => do
      if t.opts.useFastLocking then
        fastUnlock unwindLockRegs slow
        j unlocked
      Asm.bind slow
      sd unwindLockRegs.lock .sp 0
      rtCall .monitorExit
      Asm.bind unlocked
      mv exceptionReg Reg.moveScratch) :=
    Asm.scales_read (fun _ _ _ => rfl) fun _ => inferInstance
  dsimp only
  infer_instance

instance scales_unwindHandler (p : Program) (entry : Label) : Asm.Scales far (unwindHandler p entry) := by
  unfold unwindHandler
  infer_instance

/-- The unwind handler, if there is a jump to it. -/
def unwindStub (s : Lowering) : Lower Unit :=
  match s.unwind with
  | none => pure ()
  | some entry => stub "unwind_handler" (2 * SlowPath.maxSize) (unwindHandler s.prog entry) (pure ()) ()

theorem unwindStub_eq (s : Lowering) : unwindStub s = (match s.unwind with
    | none => pure ()
    | some entry => do
      if ← startStub "unwind_handler" (2 * SlowPath.maxSize) then
        unwindHandler s.prog entry
        endStub) := by
  unfold unwindStub stub
  simp only [bind_pure_unit]

theorem emitStubs_eq : emitStubs = get >>= fun s => emitSlowPaths s.slowPaths.toList >>= fun all =>
    if all then get >>= unwindStub else pure () := by
  rw [funext unwindStub_eq]
  rfl

theorem idles_unwindStub (s : Lowering) : Idles (unwindStub s) := by
  unfold unwindStub
  cases s.unwind with
  | none => exact idles_pure ()
  | some entry => exact idles_stub _ _ _ _ _

theorem advances_unwindStub (s : Lowering) : Advances far (unwindStub s) := by
  unfold unwindStub
  cases s.unwind with
  | none => exact Scales.advances (scales_pure ())
  | some entry => exact advances_stub inferInstance (Scales.advances (scales_pure ())) (idles_pure ())

theorem idles_afterSlowPaths (all : Bool) : Idles (if all then get >>= unwindStub else pure ()) := by
  cases all with
  | true => exact idles_get idles_unwindStub
  | false => exact idles_pure ()

theorem idles_emitStubs : Idles emitStubs := by
  rw [emitStubs_eq]
  exact idles_get fun s => (idles_emitSlowPaths _).bind idles_afterSlowPaths

theorem advances_emitStubs : Advances far emitStubs := by
  rw [emitStubs_eq]
  refine advances_get (fun _ _ => rfl) fun s => (advances_emitSlowPaths _).bind (fun all => ?_) idles_afterSlowPaths
  cases all with
  | true => exact advances_get (fun _ _ => rfl) advances_unwindStub
  | false => exact Scales.advances (scales_pure ())

/-! ## The method -/

theorem idles_checkLabels : Idles checkLabels := by
  intro t s hf _
  refine ⟨(), ?_⟩
  unfold checkLabels
  rw [bind_ok get_ok, hf]
  rfl

theorem advances_checkLabels : Advances far checkLabels := by
  refine advances_get (fun _ _ => rfl) fun s => Scales.advances ?_
  cases pendingLabel? s <;> infer_instance

theorem method_eq : method = get >>= fun s =>
    ((liftM (markEntry EntryPoint.verified) : Lower Unit) >>= fun _ =>
      (liftM (buildFrame s.prog.frameSize) : Lower Unit) >>= fun _ => liftM (markEntry EntryPoint.frameComplete)) >>=
    fun _ => instructions s.prog.code.toList >>= fun _ => emitStubs >>= fun _ => checkLabels := by
  simp only [method, bind_assoc]

theorem advances_method : Advances far method := by
  rw [method_eq]
  refine advances_get (fun _ _ => rfl) fun s => ?_
  have hend : Idles (emitStubs >>= fun _ => checkLabels) := idles_emitStubs.bind fun _ => idles_checkLabels
  refine (Scales.advances inferInstance).bind (fun _ => ?_) fun _ => (idles_instructions _).bind fun _ => hend
  exact (advances_instructions _).bind
    (fun _ => advances_emitStubs.bind (fun _ => advances_checkLabels) fun _ => idles_checkLabels) fun _ => hend

end

end Lower

/-! ## Compiled methods -/

section
variable {far : UInt64 → Prop} {t : Target} {p : Program} {base : UInt64} {c : CompiledMethod} {m n : Int64}

/-- Everything after the checks: lower the method and finish the code. -/
def Program.finishLowering (p : Program) (t : Target) (asm : Assembler) : Except Stop CompiledMethod := do
  let ((), s) ← Stop.ofFault (Lower.method t { asm, prog := p })
  let blob ← Stop.ofFailure (s.asm.finish p.frameSize)
  return { blob, sites := s.sites.toList }

theorem finishLowering_shrinks {asm : Assembler} {k : Nat} (hfar : ∀ e, far (t.runtime.addr e)) (hfits : asm.Fits k)
    (hin : asm.buf.inStub = false) (h : p.finishLowering t asm = .ok c) :
    Shrinks far asm.buf.base c (p.finishLowering (t.resized m n) (asm.cropped k)) := by
  obtain ⟨⟨_, u⟩, hmethod, h⟩ := except_bind_eq_ok.mp h
  obtain ⟨blob, hblob, h⟩ := except_bind_eq_ok.mp h
  cases h
  rw [ofFault_eq_ok] at hmethod
  rw [ofFailure_eq_ok] at hblob
  have hrun := Lower.advances_method.advances (m := m) (n := n) (u := { asm, prog := p }) hfar hfits hin hmethod
    (working_of_finish hblob)
  have hstart : Lowering.cropped { asm, prog := p } k = { asm := asm.cropped k, prog := p } := rfl
  rw [hstart] at hrun
  unfold Program.finishLowering
  rcases hrun with ⟨addr, h1, h2, h3, hstop⟩ | ⟨k', -, hsame⟩ | ⟨_, s, hfull, hfailed, -⟩
  · refine .inr (.inr ⟨addr, h1, h2, h3, ?_⟩)
    rw [hstop]
    rfl
  · refine .inl ?_
    rw [hsame]
    show (Stop.ofFailure (u.asm.finish p.frameSize) >>= _) = _
    rw [hblob]
    rfl
  · refine .inr (.inl ⟨s.asm.buf.name, s.asm.buf.failure, ?_⟩)
    rw [hfull]
    show (Stop.ofFailure (s.asm.finish p.frameSize) >>= _) = _
    rw [finish_failed hfailed]
    rfl

theorem compile_shrinks (hfar : ∀ e, far (t.runtime.addr e)) (hpos : 0 < m) (hle : m ≤ t.opts.codeBufferSize)
    (h : p.compile t base = .ok c) : Shrinks far base c (p.compile (t.resized m n) base) := by
  obtain ⟨_, hframe, h⟩ := except_bind_eq_ok.mp h
  obtain ⟨asm, hasm, h⟩ := except_bind_eq_ok.mp h
  dsimp only at h
  split at h
  · cases h
  case _ hlimit =>
    rw [ofFault_eq_ok] at hasm
    obtain ⟨hsmall, hfits, hin, hbase⟩ := start_cropped hasm hpos hle
    have hrun := finishLowering_shrinks (m := m) (n := n) hfar hfits hin h
    rw [hbase] at hrun
    have hcompile : p.compile (t.resized m n) base = p.finishLowering (t.resized m n) (asm.cropped m.toNatClampNeg) := by
      unfold Program.compile
      rw [hframe, show (t.resized m n).opts.codeBufferSize = m from rfl, hsmall]
      show (if _ then _ else _) = _
      rw [if_neg hlimit]
      rfl
    rwa [hcompile]

end

end RiscvJit
