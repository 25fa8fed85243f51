import RiscvJit.Proofs.Lower.MethodCapacity
import RiscvJit.Proofs.Stub.Sequences

/-
  RiscvJit.Proofs.Stub.Capacity — adapters and native wrappers in a smaller buffer.

  The adapters of a signature are single sequences one after the other. A native wrapper is too, up
  to its slow paths: these are stubs, written until one does not fit.
-/

namespace RiscvJit

open Reg (sp t0 fp)
open Asm
open Stop

/-! ## Adapters -/

namespace Stub

section
variable {far : UInt64 → Prop}

instance scales_adaptersBody (kinds : List ValueKind) (locs : List Location) (stackSlots : Nat) :
    Scales far (adaptersBody kinds locs stackSlots) := by
  unfold adaptersBody
  infer_instance

end

/-- Work that scales, from an empty buffer to the finished code. -/
theorem adapters_shrink {far : UInt64 → Prop} {t : Target} {sig : Signature} {base : UInt64} {blob : CodeBlob}
    {m n : Int64} (hfar : ∀ e, far (t.runtime.addr e)) (hpos : 0 < n) (hle : n ≤ t.opts.stubBufferSize)
    (h : adapters t sig base = .ok blob) : Shrinks far base blob (adapters (t.resized m n) sig base) := by
  obtain ⟨text, htext, h⟩ := except_bind_eq_ok.mp h
  obtain ⟨asm, hasm, h⟩ := except_bind_eq_ok.mp h
  obtain ⟨⟨locs, slots⟩, hlocs, h⟩ := except_bind_eq_ok.mp h
  obtain ⟨⟨_, b⟩, hbody, hblob⟩ := except_bind_eq_ok.mp h
  rw [ofFault_eq_ok] at hasm hbody
  rw [ofFailure_eq_ok] at hblob
  obtain ⟨hsmall, hfits, hin, hbase⟩ := start_cropped hasm hpos hle
  have hw := working_of_finish hblob
  have hbodyScales : Scales far (adaptersBody sig.expanded locs slots) := inferInstance
  have hrun := hbodyScales.scales (m := m) (n := n) hfar (.same hfits) hbody hw
  have hadapters : adapters (t.resized m n) sig base =
      (ofFault (adaptersBody sig.expanded locs slots (t.resized m n) (asm.cropped n.toNatClampNeg)) >>= fun r =>
        ofFailure (r.2.finish 0)) := by
    unfold adapters
    rw [htext]
    show (ofFault (Assembler.start _ base n) >>= _) = _
    rw [hsmall]
    show (ofFault (Convention.managed.locate sig.expanded) >>= _) = _
    rw [hlocs]
    rfl
  rw [hadapters]
  rcases hrun with ⟨addr, h1, h2, h3, hstop⟩ | ⟨a, hrun, hshadows⟩
  · exact .inr (.inr ⟨addr, h1, h2, hbase ▸ h3, by rw [hstop]; rfl⟩)
  · rw [hrun]
    cases hshadows with
    | same => exact .inl (ofFailure_eq_ok.mpr hblob)
    | lost hl => exact .inr (.inl ⟨a.buf.name, a.buf.failure, congrArg ofFailure (finish_failed hl.failed)⟩)

end Stub

/-! ## Native wrappers -/

namespace NativeWrapper.Plan

variable {far : UInt64 → Prop} (p : Plan)

theorem scales_callNative (hentry : far p.method.entry) (returnPc : Label) : Scales far (p.callNative returnPc) := by
  have : Scales far (call p.method.entry) := scales_farCall hentry
  unfold callNative
  infer_instance

/-- The main code of a wrapper: how the arguments were moved, and the slow paths to be written. -/
def mainCode : Asm (List Move × List SlowPath) := do
  unless p.method.isStatic do
    markEntry EntryPoint.unverified
    checkReceiver
  markEntry EntryPoint.verified
  buildFrame p.layout.size
  markEntry EntryPoint.frameComplete
  p.storeHandles
  let returnPc ← newLabel
  setLastJavaFrame sp fp returnPc t0
  let locked ← p.whenLocked p.lock
  let moves ← p.orderedMoves
  moves.forM moveArgument
  p.args.forM passHandle
  p.passLeading
  p.callNative returnPc
  let back ← transitionBack
  let unlocked ← p.whenLocked unlock
  let last ← p.epilogue
  return (moves, locked ++ back ++ unlocked ++ [last])

set_option synthInstance.maxSize 512 in
theorem scales_mainCode (hentry : far p.method.entry) : Scales far p.mainCode := by
  have := p.scales_callNative hentry
  unfold mainCode
  dsimp only
  infer_instance

theorem body_eq : p.body = p.mainCode >>= fun r => p.slowPaths r.2 >>= fun _ => pure r.1 := by
  unfold body mainCode
  cases p.method.isStatic <;> simp only [Bool.false_eq_true, ↓reduceIte, bind_assoc, pure_bind]

variable {t : Target}

theorem slowPaths_failed {a : Assembler} (hf : a.buf.failed = true) (hin : a.buf.inStub = false) (ss : List SlowPath) :
    p.slowPaths ss t a = .ok ((), a) := by
  cases ss with
  | nil => rfl
  | cons s rest =>
    unfold slowPaths
    rw [bind_ok (startStub_failed hf hin)]
    rfl

/-- The slow paths are those of the larger buffer as long as they fit. -/
theorem slowPaths_same {b b' : Assembler} {c : Nat} {m n : Int64} {ss : List SlowPath}
    (hfar : ∀ e, far (t.runtime.addr e))
    (hfits : b.Fits c) (h : p.slowPaths ss t b = .ok ((), b')) (hw : b'.buf.failed = false) :
    Strays far b (p.slowPaths ss (t.resized m n) (b.cropped c)) ∨
      (∃ c', p.slowPaths ss (t.resized m n) (b.cropped c) = .ok ((), b'.cropped c')) ∨
      ∃ a', p.slowPaths ss (t.resized m n) (b.cropped c) = .ok ((), a') ∧ a'.buf.failed = true := by
  induction ss generalizing b c with
  | nil =>
    cases h
    exact .inr (.inl ⟨c, rfl⟩)
  | cons s rest ih =>
    obtain ⟨ok, b1, hstart, h⟩ := bind_eq_ok.mp h
    obtain ⟨hin, ⟨rfl, hw0, -, rfl⟩ | ⟨rfl, -, hf⟩⟩ := startStub_eq_ok hstart
    · obtain ⟨_, b2, hpath, h⟩ := bind_eq_ok.mp h
      obtain ⟨_, b3, hend, hrest⟩ := bind_eq_ok.mp h
      obtain ⟨-, rfl⟩ := endStub_eq_ok hend
      change p.slowPaths rest t (closed b2) = _ at hrest
      have hw2 : b2.buf.failed = false := by
        cases hf : b2.buf.failed with
        | false => rfl
        | true =>
          rw [p.slowPaths_failed (a := closed b2) hf rfl] at hrest
          cases hrest
          exact hf.symm.trans hw
      have hpathScales : Scales far (p.slowPath s) := inferInstance
      have hp := hpathScales.persists hpath
      have hin2 : b2.buf.inStub = true := hp.inStub
      rcases startStub_same (z := t.resized m n) hfits hw0 hin with ⟨hopen, hfits0⟩ | ⟨a, hfull, hf, hout⟩
      · have hbegun : p.slowPaths (s :: rest) (t.resized m n) (b.cropped c) = (p.slowPath s >>= fun _ =>
          endStub >>= fun _ =>
            p.slowPaths rest) (t.resized m n) ((opened b "native_wrapper_slow_path").cropped c) := by
          rw [slowPaths, bind_ok hopen]
          rfl
        rw [hbegun]
        rcases hpathScales.scales (m := m) (n := n) hfar (.same hfits0) hpath hw2 with
          ⟨addr, h1, h2, h3, hstop⟩ | ⟨a2, ha2, hshadows⟩
        · refine .inl ⟨addr, h1, h2, h3, ?_⟩
          show (p.slowPath s (t.resized m n) _ >>= _) = _
          rw [hstop]
          rfl
        · rw [bind_ok ha2]
          cases hshadows with
          | @same _ c2 hfits2 =>
            have hclosed : (closed b2).Fits c2 := ⟨hfits2.le, hfits2.small, hfits2.offset, hfits2.written⟩
            have hclose : endStub (t.resized m n) (b2.cropped c2) = .ok ((), (closed b2).cropped c2) :=
              endStub_ok hin2
            rw [bind_ok hclose]
            rcases ih hclosed hrest with ⟨addr, h1, h2, h3, hstop⟩ | hdone
            · exact .inl ⟨addr, h1, h2, hp.base ▸ h3, hstop⟩
            · exact .inr hdone
          | lost hl =>
            rw [bind_ok (endStub_ok (hl.inStub.trans hin2)), p.slowPaths_failed (a := closed a2) hl.failed rfl]
            exact .inr (.inr ⟨_, rfl, hl.failed⟩)
      · refine .inr (.inr ⟨a, ?_, hf⟩)
        unfold slowPaths
        rw [bind_ok hfull]
        rfl
    · obtain ⟨-, rfl⟩ := pure_eq_ok.mp h
      exact absurd (hf.symm.trans hw) (by decide)

theorem body_same {b b' : Assembler} {c : Nat} {m n : Int64} {moves : List Move} (hentry : far p.method.entry)
    (hfar : ∀ e, far (t.runtime.addr e)) (hfits : b.Fits c) (hin : b.buf.inStub = false)
    (h : p.body t b = .ok (moves, b'))
    (hw : b'.buf.failed = false) : Strays far b (p.body (t.resized m n) (b.cropped c)) ∨
      (∃ c', p.body (t.resized m n) (b.cropped c) = .ok (moves, b'.cropped c')) ∨
      ∃ a', p.body (t.resized m n) (b.cropped c) = .ok (moves, a') ∧ a'.buf.failed = true := by
  have hmain := p.scales_mainCode hentry
  rw [body_eq] at h ⊢
  obtain ⟨⟨moves', ss⟩, b1, hrun, h⟩ := bind_eq_ok.mp h
  obtain ⟨_, b2, hpaths, h⟩ := bind_eq_ok.mp h
  obtain ⟨rfl, rfl⟩ := pure_eq_ok.mp h
  have hp := hmain.persists hrun
  have hin1 : b1.buf.inStub = false := hp.inStub.trans hin
  have hw1 : b1.buf.failed = false := by
    cases hf : b1.buf.failed with
    | false => rfl
    | true =>
      rw [p.slowPaths_failed hf hin1] at hpaths
      cases hpaths
      exact hf.symm.trans hw
  rcases hmain.scales (m := m) (n := n) hfar (.same hfits) hrun hw1 with ⟨addr, h1, h2, h3, hstop⟩ | ⟨a1, ha1, hshadows⟩
  · refine .inl ⟨addr, h1, h2, h3, ?_⟩
    show (p.mainCode (t.resized m n) (b.cropped c) >>= _) = _
    rw [hstop]
    rfl
  · rw [bind_ok ha1]
    cases hshadows with
    | same hfits1 =>
      rcases p.slowPaths_same (m := m) (n := n) hfar hfits1 hpaths hw
        with ⟨addr, h1, h2, h3, hstop⟩ | ⟨c', hsame⟩ | ⟨a', hfull, hf⟩
      · refine .inl ⟨addr, h1, h2, hp.base ▸ h3, ?_⟩
        show (p.slowPaths ss (t.resized m n) _ >>= _) = _
        rw [hstop]
        rfl
      · exact .inr (.inl ⟨c', by rw [bind_ok hsame]; rfl⟩)
      · exact .inr (.inr ⟨a', by rw [bind_ok hfull]; rfl, hf⟩)
    | lost hl =>
      refine .inr (.inr ⟨a1, ?_, hl.failed⟩)
      rw [bind_ok (p.slowPaths_failed hl.failed (hl.inStub.trans hin1) ss)]
      rfl

end NativeWrapper.Plan

theorem NativeWrapper.method_of_plan {method : NativeMethod} {p : NativeWrapper.Plan} (h : plan method = .ok p) :
    p.method = method := by
  obtain ⟨_, -, h⟩ := except_bind_eq_ok.mp h
  obtain ⟨_, -, h⟩ := except_bind_eq_ok.mp h
  obtain ⟨_, -, h⟩ := except_bind_eq_ok.mp h
  obtain ⟨_, -, h⟩ := except_bind_eq_ok.mp h
  obtain ⟨_, -, h⟩ := except_bind_eq_ok.mp h
  obtain ⟨_, -, h⟩ := except_bind_eq_ok.mp h
  obtain ⟨_, -, h⟩ := except_bind_eq_ok.mp h
  obtain ⟨_, -, h⟩ := except_bind_eq_ok.mp h
  obtain ⟨_, -, h⟩ := except_bind_eq_ok.mp h
  obtain ⟨_, -, h⟩ := except_bind_eq_ok.mp h
  cases h
  rfl

theorem NativeWrapper.generate_shrinks {far : UInt64 → Prop} {t : Target} {method : NativeMethod} {base : UInt64}
    {w : NativeWrapper} {m n : Int64} (hfar : ∀ e, far (t.runtime.addr e)) (hentry : far method.entry) (hpos : 0 < m)
    (hle : m ≤ t.opts.codeBufferSize) (h : generate t method base = .ok w) :
    Shrinks far base w (generate (t.resized m n) method base) := by
  obtain ⟨p, hplan, h⟩ := except_bind_eq_ok.mp h
  obtain ⟨⟨blob, moves⟩, hgen, h⟩ := except_bind_eq_ok.mp h
  cases h
  rw [ofFault_eq_ok] at hplan
  obtain ⟨asm, hasm, hgen⟩ := except_bind_eq_ok.mp hgen
  obtain ⟨⟨moves', b⟩, hbody, hgen⟩ := except_bind_eq_ok.mp hgen
  obtain ⟨blob', hblob, hgen⟩ := except_bind_eq_ok.mp hgen
  cases hgen
  rw [ofFault_eq_ok] at hasm hbody
  rw [ofFailure_eq_ok] at hblob
  obtain ⟨hsmall, hfits, hin, hbase⟩ := start_cropped hasm hpos hle
  have hmethod := method_of_plan hplan
  have hrun := p.body_same (m := m) (n := n) (hmethod ▸ hentry) hfar hfits hin hbody (working_of_finish hblob)
  have hgenerate : generate (t.resized m n) method base =
      (ofFault (p.body (t.resized m n) (asm.cropped m.toNatClampNeg)) >>= fun r =>
        ofFailure (r.2.finish p.layout.size) >>= fun blob =>
        pure { blob, layout := p.layout, nativeSig := p.nativeSig, moves := r.1 }) := by
    unfold generate Asm.generate
    rw [hplan]
    show ((ofFault (Assembler.start _ base m) >>= _) >>= _) = _
    rw [hsmall]
    show (((ofFault (p.body (t.resized m n) _)) >>= _) >>= _) = _
    cases p.body (t.resized m n) (asm.cropped m.toNatClampNeg) with
    | error e => rfl
    | ok r =>
      show ((ofFailure (r.2.finish p.layout.size) >>= _) >>= _) = (ofFailure (r.2.finish p.layout.size) >>= _)
      cases r.2.finish p.layout.size <;> rfl
  rw [hgenerate]
  rcases hrun with ⟨addr, h1, h2, h3, hstop⟩ | ⟨c', hsame⟩ | ⟨a', hfull, hf⟩
  · exact .inr (.inr ⟨addr, h1, h2, hbase ▸ h3, by rw [hstop]; rfl⟩)
  · refine .inl ?_
    rw [hsame]
    show (ofFailure (b.finish p.layout.size) >>= _) = _
    rw [hblob]
    rfl
  · refine .inr (.inl ⟨a'.buf.name, a'.buf.failure, ?_⟩)
    rw [hfull]
    show (ofFailure (a'.finish p.layout.size) >>= _) = _
    rw [finish_failed hf]
    rfl

/-! ## Every kind of code -/

/-- The address is that of a routine of the runtime. -/
def Target.Routine (t : Target) (addr : UInt64) : Prop := ∃ e, t.runtime.addr e = addr

/-- Code that fits some buffers is generated into smaller ones as it is, or there is a bailout. The
work is only ever stopped by the address of a routine, or of the native function, that has more than
47 bits: next to it, such an address is reached by its distance, and the distance is no longer the
one it was once the buffer failed. -/
theorem smaller_buffers_bail_out (t : Target) (main stubs : Int64) (hmain : 0 < main ∧ main ≤ t.opts.codeBufferSize)
    (hstubs : 0 < stubs ∧ stubs ≤ t.opts.stubBufferSize) :
    (∀ (p : Program) base c, p.compile t base = .ok c →
    Shrinks t.Routine base c (p.compile (t.resized main stubs) base)) ∧
    (∀ sig base blob, Stub.adapters t sig base = .ok blob →
      Shrinks t.Routine base blob (Stub.adapters (t.resized main stubs) sig base)) ∧
    ∀ method base w, NativeWrapper.generate t method base = .ok w →
      Shrinks (fun addr => t.Routine addr ∨ addr = method.entry) base w
        (NativeWrapper.generate (t.resized main stubs) method base) := by
  refine ⟨fun p base c h => ?_, fun sig base blob h => ?_, fun method base w h => ?_⟩
  · exact compile_shrinks (fun e => ⟨e, rfl⟩) hmain.1 hmain.2 h
  · exact Stub.adapters_shrink (fun e => ⟨e, rfl⟩) hstubs.1 hstubs.2 h
  · exact NativeWrapper.generate_shrinks (fun e => .inl ⟨e, rfl⟩) (.inr rfl) hmain.1 hmain.2 h

/-- A method that throws what is in x10 from the pc in x13. -/
def thrower : Program where
  name := "p"
  frameSize := 32
  code := #[{ op := .throwEx, inputs := [.register .address (.x 13) .none, .register .object (.x 10) .none] }]

/-- Code goes where the routine that handles exceptions is just within reach of a pc-relative call. -/
def nearHandler : Target := ⟨{}, RuntimeEntries.empty.set .handleExceptionNoFpu 0x800000000813⟩

theorem thrower_shrinks : 0 < (16 : Int64) ∧ (16 : Int64) ≤ nearHandler.opts.codeBufferSize ∧
    ∃ c, thrower.compile nearHandler 0x7fff80001000 = .ok c ∧
      Shrinks nearHandler.Routine 0x7fff80001000 c (thrower.compile (nearHandler.resized 16 4096) 0x7fff80001000) := by
  refine ⟨by decide, by decide, ?_⟩
  have hcompiles : (thrower.compile nearHandler 0x7fff80001000).toBool = true := by decide +kernel
  cases hc : thrower.compile nearHandler 0x7fff80001000 with
  | error e =>
    rw [hc] at hcompiles
    cases hcompiles
  | ok c => exact ⟨c, rfl, (smaller_buffers_bail_out nearHandler 16 4096 (by decide) (by decide)).1 _ _ c hc⟩

/-- With room for four words the distance is measured from the third one on, and the call stops. -/
theorem thrower_stops : (∃ c, thrower.compile nearHandler 0x7fff80001000 = .ok c) ∧
    thrower.compile (nearHandler.resized 16 4096) 0x7fff80001000 =
      .error (.fault (.precondition "address 0x800000000813 does not fit 47 bits")) := by
  have hcompiles : (thrower.compile nearHandler 0x7fff80001000).toBool = true := by decide +kernel
  have hstops : (match thrower.compile (nearHandler.resized 16 4096) 0x7fff80001000 with
    | .error e => decide (e = .fault (.precondition "address 0x800000000813 does not fit 47 bits"))
    | .ok _ => false) = true := by decide +kernel
  refine ⟨?_, ?_⟩
  · cases hc : thrower.compile nearHandler 0x7fff80001000 with
    | error e =>
      rw [hc] at hcompiles
      cases hcompiles
    | ok c => exact ⟨c, rfl⟩
  · cases hc : thrower.compile (nearHandler.resized 16 4096) 0x7fff80001000 with
    | error e =>
      rw [hc] at hstops
      exact congrArg Except.error (of_decide_eq_true hstops)
    | ok c =>
      rw [hc] at hstops
      cases hstops

end RiscvJit
