import RiscvJit.Proofs.Lower.Simulation

/-
  RiscvJit.Proofs.Lower.Compiled — compiled methods of ints and longs do what their programs say.

  A method is the code of its frame, the code of its instructions and nothing more: the fragment
  has no slow paths (`emitStubs_quiet`), and labels that are referred to were found bound
  (`bound_of_checked`). So a method that was compiled is laid out in its buffer (`method_laid`),
  and a machine that enters it goes through every execution of the program
  (`compile_simulates`).
-/

namespace RiscvJit

open Lower
open EntryPoint

section
variable {t : Target} {s s' : Lowering} {L : Layout} {a : Assembler} {p : Program}

/-! ## The end of a method -/

/-- Without slow paths and unwinding nothing follows the main code. -/
theorem emitStubs_quiet (hq : Quiet s) (h : emitStubs t s = .ok ((), s')) : s' = s := by
  obtain ⟨s0, s1, hget, h⟩ := bind_eq_ok.mp h
  cases hget
  rw [hq.slowPaths] at h
  obtain ⟨b, s1, hpaths, hrest⟩ := bind_eq_ok.mp h
  obtain ⟨rfl, rfl⟩ := pure_eq_ok.mp hpaths
  rw [if_pos rfl] at hrest
  obtain ⟨s0, s2, hget, hunwind⟩ := bind_eq_ok.mp hrest
  cases hget
  rw [hq.unwind] at hunwind
  exact (pure_eq_ok.mp hunwind).2

/-- Labels that are referred to are bound, unless the buffer failed. -/
theorem checkLabels_eq_ok (h : checkLabels t s = .ok ((), s')) :
    s' = s ∧ (s.asm.buf.failed = false → pendingLabel? s = none) := by
  obtain ⟨s0, s1, hget, h⟩ := bind_eq_ok.mp h
  cases hget
  cases hf : s.asm.buf.failed with
  | true =>
    rw [hf] at h
    exact ⟨(pure_eq_ok.mp h).2, nofun⟩
  | false =>
    rw [hf] at h
    cases hpending : pendingLabel? s with
    | none =>
      simp only [hpending] at h
      exact ⟨(pure_eq_ok.mp h).2, fun _ => rfl⟩
    | some id =>
      simp only [hpending] at h
      cases h

theorem bound_of_checked (hr : Ready L s) (h : pendingLabel? s = none) : Bound s.labels L := by
  intro id l hl huses
  cases hm : L.mark l with
  | some n => exact ⟨n, rfl⟩
  | none =>
    have hlabel := hr.holds.label (hr.known id l hl)
    rw [hm] at hlabel
    obtain ⟨before, after, hsplit, -⟩ := List.lookup_eq_some_iff.mp hl
    have hmem : (id, l) ∈ s.labels := by
      rw [hsplit]
      exact List.mem_append_right _ List.mem_cons_self
    -- such a label would have been reported
    have hnone := List.map_eq_nil_iff.mp (List.min?_eq_none_iff.mp h)
    have hfine := List.filter_eq_nil_iff.mp hnone (id, l) hmem
    simp only [hlabel] at hfine
    simp [Except.toOption, LabelState.hasPendingUses, LabelState.isBound, huses] at hfine

/-! ## Whole methods -/

theorem Holds.markEntry (h : Holds L a) (name : String) : Holds L (a.markEntry name) :=
  ⟨h.spells, h.labels, h.sound, h.reaches⟩

/-- A frame is built by code that is laid out first. -/
structure Framed (size : Int64) (is : List Inst) : Prop where
  valid : Valid is
  agrees : ∀ (h : 16 ≤ size.toInt) (M : Machine), let F := M.frame size h
    ∃ m', Runs F.Contains is M m' ∧ Agrees F M (M.activation F.base) m'

/-- A method that did not fail its buffer is laid out: its frame, then its instructions. -/
theorem method_laid (hstart : Holds {} a) (hentries : a.entries = []) (hsize : 16 ≤ p.frameSize.toInt) (hp : p.Integral)
    (h : method t { asm := a, prog := p } = .ok ((), s')) (hworking : s'.asm.buf.failed = false) :
    ∃ is L place, Framed p.frameSize is ∧ Holds L s'.asm ∧ plain is <+: L.pieces ∧ place 0 = is.length ∧
      Laid p.frameSize s'.labels p.code.toList L place ∧ Bound s'.labels L ∧
      ∃ off, s'.asm.entries = [(verified, 0), (frameComplete, off)] := by
  obtain ⟨s0, s1, hget, h⟩ := bind_eq_ok.mp h
  cases hget
  obtain ⟨_, s1, hmark, h⟩ := bind_eq_ok.mp h
  obtain ⟨a1, ha1, rfl⟩ := asm_eq_ok.mp hmark
  cases ha1
  obtain ⟨_, s2, hbuild, h⟩ := bind_eq_ok.mp h
  obtain ⟨a2, ha2, rfl⟩ := asm_eq_ok.mp hbuild
  obtain ⟨is, hwrote, hagrees⟩ := buildFrame_agrees hsize ha2
  obtain ⟨_, s3, hmark, h⟩ := bind_eq_ok.mp h
  obtain ⟨a3, ha3, rfl⟩ := asm_eq_ok.mp hmark
  cases ha3
  obtain ⟨_, s4, hcode, h⟩ := bind_eq_ok.mp h
  obtain ⟨_, s5, hstubs, hlabels⟩ := bind_eq_ok.mp h
  have hready : a2.buf.failed = false → Ready (Layout.write {} (plain is))
      { asm := a2.markEntry frameComplete, prog := p } := fun hworking =>
    ⟨(hwrote.holds (hstart.markEntry _) hworking).markEntry _, nofun, rfl, rfl⟩
  cases hf : a2.buf.failed with
  | true =>
    -- a buffer that failed is never used again
    obtain rfl := instructions_failed hf hcode
    obtain rfl := emitStubs_quiet ⟨rfl, rfl⟩ hstubs
    obtain ⟨rfl, -⟩ := checkLabels_eq_ok hlabels
    cases hf.symm.trans hworking
  | false =>
    obtain ⟨hquiet, hlaid⟩ := instructions_laid (hready hf) hsize hp hcode
    obtain rfl := emitStubs_quiet hquiet hstubs
    obtain ⟨rfl, hchecked⟩ := checkLabels_eq_ok hlabels
    obtain ⟨L, place, hr, hext, hplace, hlaid⟩ := hlaid hworking
    refine ⟨is, L, place, ⟨hwrote.decodes, fun _ => hagrees⟩, hr.holds, hext.pieces,
      hplace.trans (length_plain is), hlaid, bound_of_checked hr (hchecked hworking), a2.buf.offset, ?_⟩
    have hfirst : a2.entries = [(verified, 0)] := by
      rw [hwrote.code]
      show a.entries.filter _ ++ [(verified, a.buf.offset)] = _
      rw [hentries, hstart.offset]
      rfl
    rw [hext.entries]
    show a2.entries.filter _ ++ [(frameComplete, a2.buf.offset)] = _
    rw [hfirst]
    rfl

/-! ## Compiled methods -/

theorem ofFault_eq_ok {α : Type} {e : Except Fault α} {r : α} : Stop.ofFault e = .ok r ↔ e = .ok r := by
  cases e <;> simp [Stop.ofFault]

theorem ofFailure_eq_ok {α : Type} {e : Except Failure α} {r : α} : Stop.ofFailure e = .ok r ↔ e = .ok r := by
  cases e <;> simp [Stop.ofFailure]

/-- A compiled method was lowered into a buffer that did not fail, and has its bytes. -/
theorem compile_eq_ok {base : UInt64} {c : CompiledMethod} (h : p.compile t base = .ok c) :
    16 ≤ p.frameSize.toInt ∧ ∃ a s', Holds {} a ∧ a.entries = [] ∧
      method t { asm := a, prog := p } = .ok ((), s') ∧ s'.asm.buf.failed = false ∧
      c.blob.code = s'.asm.buf.bytes.toList ∧ c.blob.entries = s'.asm.entries.map fun (n, off) =>
      (n, Int64.ofNat off) := by
  obtain ⟨_, hframe, h⟩ := except_bind_eq_ok.mp h
  obtain ⟨a, ha, h⟩ := except_bind_eq_ok.mp h
  dsimp only at h
  split at h
  · cases h
  obtain ⟨⟨_, s'⟩, hmethod, h⟩ := except_bind_eq_ok.mp h
  obtain ⟨blob, hblob, h⟩ := except_bind_eq_ok.mp h
  cases h
  rw [ofFault_eq_ok] at hframe ha hmethod
  rw [ofFailure_eq_ok] at hblob
  obtain ⟨_, -, hroom⟩ := except_bind_eq_ok.mp hframe
  have hroom := Int64.le_iff_toInt_le.mp (of_decide_eq_true (check_eq_ok.mp hroom))
  have hleast : (16 : Int) ≤ (16 + Program.reservedArgumentArea).toInt := by decide
  obtain ⟨buf, hbuf, rfl⟩ : ∃ buf, CodeBuffer.create p.name base t.opts.codeBufferSize = .ok buf ∧ a = { buf } := by
    cases hbuf : CodeBuffer.create p.name base t.opts.codeBufferSize with
    | error e =>
      rw [Assembler.start, hbuf] at ha
      cases ha
    | ok buf =>
      rw [Assembler.start, hbuf] at ha
      cases ha
      exact ⟨buf, rfl, rfl⟩
  refine ⟨Int.le_trans hleast hroom, { buf }, s', holds_create hbuf, rfl, hmethod, ?_⟩
  unfold Assembler.finish at hblob
  split at hblob
  · cases hblob
  · rename_i hworking
    cases hblob
    exact ⟨Bool.of_not_eq_true hworking, rfl, rfl⟩

/-- Compiled methods of ints and longs do what their programs say. A machine that enters the code
at its verified entry, with a frame that does not lie over the code, goes through every
execution of the program that starts with the machine's own registers and stack: at every
instruction of the program it stands at the place of that instruction with the same registers
and slots, and when the program returns it is back at its caller with the result. -/
theorem compile_simulates {base : UInt64} {c : CompiledMethod} (hp : p.Integral) (h : p.compile t base = .ok c) :
    ∃ (hsize : 16 ≤ p.frameSize.toInt) (place : Nat → Nat) (entry : Int64),
      c.blob.entryOffset verified = .ok entry ∧ ∀ (M : Machine) (start : UInt64),
        let F := M.frame p.frameSize hsize
        let σ := M.activation F.base
        M.Loaded start c.blob.code.toArray → M.pc = start + entry.toUInt64 → F.Clear start c.blob.size →
        ∀ n S, p.run? σ n = some S → ∃ times, GoesThrough F M start place p σ n times := by
  obtain ⟨hsize, a, s', hstart, hentries, hmethod, hworking, hcode, hentry⟩ := compile_eq_ok h
  obtain ⟨is, L, place, hframed, hL, hextends, hplace, hlaid, hbound, off, hall⟩ :=
    method_laid hstart hentries hsize hp hmethod hworking
  refine ⟨hsize, place, 0, ?_, fun M start => ?_⟩
  · rw [CodeBlob.entryOffset, hentry, hall]
    rfl
  · intro F σ hM hpc hclear n S hrun
    rw [hcode, Array.toArray_toList] at hM
    rw [CodeBlob.size, hcode, Array.length_toList] at hclear
    have hpc : M.pc = start + UInt64.ofNat (4 * 0) := hpc
    obtain ⟨m, hruns, hagree⟩ := hframed.agrees hsize M
    rw [← List.nil_append (plain is)] at hextends
    obtain ⟨hsteps, hpc'⟩ := hL.steps_plain hM hclear hframed.valid hextends hpc hruns
    have hmatch : Matches F M start place (.running σ) m := by
      refine ⟨?_, hagree⟩
      show m.pc = start + UInt64.ofNat (4 * place 0)
      rw [hpc', hplace, List.nil_append, length_plain]
    obtain ⟨times, -, hthrough⟩ := hlaid.run hL hM hclear hbound hsize rfl hsteps hmatch hrun
    exact ⟨times, hthrough⟩

end

/-- Adds up the numbers from five down to one, counting in a slot of the frame. -/
def sumDown : Program :=
  let x (n : Fin 32) : Operand := .register .int (.x n) .none
  { name := "sumDown", frameSize := 48, labels := 1
    code := #[
      { op := .move, inputs := [.constant .int 5], result := .stack .int 4 },
      { op := .move, inputs := [.constant .int 0], result := x 10 },
      { op := .label, label := 1 },
      { op := .move, inputs := [.stack .int 4], result := x 11 },
      { op := .add, inputs := [x 10, x 11], result := x 10 },
      { op := .sub, inputs := [x 11, .constant .int 1], result := x 11 },
      { op := .move, inputs := [x 11], result := .stack .int 4 },
      { op := .cmpBranch, cond := .ne, inputs := [.stack .int 4, .constant .int 0], target := 1 },
      { op := .ret, inputs := [x 10] }] }

/-- A machine that enters code at `0x1000`, called from `0x4000` with its stack at `0x8000`. -/
def caller (code : List UInt8) : Machine where
  x n := if n = 1 then 0x4000 else if n = 2 then 0x8000 else 0
  f _ := 0
  pc := 0x1000
  mem addr := code.getD (addr - 0x1000).toNat 0

theorem loaded_caller {code : List UInt8} (h : code.length ≤ 0x1000) : (caller code).Loaded 0x1000 code.toArray := by
  intro i hi
  have hi : i < code.length := by simpa using hi
  show code.getD (0x1000 + UInt64.ofNat i - 0x1000).toNat 0 = _
  rw [Ram.add_sub_self, UInt64.toNat_ofNat_of_lt' (by rw [UInt64.size]; omega), List.getD_eq_getElem?_getD,
    List.getElem?_eq_getElem hi]
  rfl

theorem both_inputs {P : Operand → Prop} {left right : Operand} (hl : P left) (hr : P right) :
    ∀ n < 2, ∀ o, [left, right][n]? = some o → P o := by
  intro n hn o ho
  match n with
  | 0 => cases ho; exact hl
  | 1 => cases ho; exact hr

theorem sumDown_integral : sumDown.Integral := by
  have hreg {r : Reg} (h : r.isInt = true) : (Operand.register .int r .none).Integral sumDown.frameSize := ⟨.inl rfl, h⟩
  have hconst {bits : UInt64} : (Operand.constant .int bits).Integral sumDown.frameSize := .inl rfl
  have hslot : (Operand.stack .int 4).Integral sumDown.frameSize := ⟨.inl rfl, by decide⟩
  intro i hi
  simp only [sumDown, List.mem_cons, List.not_mem_nil, or_false] at hi
  rcases hi with rfl | rfl | rfl | rfl | rfl | rfl | rfl | rfl | rfl
  · exact ⟨hslot, fun o ho => by cases ho; exact ⟨hconst, rfl⟩⟩
  · exact ⟨hreg rfl, fun o ho => by cases ho; exact ⟨hconst, rfl⟩⟩
  · trivial
  · exact ⟨hreg rfl, fun o ho => by cases ho; exact ⟨hslot, rfl⟩⟩
  · exact ⟨hreg rfl, both_inputs ⟨hreg rfl, rfl⟩ ⟨hreg rfl, rfl⟩⟩
  · exact ⟨hreg rfl, both_inputs ⟨hreg rfl, rfl⟩ ⟨hconst, rfl⟩⟩
  · exact ⟨hslot, fun o ho => by cases ho; exact ⟨hreg rfl, rfl⟩⟩
  · exact .inr (both_inputs hslot hconst)
  · exact fun o ho => by cases ho; exact hreg rfl

theorem sumDown_frame (code : List UInt8) (h : 16 ≤ sumDown.frameSize.toInt) :
    ((caller code).frame sumDown.frameSize h).base = 0x7fd0 ∧ ((caller code).frame sumDown.frameSize h).size = 48 := by
  have hsp : (caller code).get .sp = 0x8000 := rfl
  refine ⟨?_, rfl⟩
  rw [Machine.frame, hsp]
  rfl

theorem sumDown_returns (code : List UInt8) :
    sumDown.run? ((caller code).activation 0x7fd0) 33 = some (.returned (some 15)) := by
  cbv

/-- The loop is compiled, and its code returns fifteen to the caller. -/
theorem sumDown_runs : sumDown.Integral ∧ ∃ c, sumDown.compile ⟨{}, .empty⟩ 0 = .ok c ∧
    ∃ k m, (caller c.blob.code).steps k = some m ∧ m.pc = 0x4000 ∧ m.get (.x 10) = 15 ∧ m.get .sp = 0x8000 := by
  refine ⟨sumDown_integral, ?_⟩
  have hcompiles : (match sumDown.compile ⟨{}, .empty⟩ 0 with
    | .ok c => decide (c.blob.size ≤ 0x1000 ∧ c.blob.entries.lookup verified = some 0)
    | .error _ => false) = true := by decide +kernel
  cases hc : sumDown.compile ⟨{}, .empty⟩ 0 with
  | error e =>
    rw [hc] at hcompiles
    cases hcompiles
  | ok c =>
    rw [hc] at hcompiles
    obtain ⟨hroom, hfirst⟩ := of_decide_eq_true hcompiles
    obtain ⟨hsize, place, entry, hentry, hgoes⟩ := compile_simulates sumDown_integral hc
    rw [CodeBlob.entryOffset, hfirst] at hentry
    cases hentry
    obtain ⟨hbase, hbytes⟩ := sumDown_frame c.blob.code hsize
    have hreturns : sumDown.run? ((caller c.blob.code).activation
        ((caller c.blob.code).frame sumDown.frameSize hsize).base) 33 = some (.returned (some 15)) := by
      rw [hbase]
      exact sumDown_returns c.blob.code
    have hclear : ((caller c.blob.code).frame sumDown.frameSize hsize).Clear 0x1000 c.blob.size := by
      intro i hi hin
      rw [StackFrame.Contains, hbase, hbytes, UInt64.toNat_sub, UInt64.toNat_add,
        UInt64.toNat_ofNat_of_lt' (by rw [UInt64.size]; omega)] at hin
      simp only [UInt64.reduceToNat] at hin
      omega
    obtain ⟨times, hthrough⟩ := hgoes (caller c.blob.code) 0x1000 (loaded_caller hroom) rfl hclear 33 _ hreturns
    obtain ⟨S, m, hS, hm, hleft⟩ := hthrough.reached 33 (Nat.le_refl _)
    rw [hreturns] at hS
    cases hS
    exact ⟨c, rfl, _, m, hm, hleft.home (show (0x4000 : UInt64) % 2 = 0 by decide), hleft.result 15 rfl, hleft.sp⟩

end RiscvJit
