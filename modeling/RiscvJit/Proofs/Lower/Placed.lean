import RiscvJit.Proofs.Code.Finished
import RiscvJit.Proofs.Lower.Grown

/-
  RiscvJit.Proofs.Lower.Placed — where the code of one instruction stands in a compiled method.

  The code of instruction `k` starts where the frame and the instructions before it end
  (`Program.placeOf`). It stays there in the finished code, whatever instructions come before and
  after it, and so does the code of each slow path that it leaves to be written later
  (`compile_placed`). Either is a part of the finished code (`Part`) that can be run on its own:
  as a site that begins where the part begins (`Finished.siteFrom`).
-/

namespace RiscvJit

open Asm
open EntryPoint

namespace Lower

/-- What comes before instruction `k`: the frame and the instructions before it. -/
def opening (p : Program) (k : Nat) : Lower Unit := do
  markEntry verified
  buildFrame p.frameSize
  markEntry frameComplete
  instructions (p.code.toList.take k)

instance grows_opening (p : Program) (k : Nat) : Grows (opening p k) := by
  unfold opening
  infer_instance

end Lower

/-- The offset at which the code of instruction `k` starts. -/
def Program.placeOf (p : Program) (t : Target) (base : UInt64) (k : Nat) : Except Fault Nat := do
  let asm ← Assembler.start p.name base t.opts.codeBufferSize
  let ((), s) ← Lower.opening p k t { asm, prog := p }
  return s.asm.buf.offset

/-- What lowering a method keeps track of, at its end. -/
def Program.lowered (p : Program) (t : Target) (base : UInt64) : Except Fault Lowering := do
  let asm ← Assembler.start p.name base t.opts.codeBufferSize
  let ((), s) ← Lower.method t { asm, prog := p }
  return s

/-- Code from one assembler to the other is part of what was finished. -/
structure Part (t : Target) (base : UInt64) (last a a' : Assembler) : Prop where
  rooted : ∃ L, Anchored 0 L a
  base : a.buf.base = base
  grown : Assembler.Grown t a' last

/-- The code of instruction `k` and of the slow paths that are left when it is lowered. -/
structure Placed (t : Target) (p : Program) (base : UInt64) (k : Nat) (i : Instruction) (last : Assembler)
    (sites : List DebugSite)
    (s s' : Lowering) : Prop where
  lowered : Lower.instruction i t s = .ok ((), s')
  part : Part t base last s.asm s'.asm
  place : p.placeOf t base k = .ok s.asm.buf.offset
  next : p.placeOf t base (k + 1) = .ok s'.asm.buf.offset
  paths : ∀ path ∈ s'.slowPaths.toList, ∃ u u', Lower.emitSlowPath path t u = .ok ((), u') ∧
    Part t base last u.asm u'.asm ∧ u'.sites.toList <+: sites
  grown : ∃ u, p.lowered t base = .ok u ∧ u.asm = last ∧ Lowering.Grown t s' u

section
variable {t : Target} {p : Program} {base : UInt64} {last a a' : Assembler} {s s' : Lowering}

theorem Part.holds (h : Part t base last a a') : ∃ L, Holds L a := h.rooted.imp fun _ hL => hL.holds

theorem Part.behind (h : Part t base last a a') : a.Behind := h.rooted.elim fun _ hL => hL.behind

theorem Part.inner (h : Part t base last a a') {b b' : Assembler} (hb : Assembler.Grown t a b)
    (hbb : Assembler.Grown t b b')
    (hb' : Assembler.Grown t b' a') (hw : last.buf.failed = false) : Part t base last b b' := by
  have hgrown : Assembler.Grown t b' last := hb'.trans h.grown
  have hwb := hbb.working (hgrown.working hw)
  obtain ⟨L, hL⟩ := h.rooted
  obtain ⟨L', hL', -⟩ := hb.anchored hL hwb
  exact ⟨⟨L', hL'⟩, (hb.base hwb).trans h.base, hgrown⟩

/-! ## Instructions and slow paths of a method -/

variable {c : CompiledMethod} {first : Assembler} {k : Nat} {i : Instruction}

theorem instructions_cons_ok {rest : List Instruction} (hf : s.asm.buf.failed = false)
    (h : Lower.instruction i t s = .ok ((), s')) : Lower.instructions (i :: rest) t s = Lower.instructions rest t s' := by
  rw [Lower.instructions, Lower.bind_ok Lower.failed_ok, if_neg (by rw [hf]; decide), Lower.bind_ok h]

/-- While the buffer works, two lists of instructions are lowered one after the other. -/
theorem instructions_append {pre post : List Instruction} {s1 : Lowering} (hw : s1.asm.buf.failed = false)
    (h : Lower.instructions pre t s = .ok ((), s1)) :
    Lower.instructions (pre ++ post) t s = Lower.instructions post t s1 := by
  induction pre generalizing s with
  | nil =>
    obtain ⟨-, rfl⟩ := Lower.pure_eq_ok.mp h
    rfl
  | cons i pre ih =>
    have hf := ((Lower.grows_instructions _).grown h).asm.working hw
    obtain ⟨s2, hi, hrest⟩ := instructions_cons hf h
    exact (instructions_cons_ok hf hi).trans (ih hrest)

theorem instructions_split {pre post : List Instruction} (h : Lower.instructions (pre ++ post) t s = .ok ((), s'))
    (hw : s'.asm.buf.failed = false) :
    ∃ s1, Lower.instructions pre t s = .ok ((), s1) ∧ Lower.instructions post t s1 = .ok ((), s') := by
  induction pre generalizing s with
  | nil => exact ⟨s, rfl, h⟩
  | cons i pre ih =>
    have hf := ((Lower.grows_instructions _).grown h).asm.working hw
    obtain ⟨s1, hi, hrest⟩ := instructions_cons hf h
    obtain ⟨s2, hpre, hpost⟩ := ih hrest
    exact ⟨s2, (instructions_cons_ok hf hi).trans hpre, hpost⟩

/-- A stub, from `v`, where it is opened, to `w`, where it is closed. -/
structure Stubbed (t : Target) (name : String) (x : Lower Unit) (v u u' w : Lowering) : Prop where
  opened : ∃ size, (startStub name size : Lower Bool) t v = .ok (true, u)
  body : x t u = .ok ((), u')
  closed : (endStub : Lower Unit) t u' = .ok ((), w)

section
variable {name : String} {x : Lower Unit} {v u u' w : Lowering}

theorem Stubbed.before (h : Stubbed t name x v u u' w) : Lowering.Grown t v u := by
  obtain ⟨size, hopened⟩ := h.opened
  exact (Lower.grows_asm (startStub name size)).grown hopened

theorem Stubbed.after (h : Stubbed t name x v u u' w) : Lowering.Grown t u' w := (Lower.grows_asm endStub).grown h.closed

end

/-- While the buffer works, a stub is written, and so is what follows it. -/
theorem stub_written {α : Type} {name : String} {size : Int64} {x : Lower Unit} {done : Lower α} {missing r : α}
    (h : Lower.stub name size x done missing t s = .ok (r, s')) (hw : s'.asm.buf.failed = false) :
    ∃ u u' w, Stubbed t name x s u u' w ∧ done t w = .ok (r, s') := by
  obtain ⟨ok, s1, hstart, h⟩ := Lower.bind_eq_ok.mp h
  cases ok with
  | false =>
    obtain ⟨a1, ha1, rfl⟩ := Lower.asm_eq_ok.mp hstart
    obtain ⟨-, rfl⟩ := Lower.pure_eq_ok.mp h
    obtain ⟨buf, rfl, -, -, -, ⟨hok, -⟩ | ⟨-, hfailed⟩⟩ := startStub_cases ha1
    · cases hok
    · cases hfailed.symm.trans hw
  | true =>
    obtain ⟨_, u', hemit, h⟩ := Lower.bind_eq_ok.mp h
    obtain ⟨_, w, hend, hrest⟩ := Lower.bind_eq_ok.mp h
    exact ⟨s1, u', w, ⟨⟨size, hstart⟩, hemit, hend⟩, hrest⟩

/-- A slow path, under its name. -/
def Lower.named (path : SlowPath) : Lower Unit := do
  comment path.name
  Lower.emitSlowPath path

/-- The slow path was written in a stub on the way. -/
def SlowPath.WrittenBetween (path : SlowPath) (t : Target) (s s' : Lowering) : Prop :=
  ∃ v u u' w, Stubbed t path.name (Lower.named path) v u u' w ∧ Lowering.Grown t s v ∧ Lowering.Grown t w s'

theorem SlowPath.WrittenBetween.emitted {path : SlowPath} (h : path.WrittenBetween t s s') :
    ∃ u u', Lower.emitSlowPath path t u = .ok ((), u') ∧ Lowering.Grown t s u ∧ Lowering.Grown t u' s' := by
  obtain ⟨v, u0, u', w, hstub, hbefore, hafter⟩ := h
  obtain ⟨_, u, hcomment, hemit⟩ := Lower.bind_eq_ok.mp hstub.body
  exact ⟨u, u', hemit, (hbefore.trans hstub.before).trans ((Lower.grows_asm (comment path.name)).grown hcomment),
    hstub.after.trans hafter⟩

theorem emitSlowPaths_each {paths : List SlowPath} {r : Bool} (h : Lower.emitSlowPaths paths t s = .ok (r, s'))
    (hw : s'.asm.buf.failed = false) : r = true ∧ ∀ path ∈ paths, path.WrittenBetween t s s' := by
  induction paths generalizing s with
  | nil =>
    obtain ⟨rfl, -⟩ := Lower.pure_eq_ok.mp h
    exact ⟨rfl, fun path hmem => nomatch hmem⟩
  | cons first rest ih =>
    rw [Lower.emitSlowPaths_cons] at h
    obtain ⟨u, u', v, hstub, hrest⟩ := stub_written h hw
    obtain ⟨hall, hothers⟩ := ih hrest
    refine ⟨hall, fun path hmem => ?_⟩
    rcases List.mem_cons.mp hmem with rfl | hmem
    · exact ⟨s, u, u', v, hstub, Lowering.grown_refl t s, (Lower.grows_emitSlowPaths rest).grown hrest⟩
    · obtain ⟨v1, u1, u1', w1, hstub1, hbefore, hafter⟩ := hothers path hmem
      obtain ⟨_, u2, hcomment, hemit⟩ := Lower.bind_eq_ok.mp hstub.body
      have hbody := ((Lower.grows_asm (comment first.name)).grown hcomment).trans
        ((Lower.grows_emitSlowPath first).grown hemit)
      exact ⟨v1, u1, u1', w1, hstub1, ((hstub.before.trans hbody).trans hstub.after).trans hbefore, hafter⟩

/-- The end of a method writes every slow path, and then the unwind handler if something jumps to it. -/
theorem emitStubs_each (h : Lower.emitStubs t s = .ok ((), s')) (hw : s'.asm.buf.failed = false) :
    Lowering.Grown t s s' ∧ (∀ path ∈ s.slowPaths.toList, path.WrittenBetween t s s') ∧
      ∀ l, s'.unwind = some l → ∃ b b', Lower.unwindHandler s.prog l t b = .ok ((), b') ∧ Assembler.Grown t s.asm b ∧
        Assembler.Grown t b' s'.asm := by
  rw [Lower.emitStubs_eq] at h
  obtain ⟨s0, s1, hget, h⟩ := Lower.bind_eq_ok.mp h
  cases hget
  obtain ⟨all, s1, hpaths, hrest⟩ := Lower.bind_eq_ok.mp h
  have hgrowPaths := (Lower.grows_emitSlowPaths _).grown hpaths
  have hunwind : Lowering.Grown t s1 s' := by
    cases all with
    | true => exact (Lower.grows_bind get Lower.unwindStub).grown hrest
    | false => exact (Lower.grows_pure ()).grown hrest
  obtain ⟨rfl, heach⟩ := emitSlowPaths_each hpaths (hunwind.asm.working hw)
  refine ⟨hgrowPaths.trans hunwind, fun path hmem => ?_, fun l hl => ?_⟩
  · obtain ⟨v, u, u', w, hstub, hbefore, hafter⟩ := heach path hmem
    exact ⟨v, u, u', w, hstub, hbefore, hafter.trans hunwind⟩
  · obtain ⟨s2, _, hget, hstub⟩ := Lower.bind_eq_ok.mp hrest
    cases hget
    unfold Lower.unwindStub at hstub
    cases hentry : s1.unwind with
    | none =>
      rw [hentry] at hstub
      obtain ⟨-, rfl⟩ := Lower.pure_eq_ok.mp hstub
      cases hentry.symm.trans hl
    | some entry =>
      rw [hentry] at hstub
      obtain rfl : l = entry := Option.some.inj (hl.symm.trans (hunwind.unwind _ hentry))
      obtain ⟨u, u', v, hwritten, hdone⟩ := stub_written hstub hw
      obtain ⟨-, rfl⟩ := Lower.pure_eq_ok.mp hdone
      obtain ⟨b', hb', rfl⟩ := Lower.asm_eq_ok.mp hwritten.body
      rw [hgrowPaths.prog] at hb'
      exact ⟨u.asm, b', hb', (hgrowPaths.trans hwritten.before).asm, hwritten.after.asm⟩

/-! ## Compiled methods -/

/-- What a compiled method is made of. -/
theorem compile_finished (h : p.compile t base = .ok c) : ∃ first last,
    Assembler.start p.name base t.opts.codeBufferSize = .ok first ∧ Finished base c.blob first last.asm ∧
      Lower.method t { asm := first, prog := p } = .ok ((), last) ∧ c.sites = last.sites.toList := by
  obtain ⟨_, -, h⟩ := except_bind_eq_ok.mp h
  obtain ⟨first, hfirst, h⟩ := except_bind_eq_ok.mp h
  dsimp only at h
  split at h
  · cases h
  obtain ⟨⟨_, last⟩, hmethod, h⟩ := except_bind_eq_ok.mp h
  obtain ⟨blob, hblob, h⟩ := except_bind_eq_ok.mp h
  cases h
  rw [ofFault_eq_ok] at hfirst hmethod
  rw [ofFailure_eq_ok] at hblob
  exact ⟨first, last, hfirst, finished_of hfirst hblob, hmethod, rfl⟩

theorem placeOf_eq (hfirst : Assembler.start p.name base t.opts.codeBufferSize = .ok first)
    (h : Lower.opening p k t { asm := first, prog := p } = .ok ((), s)) : p.placeOf t base k = .ok s.asm.buf.offset := by
  rw [Program.placeOf, hfirst]
  show (Lower.opening p k t { asm := first, prog := p } >>= _) = _
  rw [h]
  rfl

theorem lowered_eq (hfirst : Assembler.start p.name base t.opts.codeBufferSize = .ok first)
    (h : Lower.method t { asm := first, prog := p } = .ok ((), s)) : p.lowered t base = .ok s := by
  rw [Program.lowered, hfirst]
  show (Lower.method t { asm := first, prog := p } >>= _) = _
  rw [h]
  rfl

theorem start_lastFence {name : String} {size : Int64} (h : Assembler.start name base size = .ok first) :
    first.lastFence = none := by
  unfold Assembler.start at h
  cases hbuf : CodeBuffer.create name base size with
  | error e => rw [hbuf] at h; cases h
  | ok buf =>
    rw [hbuf] at h
    cases h
    rfl

/-- Code that was written on the way from a fresh assembler to the end. -/
theorem Finished.part {blob : CodeBlob} (h : Finished base blob first last) (hfence : first.lastFence = none)
    (hbegin : Assembler.Grown t first a) (hwa : a.buf.failed = false) (hend : Assembler.Grown t a' last) :
    Part t base last a a' := by
  obtain ⟨L, hL, -⟩ := hbegin.anchored (anchored_of_holds h.fresh h.behind (by rw [Assembler.mergeable?, hfence])) hwa
  exact ⟨⟨L, hL⟩, (hbegin.base hwa).trans h.base, hend⟩

/-- How a method was lowered, seen from one of its instructions: what comes before it, the instruction, and
the end that is left. -/
structure Unfolded (t : Target) (p : Program) (base : UInt64) (k : Nat) (i : Instruction) (first : Assembler)
    (s s' s1 last : Lowering) : Prop where
  start : Assembler.start p.name base t.opts.codeBufferSize = .ok first
  before : Lower.opening p k t { asm := first, prog := p } = .ok ((), s)
  lowered : Lower.instruction i t s = .ok ((), s')
  upto : Lower.opening p (k + 1) t { asm := first, prog := p } = .ok ((), s')
  after : Lowering.Grown t s' s1
  stubs : Lower.emitStubs t s1 = .ok ((), last)
  whole : p.lowered t base = .ok last

/-- Every instruction of a compiled method was lowered. -/
theorem compile_unfolded (h : p.compile t base = .ok c) (hk : p.code[k]? = some i) :
    ∃ first s s' s1 last, Finished base c.blob first last.asm ∧
      Unfolded t p base k i first s s' s1 last ∧ c.sites = last.sites.toList := by
  obtain ⟨first, last, hfirst, hfinished, hmethod, hsites⟩ := compile_finished h
  have hw := hfinished.working
  obtain ⟨s0, _, hget, h⟩ := Lower.bind_eq_ok.mp hmethod
  cases hget
  obtain ⟨_, s1, hverified, h⟩ := Lower.bind_eq_ok.mp h
  obtain ⟨_, s2, hframe, h⟩ := Lower.bind_eq_ok.mp h
  obtain ⟨_, s3, hcomplete, h⟩ := Lower.bind_eq_ok.mp h
  obtain ⟨_, s4, hcode, h⟩ := Lower.bind_eq_ok.mp h
  obtain ⟨_, s5, hstubs, hlabels⟩ := Lower.bind_eq_ok.mp h
  obtain ⟨hlast, -⟩ := checkLabels_eq_ok hlabels
  rw [← hlast] at hstubs
  obtain ⟨hstubsGrown, -⟩ := emitStubs_each hstubs hw
  -- the instructions before, the instruction itself and those after it
  have hsplit : p.code.toList = p.code.toList.take k ++ i :: p.code.toList.drop (k + 1) := by
    have hlist : p.code.toList[k]? = some i := by rw [Array.getElem?_toList, hk]
    obtain ⟨hlt, hi⟩ := List.getElem?_eq_some_iff.mp hlist
    rw [← hi, List.getElem_cons_drop, List.take_append_drop]
  rw [hsplit] at hcode
  have hw4 := hstubsGrown.asm.working hw
  obtain ⟨s, hbefore, hcode⟩ := instructions_split hcode hw4
  have hws := ((Lower.grows_instructions _).grown hcode).asm.working hw4
  obtain ⟨s', hlowered, hafter⟩ := instructions_cons hws hcode
  have hopening (j : Nat) {s6 : Lowering} (hj : Lower.instructions (p.code.toList.take j) t s3 = .ok ((), s6)) :
      Lower.opening p j t { asm := first, prog := p } = .ok ((), s6) :=
    Lower.bind_eq_ok.mpr ⟨_, _, hverified, Lower.bind_eq_ok.mpr ⟨_, _, hframe,
    Lower.bind_eq_ok.mpr ⟨_, _, hcomplete, hj⟩⟩⟩
  have hnext : Lower.instructions (p.code.toList.take (k + 1)) t s3 = .ok ((), s') := by
    have htake : p.code.toList.take (k + 1) = p.code.toList.take k ++ [i] := by
      rw [List.take_add_one, Array.getElem?_toList, hk]
      rfl
    rw [htake, instructions_append hws hbefore, instructions_cons_ok hws hlowered]
    rfl
  exact ⟨first, s, s', s4, last, hfinished, ⟨hfirst, hopening k hbefore, hlowered, hopening (k + 1) hnext,
    (Lower.grows_instructions _).grown hafter, hstubs, lowered_eq hfirst hmethod⟩, hsites⟩

section
variable {blob : CodeBlob} {k : Nat} {i : Instruction} {first : Assembler} {s1 last u u' : Lowering}

/-- Code on the way from the instruction to the end is a part of what was finished. -/
theorem Unfolded.part (h : Unfolded t p base k i first s s' s1 last) (hfinished : Finished base blob first last.asm)
    {b b' : Assembler} (hbegin : Assembler.Grown t s.asm b) (hgrown : Assembler.Grown t b b')
    (hend : Assembler.Grown t b' last.asm) :
    Part t base last.asm b b' :=
  hfinished.part (start_lastFence h.start) (((Lower.grows_opening p k).grown h.before).asm.trans hbegin)
    (hgrown.working (hend.working hfinished.working)) hend

theorem Unfolded.grown (h : Unfolded t p base k i first s s' s1 last) (hw : last.asm.buf.failed = false) :
    Lowering.Grown t s' last :=
  h.after.trans (emitStubs_each h.stubs hw).1

theorem Unfolded.writes (h : Unfolded t p base k i first s s' s1 last) (hw : last.asm.buf.failed = false)
    {path : SlowPath} (hmem : path ∈ s'.slowPaths.toList) : path.WrittenBetween t s' last := by
  obtain ⟨v, u, u', w, hstub, hbefore, hafter⟩ := (emitStubs_each h.stubs hw).2.1 path (h.after.slowPaths.subset hmem)
  exact ⟨v, u, u', w, hstub, h.after.trans hbefore, hafter⟩

end

/-- The code of every instruction of a compiled method stands in its code, and so does that of the slow paths. -/
theorem compile_placed (h : p.compile t base = .ok c) (hk : p.code[k]? = some i) :
    ∃ first last s s', Finished base c.blob first last ∧ Placed t p base k i last c.sites s s' := by
  obtain ⟨first, s, s', s1, last, hfinished, hunfolded, hsites⟩ := compile_unfolded h hk
  have hw := hfinished.working
  have hgrown := (Lower.grows_instruction i).grown hunfolded.lowered
  have hend := hunfolded.grown hw
  refine ⟨first, last.asm, s, s', hfinished, hunfolded.lowered, hunfolded.part hfinished .refl hgrown.asm hend.asm,
    placeOf_eq hunfolded.start hunfolded.before, placeOf_eq hunfolded.start hunfolded.upto, fun path hmem => ?_,
    last, hunfolded.whole, rfl, hend⟩
  obtain ⟨u, u', hemit, hu, hu'⟩ := (hunfolded.writes hw hmem).emitted
  refine ⟨u, u', hemit, hunfolded.part hfinished (hgrown.asm.trans hu.asm)
    ((Lower.grows_emitSlowPath path).grown hemit).asm hu'.asm, ?_⟩
  rw [hsites]
  exact hu'.sites

/-- The unwind handler of a compiled method that has one stands in its code. -/
theorem compile_unwinds {l : Label} (h : p.compile t base = .ok c) (hs : p.lowered t base = .ok s)
    (hl : s.unwind = some l) :
    ∃ first b b', Finished base c.blob first s.asm ∧ Lower.unwindHandler p l t b = .ok ((), b') ∧
      Part t base s.asm b b' := by
  obtain ⟨first, last, hfirst, hfinished, hmethod, -⟩ := compile_finished h
  obtain rfl : s = last := Except.ok.inj (hs.symm.trans (lowered_eq hfirst hmethod))
  have hw := hfinished.working
  obtain ⟨s0, _, hget, h⟩ := Lower.bind_eq_ok.mp hmethod
  cases hget
  obtain ⟨_, s1, hverified, h⟩ := Lower.bind_eq_ok.mp h
  obtain ⟨_, s2, hframe, h⟩ := Lower.bind_eq_ok.mp h
  obtain ⟨_, s3, hcomplete, h⟩ := Lower.bind_eq_ok.mp h
  obtain ⟨_, s4, hcode, h⟩ := Lower.bind_eq_ok.mp h
  obtain ⟨_, s5, hstubs, hlabels⟩ := Lower.bind_eq_ok.mp h
  obtain ⟨hlast, -⟩ := checkLabels_eq_ok hlabels
  rw [← hlast] at hstubs
  obtain ⟨-, -, hunwinds⟩ := emitStubs_each hstubs hw
  obtain ⟨b, b', hhandler, hbefore, hafter⟩ := hunwinds l hl
  have hgrown := (Lower.grows_asm (markEntry verified)).grown hverified
    |>.trans ((Lower.grows_asm (buildFrame _)).grown hframe)
    |>.trans ((Lower.grows_asm (markEntry frameComplete)).grown hcomplete)
    |>.trans ((Lower.grows_instructions _).grown hcode)
  rw [hgrown.prog] at hhandler
  have hwb := ((Lower.grows_unwindHandler p l).grown hhandler).working (hafter.working hw)
  exact ⟨first, b, b', hfinished, hhandler, hfinished.part (start_lastFence hfirst) (hgrown.asm.trans hbefore) hwb hafter⟩

/-! ## Sites inside a method -/

/-- Finished code in memory, from some point on. -/
def Finished.siteFrom {blob : CodeBlob} {first : Assembler} (h : Finished base blob first last) {L : Layout}
    (hL : Holds L a) (hb : a.Behind) (ha : a.buf.base = base) (t : Target) (start : UInt64) (W : World)
    (hclear : ∀ i < blob.code.length, W (start + UInt64.ofNat i) = none) (hbase : base ≠ 0 → start = base) : Site where
  world := W
  target := t
  first := a
  last := last
  start := start
  origin := L
  fresh := hL
  behind := hb
  working := h.working
  clear i hi := hclear i (by rw [h.code, Array.length_toList]; exact hi)
  based hne := by
    rw [ha] at hne ⊢
    exact hbase hne

end

/-- The program compiles to at most so many bytes, with the instruction in them. -/
def Program.CompilesWithin (p : Program) (t : Target) (base : UInt64) (k limit : Nat) : Prop :=
  ∃ method off, p.compile t base = .ok method ∧ method.blob.code.length ≤ limit ∧ p.placeOf t base k = .ok off

/-- What a run of the compiler shows of a method. -/
theorem Program.CompilesWithin.of_checks {p : Program} {t : Target} {base : UInt64} {k limit : Nat}
    (hcompiles : (p.compile t base).toOption.any (fun c => decide (c.blob.code.length ≤ limit)) = true)
    (hplaces : (p.placeOf t base k).toBool = true) : p.CompilesWithin t base k limit := by
  cases hc : p.compile t base with
  | error e =>
    rw [hc] at hcompiles
    cases hcompiles
  | ok method =>
    cases hoff : p.placeOf t base k with
    | error e =>
      rw [hoff] at hplaces
      cases hplaces
    | ok off =>
      rw [hc] at hcompiles
      exact ⟨method, off, hc, of_decide_eq_true hcompiles, hoff⟩

end RiscvJit

/-! ## Debug sites

Sites stay in order through the whole of a method (`grows_method`), so in the finished code their
offsets increase, every site has its own map of references, and looking up an offset finds the site
recorded there (`debug_sites_are_unambiguous`). No program makes compiling stop because two maps
were recorded at one offset, also not one that is refused for something else. -/

namespace RiscvJit

namespace Lower

instance grows_emitStubs : Grows emitStubs := by
  rw [emitStubs_eq]
  refine @grows_bind _ _ _ _ grows_get fun s => @grows_bind _ _ _ _ inferInstance fun all => ?_
  cases all <;> infer_instance

instance grows_method : Grows method := by
  unfold method
  infer_instance

end Lower

instance tells_checkFrame (p : Program) : Tells p.checkFrame := by
  have : Unlike " is not aligned" := ⟨'i', by decide, by decide⟩
  have : Unlike " has no room for fp, ra and stub arguments" := ⟨'h', by decide, by decide⟩
  unfold Program.checkFrame
  infer_instance

instance tells_start (name : String) (base : UInt64) (capacity : Int64) : Tells (Assembler.start name base capacity) where
  other {f} h := by
    unfold Assembler.start CodeBuffer.create at h
    split at h
    · cases h
      trivial
    · cases h

section
variable {t : Target} {p : Program} {base : UInt64} {s : Lowering} {places : List Nat}

/-- Nothing is written or recorded before lowering starts. -/
theorem start_begun {name : String} {capacity : Int64} {first : Assembler}
    (h : Assembler.start name base capacity = .ok first) :
    first.Begun t ∧ first.oopMaps = {} := by
  have hfence := start_lastFence h
  unfold Assembler.start at h
  cases hbuf : CodeBuffer.create name base capacity with
  | error e => rw [hbuf] at h; cases h
  | ok buf =>
    rw [hbuf] at h
    cases h
    exact ⟨⟨_, holds_create hbuf, rfl, .refl⟩, rfl⟩

theorem sited_start {a : Assembler} (hmaps : a.oopMaps = {}) : Lowering.Sited { asm := a, prog := p } :=
  fun _ => ⟨[], rfl, .nil, nofun, rfl, by simp [hmaps], nofun⟩

variable {α : Type}

/-- Larger work does not stop for two maps at one offset when its first part does not, nor what follows. -/
theorem ne_clash_bind {β : Type} {off : Int} {x : Except Stop α} {f : α → Except Stop β}
    (hx : x ≠ .error (.fault (OopMapSet.clash off))) (hf : ∀ r, x = .ok r → f r ≠ .error (.fault (OopMapSet.clash off))) :
    (x >>= f) ≠ .error (.fault (OopMapSet.clash off)) := by
  cases x with
  | ok r => exact hf r rfl
  | error e =>
    intro h
    cases h
    exact hx rfl

theorem ofFault_ne_clash {e : Except Fault α} (he : ∀ f, e = .error f → f.Other) (off : Int) :
    Stop.ofFault e ≠ .error (.fault (OopMapSet.clash off)) := by
  intro h
  cases e with
  | ok a => cases h
  | error f =>
    cases h
    exact (he _ rfl).ne_clash off rfl

/-- Compiling does not stop for two maps at one offset. -/
theorem compile_ne_clash (off : Int) : p.compile t base ≠ .error (.fault (OopMapSet.clash off)) := by
  refine ne_clash_bind (ofFault_ne_clash (fun _ => (tells_checkFrame p).other) off) fun _ _ => ?_
  refine ne_clash_bind (ofFault_ne_clash (fun _ => (tells_start ..).other) off) fun first hfirst => ?_
  obtain ⟨hbegun, hmaps⟩ := start_begun (t := t) (ofFault_eq_ok.mp hfirst)
  dsimp only
  split
  · exact fun h => nomatch h
  refine ne_clash_bind (ofFault_ne_clash (fun f hf => ?_) off) fun last _ => ?_
  · exact Lower.grows_method.leads.spared hbegun (sited_start hmaps) hf
  · refine ne_clash_bind (fun h => ?_) fun _ _ h => nomatch h
    cases hfinish : last.2.asm.finish p.frameSize <;> rw [hfinish] at h <;> cases h

/-! ## Looking up sites -/

namespace Lowering

/-- Also as numbers of 64 bits, the offsets increase. -/
theorem Sites.offsets_ascend (h : s.Sites places) (hsmall : s.asm.buf.offset ≤ 2 ^ 48) :
    (s.sites.toList.map (·.offset)).Pairwise (· < ·) := by
  rw [h.offsets, List.pairwise_map]
  refine h.ascending.imp_of_mem fun {n k} hn hk hlt => ?_
  have := h.within n hn
  have := h.within k hk
  rw [Int64.lt_iff_toInt_lt, Int64.toInt_ofNat_of_lt (by omega), Int64.toInt_ofNat_of_lt (by omega)]
  omega

end Lowering

/-- In a list of entries at increasing offsets, looking for the offset of an entry finds that entry. -/
theorem find?_of_ascending (key : α → Int64) {xs : List α} (h : (xs.map key).Pairwise (· < ·)) {x : α} (hx : x ∈ xs) :
    xs.find? (fun y => key y == key x) = some x := by
  induction xs with
  | nil => cases hx
  | cons y ys ih =>
    rw [List.map_cons, List.pairwise_cons] at h
    rcases List.mem_cons.mp hx with rfl | hx
    · simp
    · have hlt := h.1 (key x) (List.mem_map_of_mem hx)
      have hne : key y ≠ key x := fun e => Int64.lt_irrefl (e ▸ hlt)
      rw [List.find?_cons, beq_false_of_ne hne]
      exact ih h.2 hx

end

/-- No program makes compiling stop for two maps at one offset. In a compiled method sites stand at
increasing offsets in the code, the maps are those of the sites, and both are found by their offset. -/
theorem debug_sites_are_unambiguous (t : Target) (p : Program) (base : UInt64) :
    (∀ off, p.compile t base ≠ .error (.fault (.precondition ("two oop maps at offset " ++ Text.ofInt off)))) ∧
    ∀ c, p.compile t base = .ok c →
      (c.sites.map (·.offset)).Pairwise (· < ·) ∧
      (∀ site ∈ c.sites, 0 ≤ site.offset.toInt ∧ site.offset.toInt ≤ c.blob.size) ∧
      c.blob.oopMaps.maps.toList = c.sites.map (·.oopMap) ∧
      ∀ site ∈ c.sites, c.blob.oopMaps.find? site.offset = some site.oopMap ∧ c.siteAt? site.offset = some site := by
  refine ⟨fun off => ?_, fun c hc => ?_⟩
  · exact compile_ne_clash off
  · obtain ⟨first, last, hfirst, hfinished, hmethod, hsites⟩ := compile_finished hc
    obtain ⟨hbegun, hmaps⟩ := start_begun (t := t) hfirst
    obtain ⟨places, hplaces⟩ := Lower.grows_method.leads.arrives hbegun (sited_start hmaps) hmethod hfinished.working
    have hsmall := (hbegun.grown (Lower.grows_method.grown hmethod).asm).small hfinished.working
    have hascend := hplaces.offsets_ascend hsmall
    have hkeyed : c.blob.oopMaps.maps.toList = c.sites.map (·.oopMap) := by rw [hfinished.maps, hplaces.maps, hsites]
    rw [← hsites] at hascend
    refine ⟨hascend, fun site hsite => ?_, hkeyed, fun site hsite =>
      ⟨?_, find?_of_ascending DebugSite.offset hascend hsite⟩⟩
    · have hplace : site.offset ∈ places.map Int64.ofNat := hplaces.offsets ▸ List.mem_map_of_mem (hsites ▸ hsite)
      obtain ⟨n, hn, e⟩ := List.mem_map.mp hplace
      have hle := hplaces.within n hn
      have hsize : c.blob.size = last.asm.buf.offset := by rw [CodeBlob.size, hfinished.code, Array.length_toList]; rfl
      rw [← e, Int64.toInt_ofNat_of_lt (by omega), hsize]
      omega
    · have hplaced : ∀ s ∈ c.sites, s.oopMap.offset = s.offset := fun s hs => hplaces.placed s (hsites ▸ hs)
      have hoffsets : (c.sites.map (·.oopMap)).map (·.offset) = c.sites.map (·.offset) := by
        rw [List.map_map]
        exact List.map_congr_left hplaced
      have hfound := find?_of_ascending OopMap.offset (hoffsets ▸ hascend) (List.mem_map_of_mem (f := (·.oopMap)) hsite)
      rw [OopMapSet.find?, ← Array.find?_toList, hkeyed, ← hplaced site hsite]
      exact hfound

/-- A method that polls twice in a row. -/
def twoPolls : Program where
  name := "p"
  frameSize := 32
  code := #[{ op := .safepoint, info := some {} }, { op := .safepoint, info := some {} }, { op := .ret }]

theorem two_polls_are_apart : ∃ c, twoPolls.compile ⟨{}, .synthetic 0x7000⟩ 0x100000 = .ok c ∧ c.sites.length = 2 ∧
    (c.sites.map (·.offset)).Pairwise (· < ·) := by
  have hcompiles : (match twoPolls.compile ⟨{}, .synthetic 0x7000⟩ 0x100000 with
    | .ok c => c.sites.length == 2
    | .error _ => false) = true := by decide +kernel
  cases hc : twoPolls.compile ⟨{}, .synthetic 0x7000⟩ 0x100000 with
  | error e =>
    rw [hc] at hcompiles
    cases hcompiles
  | ok c =>
    rw [hc] at hcompiles
    exact ⟨c, rfl, by simpa using hcompiles, ((debug_sites_are_unambiguous _ twoPolls 0x100000).2 c hc).1⟩

end RiscvJit
