import RiscvJit.Proofs.Lower.SlowPaths

/-
  RiscvJit.Proofs.Lower.CallTargets — calls and jumps to addresses outside the code reach them.

  A call has one of four forms: a jump by the distance, an address relative to the program counter, an
  absolute address that is made up in a scratch register, and a jump to a trampoline. The first three are
  those of a far call, wherever it stands in finished code (`Transfer.goes`). In front of a call of compiled
  code the fourth takes the place of the second and third: the trampoline is a stub that loads the target from a
  literal behind its jump (`Site.trampoline_goes`). The literal is aligned because the stub is padded before
  its label is bound (`Asm.padTo_four`).

  A stub that was closed stays where it is recorded (`Assembler.Grown.closed`), so the literal is inside
  a stub of the finished code.
-/

namespace RiscvJit

open Machine (Keeps)
open Reg (zr ra t0 t1)
open CodeBuffer
open Lower

/-! ## Stubs stay -/

/-- The stub is recorded, and it is not the one that is open. -/
structure CodeBuffer.Closed (b : CodeBuffer) (n : Nat) (r : StubRange) : Prop where
  found : b.stubs[n]? = some r
  apart : b.inStub = true → n + 1 < b.stubs.size

section
variable {t : Target} {a b : Assembler} {n : Nat} {r : StubRange} {name : String}

theorem CodeBuffer.Closed.same {b b' : CodeBuffer} (h : b.Closed n r) (hsame : b.SameStubs b') : b'.Closed n r := by
  constructor
  · rw [hsame.stubs]
    exact h.found
  · rw [hsame.stubs, hsame.inStub]
    exact h.apart

/-- Opening a stub records it at the end, unless the buffer failed. -/
theorem startStub_opens {size : Int64} {ok : Bool} (h : Asm.startStub name size t a = .ok (ok, b))
    (hw : b.buf.failed = false) :
    a.buf.inStub = false ∧ ok = true ∧ b = { a with buf := b.buf } ∧ b.buf.inStub = true ∧
      b.buf.stubs = a.buf.stubs.push { name, start := a.buf.offset } ∧ b.buf.offset = a.buf.offset := by
  obtain ⟨buf, hstart, rfl⟩ := startStub_eq h
  obtain ⟨hin, ⟨-, hf, rfl⟩ | ⟨-, -, -, rfl⟩ | ⟨rfl, -, -, rfl⟩⟩ := CodeBuffer.startStub_cases hstart
  · cases hf.symm.trans hw
  · cases hw
  · exact ⟨hin, rfl, rfl, rfl, rfl, rfl⟩

theorem Item.closed {i : Item} (h : i.run t a = .ok ((), b)) (hw : b.buf.failed = false) (hr : a.buf.Closed n r) :
    b.buf.Closed n r := by
  cases i with
  | word w => cases h; exact hr.same (sameStubs_emit4 _ _)
  | call c => exact hr.same (c.codeOnly t a () b h).stubs
  | barrier w => cases h; exact hr.same (sameStubs_emit4 _ _)
  | entry name => cases h; exact hr
  | map m => rcases addOopMap_cases h with ⟨-, rfl⟩ | ⟨-, maps, -, rfl⟩ <;> exact hr
  | stub name size =>
    obtain ⟨ok, a1, hstart, e⟩ := Asm.bind_eq_ok.mp h
    obtain ⟨-, rfl⟩ := Asm.pure_eq_ok.mp e
    obtain ⟨-, -, -, -, hstubs, -⟩ := startStub_opens hstart hw
    have hlt := (Array.getElem?_eq_some_iff.mp hr.found).1
    constructor
    · rw [hstubs, Array.getElem?_push, if_neg (by omega), hr.found]
    · rw [hstubs, Array.size_push]
      omega
  | endStub =>
    obtain ⟨hin, rfl⟩ := endStub_eq_ok h
    have hlt := hr.apart hin
    refine ⟨?_, nofun⟩
    rw [Array.getElem?_modify, if_neg (by omega), hr.found]

namespace Assembler

theorem Step.closed (h : Step t a b) (hw : b.buf.failed = false) (hr : a.buf.Closed n r) : b.buf.Closed n r := by
  cases h with
  | item _ _ h => exact Item.closed h hw hr
  | barrier h =>
    rcases Asm.fence_eq_ok (t := t) (Asm.change_ok h) with ⟨-, rfl⟩ | ⟨f, old, buf, -, -, hbuf, rfl⟩
    · exact hr.same (sameStubs_emit4 _ _)
    · exact hr.same (patched_patch hbuf).sameStubs
  | comment text h => rw [h]; exact hr
  | lost h => rw [h] at hw; cases hw

theorem Grown.closed (h : Grown t a b) (hw : b.buf.failed = false) (hr : a.buf.Closed n r) : b.buf.Closed n r := by
  induction h with
  | refl => exact hr
  | tail _ hchange ih =>
    have hmiddle := ih (hchange.working hw)
    cases hchange with
    | step hstep => exact hstep.closed hw hmiddle
    | map _ e => rw [e]; exact hmiddle

end Assembler

end

/-! ## Literals and padding -/

theorem sameStubs_emit8 (b : CodeBuffer) (v : UInt64) : b.SameStubs (b.emit8 v) := by
  unfold emit8
  split
  · exact b.sameStubs_refl
  · split <;> exact ⟨rfl, rfl⟩

namespace Asm

variable {t : Target} {a a' : Assembler}

theorem trace_word64 {v : UInt64} (h : word64 v t a = .ok ((), a')) (hw : a'.buf.failed = false) :
    Trace t [.word v.toUInt32, .word (v >>> 32).toUInt32] a a' ∧ a'.buf.offset = a.buf.offset + 8 := by
  cases h
  have e := emit8_eq (b := a.buf) (v := v) hw
  have hw2 : ((a.buf.emit4 v.toUInt32).emit4 (v >>> 32).toUInt32).failed = false := by rw [← e]; exact hw
  have hw1 : (a.buf.emit4 v.toUInt32).failed = false := by
    cases hf : (a.buf.emit4 v.toUInt32).failed with
    | false => rfl
    | true => rw [emit4_failed hf, hf] at hw2; cases hw2
  constructor
  · refine .cons trivial rfl (.cons trivial ?_ (.nil _))
    show Asm.modifyBuf (·.emit4 (v >>> 32).toUInt32) t { a with buf := a.buf.emit4 v.toUInt32 } = _
    exact congrArg (fun buf => Except.ok ((), ({ a with buf := buf } : Assembler))) e.symm
  · show (a.buf.emit8 v).offset = _
    rw [e, offset_emit4_working hw2, offset_emit4_working hw1]

instance traced_padTo (align n : Int64) (fuel : Nat) : Traced (padTo align n fuel) := by
  induction fuel with
  | zero => exact traced_pure ()
  | succ fuel ih =>
    unfold padTo offset failed nop
    infer_instance

theorem padTo_codeOnly (align n : Int64) (fuel : Nat) : (padTo align n fuel).CodeOnly := by
  induction fuel with
  | zero => exact codeOnly_pure ()
  | succ fuel ih =>
    refine codeOnly_offset.bind fun off => ?_
    split
    · exact codeOnly_pure ()
    · refine Asm.CodeOnly.bind (fun t a r a' h => ?_) fun f => ?_
      · cases h
        exact codeOnly_refl a
      · split
        · exact codeOnly_pure ()
        · exact (codeOnly_emit _ _ _ _ _ _).bind fun _ => ih

/-- One word of padding at most leads to four bytes before a multiple of eight. -/
theorem padTo_four {fuel : Nat} (h : padTo 8 4 (fuel + 2) t a = .ok ((), a')) (hw : a'.buf.failed = false)
    (hoff : a.buf.offset % 4 = 0) : a'.buf.offset % 8 = 4 := by
  -- padding stops at such an offset
  have stop {fuel : Nat} {b : Assembler} (hb : b.buf.offset % 8 = 4)
    (h : padTo 8 4 (fuel + 1) t b = .ok ((), a')) : a' = b := by
    obtain ⟨off, b1, hget, h⟩ := bind_eq_ok.mp h
    cases hget
    rw [if_pos (show Int.tmod (b.buf.offset : Int) (8 : Int64).toInt = (4 : Int64).toInt from ?_)] at h
    · exact (pure_eq_ok.mp h).2.symm
    · rw [show (8 : Int64).toInt = 8 from rfl, show (4 : Int64).toInt = 4 from rfl, Int.tmod_eq_emod_of_nonneg (by omega)]
      omega
  by_cases hb : a.buf.offset % 8 = 4
  · rw [stop hb h]
    exact hb
  · obtain ⟨off, b1, hget, h⟩ := bind_eq_ok.mp h
    cases hget
    rw [if_neg (show ¬ Int.tmod (a.buf.offset : Int) (8 : Int64).toInt = (4 : Int64).toInt from ?_)] at h
    · obtain ⟨f, b2, hfailed, h⟩ := bind_eq_ok.mp h
      cases hfailed
      split at h
      case _ hf =>
        obtain ⟨-, rfl⟩ := pure_eq_ok.mp h
        cases hf.symm.trans hw
      · obtain ⟨_, b, hnop, h⟩ := bind_eq_ok.mp h
        have hwb : b.buf.failed = false := by
          cases hf : b.buf.failed with
          | false => rfl
          | true => rw [(padTo_codeOnly 8 4 (fuel + 1) t b () a' h).failed hf] at hw; cases hw
        obtain ⟨hnext, -⟩ := offset_emit hnop hwb
        have hb' : b.buf.offset % 8 = 4 := by omega
        rw [stop hb' h]
        exact hb'
    · rw [show (8 : Int64).toInt = 8 from rfl, show (4 : Int64).toInt = 4 from rfl, Int.tmod_eq_emod_of_nonneg (by omega)]
      omega

end Asm

namespace Site

variable {S : Site} {m : Machine} {a a' : Assembler} {v : UInt64}

/-- A literal stands in the finished code. -/
theorem literal_bytes (hrun : Asm.word64 v S.target a = .ok ((), a')) (ha : S.Early a) (ha' : S.Late a') :
    ∀ j < 8, S.last.buf.bytes[a.buf.offset + j]? = some (byteAt v j) := by
  obtain ⟨L0, L1, L, hspot⟩ := spot ha (Asm.trace_word64 hrun ha'.working).1 ha'
  have hpieces : L1.pieces = L0.pieces ++ [Piece.word v.toUInt32] ++ [Piece.word (v >>> 32).toUInt32] := by rw [hspot.drawn]; rfl
  have hword {k : Nat} {w : UInt32} (hk : L1.pieces[k]? = some (.word w)) : L.words[k]? = some w := by
    rw [Layout.words, getElem?_spelled, hspot.piece hk]
    rfl
  have hfirst := hword (k := L0.pieces.length) (w := v.toUInt32) (by
    rw [hpieces, List.append_assoc, List.getElem?_append_right (Nat.le_refl _), Nat.sub_self]; rfl)
  have hsecond := hword (k := L0.pieces.length + 1) (w := (v >>> 32).toUInt32) (by
    rw [hpieces, List.append_assoc, List.getElem?_append_right (by omega), Nat.add_sub_cancel_left]; rfl)
  intro j hj
  rw [hspot.before.offset]
  by_cases hlow : j < 4
  · rw [hspot.holds.spells.bytes.2 _ _ hfirst j hlow, Asm.byteAt_lowHalf v hlow]
  · obtain ⟨i, rfl⟩ : ∃ i, j = i + 4 := ⟨j - 4, by omega⟩
    rw [show 4 * L0.pieces.length + (i + 4) = 4 * (L0.pieces.length + 1) + i by omega,
      hspot.holds.spells.bytes.2 _ _ hsecond i (by omega), Asm.byteAt_highHalf v (by omega)]

theorem literal_read (hm : S.Stands m) {off : Nat} (h : ∀ j < 8, S.last.buf.bytes[off + j]? = some (byteAt v j)) :
    m.mem.read (S.start + UInt64.ofNat off) 8 = v := by
  apply UInt64.toNat_inj.mp
  rw [Ram.toNat_read m.mem 8 _ v (Nat.le_refl _) fun j hj => ?_, Nat.mod_eq_of_lt v.toNat_lt]
  obtain ⟨hlt, e⟩ := Array.getElem?_eq_some_iff.mp (h j hj)
  rw [UInt64.add_assoc, ← UInt64.ofNat_add, hm _ hlt, e]

end Site

/-! ## Trampolines -/

namespace Asm

/-- The code of a trampoline behind its label, up to the literal. -/
def throughLiteral : Asm Unit := do
  auipc t0 0
  ld t0 t0 12
  jr t0

instance traced_throughLiteral : Traced throughLiteral := by
  unfold throughLiteral
  infer_instance

theorem throughLiteral_codeOnly : throughLiteral.CodeOnly :=
  (codeOnly_emit _ _ _ _ _ _).bind fun _ => ((codeOnly_lift _).bind fun _ => codeOnly_emit _ _ _ _ _ _).bind fun _ =>
    (codeOnly_lift _).bind fun _ => codeOnly_emit _ _ _ _ _ _

theorem offset_throughLiteral {t : Target} {a a' : Assembler} (h : throughLiteral t a = .ok ((), a'))
    (hw : a'.buf.failed = false) :
    a'.buf.offset = a.buf.offset + 12 := by
  obtain ⟨_, b1, hauipc, h⟩ := bind_eq_ok.mp h
  obtain ⟨_, b2, hld, hjr⟩ := bind_eq_ok.mp h
  obtain ⟨h3, hw2⟩ := offset_lift_emit hjr hw
  obtain ⟨h2, hw1⟩ := offset_lift_emit hld hw2
  obtain ⟨h1, -⟩ := offset_emit hauipc hw1
  omega

end Asm

/-- A trampoline was written: padding, its label, the jump and the literal. -/
structure Bounced (t : Target) (target : UInt64) (entry : Label) (a padded bound jumped a' : Assembler) : Prop where
  padding : ∃ fuel, Asm.padTo 8 4 (fuel + 2) t a = .ok ((), padded)
  label : Asm.bind entry t padded = .ok ((), bound)
  jump : Asm.throughLiteral t bound = .ok ((), jumped)
  literal : Asm.word64 target t jumped = .ok ((), a')

variable {t : Target} {name : String}

theorem Lower.trampoline_parts {target : UInt64} {entry : Label} {s s' : Lowering}
    (h : emitSlowPath (.trampoline target entry) t s = .ok ((), s')) :
    ∃ padded bound jumped, Bounced t target entry s.asm padded bound jumped s'.asm := by
  obtain ⟨_, s1, hpad, h⟩ := bind_eq_ok.mp h
  obtain ⟨_, s2, hbind, h⟩ := bind_eq_ok.mp h
  obtain ⟨_, s3, hauipc, h⟩ := bind_eq_ok.mp h
  obtain ⟨_, s4, hld, h⟩ := bind_eq_ok.mp h
  obtain ⟨_, s5, hjr, hword⟩ := bind_eq_ok.mp h
  obtain ⟨a1, hpadded, rfl⟩ := asm_eq_ok.mp hpad
  obtain ⟨a2, hbound, rfl⟩ := asm_eq_ok.mp hbind
  obtain ⟨a3, hhere, rfl⟩ := asm_eq_ok.mp hauipc
  obtain ⟨a4, hloaded, rfl⟩ := asm_eq_ok.mp hld
  obtain ⟨a5, hjumped, rfl⟩ := asm_eq_ok.mp hjr
  obtain ⟨a6, hliteral, rfl⟩ := asm_eq_ok.mp hword
  exact ⟨a1, a2, a5, ⟨_, hpadded⟩, hbound, Asm.bind_eq_ok.mpr ⟨_, _, hhere,
    Asm.bind_eq_ok.mpr ⟨_, _, hloaded, hjumped⟩⟩, hliteral⟩

section
variable {t : Target} {target : UInt64} {entry : Label} {a padded bound jumped a' : Assembler}

namespace Bounced

/-- A trampoline opens and closes no stub. -/
theorem sameStubs (h : Bounced t target entry a padded bound jumped a') : a.buf.SameStubs a'.buf := by
  obtain ⟨fuel, hpad⟩ := h.padding
  have hliteral : jumped.buf.SameStubs a'.buf := by
    cases h.literal
    exact sameStubs_emit8 _ _
  exact (Asm.padTo_codeOnly 8 4 _ t a () padded hpad).stubs.trans
    ((codeOnly_bind entry t padded () bound h.label).stubs.trans
    ((Asm.throughLiteral_codeOnly t bound () jumped h.jump).stubs.trans hliteral))

/-- While the buffer works, the trampoline is a list of items, and no barrier stands at its end. -/
theorem written (h : Bounced t target entry a padded bound jumped a') (hb : a.Behind) (hw : a'.buf.failed = false) :
    a'.Behind ∧ a'.mergeable? = none := by
  obtain ⟨fuel, hpad⟩ := h.padding
  obtain ⟨items1, h1, -⟩ := (Asm.traced_padTo 8 4 (fuel + 2)).trace t a () padded hb hpad
  have h2 := Site.trace_call (c := .bind entry) trivial h.label
  obtain ⟨items3, h3, -⟩ := Asm.traced_throughLiteral.trace t bound () jumped (h2.behind (h1.behind hb)) h.jump
  obtain ⟨h4, hend⟩ := Asm.trace_word64 h.literal hw
  have hbehind := h3.behind (h2.behind (h1.behind hb))
  refine ⟨h4.behind hbehind, mergeable_none_of_spaced fun _ f hf => ?_⟩
  have hfence : a'.lastFence = jumped.lastFence := by
    cases h.literal
    rfl
  have := hbehind (h4.working hw) f (hfence.symm.trans hf)
  omega

end Bounced

end

namespace Site

variable {S : Site} {m : Machine} {target : UInt64} {entry : Label} {a padded bound jumped a' : Assembler}

/-- The jump of a trampoline, in front of its literal, goes to the target. -/
theorem throughLiteral_goes (hjump : Asm.throughLiteral S.target bound = .ok ((), jumped)) (ha : S.Early bound)
    (ha' : S.Late jumped)
    (hat : S.At bound m) (hread : m.mem.read (m.pc + 12) 8 = target) :
    ∃ m', S.world.Reaches m m' ∧ Left [t0] (target &&& ~~~1) m m' := by
  refine Does.leaves ?_ hjump ha ha' hat
  refine .bind (does_puts (fun _ _ _ hrun => auipc_puts (by decide) (by decide) hrun) fun m1 h1 =>
    .bind (does_ld fun m2 h2 => does_jr (.inl ⟨rfl, ?_⟩)))
  have hvalue : m2.get t0 = target := by
    rw [h2.value, h1.value, h1.mem, ← hread, show (0 : Int64).toUInt64 <<< 12 = 0 from rfl, UInt64.add_zero]
    rfl
  refine ⟨by rw [hvalue], fun r hr => ?_, h2.mem.trans h1.mem⟩
  have hr : r ≠ t0 := by simpa using hr
  rw [Machine.get_withPc, h2.other r hr, h1.other r hr]

/-- Where a trampoline is in the finished code, and what it does. -/
structure Bounces (S : Site) (target : UInt64) (entry : Label) (first last off : Nat) : Prop where
  binds : S.Binds entry
  aligned : (off + 12) % 8 = 0
  literal : ∀ j < 8, S.last.buf.bytes[off + 12 + j]? = some (byteAt target j)
  above : first ≤ off
  below : off + 20 = last
  goes : ∀ m, S.To entry m → m.pc = S.start + UInt64.ofNat off ∧ ∃ m', S.world.Reaches m m' ∧
    Left [t0] (target &&& ~~~1) m m'

theorem bounces (h : Bounced S.target target entry a padded bound jumped a') (ha : S.Early a) (ha' : S.Late a') :
    S.Bounces target entry a.buf.offset a'.buf.offset padded.buf.offset := by
  obtain ⟨fuel, hpad⟩ := h.padding
  obtain ⟨items1, h1, -⟩ := (Asm.traced_padTo 8 4 (fuel + 2)).trace S.target a () padded ha.behind hpad
  have hpadded := ha.append h1
  have h2 := trace_call (c := .bind entry) trivial h.label
  have hbound := hpadded.append h2
  obtain ⟨items3, h3, -⟩ := Asm.traced_throughLiteral.trace S.target bound () jumped hbound.behind h.jump
  have hjumped := hbound.append h3
  obtain ⟨h4, hend⟩ := Asm.trace_word64 h.literal ha'.working
  have hjumped' := ha'.append h4
  have hbound' := hjumped'.append h3
  have hpadded' := hbound'.append h2
  obtain ⟨hbinds, hto⟩ := To.at_bind h.label hpadded hbound'
  obtain ⟨k, hk⟩ := ha.offset (hpadded'.append h1)
  have hsame : bound.buf.offset = padded.buf.offset := offset_bindLabel h.label
  have hthrough := Asm.offset_throughLiteral h.jump hjumped'.working
  have haligned := Asm.padTo_four hpad hpadded'.working (by omega)
  have hliteral : ∀ j < 8, S.last.buf.bytes[padded.buf.offset + 12 + j]? = some (byteAt target j) := by
    rw [show padded.buf.offset + 12 = jumped.buf.offset by omega]
    exact literal_bytes h.literal hjumped ha'
  refine ⟨hbinds, by omega, hliteral, h1.steady.offset, by omega, fun m hm => ?_⟩
  obtain ⟨hstands, hpc⟩ := hto m hm
  have hread : m.mem.read (m.pc + 12) 8 = target := by
    rw [hpc, UInt64.add_assoc, show UInt64.ofNat padded.buf.offset + 12 = UInt64.ofNat (padded.buf.offset + 12) from
      (UInt64.ofNat_add _ 12).symm]
    exact literal_read hstands hliteral
  exact ⟨hpc, throughLiteral_goes h.jump hbound hjumped' ⟨hstands, by rw [hpc, hsame]⟩ hread⟩

end Site

/-! ## Calls of compiled code -/

theorem Stubbed.offset {x : Lower Unit} {v u u' w : Lowering} (h : Stubbed t name x v u u' w) :
    u.asm.buf.offset = v.asm.buf.offset := by
  obtain ⟨size, hopened⟩ := h.opened
  obtain ⟨a, hstart, rfl⟩ := Lower.asm_eq_ok.mp hopened
  obtain ⟨buf, rfl, hbytes, -⟩ := startStub_cases hstart
  exact congrArg Array.size hbytes

/-- The stub is recorded in the finished code when it is closed. -/
theorem Stubbed.recorded {x : Lower Unit} {v u u' w last : Lowering} (h : Stubbed t name x v u u' w)
    (hbody : Assembler.Grown t u.asm u'.asm) (hsame : u.asm.buf.SameStubs u'.asm.buf)
    (hend : Assembler.Grown t w.asm last.asm) (hw : last.asm.buf.failed = false) :
    { name, start := v.asm.buf.offset, stop := u'.asm.buf.offset : StubRange } ∈ last.asm.buf.stubs.toList := by
  obtain ⟨size, hopened⟩ := h.opened
  obtain ⟨a, hstart, rfl⟩ := Lower.asm_eq_ok.mp hopened
  obtain ⟨b, hstop, rfl⟩ := Lower.asm_eq_ok.mp h.closed
  have hwb := hend.working hw
  have hwu' := (Asm.grows_endStub.grown hstop).working hwb
  obtain ⟨-, -, -, -, hpushed, -⟩ := startStub_opens hstart (hbody.working hwu')
  have hstubs := hsame.stubs.trans hpushed
  obtain ⟨-, rfl⟩ := endStub_eq_ok hstop
  refine List.mem_of_getElem? ((Array.getElem?_toList ..).trans
    (hend.closed hw (n := v.asm.buf.stubs.size) ⟨?_, nofun⟩).found)
  rw [hstubs, Array.size_push, Nat.add_sub_cancel, Array.getElem?_modify, if_pos rfl, Array.getElem?_push, if_pos rfl]
  rfl

namespace Lower

variable {t : Target} {s s' : Lowering} {i : Instruction}

/-- The two forms of a call of compiled code: up to its last instruction, which leads to `a`. -/
inductive CallCode (t : Target) (s s' : Lowering) (target : UInt64) (a : Assembler) : Prop
  | direct {rel : Int64} : directDistance? s.asm target = some rel →
    Asm.jalOffset ra rel t s.asm = .ok ((), a) → CallCode t s s' target a
  | trampoline {entry : Label} {b : Assembler} : Asm.newLabel t s.asm = .ok (entry, b) →
    Asm.jal ra entry t b = .ok ((), a) →
      .trampoline target entry ∈ s'.slowPaths.toList → CallCode t s s' target a

theorem call_parts (hop : i.op = .call) (h : instruction i t s = .ok ((), s')) :
    ∃ site a, i.call = some site ∧ CallCode t s s' site.target a ∧ Assembler.Grown t s.asm a ∧
    Assembler.Grown t a s'.asm ∧
      s'.asm.buf = a.buf := by
  have hdispatch : dispatch i = call i := by
    rw [dispatch.eq_def, hop]
  rw [instruction, hdispatch] at h
  obtain ⟨_, -, h⟩ := lift_bind_eq_ok.mp h
  obtain ⟨_, hcheck, h⟩ := lift_bind_eq_ok.mp h
  obtain ⟨_, _, hget, h⟩ := bind_eq_ok.mp h
  cases hget
  cases hcall : i.call with
  | none =>
    rw [hcall] at hcheck
    cases hcheck
  | some site =>
    rw [hcall] at h
    -- what is recorded at the end writes no code
    have recorded {s1 s2 : Lowering} (h : addSite i.info t s1 = .ok ((), s2)) :
        Lowering.Grown t s1 s2 ∧ s2.asm.buf = s1.asm.buf := by
      refine ⟨(leads_addSite i.info []).grown h, ?_⟩
      rcases addSite_eq_ok h with e | ⟨map, hadd⟩
      · rw [e]
      · rcases addOopMap_cases hadd with ⟨-, e⟩ | ⟨-, maps, -, e⟩ <;> rw [e]
    refine ⟨site, ?_⟩
    rw [show ((some site).map (·.target)).getD 0 = site.target from rfl] at h
    cases hdirect : directDistance? s.asm site.target with
    | some rel =>
      rw [hdirect] at h
      obtain ⟨_, s1, hjal, hsite⟩ := bind_eq_ok.mp h
      obtain ⟨a, ha, rfl⟩ := asm_eq_ok.mp hjal
      obtain ⟨hgrown, hbuf⟩ := recorded hsite
      exact ⟨a, rfl, .direct hdirect ha, Asm.Grows.grown inferInstance ha, hgrown.asm, hbuf⟩
    | none =>
      rw [hdirect] at h
      obtain ⟨entry, s1, hlabel, h⟩ := bind_eq_ok.mp h
      obtain ⟨_, s2, hpath, h⟩ := bind_eq_ok.mp h
      obtain ⟨_, s3, hjal, hsite⟩ := bind_eq_ok.mp h
      obtain ⟨b, hb, rfl⟩ := asm_eq_ok.mp hlabel
      cases hpath
      obtain ⟨a, ha, rfl⟩ := asm_eq_ok.mp hjal
      obtain ⟨hgrown, hbuf⟩ := recorded hsite
      refine ⟨a, rfl, .trampoline hb ha (hgrown.slowPaths.subset ?_), ?_, hgrown.asm, hbuf⟩
      · simp
      · exact ((grows_asm Asm.newLabel).grown (asm_eq_ok.mpr ⟨b, hb, rfl⟩)).asm.trans (Asm.Grows.grown inferInstance ha)

end Lower

/-- The finished code has the target of a trampoline at an offset, in the stub of the trampoline. -/
structure CodeBlob.Literal (blob : CodeBlob) (target : UInt64) (off : Nat) : Prop where
  aligned : off % 8 = 0
  bytes : ∀ j < 8, blob.code[off + j]? = some (byteAt target j)
  inside : ∃ r ∈ blob.stubs, r.name = "trampoline_stub" ∧ r.start ≤ off ∧ off + 8 ≤ r.stop

section
variable {t : Target} {W : World} {k : Nat} {i : Instruction} {m : Machine}

theorem directDistance?_eq_some {a : Assembler} {target : UInt64} {rel : Int64}
    (h : directDistance? a target = some rel) :
    a.buf.base ≠ 0 ∧ fitsSigned 21 rel = true ∧ rel = (target - a.buf.pc).toInt64 := by
  unfold directDistance? at h
  dsimp only at h
  split at h
  case _ hnear =>
    obtain ⟨hbase, hfits⟩ := Bool.and_eq_true_iff.mp hnear
    cases h
    exact ⟨of_decide_eq_true hbase, hfits, rfl⟩
  case _ => cases h

theorem traced_jalDirect (rd : Reg) {rel : Int64} (h : fitsSigned 21 rel = true) : (Asm.jalOffset rd rel).Traced := by
  rw [Asm.jalOffset, if_pos h]
  infer_instance

namespace Site

variable {S S' : Site} {a a' : Assembler} {target : UInt64}

/-- A call by the distance of its target reaches it. -/
theorem direct_goes {rel : Int64} (hdirect : directDistance? a target = some rel)
    (hjal : Asm.jalOffset ra rel S.target a = .ok ((), a')) (ha : S.Early a) (ha' : S.Late a') (hat : S.At a m)
    (hstart : S.start % 2 = 0) : ∃ m', S.world.step m = some m' ∧
      Linked ra [t0] (target &&& ~~~1) (S.start + UInt64.ofNat a'.buf.offset) m m' := by
  obtain ⟨hbase, hfits, hrel⟩ := directDistance?_eq_some hdirect
  have := traced_jalDirect ra hfits
  obtain ⟨items, htrace, -⟩ := Asm.Traced.trace _ _ _ _ ha.behind hjal
  obtain ⟨n, hoff⟩ := ha.offset (ha'.append htrace)
  have heven : m.pc % 2 = 0 := by rw [hat.pc, hoff]; exact even_add hstart n
  obtain ⟨m', hstep, hlinked⟩ := jalOffset_links (by decide) heven hjal ha ha' hat
  rw [hrel, hat.pc_known ha hbase, UInt64.toUInt64_toInt64, UInt64.add_comm, UInt64.sub_add_cancel] at hlinked
  exact ⟨m', hstep, hlinked.mono (List.nil_subset _)⟩

/-- A call through a trampoline elsewhere in the code reaches its target. -/
theorem trampoline_goes {entry : Label} {first last off : Nat} (hbeside : S.Beside S')
    (hbounces : S'.Bounces target entry first last off) (hjal : Asm.jal ra entry S.target a = .ok ((), a'))
    (ha : S.Early a)
    (ha' : S.Late a') (hat : S.At a m) : ∃ m1 m', S.world.step m = some m1 ∧ m1.pc = S.start + UInt64.ofNat off ∧
      S.world.Reaches m1 m' ∧ Linked ra [t0] (target &&& ~~~1) (S.start + UInt64.ofNat a'.buf.offset) m m' := by
  obtain ⟨p, hstep, hto⟩ := jal_goes (hbeside.binds_iff.mp hbounces.binds) hjal ha ha' hat
  obtain ⟨hpc, m', hreach, hleft⟩ := hbounces.goes _ (hbeside.to_iff.mpr hto)
  have hlinked := linked_of_set m (show ra ≠ .none by decide) p (S.start + UInt64.ofNat a'.buf.offset) []
  refine ⟨_, m', hstep, hbeside.start ▸ hpc, hbeside.world ▸ hreach, hleft.pc, fun hk => ?_, fun r hr ht => ?_, ?_⟩
  · rw [hleft.rest ra (by decide)]
    exact hlinked.ret hk
  · rw [hleft.rest r ht]
    exact hlinked.rest r hr List.not_mem_nil
  · rw [hleft.mem]
    exact hlinked.mem

end Site

/-- The call of an instruction reaches its target, in one step or through a trampoline, and returns to the
next instruction. -/
def Resident.Calls (c : Resident t) (W : World) (k : Nat) (target : UInt64) (m : Machine) : Prop :=
  ∃ off m', c.program.placeOf t c.base (k + 1) = .ok off ∧ W.Reaches m m' ∧
    Linked ra [t0] (target &&& ~~~1) (c.start + UInt64.ofNat off) m m' ∧
    (W.step m = some m' ∨ ∃ lit m1, c.method.blob.Literal target lit ∧ W.step m = some m1 ∧
      m1.pc + 12 = c.start + UInt64.ofNat lit ∧ W.Reaches m1 m')

/-- In front of an instruction the machine is where its code starts. -/
theorem Resident.Before.at {c : Resident t} {first last a : Assembler} {S : Site} (h : c.Before k m)
    (hfinished : Finished c.base c.method.blob first last) (hstart : S.start = c.start) (hlast : S.last = last)
    (hplace : c.program.placeOf t c.base k = .ok a.buf.offset) : S.At a m := by
  obtain ⟨hstands, off, hoff, hpc⟩ := h
  rw [hplace] at hoff
  cases hoff
  refine ⟨?_, by rw [hpc, hstart]⟩
  rw [Site.Stands, hlast, hstart, ← show c.method.blob.code.toArray =
    last.buf.bytes by rw [hfinished.code, Array.toArray_toList]]
  exact hstands

/-- The slow path of a trampoline stands in the finished code, with its literal. -/
theorem Unfolded.bounces {c : Resident t} {first : Assembler} {s s' s1 last : Lowering} {target : UInt64} {entry : Label}
    (h : Unfolded t c.program c.base k i first s s' s1 last) (hfinished : Finished c.base c.method.blob first last.asm)
    (hmem : .trampoline target entry ∈ s'.slowPaths.toList)
    (hclear : ∀ i < c.method.blob.code.length, W (c.start + UInt64.ofNat i) = none) :
    ∃ (S : Site) (first upto off : Nat), S.world = W ∧ S.target = t ∧ S.start = c.start ∧ S.last = last.asm ∧
      S.Bounces target entry first upto off ∧ c.method.blob.Literal target (off + 12) := by
  have hw := hfinished.working
  obtain ⟨v, u0, u', w, hstub, hbefore, hafter⟩ := h.writes hw hmem
  obtain ⟨_, u, hcomment, hemit⟩ := Lower.bind_eq_ok.mp hstub.body
  have hcommented := (grows_asm (Asm.comment _)).grown hcomment
  have hemitted := (grows_emitSlowPath _).grown hemit
  have hlowered := (grows_instruction i).grown h.lowered
  have hend := hstub.after.asm.trans hafter.asm
  have hpart := h.part hfinished (hlowered.asm.trans ((hbefore.trans hstub.before).trans hcommented).asm)
    hemitted.asm hend
  obtain ⟨padded, bound, jumped, hparts⟩ := trampoline_parts hemit
  obtain ⟨hbehind, hsealed⟩ := hparts.written hpart.behind (Assembler.Grown.working hend hw)
  obtain ⟨S, rfl, rfl, hS, hlast, hearly, hlate⟩ := hpart.site hfinished hbehind hsealed hclear c.based
  have hbounces := S.bounces hparts hearly hlate
  refine ⟨S, _, _, _, rfl, rfl, hS, hlast, hbounces, hbounces.aligned, fun j hj => ?_, ?_⟩
  · rw [hfinished.code, Array.getElem?_toList, ← hlast]
    exact hbounces.literal j hj
  -- the stub begins with the padding and ends with the literal
  · obtain ⟨a, hcommentAsm, hu⟩ := Lower.asm_eq_ok.mp hcomment
    cases hcommentAsm
    have hsame : u0.asm.buf.SameStubs u'.asm.buf := by
      rw [hu] at hparts
      exact hparts.sameStubs
    refine ⟨_, hfinished.stubs ▸ hstub.recorded (hcommented.trans hemitted).asm hsame hafter.asm hw, rfl, ?_, ?_⟩
    · have habove : u.asm.buf.offset ≤ padded.buf.offset := hbounces.above
      have hfirst : u.asm.buf.offset = v.asm.buf.offset := by
        rw [hu]
        exact hstub.offset
      show v.asm.buf.offset ≤ _
      omega
    · have hbelow := hbounces.below
      show _ ≤ u'.asm.buf.offset
      omega

theorem Resident.Facing.calls {c : Resident t} (h : c.Facing W k i m) (hop : i.op = .call) (hstart : c.start % 2 = 0) :
    ∃ site, i.call = some site ∧ c.Calls W k site.target m := by
  obtain ⟨first, s, s', s1, last, hfinished, hunfolded, -⟩ := compile_unfolded c.compiled h.code
  obtain ⟨site, a, hcall, hcode, hbefore, hafter, hbuf⟩ := call_parts hop hunfolded.lowered
  have hw := hfinished.working
  have hend := hunfolded.grown hw
  have hpart := hunfolded.part hfinished .refl hbefore (hafter.trans hend.asm)
  have hplace := placeOf_eq hunfolded.start hunfolded.before
  have hnext : c.program.placeOf t c.base (k + 1) = .ok a.buf.offset := by
    rw [placeOf_eq hunfolded.start hunfolded.upto, CodeBuffer.offset, hbuf]
    rfl
  cases hcode with
  | direct hdirect hjal =>
    have := traced_jalDirect ra (directDistance?_eq_some hdirect).2.1
    obtain ⟨items, htrace, -⟩ := Asm.Traced.trace _ _ _ _ hpart.behind hjal
    obtain ⟨S, rfl, rfl, hS, hlast, hearly, hlate⟩ := hpart.site hfinished (htrace.behind hpart.behind)
      (mergeable_none_of_spaced (Asm.spaces_jalOffset _ _ _ _ _ _ hpart.behind hjal)) h.outside c.based
    obtain ⟨m', hstep, hlinked⟩ := Site.direct_goes hdirect hjal hearly hlate (h.before.at hfinished hS hlast hplace)
      (by rw [hS]; exact hstart)
    rw [hS] at hlinked
    exact ⟨site, hcall, _, m', hnext, .one hstep, hlinked, .inl hstep⟩
  | @trampoline entry b hnew hjal hmem =>
    have hnewTrace := Site.trace_call (t := t) (c := .newLabel) trivial
      (show Call.run .newLabel t s.asm = .ok ((), b) from
      Asm.bind_eq_ok.mpr ⟨_, _, hnew, rfl⟩)
    have hb := hnewTrace.behind hpart.behind
    obtain ⟨items, htrace, -⟩ := (Asm.traced_of_composed (Asm.jal ra entry)).trace _ _ _ _ hb hjal
    obtain ⟨S, rfl, rfl, hS, hlast, hearly, hlate⟩ := hpart.site hfinished (htrace.behind hb)
      (mergeable_none_of_spaced (Asm.spaces_jal _ _ _ _ _ _ hb hjal)) h.outside c.based
    obtain ⟨S', _, _, off, hworld, htarget, hS', hlast', hbounces, hliteral⟩ := hunfolded.bounces hfinished hmem h.outside
    have hbeside : S.Beside S' := ⟨hworld, htarget, hS'.trans hS.symm, hlast'.trans hlast.symm⟩
    have hat : S.At b m := by
      obtain ⟨hstands, hpc⟩ := h.before.at hfinished hS hlast hplace
      cases hnew
      exact ⟨hstands, hpc⟩
    obtain ⟨m1, m', hstep, hpc, hreach, hlinked⟩ :=
      Site.trampoline_goes hbeside hbounces hjal (hearly.append hnewTrace) hlate hat
    rw [hS] at hlinked hpc
    refine ⟨site, hcall, _, m', hnext, .head hstep hreach, hlinked, .inr ⟨off + 12, m1, hliteral, hstep, ?_, hreach⟩⟩
    rw [hpc, UInt64.add_assoc]
    exact congrArg (c.start + ·) (UInt64.ofNat_add off 12).symm

end

/-! ## Calls and jumps anywhere in the code -/

/-- Work that goes to an address outside the code. -/
inductive Transfer where
  | call (target : UInt64)
  | jump (target : UInt64)
  | runtimeCall (e : RuntimeEntry)
  | runtimeCallWithArg (e : RuntimeEntry)
  | runtimeJump (e : RuntimeEntry)

namespace Transfer

def work : Transfer → Asm Unit
  | call target => Asm.call target
  | jump target => Asm.jump target
  | runtimeCall e => Asm.rtCall e
  | runtimeCallWithArg e => Asm.rtCallWithArg e
  | runtimeJump e => Asm.rtJump e

/-- Where it goes. -/
def target (t : Target) : Transfer → UInt64
  | call target | jump target => target
  | runtimeCall e | runtimeCallWithArg e | runtimeJump e => t.runtime.addr e

/-- The register for the address behind it; a jump has none. -/
def link : Transfer → Reg
  | call _ | runtimeCall _ | runtimeCallWithArg _ => ra
  | jump _ | runtimeJump _ => zr

/-- The register that may be lost on the way. -/
def scratch : Transfer → Reg
  | runtimeCallWithArg _ => t1
  | _ => t0

variable {t : Target} {a a' : Assembler}

/-- All of them are far calls. -/
theorem work_eq_ok {c : Transfer} (h : c.work t a = .ok ((), a')) :
    Asm.farCall (c.target t) c.link c.scratch t a = .ok ((), a') := by
  cases c with
  | call target => exact h
  | jump target => exact h
  | runtimeCall e => exact Site.entryAddress_eq_ok h
  | runtimeCallWithArg e => exact Site.entryAddress_eq_ok h
  | runtimeJump e => exact Site.entryAddress_eq_ok h

theorem link_ne_none (c : Transfer) : c.link ≠ .none := by
  cases c <;> exact Reg.noConfusion

theorem keeps_scratch (c : Transfer) : Keeps c.scratch := by
  cases c with
  | runtimeCallWithArg e => exact show Keeps t1 by decide
  | call _ | jump _ | runtimeCall _ | runtimeJump _ => exact show Keeps t0 by decide

end Transfer

/-- The work was written somewhere in code that was finished. -/
structure Amid (t : Target) (base : UInt64) (blob : CodeBlob) (x : Asm Unit) (a a' : Assembler) : Prop where
  begun : ∃ name capacity first, Assembler.start name base capacity = .ok first ∧ Assembler.Grown t first a
  written : x t a = .ok ((), a')
  ended : ∃ last frameSize, Assembler.Grown t a' last ∧ last.finish frameSize = .ok blob

section
variable {t : Target} {W : World} {base start : UInt64} {blob : CodeBlob} {a a' : Assembler} {m : Machine}

/-- Where the work stands in memory. -/
theorem Amid.site {x : Asm Unit} [hgrows : x.Grows] [htraced : x.Traced] (h : Amid t base blob x a a')
    (hspaces : x.Spaces) (hbase : base ≠ 0 → start = base)
    (hclear : ∀ i < blob.code.length, W (start + UInt64.ofNat i) = none) (hstands : blob.Stands start m)
    (hpc : m.pc = start + UInt64.ofNat a.buf.offset) : ∃ S : Site, S.world = W ∧ S.target = t ∧ S.start = start ∧
      S.Early a ∧ S.Late a' ∧ S.At a m := by
  obtain ⟨name, capacity, first, hfirst, hbegin⟩ := h.begun
  obtain ⟨last, frameSize, hend, hfinish⟩ := h.ended
  have hfinished := finished_of hfirst hfinish
  have hgrown : Assembler.Grown t a a' := hgrows.grown h.written
  have hpart := hfinished.part (start_lastFence hfirst) hbegin (hgrown.working (hend.working hfinished.working)) hend
  obtain ⟨items, htrace, -⟩ := htraced.trace _ _ _ _ hpart.behind h.written
  obtain ⟨S, rfl, rfl, rfl, hlast, hearly, hlate⟩ := hpart.site hfinished (htrace.behind hpart.behind)
    (mergeable_none_of_spaced (hspaces _ _ _ _ hpart.behind h.written)) hclear hbase
  refine ⟨S, rfl, rfl, rfl, hearly, hlate, ?_, hpc⟩
  rw [Site.Stands, hlast, ← show blob.code.toArray = last.buf.bytes by rw [hfinished.code, Array.toArray_toList]]
  exact hstands

/-- A call or jump reaches its target from wherever it stands. -/
theorem Transfer.goes {c : Transfer} (h : Amid t base blob c.work a a') (hstart : start % 2 = 0)
    (hbase : base ≠ 0 → start = base)
    (hclear : ∀ i < blob.code.length, W (start + UInt64.ofNat i) = none) (hstands : blob.Stands start m)
    (hpc : m.pc = start + UInt64.ofNat a.buf.offset) : ∃ m', W.Reaches m m' ∧
      Linked c.link [c.scratch] (c.target t &&& ~~~1) (start + UInt64.ofNat a'.buf.offset) m m' := by
  have hrun := Transfer.work_eq_ok h.written
  have h : Amid t base blob (Asm.farCall (c.target t) c.link c.scratch) a a' := { h with written := hrun }
  obtain ⟨S, rfl, rfl, rfl, hearly, hlate, hat⟩ := h.site (Asm.spaces_farCall _ _ _) hbase hclear hstands hpc
  exact S.farCall_goes c.link_ne_none c.keeps_scratch hstart hrun hearly hlate hat

end

/-- Code that is generated is in the middle of nothing. -/
theorem amid_of_generate {base : UInt64} {capacity frameSize : Int64} {x : Asm Unit} {blob : CodeBlob}
    (h : Asm.generate t name base capacity frameSize x = .ok (blob, ())) :
    ∃ a a', Amid t base blob x a a' ∧ a.buf.offset = 0 := by
  obtain ⟨first, hstart, hrest⟩ := except_bind_eq_ok.mp h
  obtain ⟨⟨_, last⟩, hrun, hrest⟩ := except_bind_eq_ok.mp hrest
  obtain ⟨blob', hfinish, hrest⟩ := except_bind_eq_ok.mp hrest
  cases hrest
  rw [ofFault_eq_ok] at hstart hrun
  rw [ofFailure_eq_ok] at hfinish
  exact ⟨first, last, ⟨⟨name, capacity, first, hstart, .refl⟩, hrun, last, frameSize, .refl, hfinish⟩,
    (finished_of hstart hfinish).fresh.offset⟩

/-- Every call and jump to an address reaches it, but for the lowest bit, with the address behind it in its link register and
nothing else changed but a scratch register: the far calls wherever they stand in finished code, and those of compiled code by
their distance or through a trampoline, whose literal is aligned and inside its stub. -/
theorem calls_reach_targets (t : Target) (W : World) :
    (∀ (c : Transfer) (base start : UInt64) (blob : CodeBlob) (a a' : Assembler) (m : Machine),
      Amid t base blob c.work a a' → start % 4 = 0 → (base ≠ 0 → start = base) →
      (∀ i < blob.code.length, W (start + UInt64.ofNat i) = none) → blob.Stands start m →
      m.pc = start + UInt64.ofNat a.buf.offset →
      ∃ m', W.Reaches m m' ∧ Linked c.link [c.scratch] (c.target t &&& ~~~1) (start + UInt64.ofNat a'.buf.offset) m m') ∧
    ∀ (c : Resident t) (k : Nat) (i : Instruction) (m : Machine), c.Facing W k i m → i.op = .call → c.start % 4 = 0 →
      ∃ site, i.call = some site ∧ c.Calls W k site.target m := by
  have heven {start : UInt64} (h : start % 4 = 0) : start % 2 = 0 := by
    have hstart : start.toNat % 4 = 0 := congrArg UInt64.toNat h
    apply UInt64.toNat_inj.mp
    show start.toNat % 2 = 0
    omega
  exact ⟨fun c base start blob a a' m h hstart hbase hclear hstands hpc =>
    Transfer.goes h (heven hstart) hbase hclear hstands hpc, fun c k i m h hop hstart => h.calls hop (heven hstart)⟩

/-- A target whose routines have addresses. -/
def callingTarget : Target := ⟨{}, .synthetic 0x20000⟩

/-- A method that calls an odd address, too far away for a jump. -/
def callsFar : Program where
  name := "p"
  frameSize := 64
  code := #[{ op := .call, call := some { entry := .newInstance, target := 0x80000001 } }]

/-- A machine in front of code at `0x10000`. -/
def callingMachine (code : List UInt8) (pc : UInt64) : Machine where
  x _ := 0
  f _ := 0
  pc
  mem := Ram.overlay (fun _ => 0) 0x10000 code

theorem odd_targets_are_reached : ∃ (blob : CodeBlob) (a' : Assembler) (m1 : Machine) (method : CompiledMethod)
    (off next : Nat)
    (m2 : Machine), World.bare.Reaches (callingMachine blob.code 0x10000) m1 ∧ m1.pc = 0x123456788 ∧
      m1.get ra = 0x10000 + UInt64.ofNat a'.buf.offset ∧
      callsFar.compile callingTarget 0x10000 = .ok method ∧ callsFar.placeOf callingTarget 0x10000 0 = .ok off ∧
      callsFar.placeOf callingTarget 0x10000 1 = .ok next ∧
      World.bare.Reaches (callingMachine method.blob.code (0x10000 + UInt64.ofNat off)) m2 ∧ m2.pc = 0x80000000 ∧
      m2.get ra = 0x10000 + UInt64.ofNat next := by
  obtain ⟨hfar, hcompiled⟩ := calls_reach_targets callingTarget World.bare
  have hstands {blob : CodeBlob} (pc : UInt64) (h : blob.code.length ≤ 0x1000) : blob.Stands 0x10000
    (callingMachine blob.code pc) :=
    CodeBlob.stands_overlay (by omega) rfl
  -- a call whose code may be anywhere makes up its target in a register
  obtain ⟨⟨blob, _⟩, hgenerate, hsize⟩ :=
    any_toOption (x := Asm.generate callingTarget "far" 0 64 0 (Asm.call 0x123456789))
      (p := fun r => r.1.code.length ≤ 0x1000) (by decide +kernel)
  have hsize : blob.code.length ≤ 0x1000 := of_decide_eq_true hsize
  obtain ⟨a, a', hamid, hoff⟩ := amid_of_generate hgenerate
  obtain ⟨m1, hreach1, hlinked1⟩ := hfar (.call 0x123456789) 0 0x10000 blob a a' _ hamid (by decide)
    (fun h => absurd rfl h)
    (fun _ _ => rfl) (hstands 0x10000 hsize) (by rw [hoff]; rfl)
  -- a call of compiled code goes through a trampoline
  obtain ⟨method, off, hmethod, hlength, hplace⟩ :
    callsFar.CompilesWithin callingTarget 0x10000 0 0x1000 := .of_checks (by decide +kernel) (by decide +kernel)
  let c : Resident callingTarget := ⟨callsFar, 0x10000, method, 0x10000, hmethod, fun _ => rfl⟩
  have hfacing : c.Facing World.bare 0 { op := .call, call := some { entry := .newInstance, target := 0x80000001 } }
      (callingMachine method.blob.code (0x10000 + UInt64.ofNat off)) :=
      ⟨rfl, fun _ _ => rfl, hstands _ hlength, off, hplace, rfl⟩
  obtain ⟨site, hsite, next, m2, hnext, hreach2, hlinked2, -⟩ :=
    hcompiled c 0 _ _ hfacing rfl (show (0x10000 : UInt64) % 4 = 0 by decide)
  cases hsite
  exact ⟨blob, a', m1, method, off, next, m2, hreach1, hlinked1.pc, hlinked1.ret (by decide), hmethod,
    hplace, hnext, hreach2, hlinked2.pc, hlinked2.ret (by decide)⟩

end RiscvJit
