import RiscvJit.Proofs.Code.Histories
import RiscvJit.Proofs.Lower.MemoryMoves

/-
  RiscvJit.Proofs.Lower.CompareAndSwap — swapping a word in memory while others write to it.

  A swap loads the word with a reservation, compares it, and stores the new one if nobody has written the word
  since, or tries again. Other threads may write between any two instructions, and a store may fail for no
  reason. When the code is at its end, its history (`Event`) has one instant that decides (`SwapEnds`). Either the result is 1,
  and at that instant the word was the expected one and became the new one (`Exchanges`), or the result is 0, nothing was
  written, and at that instant the word was another one (`Misses`).

  The numbers of compressed references are computed into the two temporaries first. The lowering refuses an address in one of
  them, but not a new value in the first, which is overwritten before it is read (`aliased_new_value_is_lost`).
-/

namespace RiscvJit

open Machine (Keeps)
open Reg (zr t0 t1)
open Assembler
open Lower
open Site
open Asm

/-! ## Barriers at the end of code -/

/-- Whatever its sets are, a barrier is an instruction. -/
theorem decode_fenceWord (sets : Int64) : ∃ i, decode (fenceWord sets) = some i ∧ i.op.info.format = .fence := by
  have hlt : (lowWord sets &&& 0xff).toNat < 256 := by
    rw [UInt32.toNat_and]
    exact Nat.and_lt_two_pow _ (by decide : UInt32.toNat 0xff < 2 ^ 8)
  have hmasked : fenceWord sets = fenceWord (Int64.ofNat (lowWord sets &&& 0xff).toNat) := by
    have hlow : ∀ v < 256, lowWord (Int64.ofNat v) &&& 0xff = UInt32.ofNat v := by decide +kernel
    show encodeI _ _ 0 0 (lowWord sets &&& 0xff) = encodeI _ _ 0 0 (lowWord _ &&& 0xff)
    rw [hlow _ hlt, UInt32.ofNat_toNat]
  have hadmits : ∀ v < 256, Op.fence.info.format.admits (Int64.ofNat v) = true := by decide +kernel
  rw [hmasked]
  exact ⟨_, @Op.decode_encode .fence (by decide) .none .none .none _ rfl rfl rfl (hadmits _ hlt) rfl, rfl⟩

/-- A barrier at the end of a part of finished code is an instruction that only takes a step, even if others were merged
into it. -/
theorem Site.closing_barrier {S : Site} {a a' : Assembler} (ha : S.Early a) (hl : S.Late a) (hnone : a.mergeable? = none)
    (hrun : membar anyOrder S.target a = .ok ((), a')) (hgrown : Grown S.target a' S.last) :
    a'.buf.offset = a.buf.offset + 4 ∧ a'.buf.offset ≤ 2 ^ 48 ∧
      ∀ m, S.At a m → S.world.step m = some { m with pc := m.pc + 4 } := by
  obtain ⟨L0, _, _, hspot⟩ := spot ha (.nil a) hl
  have hw' := hgrown.working S.working
  obtain ⟨pred, succ, hfence⟩ : ∃ pred succ, Asm.fence pred succ S.target a = .ok ((), a') := ⟨_, _, hrun⟩
  have hitem : (Item.barrier (fenceWord (pred <<< 4 ||| succ))).run S.target a = .ok ((), a') := by
    rw [fence_sealed hnone hfence]
    rfl
  have hoffset : a'.buf.offset = a.buf.offset + 4 := by
    rw [fence_sealed hnone hfence] at hw' ⊢
    exact offset_emit4_working hw'
  obtain ⟨hanchored, -⟩ := (anchored_of_holds hspot.before ha.behind hnone).item (i := .barrier _) trivial hitem hw'
  obtain ⟨L, hL, hkeeps⟩ := hgrown.anchored hanchored S.working
  obtain ⟨sets, hpiece⟩ := hkeeps.barriers L0.pieces.length ⟨_, List.getElem?_concat_length ..⟩
  have hlen := (List.getElem?_eq_some_iff.mp hpiece).1
  have hoff := hspot.before.offset
  refine ⟨hoffset, ?_, fun m hat => ?_⟩
  · have hroom := hL.holds.spells.room
    have hlimit := hL.holds.spells.limit
    rw [Layout.length_words] at hroom
    omega
  · have hpc : m.pc = S.start + UInt64.ofNat (4 * L0.pieces.length) := by rw [hat.pc, hoff]
    obtain ⟨i, hdecode, hformat⟩ := decode_fenceWord sets
    refine (step_inside hL.holds hpiece hpc).trans (Machine.step_of_decode (i := i) ?_ |>.trans ?_)
    · rw [hL.holds.fetch hat.stands hpiece hpc]
      exact hdecode
    · rw [Machine.exec, hformat]
      rfl

/-! ## Lowered code -/

namespace Site

variable {S : Site} {C : Company S} {α β : Type} {m : Machine} {h : List Event} {E : List Event → Exits}

/-- What was lowered, run among others with the history so far. -/
def Relates (S : Site) (C : Company S) (x : Lower α) (h : List Event) (m : Machine) (E : List Event → Exits)
    (Q : α → List Event → Machine → Prop) : Prop :=
  ∀ s, S.Narrates C (x.asmFrom s) h m E fun p => Q p.1

theorem relates_asm {x : Asm α} {Q : α → List Event → Machine → Prop} (ht : S.Narrates C x h m E Q) :
    S.Relates C (liftM x) h m E Q := by
  intro s a p a' hrun ha ha' hat
  obtain ⟨hx, rfl⟩ := asmFrom_eq_ok.mp hrun
  obtain ⟨b, hb, e⟩ := asm_eq_ok.mp hx
  rw [e] at ha' ⊢
  exact ht a p.1 b hb ha ha' hat

/-- What only looks at the state. -/
theorem relates_silent {x : Lower α} {Q : α → List Event → Machine → Prop}
    (hx : ∀ s r s', x S.target s = .ok (r, s') → s'.asm = s.asm ∧ Q r h m) : S.Relates C x h m E Q := fun _ =>
  tells_silent fun _ _ _ _ hrun => by
    obtain ⟨hrun', rfl⟩ := asmFrom_eq_ok.mp hrun
    obtain ⟨e, hq⟩ := hx _ _ _ hrun'
    exact ⟨congrArg (·.buf.offset) e, hq⟩

theorem relates_lift {e : Except Fault α} {Q : α → List Event → Machine → Prop} (hq : ∀ r, e = .ok r → Q r h m) :
    S.Relates C (liftM e) h m E Q :=
  relates_silent fun _ r _ hx => by
    obtain ⟨he, rfl⟩ := Lower.lift_eq_ok.mp hx
    exact ⟨rfl, hq r he⟩

theorem Relates.bind {x : Lower α} {f : α → Lower β} {Q : β → List Event → Machine → Prop} [hx : Lower.Traced x]
    [hf : ∀ r, Lower.Traced (f r)] (hr : S.Relates C x h m E fun r h' m' => S.Relates C (f r) h' m' E Q) :
    S.Relates C (x >>= f) h m E Q := by
  intro s
  rw [asmFrom_bind]
  have := hx.asmFrom s
  have (p : α × Lowering) := (hf p.1).asmFrom p.2
  exact .bind ((hr s).imp (fun _ _ _ h => h) fun p _ _ hrest => hrest p.2)

theorem relates_compressedOop {k : ValueKind} {Q : Bool → List Event → Machine → Prop}
    (hq : Q (isOop k && S.target.opts.compressedOops) h m) : S.Relates C (compressedOop k) h m E Q :=
  relates_silent fun _ _ _ hx => by
    cases hx
    exact ⟨rfl, hq⟩

end Site

/-! ## Instructions among other threads -/

section
variable {t : Target} {c : Resident t} {W : World} {j n : Nat} {i : Instruction} {m m' : Machine} {es : List Event}

/-- Others write where they like, but not to the code, and who writes to the reserved word takes the reservation away. -/
structure Resident.Interferes (c : Resident t) (n : Nat) (s s' : Shared) : Prop where
  code : ∀ addr, ¬ c.Clear addr → s'.mem addr = s.mem addr
  reserved : ∀ a, s'.reserved = some a → s.reserved = some a ∧ s'.mem.read a n = s.mem.read a n

/-- A thread whose registers are its own. -/
def Resident.company (c : Resident t) (n : Nat) (S : Site) (hfree : ∀ addr, S.Free addr ↔ c.Clear addr) : Company S where
  others := c.Interferes n
  ours mem mem' := mem' = mem
  refl s := ⟨fun _ _ => rfl, fun _ h => ⟨h, rfl⟩⟩
  trans h h' := ⟨fun addr ha => (h'.code addr ha).trans (h.code addr ha), fun a ha =>
    have := h'.reserved a ha
    have := h.reserved a this.1
    ⟨this.1, by simp_all⟩⟩
  quiet _ := rfl
  keeps h addr ha := h.code addr fun hc => ha ((hfree addr).mpr hc)
  endless := True

/-- The instruction is run by a thread among others: it can always go on, and at its end `Q` holds of its history. -/
def Resident.RunsAmong (c : Resident t) (W : World) (n j : Nat) (m : Machine) (Q : List Event → Machine → Prop) : Prop :=
  ∀ es m', W.Turns (c.Interferes n) (c.Inside j) m es m' →
    (c.Inside j m'.pc → ∀ s, c.Interferes n m'.shared s → ∃ m'', W.step (m'.within s) = some m'') ∧
      (¬ c.Inside j m'.pc → c.Before (j + 1) m' ∧ Q es m')

/-- An instruction that ends with a barrier. -/
theorem Resident.Facing.runsAmong {x : Lower Unit} {Q : List Event → Machine → Prop} [hxt : Lower.Traced x]
    [hxs : Lower.Seals x]
    [hxg : Lower.Grows x] (hm : c.Facing W j i m)
    (hx : dispatch i = x >>= fun _ => liftM (membar anyOrder))
    (hgo : ∀ (S : Site) (hfree : ∀ addr, S.Free addr ↔ c.Clear addr), S.target = t → i.Admitted →
      S.Relates (c.company n S hfree) x [] m (fun _ => .none) fun _ => Q)
    (hlast : ∀ h m s, c.Interferes n m.shared s → Q h m → Q (h ++ [⟨s.mem, s.mem⟩]) { m.within s with pc := m.pc + 4 }) :
    c.RunsAmong W n j m Q := by
  obtain ⟨first, last, s, s', hfinished, hplaced⟩ := compile_placed c.compiled hm.code
  have hlowered := hplaced.lowered
  rw [instruction, hx] at hlowered
  obtain ⟨_, s0, hchecked, hrest⟩ := Lower.bind_eq_ok.mp hlowered
  obtain ⟨hok, e⟩ := Lower.lift_eq_ok.mp hchecked
  obtain ⟨_, s1, hrun, hbar⟩ := Lower.bind_eq_ok.mp hrest
  rw [e] at hrun
  have hgrown : Grown t s.asm s1.asm := (hxg.grown hrun).asm
  have hgrown' : Grown t s1.asm s'.asm := ((grows_asm (membar anyOrder)).grown hbar).asm
  obtain ⟨a', hbar, hs'⟩ := asm_eq_ok.mp hbar
  have hasm : s'.asm = a' := by rw [hs']
  -- the part of the code in front of the barrier
  have hpart := hplaced.part.inner .refl hgrown hgrown' hfinished.working
  obtain ⟨_, htrace⟩ := hxt.trace hpart.behind hrun
  have hnone := hxs.seals hpart.behind hrun
  obtain ⟨S, rfl, rfl, hstart, hlast', hearly, hlate⟩ :=
    hpart.site (W := W) hfinished (htrace.behind hpart.behind) hnone hm.outside c.based
  have hcode : S.last.buf.bytes = c.method.blob.code.toArray := by rw [hfinished.code, Array.toArray_toList, hlast']
  have hfree (addr : UInt64) : S.Free addr ↔ c.Clear addr := by
    rw [Free, hcode, hstart, List.size_toArray]
    rfl
  have hat {k : Nat} {a : Assembler} (hk : c.program.placeOf S.target c.base k = .ok a.buf.offset) (m : Machine) :
      c.Before k m ↔ S.At a m := by
    constructor
    · rintro ⟨hstands, off, hoff, hpc⟩
      rw [hk] at hoff
      cases hoff
      refine ⟨?_, by rw [hpc, hstart]⟩
      rw [Stands, hcode, hstart]
      exact hstands
    · rintro ⟨hstands, hpc⟩
      refine ⟨?_, _, hk, by rw [hpc, hstart]⟩
      rw [Stands, hcode, hstart] at hstands
      exact hstands
  obtain ⟨hoffset, hlimit, hstep⟩ := closing_barrier (hearly.append htrace) hlate hnone hbar
    (by rw [← hasm, hlast']; exact hplaced.part.grown)
  rw [← hasm] at hoffset hlimit
  have hinside (pc : UInt64) : c.Inside j pc ↔ ∃ off, s.asm.buf.offset ≤ off ∧ off < s'.asm.buf.offset ∧
    pc = c.start + UInt64.ofNat off := by
    constructor
    · rintro ⟨_, _, off, hfirst, hnext, hlow, hhigh, hpc⟩
      rw [hplaced.place] at hfirst
      rw [hplaced.next] at hnext
      cases hfirst
      cases hnext
      exact ⟨off, hlow, hhigh, hpc⟩
    · rintro ⟨off, hlow, hhigh, hpc⟩
      exact ⟨_, _, off, hplaced.place, hplaced.next, hlow, hhigh, hpc⟩
  have hmono : s.asm.buf.offset ≤ s1.asm.buf.offset := htrace.steady.offset
  have hend : ¬ c.Inside j (c.start + UInt64.ofNat s'.asm.buf.offset) := by
    rw [hinside]
    rintro ⟨off, -, hhigh, e⟩
    have := congrArg UInt64.toNat ((UInt64.add_right_inj _).mp e)
    rw [UInt64.toNat_ofNat', UInt64.toNat_ofNat'] at this
    omega
  have hnext {m : Machine} (hat : S.At s1.asm m) : m.pc + 4 = c.start + UInt64.ofNat s'.asm.buf.offset := by
    rw [hat.pc, hoffset, hstart, UInt64.ofNat_add, ← UInt64.add_assoc]
    rfl
  have hrecounts (k : Nat) : Recounts (c.company n S hfree) logged (c.Inside j) (fun h m' =>
    c.Before (j + 1) m' ∧ Q h m') k [] m := by
    have hcalled : x.asmFrom s S.target s.asm = .ok (((), s1), s1.asm) := asmFrom_eq_ok.mpr ⟨hrun, rfl⟩
    refine hgo S hfree rfl (checkOperands_eq_ok.mp hok) s s.asm _ s1.asm hcalled hearly hlate
      ((hat hplaced.place m).mp hm.before) (c.Inside j) _ chronicle_recounts (fun pc hpc => ?_) k (fun h m' hat' hq => ?_)
      fun _ _ _ _ he => he.elim
    · obtain ⟨off, hlow, hhigh, hpc⟩ := hpc
      exact (hinside pc).mpr ⟨off, hlow, by omega, by rw [hpc, hstart]⟩
    · refine chronicle_recounts.back ?_ fun s2 hs2 => ?_
      · exact (hinside _).mpr ⟨_, hmono, by omega, by rw [hat'.pc, hstart]⟩
      · have hat2 : S.At s1.asm (m'.within s2) := hat'.within (C := c.company n S hfree) hs2
        refine ⟨_, _, hstep _ hat2, rfl, recounts_out ?_ ⟨(hat hplaced.next _).mpr ⟨hat2.stands.withPc _, ?_⟩,
          hlast h m' s2 hs2 hq⟩⟩
        · show ¬ c.Inside j ((m'.within s2).pc + 4)
          rw [hnext hat2]
          exact hend
        · show (m'.within s2).pc + 4 = _
          rw [hnext hat2, hstart]
  intro es m' hturns
  have := turns_recount hrecounts (h := []) (C := c.company n S hfree) hturns
  rwa [List.nil_append] at this

end

/-! ## Swapping a word -/

/-- At one instant the word was found and replaced, and the thread wrote nothing else. -/
def Exchanges (a : UInt64) (n : Nat) (x y : UInt64) (es : List Event) : Prop :=
  ∃ pre e post, es = pre ++ e :: post ∧ (∀ q ∈ pre ++ post, q.Quiet) ∧ e.before.read a n = x ∧
  e.after = e.before.write a n y

/-- At one instant another word was there, and the thread wrote nothing. -/
def Misses (a : UInt64) (n : Nat) (x : UInt64) (es : List Event) : Prop :=
  (∀ e ∈ es, e.Quiet) ∧ ∃ e ∈ es, e.before.read a n ≠ x

section
variable {a x y : UInt64} {n : Nat} {es es' : List Event}

theorem Exchanges.append (h : Exchanges a n x y es) (hq : ∀ e ∈ es', e.Quiet) : Exchanges a n x y (es ++ es') := by
  obtain ⟨pre, e, post, rfl, hquiet, hread, hwrite⟩ := h
  refine ⟨pre, e, post ++ es', by simp, fun q hmem => ?_, hread, hwrite⟩
  rw [← List.append_assoc] at hmem
  exact (List.mem_append.mp hmem).elim (hquiet q) (hq q)

theorem Misses.append (h : Misses a n x es) (hq : ∀ e ∈ es', e.Quiet) : Misses a n x (es ++ es') :=
  ⟨fun e he => (List.mem_append.mp he).elim (h.1 e) (hq e), h.2.imp fun _ he => ⟨List.mem_append_left _ he.1, he.2⟩⟩

end

/-- How a swap ends: with one if it swapped, and with zero if it did not. -/
structure SwapEnds (result : Reg) (tmps : List Reg) (a : UInt64) (n : Nat) (x y : UInt64) (m : Machine)
    (es : List Event) (m' : Machine) :
    Prop where
  outcome : m'.get result = 1 ∧ Exchanges a n x y es ∨ m'.get result = 0 ∧ Misses a n x es
  rest : ∀ r, r ≠ result → r ∉ tmps → m'.get r = m.get r

namespace Asm

/-- One attempt of a swap. -/
def swapAttempt (addr expected new result : Reg) (wide : Bool) (retry fail done : Label) : Asm Unit := do
  lr (if wide then .lrD else .lrW) t0 addr acquire
  branch .bne t0 expected fail
  sc (if wide then .scD else .scW) t1 new addr release
  branch .bne t1 zr retry
  li result 1
  j done

/-- A swap without the barrier at its end. -/
def swap (addr expected new result : Reg) (wide : Bool) : Asm Unit :=
  newLabel >>= fun retry => newLabel >>= fun fail => newLabel >>= fun done =>
    ((bind retry >>= fun _ => swapAttempt addr expected new result wide retry fail done) >>= fun _ =>
      bind fail >>= fun _ => mv result zr) >>= fun _ => bind done

variable (addr expected new result : Reg) (wide : Bool)

theorem cmpxchg_eq :
    cmpxchg addr expected new result wide = swap addr expected new result wide >>= fun _ => membar anyOrder := by
  unfold cmpxchg swap swapAttempt
  simp only [bind_assoc]

instance traced_swapAttempt (retry fail done : Label) :
    Traced (swapAttempt addr expected new result wide retry fail done) := by
  unfold swapAttempt
  infer_instance

instance traced_swap : Traced (swap addr expected new result wide) := by
  unfold swap
  infer_instance

instance grows_swap : Grows (swap addr expected new result wide) := by
  unfold swap swapAttempt
  infer_instance

end Asm

namespace Site

variable {t : Target} {c : Resident t} {S : Site} {n : Nat} {hfree : ∀ addr, S.Free addr ↔ c.Clear addr}
  {m : Machine} {h : List Event} {addr expected new result : Reg} {wide : Bool} {x y : UInt64}
  {Q : List Event → Machine → Prop}

/-- Code that writes nothing adds nothing but quiet events. -/
theorem Goes.notes {α : Type} {x : Asm α} {E : Exits} {R : α → Machine → Prop} {E' : List Event → Exits}
    {Q : α → List Event → Machine → Prop} (hgo : S.Goes (c.company n S hfree) x m E R)
    (hE : ∀ es e m', (∀ q ∈ es, q.Quiet) → E e m' → E' (h ++ es) e m')
    (hQ : ∀ es r m', (∀ q ∈ es, q.Quiet) → R r m' → Q r (h ++ es) m') : S.Narrates (c.company n S hfree) x h m E' Q := by
  refine hgo.narrates.imp (fun _ e m' he => ?_) fun r _ m' hr => ?_
  · obtain ⟨⟨es, rfl, hes⟩, he⟩ := he
    exact hE es e m' hes he
  · obtain ⟨⟨es, rfl, hes⟩, hr⟩ := hr
    exact hQ es r m' hes hr

variable {E : List Event → Exits}

theorem narrates_branch {o : Op} {rs1 rs2 : Reg} {l : Label} {Q : Unit → List Event → Machine → Prop}
    (ho : o.info.format = .branch) (hl : S.Binds l)
    (htaken : o.taken (m.get rs1) (m.get rs2) = true → ∀ es m', (∀ q ∈ es, q.Quiet) → (c.company n S hfree).Idled m m' →
      E (h ++ es) (.label l) m')
    (hnot : o.taken (m.get rs1) (m.get rs2) = false → ∀ es m', (∀ q ∈ es, q.Quiet) → (c.company n S hfree).Idled m m' →
      Q () (h ++ es) m') : S.Narrates (c.company n S hfree) (branch o rs1 rs2 l) h m E Q :=
  Goes.notes (E := fun e m' => e = .label l ∧ o.taken (m.get rs1) (m.get rs2) = true ∧ (c.company n S hfree).Idled m m')
    (R := fun _ m' => o.taken (m.get rs1) (m.get rs2) = false ∧ (c.company n S hfree).Idled m m')
    (goes_branch ho hl (fun ht _ h' => ⟨rfl, ht, h'⟩) fun hn _ h' => ⟨hn, h'⟩)
    (fun es _ m' hes he => he.1 ▸ htaken he.2.1 es m' hes he.2.2) fun es _ m' hes hr => hnot hr.1 es m' hes hr.2

theorem narrates_sextw {rd rs : Reg} {Q : Unit → List Event → Machine → Prop} (hk : Keeps rd)
    (hq : ∀ es m', (∀ q ∈ es, q.Quiet) → (c.company n S hfree).Went rd (sext (m.get rs).toUInt32) m
    m' → Q () (h ++ es) m') :
    S.Narrates (c.company n S hfree) (sextw rd rs) h m E Q :=
  Goes.notes (E := .none) (R := fun _ m' => (c.company n S hfree).Went rd (sext (m.get rs).toUInt32) m m')
    (goes_sextw hk fun _ h' => h') (fun _ _ _ _ he => he.elim) fun es _ m' hes h' => hq es m' hes h'

/-- A reference is compressed in a register. -/
theorem narrates_encodeHeapOop {dst src : Reg} {Q : Unit → List Event → Machine → Prop}
    (hopts : S.target.opts.refusal? = none) (hc : S.target.opts.compressedOops = true) (hk : Keeps dst)
    (hint : dst.isFloat = false)
    (hq : ∀ es m', (∀ q ∈ es, q.Quiet) → m'.get dst = S.target.opts.narrow (m.get src) →
    (∀ r, r ≠ dst → m'.get r = m.get r) →
      Q () (h ++ es) m') : S.Narrates (c.company n S hfree) (encodeHeapOop dst src dst) h m E Q :=
  Goes.notes (E := .none)
    (R := fun _ m' => m'.get dst = S.target.opts.narrow (m.get src) ∧ ∀ r, r ≠ dst → m'.get r = m.get r)
    (goes_encodeHeapOop hopts hc hk hk ⟨hint, hint⟩ fun _ hv hrest _ => ⟨hv, fun r hr => hrest r hr hr⟩)
    (fun _ _ _ _ he => he.elim) fun es _ m' hes h' => hq es m' hes h'.1 h'.2

theorem narrates_swap (hn : n = if wide then 8 else 4) (hquiet : ∀ e ∈ h, e.Quiet) (hk : Keeps result)
    (hint : result.isFloat = false)
    (haddr : addr ≠ t0 ∧ addr ≠ t1) (hexpected : expected ≠ t0 ∧ expected ≠ t1) (hnew : new ≠ t0 ∧ new ≠ t1)
    (hclear : ∀ i < n, c.Clear (m.get addr + UInt64.ofNat i))
    (hmatch : ∀ mem : Ram, (if wide then Op.lrD else .lrW).extend (mem.read (m.get addr) n) = m.get expected ↔
    mem.read (m.get addr) n = x)
    (hwrite : ∀ mem : Ram, mem.write (m.get addr) n (m.get new) = mem.write (m.get addr) n y)
    (hq : ∀ h' m', SwapEnds result [t0, t1] (m.get addr) n x y m h' m' → Q h' m') :
    S.Narrates (c.company n S hfree) (swap addr expected new result wide) h m (fun _ => .none) fun _ => Q := by
  have hlr : (if wide then Op.lrD else .lrW) = .lrW ∧ n = 4 ∨ (if wide then Op.lrD else .lrW) = .lrD ∧ n = 8 := by
    cases wide <;> simp_all
  have hsc : (if wide then Op.scD else .scW) = .scW ∧ n = 4 ∨ (if wide then Op.scD else .scW) = .scD ∧ n = 8 := by
    cases wide <;> simp_all
  have hshape (x : Asm Unit) (l : Label) : (x >>= fun _ => Asm.bind l) = x >>= fun _ => Asm.bind l >>=
    fun _ => pure () := by
    simp only [bind_pure_unit]
  unfold swap
  simp only [hshape]
  refine .bind (tells_newLabel fun retry => .bind (tells_newLabel fun fail => .bind (tells_newLabel fun done => ?_)))
  refine Tells.label fun hdone => Tells.label fun hfail => ?_
  -- nothing was written when an attempt begins
  refine Tells.loop (fun h' m' => (∀ e ∈ h', e.Quiet) ∧ ∀ r,
    r ∉ [t0, t1] → m'.get r = m.get r) trivial (fun hretry h0 m0 hI => ?_)
    ⟨hquiet, fun _ _ => rfl⟩
  obtain ⟨hquiet0, hrest0⟩ := hI
  have kept {r : Reg} (hr : r ≠ t0 ∧ r ≠ t1) : m0.get r = m.get r := hrest0 r (by simpa using hr)
  unfold swapAttempt
  refine .bind (narrates_lr (by decide) (by decide) hlr fun s hs m1 h1 =>
    .bind (narrates_branch rfl hfail (fun htaken es m2 hes h2 => ?_)
    fun hnot es m2 hes h2 => ?_))
  all_goals
    rw [kept haddr] at h1
    have hloaded : m1.get t0 = m.get expected ↔ s.mem.read (m.get addr) n = x := by rw [h1.value, hmatch]
    have hold : m1.get expected = m.get expected := by rw [h1.rest _ hexpected.1, kept hexpected]
    have hquiet1 : ∀ e ∈ h0 ++ [⟨s.mem, s.mem⟩] ++ es, e.Quiet := by
      intro e he
      rcases List.mem_append.mp he with he | he
      · rcases List.mem_append.mp he with he | he
        · exact hquiet0 e he
        · rw [List.mem_singleton.mp he]
          exact rfl
      · exact hes e he
    have hrest2 (r : Reg) (hr : r ∉ [t0, t1]) : m2.get r = m.get r := by
      rw [h2.regs, h1.rest r (fun e => hr (by simp [e])), hrest0 r hr]
  · -- another word was found
    have hne : s.mem.read (m.get addr) n ≠ x :=
      fun e => (of_decide_eq_true htaken : m1.get t0 ≠ _) ((hloaded.mpr e).trans hold.symm)
    have hmisses : Misses (m.get addr) n x (h0 ++ [⟨s.mem, s.mem⟩] ++ es) := ⟨hquiet1, ⟨s.mem, s.mem⟩, by simp, hne⟩
    refine .inr (.inl ⟨rfl, fun _ => Goes.notes (E := .none)
      (R := fun _ m' => (c.company n S hfree).Went result (m2.get zr) m2 m')
      (goes_mv hk hint fun m3 h3 => h3) (fun _ _ _ _ he => he.elim) fun es' _ m3 hes' h3 =>
      tells_pure (hq _ m3 ⟨.inr ⟨h3.value, ?_⟩, ?_⟩)⟩)
    · exact hmisses.append hes'
    · intro r hr ht
      rw [h3.rest r hr, hrest2 r ht]
  · have heq : s.mem.read (m.get addr) n = x := by
      refine hloaded.mp (Eq.trans ?_ hold)
      exact Decidable.of_not_not (of_decide_eq_false hnot)
    have haddr2 : m2.get addr = m.get addr := hrest2 addr (by simpa using haddr)
    have hnew2 : m2.get new = m.get new := hrest2 new (by simpa using hnew)
    refine .bind (narrates_sc (by decide) (by decide) hsc (fun i hi => ?_) (fun s' hs' hres m3 h3 => ?_)
      fun s' hs' m3 h3 => ?_)
    · rw [haddr2, hfree]
      exact hclear i hi
    · -- nobody wrote to the word since it was read
      rw [haddr2] at hres
      rw [haddr2, hnew2, hwrite] at h3 ⊢
      have hsame : s'.mem.read (m.get addr) n = x := by
        obtain ⟨hres2, hread2⟩ := hs'.reserved _ hres
        obtain ⟨-, hread1⟩ := h2.others.reserved _ hres2
        have hmem : m1.mem = s.mem := congrArg Shared.mem h1.shared
        rw [hread2, show m2.shared.mem = m2.mem from rfl]
        exact (hread1.trans (congrArg (fun mem : Ram => mem.read (m.get addr) n) hmem)).trans heq
      have hexchanges : Exchanges (m.get addr) n x y (h0 ++ [⟨s.mem, s.mem⟩] ++ es ++
        [⟨s'.mem, s'.mem.write (m.get addr) n y⟩]) :=
        ⟨_, _, [], rfl, by simpa using hquiet1, hsame, rfl⟩
      refine .bind (narrates_branch rfl hretry (fun htaken => ?_) fun _ es3 m4 hes3 h4 => ?_)
      · have htaken : m3.get t1 ≠ m3.get zr := of_decide_eq_true htaken
        exact absurd h3.value htaken
      refine .bind (Goes.notes (E := .none) (R := fun _ m' => (c.company n S hfree).Went result 1 m4 m')
        (goes_li hk fun m5 h5 => h5)
        (fun _ _ _ _ he => he.elim) fun es4 _ m5 hes4 h5 => ?_)
      refine Goes.notes (E := fun e m' => e = .label done ∧ (c.company n S hfree).Idled m5 m') (R := fun _ _ => False)
        (goes_j hdone fun m6 h6 => ⟨rfl, h6⟩) (fun es5 e m6 hes5 he => ?_) fun _ _ _ _ hr => hr.elim
      obtain ⟨rfl, h6⟩ := he
      refine .inr (.inr (.inl ⟨rfl, fun _ => tells_pure (hq _ m6 ⟨.inl ⟨?_, ?_⟩, ?_⟩)⟩))
      · rw [h6.regs, h5.value]
      · exact ((hexchanges.append hes3).append hes4).append hes5
      · intro r hr ht
        rw [h6.regs, h5.rest r hr, h4.regs, h3.rest r (fun e => ht (by simp [e])), hrest2 r ht]
    · -- it is tried again
      refine .bind (narrates_branch rfl hretry (fun _ es3 m4 hes3 h4 => .inl ⟨rfl, ?_, fun r hr => ?_⟩) fun hnot => ?_)
      · intro e he
        rcases List.mem_append.mp he with he | he
        · rcases List.mem_append.mp he with he | he
          · exact hquiet1 e he
          · rw [List.mem_singleton.mp he]
            exact rfl
        · exact hes3 e he
      · rw [h4.regs, h3.rest r (fun e => hr (by simp [e])), hrest2 r hr]
      · have hnot : ¬ m3.get t1 ≠ m3.get zr := of_decide_eq_false hnot
        exact absurd (show (1 : UInt64) = 0 from h3.value.symm.trans (Decidable.of_not_not hnot)) (by decide)

end Site

namespace Lower

/-- A swap of a compressed reference without the barrier at its end. -/
def swapNarrow (i : Instruction) (addr expected new res : Reg) : Lower Unit := do
  check (2 ≤ i.tmp.length) fun _ => "compressed reference cas needs two temporaries"
  let tc ← reg (← temporary i 0) "temporary"
  let tn ← reg (← temporary i 1) "temporary"
  distinct "cas" [addr, tc, tn]
  encodeHeapOop tc expected tc
  encodeHeapOop tn new tn
  sextw tc tc
  sextw tn tn
  swap addr tc tn res false

theorem asm_bind {α β : Type} (x : Asm α) (f : α → Asm β) :
    (liftM (x >>= f) : Lower β) = (liftM x : Lower α) >>= fun r => (liftM (f r) : Lower β) := by
  funext t s
  show _ = ((liftM x : Lower α) t s >>= fun p => (liftM (f p.1) : Lower β) t p.2)
  rw [asm_eq, asm_eq]
  show Except.map _ (x t s.asm >>= fun p => f p.1 t p.2) = _
  cases x t s.asm with
  | error e => rfl
  | ok p =>
    show Except.map _ (f p.1 t p.2) = (liftM (f p.1) : Lower β) t { s with asm := p.2 }
    rw [asm_eq]

variable (i : Instruction) (addr expected new res : Reg)

theorem casNarrow_eq : casNarrow i addr expected new res =
    swapNarrow i addr expected new res >>= fun _ => (liftM (membar anyOrder) : Lower Unit) := by
  unfold casNarrow swapNarrow
  simp only [bind_assoc, cmpxchg_eq, asm_bind]

section
variable {i : Instruction} {ka ke kv kr : ValueKind} {addr e v res ha he hv hr : Reg} (hop : i.op = .cas)
  (hin0 : i.inputs[0]? = some (Operand.register ka addr ha)) (hin1 : i.inputs[1]? = some (Operand.register ke e he))
  (hin2 : i.inputs[2]? = some (Operand.register kv v hv)) (hres : i.result = .register kr res hr)
include hop hin0 hin1 hin2 hres

theorem dispatch_cas : dispatch i =
    if ke.isIntLike then (liftM (cmpxchg addr e v res false) : Lower Unit)
    else compressedOop ke >>= fun b => if b then casNarrow i addr e v res else
      (liftM (cmpxchg addr e v res true) : Lower Unit) := by
  have hdispatch : dispatch i = cas i := by rw [dispatch.eq_def, hop]
  rw [hdispatch, cas]
  simp only [input_eq_ok.mpr hin0, input_eq_ok.mpr hin1, input_eq_ok.mpr hin2, lift_ok_bind,
    reg_register, hres, Operand.kind]
  rfl

theorem dispatch_cas_int (hk : ke.isIntLike = true) :
    dispatch i = (liftM (swap addr e v res false) : Lower Unit) >>= fun _ => (liftM (membar anyOrder) : Lower Unit) := by
  rw [dispatch_cas hop hin0 hin1 hin2 hres, if_pos hk, cmpxchg_eq, asm_bind]

theorem dispatch_cas_word (hk : ke.isIntLike = false) :
    dispatch i = (compressedOop ke >>= fun b =>
      if b then swapNarrow i addr e v res else (liftM (swap addr e v res true) : Lower Unit)) >>= fun _ =>
        (liftM (membar anyOrder) : Lower Unit) := by
  rw [dispatch_cas hop hin0 hin1 hin2 hres, if_neg (by rw [hk]; decide), bind_assoc]
  congr 1
  funext b
  cases b
  · rw [if_neg (by decide), if_neg (by decide), cmpxchg_eq, asm_bind]
  · rw [if_pos rfl, if_pos rfl, casNarrow_eq]

end

instance traced_swapNarrow : Traced (swapNarrow i addr expected new res) := by
  unfold swapNarrow
  infer_instance

set_option synthInstance.maxSize 512 in
instance grows_swapNarrow : Grows (swapNarrow i addr expected new res) := by
  have : Unlike "compressed reference cas needs two temporaries" := ⟨'c', by decide, by decide⟩
  unfold swapNarrow
  infer_instance

instance seals_swap (wide : Bool) : Seals (liftM (swap addr expected new res wide) : Lower Unit) := by
  unfold swap
  simp only [asm_bind]
  infer_instance

instance seals_swapNarrow : Seals (swapNarrow i addr expected new res) := by
  unfold swapNarrow
  infer_instance

end Lower

/-! ## Instructions that swap -/

theorem SwapEnds.later {result : Reg} {tmps : List Reg} {a x y p : UInt64} {n : Nat} {m m' : Machine} {es : List Event}
    (h : SwapEnds result tmps a n x y m es m') (s : Shared) :
    SwapEnds result tmps a n x y m (es ++ [⟨s.mem, s.mem⟩]) { m'.within s with pc := p } := by
  have hget (r : Reg) : ({ m'.within s with pc := p } : Machine).get r = m'.get r :=
    (Machine.get_withPc (m'.within s) p r).trans (Machine.get_within m' s r)
  have hquiet : ∀ e ∈ [(⟨s.mem, s.mem⟩ : Event)], e.Quiet := fun e he => by
    rw [List.mem_singleton.mp he]
    exact rfl
  refine ⟨?_, fun r hr ht => (hget r).trans (h.rest r hr ht)⟩
  rw [hget]
  exact h.outcome.imp (fun ⟨hv, hes⟩ => ⟨hv, hes.append hquiet⟩) fun ⟨hv, hes⟩ => ⟨hv, hes.append hquiet⟩

/-- A word that was loaded with its sign is another with its sign when the bytes are those of the other. -/
theorem extend_lrW_eq {v : UInt64} {w : UInt32} (hv : v.toNat < 2 ^ 32) : Op.lrW.extend v = sext w ↔ v = w.toUInt64 := by
  show sext v.toUInt32 = sext w ↔ _
  constructor
  · intro h
    have hlow : v.toUInt32 = w := by rw [← toUInt32_sext v.toUInt32, h, toUInt32_sext]
    apply UInt64.toNat_inj.mp
    rw [← hlow, UInt32.toNat_toUInt64, UInt64.toNat_toUInt32, Nat.mod_eq_of_lt hv]
  · rintro rfl
    rw [UInt32.toUInt32_toUInt64]

section
variable {t : Target} {c : Resident t} {W : World} {j : Nat} {i : Instruction} {m : Machine} {ka ke kv kr : ValueKind}
  {addr e v ha he hv hr : Reg} {r : Fin 32} (hm : c.Facing W j i m) (hop : i.op = .cas)
  (hin0 : i.inputs[0]? = some (Operand.register ka addr ha)) (hin1 : i.inputs[1]? = some (Operand.register ke e he))
  (hin2 : i.inputs[2]? = some (Operand.register kv v hv)) (hres : i.result = .register kr (.x r) hr)
include hm hop hin0 hin1 hin2 hres

/-- Ints are compared by their low halves. -/
theorem int_swap (hk : ke.isIntLike = true) (hsigned : OfKind .int (m.get e))
    (hclear : ∀ k < 4, c.Clear (m.get addr + UInt64.ofNat k)) :
    c.RunsAmong W 4 j m (SwapEnds (.x r) [t0, t1] (m.get addr) 4 (m.get e).toUInt32.toUInt64
    (m.get v).toUInt32.toUInt64 m) := by
  refine hm.runsAmong (dispatch_cas_int hop hin0 hin1 hin2 hres hk) (fun S hfree ht hadmitted => ?_)
    fun h m' s _ hq => hq.later s
  have hkeeps : Keeps (.x r) := hadmitted.keeps hres nofun
  refine relates_asm ?_
  refine narrates_swap rfl (fun _ he => absurd he List.not_mem_nil) hkeeps rfl (hadmitted.input hin0).ne_scratch
    (hadmitted.input hin1).ne_scratch (hadmitted.input hin2).ne_scratch hclear
    (fun mem => ?_) (fun mem => Ram.write_low _ _ (by decide) (by rw [UInt32.toUInt32_toUInt64])) fun _ _ h => h
  have hmatch := extend_lrW_eq (w := (m.get e).toUInt32) (Ram.toNat_read_lt mem (n := 4) (m.get addr) (by decide))
  rwa [hsigned rfl] at hmatch

/-- Words of eight bytes are compared as they are. -/
theorem word_swap (hk : ke.isIntLike = false) (hplain : t.opts.compresses ke = false)
    (hclear : ∀ k < 8, c.Clear (m.get addr + UInt64.ofNat k)) :
    c.RunsAmong W 8 j m (SwapEnds (.x r) [t0, t1] (m.get addr) 8 (m.get e) (m.get v) m) := by
  refine hm.runsAmong (dispatch_cas_word hop hin0 hin1 hin2 hres hk) (fun S hfree ht hadmitted => ?_)
    fun h m' s _ hq => hq.later s
  have hkeeps : Keeps (.x r) := hadmitted.keeps hres nofun
  refine .bind (relates_compressedOop ?_)
  rw [ht, show (isOop ke && t.opts.compressedOops) = false from hplain, if_neg (by decide)]
  refine relates_asm ?_
  exact narrates_swap rfl (fun _ he => absurd he List.not_mem_nil) hkeeps rfl (hadmitted.input hin0).ne_scratch
    (hadmitted.input hin1).ne_scratch (hadmitted.input hin2).ne_scratch hclear
    (fun mem => Iff.rfl) (fun mem => rfl) fun _ _ h => h

/-- Compressed references are compared by their numbers. What is stored is the number of what the register of the new value
holds when the number of the expected value has been written to the first temporary. -/
theorem narrow_swap {kc kn : ValueKind} {tc tn : Fin 32} {hc hn : Reg} {p q : UInt64} {n n' : UInt32}
    (hopts : t.opts.refusal? = none)
    (hk : t.opts.compresses ke = true) (htc : i.tmp[0]? = some (Operand.register kc (.x tc) hc))
    (htn : i.tmp[1]? = some (Operand.register kn (.x tn) hn))
    (hzero : tc ≠ 0 ∧ tn ≠ 0) (hp : t.opts.Numbers p n) (hq : t.opts.Numbers q n') (he : m.get e = p)
    (hv' : (if v = .x tc then n.toUInt64 else m.get v) = q) (hclear : ∀ k < 4, c.Clear (m.get addr + UInt64.ofNat k)) :
    c.RunsAmong W 4 j m (SwapEnds (.x r) [.x tc, .x tn, t0, t1] (m.get addr) 4 n.toUInt64 n'.toUInt64 m) := by
  have hoop : isOop ke = true ∧ t.opts.compressedOops = true := by simpa [Options.compresses] using hk
  have hint : ke.isIntLike = false := by
    have := hoop.1
    cases ke <;> first | rfl | cases this
  refine hm.runsAmong (dispatch_cas_word hop hin0 hin1 hin2 hres hint) (fun S hfree ht hadmitted => ?_)
    fun h m' s _ hq => hq.later s
  subst ht
  have hkeeps : Keeps (.x r) := hadmitted.keeps hres nofun
  have hkc : Keeps (.x tc) := ⟨fun e => hzero.1 (Reg.x.inj e), nofun⟩
  have hkn : Keeps (.x tn) := ⟨fun e => hzero.2 (Reg.x.inj e), nofun⟩
  have haddr := (hadmitted.input hin0).ne_scratch
  have hc := (hadmitted.temporaries _ (List.mem_of_getElem? htc)).ne_scratch
  have hn := (hadmitted.temporaries _ (List.mem_of_getElem? htn)).ne_scratch
  refine .bind (relates_compressedOop ?_)
  rw [show (isOop ke && S.target.opts.compressedOops) = true from hk, if_pos rfl]
  unfold swapNarrow
  have htemp {k : Nat} {o : Operand} (h : i.tmp[k]? = some o) : temporary i k = .ok o := by
    rw [temporary, h]
    rfl
  simp only [htemp htc, htemp htn, lift_ok_bind, reg_register]
  refine .bind (relates_lift fun _ _ => .bind (relates_lift fun _ hdistinct => ?_))
  obtain ⟨⟨hac, han⟩, hcn⟩ : (addr ≠ .x tc ∧ addr ≠ .x tn) ∧ Reg.x tc ≠ .x tn := by
    simpa only [List.nodup_cons, List.mem_cons, List.not_mem_nil, or_false, not_or, not_false_eq_true,
      List.nodup_nil, and_true] using
      nodup_of_distinct hdistinct
  -- both numbers, with their signs
  refine .bind (relates_asm (narrates_encodeHeapOop hopts hoop.2 hkc rfl fun es1 m1 hes1 h₁ hrest1 => ?_))
  refine .bind (relates_asm (narrates_encodeHeapOop hopts hoop.2 hkn rfl fun es2 m2 hes2 h2 hrest2 => ?_))
  refine .bind (relates_asm (narrates_sextw hkc fun es3 m3 hes3 h3 => .bind (relates_asm
    (narrates_sextw hkn fun es4 m4 hes4 h4 => relates_asm ?_))))
  rw [he, hp.narrow (Options.oopShift_le hopts)] at h₁
  have hnew : m1.get v = q := by
    rw [← hv']
    split
    case _ e => rw [e, h₁]
    case _ hne => exact hrest1 v hne
  rw [hnew, hq.narrow (Options.oopShift_le hopts)] at h2
  have htc4 : m4.get (.x tc) = sext n := by
    rw [h4.rest _ hcn, h3.value, hrest2 _ hcn, h₁, UInt32.toUInt32_toUInt64]
  have htn4 : m4.get (.x tn) = sext n' := by
    rw [h4.value, h3.rest _ hcn.symm, h2, UInt32.toUInt32_toUInt64]
  have hrest (r : Reg) (hrc : r ≠ .x tc) (hrn : r ≠ .x tn) : m4.get r = m.get r := by
    rw [h4.rest r hrn, h3.rest r hrc, hrest2 r hrn, hrest1 r hrc]
  rw [← hrest addr hac han] at hclear ⊢
  refine narrates_swap (x := n.toUInt64) (y := n'.toUInt64) rfl ?_ hkeeps rfl haddr hc hn hclear
    (fun mem => ?_) (fun mem => ?_)
    fun h' m' h => ⟨h.outcome, fun r hr ht => ?_⟩
  · simp only [List.nil_append, List.mem_append]
    rintro q (((hmem | hmem) | hmem) | hmem)
    · exact hes1 q hmem
    · exact hes2 q hmem
    · exact hes3 q hmem
    · exact hes4 q hmem
  · rw [htc4]
    exact extend_lrW_eq (Ram.toNat_read_lt mem (n := 4) _ (by decide))
  · refine Ram.write_low _ _ (by decide) ?_
    rw [htn4, toUInt32_sext, UInt32.toUInt32_toUInt64]
  · obtain ⟨hrc, hrn, h0, h1⟩ : r ≠ .x tc ∧ r ≠ .x tn ∧ r ≠ t0 ∧ r ≠ t1 := by simpa using ht
    rw [h.rest r hr (by simp [h0, h1]), hrest r hrc hrn]

end

/-- What swaps do among threads that write where they like. -/
structure SwapsAtomically (t : Target) : Prop where
  /-- An int is compared and replaced. -/
  int : ∀ {c : Resident t} {W : World} {j : Nat} {i : Instruction} {m : Machine} {ka ke kv kr : ValueKind}
    {addr e v ha he hv hr : Reg} {r : Fin 32}, c.Facing W j i m → i.op = .cas →
    i.inputs[0]? = some (Operand.register ka addr ha) →
    i.inputs[1]? = some (Operand.register ke e he) → i.inputs[2]? = some (Operand.register kv v hv) →
    i.result = .register kr (.x r) hr → ke.isIntLike = true → OfKind .int (m.get e) →
    (∀ k < 4, c.Clear (m.get addr + UInt64.ofNat k)) →
    c.RunsAmong W 4 j m (SwapEnds (.x r) [t0, t1] (m.get addr) 4 (m.get e).toUInt32.toUInt64
    (m.get v).toUInt32.toUInt64 m)
  /-- A long, an address or a reference of eight bytes is compared and replaced. -/
  word : ∀ {c : Resident t} {W : World} {j : Nat} {i : Instruction} {m : Machine} {ka ke kv kr : ValueKind}
    {addr e v ha he hv hr : Reg} {r : Fin 32}, c.Facing W j i m → i.op = .cas →
    i.inputs[0]? = some (Operand.register ka addr ha) →
    i.inputs[1]? = some (Operand.register ke e he) → i.inputs[2]? = some (Operand.register kv v hv) →
    i.result = .register kr (.x r) hr → ke.isIntLike = false → t.opts.compresses ke = false →
    (∀ k < 8, c.Clear (m.get addr + UInt64.ofNat k)) →
    c.RunsAmong W 8 j m (SwapEnds (.x r) [t0, t1] (m.get addr) 8 (m.get e) (m.get v) m)
  /-- The number of a compressed reference is compared and replaced, unless the new value is in the register of the
  first temporary. -/
  reference : ∀ {c : Resident t} {W : World} {j : Nat} {i : Instruction} {m : Machine} {ka ke kv kr kc kn : ValueKind}
    {addr e v ha he hv hr hc hn : Reg} {r tc tn : Fin 32} {n n' : UInt32}, c.Facing W j i m → i.op = .cas →
    i.inputs[0]? = some (Operand.register ka addr ha) → i.inputs[1]? = some (Operand.register ke e he) →
    i.inputs[2]? = some (Operand.register kv v hv) →
    i.result = .register kr (.x r) hr → t.opts.compresses ke = true → i.tmp[0]? = some (Operand.register kc (.x tc) hc) →
    i.tmp[1]? = some (Operand.register kn (.x tn) hn) → tc ≠ 0 ∧ tn ≠ 0 → v ≠ .x tc → t.opts.Numbers (m.get e) n →
    t.opts.Numbers (m.get v) n' → (∀ k < 4, c.Clear (m.get addr + UInt64.ofNat k)) →
    c.RunsAmong W 4 j m (SwapEnds (.x r) [.x tc, .x tn, t0, t1] (m.get addr) 4 n.toUInt64 n'.toUInt64 m)

/-- Whatever other threads do, a swap finds the word and replaces it at one instant, or another word is there
at one instant. -/
theorem swaps_are_atomic {t : Target} (hopts : t.opts.refusal? = none) : SwapsAtomically t where
  int := int_swap
  word := word_swap
  reference hm hop hin0 hin1 hin2 hres hk htc htn hzero hv hp hq hclear :=
    narrow_swap hm hop hin0 hin1 hin2 hres hopts hk htc htn hzero hp hq rfl (if_neg hv) hclear

/-- References are eight bytes apart and start at zero. -/
def shiftedTarget : Target := ⟨{ compressedOops := true, oopShift := 3 }, .empty⟩

/-- A method that swaps a reference, with this register for the first temporary. -/
def swapsReference (tmp : Reg) : Program where
  name := "p"
  frameSize := 32
  code := #[
    { op := .cas,
      inputs := [.register .address (.x 10) .none, .register .object (.x 11) .none, .register .object (.x 12) .none],
      tmp := [.register .object tmp .none, .register .object (.x 13) .none], result := .register .int (.x 14) .none },
    { op := .ret }]

/-- A machine in front of code at `0x10000`. A reference and the one that replaces it are in registers, and the number of the
first is at `0x2000`. -/
def swapping (code : List UInt8) (pc : UInt64) : Machine where
  x n := if n = 2 then 0x8000 else if n = 10 then 0x2000 else if n = 11 then 0x40 else if n = 12 then 0x80 else 0
  f _ := 0
  pc
  mem := Ram.overlay (fun addr => if addr = 0x2000 then 8 else 0) 0x10000 code

/-- Undisturbed, the swap comes to its end in so many instructions, with this number in memory. -/
def swapsTo (tmp : Reg) (k : Nat) (number : UInt64) : Bool :=
  match (swapsReference tmp).compile shiftedTarget 0, (swapsReference tmp).placeOf shiftedTarget 0 0,
    (swapsReference tmp).placeOf shiftedTarget 0 1 with
  | .ok method, .ok off, .ok next => decide (method.blob.code.length ≤ 0x1000) &&
    match World.bare.steps k (swapping method.blob.code (0x10000 + UInt64.ofNat off)) with
    | some m' => m'.pc == 0x10000 + UInt64.ofNat next && m'.get (.x 14) == 1 && m'.mem.read 0x2000 4 == number
    | none => false
  | _, _, _ => false

theorem swap_of_swapsTo {tmp : Reg} {k : Nat} {number : UInt64} (h : swapsTo tmp k number = true) :
    ∃ method off next m', (swapsReference tmp).compile shiftedTarget 0 = .ok method ∧ method.blob.code.length ≤ 0x1000 ∧
      (swapsReference tmp).placeOf shiftedTarget 0 0 = .ok off ∧
      (swapsReference tmp).placeOf shiftedTarget 0 1 = .ok next ∧
      World.bare.Reaches (swapping method.blob.code (0x10000 + UInt64.ofNat off)) m' ∧
      m'.pc = 0x10000 + UInt64.ofNat next ∧ m'.get (.x 14) = 1 ∧ m'.mem.read 0x2000 4 = number := by
  unfold swapsTo at h
  split at h
  case _ method off next hcompiled hoff hnext =>
    obtain ⟨hsize, h⟩ := Bool.and_eq_true_iff.mp h
    split at h
    case _ m' hsteps =>
      simp only [Bool.and_eq_true, beq_iff_eq] at h
      exact ⟨method, off, next, m', hcompiled, of_decide_eq_true hsize, hoff, hnext, ⟨k, hsteps⟩, h.1.1, h.1.2, h.2⟩
    case _ => cases h
  case _ => cases h

/-- With the register of the new value for the first temporary, the number of the number of the old reference
is stored. -/
theorem aliased_new_value_is_lost : shiftedTarget.opts.Numbers 0x80 0x10 ∧ ∃ method off next m',
    (swapsReference (.x 12)).compile shiftedTarget 0 = .ok method ∧ method.blob.code.length ≤ 0x1000 ∧
    (swapsReference (.x 12)).placeOf shiftedTarget 0 0 = .ok off ∧
    (swapsReference (.x 12)).placeOf shiftedTarget 0 1 = .ok next ∧
    World.bare.Reaches (swapping method.blob.code (0x10000 + UInt64.ofNat off)) m' ∧ m'.pc = 0x10000 + UInt64.ofNat next ∧
    m'.get (.x 14) = 1 ∧ m'.mem.read 0x2000 4 = 1 :=
  ⟨by decide, swap_of_swapsTo (k := 11) (by decide +kernel)⟩

/-- With another register for it, the number of the new reference is stored, and that happens at one instant if at all when
others write to the field. -/
theorem reference_is_swapped : ∃ (c : Resident shiftedTarget) (off : Nat) (m' : Machine),
    c.program = swapsReference (.x 15) ∧ c.program.placeOf shiftedTarget 0 0 = .ok off ∧
    World.bare.Reaches (swapping c.method.blob.code (0x10000 + UInt64.ofNat off)) m' ∧ m'.get (.x 14) = 1 ∧
    m'.mem.read 0x2000 4 = 0x10 ∧ c.RunsAmong World.bare 4 0 (swapping c.method.blob.code (0x10000 + UInt64.ofNat off))
      (SwapEnds (.x 14) [.x 15, .x 13, t0, t1] 0x2000 4 8 0x10
      (swapping c.method.blob.code (0x10000 + UInt64.ofNat off))) := by
  obtain ⟨method, off, next, m', hcompiled, hsize, hoff, -, hreach, -, hone, hstored⟩ :=
    @swap_of_swapsTo (.x 15) 11 0x10 (by decide +kernel)
  let c : Resident shiftedTarget := ⟨swapsReference (.x 15), 0, method, 0x10000, hcompiled, absurd rfl⟩
  let m := swapping method.blob.code (0x10000 + UInt64.ofNat off)
  have hbefore : c.Before 0 m := .of_overlay hsize hoff rfl rfl
  have hlow : (0x10000 : UInt64).toNat = 0x10000 := rfl
  have hclear : ∀ k < 4, c.Clear (m.get (.x 10) + UInt64.ofNat k) := by
    intro k hk
    refine (CodeBlob.clear_iff (show (0x10000 : UInt64).toNat + method.blob.code.length ≤ _ by omega)).mpr ?_
    have hspot : (m.get (.x 10) + UInt64.ofNat k).toNat = 0x2000 + k :=
      toNat_off (a := 0x2000) (by show 0x2000 + k < _; omega)
    rw [Spans, hspot]
    omega
  exact ⟨c, off, m', rfl, hoff, hreach, hone, hstored, (swaps_are_atomic (t := shiftedTarget) (by decide)).reference
    (m := m) (e := .x 11) (v := .x 12) (n := 8) ⟨rfl, fun _ _ => rfl, hbefore⟩ rfl rfl rfl rfl rfl rfl
    rfl rfl (by decide) (by decide)
    (show shiftedTarget.opts.Numbers 0x40 8 by decide) (show shiftedTarget.opts.Numbers 0x80 0x10 by decide) hclear⟩

end RiscvJit
