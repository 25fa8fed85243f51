import RiscvJit.Proofs.Code.Histories
import RiscvJit.Proofs.Code.Straight

/-
  RiscvJit.Proofs.Code.Among — running generated code among other threads, whatever it does to memory.

  `S.Goes C x m E Q` says of the work `x` that a machine in front of its code runs through it in company,
  whatever the others do in between, and that every instruction on the way does to memory what the
  company allows. It is what is told when nothing is noted but that (`Goes.of`, `Goes.told`). There is one
  rule for each kind of instruction.

  What is concluded at the end is left open: a predicate is an `Outlook` when it holds before an
  instruction if it holds after it. So one proof about code serves three times:

    - alone, the code is passed through in finitely many steps (`Goes.passes`);
    - in company, it keeps to what is allowed for as long as it runs (`Goes.abides`);
    - where histories are told, it adds events of which no more is known (`Goes.narrates`).
-/

namespace RiscvJit

open Machine (Keeps get_set shared_set shared_next shared_within get_next get_within)
open Asm

namespace Site

/-- A predicate that holds before an instruction of the code when it holds after it, whatever others
do in between. The number says how many more instructions are looked at. -/
structure Outlook {S : Site} (C : Company S) (In : UInt64 → Prop) (K : Nat → Machine → Prop) : Prop where
  back : ∀ {n m}, In m.pc → (∀ s, C.others m.shared s → ∃ m', S.world.step (m.within s) = some m' ∧
    C.ours s.mem m'.mem ∧ K (n - 1) m') → K n m
  weaken : ∀ {n m}, K n m → K (n - 1) m
  start : C.endless → ∀ m, K 0 m

/-- Run among others from the machine in front of it, the code of the work comes to its end, or is left. -/
def Goes (S : Site) (C : Company S) {α : Type} (x : Asm α) (m : Machine) (E : Exits) (Q : α → Machine → Prop) : Prop :=
  ∀ a r a', x S.target a = .ok (r, a') → S.Early a → S.Late a' → S.At a m →
    ∀ In K, Outlook C In K → (∀ pc, S.Between a a' pc → In pc) → ∀ n,
      (∀ m', S.At a' m' → Q r m' → K n m') → (∀ l m', S.To l m' → E (.label l) m' → K (n - 1) m') → K n m

/-- Of an instruction nothing is noted but that the company allows it. -/
abbrev allowed {S : Site} (C : Company S) : Note Unit := fun _ before after _ => C.ours before after

section
variable {S : Site} {C : Company S} {α β : Type} {m : Machine} {E E' : Exits} {a a' : Assembler} {items : List Item}

variable {pc : UInt64} {x : Asm α} {l : Label} {Q : Unit → Machine → Prop}

theorem Goes.of {Q : α → Machine → Prop} (h : S.Tells C (allowed C) x () m (fun _ => E) fun r _ => Q r) :
    S.Goes C x m E Q := by
  intro a r a' hx ha ha' hat In K hout hin n hend hexit
  have hK : Chronicle C (allowed C) In fun n _ => K n :=
    ⟨fun hpc hback => hout.back hpc fun s hs => by
      obtain ⟨m', _, hstep, hours, hk⟩ := hback s hs
      exact ⟨m', hstep, hours, hk⟩, hout.weaken, fun hendless _ => hout.start hendless⟩
  exact h a r a' hx ha ha' hat In _ hK hin n (fun _ => hend) fun _ => hexit

theorem Goes.told {Q : α → Machine → Prop} (h : S.Goes C x m E Q) :
    S.Tells C (allowed C) x () m (fun _ => E) fun r _ => Q r := by
  intro a r a' hx ha ha' hat In K hout hin n hend hexit
  have hK : Outlook C In fun n => K n () :=
    ⟨fun hpc hback => hout.back hpc fun s hs => by
      obtain ⟨m', hstep, hours, hk⟩ := hback s hs
      exact ⟨m', (), hstep, hours, hk⟩, hout.weaken, fun hendless => hout.start hendless ()⟩
  exact h a r a' hx ha ha' hat In _ hK hin n (hend ()) (hexit ())

theorem Goes.imp {Q Q' : α → Machine → Prop} (h : S.Goes C x m E Q) (hE : ∀ e m, E e m → E' e m)
    (hQ : ∀ r m, Q r m → Q' r m) : S.Goes C x m E' Q' := .of (h.told.imp (fun _ => hE) fun r _ => hQ r)

theorem goes_pure {r : α} {Q : α → Machine → Prop} (h : Q r m) : S.Goes C (pure r) m E Q := .of (tells_pure h)

theorem goes_lift {e : Except Fault α} {Q : α → Machine → Prop} (h : ∀ r, e = .ok r → Q r m) : S.Goes C (liftM e) m E Q :=
  .of (tells_silent fun _ r _ _ hrun => by
    obtain ⟨he, rfl⟩ := lift_eq_ok.mp hrun
    exact ⟨rfl, h r he⟩)

theorem goes_opts {Q : Options → Machine → Prop} (h : Q S.target.opts m) : S.Goes C opts m E Q :=
  .of (tells_silent fun _ _ _ _ hrun => by
    cases hrun
    exact ⟨rfl, h⟩)

theorem goes_newLabel {Q : Label → Machine → Prop} (h : ∀ l, Q l m) : S.Goes C newLabel m E Q := .of (tells_newLabel h)

theorem Goes.bind {f : α → Asm β} {Q : β → Machine → Prop} [x.Traced] [∀ r, (f r).Traced]
    (h : S.Goes C x m E fun r m' => S.Goes C (f r) m' E Q) : S.Goes C (x >>= f) m E Q :=
  .of (.bind (h.told.imp (fun _ _ _ => id) fun _ _ _ => Goes.told))

/-- What leaves work for a label that is bound behind it goes on there. -/
theorem Goes.label {f : α → Asm β} {Q : β → Machine → Prop} [x.Traced] [∀ r, (f r).Traced]
    (h : S.Binds l → S.Goes C x m (E.or (.label l) fun m' => ∀ r,
    S.Goes C (f r) m' E Q) fun r m' => S.Goes C (f r) m' E Q) :
    S.Goes C (x >>= fun r => Asm.bind l >>= fun _ => f r) m E Q :=
  .of (.label fun hl => (h hl).told.imp (fun _ _ _ => Or.imp_left fun he =>
  ⟨he.1, fun r => (he.2 r).told⟩) fun _ _ _ => Goes.told)

/-! ## Instructions -/

/-- One instruction, after others have had their turn. -/
theorem goes_exec {x : Asm Unit} (h : ∀ a a', x S.target a = .ok ((), a') → ∃ i, Wrote [i] a a' ∧ ∀ s,
    C.others m.shared s →
      ∃ m', (m.within s).exec i = some m' ∧ m'.pc = m.pc + 4 ∧ (∀ addr, ¬ S.Free addr → m'.mem addr = s.mem addr) ∧
        C.ours s.mem m'.mem ∧ Q () m') : S.Goes C x m E Q :=
  .of (tells_exec fun a a' hrun => by
    obtain ⟨i, hw, hi⟩ := h a a' hrun
    refine ⟨i, hw, fun s hs => ?_⟩
    obtain ⟨m', hexec, hpc, hmem, hours, hq⟩ := hi s hs
    exact ⟨m', (), hexec, hpc, hmem, hours, hq⟩)

theorem goes_sets {x : Asm Unit} {rd : Reg} {v : Machine → UInt64} (hk : Keeps rd)
    (hx : ∀ a a', x S.target a = .ok ((), a') → ∃ i, Wrote [i] a a' ∧ Sets i rd v)
    (h : ∀ m', C.Went rd (v (m.within m'.shared)) m m' → Q () m') : S.Goes C x m E Q := by
  refine goes_exec fun a a' hrun => ?_
  obtain ⟨i, hw, hi⟩ := hx a a' hrun
  refine ⟨i, hw, fun s hs => ⟨_, hi _, by simp, fun _ _ => by simp, by simpa using C.quiet s.mem, h _ ⟨?_, ?_, ?_⟩⟩⟩
  · rw [get_set _ hk, if_pos rfl, shared_set, shared_next, shared_within]
  · intro r hr
    rw [get_set _ hk, if_neg hr, get_next, get_within]
  · rw [shared_set, shared_next, shared_within]
    exact hs

/-- What does not look at memory is not touched by others. -/
theorem goes_computes {x : Asm Unit} {rd : Reg} {v : Machine → UInt64} (hk : Keeps rd) (hv : ∀ s, v (m.within s) = v m)
    (hx : ∀ a a', x S.target a = .ok ((), a') → ∃ i, Wrote [i] a a' ∧ Sets i rd v)
    (h : ∀ m', C.Went rd (v m) m m' → Q () m') : S.Goes C x m E Q :=
  goes_sets hk hx fun m' hwent => h m' (by rwa [hv] at hwent)

section
variable {rd rs1 rs2 : Reg} {imm : Int64} {Q : Unit → Machine → Prop}

theorem goes_add (hk : Keeps rd) (h : ∀ m', C.Went rd (m.get rs1 + m.get rs2) m m' → Q () m') :
    S.Goes C (add rd rs1 rs2) m E Q :=
  goes_computes (v := fun m => m.get rs1 + m.get rs2) hk (fun _ => by simp)
    (fun _ _ => rr_sets (f := fun x y => x + y) rfl fun _ _ => rfl) h

theorem goes_sub (hk : Keeps rd) (h : ∀ m', C.Went rd (m.get rs1 - m.get rs2) m m' → Q () m') :
    S.Goes C (sub rd rs1 rs2) m E Q :=
  goes_computes (v := fun m => m.get rs1 - m.get rs2) hk (fun _ => by simp)
    (fun _ _ => rr_sets (f := fun x y => x - y) rfl fun _ _ => rfl) h

theorem goes_and (hk : Keeps rd) (h : ∀ m', C.Went rd (m.get rs1 &&& m.get rs2) m m' → Q () m') :
    S.Goes C (Asm.and rd rs1 rs2) m E Q :=
  goes_computes (v := fun m => m.get rs1 &&& m.get rs2) hk (fun _ => by simp)
    (fun _ _ => rr_sets (f := fun x y => x &&& y) rfl fun _ _ => rfl) h

theorem goes_xor (hk : Keeps rd) (h : ∀ m', C.Went rd (m.get rs1 ^^^ m.get rs2) m m' → Q () m') :
    S.Goes C (xor rd rs1 rs2) m E Q :=
  goes_computes (v := fun m => m.get rs1 ^^^ m.get rs2) hk (fun _ => by simp)
    (fun _ _ => rr_sets (f := fun x y => x ^^^ y) rfl fun _ _ => rfl) h

theorem goes_addi (hk : Keeps rd) (h : ∀ m', C.Went rd (m.get rs1 + imm.toUInt64) m m' → Q () m') :
    S.Goes C (addi rd rs1 imm) m E Q :=
  goes_computes (v := fun m => m.get rs1 + imm.toUInt64) hk (fun _ => by simp)
    (fun _ _ => ri_sets (f := fun x y => x + y) rfl fun _ _ => rfl) h

theorem goes_andi (hk : Keeps rd) (h : ∀ m', C.Went rd (m.get rs1 &&& imm.toUInt64) m m' → Q () m') :
    S.Goes C (andi rd rs1 imm) m E Q :=
  goes_computes (v := fun m => m.get rs1 &&& imm.toUInt64) hk (fun _ => by simp)
    (fun _ _ => ri_sets (f := fun x y => x &&& y) rfl fun _ _ => rfl) h

theorem goes_ori (hk : Keeps rd) (h : ∀ m', C.Went rd (m.get rs1 ||| imm.toUInt64) m m' → Q () m') :
    S.Goes C (ori rd rs1 imm) m E Q :=
  goes_computes (v := fun m => m.get rs1 ||| imm.toUInt64) hk (fun _ => by simp)
    (fun _ _ => ri_sets (f := fun x y => x ||| y) rfl fun _ _ => rfl) h

theorem goes_slli (hn : Format.shift64.admits imm = true) (hk : Keeps rd)
    (h : ∀ m', C.Went rd (m.get rs1 <<< (imm.toUInt64 &&& 63)) m m' → Q () m') : S.Goes C (slli rd rs1 imm) m E Q :=
  goes_computes (v := fun m => m.get rs1 <<< (imm.toUInt64 &&& 63)) hk (fun _ => by simp)
    (fun _ _ => emit_sets (f := fun x y => x <<< (y &&& 63)) (.inr (.inl rfl)) hn fun _ => rfl) h

theorem goes_srli (hn : Format.shift64.admits imm = true) (hk : Keeps rd)
    (h : ∀ m', C.Went rd (m.get rs1 >>> (imm.toUInt64 &&& 63)) m m' → Q () m') : S.Goes C (srli rd rs1 imm) m E Q :=
  goes_computes (v := fun m => m.get rs1 >>> (imm.toUInt64 &&& 63)) hk (fun _ => by simp)
    (fun _ _ => emit_sets (f := fun x y => x >>> (y &&& 63)) (.inr (.inl rfl)) hn fun _ => rfl) h

theorem goes_sextw (hk : Keeps rd) (h : ∀ m', C.Went rd (sext (m.get rs1).toUInt32) m m' → Q () m') :
    S.Goes C (sextw rd rs1) m E Q := by
  refine goes_computes (v := fun m => sext (m.get rs1 + (0 : Int64).toUInt64).toUInt32) hk (fun _ => by simp)
    (fun _ _ => emit_sets (f := fun x y => sext (x + y).toUInt32) (.inl rfl) rfl fun _ => rfl)
    fun m' h' => h m' ?_
  rwa [show (0 : Int64).toUInt64 = 0 from rfl, UInt64.add_zero] at h'

theorem goes_mv (hk : Keeps rd) (hint : rd.isFloat = false) (h : ∀ m', C.Went rd (m.get rs1) m m' → Q () m') :
    S.Goes C (mv rd rs1) m E Q := by
  unfold mv
  by_cases heq : rd = rs1
  · rw [if_pos heq]
    exact goes_pure (h m ⟨congrArg m.get heq, fun _ _ => rfl, C.refl _⟩)
  · rw [if_neg heq, if_neg (by rw [hint]; decide)]
    exact goes_addi hk fun m' h' => h m' (by rwa [show (0 : Int64).toUInt64 = 0 from rfl, UInt64.add_zero] at h')

/-- A load finds what is in memory by then. -/
theorem goes_load {o : Op} {n : Nat} (hf : o.info.format = .load) (hw : o.width = some n)
    (hk : Keeps rd)
    (h : ∀ m', C.Went rd (o.extend (m'.mem.read (m.get rs1 + imm.toUInt64) n)) m m' → Q () m') :
    S.Goes C (load o rd rs1 imm) m E Q :=
  goes_sets (v := fun m => o.extend (m.mem.read (m.get rs1 + imm.toUInt64) n)) hk (fun _ _ => load_sets hf hw)
    fun m' hwent => h m' (by rwa [get_within, Machine.within_mem] at hwent)

theorem goes_ld (hk : Keeps rd) (h : ∀ m', C.Went rd (m'.mem.read (m.get rs1 + imm.toUInt64) 8) m m' → Q () m') :
    S.Goes C (ld rd rs1 imm) m E Q := goes_load rfl rfl hk h

theorem goes_lwu (hk : Keeps rd) (h : ∀ m', C.Went rd (m'.mem.read (m.get rs1 + imm.toUInt64) 4) m m' → Q () m') :
    S.Goes C (lwu rd rs1 imm) m E Q := goes_load rfl rfl hk h

/-- A store writes to memory as others have left it. -/
theorem goes_sd {src base : Reg} {addr : UInt64} (haddr : m.get base + imm.toUInt64 = addr)
    (hfree : ∀ i < 8, S.Free (addr + UInt64.ofNat i))
    (h : ∀ s, C.others m.shared s → C.ours s.mem (s.mem.write addr 8 (m.get src)) ∧
      ∀ m', (∀ r, m'.get r = m.get r) → m'.shared = ⟨s.mem.write addr 8 (m.get src), s.reserved⟩ → Q () m') :
    S.Goes C (sd src base imm) m E Q := by
  refine goes_exec fun a a' hrun => ?_
  obtain ⟨i, hw, hi⟩ := store_saves (o := .sd) rfl rfl hrun
  refine ⟨i, hw, fun s hs => ?_⟩
  obtain ⟨hours, hq⟩ := h s hs
  have hexec := hi (m.within s)
  simp only [get_within, haddr] at hexec
  refine ⟨_, hexec, rfl, fun x hx => ?_, hours, hq _ (fun r => ?_) rfl⟩
  · refine Ram.write_outside _ _ (Nat.le_of_not_lt fun hlt => hx ?_)
    have := hfree _ hlt
    rwa [UInt64.ofNat_toNat, UInt64.add_comm, UInt64.sub_add_cancel] at this
  · exact (Machine.get_withMem _ _ r).trans ((get_next _ r).trans (get_within m s r))

theorem goes_li (hk : Keeps rd) (h : ∀ m', C.Went rd imm.toUInt64 m m' → Q () m') : S.Goes C (li rd imm) m E Q := by
  have steps (ss : List ConstStep) (hs : ∀ s ∈ ss, s.Fits) (m1 : Machine)
      (hend : ∀ m', ss = [] ∧ m' = m1 ∨ C.Went rd (perform (m1.get rd).toInt64 ss).toUInt64 m1 m' → Q () m') :
      S.Goes C (ss.forM (constStep rd)) m1 E Q := by
    induction ss generalizing m1 with
    | nil => exact goes_pure (hend m1 (.inl ⟨rfl, rfl⟩))
    | cons s ss ih =>
      refine Goes.bind (x := constStep rd s) (f := fun _ => ss.forM (constStep rd)) ?_
      refine goes_computes hk (fun _ => by simp) (fun _ _ => constStep_sets (hs s List.mem_cons_self)) fun m2 h2 => ?_
      refine ih (fun s h => hs s (List.mem_cons_of_mem _ h)) m2 fun m' hm' => hend m' (.inr ?_)
      rcases hm' with ⟨rfl, rfl⟩ | hm'
      · exact h2
      · rw [h2.value, Int64.toInt64_toUInt64] at hm'
        exact h2.trans hm'
  refine steps _ (fits_rounds _ _) m fun m' hm' => ?_
  rcases hm' with ⟨hnil, -⟩ | hm'
  · exact absurd hnil (constSteps_ne_nil _ _ _)
  · rw [perform_constSteps] at hm'
    exact h m' hm'

end

/-! ## Jumps and branches -/

theorem Spot.between {L0 L1 L : Layout} (h : Spot S items a a' L0 L1 L) {k : Nat} (hlow : L0.pieces.length ≤ k)
    (hhigh : k < L1.pieces.length) (hpc : pc = S.start + UInt64.ofNat (4 * k)) : S.Between a a' pc := by
  refine ⟨4 * k, ?_, ?_, hpc⟩
  · rw [h.before.offset]
    omega
  · rw [h.after.offset]
    omega

theorem goes_j_at (hl : S.Binds l) (h : ∀ s p, C.others m.shared s → E (.label l) { m.within s with pc := p }) :
    S.Goes C (Asm.j l) m E Q := by
  intro a _ a' hrun ha ha' hat In K hout hin n _ hexit
  obtain ⟨L0, L1, L, hspot⟩ := spot ha (trace_call (c := .jal .zr l) trivial hrun) ha'
  obtain ⟨k, hknown, hmark⟩ := mark_of_binds hspot.holds hl
  have hp := hspot.written rfl (show [Piece.jump .zr l][0]? = _ from rfl)
  have hpc := hspot.at_iff.mp hat.pc
  have hlen : L1.pieces.length = L0.pieces.length + 1 := by
    rw [hspot.drawn]
    exact List.length_append
  refine hout.back (hin _ (hspot.between (Nat.le_refl _) (by omega) hpc)) fun s hs => ?_
  have hat' := hat.within hs
  have hstep := (step_inside (m := m.within s) hspot.holds hp hpc).trans (hspot.holds.step_jump hat'.stands hp hmark hpc)
  exact ⟨_, hstep, C.quiet _, hexit l _ (to_of_mark hspot.holds hknown hmark (hat'.stands.withPc _) rfl) (h _ _ hs)⟩

/-- The instruction of a branch. -/
theorem Spot.branches {o : Op} {rs1 rs2 : Reg} {c : Call} {L0 L1 L : Layout} {In : UInt64 → Prop}
    {K : Nat → Machine → Prop} {n : Nat}
    (hspot : Spot S [.call c] a a' L0 L1 L) (hafter : L0.after c = L0.write [.branch o rs1 rs2 l])
    (hl : S.Binds l) (hat : S.At a m)
    (hout : Outlook C In K) (hin : ∀ pc, S.Between a a' pc → In pc)
    (htaken : o.taken (m.get rs1) (m.get rs2) = true → ∀ s p, C.others m.shared s → S.To l { m.within s with pc := p } →
      K (n - 1) { m.within s with pc := p })
    (hnot : o.taken (m.get rs1) (m.get rs2) = false → ∀ s p, C.others m.shared s → S.At a' { m.within s with pc := p } →
      K n { m.within s with pc := p }) : K n m := by
  obtain ⟨k, hknown, hmark⟩ := mark_of_binds hspot.holds hl
  have hp := hspot.written hafter (show [Piece.branch o rs1 rs2 l][0]? = _ from rfl)
  have hpc := hspot.at_iff.mp hat.pc
  have hlen : L1.pieces.length = L0.pieces.length + 1 := by
    rw [hspot.drawn, show L0.drawn [.call c] = _ from hafter]
    exact List.length_append
  refine hout.back (hin _ (hspot.between (Nat.le_refl _) (by omega) hpc)) fun s hs => ?_
  have hat' := hat.within hs
  have hstep := (step_inside (m := m.within s) hspot.holds hp hpc).trans
    (hspot.holds.step_branch hat'.stands hp hmark hpc)
  rw [get_within, get_within] at hstep
  cases hcond : o.taken (m.get rs1) (m.get rs2) with
  | true =>
    rw [hcond] at hstep
    exact ⟨_, hstep, C.quiet _, htaken hcond _ _ hs (to_of_mark hspot.holds hknown hmark (hat'.stands.withPc _) rfl)⟩
  | false =>
    rw [hcond] at hstep
    refine ⟨_, hstep, C.quiet _, hout.weaken (hnot hcond _ _ hs ⟨hat'.stands.withPc _, ?_⟩)⟩
    rw [hspot.pc_after hafter]
    rfl

section
variable {o : Op} {rs1 rs2 : Reg} (ho : o.info.format = .branch) (hl : S.Binds l)
  (htaken : o.taken (m.get rs1) (m.get rs2) = true → ∀ s p, C.others m.shared s →
  E (.label l) { m.within s with pc := p })
  (hnot : o.taken (m.get rs1) (m.get rs2) = false → ∀ s p, C.others m.shared s → Q () { m.within s with pc := p })
include ho hl htaken hnot

/-- A branch is an exit to its label when its condition holds. -/
theorem goes_branch_at : S.Goes C (branch o rs1 rs2 l) m E Q := by
  intro a _ a' hrun ha ha' hat In K hout hin n hend hexit
  obtain ⟨L0, L1, L, hspot⟩ := spot ha (trace_call (c := .branch o rs1 rs2 l) ho hrun) ha'
  exact hspot.branches rfl hl hat hout hin (fun ht s p hs hto => hexit l _ hto (htaken ht s p hs))
    fun hn s p hs hat' => hend _ hat' (hnot hn s p hs)

/-- A branch that may be far is an exit to its label when its condition holds. -/
theorem goes_bcond_at : S.Goes C (bcond o rs1 rs2 l) m E Q := by
  intro a _ a' hrun ha ha' hat In K hout hin n hend hexit
  obtain ⟨L0, L1, L, hspot⟩ := spot ha (trace_call (c := .bcond o rs1 rs2 l) ho hrun) ha'
  obtain ⟨-, h1, h2, -⟩ := hspot.before.legal (c := .bcond o rs1 rs2 l) ho hrun
  obtain ⟨k, hknown, hmark⟩ := mark_of_binds hspot.holds hl
  have hpc := hspot.at_iff.mp hat.pc
  have gone {m' : Machine} (hm' : S.Stands m') (hpc' : m'.pc = S.start + UInt64.ofNat (4 * k)) : S.To l m' :=
    to_of_mark hspot.holds hknown hmark hm' hpc'
  cases hnear : L0.near l with
  | true =>
    exact hspot.branches (if_pos hnear) hl hat hout hin (fun ht s p hs hto => hexit l _ hto (htaken ht s p hs))
      fun hn s p hs hat' => hend _ hat' (hnot hn s p hs)
  | false =>
    have hafter : L0.after (.bcond o rs1 rs2 l) = L0.write [.word (o.negated.encode .none rs1 rs2 8 0), .jump .zr l] :=
      if_neg (by rw [hnear]; decide)
    have hover := hspot.written hafter (j := 0) rfl
    have hjump := hspot.written hafter (j := 1) rfl
    have hlen : L1.pieces.length = L0.pieces.length + 2 := by
      rw [hspot.drawn, show L0.drawn [.call (.bcond o rs1 rs2 l)] = _ from hafter]
      exact List.length_append
    refine hout.back (hin _ (hspot.between (Nat.le_refl _) (by omega) hpc)) fun s hs => ?_
    have hat' := hat.within hs
    have hstep := (step_inside (m := m.within s) hspot.holds hover hpc).trans
      (hspot.holds.step_over hat'.stands ho h1 h2 hover hpc)
    rw [get_within, get_within] at hstep
    cases hcond : o.taken (m.get rs1) (m.get rs2) with
    | true =>
      rw [hcond] at hstep
      -- the machine stands in front of the jump
      refine ⟨_, hstep, C.quiet _, hout.back (hin _ (hspot.between (Nat.le_succ _) (by omega) rfl)) fun s' hs' => ?_⟩
      have hstands : S.Stands (m.within s') := hat'.stands.keep fun addr hnot => C.keeps hs' addr hnot
      have hnext := (step_inside hspot.holds hjump rfl).trans (hspot.holds.step_jump
        (M := { m.within s' with pc := S.start + UInt64.ofNat (4 * (L0.pieces.length + 1)) })
        (hstands.withPc _) hjump hmark rfl)
      exact ⟨_, hnext, C.quiet _, hout.weaken
        (hexit l _ (gone (hstands.withPc _) rfl) (htaken hcond _ _ (C.trans hs hs')))⟩
    | false =>
      rw [hcond] at hstep
      refine ⟨_, hstep, C.quiet _, hout.weaken (hend _ ⟨hat'.stands.withPc _, ?_⟩ (hnot hcond _ _ hs))⟩
      rw [hspot.pc_after hafter]
      rfl

end

theorem idled_jump {p : UInt64} {s : Shared} (hs : C.others m.shared s) : C.Idled m { m.within s with pc := p } :=
  ⟨fun r => (Machine.get_withPc _ p r).trans (get_within m s r), hs⟩

theorem goes_j (hl : S.Binds l) (h : ∀ m', C.Idled m m' → E (.label l) m') : S.Goes C (Asm.j l) m E Q :=
  goes_j_at hl fun _ _ hs => h _ (idled_jump hs)

section
variable {o : Op} {rs1 rs2 : Reg} (ho : o.info.format = .branch) (hl : S.Binds l)
  (htaken : o.taken (m.get rs1) (m.get rs2) = true → ∀ m', C.Idled m m' → E (.label l) m')
  (hnot : o.taken (m.get rs1) (m.get rs2) = false → ∀ m', C.Idled m m' → Q () m')
include ho hl htaken hnot

theorem goes_branch : S.Goes C (branch o rs1 rs2 l) m E Q :=
  goes_branch_at ho hl (fun ht _ _ hs => htaken ht _ (idled_jump hs)) fun hn _ _ hs => hnot hn _ (idled_jump hs)

theorem goes_bcond : S.Goes C (bcond o rs1 rs2 l) m E Q :=
  goes_bcond_at ho hl (fun ht _ _ hs => htaken ht _ (idled_jump hs)) fun hn _ _ hs => hnot hn _ (idled_jump hs)

end

end

end Site

namespace World

variable {W : World} {In : UInt64 → Prop} {m m' m'' : Machine}

/-- From a machine to the first one that is out of the code. -/
inductive Passes (W : World) (In : UInt64 → Prop) : Machine → Machine → Prop
  | out {m : Machine} : ¬ In m.pc → Passes W In m m
  | step {m m1 m' : Machine} : In m.pc → W.step m = some m1 → Passes W In m1 m' → Passes W In m m'

theorem Passes.unique (h : W.Passes In m m') (h' : W.Passes In m m'') : m' = m'' := by
  induction h with
  | out hout =>
    cases h' with
    | out _ => rfl
    | step hin _ _ => exact absurd hin hout
  | step hin hstep _ ih =>
    cases h' with
    | out hout => exact absurd hin hout
    | step _ hstep' hrest =>
      rw [hstep] at hstep'
      cases hstep'
      exact ih hrest

theorem Passes.reaches (h : W.Passes In m m') : W.Reaches m m' := by
  induction h with
  | out _ => exact .refl W _
  | step _ hstep _ ih => exact .head hstep ih

/-- A machine that is outside stays as it is. -/
def deadEnds (In : UInt64 → Prop) [DecidablePred In] : World := fun addr => if In addr then none else some id

theorem passes_of_deadEnds [DecidablePred In] (hin : ∀ pc, In pc → W pc = none)
    (h : (deadEnds In).Reaches m m') (hout : ¬ In m'.pc) : W.Passes In m m' := by
  obtain ⟨n, hn⟩ := h
  induction n generalizing m with
  | zero =>
    cases hn
    exact .out hout
  | succ n ih =>
    obtain ⟨m1, hstep, hrest⟩ := Option.bind_eq_some_iff.mp hn
    by_cases hm : In m.pc
    · refine .step hm ?_ (ih hrest)
      rw [step, deadEnds, if_pos hm] at hstep
      rw [step, hin m.pc hm]
      exact hstep
    · rw [step, deadEnds, if_neg hm] at hstep
      cases hstep
      exact ih hrest

end World

/-- Nobody else is there. -/
def Company.alone (S : Site) : Company S where
  others s s' := s' = s
  ours _ _ := True
  refl _ := rfl
  trans h h' := h'.trans h
  quiet _ := trivial
  keeps h _ _ := by rw [h]
  endless := False

namespace Site

variable {S : Site} {C : Company S} {α : Type} {x : Asm α} {r : α} {m m' : Machine} {E : Exits} {Q : α → Machine → Prop}
  {a a' : Assembler} {In : UInt64 → Prop} {Post : Machine → Prop} {n : Nat}

/-- Places up to the end of code have addresses of their own. -/
theorem offset_unique (hb : S.Early a') (ha' : S.Late a') {k k' : Nat} (hk : k ≤ a'.buf.offset) (hk' : k' ≤ a'.buf.offset)
    (h : S.start + UInt64.ofNat k = S.start + UInt64.ofNat k') : k = k' := by
  obtain ⟨L0, L1, L, hspot⟩ := spot hb (.nil a') ha'
  have hroom := hspot.before.spells.room
  have hlimit := hspot.before.spells.limit
  rw [Layout.length_words, ← hspot.before.offset] at hroom
  have := congrArg UInt64.toNat ((UInt64.add_right_inj _).mp h)
  rw [UInt64.toNat_ofNat', UInt64.toNat_ofNat'] at this
  omega

theorem not_between_end (hb : S.Early a') (ha' : S.Late a') :
    ¬ S.Between a a' (S.start + UInt64.ofNat a'.buf.offset) := by
  rintro ⟨k, -, hk, e⟩
  have := offset_unique hb ha' (Nat.le_refl _) (Nat.le_of_lt hk) e
  omega

theorem Goes.passes (h : S.Goes (.alone S) x m .none Q) (hrun : x S.target a = .ok (r, a')) (ha : S.Early a)
    (hb : S.Early a') (ha' : S.Late a') (hat : S.At a m) :
    ∃ m', S.world.Passes (S.Between a a') m m' ∧ S.At a' m' ∧ Q r m' := by
  refine h a r a' hrun ha ha' hat (S.Between a a') (fun _ m => ∃ m', S.world.Passes (S.Between a a') m m' ∧
    S.At a' m' ∧ Q r m')
    ⟨fun hin hback => ?_, id, False.elim⟩ (fun _ h => h) 0 (fun m' hat' hq =>
      ⟨m', .out ?_, hat', hq⟩) fun _ _ _ he => he.elim
  · obtain ⟨m1, hstep, -, m', hpass, hend⟩ := hback _ rfl
    exact ⟨m', .step hin hstep hpass, hend⟩
  · rw [hat'.pc]
    exact not_between_end hb ha'

theorem Goes.does (h : S.Goes (.alone S) x m E Q) : S.Does x m E Q := by
  intro a r a' hrun ha ha' hat
  refine h a r a' hrun ha ha' hat (fun _ => True) (fun _ m => ∃ m', S.world.Reaches m m' ∧
    (S.At a' m' ∧ Q r m' ∨ S.Leaves E m'))
    ⟨fun _ hback => ?_, id, False.elim⟩ (fun _ _ => trivial) 0 (fun m' hat' hq => ⟨m', .refl _ _, .inl ⟨hat', hq⟩⟩)
    fun l m' hl he => ⟨m', .refl _ _, .inr (.inr ⟨l, hl, he⟩)⟩
  obtain ⟨m1, hstep, -, m', hreach, hend⟩ := hback _ rfl
  exact ⟨m', .head hstep hreach, hend⟩

/-! ## In company -/

/-- As long as the code runs it does what is allowed, whatever the others do, and it is left with `Post`. -/
def Abides (C : Company S) (In : UInt64 → Prop) (Post : Machine → Prop) (m : Machine) : Prop :=
  ∀ n, Recounts C (allowed C) In (fun _ => Post) n () m

theorem Abides.step (h : Abides C In Post m) (hin : In m.pc) {s : Shared} (hs : C.others m.shared s) :
    ∃ m', S.world.step (m.within s) = some m' ∧ C.ours s.mem m'.mem ∧ Abides C In Post m' := by
  obtain ⟨m', _, hstep, hours, -⟩ := (h 1).1 hin s hs
  refine ⟨m', hstep, hours, fun n => ?_⟩
  obtain ⟨m'', _, hstep', -, hrest⟩ := (h (n + 1)).1 hin s hs
  rw [hstep] at hstep'
  cases hstep'
  exact hrest

/-- It waits while others have their turn. -/
theorem Abides.within (h : Abides C In Post m) (hin : In m.pc) {s : Shared} (hs : C.others m.shared s) :
    Abides C In Post (m.within s) := by
  intro n
  cases n with
  | zero => trivial
  | succ n => exact ⟨fun _ s' hs' => (h (n + 1)).1 hin s' (C.trans hs hs'), fun hnot => absurd hin hnot⟩

/-- In company, code does what is allowed for as long as it runs. -/
theorem Goes.abides (h : S.Goes C x m E Q) (hrun : x S.target a = .ok (r, a')) (ha : S.Early a) (hb : S.Early a')
    (ha' : S.Late a') (hat : S.At a m) (hend : ∀ m', S.At a' m' → Q r m' → Post m')
    (hexit : ∀ l m', S.To l m' → E (.label l) m' → ¬ S.Between a a' m'.pc ∧ Post m') :
    Abides C (S.Between a a') Post m := by
  intro n
  refine h.told a r a' hrun ha ha' hat _ _ chronicle_recounts (fun _ h => h) n
    (fun _ m' hat' hq => recounts_out ?_ (hend m' hat' hq)) fun _ l m' hl he => ?_
  · rw [hat'.pc]
    exact not_between_end hb ha'
  · obtain ⟨hout, hpost⟩ := hexit l m' hl he
    exact recounts_out hout hpost

/-- What code does is added to the history. -/
theorem Goes.narrates {h : List Event} (hgo : S.Goes C x m E Q) :
    S.Narrates C x h m (fun h' e m' => (∃ es, h' = h ++ es ∧ ∀ e ∈ es, C.ours e.before e.after) ∧ E e m')
      fun r h' m' => (∃ es, h' = h ++ es ∧ ∀ e ∈ es, C.ours e.before e.after) ∧ Q r m' := by
  intro a r a' hx ha ha' hat In K hout hin n hend hexit
  let K' (n : Nat) (m : Machine) : Prop := ∀ es : List Event, (∀ e ∈ es, C.ours e.before e.after) → K n (h ++ es) m
  have hK : Outlook C In K' := by
    refine ⟨fun {n m} hpc hback es hes => hout.back hpc fun s hs => ?_, fun hk es hes => hout.weaken (hk es hes),
      fun hendless m es _ => hout.start hendless _ m⟩
    obtain ⟨m', hstep, hours, hnext⟩ := hback s hs
    refine ⟨m', _, hstep, rfl, ?_⟩
    rw [List.append_assoc]
    refine hnext _ fun e he => ?_
    rcases List.mem_append.mp he with he | he
    · exact hes e he
    · rw [List.mem_singleton.mp he]
      exact hours
  have hrun := hgo a r a' hx ha ha' hat In K' hK hin n (fun m' hat' hq es hes => hend _ m' hat' ⟨⟨es, rfl, hes⟩, hq⟩)
    (fun l m' hl he es hes => hexit _ l m' hl ⟨⟨es, rfl, hes⟩, he⟩) [] fun _ he => absurd he List.not_mem_nil
  rwa [List.append_nil] at hrun

end Site

end RiscvJit
