import RiscvJit.Proofs.Code.Among

/-
  RiscvJit.Proofs.Code.Flow — jumps, branches, loops and barriers of generated code.

  Rules of `Site.Does` for work that does not run straight on. A jump or a taken branch is an
  exit to its label; binding a label inside a sequence turns that exit into going on there
  (`Does.label`), and binding one in front of work that may jump back makes a loop, which ends
  when a number goes down each time round (`Does.loop`). A barrier after an instruction only
  takes a step (`Does.membar`).
-/

namespace RiscvJit

open Asm
open Assembler

namespace Site

open Machine (Keeps step_of_decode set_pc next_pc get_set get_next)

variable {S : Site} {m : Machine} {E : Exits} {l : Label} {a a' : Assembler}

variable {c : Call} {L : Layout} {Q : Unit → Machine → Prop} {addr : UInt64}

/-! ## Jumps and branches -/

theorem does_j (hl : S.Binds l) (h : ∀ p, E (.label l) { m with pc := p }) : S.Does (Asm.j l) m E Q :=
  (goes_j_at (C := .alone S) hl fun s p hs => by
    cases hs
    exact h p).does

/-- A call of a label goes there, with the address behind the call in a register. -/
theorem jal_goes {link : Reg} (hl : S.Binds l) (hrun : jal link l S.target a = .ok ((), a')) (ha : S.Early a)
    (ha' : S.Late a') (hat : S.At a m) : ∃ p, S.world.step m =
      some { m.set link (S.start + UInt64.ofNat a'.buf.offset) with pc := p } ∧
      S.To l { m.set link (S.start + UInt64.ofNat a'.buf.offset) with pc := p } := by
  obtain ⟨L0, L1, L, hspot⟩ := spot ha (trace_call (c := .jal link l) trivial hrun) ha'
  obtain ⟨k, hknown, hmark⟩ := mark_of_binds hspot.holds hl
  have hp := hspot.written rfl (show [Piece.jump link l][0]? = _ from rfl)
  have hpc := hspot.at_iff.mp hat.pc
  have hstep := (step_inside hspot.holds hp hpc).trans (hspot.holds.step_jal hat.stands hp hmark hpc)
  rw [hpc, pc_next, show 4 * (L0.pieces.length + 0 + 1) = a'.buf.offset from (hspot.pc_after rfl).symm] at hstep
  refine ⟨_, hstep, to_of_mark hspot.holds hknown hmark (hat.stands.keep fun addr _ => ?_) rfl⟩
  show (m.set _ _).mem addr = m.mem addr
  rw [Machine.set_mem]

section
variable {o : Op} {rs1 rs2 : Reg} (ho : o.info.format = .branch) (hl : S.Binds l)
  (htaken : o.taken (m.get rs1) (m.get rs2) = true → ∀ p, E (.label l) { m with pc := p })
  (hnot : o.taken (m.get rs1) (m.get rs2) = false → ∀ p, Q () { m with pc := p })
include ho hl htaken hnot

/-- A branch is an exit to its label when its condition holds. -/
theorem does_branch : S.Does (branch o rs1 rs2 l) m E Q :=
  (goes_branch_at (C := .alone S) ho hl
    (fun ht s p hs => by
      cases hs
      exact htaken ht p)
    fun hn s p hs => by
      cases hs
      exact hnot hn p).does

/-- A branch that may be far is an exit to its label when its condition holds. -/
theorem does_bcond : S.Does (bcond o rs1 rs2 l) m E Q :=
  (goes_bcond_at (C := .alone S) ho hl
    (fun ht s p hs => by
      cases hs
      exact htaken ht p)
    fun hn s p hs => by
      cases hs
      exact hnot hn p).does

end

/-! ## Labels -/

variable {α β : Type} {x : Asm α}

/-- What leaves work for a label that is bound behind it goes on there. -/
theorem Does.label {f : α → Asm β} {Q : β → Machine → Prop} [hx : x.Traced] [hf : ∀ r, (f r).Traced]
    (h : S.Binds l → S.Does x m (E.or (.label l) fun m' => ∀ r, S.Does (f r) m' E Q) fun r m' => S.Does (f r) m' E Q) :
    S.Does (x >>= fun r => Asm.bind l >>= fun _ => f r) m E Q := by
  intro a s a' hrun ha ha' hat
  obtain ⟨r, b, hr, hrun⟩ := bind_eq_ok.mp hrun
  obtain ⟨_, c, hbind, hs⟩ := bind_eq_ok.mp hrun
  obtain ⟨is, htrace, -⟩ := hx.trace _ _ _ _ ha.behind hr
  have hb := ha.append htrace
  have hc := hb.append (trace_call (c := .bind l) trivial hbind)
  obtain ⟨js, htrace', -⟩ := (hf r).trace _ _ _ _ hc.behind hs
  have hc' := ha'.append htrace'
  have hb' := hc'.append (trace_call (c := .bind l) trivial hbind)
  obtain ⟨hbinds, hto⟩ := To.at_bind hbind hb hc'
  -- the label is bound where the work ends, so both ways go on from there
  have goOn {m1 : Machine} (hreach : S.world.Reaches m m1) (hat1 : S.At b m1) (hrest : S.Does (f r) m1 E Q) :
      ∃ m', S.world.Reaches m m' ∧ (S.At a' m' ∧ Q s m' ∨ S.Leaves E m') := by
    have hgo : S.Does (Asm.bind l >>= fun _ => f r) m1 E Q := .bind (does_bindLabel hrest)
    obtain ⟨m', hreach', hend⟩ := hgo b s a' (bind_eq_ok.mpr ⟨_, c, hbind, hs⟩) hb ha' hat1
    exact ⟨m', hreach.trans hreach', hend⟩
  obtain ⟨m1, hreach, ⟨hat1, hrest⟩ | haway | ⟨l', hl', hexit⟩⟩ := h hbinds a r b hr ha hb' hat
  · exact goOn hreach hat1 hrest
  · rcases haway with ⟨e, -⟩ | haway
    · cases e
    · exact ⟨m1, hreach, .inr (.inl haway)⟩
  · rcases hexit with ⟨e, hrest⟩ | hexit
    · cases e
      exact goOn hreach (hto m1 hl') (hrest r)
    · exact ⟨m1, hreach, .inr (.inr ⟨l', hl', hexit⟩)⟩

/-- Work that may jump back to its beginning ends when a number goes down each time round. -/
theorem Does.loop {Q : α → Machine → Prop} [hx : x.Traced] (I : Nat → Machine → Prop) {n : Nat}
    (h : S.Binds l → ∀ n m, I n m → S.Does x m (E.or (.label l) fun m' => ∃ k < n, I k m') Q) (hI : I n m) :
    S.Does (Asm.bind l >>= fun _ => x) m E Q := by
  intro a s a' hrun ha ha' hat
  obtain ⟨_, b, hbind, hs⟩ := bind_eq_ok.mp hrun
  have hb := ha.append (trace_call (c := .bind l) trivial hbind)
  obtain ⟨js, htrace, -⟩ := hx.trace _ _ _ _ hb.behind hs
  obtain ⟨hbinds, hto⟩ := To.at_bind hbind ha (ha'.append htrace)
  have start {m1 : Machine} (hat1 : S.At a m1) : S.At b m1 := by
    obtain ⟨m', -, ⟨hat', rfl⟩ | hleave⟩ := does_bindLabel (E := Exits.none) (Q := fun _ m' => m' = m1)
      rfl a () b hbind ha
      (ha'.append htrace) hat1
    · exact hat'
    · rcases hleave with h | ⟨_, _, h⟩ <;> exact h.elim
  -- strong induction on the number, over the machines that come round
  induction n using Nat.strongRecOn generalizing m with
  | _ n ih =>
    obtain ⟨m1, hreach, hend | haway | ⟨l', hl', hexit⟩⟩ := h hbinds n m hI b s a' hs hb ha' (start hat)
    · exact ⟨m1, hreach, .inl hend⟩
    · rcases haway with ⟨e, -⟩ | haway
      · cases e
      · exact ⟨m1, hreach, .inr (.inl haway)⟩
    · rcases hexit with ⟨e, k, hk, hIk⟩ | hexit
      · cases e
        obtain ⟨m', hreach', hend⟩ := ih k hk hIk (hto m1 hl')
        exact ⟨m', hreach.trans hreach', hend⟩
      · exact ⟨m1, hreach, .inr (.inr ⟨l', hl', hexit⟩)⟩

/-! ## Addresses of labels -/

/-- The address where the label is bound. -/
def Marks (S : Site) (l : Label) (addr : UInt64) : Prop :=
  ∃ s p, S.last.label l = .ok s ∧ s.position? = some p ∧ addr = S.start + p.toUInt64

theorem To.marks (h : S.To l m) : S.Marks l m.pc := h.2

/-- Where a label is bound depends on the finished code and its place only. -/
theorem Marks.congr {S' : Site} (hlast : S.last = S'.last) (hstart : S.start = S'.start) (h : S.Marks l addr) :
    S'.Marks l addr := by
  unfold Marks at h ⊢
  rwa [← hlast, ← hstart]

theorem To.congr {S' : Site} (hlast : S.last = S'.last) (hstart : S.start = S'.start) (h : S.To l m) : S'.To l m := by
  unfold To Stands at h ⊢
  rwa [← hlast, ← hstart]

theorem Marks.binds (h : S.Marks l addr) : S.Binds l := by
  obtain ⟨s, p, hs, hp, -⟩ := h
  exact ⟨s, p, hs, hp⟩

theorem Marks.unique {x y : UInt64} (h : S.Marks l x) (h' : S.Marks l y) : x = y := by
  obtain ⟨s, p, hs, hp, rfl⟩ := h
  obtain ⟨s', p', hs', hp', rfl⟩ := h'
  cases hs.symm.trans hs'
  cases hp.symm.trans hp'
  rfl

theorem Marks.eq_of_mark (hL : Holds L S.last) {k : Nat} (hl : L.Known l) (hk : L.mark l = some k) (h : S.Marks l addr) :
    addr = S.start + UInt64.ofNat (4 * k) := by
  obtain ⟨s, p, hs, hp, rfl⟩ := h
  obtain ⟨s', hs', hp'⟩ := position_of_mark hL hl hk
  cases hs.symm.trans hs'
  cases hp.symm.trans hp'
  rw [Int64.toUInt64_ofNat']

/-- A label marks the address where it is bound. -/
theorem marks_of_bind (h : Asm.bind l S.target a = .ok ((), a')) (ha : S.Early a) (ha' : S.Late a') (hm : S.Stands m) :
    S.Marks l (S.start + UInt64.ofNat a.buf.offset) := by
  obtain ⟨⟨s, p, hs, hp⟩, hto⟩ := To.at_bind h ha ha'
  have hat := hto { m with pc := S.start + p.toUInt64 } ⟨hm.withPc _, s, p, hs, hp, rfl⟩
  exact ⟨s, p, hs, hp, hat.pc.symm⟩

/-- How far one address is from another, in bytes. -/
def distance (origin addr : UInt64) : Int := (addr - origin).toInt64.toInt

theorem distance_pieces (start : UInt64) {j k : Nat} (hj : 4 * j < 2 ^ 62) (hk : 4 * k < 2 ^ 62) :
    distance (start + UInt64.ofNat (4 * k)) (start + UInt64.ofNat (4 * j)) = 4 * j - 4 * k := by
  rw [distance, ← pc_add_gap start j k, UInt64.add_comm, UInt64.add_sub_cancel, Int64.toInt64_toUInt64, toInt_gap hj hk]

/-- The label of a jump is less than a megabyte away. -/
theorem jump_near (hrun : Asm.j l S.target a = .ok ((), a')) (ha : S.Early a) (ha' : S.Late a') (h : S.Marks l addr) :
    ∃ j k, a.buf.offset = 4 * j ∧ addr = S.start + UInt64.ofNat (4 * k) ∧ a'.buf.offset = 4 * (j + 1) ∧
      4 * j < 2 ^ 50 ∧ 4 * k < 2 ^ 50 ∧ 4 * j ≤ 4 * k + 2 ^ 20 ∧ 4 * k < 4 * j + 2 ^ 20 := by
  obtain ⟨L0, L1, L, hspot⟩ := spot ha (trace_call (c := .jal .zr l) trivial hrun) ha'
  obtain ⟨s, p, hs, hp, -⟩ := id h
  obtain ⟨k, hknown, hmark⟩ := mark_of_binds hspot.holds ⟨s, p, hs, hp⟩
  have hpiece := hspot.written rfl (show [Piece.jump .zr l][0]? = _ from rfl)
  obtain ⟨hk', hm'⟩ := hspot.holds.small hpiece hmark
  have hreach := Layout.reaches_iff.mp hspot.holds.reaches _ _ hpiece
  rw [Layout.distance_bound (l := l) rfl hmark] at hreach
  have hfits := (fitsSigned_iff 21 (gap k L0.pieces.length)).mp hreach
  rw [toInt_gap (by omega) (by omega)] at hfits
  exact ⟨_, k, hspot.before.offset, h.eq_of_mark hspot.holds hknown hmark,
    hspot.pc_after rfl, by omega, by omega, by omega, by omega⟩

theorem exec_upper (m : Machine) (rd : Reg) (imm : Int64) :
    m.exec { op := .auipc, rd, rs1 := .none, rs2 := .none, imm } = some
    (m.next.set rd (m.pc + imm.toUInt64 <<< 12)) := rfl

theorem exec_lower (m : Machine) (rd : Reg) (imm : Int64) :
    m.exec { op := .addi, rd, rs1 := rd, rs2 := .none, imm } = some (m.next.set rd (m.get rd + imm.toUInt64)) := rfl

/-- Both parts of a distance that is not too far add up to it. -/
theorem high_add_low {d : Int64} (h : -(2 ^ 30) ≤ d.toInt) (h' : d.toInt < 2 ^ 30) :
    (signExtend 20 (lowWord (highPart d))).toUInt64 <<< 12 + (lowPart d).toUInt64 = d.toUInt64 := by
  obtain ⟨-, -, hexact⟩ := decode_high_low (d := d) (by omega) (by omega)
  have hsum := hexact (by omega) (by omega)
  have hshift := toUInt64_shiftLeft (signExtend 20 (lowWord (highPart d))) (show 12 < 64 by decide)
  generalize signExtend 20 (lowWord (highPart d)) = hi at hsum hshift ⊢
  have hint : hi <<< Int64.ofNat 12 + lowPart d = d := by
    apply Int64.toInt_inj.mp
    rw [Int64.toInt_add, toInt_shiftLeft hi rfl (show 12 < 64 by decide)]
    simp only [Int.bmod_def, Int.reducePow, Nat.reducePow]
    omega
  rw [← hint, Int64.toUInt64_add, hshift, hint]
  rfl

/-- The address of a label, when it is not too far away. -/
theorem does_la {rd : Reg} (hk : Keeps rd) (hl : S.Binds l)
    (h : ∀ v m', (∀ addr, S.Marks l addr → -(2 ^ 30) ≤ distance m.pc addr → distance m.pc addr < 2 ^ 30 → v = addr) →
      Put rd [] v m m' → Q () m') : S.Does (la rd l) m E Q := by
  intro a _ a' hrun ha ha' hat
  obtain ⟨L0, L1, L, hspot⟩ := spot ha (trace_call (c := .la rd l) trivial hrun) ha'
  obtain ⟨hint, -⟩ := hspot.before.legal (c := .la rd l) trivial hrun
  obtain ⟨k, hknown, hmark⟩ := mark_of_binds hspot.holds hl
  have hpc := hspot.at_iff.mp hat.pc
  have hhigh := hspot.written rfl (show [Piece.high rd l, .low rd l][0]? = _ from rfl)
  have hlow := hspot.written rfl (show [Piece.high rd l, .low rd l][1]? = _ from rfl)
  obtain ⟨hk', hm'⟩ := hspot.holds.small hhigh hmark
  have hgap := toInt_gap (m := k) (k := L0.pieces.length) (by omega) (by omega)
  obtain ⟨hfits, -⟩ := decode_high_low (d := gap k L0.pieces.length) (by rw [hgap]; omega) (by rw [hgap]; omega)
  have hfetch := hspot.holds.fetch hat.stands hhigh hpc
  rw [Layout.distance_bound (l := l) rfl hmark,
    show (Piece.high rd l).origin (L0.pieces.length + 0) = L0.pieces.length from rfl]
    at hfetch
  have hfirst := (step_inside hspot.holds hhigh hpc).trans
    (step_of_decode (by rw [hfetch]; exact decode_auipc _ hint))
  rw [exec_upper] at hfirst
  generalize hv : m.pc + (signExtend 20 (lowWord (highPart (gap k L0.pieces.length)))).toUInt64 <<< 12 = v at hfirst
  have hpc1 : (m.next.set rd v).pc = S.start + UInt64.ofNat (4 * (L0.pieces.length + 1)) := by
    rw [set_pc, next_pc, hpc, pc_next]
  have hstands1 : S.Stands (m.next.set rd v) := hat.stands.keep fun addr _ => by simp
  have hfetch1 := hspot.holds.fetch hstands1 hlow hpc1
  rw [Layout.distance_bound (l := l) rfl hmark,
    show (Piece.low rd l).origin (L0.pieces.length + 1) = L0.pieces.length from rfl]
    at hfetch1
  have hsecond := (step_inside hspot.holds hlow hpc1).trans
    (step_of_decode (by rw [hfetch1]; exact decode_addi hint hint hfits))
  rw [exec_lower, get_set _ hk, if_pos rfl] at hsecond
  generalize hw : v + (lowPart (gap k L0.pieces.length)).toUInt64 = w at hsecond
  refine ⟨_, .head hfirst (.one hsecond), .inl ⟨⟨hstands1.keep fun addr _ => by simp, ?_⟩, h w _ ?_ ⟨?_, ?_, by simp⟩⟩⟩
  · rw [set_pc, next_pc, hpc1, pc_next, hspot.pc_after rfl]
    rfl
  · intro addr haddr hback hfar
    have heq := haddr.eq_of_mark hspot.holds hknown hmark
    rw [heq, hpc, distance_pieces _ (by omega) (by omega)] at hback hfar
    rw [← hw, ← hv, UInt64.add_assoc, high_add_low (by rw [hgap]; exact hback) (by rw [hgap]; exact hfar),
      hpc, pc_add_gap, heq]
  · rw [get_set _ hk, if_pos rfl]
  · intro r hr _
    rw [get_set _ hk, if_neg hr, get_next, get_set _ hk, if_neg hr, get_next]

/-! ## Barriers -/

/-- The sets of a barrier are four bits each. -/
def SmallSets (order : MemoryOrder) : Prop :=
  Op.fence.info.format.admits ((fenceSets order).1 <<< 4 ||| (fenceSets order).2) = true

/-- A barrier of its own only takes a step. -/
theorem Does.barrier {f : α → Asm β} {Q : β → Machine → Prop} [hx : x.Traced] [hf : ∀ r, (f r).Traced] (hs : x.Seals)
    {order : MemoryOrder} (hsets : SmallSets order) (h : S.Does x m E fun r m' => ∀ p,
    S.Does (f r) { m' with pc := p } E Q) :
    S.Does (do let r ← x; membar order; f r) m E Q := by
  intro a s a' hrun ha ha' hat
  obtain ⟨r, b, hr, hrun⟩ := bind_eq_ok.mp hrun
  obtain ⟨_, c, hbar, hrest⟩ := bind_eq_ok.mp hrun
  obtain ⟨is, htrace, -⟩ := hx.trace _ _ _ _ ha.behind hr
  have hb := ha.append htrace
  have hbarrier := membar_sealed (hs _ _ _ _ ha.behind hr) hbar
  have hc : S.Early c := by
    rcases hbarrier with h | h
    · exact hb.append h
    · exact hb.append h
  obtain ⟨js, htrace', -⟩ := (hf r).trace _ _ _ _ hc.behind hrest
  have hc' := ha'.append htrace'
  have hb' : S.Late b := by
    rcases hbarrier with h | h
    · exact hc'.append h
    · exact hc'.append h
  obtain ⟨m1, hreach, ⟨hat1, hgo⟩ | hleave⟩ := h a r b hr ha hb' hat
  · -- the machine passes the barrier
    obtain ⟨p, hpass, hat2⟩ : ∃ p, S.world.Reaches m1 { m1 with pc := p } ∧ S.At c { m1 with pc := p } := by
      rcases hbarrier with hnone | hone
      · cases hnone
        exact ⟨m1.pc, .refl _ _, hat1⟩
      · obtain ⟨L0, L1, L, hspot⟩ := spot hb hone hc'
        have hpc := hspot.at_iff.mp hat1.pc
        have hL1 : L1 = L0.write [.word (fenceWord ((fenceSets order).1 <<< 4 ||| (fenceSets order).2))] :=
          hspot.drawn
        have hp : L.pieces[L0.pieces.length]? = some (.word (fenceWord
            ((fenceSets order).1 <<< 4 ||| (fenceSets order).2))) := by
          refine hspot.piece ?_
          rw [hL1, Layout.write, List.getElem?_concat_length]
        have hdecode := @Op.decode_encode .fence (by decide) .none .none .none _ rfl rfl rfl hsets rfl
        have hstep := (step_inside hspot.holds hp hpc).trans (step_of_decode (by
          rw [hspot.holds.fetch hat1.stands hp hpc]; exact hdecode))
        refine ⟨m1.pc + 4, .one hstep, hat1.stands.withPc _, ?_⟩
        rw [hspot.after.offset, hL1, Layout.write, List.length_append, hpc, pc_next]
        rfl
    obtain ⟨m', hreach', hend⟩ := hgo p c s a' hrest hc ha' hat2
    exact ⟨m', (hreach.trans hpass).trans hreach', hend⟩
  · exact ⟨m1, hreach, .inr hleave⟩

/-- So does a barrier after an instruction. -/
theorem Does.membar {f : Asm β} {Q : β → Machine → Prop} [x.Traced] [f.Traced] (hs : x.Spaces) {order : MemoryOrder}
    (hsets : SmallSets order) (h : S.Does x m E fun _ m' => ∀ p, S.Does f { m' with pc := p } E Q) :
    S.Does (do let _ ← x; membar order; f) m E Q := .barrier (f := fun _ => f) hs.seals hsets h

end Site

end RiscvJit
