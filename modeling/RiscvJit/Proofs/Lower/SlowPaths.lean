import RiscvJit.Proofs.Lower.ReservedRegisters
import RiscvJit.Proofs.Lower.Resident

/-
  RiscvJit.Proofs.Lower.SlowPaths — instructions with and without a slow path.

  An instruction of a method in memory is run from the machine in front of it (`Resident.Facing`) to the
  machine in front of the next one (`Facing.runs`). One that has a slow path comes there as well, or stops
  on it (`Facing.completes`). The slow path is elsewhere in the code (`Site.Writes`). It comes back to a
  label that the instruction binds at its end, and what is known there is that this is in front of the
  next instruction (`S.Completes`).

  On a slow path the runtime is called. Nothing is assumed of it: the run stops there, with what follows
  from any machine that is back (`Lowers.calls`).

  A label of the program is given a label of the assembler when a jump to it or its own instruction is lowered, whichever
  comes first, and keeps it to the end (`Lowering.Grown.labels`). So the label that a jump leaves for is the one that is
  bound in front of the instruction of the label (`Resident.Spelled.jumpsTo`), and a machine that takes the jump is in
  front of that instruction (`Resident.Facing.jumps`).
-/

namespace RiscvJit

open Reg (zr)
open Lower
open Asm

/-! ## Code without a barrier at its end -/

namespace Asm

variable (o : Op) (rd : Reg)

theorem spaces_jal (l : Label) : Spaces (jal rd l) := by
  refine fun t a r a' ha h => ?_
  obtain ⟨off, b, hoff, h⟩ := bind_eq_ok.mp h
  cases hoff
  exact spaces_emit.refer (fun _ => codeOnly_refer _ _ _) t a r a' ha h

theorem spaces_j (l : Label) : Spaces (j l) := spaces_jal zr l

theorem spaces_load (base : Reg) (off : Int64) : Spaces (load o rd base off) := Spaces.after fun _ => spaces_emit

theorem spaces_store (src base : Reg) (off : Int64) : Spaces (store o src base off) := Spaces.after fun _ => spaces_emit

theorem spaces_storeOff (src base : Reg) (off : Int64) (tmp : Reg) : Spaces (storeOff o src base off tmp) := by
  unfold storeOff
  split
  · exact spaces_store _ _ _ _
  · exact Spaces.after fun _ => Spaces.after fun _ => Spaces.after fun _ => spaces_store _ _ _ _

theorem spaces_jalr (rs : Reg) (off : Int64) : Spaces (jalr rd rs off) := Spaces.after fun _ => spaces_emit

theorem spaces_jalOffset (off : Int64) : Spaces (jalOffset rd off) := by
  unfold jalOffset
  split
  · exact spaces_emit
  · intro t a _ a' _ h hw
    cases h
    rw [show (a.buf.fail branchOutOfRange).failed = true from CodeBuffer.failed_fail (by decide)] at hw
    cases hw

theorem spaces_farCall (target : UInt64) (link tmp : Reg) : Spaces (farCall target link tmp) := by
  unfold farCall
  refine Spaces.after (x := get) fun a => ?_
  dsimp only
  split
  · exact spaces_jalOffset _ _
  · split
    · exact Spaces.after fun _ => spaces_jalr _ _ _
    · exact Spaces.after fun _ => spaces_jalr _ _ _

end Asm

namespace Lower

instance seals_j (l : Label) : Seals (liftM (Asm.j l) : Lower Unit) := seals_of_spaces (spaces_j l)

variable (o : Op) (src base : Reg) (off : Int64)

instance seals_branch (rs1 rs2 : Reg) (l : Label) : Seals (liftM (branch o rs1 rs2 l) : Lower Unit) :=
  seals_of_spaces (spaces_branch o rs1 rs2 l)

instance seals_load (rd base : Reg) (off : Int64) : Seals (liftM (load o rd base off) : Lower Unit) :=
  seals_of_spaces (spaces_load o rd base off)

instance seals_store : Seals (liftM (store o src base off) : Lower Unit) :=
  seals_of_spaces (spaces_store o src base off)

instance seals_storeOff (tmp : Reg) :
    Seals (liftM (storeOff o src base off tmp) : Lower Unit) := seals_of_spaces (spaces_storeOff o src base off tmp)

instance seals_emit (rd rs1 rs2 : Reg) (imm : Int64) (aqrl : UInt32) :
    Seals (liftM (emit o rd rs1 rs2 imm aqrl) : Lower Unit) := seals_of_spaces spaces_emit

end Lower

namespace Site

variable {α β : Type} {S : Site} {m : Machine} {E : Exits} {Q : α → Machine → Prop}

theorem lowers_addSite {info : Option SiteInfo} {Q : Unit → Machine → Prop} (h : Q () m) :
    S.Lowers (addSite info) m E Q := by
  intro s a p a' hrun _ _ hat
  obtain ⟨hx, rfl⟩ := asmFrom_eq_ok.mp hrun
  have hoff : p.2.asm.buf.offset = a.buf.offset := by
    rcases addSite_eq_ok hx with e | ⟨map, hadd⟩
    · rw [e]
    · rcases addOopMap_cases hadd with ⟨-, e⟩ | ⟨-, maps, -, e⟩ <;> rw [e]
  exact ⟨m, .refl _ _, .inl ⟨⟨hat.stands, by rw [hoff]; exact hat.pc⟩, h⟩⟩

/-! ## Leaving for a slow path -/

variable {path : SlowPath}

/-- What leaves for the entry of a slow path leaves as the slow path does. -/
theorem Lowers.detour {x : Lower α} {l : Label} {body : Lower Unit} {P : Machine → Prop} [hbody : Lower.Traced body]
    (hpath : emitSlowPath path = (liftM (Asm.bind l) : Lower Unit) >>= fun _ => body) (hwrites : S.Writes path)
    (h : S.Binds l → S.Lowers x m (E.or (.label l) P) Q)
    (hslow : ∀ S', S.Beside S' → ∀ m', P m' → S'.Lowers body m' E fun _ _ => False) : S.Lowers x m E Q := by
  obtain ⟨S', s, hbeside, hcontains⟩ := hwrites
  rw [hpath, asmFrom_asm_bind] at hcontains
  have := hbody.asmFrom s
  refine fun s0 => (h (hbeside.binds_iff.mp hcontains.binds) s0).onward fun m' hto hP => ?_
  obtain ⟨m'', hreach, hleave⟩ := hcontains.goesOn (hbeside.to_iff.mpr hto) (hslow S' hbeside m' hP s)
  exact ⟨m'', hbeside.world ▸ hreach, hbeside.leaves hleave⟩

theorem Lowers.calls {x : Asm Unit} {f : Unit → Lower α} {tmps : List Reg} {target : UInt64} {R : Machine → Exits}
    [hx : x.Traced] [hf : ∀ r, Lower.Traced (f r)] (hstart : S.start % 2 = 0) (hcall : S.CallsTo x tmps target m)
    (h : ∀ ret m1, Called tmps target ret m m1 → ret % 2 = 0 →
      (∀ m2, S.Stands m2 → m2.pc = ret → ∃ m', S.world.Reaches m2 m' ∧ S.Leaves (R m2) m') → E .away m1)
    (hback : ∀ m2, S.Lowers (f ()) m2 (R m2) fun _ _ => False) : S.Lowers ((liftM x : Lower Unit) >>= f) m E Q := by
  intro s
  rw [asmFrom_asm_bind]
  have (r : Unit) := (hf r).asmFrom s
  exact Does.calls hstart hcall h fun m2 => hback m2 s

/-! ## Coming back -/

/-- What lowering does where the slow paths that it leaves are written, with their sites, and its end is
where `End` holds. -/
def Completes (S : Site) (sites : List DebugSite) (End : Machine → Prop) (x : Lower α) (m : Machine) (E : Exits)
    (Q : α → Machine → Prop) : Prop :=
  ∀ s, S.DoesWhere (fun p => (∀ path ∈ p.2.slowPaths.toList, Lower.Traced (emitSlowPath path) →
      Lower.Seals (emitSlowPath path) → S.Records sites path) ∧ ∀ m', S.At p.2.asm m' →
      End m') (x.asmFrom s) m E fun p => Q p.1

variable {sites : List DebugSite} {End : Machine → Prop}

/-- Work that leaves no slow path comes first. -/
theorem completes_after {x : Lower α} {f : α → Lower β} {Q : β → Machine → Prop} [hx : Lower.Traced x]
    [hf : ∀ r, Lower.Traced (f r)]
    (h : S.Lowers x m E fun r m' => S.Completes sites End (f r) m' E Q) : S.Completes sites End (x >>= f) m E Q := by
  intro s
  rw [asmFrom_bind]
  have := hx.asmFrom s
  have (p : α × Lowering) := (hf p.1).asmFrom p.2
  exact Does.bindWhere ((h s).imp (fun _ _ h => h) fun p m' hrest => hrest p.2)

theorem completes_lift {e : Except Fault α} {f : α → Lower β} {Q : β → Machine → Prop}
    (h : ∀ r, e = .ok r → S.Completes sites End (f r) m E Q) : S.Completes sites End ((liftM e : Lower α) >>= f)
    m E Q := by
  intro s a p a' hrun hG ha ha' hat
  obtain ⟨hx, rfl⟩ := asmFrom_eq_ok.mp hrun
  obtain ⟨r, hr, hx⟩ := lift_bind_eq_ok.mp hx
  exact h r hr s a p _ (asmFrom_eq_ok.mpr ⟨hx, rfl⟩) hG ha ha' hat

theorem completes_newLabel {f : Label → Lower β} {Q : β → Machine → Prop} [hf : ∀ l, Lower.Traced (f l)]
    (h : ∀ l, S.Completes sites End (f l) m E Q) : S.Completes sites End ((liftM newLabel : Lower Label) >>= f)
    m E Q := by
  intro s
  rw [asmFrom_asm_bind]
  have (l : Label) := (hf l).asmFrom s
  exact Does.bindWhere (does_newLabel fun l => h l s)

/-- The slow path is written, and its sites are recorded. -/
theorem completes_addSlowPath {main : Lower β} {Q : β → Machine → Prop} [hpath : Lower.Traced (emitSlowPath path)]
    [hsealed : Lower.Seals (emitSlowPath path)] [hgrows : Lower.Grows main]
    (h : S.Records sites path → S.Lowers main m E Q) : S.Completes sites End (do addSlowPath path; main) m E Q := by
  intro s a p a' hrun ⟨hpaths, _⟩ ha ha' hat
  obtain ⟨hx, rfl⟩ := asmFrom_eq_ok.mp hrun
  obtain ⟨_, s1, hadd, hmain⟩ := Lower.bind_eq_ok.mp hx
  cases hadd
  have hrecords := hpaths path ((hgrows.grown hmain).slowPaths.subset (by simp)) hpath hsealed
  exact (h hrecords).run hmain ha ha' hat

/-- The label at the end is in front of what comes next, and the slow path is written. -/
theorem completes_slowPath {cont : Label} {main : Lower Unit} {Q : Unit → Machine → Prop}
    [hpath : Lower.Traced (emitSlowPath path)] [hsealed : Lower.Seals (emitSlowPath path)]
    [hmain : Lower.Traced main] [hgrows : Lower.Grows main]
    (h : S.Writes path → S.Binds cont → (∀ m', S.To cont m' → End m') →
      S.Lowers main m (E.or (.label cont) (Q ())) Q) :
    S.Completes sites End (do addSlowPath path; main; Asm.bind cont) m E Q := by
  intro s a p a' hrun ⟨hpaths, hend⟩ ha ha' hat
  obtain ⟨hx, rfl⟩ := asmFrom_eq_ok.mp hrun
  obtain ⟨_, s1, hadd, hx⟩ := Lower.bind_eq_ok.mp hx
  cases hadd
  obtain ⟨_, s2, hbody, hbind⟩ := Lower.bind_eq_ok.mp hx
  obtain ⟨b, hbound, hp⟩ := asm_eq_ok.mp hbind
  obtain ⟨items, htrace⟩ := hmain.trace ha.behind hbody
  have hwrites : S.Writes path := by
    refine (hpaths path ?_ hpath hsealed).writes
    rw [hp]
    exact (hgrows.grown hbody).slowPaths.subset (by simp)
  have hafter (m' : Machine) (hto : S.To cont m') : End m' := by
    refine hend m' ?_
    rw [hp] at ha' ⊢
    obtain ⟨hstands, hpc⟩ := (To.at_bind hbound (ha.append htrace) ha').2 m' hto
    exact ⟨hstands, by rw [hpc, ← offset_bindLabel hbound]⟩
  have hrun : S.Lowers (main >>= fun _ => (liftM (Asm.bind cont) : Lower Unit)) m E Q :=
    .labelLast fun hl => h hwrites hl hafter
  exact hrun.run hx ha ha' hat

end Site

/-! ## Instructions of a method in memory -/

section
variable {t : Target} {c : Resident t} {W : World} {k : Nat} {i : Instruction} {m : Machine} {Q : Machine → Prop}

/-- The machine is in front of an instruction of a method, whose code the world leaves alone. -/
structure Resident.Facing (c : Resident t) (W : World) (k : Nat) (i : Instruction) (m : Machine) : Prop where
  code : c.program.code[k]? = some i
  outside : ∀ j < c.method.blob.code.length, W (c.start + UInt64.ofNat j) = none
  before : c.Before k m

/-- The instruction is run, and then the machine is in front of the next one. -/
def Resident.Runs (c : Resident t) (W : World) (k : Nat) (m : Machine) (Q : Machine → Prop) : Prop :=
  ∃ m', W.Reaches m m' ∧ c.Before (k + 1) m' ∧ Q m'

/-- The code of a method in memory, seen from one place of it. -/
structure Resident.Views (c : Resident t) (W : World) (S : Site) : Prop where
  world : S.world = W
  target : S.target = t
  start : S.start = c.start
  stands : ∀ m, S.Stands m ↔ c.method.blob.Stands c.start m
  free : ∀ addr, S.Free addr ↔ c.Clear addr

variable {x : Lower Unit}

theorem Resident.Facing.runs_viewed [Lower.Traced x] [Lower.Seals x] (h : c.Facing W k i m)
    (hx : dispatch i = x)
    (hgo : ∀ S : Site, c.Views W S → i.Admitted → S.Lowers x m .none fun _ => Q) : c.Runs W k m Q := by
  have := Lower.traced_of_dispatch hx
  have := Lower.seals_of_dispatch hx
  obtain ⟨S, s, s', hspelled⟩ := Resident.spelled h.code W h.outside
  have hrun : S.Lowers (instruction i) m .none fun _ => Q := by
    rw [instruction, hx]
    refine .bind (Site.lowers_lift fun _ hchecked => hgo S ?_ (checkOperands_eq_ok.mp hchecked))
    exact ⟨hspelled.world, hspelled.target, hspelled.start, hspelled.stands, hspelled.free⟩
  obtain ⟨m', hreach, ⟨hat, hq⟩ | hleft⟩ := hrun.run hspelled.lowered hspelled.early hspelled.late
    ((hspelled.before m).mp h.before)
  · rw [hspelled.world] at hreach
    exact ⟨m', hreach, (hspelled.after m').mpr hat, hq⟩
  · rcases hleft with h | ⟨_, _, h⟩ <;> exact h.elim

/-- Most instructions need not know more of their site than its target and what they may write. -/
theorem Resident.Facing.runs [Lower.Traced x] [Lower.Seals x] (h : c.Facing W k i m)
    (hx : dispatch i = x)
    (hgo : ∀ S : Site, S.target = t → (∀ addr, c.Clear addr → S.Free addr) → i.Admitted → S.Lowers x m .none fun _ => Q) :
    c.Runs W k m Q := h.runs_viewed hx fun S hviews => hgo S hviews.target fun addr => (hviews.free addr).mpr

/-- The instruction is run to the next one, or left. -/
theorem Resident.Facing.completes {P : Machine → Prop} [Lower.Traced x] [Lower.Seals x] (h : c.Facing W k i m)
    (hx : dispatch i = x)
    (hgo : ∀ S : Site, c.Views W S → i.Admitted →
      S.Completes c.method.sites (c.Before (k + 1)) x m (Site.Exits.none.or .away P) fun _ => Q) :
    c.Runs W k m Q ∨ ∃ m', W.Reaches m m' ∧ P m' := by
  have := Lower.traced_of_dispatch hx
  have := Lower.seals_of_dispatch hx
  obtain ⟨S, s, s', hspelled⟩ := Resident.spelled h.code W h.outside
  have hrun : S.Completes c.method.sites (c.Before (k + 1)) (instruction i) m (Site.Exits.none.or .away P)
    fun _ => Q := by
    rw [instruction, hx]
    refine Site.completes_lift fun _ hchecked => hgo S ?_ (checkOperands_eq_ok.mp hchecked)
    exact ⟨hspelled.world, hspelled.target, hspelled.start, hspelled.stands, hspelled.free⟩
  obtain ⟨m', hreach, ⟨hat, hq⟩ | hleft⟩ := hrun s s.asm ((), s') s'.asm (asmFrom_eq_ok.mpr ⟨hspelled.lowered, rfl⟩)
    ⟨hspelled.paths, fun m' => (hspelled.after m').mpr⟩ hspelled.early hspelled.late ((hspelled.before m).mp h.before)
  · rw [hspelled.world] at hreach
    exact .inl ⟨m', hreach, (hspelled.after m').mpr hat, hq⟩
  · rw [hspelled.world] at hreach
    rcases hleft with (⟨-, hP⟩ | h) | ⟨_, _, ⟨e, -⟩ | h⟩
    · exact .inr ⟨m', hreach, hP⟩
    · exact h.elim
    · cases e
    · exact h.elim

end

/-! ## Jumps -/

namespace Lower

variable {t : Target} {s s' : Lowering}

/-- A label stays at the end of the code when it is found or made. -/
theorem offset_label {id : LabelId} {l : Label} (h : label id t s = .ok (l, s')) :
    s'.asm.buf.offset = s.asm.buf.offset := by
  obtain ⟨-, rfl | ⟨-, a, hnew, rfl⟩⟩ := label_eq_ok h
  · rfl
  · cases hnew
    rfl

theorem dispatch_boundLabel {i : Instruction} (hop : i.op = .label) : dispatch i = label i.label >>=
    fun l => liftM (Asm.bind l) := by
  rw [dispatch.eq_def, hop]

end Lower

namespace Resident

variable {t : Target} {c : Resident t} {W : World} {k n : Nat} {i j : Instruction} {S : Site}
  {s s' : Lowering} {m : Machine}

/-- The instruction of a label is where its label is bound. -/
theorem Spelled.jumpsTo (h : c.Spelled k i W S s s')
    (hclear : ∀ i < c.method.blob.code.length, W (c.start + UInt64.ofNat i) = none)
    {l : Label} (hl : s'.labels.lookup j.label = some l) (hn : c.program.code[n]? = some j) (hop : j.op = .label) :
    S.Binds l ∧ ∀ m, S.To l m → c.Before n m := by
  have := Lower.traced_of_dispatch (dispatch_boundLabel hop)
  have := Lower.seals_of_dispatch (dispatch_boundLabel hop)
  obtain ⟨S', u, u', h'⟩ := Resident.spelled hn W hclear
  -- the label that is bound there
  have hlowered := h'.lowered
  rw [instruction, dispatch_boundLabel hop] at hlowered
  obtain ⟨_, hchecked, hlowered⟩ := lift_bind_eq_ok.mp hlowered
  obtain ⟨l', u1, hlabel, hbind⟩ := Lower.bind_eq_ok.mp hlowered
  obtain ⟨a, hbound, hend⟩ := asm_eq_ok.mp hbind
  have hheld : u'.labels.lookup j.label = some l' := by
    rw [hend]
    exact (label_eq_ok hlabel).1
  -- is the label of the jump, since both are kept to the end
  obtain ⟨final, hfinal, hlast, hgrown⟩ := h.grown
  obtain ⟨final', hfinal', hlast', hgrown'⟩ := h'.grown
  obtain rfl : final = final' := Except.ok.inj (hfinal.symm.trans hfinal')
  obtain rfl : l = l' := Option.some.inj ((hgrown.labels _ _ hl).symm.trans (hgrown'.labels _ _ hheld))
  have hbeside : S'.Beside S := ⟨h.world.trans h'.world.symm, h.target.trans h'.target.symm,
    h.start.trans h'.start.symm, hlast.symm.trans hlast'⟩
  obtain ⟨_, htrace⟩ := (traced_label j.label).trace h'.early.behind hlabel
  have hlate := h'.late
  rw [hend] at hlate
  obtain ⟨hbinds, hto⟩ := Site.To.at_bind hbound (h'.early.append htrace) hlate
  refine ⟨hbeside.binds_iff.mpr hbinds, fun m hm => (h'.before m).mpr ?_⟩
  obtain ⟨hstands, hpc⟩ := hto m (hbeside.to_iff.mp hm)
  exact ⟨hstands, by rw [hpc, offset_label hlabel]⟩

/-- The instruction is run to the next one, or to the instruction of the label that it jumps to. -/
theorem Facing.jumps {x : Label → Lower Unit} {P Q : Machine → Prop} [∀ l, Lower.Traced (x l)] [∀ l, Lower.Seals (x l)]
    [∀ l, Lower.Grows (x l)] (h : c.Facing W k i m) (hx : dispatch i = label i.target >>= x)
    (hn : c.program.code[n]? = some j) (hop : j.op = .label) (htarget : j.label = i.target)
    (hgo : ∀ (S : Site) (l : Label), c.Views W S → i.Admitted → S.Binds l →
      S.Lowers (x l) m (Site.Exits.none.or (.label l) P) fun _ => Q) :
    c.Runs W k m Q ∨ ∃ m', W.Reaches m m' ∧ c.Before n m' ∧ P m' := by
  have := Lower.traced_of_dispatch hx
  have := Lower.seals_of_dispatch hx
  obtain ⟨S, s, s', hspelled⟩ := Resident.spelled h.code W h.outside
  have hlowered := hspelled.lowered
  rw [instruction, hx] at hlowered
  obtain ⟨_, hchecked, hlowered⟩ := lift_bind_eq_ok.mp hlowered
  obtain ⟨l, s1, hlabel, hrest⟩ := Lower.bind_eq_ok.mp hlowered
  have hheld : s'.labels.lookup j.label = some l := by
    rw [htarget]
    exact (Lower.Grows.grown inferInstance hrest).labels _ _ (label_eq_ok hlabel).1
  obtain ⟨hbinds, hto⟩ := hspelled.jumpsTo h.outside hheld hn hop
  obtain ⟨_, htrace⟩ := (traced_label i.target).trace hspelled.early.behind hlabel
  have hat : S.At s1.asm m := by
    obtain ⟨hstands, hpc⟩ := (hspelled.before m).mp h.before
    exact ⟨hstands, by rw [hpc, offset_label hlabel]⟩
  have hviews : c.Views W S := ⟨hspelled.world, hspelled.target, hspelled.start, hspelled.stands, hspelled.free⟩
  obtain ⟨m', hreach, ⟨hat', hq⟩ | haway | ⟨l', hl', hexit⟩⟩ :=
    (hgo S l hviews (checkOperands_eq_ok.mp hchecked) hbinds).run hrest
    (hspelled.early.append htrace) hspelled.late hat
  · rw [hspelled.world] at hreach
    exact .inl ⟨m', hreach, (hspelled.after m').mpr hat', hq⟩
  · rcases haway with ⟨e, -⟩ | h
    · cases e
    · exact h.elim
  · rcases hexit with ⟨e, hP⟩ | h
    · cases e
      rw [hspelled.world] at hreach
      exact .inr ⟨m', hreach, hto m' hl', hP⟩
    · exact h.elim

end Resident

end RiscvJit
