import RiscvJit.Proofs.Lower.Placed
import RiscvJit.Proofs.Lower.Running

/-
  RiscvJit.Proofs.Lower.Resident — running one instruction of a compiled method.

  A method that was compiled is `Resident` where its code is in memory. The code of its
  instruction `k` lies between two offsets, those of `Program.placeOf`; `Inside k` are the addresses of
  that code and `Before k` the machines in front of it. It is run like any other code, from the
  machine in front of it: seen from there it is a site (`Resident.spelled`).

  For that the code of the instruction has to end where the next one begins. This is so when no
  barrier stands at its end, since a barrier that follows would be merged with it (`Lower.Seals`). The
  slow paths that the instruction left are elsewhere in the same code (`Site.Writes`).
-/

namespace RiscvJit

open Lower

namespace Lower

variable {α β : Type}

/-- No barrier stands at the end of what was written, so that one that follows is a barrier of its own. -/
class Seals (x : Lower α) : Prop where
  seals : ∀ {t s r s'}, s.asm.Behind → x t s = .ok (r, s') → s'.asm.mergeable? = none

instance seals_bindLabel (l : Label) : Seals (liftM (Asm.bind l) : Lower Unit) where
  seals _ h := by
    obtain ⟨a, ha, rfl⟩ := asm_eq_ok.mp h
    exact mergeable_none_of_bound (Site.lastBind_bindLabel ha)

instance seals_bind (x : Lower α) (f : α → Lower β) [hx : Traced x] [hf : ∀ r, Seals (f r)] : Seals (x >>= f) where
  seals hb h := by
    obtain ⟨r, s1, hr, hrest⟩ := bind_eq_ok.mp h
    obtain ⟨_, htrace⟩ := hx.trace hb hr
    exact (hf r).seals (htrace.behind hb) hrest

instance seals_seq (x : Lower α) (y : Lower β) [Traced x] [Seals y] : Seals (x >>= fun _ => y) := seals_bind x _

instance seals_ite (c : Prop) [Decidable c] (x y : Lower α) [hx : Seals x] [hy : Seals y] :
    Seals (if c then x else y) := by
  split
  · exact hx
  · exact hy

theorem seals_of_spaces {x : Asm α} (hx : x.Spaces) : Seals (liftM x : Lower α) where
  seals hb h := by
    obtain ⟨a, ha, rfl⟩ := asm_eq_ok.mp h
    exact mergeable_none_of_spaced (hx _ _ _ _ hb ha)

section
variable {i : Instruction} {x : Lower Unit}

/-- An instruction is its operands checked, and then what its opcode asks for. -/
theorem traced_of_dispatch [Traced x] (hx : dispatch i = x) : Traced (instruction i) := by
  rw [instruction, hx]
  infer_instance

theorem seals_of_dispatch [Seals x] (hx : dispatch i = x) : Seals (instruction i) := by
  rw [instruction, hx]
  infer_instance

end

end Lower

/-! ## Parts of finished code -/

section
variable {t : Target} {base start : UInt64} {blob : CodeBlob} {first last a a' : Assembler}

/-- A part of finished code is a site that begins where the part does. -/
theorem Part.site (h : Part t base last a a') (hfinished : Finished base blob first last) (hb : a'.Behind)
    (hsealed : a'.mergeable? = none) {W : World} (hclear : ∀ i < blob.code.length, W (start + UInt64.ofNat i) = none)
    (hbase : base ≠ 0 → start = base) :
    ∃ S : Site, S.world = W ∧ S.target = t ∧ S.start = start ∧ S.last = last ∧ S.Early a ∧ S.Late a' := by
  obtain ⟨L, hL⟩ := h.holds
  exact ⟨hfinished.siteFrom hL h.behind h.base t start W hclear hbase, rfl, rfl, rfl, rfl, ⟨[], .nil _⟩,
    Site.late_of_grown (S := hfinished.siteFrom hL h.behind h.base t start W hclear hbase) h.grown hb hsealed⟩

end

/-- The code of the slow path is written somewhere. -/
def Site.Writes (S : Site) (path : SlowPath) : Prop :=
  ∃ (S' : Site) (s : Lowering), S.Beside S' ∧ S'.Contains ((emitSlowPath path).asmFrom s)

/-- The slow path is written somewhere, and the sites that are recorded on it are among these. -/
def Site.Records (S : Site) (sites : List DebugSite) (path : SlowPath) : Prop :=
  ∃ (S' : Site) (u u' : Lowering), S.Beside S' ∧ emitSlowPath path S'.target u = .ok ((), u') ∧
  S'.Early u.asm ∧ S'.Late u'.asm ∧
    u'.sites.toList <+: sites

theorem Site.Records.writes {S : Site} {sites : List DebugSite} {path : SlowPath} (h : S.Records sites path) :
    S.Writes path := by
  obtain ⟨S', u, u', hbeside, hemit, hearly, hlate, -⟩ := h
  exact ⟨S', u, hbeside, u.asm, ((), u'), u'.asm, asmFrom_eq_ok.mpr ⟨hemit, rfl⟩, hearly, hlate⟩

/-! ## Methods in memory -/

/-- A compiled method, and where its code is in memory. -/
structure Resident (t : Target) where
  program : Program
  base : UInt64
  method : CompiledMethod
  start : UInt64
  compiled : program.compile t base = .ok method
  /-- Code that was written for an address is there. -/
  based : base ≠ 0 → start = base

namespace Resident

variable {t : Target} (c : Resident t)

/-- The address is none of the code. -/
def Clear (addr : UInt64) : Prop := c.method.blob.Clear c.start addr

/-- The machine is in front of the code of instruction `k`. -/
structure Before (k : Nat) (m : Machine) : Prop where
  stands : c.method.blob.Stands c.start m
  pc : ∃ off, c.program.placeOf t c.base k = .ok off ∧ m.pc = c.start + UInt64.ofNat off

/-- The address is one of the code of instruction `k`. -/
def Inside (k : Nat) (pc : UInt64) : Prop :=
  ∃ first last off, c.program.placeOf t c.base k = .ok first ∧ c.program.placeOf t c.base (k + 1) = .ok last ∧
    first ≤ off ∧ off < last ∧ pc = c.start + UInt64.ofNat off

/-- The code of an instruction, seen from the machine in front of it. -/
structure Spelled (k : Nat) (i : Instruction) (W : World) (S : Site) (s s' : Lowering) : Prop where
  world : S.world = W
  target : S.target = t
  start : S.start = c.start
  lowered : instruction i S.target s = .ok ((), s')
  early : S.Early s.asm
  later : S.Early s'.asm
  late : S.Late s'.asm
  stands : ∀ m, S.Stands m ↔ c.method.blob.Stands c.start m
  free : ∀ addr, S.Free addr ↔ c.Clear addr
  between : ∀ pc, S.Between s.asm s'.asm pc ↔ c.Inside k pc
  before : ∀ m, c.Before k m ↔ S.At s.asm m
  after : ∀ m, c.Before (k + 1) m ↔ S.At s'.asm m
  paths : ∀ path ∈ s'.slowPaths.toList, Traced (emitSlowPath path) → Seals (emitSlowPath path) →
    S.Records c.method.sites path
  grown : ∃ u, c.program.lowered t c.base = .ok u ∧ u.asm = S.last ∧ Lowering.Grown t s' u

variable {c} {k : Nat} {i : Instruction}

/-- A machine whose memory was laid over with the code is in front of where it starts. -/
theorem Before.of_overlay {m : Machine} {mem : Ram} {off : Nat} (hsize : c.method.blob.code.length ≤ 0x1000)
    (hoff : c.program.placeOf t c.base k = .ok off) (hmem : m.mem = mem.overlay c.start c.method.blob.code)
    (hpc : m.pc = c.start + UInt64.ofNat off) : c.Before k m :=
  ⟨CodeBlob.stands_overlay (Nat.le_trans hsize (by decide)) hmem, off, hoff, hpc⟩

theorem spelled (hk : c.program.code[k]? = some i) (W : World)
    (hclear : ∀ i < c.method.blob.code.length, W (c.start + UInt64.ofNat i) = none) [htraced : Traced (instruction i)]
    [hseals : Seals (instruction i)] : ∃ S s s', c.Spelled k i W S s s' := by
  obtain ⟨first, last, s, s', hfinished, hplaced⟩ := compile_placed c.compiled hk
  obtain ⟨_, htrace⟩ := htraced.trace hplaced.part.behind hplaced.lowered
  obtain ⟨S, rfl, rfl, hstart, hlast, hearly, hlate⟩ := hplaced.part.site hfinished (htrace.behind hplaced.part.behind)
    (hseals.seals hplaced.part.behind hplaced.lowered) hclear c.based
  have hcode : S.last.buf.bytes = c.method.blob.code.toArray := by rw [hfinished.code, Array.toArray_toList, hlast]
  have hplace {a : Assembler} {j : Nat} (hj : c.program.placeOf S.target c.base j = .ok a.buf.offset) (m : Machine) :
      c.Before j m ↔ S.At a m := by
    constructor
    · rintro ⟨hstands, off, hoff, hpc⟩
      rw [hj] at hoff
      cases hoff
      refine ⟨?_, by rw [hpc, hstart]⟩
      rw [Site.Stands, hcode, hstart]
      exact hstands
    · rintro ⟨hstands, hpc⟩
      refine ⟨?_, _, hj, by rw [hpc, hstart]⟩
      rw [Site.Stands, hcode, hstart] at hstands
      exact hstands
  have hstands (m : Machine) : S.Stands m ↔ c.method.blob.Stands c.start m := by
    rw [Site.Stands, hcode, hstart]
    rfl
  refine ⟨S, s, s', rfl, rfl, hstart, hplaced.lowered, hearly, hearly.append htrace, hlate, hstands,
    fun addr => ?_, fun pc => ?_,
    hplace hplaced.place, hplace hplaced.next, fun path hmem htraced' hseals' => ?_, hlast.symm ▸ hplaced.grown⟩
  · rw [Site.Free, hcode, hstart, List.size_toArray]
    rfl
  · constructor
    · rintro ⟨off, hlow, hhigh, rfl⟩
      exact ⟨_, _, off, hplaced.place, hplaced.next, hlow, hhigh, by rw [hstart]⟩
    · rintro ⟨_, _, off, hfirst, hnext, hlow, hhigh, rfl⟩
      rw [hplaced.place] at hfirst
      rw [hplaced.next] at hnext
      cases hfirst
      cases hnext
      exact ⟨off, hlow, hhigh, by rw [hstart]⟩
  · obtain ⟨u, u', hemit, hpart, hsites⟩ := hplaced.paths path hmem
    obtain ⟨_, htrace'⟩ := htraced'.trace hpart.behind hemit
    obtain ⟨S', hworld', htarget', hstart', hlast', hearly', hlate'⟩ := hpart.site hfinished (htrace'.behind hpart.behind)
      (hseals'.seals hpart.behind hemit) hclear c.based
    refine ⟨S', u, u', ⟨hworld', htarget', hstart'.trans hstart.symm, hlast'.trans hlast.symm⟩, ?_,
      hearly', hlate', hsites⟩
    rw [htarget']
    exact hemit

namespace Spelled

variable {W : World} {S : Site} {s s' : Lowering} {m : Machine} {Q : Unit → Machine → Prop}

/-- Alone, code without exits is passed through to the next instruction. -/
theorem passes (h : c.Spelled k i W S s s') (hm : c.Before k m)
    (hgo : S.Proceeds (.alone S) (instruction i) m .none Q) :
    ∃ m', W.Passes (c.Inside k) m m' ∧ c.Before (k + 1) m' ∧ Q () m' := by
  obtain ⟨m', hpass, hat, hq⟩ := (hgo s).passes (asmFrom_eq_ok.mpr ⟨h.lowered, rfl⟩) h.early h.later h.late
    ((h.before m).mp hm)
  refine ⟨m', ?_, (h.after m').mpr hat, hq⟩
  rw [h.world, show S.Between s.asm s'.asm = c.Inside k from funext fun pc => propext (h.between pc)] at hpass
  exact hpass

/-- In company, code without exits does what is allowed. -/
theorem abides {C : Company S} (h : c.Spelled k i W S s s') (hm : c.Before k m)
    (hgo : S.Proceeds C (instruction i) m .none Q) :
    Site.Abides C (c.Inside k) (fun m' => c.Before (k + 1) m' ∧ Q () m') m := by
  rw [← show S.Between s.asm s'.asm = c.Inside k from funext fun pc => propext (h.between pc)]
  exact (hgo s).abides (asmFrom_eq_ok.mpr ⟨h.lowered, rfl⟩) h.early h.later h.late ((h.before m).mp hm)
    (fun m' hat hq => ⟨(h.after m').mpr hat, hq⟩) fun _ _ _ he => he.elim

end Spelled

end Resident

end RiscvJit
