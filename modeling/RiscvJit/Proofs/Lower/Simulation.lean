import RiscvJit.Proofs.Lower.Control

/-
  RiscvJit.Proofs.Lower.Simulation — compiled code does what the program does.

  Lowering a program of the fragment gives every instruction its place in the code
  (`instructions_laid`). A machine that runs the code stands at the place of the instruction that
  is next and agrees with the activation (`Matches`); one instruction of the program is some
  number of machine steps to the next such machine (`Laid.step`), and so is a whole execution
  (`Laid.run`). `compile_simulates` puts this together for compiled methods.

  Code and frame share one memory, so the frame must not lie over the code; then stores to the
  frame leave the code loaded.
-/

namespace RiscvJit

open Machine (step_of_decode steps_add steps_one get_withPc)
open Lower
open Program (step? run?)

/-! ## The code of a program -/

/-- The code of the instruction is part of the layout, from piece `k` up to piece `k'`. -/
def Within (frame : Int64) (labels : List (LabelId × Label)) (i : Instruction) (L : Layout) (k k' : Nat) : Prop :=
  ∃ L1 L2, Translated frame labels i L1 L2 ∧ L1.pieces.length = k ∧ L2.pieces.length = k' ∧
    L2.pieces <+: L.pieces ∧ ∀ l m, L2.Known l → L2.mark l = some m → L.mark l = some m

/-- Every instruction has its code in the layout. -/
def Laid (frame : Int64) (labels : List (LabelId × Label)) (code : List Instruction) (L : Layout)
    (place : Nat → Nat) : Prop :=
  ∀ n i, code[n]? = some i → Within frame labels i L (place n) (place (n + 1))

section
variable {L L' : Layout} {s s' : Lowering} {t : Target}

/-- Once the buffer has failed, nothing more is lowered. -/
theorem instructions_failed {code : List Instruction} (hf : s.asm.buf.failed = true)
    (h : instructions code t s = .ok ((), s')) : s' = s := by
  cases code with
  | nil => exact (pure_eq_ok.mp h).2
  | cons i rest =>
    obtain ⟨b, s1, hfailed, h⟩ := bind_eq_ok.mp h
    obtain ⟨a, ha, rfl⟩ := asm_eq_ok.mp hfailed
    cases ha
    rw [if_pos hf] at h
    exact (pure_eq_ok.mp h).2

theorem instructions_cons {i : Instruction} {rest : List Instruction} (hf : s.asm.buf.failed = false)
    (h : instructions (i :: rest) t s = .ok ((), s')) :
    ∃ s1, instruction i t s = .ok ((), s1) ∧ instructions rest t s1 = .ok ((), s') := by
  obtain ⟨b, s1, hfailed, h⟩ := bind_eq_ok.mp h
  obtain ⟨a, ha, rfl⟩ := asm_eq_ok.mp hfailed
  cases ha
  rw [if_neg (by rw [hf]; decide)] at h
  obtain ⟨_, s2, hi, hrest⟩ := bind_eq_ok.mp h
  exact ⟨s2, hi, hrest⟩

/-- Lowering instructions leaves nothing for later and, unless the buffer failed, lays their code. -/
theorem instructions_laid {code : List Instruction} (hr : Ready L s) (hsize : 16 ≤ s.prog.frameSize.toInt)
    (hint : ∀ i ∈ code, i.Integral s.prog.frameSize) (h : instructions code t s = .ok ((), s')) :
    Quiet s' ∧ (s'.asm.buf.failed = false → ∃ L' place, Ready L' s' ∧ Extends L s L' s' ∧
      place 0 = L.pieces.length ∧ Laid s.prog.frameSize s'.labels code L' place) := by
  induction code generalizing L s with
  | nil =>
    obtain ⟨-, rfl⟩ := pure_eq_ok.mp h
    refine ⟨hr.quiet, fun _ => ⟨L, fun _ => L.pieces.length, hr, extends_refl L s', rfl, ?_⟩⟩
    intro n i hi
    cases hi
  | cons i rest ih =>
    obtain ⟨s1, hi, hrest⟩ := instructions_cons hr.holds.spells.working h
    obtain ⟨hquiet, hwrites⟩ := instruction_writes hr hsize (hint i List.mem_cons_self) hi
    cases hf : s1.asm.buf.failed with
    | true =>
      obtain rfl := instructions_failed hf hrest
      exact ⟨hquiet, fun hworking => by rw [hf] at hworking; cases hworking⟩
    | false =>
      obtain ⟨L1, hr1, hext, htranslated⟩ := hwrites hf
      have hrestInt : ∀ i ∈ rest, i.Integral s1.prog.frameSize := fun j hj => by
        rw [hext.prog]
        exact hint j (List.mem_cons_of_mem _ hj)
      obtain ⟨hquiet', hlaid⟩ := ih hr1 (by rw [hext.prog]; exact hsize) hrestInt hrest
      refine ⟨hquiet', fun hworking => ?_⟩
      obtain ⟨L', place, hr', hext', hplace, hlaid⟩ := hlaid hworking
      rw [hext.prog] at hlaid
      refine ⟨L', fun n => n.casesOn L.pieces.length place, hr', hext.trans hext', rfl, ?_⟩
      -- the first instruction by what was just written, the others by induction
      intro n j hj
      cases n with
      | zero =>
        cases hj
        exact ⟨L, L1, htranslated.mono hext'.labels, rfl, hplace.symm, hext'.pieces, hext'.marks⟩
      | succ n => exact hlaid n j hj

end

/-! ## Code in memory -/

/-- The frame does not lie over the code. -/
def StackFrame.Clear (F : StackFrame) (start : UInt64) (n : Nat) : Prop :=
  ∀ i < n, ¬ F.Contains (start + UInt64.ofNat i)

/-- Code that is loaded stays loaded as long as only the frame is written to. -/
theorem Machine.Loaded.keep {M m : Machine} {start : UInt64} {bytes : Array UInt8} {F : StackFrame}
    (h : M.Loaded start bytes) (hclear : F.Clear start bytes.size)
    (hmem : ∀ addr, ¬ F.Contains addr → m.mem addr = M.mem addr) : m.Loaded start bytes := by
  intro i hi
  rw [hmem _ (hclear i hi)]
  exact h i hi

section
variable {L : Layout} {a : Assembler} {F : StackFrame} {m m' : Machine} {start : UInt64} {is : List Inst} {k : Nat}

theorem Holds.steps_runs (h : Holds L a) (hM : m.Loaded start a.buf.bytes) (hclear : F.Clear start a.buf.bytes.size)
    (hvalid : Valid is) (hp : ∀ j i, is[j]? = some i → L.pieces[k + j]? = some (.word i.word))
    (hpc : m.pc = start + UInt64.ofNat (4 * k)) (hruns : Runs F.Contains is m m') : m.steps is.length = some m' := by
  induction hruns generalizing k with
  | nil m => rfl
  | @cons i is m m1 m' hexec hnext hmem _ ih =>
    have hstep : m.step = some m1 := by
      rw [step_of_decode (i := i) ?_, hexec]
      rw [h.fetch hM (hp 0 i rfl) hpc]
      exact hvalid i List.mem_cons_self
    have hrest : m1.steps is.length = some m' := by
      refine ih (k := k + 1) (hM.keep hclear hmem) (fun j hj => hvalid j (List.mem_cons_of_mem _ hj)) ?_ ?_
      · intro j i hi
        rw [Nat.add_right_comm]
        exact hp (j + 1) i hi
      · rw [hnext, hpc, pc_next]
    rw [List.length_cons, Nat.add_comm, steps_add, steps_one, hstep]
    exact hrest

/-- Straight-line code at its place in the layout. -/
theorem Holds.steps_plain (h : Holds L a) (hM : m.Loaded start a.buf.bytes) (hclear : F.Clear start a.buf.bytes.size)
    (hvalid : Valid is) {ps : List Piece} (hp : ps ++ plain is <+: L.pieces)
    (hpc : m.pc = start + UInt64.ofNat (4 * ps.length)) (hruns : Runs F.Contains is m m') :
    m.steps is.length = some m' ∧ m'.pc = start + UInt64.ofNat (4 * (ps ++ plain is).length) := by
  obtain ⟨rest, hrest⟩ := hp
  refine ⟨h.steps_runs hM hclear hvalid (fun j i hi => getElem?_plain hrest.symm hi) hpc hruns, ?_⟩
  rw [hruns.pc, hpc, UInt64.add_assoc, ← UInt64.ofNat_add, List.length_append, length_plain, Nat.mul_add]

end

/-! ## One instruction -/

/-- The machine is back at its caller, with the result where results are returned. -/
structure Left (F : StackFrame) (M : Machine) (result : Option UInt64) (m : Machine) : Prop where
  /-- A jump to an address clears its lowest bit, which addresses of code have clear. -/
  pc : m.pc = M.get .ra &&& ~~~1
  home : M.get .ra % 2 = 0 → m.pc = M.get .ra
  sp : m.get .sp = M.get .sp
  fp : m.get .fp = M.get .fp
  result : ∀ v, result = some v → m.get (.x 10) = v
  outside : ∀ addr, ¬ F.Contains addr → m.mem addr = M.mem addr

/-- The machine, which entered the method as `M`, is as far as the execution: at the place of the
instruction that is next and in agreement with the activation, or back at its caller. -/
def Matches (F : StackFrame) (M : Machine) (start : UInt64) (place : Nat → Nat) : Standing → Machine → Prop
  | .running σ, m => m.pc = start + UInt64.ofNat (4 * place σ.next) ∧ Agrees F M σ m
  | .returned result, m => Left F M result m

section
variable {p : Program} {i : Instruction} {σ σ' : Activation}

theorem write_next {v : UInt64} {o : Operand} (h : σ.write v o = some σ') : σ'.next = σ.next := by
  cases o with
  | register k r hi =>
    cases r <;> cases h
    all_goals rfl
  | stack k n => cases k <;> cases h <;> rfl
  | _ => cases h

theorem effect_next (h : i.effect σ = some σ') : σ'.next = σ.next := by
  unfold Instruction.effect at h
  split at h
  · cases h
    rfl
  · obtain ⟨v, -, hwrite⟩ := Option.bind_eq_some_iff.mp h
    exact write_next hwrite

theorem step?_straight (hi : p.code[σ.next]? = some i) (hop : i.op.isStraight) :
    p.step? σ = (i.effect σ).map fun σ' => .running σ'.advance := by
  obtain ⟨hlabel, hbranch, hcmp, hret⟩ := hop
  rw [step?, hi, Instruction.effect]
  dsimp only [bind, Option.bind]
  split
  case _ h => exact absurd h hlabel
  case _ h => rw [if_pos h, Option.map_some]
  case _ h => exact absurd h hbranch
  case _ h => exact absurd h hcmp
  case _ h => exact absurd h hret
  case _ hnop _ _ _ =>
    rw [if_neg hnop, Instruction.assigns]
    cases σ.value i with
    | none => rfl
    | some v => cases h : σ.write v i.result <;> simp [h]

theorem step?_label (hi : p.code[σ.next]? = some i) (hop : i.op = .label) : p.step? σ = some (.running σ.advance) := by
  rw [step?, hi]
  simp [hop]

theorem step?_jump (hi : p.code[σ.next]? = some i) (hop : i.op = .branch ∨ i.op = .cmpBranch ∧ i.cond = .always) :
    p.step? σ = p.jump? i.target σ := by
  rw [step?, hi]
  rcases hop with hop | ⟨hop, hcond⟩
  · simp [hop]
  · simp [hop, Activation.decides, hcond]

theorem step?_branch (hi : p.code[σ.next]? = some i) (hop : i.op = .cmpBranch) :
    p.step? σ = (σ.decides i).bind fun b => if b then p.jump? i.target σ else some (.running σ.advance) := by
  rw [step?, hi]
  simp [hop]

theorem step?_ret (hi : p.code[σ.next]? = some i) (hop : i.op = .ret) : p.step? σ = match i.inputs[0]? with
    | none => some (.returned none)
    | some o => (σ.read o).map fun v => .returned (some v) := by
  rw [step?, hi]
  cases hin : i.inputs[0]? with
  | none => simp [hop, hin]
  | some o => cases h : σ.read o <;> simp [hop, hin, h]

end

section
variable {L : Layout} {a : Assembler} {F : StackFrame} {M m : Machine} {start : UInt64} {place : Nat → Nat}
  {frame : Int64} {labels : List (LabelId × Label)} {p : Program} {σ : Activation} {S : Standing}

variable {l : Label} {n : Nat}

/-- A label of the program is bound at the place of its instruction. -/
theorem Laid.mark_of_place (h : Laid frame labels p.code.toList L place) {id : LabelId} (hl : labels.lookup id = some l)
    (hn : p.place? id = some n) : L.mark l = some (place n) := by
  obtain ⟨hlt, hi, -⟩ := List.findIdx?_eq_some_iff_getElem.mp hn
  have hi := of_decide_eq_true hi
  obtain ⟨L1, L2, htranslated, hstart, -, -, hmarks⟩ := h n _ (List.getElem?_eq_getElem hlt)
  rw [← hstart]
  have hop {P : Prop} : (p.code.toList[n]).op ≠ .label → P := fun hne => absurd hi.1 hne
  cases htranslated with
  | label _ hl' hknown hmark _ =>
    rw [hi.2, hl] at hl'
    cases hl'
    exact hmarks l _ hknown hmark
  | straight hstraight => exact hop hstraight.1
  | jump hjump => exact hop (by rcases hjump with e | ⟨e, -⟩ <;> rw [e] <;> decide)
  | branch e => exact hop (by rw [e]; decide)
  | ret e => exact hop (by rw [e]; decide)

/-- Going on at a label is being at the place where it is bound. -/
theorem Laid.jump (h : Laid frame labels p.code.toList L place) (start : UInt64) (hagree : Agrees F M σ m) {id : LabelId}
    (hl : labels.lookup id = some l) (hstep : p.jump? id σ = some S) :
    ∃ n, L.mark l = some n ∧ Matches F M start place S { m with pc := start + UInt64.ofNat (4 * n) } := by
  obtain ⟨n, hn, rfl⟩ := Option.map_eq_some_iff.mp hstep
  exact ⟨place n, h.mark_of_place hl hn, rfl, (hagree.withNext n).withPc _⟩

/-- A return leads back to the caller. -/
theorem Left.of_restored {m1 : Machine} {result : Option UInt64} (hrestored : Restored M m m1) (hagree : Agrees F M σ m)
    (hresult : ∀ v, result = some v → m.get (.x 10) = v) :
    ∃ m', m1.exec returnJump = some m' ∧ Left F M result m' := by
  have hpc : (m1.get .ra + 0) &&& ~~~1 = M.get .ra &&& ~~~1 := by rw [UInt64.add_zero, hrestored.ra]
  refine ⟨_, rfl, hpc, fun heven => hpc.trans (and_not_one heven), ?_, ?_, fun v hv => ?_, fun addr haddr => ?_⟩
  · exact (get_withPc m1 _ _).trans hrestored.sp
  · exact (get_withPc m1 _ _).trans hrestored.fp
  · rw [← hresult v hv, ← hrestored.rest (.x 10) (by decide)]
    exact get_withPc m1 _ _
  · rw [← hagree.outside addr haddr, ← hrestored.mem]
    rfl

/-- What a method returns is in the register of results. -/
theorem step?_returns {i : Instruction} (hagree : Agrees F M σ m) (hi : p.code[σ.next]? = some i) (hop : i.op = .ret)
    (hres : ∀ o, i.inputs[0]? = some o → ∃ k hi, o = Operand.register k (.x 10) hi) (hstep : p.step? σ = some S) :
    ∃ result, S = .returned result ∧ ∀ v, result = some v → m.get (.x 10) = v := by
  rw [step?_ret hi hop] at hstep
  cases hin : i.inputs[0]? with
  | none =>
    rw [hin] at hstep
    cases hstep
    exact ⟨none, rfl, nofun⟩
  | some o =>
    rw [hin] at hstep
    obtain ⟨k, hi, rfl⟩ := hres o hin
    obtain ⟨v, hv, rfl⟩ := Option.map_eq_some_iff.mp hstep
    refine ⟨some v, rfl, fun w hw => ?_⟩
    cases hw
    have hreg : σ.reg (.x 10) = v := by
      unfold Activation.read at hv
      split at hv <;> simp_all
    rw [← hreg]
    exact hagree.reg rfl (.inr (by decide))

/-- The code ends in a return, which leads back to the caller. -/
theorem Holds.steps_ret (hL : Holds L a) (hloaded : m.Loaded start a.buf.bytes) (hclear : F.Clear start a.buf.bytes.size)
    (hagree : Agrees F M σ m) {is : List Inst} (hvalid : Valid (is ++ [returnJump])) {ps : List Piece}
    (hp : ps ++ plain (is ++ [returnJump]) <+: L.pieces) (hpc : m.pc = start + UInt64.ofNat (4 * ps.length))
    {m1 : Machine} (hruns : Runs F.Contains is m m1) (hrestored : Restored M m m1) {result : Option UInt64}
    (hresult : ∀ v, result = some v → m.get (.x 10) = v) : ∃ n m', m.steps n = some m' ∧ Left F M result m' := by
  rw [plain, List.map_append, ← List.append_assoc] at hp
  obtain ⟨hsteps, hpc1⟩ := hL.steps_plain hloaded hclear (fun i hi => hvalid i (List.mem_append_left _ hi))
    ((List.prefix_append _ _).trans hp) hpc hruns
  obtain ⟨m', hexec, hleft⟩ := Left.of_restored hrestored hagree hresult
  refine ⟨is.length + 1, m', ?_, hleft⟩
  have hword : L.pieces[(ps ++ plain is).length]? = some (.word returnJump.word) := by
    obtain ⟨rest, hrest⟩ := hp
    rw [← hrest, ← plain, List.append_assoc, List.getElem?_append_right (Nat.le_refl _), Nat.sub_self]
    rfl
  rw [steps_add, hsteps, Option.bind_some, steps_one, step_of_decode (i := returnJump) ?_, hexec]
  rw [hL.fetch (hloaded.keep hclear fun addr => hruns.outside) hword hpc1]
  exact hvalid _ (List.mem_append_right _ (List.mem_singleton.mpr rfl))

/-- Every label of the program that the code refers to is bound. -/
def Bound (labels : List (LabelId × Label)) (L : Layout) : Prop :=
  ∀ id l, labels.lookup id = some l → L.uses l ≠ [] → ∃ n, L.mark l = some n

/-- A conditional branch refers to its label, in either form. -/
theorem uses_bcond {o : Op} {r1 r2 : Reg} {L1 : Layout} (h : (L1.after (.bcond o r1 r2 l)).pieces <+: L.pieces) :
    L.uses l ≠ [] := by
  have hmem (j : Nat) (q : Piece) (u : LabelUse) (hq : (L1.after (.bcond o r1 r2 l)).pieces[j]? = some q)
      (hl : q.label? = some l) (hu : q.use? j = some u) : L.uses l ≠ [] := by
    obtain ⟨rest, hrest⟩ := h
    refine List.ne_nil_of_mem (Layout.mem_uses.mpr ⟨j, q, ?_, hl, hu⟩)
    rw [← hrest, List.getElem?_append_left (List.getElem?_eq_some_iff.mp hq).1, hq]
  cases hnear : L1.near l with
  | true =>
    rw [show L1.after (.bcond o r1 r2 l) = L1.write [.branch o r1 r2 l] from if_pos hnear] at hmem
    refine hmem L1.pieces.length (.branch o r1 r2 l) _ ?_ rfl rfl
    exact List.getElem?_concat_length
  | false =>
    rw [show L1.after (.bcond o r1 r2 l) = L1.write [.word (o.negated.encode .none r1 r2 8 0), .jump .zr l] from
      if_neg (by rw [hnear]; decide)] at hmem
    refine hmem (L1.pieces.length + 1) (.jump .zr l) _ ?_ rfl rfl
    rw [Layout.write, List.getElem?_append_right (by omega), Nat.add_sub_cancel_left]
    rfl

/-- One instruction of the program is some steps of the machine. -/
theorem Laid.step (h : Laid frame labels p.code.toList L place) (hL : Holds L a) (hM : M.Loaded start a.buf.bytes)
    (hclear : F.Clear start a.buf.bytes.size) (hbound : Bound labels L) (hsize : 16 ≤ frame.toInt)
    (hF : F = M.frame frame hsize) (hmatch : Matches F M start place (.running σ) m) (hstep : p.step? σ = some S) :
    ∃ n m', m.steps n = some m' ∧ Matches F M start place S m' := by
  obtain ⟨hpc, hagree⟩ := hmatch
  have hfits : F.Fits frame := by
    rw [hF]
    exact Int.toNat_of_nonneg (by omega)
  have hloaded := hM.keep hclear hagree.outside
  obtain ⟨i, hi⟩ : ∃ i, p.code[σ.next]? = some i := by
    cases hi : p.code[σ.next]? with
    | some i => exact ⟨i, rfl⟩
    | none =>
      rw [step?, hi] at hstep
      cases hstep
  obtain ⟨L1, L2, htranslated, hplace, hplace', hpieces, hmarks⟩ := h σ.next i (by rw [Array.getElem?_toList]; exact hi)
  rw [← hplace] at hpc
  cases htranslated with
  | label hop hl hknown hmark hsame =>
    rw [step?_label hi hop] at hstep
    cases hstep
    refine ⟨0, m, rfl, ?_, hagree.withNext _⟩
    show m.pc = start + UInt64.ofNat (4 * place (σ.next + 1))
    rw [hpc, ← hplace', hsame]
  | straight hop hvalid hwritten hrealizes =>
    rw [step?_straight hi hop] at hstep
    obtain ⟨σ', hσ', rfl⟩ := Option.map_eq_some_iff.mp hstep
    obtain ⟨m', hruns, hagree'⟩ := hrealizes F M hfits σ σ' m hagree hσ'
    rw [hwritten] at hpieces hplace'
    obtain ⟨hsteps, hpc'⟩ := hL.steps_plain hloaded hclear hvalid hpieces hpc hruns
    refine ⟨_, m', hsteps, ?_, hagree'.withNext _⟩
    show m'.pc = start + UInt64.ofNat (4 * place (σ'.next + 1))
    rw [hpc', hplace', effect_next hσ']
  | jump hop hl hwritten =>
    rw [step?_jump hi hop] at hstep
    obtain ⟨n, hn, hmatch⟩ := h.jump start hagree hl hstep
    obtain ⟨rest, hrest⟩ := hpieces
    refine ⟨1, _, ?_, hmatch⟩
    rw [steps_one]
    refine hL.step_jump hloaded ?_ hn hpc
    rw [← hrest, hwritten, List.append_assoc, List.getElem?_append_right (Nat.le_refl _), Nat.sub_self]
    rfl
  | branch hop hvalid hdecides hl hbrought hlegal hwritten =>
    rw [step?_branch hi hop] at hstep
    obtain ⟨b, hb, hstep⟩ := Option.bind_eq_some_iff.mp hstep
    obtain ⟨m1, hruns, hagree1, rfl⟩ := hdecides F M hfits σ m b hagree hb
    rw [hwritten] at hpieces hplace'
    obtain ⟨n, hn⟩ := hbound _ _ hl (uses_bcond hpieces)
    obtain ⟨ps, hps⟩ := pieces_after _ _
    rw [hps, hbrought] at hpieces
    obtain ⟨hsteps, hpc1⟩ := hL.steps_plain hloaded hclear hvalid ((List.prefix_append _ _).trans hpieces) hpc hruns
    rw [← hbrought] at hpc1
    obtain ⟨rest, hrest⟩ := hpieces
    rw [← hbrought, ← hps] at hrest
    obtain ⟨k, -, hk⟩ := hL.branch_goes (hM.keep hclear hagree1.outside) hlegal hrest.symm hn hpc1
    refine ⟨_, _, by rw [steps_add, hsteps, Option.bind_some, hk], ?_⟩
    split at hstep
    · rename_i htaken
      obtain ⟨n', hn', hmatch⟩ := h.jump start hagree1 hl hstep
      rw [hn] at hn'
      cases hn'
      rw [if_pos htaken]
      exact hmatch
    · rename_i htaken
      cases hstep
      rw [if_neg htaken]
      refine ⟨?_, (hagree1.withNext _).withPc _⟩
      show start + _ = start + UInt64.ofNat (4 * place (σ.next + 1))
      rw [hplace']
  | ret hop hvalid hleaves hres hwritten =>
    obtain ⟨result, rfl, hresult⟩ := step?_returns hagree hi hop hres hstep
    subst hF
    obtain ⟨m1, hruns, hrestored⟩ := hleaves hsize M σ m hagree
    rw [hwritten] at hpieces
    exact hL.steps_ret hloaded hclear hagree hvalid hpieces hpc hruns hrestored hresult

/-! ## Whole executions -/

theorem Program.run?_le (h : p.run? σ n = some S) : ∀ i ≤ n, ∃ S', p.run? σ i = some S' := by
  induction n generalizing S with
  | zero =>
    intro i hi
    rw [Nat.le_zero.mp hi]
    exact ⟨S, h⟩
  | succ n ih =>
    intro i hi
    rcases Nat.le_succ_iff.mp hi with hi | rfl
    · cases hn : p.run? σ n with
      | none =>
        rw [run?, hn] at h
        cases h
      | some S' => exact ih hn i hi
    · exact ⟨S, h⟩

/-- The machine goes through the execution: `times i` steps after it entered, it is as far as the
execution is after `i` instructions. -/
structure GoesThrough (F : StackFrame) (M : Machine) (start : UInt64) (place : Nat → Nat) (p : Program)
    (σ : Activation) (n : Nat) (times : Nat → Nat) : Prop where
  onward : ∀ i j, i ≤ j → times i ≤ times j
  reached : ∀ i ≤ n, ∃ S m, p.run? σ i = some S ∧ M.steps (times i) = some m ∧ Matches F M start place S m

/-- An execution goes on for one more instruction. -/
theorem GoesThrough.extend {times : Nat → Nat} (h : GoesThrough F M start place p σ n times) {d : Nat} {m : Machine}
    (hrun : p.run? σ (n + 1) = some S) (hsteps : M.steps (times n + d) = some m) (hmatch : Matches F M start place S m) :
    GoesThrough F M start place p σ (n + 1) fun i => if i ≤ n then times i else times n + d := by
  constructor
  · intro i j hij
    by_cases hi : i ≤ n
    · have hlast := h.onward i n hi
      have hnext := h.onward i j hij
      simp only [if_pos hi]
      split <;> omega
    · simp only [if_neg hi, if_neg (show ¬ j ≤ n by omega)]
      exact Nat.le_refl _
  · intro i hi
    rcases Nat.le_succ_iff.mp hi with hi | rfl
    · simp only [if_pos hi]
      exact h.reached i hi
    · simp only [Nat.succ_eq_add_one, if_neg (Nat.not_succ_le_self n)]
      exact ⟨S, m, hrun, hsteps, hmatch⟩

/-- A machine that matches the start of an execution goes through all of it. -/
theorem Laid.run (h : Laid frame labels p.code.toList L place) (hL : Holds L a) (hM : M.Loaded start a.buf.bytes)
    (hclear : F.Clear start a.buf.bytes.size) (hbound : Bound labels L) (hsize : 16 ≤ frame.toInt)
    (hF : F = M.frame frame hsize) {k : Nat} (hk : M.steps k = some m) (hmatch : Matches F M start place (.running σ) m)
    (hrun : p.run? σ n = some S) : ∃ times, times 0 = k ∧ GoesThrough F M start place p σ n times := by
  induction n generalizing S with
  | zero =>
    refine ⟨fun _ => k, rfl, ⟨fun _ _ _ => Nat.le_refl k, fun i hi => ?_⟩⟩
    rw [Nat.le_zero.mp hi]
    exact ⟨_, m, rfl, hk, hmatch⟩
  | succ n ih =>
    obtain ⟨S1, hS1⟩ := Program.run?_le hrun n (Nat.le_succ n)
    obtain ⟨times, hstart, hthrough⟩ := ih hS1
    obtain ⟨S2, m2, hS2, hm2, hmatch2⟩ := hthrough.reached n (Nat.le_refl n)
    rw [hS1] at hS2
    cases hS2
    have hstep := hrun
    rw [run?, hS1] at hstep
    cases S1 with
    | returned result => cases hstep
    | running σ1 =>
      obtain ⟨d, m', hd, hmatch'⟩ := h.step hL hM hclear hbound hsize hF hmatch2 hstep
      refine ⟨_, ?_, hthrough.extend hrun (d := d) ?_ hmatch'⟩
      · exact (if_pos (Nat.zero_le n)).trans hstart
      · rw [steps_add, hm2, Option.bind_some, hd]

end

end RiscvJit
