import RiscvJit.Proofs.Lower.Sites

/-
  RiscvJit.Proofs.Lower.Grown — lowering only adds, and keeps sites in order.

  Lowering an instruction takes the assembler a number of steps further, adds slow paths behind
  those that are there, and leaves the program alone (`Lowering.Grown`). It keeps sites in order
  (`Lowering.Sited`), and it never stops for two maps at one offset. `Lower.Grows` follows this
  through the lowering of every instruction, the slow paths and the unwind handler. Where a site is
  recorded, at least a word has been written since the last one.
-/

namespace RiscvJit

open Reg (ra)
open Lowering

namespace Lower

/-- The work only adds, and it keeps sites in order. -/
class Grows {α : Type} (x : Lower α) : Prop where
  leads : Leads Sited Sited x

section
variable {α β : Type}

theorem Grows.grown {x : Lower α} (h : Grows x) {t : Target} {s s' : Lowering} {r : α} (hx : x t s = .ok (r, s')) :
    Grown t s s' := h.leads.grown hx

instance grows_pure (r : α) : Grows (pure r : Lower α) := ⟨leads_pure r⟩

instance grows_lift (e : Except Fault α) [Tells e] : Grows (liftM e : Lower α) := ⟨leads_lift e⟩

instance grows_get : Grows (get : Lower Lowering) := ⟨leads_get⟩

instance grows_read : Grows (read : Lower Target) := ⟨leads_read⟩

instance grows_asm (x : Asm α) [Asm.Grows x] : Grows (liftM x : Lower α) := ⟨leads_sited x⟩

instance grows_bind (x : Lower α) (f : α → Lower β) [hx : Grows x] [hf : ∀ r, Grows (f r)] : Grows (x >>= f) :=
  ⟨hx.leads.bind fun r => (hf r).leads⟩

instance grows_seq (x : Lower α) (y : Lower β) [Grows x] [Grows y] : Grows (x >>= fun _ => y) := grows_bind x _

instance grows_ite (c : Prop) [Decidable c] (x y : Lower α) [hx : Grows x] [hy : Grows y] :
    Grows (if c then x else y) := by
  split
  · exact hx
  · exact hy

instance grows_throw (what : String) [Unlike what] : Grows (throw (.precondition what) : Lower α) :=
  grows_lift (.error (.precondition what))

instance grows_throwDefect (what : String) : Grows (throw (.defect what) : Lower α) := grows_lift (.error (.defect what))

/-- A site is recorded at the return address of a call. -/
instance grows_siteAfter (x : Asm Unit) [Asm.Grows x] [Asm.Writes x] (info : Option SiteInfo) :
    Grows ((liftM x : Lower Unit) >>= fun _ => addSite info) :=
  ⟨(leads_past x).bind fun _ => leads_addSite info []⟩

end

/-! ## Labels and slow paths -/

section
variable {t : Target} {s s' : Lowering}

variable {l : Label}

/-- A label of the program has a label of the assembler from when it is first used. -/
theorem label_eq_ok {id : LabelId} (h : label id t s = .ok (l, s')) : s'.labels.lookup id = some l ∧
    (s' = s ∨ s.labels.lookup id = none ∧ ∃ a, Asm.newLabel t s.asm = .ok (l, a) ∧
    s' = { s with asm := a, labels := (id, l) :: s.labels }) := by
  obtain ⟨_, _, hget, h⟩ := bind_eq_ok.mp h
  cases hget
  obtain ⟨_, -, h⟩ := lift_bind_eq_ok.mp h
  cases hfound : s.labels.lookup id with
  | some l' =>
    rw [hfound] at h
    obtain ⟨rfl, rfl⟩ := pure_eq_ok.mp h
    exact ⟨hfound, .inl rfl⟩
  | none =>
    rw [hfound] at h
    obtain ⟨l', _, hnew, h⟩ := bind_eq_ok.mp h
    obtain ⟨a, ha, rfl⟩ := asm_eq_ok.mp hnew
    cases h
    exact ⟨List.lookup_cons_self, .inr ⟨rfl, a, ha, rfl⟩⟩

/-- The unwind handler has a label of the assembler from when it is first used. -/
theorem unwindLabel_eq_ok (h : unwindLabel t s = .ok (l, s')) : s'.unwind = some l ∧
    (s' = s ∨ s.unwind = none ∧ ∃ a, Asm.newLabel t s.asm = .ok (l, a) ∧ s' = { s with asm := a, unwind := some l }) := by
  obtain ⟨_, _, hget, h⟩ := bind_eq_ok.mp h
  cases hget
  cases hfound : s.unwind with
  | some l' =>
    rw [hfound] at h
    obtain ⟨rfl, rfl⟩ := pure_eq_ok.mp h
    exact ⟨hfound, .inl rfl⟩
  | none =>
    rw [hfound] at h
    obtain ⟨l', _, hnew, h⟩ := bind_eq_ok.mp h
    obtain ⟨a, ha, rfl⟩ := asm_eq_ok.mp hnew
    cases h
    exact ⟨rfl, .inr ⟨rfl, a, ha, rfl⟩⟩

/-- What is kept besides the assembler and the sites may change. -/
theorem sited_keep (hs : s.Sited) (hasm : s'.asm = s.asm) (hsites : s'.sites = s.sites)
    (hlast : s'.lastSite = s.lastSite) :
    s'.Sited := fun hw => by
  obtain ⟨places, hplaces⟩ := hs (hasm ▸ hw)
  exact ⟨places, hplaces.keep (by rw [hasm]) (Nat.le_of_eq (by rw [hasm])) hsites hlast⟩

theorem sited_newLabel {a : Assembler} (hb : s.asm.Begun t) (hs : s.Sited) (h : Asm.newLabel t s.asm = .ok (l, a)) :
    Sited { s with asm := a } := (leads_sited Asm.newLabel).arrives hb hs (asm_eq_ok.mpr ⟨a, h, rfl⟩)

end

instance grows_label (id : LabelId) : Grows (label id) where
  leads := {
    grown := fun {t s l s'} h => by
      obtain ⟨-, rfl | ⟨hnone, a, ha, rfl⟩⟩ := label_eq_ok h
      · exact grown_refl _ _
      · refine ⟨Asm.grows_newLabel.grown ha, rfl, List.prefix_refl _, List.prefix_refl _,
          fun id' l' hl => ?_, fun _ h => h⟩
        -- the label that was made is none of those that were there
        have hne : (id' == id) = false := by
          rw [beq_eq_false_iff_ne]
          rintro rfl
          cases hnone.symm.trans hl
        rw [List.lookup_cons, hne]
        exact hl
    arrives := fun {t s l s'} hb hs h => by
      obtain ⟨-, rfl | ⟨-, a, ha, rfl⟩⟩ := label_eq_ok h
      · exact hs
      · exact sited_keep (sited_newLabel hb hs ha) rfl rfl rfl
    spared := fun {t s f} hb hs h => by
      have : Unlike "unknown label L" := ⟨'u', by decide, by decide⟩
      rcases bind_eq_error.mp h with h | ⟨_, _, hget, h⟩
      · cases h
      cases hget
      rcases bind_eq_error.mp h with h | ⟨_, s1, hcheck, h⟩
      · exact (leads_lift _).spared hb hs h
      obtain ⟨-, rfl⟩ := lift_eq_ok.mp hcheck
      cases hfound : s1.labels.lookup id with
      | some l =>
        rw [hfound] at h
        cases h
      | none =>
        rw [hfound] at h
        rcases bind_eq_error.mp h with h | ⟨_, _, -, h⟩
        · exact (leads_sited Asm.newLabel).spared hb hs h
        · cases h }

instance grows_unwindLabel : Grows unwindLabel where
  leads := {
    grown := fun {t s l s'} h => by
      obtain ⟨-, rfl | ⟨hnone, a, ha, rfl⟩⟩ := unwindLabel_eq_ok h
      · exact grown_refl _ _
      · refine ⟨Asm.grows_newLabel.grown ha, rfl, List.prefix_refl _, List.prefix_refl _, fun _ _ h => h, fun l' hl => ?_⟩
        cases hnone.symm.trans hl
    arrives := fun {t s l s'} hb hs h => by
      obtain ⟨-, rfl | ⟨-, a, ha, rfl⟩⟩ := unwindLabel_eq_ok h
      · exact hs
      · exact sited_keep (sited_newLabel hb hs ha) rfl rfl rfl
    spared := fun {t s f} hb hs h => by
      rcases bind_eq_error.mp h with h | ⟨_, _, hget, h⟩
      · cases h
      cases hget
      cases hfound : s.unwind with
      | some l =>
        rw [hfound] at h
        cases h
      | none =>
        rw [hfound] at h
        rcases bind_eq_error.mp h with h | ⟨_, _, -, h⟩
        · exact (leads_sited Asm.newLabel).spared hb hs h
        · cases h }

instance grows_addSlowPath (p : SlowPath) : Grows (addSlowPath p) where
  leads := {
    grown := fun h => by
      cases h
      refine ⟨.refl, rfl, ?_, List.prefix_refl _, fun _ _ h => h, fun _ h => h⟩
      rw [Array.toList_push]
      exact List.prefix_append ..
    arrives := fun _ hs h => by
      cases h
      exact sited_keep hs rfl rfl rfl
    spared := fun _ _ h => nomatch h }

/-! ## Instructions -/

theorem closed_grows : Closed true @Grows where
  pure := grows_pure
  lift e := grows_lift e
  asm x := grows_asm x
  bind hx hf := @grows_bind _ _ _ _ hx hf
  read _ hf := @grows_bind _ _ _ _ grows_read hf
  get _ hf := @grows_bind _ _ _ _ grows_get hf
  label := grows_label
  unwindLabel := grows_unwindLabel
  addSlowPath := grows_addSlowPath
  called e tmp info := by
    have : Asm.Grows (Asm.entryAddress e >>= fun target => Asm.farCall target ra (.x tmp)) :=
      Asm.closed_grows.routine e 1 tmp
    have : Asm.Writes (Asm.entryAddress e >>= fun target => Asm.farCall target ra (.x tmp)) :=
      Asm.Writes.second fun _ => Asm.writes_farCall ..
    exact grows_siteAfter _ info

instance (priority := low) grows_of_composed {α : Type} (x : Lower α) [hx : Composed true x] : Grows x :=
  hx.has closed_grows

variable (i : Instruction)

/-- The pc of the throw is a site. -/
instance grows_throwEx : Grows (throwEx i) := by
  unfold throwEx
  have hleave : Grows (do
      Asm.auipc exceptionPcReg 0
      Asm.rtCall (if (← get).prog.hasFpu then .handleException else .handleExceptionNoFpu)
      Asm.nop) := inferInstance
  have hthrow (ex : Operand) : Grows (do
      ensureUniquePc
      addSiteAt (← offset) i.info [ex]
      Asm.auipc exceptionPcReg 0
      Asm.rtCall (if (← get).prog.hasFpu then .handleException else .handleExceptionNoFpu)
      Asm.nop) :=
    ⟨leads_ensureUniquePc.bind fun _ => leads_siteThen i.info [ex] fun _ => hleave.leads⟩
  infer_instance

/-- The pc of the poll is a site. -/
instance grows_safepoint : Grows (safepoint i) := by
  unfold safepoint
  have hpoll (poll entry : Label) : Grows (do
      ensureUniquePc
      Asm.bind poll
      addSite i.info
      Asm.safepointPoll entry) :=
    ⟨leads_ensureUniquePc.bind fun _ => (leads_fresh (Asm.bind poll)).bind fun _ =>
      (leads_addSite i.info []).bind fun _ => leads_sited (Asm.safepointPoll entry)⟩
  infer_instance

instance grows_call : Grows (call i) := by
  have : Unlike "call without target" := ⟨'c', by decide, by decide⟩
  unfold call
  dsimp only
  refine @grows_bind _ _ _ _ inferInstance fun _ => @grows_bind _ _ _ _ grows_get fun s => ?_
  cases directDistance? s.asm ((i.call.map (·.target)).getD 0) <;> infer_instance

/-! ## Whole methods -/

instance grows_dispatch : Grows (dispatch i) := by
  unfold dispatch
  cases i.op <;> infer_instance

instance grows_instruction : Grows (instruction i) := by
  unfold instruction
  infer_instance

instance grows_instructions (is : List Instruction) : Grows (instructions is) := by
  induction is with
  | nil => exact grows_pure ()
  | cons i rest ih =>
    unfold instructions
    infer_instance

instance grows_emitSlowPath (p : SlowPath) : Grows (emitSlowPath p) :=
  closed_grows.emitSlowPath (fun target entry => by
    dsimp only [emitSlowPath]
    infer_instance) p

instance grows_emitSlowPaths (ps : List SlowPath) : Grows (emitSlowPaths ps) := by
  induction ps with
  | nil => exact grows_pure true
  | cons p rest ih =>
    unfold emitSlowPaths
    infer_instance

instance grows_releaseMonitor (monitorOffset : Int64) : Asm.Grows (releaseMonitor monitorOffset) := by
  unfold releaseMonitor
  dsimp only
  infer_instance

instance grows_unwindHandler (p : Program) (entry : Label) : Asm.Grows (unwindHandler p entry) := by
  unfold unwindHandler
  infer_instance

instance grows_emitUnwind (s : Lowering) : Grows (unwindStub s) := by
  unfold unwindStub
  cases s.unwind with
  | none => exact grows_pure ()
  | some entry =>
    dsimp only [stub]
    infer_instance

instance grows_checkLabels : Grows checkLabels := by
  have : Unlike "label L" := ⟨'l', by decide, by decide⟩
  unfold checkLabels
  refine @grows_bind _ _ _ _ grows_get fun s => ?_
  cases pendingLabel? s <;> (dsimp only; infer_instance)

end Lower

end RiscvJit
