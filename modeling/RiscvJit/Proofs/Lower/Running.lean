import RiscvJit.Proofs.Code.Among
import RiscvJit.Proofs.Code.Effects
import RiscvJit.Proofs.Lower.Grown

/-
  RiscvJit.Proofs.Lower.Running — running code that was lowered.

  Seen from a state of lowering, lowering is work on the assembler (`Lower.asmFrom`), so what was said
  of running such work carries over: `S.Lowers x m E Q` says of lowering `x` that a machine in front
  of its code comes to its end with `Q`, or leaves it with `E`, whatever else lowering keeps track
  of. The rules for sequences and labels are those of `Site.Does`. In the same way `S.Proceeds C x m E Q`
  carries over what was said of running among other threads.
-/

namespace RiscvJit

open Lower

namespace Lower

variable {α β : Type} {t : Target} {s s' : Lowering} {a a' : Assembler}

/-- Lowering from a state, as work on the assembler. -/
def asmFrom (x : Lower α) (s : Lowering) : Asm (α × Lowering) := fun t a =>
  match x t { s with asm := a } with
  | .ok (r, s') => .ok ((r, s'), s'.asm)
  | .error e => .error e

theorem asmFrom_eq_ok {x : Lower α} {r : α} : x.asmFrom s t a = .ok ((r, s'), a') ↔
    x t { s with asm := a } = .ok (r, s') ∧ a' = s'.asm := by
  unfold asmFrom
  cases x t { s with asm := a } with
  | error e => simp
  | ok p =>
    obtain ⟨q, s1⟩ := p
    simp only [Except.ok.injEq, Prod.mk.injEq]
    constructor
    · rintro ⟨⟨rfl, rfl⟩, rfl⟩
      exact ⟨⟨rfl, rfl⟩, rfl⟩
    · rintro ⟨⟨rfl, rfl⟩, rfl⟩
      exact ⟨⟨rfl, rfl⟩, rfl⟩

variable (x : Lower α)

theorem asmFrom_bind (f : α → Lower β) (s : Lowering) :
    (x >>= f).asmFrom s = x.asmFrom s >>= fun p => (f p.1).asmFrom p.2 := by
  funext t a
  show (match (x t { s with asm := a } >>= fun p => f p.1 t p.2) with
    | .ok (r, s') => .ok ((r, s'), s'.asm)
    | .error e => .error e) = (x.asmFrom s t a >>= fun p => (f p.1.1).asmFrom p.1.2 t p.2)
  unfold asmFrom
  cases x t { s with asm := a } with
  | error e => rfl
  | ok p => rfl

theorem asm_eq (x : Asm α) : (liftM x : Lower α) t s = (x t s.asm).map fun p => (p.1, { s with asm := p.2 }) := by
  simp only [liftM, monadLift, MonadLift.monadLift]
  cases x t s.asm <;> rfl

/-- Writing code comes to the same in both. -/
theorem asmFrom_asm_bind (x : Asm α) (f : α → Lower β) (s : Lowering) :
    ((liftM x : Lower α) >>= f).asmFrom s = x >>= fun r => (f r).asmFrom s := by
  rw [asmFrom_bind]
  funext t a
  show ((liftM x : Lower α).asmFrom s t a >>= fun p => (f p.1.1).asmFrom p.1.2 t p.2) = (x t a >>=
    fun p => (f p.1).asmFrom s t p.2)
  unfold asmFrom
  rw [asm_eq]
  cases x t a <;> rfl

theorem asmFrom_label (l : Label) (f : α → Lower β) (s : Lowering) :
    (x >>= fun r => (liftM (Asm.bind l) : Lower Unit) >>= fun _ => f r).asmFrom s =
      x.asmFrom s >>= fun p => Asm.bind l >>= fun _ => (f p.1).asmFrom p.2 := by
  rw [asmFrom_bind]
  congr 1
  funext p
  exact asmFrom_asm_bind (Asm.bind l) (fun _ => f p.1) p.2

/-- What the lowering wrote, when it ended normally, is a list of items. -/
class Traced (x : Lower α) : Prop where
  asmFrom : ∀ s, (x.asmFrom s).Traced

instance traced_asm (x : Asm α) [htraced : x.Traced] : Traced (liftM x : Lower α) where
  asmFrom s := ⟨fun t a r a' ha h => by
    obtain ⟨hx, rfl⟩ := asmFrom_eq_ok.mp h
    obtain ⟨b, hb, e⟩ := asm_eq_ok.mp hx
    rw [e]
    exact htraced.trace t a r.1 b ha hb⟩

/-- What only looks at the state writes nothing. -/
theorem traced_keep {x : Lower α} (h : ∀ t s r s', x t s = .ok (r, s') → s'.asm = s.asm) : Traced x where
  asmFrom s := ⟨fun t a r a' _ hrun => by
    obtain ⟨hx, rfl⟩ := asmFrom_eq_ok.mp hrun
    rw [h t _ _ _ hx]
    exact ⟨[], .nil _, fun _ => List.not_mem_nil⟩⟩

instance traced_lift (e : Except Fault α) : Traced (liftM e : Lower α) := traced_keep fun _ _ _ _ h =>
  (lift_eq_ok.mp h).2 ▸ rfl

instance traced_throw (f : Fault) : Traced (throw f : Lower α) := traced_keep fun _ _ _ _ h => nomatch h

instance traced_pure (r : α) : Traced (pure r : Lower α) := traced_keep fun _ _ _ _ h => (pure_eq_ok.mp h).2 ▸ rfl

instance traced_read : Traced (read : Lower Target) := traced_keep fun _ _ _ _ h => by cases h; rfl

instance traced_get : Traced (get : Lower Lowering) := traced_keep fun _ _ _ _ h => by cases h; rfl

instance traced_addSlowPath (path : SlowPath) : Traced (addSlowPath path) := traced_keep fun _ _ _ _ h => by cases h; rfl

instance traced_bind (x : Lower α) (f : α → Lower β) [hx : Traced x] [hf : ∀ r, Traced (f r)] : Traced (x >>= f) where
  asmFrom s := by
    rw [asmFrom_bind]
    exact @Asm.traced_bind _ _ _ _ (hx.asmFrom s) fun p => (hf p.1).asmFrom p.2

instance traced_seq (x : Lower α) (y : Lower β) [Traced x] [Traced y] : Traced (x >>= fun _ => y) := traced_bind x _

instance traced_ite (c : Prop) [Decidable c] (x y : Lower α) [hx : Traced x] [hy : Traced y] :
    Traced (if c then x else y) := by
  split
  · exact hx
  · exact hy

/-- Recording a site changes at most the recorded maps. -/
theorem addSite_eq_ok {t : Target} {s s' : Lowering} {info : Option SiteInfo} {r : Unit}
    (h : addSite info t s = .ok (r, s')) :
    s'.asm = s.asm ∨ ∃ map, Asm.addOopMap map t s.asm = .ok ((), s'.asm) := by
  have h : addSiteAt (Int64.ofNat s.asm.buf.offset) info [] t s = .ok ((), s') := h
  cases info with
  | none =>
    obtain ⟨-, rfl⟩ := pure_eq_ok.mp h
    exact .inl rfl
  | some info =>
    rcases addSiteAt_eq_ok h with ⟨-, rfl⟩ | ⟨hw, map, maps, -, hmaps, rfl⟩
    · exact .inl rfl
    · refine .inr ⟨map, ?_⟩
      have hadd : Asm.change
          (fun a => return { a with oopMaps := ← a.oopMaps.add (Int64.ofNat a.buf.offset) map }) t s.asm =
          .ok ((), { s.asm with oopMaps := maps }) := by
        refine Asm.change_ok ?_
        rw [hmaps]
        rfl
      unfold Asm.addOopMap
      rw [Asm.bind_ok (show Asm.failed t s.asm = .ok (s.asm.buf.failed, s.asm) from rfl), hw]
      exact hadd

instance traced_addSite (info : Option SiteInfo) : Traced (addSite info) where
  asmFrom s := ⟨fun t a r a' _ h => by
    obtain ⟨hx, rfl⟩ := asmFrom_eq_ok.mp h
    rcases addSite_eq_ok hx with e | ⟨map, hadd⟩
    · rw [e]
      exact ⟨[], .nil _, fun _ => List.not_mem_nil⟩
    · exact ⟨[.map map], .cons trivial hadd (.nil _), by simp⟩⟩

instance traced_label (id : LabelId) : Traced (label id) where
  asmFrom s := ⟨fun t a r a' ha h => by
    obtain ⟨hx, rfl⟩ := asmFrom_eq_ok.mp h
    obtain ⟨-, e | ⟨-, b, hnew, e⟩⟩ := label_eq_ok hx
    · rw [e]
      exact ⟨[], .nil _, fun _ => List.not_mem_nil⟩
    · rw [e]
      exact Asm.traced_newLabel.trace t a _ b ha hnew⟩

instance traced_unwindLabel : Traced unwindLabel where
  asmFrom s := ⟨fun t a r a' ha h => by
    obtain ⟨hx, rfl⟩ := asmFrom_eq_ok.mp h
    obtain ⟨-, e | ⟨-, b, hnew, e⟩⟩ := unwindLabel_eq_ok hx
    · rw [e]
      exact ⟨[], .nil _, fun _ => List.not_mem_nil⟩
    · rw [e]
      exact Asm.traced_newLabel.trace t a _ b ha hnew⟩

theorem closed_traced : Closed false @Traced where
  pure := traced_pure
  lift e := traced_lift e
  asm x := traced_asm x
  bind hx hf := @traced_bind _ _ _ _ hx hf
  read _ hf := @traced_bind _ _ _ _ traced_read hf
  get _ hf := @traced_bind _ _ _ _ traced_get hf
  label := traced_label
  unwindLabel := traced_unwindLabel
  addSlowPath := traced_addSlowPath
  called e tmp info := by
    have : (Asm.entryAddress e >>= fun target => Asm.farCall target .ra (.x tmp)).Traced :=
      Asm.closed_traced.routine e 1 tmp
    infer_instance

instance (priority := low) traced_of_composed [hx : Composed false x] : Traced x := hx.has closed_traced

theorem Traced.trace {x : Lower α} (hx : Traced x) {r : α} (hb : s.asm.Behind) (h : x t s = .ok (r, s')) :
    ∃ items, Trace t items s.asm s'.asm := by
  obtain ⟨items, htrace, -⟩ := (hx.asmFrom s).trace t s.asm (r, s') s'.asm hb (asmFrom_eq_ok.mpr ⟨h, rfl⟩)
  exact ⟨items, htrace⟩

end Lower

namespace Site

variable {α β : Type} {S : Site} {m : Machine} {E E' : Exits}

/-- Run from the machine in front of it, the code that was lowered comes to its end, or is left. -/
def Lowers (S : Site) (x : Lower α) (m : Machine) (E : Exits) (Q : α → Machine → Prop) : Prop :=
  ∀ s, S.Does (x.asmFrom s) m E fun p => Q p.1

variable {x : Lower α} {r : α} {f : α → Lower β} {l : Label} {Q : α → Machine → Prop}

theorem Lowers.imp {Q' : α → Machine → Prop} (h : S.Lowers x m E Q) (hE : ∀ e m, E e m → E' e m)
    (hQ : ∀ r m, Q r m → Q' r m) : S.Lowers x m E' Q' := fun s => (h s).imp hE fun p => hQ p.1

theorem Lowers.run {s s' : Lowering} (h : S.Lowers x m E Q) (hrun : x S.target s = .ok (r, s')) (ha : S.Early s.asm)
    (ha' : S.Late s'.asm) (hat : S.At s.asm m) : ∃ m', S.world.Reaches m m' ∧ (S.At s'.asm m' ∧ Q r m' ∨ S.Leaves E m') :=
  h s s.asm (r, s') s'.asm (asmFrom_eq_ok.mpr ⟨hrun, rfl⟩) ha ha' hat

theorem lowers_asm {x : Asm α} (h : S.Does x m E Q) : S.Lowers (liftM x) m E Q := by
  intro s a p a' hrun ha ha' hat
  obtain ⟨hx, rfl⟩ := asmFrom_eq_ok.mp hrun
  obtain ⟨b, hb, e⟩ := asm_eq_ok.mp hx
  rw [e] at ha' ⊢
  exact h a p.1 b hb ha ha' hat

/-- What only looks at the state. -/
theorem lowers_silent (h : ∀ s r s', x S.target s = .ok (r, s') → s'.asm = s.asm ∧ Q r m) : S.Lowers x m E Q := by
  intro s a p a' hrun _ _ hat
  obtain ⟨hx, rfl⟩ := asmFrom_eq_ok.mp hrun
  obtain ⟨e, hq⟩ := h _ _ _ hx
  exact ⟨m, .refl _ _, .inl ⟨e ▸ hat, hq⟩⟩

theorem lowers_lift {e : Except Fault α} (h : ∀ r, e = .ok r → Q r m) : S.Lowers (liftM e) m E Q :=
  lowers_silent fun _ r _ hx => by
    obtain ⟨he, rfl⟩ := lift_eq_ok.mp hx
    exact ⟨rfl, h r he⟩

theorem lowers_pure (h : Q r m) : S.Lowers (pure r) m E Q :=
  lowers_silent fun _ _ _ hx => by
    obtain ⟨rfl, rfl⟩ := pure_eq_ok.mp hx
    exact ⟨rfl, h⟩

theorem lowers_read {Q : Target → Machine → Prop} (h : Q S.target m) : S.Lowers (read : Lower Target) m E Q :=
  lowers_silent fun _ _ _ hx => by
    cases hx
    exact ⟨rfl, h⟩

theorem Lowers.bind {Q : β → Machine → Prop} [hx : Traced x] [hf : ∀ r, Traced (f r)]
    (h : S.Lowers x m E fun r m' => S.Lowers (f r) m' E Q) : S.Lowers (x >>= f) m E Q := by
  intro s
  rw [asmFrom_bind]
  have := hx.asmFrom s
  have (p : α × Lowering) := (hf p.1).asmFrom p.2
  exact .bind ((h s).imp (fun _ _ h => h) fun p m' hrest => hrest p.2)

/-- What leaves lowered code for a label that is bound behind it goes on there. -/
theorem Lowers.label {Q : β → Machine → Prop} [hx : Traced x] [hf : ∀ r, Traced (f r)]
    (h : S.Binds l → S.Lowers x m (E.or (.label l) fun m' => ∀ r,
    S.Lowers (f r) m' E Q) fun r m' => S.Lowers (f r) m' E Q) :
    S.Lowers (x >>= fun r => liftM (Asm.bind l) >>= fun _ => f r) m E Q := by
  intro s
  rw [asmFrom_label]
  have := hx.asmFrom s
  have (p : α × Lowering) := (hf p.1).asmFrom p.2
  refine .label fun hl => (h hl s).imp (fun e m' hexit => ?_) fun p m' hrest => hrest p.2
  exact hexit.imp (fun ⟨he, hgo⟩ => ⟨he, fun p => hgo p.1 p.2⟩) id

/-- Lowered code that comes round to its first label, with an invariant whose number goes down. -/
theorem Lowers.loop [hx : Traced x] (I : Nat → Machine → Prop) {n : Nat}
    (h : S.Binds l → ∀ n m, I n m → S.Lowers x m (E.or (.label l) fun m' => ∃ k < n, I k m') Q) (hI : I n m) :
    S.Lowers ((liftM (Asm.bind l) : Lower Unit) >>= fun _ => x) m E Q := by
  intro s
  rw [asmFrom_asm_bind]
  have := hx.asmFrom s
  exact .loop I (fun hl n m hn => h hl n m hn s) hI

/-- What leaves lowered code for a label at its end is at its end. -/
theorem Lowers.labelLast {Q : Unit → Machine → Prop} [hx : Traced x]
    (h : S.Binds l → S.Lowers x m (E.or (.label l) (Q ())) fun _ => Q ()) :
    S.Lowers (x >>= fun _ => (liftM (Asm.bind l) : Lower Unit)) m E Q := by
  have hrun : S.Lowers (x >>= fun _ => (liftM (Asm.bind l) : Lower Unit) >>= fun r => pure r) m E Q :=
    .label (f := fun _ => pure ()) fun hl => (h hl).imp
      (fun e m' hexit => hexit.imp (fun ⟨he, hq⟩ => ⟨he, fun _ => lowers_pure hq⟩) id) fun _ _ hq => lowers_pure hq
  simpa only [bind_pure] using hrun

/-! ## Among other threads -/

variable {C : Company S}

/-- Run among others from the machine in front of it, the code that was lowered comes to its end, or is left. -/
def Proceeds (S : Site) (C : Company S) (x : Lower α) (m : Machine) (E : Exits) (Q : α → Machine → Prop) : Prop :=
  ∀ s, S.Goes C (x.asmFrom s) m E fun p => Q p.1

theorem proceeds_asm {x : Asm α} (h : S.Goes C x m E Q) : S.Proceeds C (liftM x) m E Q := by
  intro s a p a' hrun ha ha' hat
  obtain ⟨hx, rfl⟩ := asmFrom_eq_ok.mp hrun
  obtain ⟨b, hb, e⟩ := asm_eq_ok.mp hx
  rw [e] at ha' ⊢
  exact h a p.1 b hb ha ha' hat

theorem proceeds_silent (h : ∀ s r s', x S.target s = .ok (r, s') → s'.asm = s.asm ∧ Q r m) : S.Proceeds C x m E Q := by
  intro s a p a' hrun _ _ hat In K _ _ n hend _
  obtain ⟨hx, rfl⟩ := asmFrom_eq_ok.mp hrun
  obtain ⟨e, hq⟩ := h _ _ _ hx
  exact hend m (e ▸ hat) hq

theorem proceeds_lift {e : Except Fault α} (h : ∀ r, e = .ok r → Q r m) : S.Proceeds C (liftM e) m E Q :=
  proceeds_silent fun _ r _ hx => by
    obtain ⟨he, rfl⟩ := lift_eq_ok.mp hx
    exact ⟨rfl, h r he⟩

theorem proceeds_pure (h : Q r m) : S.Proceeds C (pure r) m E Q :=
  proceeds_silent fun _ _ _ hx => by
    obtain ⟨rfl, rfl⟩ := pure_eq_ok.mp hx
    exact ⟨rfl, h⟩

theorem Proceeds.bind {Q : β → Machine → Prop} [hx : Traced x] [hf : ∀ r, Traced (f r)]
    (h : S.Proceeds C x m E fun r m' => S.Proceeds C (f r) m' E Q) : S.Proceeds C (x >>= f) m E Q := by
  intro s
  rw [asmFrom_bind]
  have := hx.asmFrom s
  have (p : α × Lowering) := (hf p.1).asmFrom p.2
  exact .bind ((h s).imp (fun _ _ h => h) fun p m' hrest => hrest p.2)

/-- What leaves lowered code for a label that is bound behind it goes on there. -/
theorem Proceeds.label {Q : β → Machine → Prop} [hx : Traced x] [hf : ∀ r, Traced (f r)]
    (h : S.Binds l → S.Proceeds C x m (E.or (.label l) fun m' => ∀ r, S.Proceeds C (f r) m' E Q)
      fun r m' => S.Proceeds C (f r) m' E Q) : S.Proceeds C (x >>= fun r => liftM (Asm.bind l) >>=
        fun _ => f r) m E Q := by
  intro s
  rw [asmFrom_label]
  have := hx.asmFrom s
  have (p : α × Lowering) := (hf p.1).asmFrom p.2
  refine .label fun hl => (h hl s).imp (fun e m' hexit => ?_) fun p m' hrest => hrest p.2
  exact hexit.imp (fun ⟨he, hgo⟩ => ⟨he, fun p => hgo p.1 p.2⟩) id

end Site

end RiscvJit
