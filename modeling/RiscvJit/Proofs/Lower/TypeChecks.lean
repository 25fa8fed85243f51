import RiscvJit.Proofs.Lower.ImplicitExceptions
import RiscvJit.Proofs.Lower.ReceiverRows

/-
  RiscvJit.Proofs.Lower.TypeChecks — instructions that test types.

  An instance test, a cast and the check of a store come down to the two subtype checks. A null leaves first, a class that
  passes may be counted in a profile, and a class that does not pass may lead to a slow path that throws. Which of these
  happens is what the hierarchy in memory says (`type_checks_decide`).

  A check may change the caches of descriptors and the stack below the stack pointer (`TypeCheck.Tested`). What it put into
  a cache is a supertype, so where a type was tested the next one may be (`Testing.later`). In a profile entry that is not on
  that stack the check notes what it found, and nothing else (`TypeCheck.Noted`).
-/

namespace RiscvJit

open Machine (Keeps get_withPc)
open Reg (zr ra sp t0 t1)
open Asm
open CodeBlob
open Site

/-! ## What is written -/

namespace Lower

/-- The check against a class, with a count of what passes. -/
def checkCounted (sub super : Reg) (tc : TypeCheck) (success failure : Label) : Lower Unit :=
  match tc.profile with
  | none => checkSubtypeStatic sub super tc.superCheckOffset tc.fast success failure
  | some p => do
    let passed ← newLabel
    checkSubtypeStatic sub super tc.superCheckOffset tc.fast passed failure
    Asm.bind passed
    profileReceiver p sub
    Asm.j success

variable (sub obj : Reg) (tc : TypeCheck) (res : Reg) (entry : Label) (value array elem tmp : Reg)
  (profile : Option ProfileSite)

instance traced_checkCounted (super : Reg) (success failure : Label) :
    Traced (checkCounted sub super tc success failure) := by
  unfold checkCounted
  split <;> infer_instance

theorem typeCheck_eq (onNull success failure : Label) : typeCheck obj tc onNull success failure = (do
    let super ← reg tc.tmp1 "klass temporary"
    let sub ← reg tc.tmp2 "object klass temporary"
    distinct "type check" [obj, super, sub]
    skipNull obj tc.profile onNull
    movptr super tc.klass
    loadKlass sub obj t0
    checkCounted sub super tc success failure) := rfl

set_option synthInstance.maxSize 512 in
instance seals_instanceOf (i : Instruction) : Seals (instanceOf i) := by
  unfold instanceOf
  infer_instance

/-- A cast once its slow path has an entry. -/
def castTo (res obj : Reg) (tc : TypeCheck) (entry : Label) : Lower Unit := do
  let success ← newLabel
  typeCheck obj tc success success entry
  Asm.bind success
  mv res obj

/-- A move after a label may be no instruction. -/
instance seals_moveAfter (l : Label) (rd rs : Reg) :
    Seals ((liftM (Asm.bind l) : Lower Unit) >>= fun _ => liftM (mv rd rs)) := by
  unfold mv
  split
  case isTrue =>
    have hnothing : (liftM (pure () : Asm Unit) : Lower Unit) = pure () := rfl
    rw [hnothing, bind_pure_unit]
    infer_instance
  case isFalse =>
    split
    · infer_instance
    · exact @seals_bind _ _ _ _ inferInstance fun _ => seals_of_spaces (Spaces.after fun _ => spaces_emit)

instance composed_castTo {b : Bool} : Composed b (castTo res obj tc entry) := by
  unfold castTo
  infer_instance

instance seals_castTo : Seals (castTo res obj tc entry) := by
  unfold castTo
  infer_instance

/-- The check of a store once its slow path has an entry. -/
def storeAllowed (value array elem sub tmp : Reg) (profile : Option ProfileSite) (entry : Label) : Lower Unit := do
  let done ← newLabel
  skipNull value profile done
  loadKlass elem array t0
  ld elem elem klassLayout.elementKlass
  loadKlass sub value t0
  match profile with
  | none => checkSubtypeDynamic sub elem tmp done entry
  | some p =>
    let passed ← newLabel
    checkSubtypeDynamic sub elem tmp passed entry
    Asm.bind passed
    profileReceiver p sub
  Asm.bind done

instance composed_storeAllowed {b : Bool} : Composed b (storeAllowed value array elem sub tmp profile entry) := by
  unfold storeAllowed
  cases profile <;> infer_instance

instance seals_storeAllowed : Seals (storeAllowed value array elem sub tmp profile entry) := by
  unfold storeAllowed
  cases profile <;> infer_instance

theorem emit_exception (e : RuntimeEntry) {obj : Reg} (hobj : obj.isValid = true) (info : Option SiteInfo)
    (entry : Label) :
    emitSlowPath (.exception e obj info entry) = (liftM (Asm.bind entry) : Lower Unit) >>= fun _ =>
      (liftM (mv t0 obj) : Lower Unit) >>= fun _ => throwAt e t1 info := by
  rw [emitSlowPath, if_pos hobj]
  rfl

end Lower

open Lower (skipNull instanceOf dispatch addSlowPath castTo reg payload storeAllowed)

/-! ## Where types are tested -/

/-- Registers that are not reserved hold what checks need. -/
theorem Reg.x_free {r : Fin 32} (h : (Reg.x r).isReserved = false) : Keeps (.x r) ∧ Reg.x r ∉ [sp, t0, t1, ra] :=
  ⟨Machine.keeps_x (Reg.ne_of_free h rfl), Reg.not_mem_of_free h (by decide)⟩

variable {α : Type} {H : Hierarchy α}

/-- The address is one of the profile entry of a check. -/
def TypeCheck.Profiles (tc : TypeCheck) (x : UInt64) : Prop := ∃ p, tc.profile = some p ∧ p.Covers x

/-- The check asks for a type of the hierarchy. Where one compare decides, the type has no proper subtypes. -/
structure TypeCheck.AsksFor (tc : TypeCheck) (D : Descriptors H) (k : α) : Prop where
  klass : tc.klass = D.addr k
  offset : tc.superCheckOffset.toInt64 = Int64.ofNat (H.checkOffset k)
  fast : tc.fast = true → ∀ d, H.Sub d k → d = k

/-- The machine is where it may test types. -/
structure Testing (t : Target) (W : World) (start : UInt64) (Free : UInt64 → Prop) (D : Descriptors H) (scan : CodeBlob)
    (tc : TypeCheck) (m : Machine) : Prop where
  checkable : Checkable t W start Free D scan (m.get sp)
  poised : Poised t D scan (m.get sp) m
  profiled : ∀ p, tc.profile = some p → Profiled Free p ∧ ∀ x, p.Covers x → ¬ D.Covers x

theorem Testing.viewed {t : Target} {W : World} {c : Resident t} {S : Site} {D : Descriptors H}
    {scan : CodeBlob} {tc : TypeCheck} {m : Machine} (h : Testing t W c.start c.Clear D scan tc m)
    (hviews : c.Views W S) :
    Testing S.target S.world S.start S.Free D scan tc m := by
  have hfree : S.Free = c.Clear := funext fun addr => propext (hviews.free addr)
  rw [hviews.target, hviews.world, hviews.start, hfree]
  exact h

/-- A type was tested: at most these registers were changed, the stack below the stack pointer, caches of descriptors and the
profile, and the descriptors are as they should be. -/
structure TypeCheck.Tested (tc : TypeCheck) (D : Descriptors H) (rs : List Reg) (m m' : Machine) : Prop where
  alters : Alters (rs ++ [t0, t1, ra]) (fun x => D.Checks (m.get sp) x ∨ tc.Profiles x) m m'
  laid : D.Laid m'.mem

/-- A type was tested, and the profile entry notes what was found if it is not on the stack that checks use. -/
structure TypeCheck.Noted (tc : TypeCheck) (D : Descriptors H) (rs : List Reg) (f : Finding) (m m' : Machine) : Prop where
  tested : tc.Tested D rs m m'
  entry : ∀ p, tc.profile = some p → (∀ x, p.Covers x → ¬ CheckStack (m.get sp) x) →
    p.entry m'.mem = (p.entry m.mem).note p.rows.toNatClampNeg f

/-- What a check finds of a value: it is null, or of a class that is a subtype of the type asked for, or not. -/
inductive Finds (value : UInt64) (sub : Prop) (klass : UInt64) : Finding → Prop where
  | null (hnull : value = 0) : Finds value sub klass .null
  | passed (hsome : value ≠ 0) (hsub : sub) : Finds value sub klass (.passed klass)
  | failed (hsome : value ≠ 0) (hnot : ¬ sub) : Finds value sub klass .failed

section
variable {D : Descriptors H} {tc : TypeCheck} {rs rs' : List Reg} {m m1 m' : Machine} {f : Finding}

theorem TypeCheck.Tested.withPc (h : tc.Tested D rs m m') (p : UInt64) : tc.Tested D rs m { m' with pc := p } :=
  ⟨h.alters.withPc p, h.laid⟩

theorem TypeCheck.Tested.mono (h : tc.Tested D rs m m') (hrs : ∀ r ∈ rs, r ∈ rs') : tc.Tested D rs' m m' where
  alters := h.alters.mono (fun r hr => (List.mem_append.mp hr).elim (fun hr => List.mem_append_left _ (hrs r hr))
    (List.mem_append_right _)) fun _ hx => hx
  laid := h.laid

theorem TypeCheck.Tested.put (h : tc.Tested D rs m m1) {r : Reg} {v : UInt64} (hput : Put r [] v m1 m')
    (hr : r ∈ rs ++ [t0, t1, ra]) :
    tc.Tested D rs m m' where
  alters := h.alters.trans (hput.alters hr (by simp))
  laid := by
    rw [hput.mem]
    exact h.laid

/-- Where a type was tested, it may be tested again, since what was cached is a supertype. -/
theorem Testing.later {t : Target} {W : World} {start : UInt64} {Free : UInt64 → Prop} {scan : CodeBlob}
    (h : Testing t W start Free D scan tc m) (ht : tc.Tested D rs m m') (hrs : sp ∉ rs)
    (hscan : ∀ x, tc.Profiles x → scan.Clear (t.runtime.addr .slowSubtypeCheck) x) : Testing t W start
    Free D scan tc m' := by
  have hsp : m'.get sp = m.get sp := ht.alters.regs sp fun hmem => (List.mem_append.mp hmem).elim hrs (by decide)
  refine ⟨by rw [hsp]; exact h.checkable,
    ⟨rfl, ht.laid, h.poised.scan.keep fun addr hin => ht.alters.mem addr fun hs => ?_⟩, h.profiled⟩
  rcases hs with hs | hs
  · exact hin (h.checkable.free addr hs).2
  · exact hin (hscan addr hs)

namespace TypeCheck.Noted

theorem withPc (h : tc.Noted D rs f m m') (p : UInt64) : tc.Noted D rs f m { m' with pc := p } :=
  ⟨h.tested.withPc p, h.entry⟩

theorem mono (h : tc.Noted D rs f m m') (hrs : ∀ r ∈ rs, r ∈ rs') : tc.Noted D rs' f m m' := ⟨h.tested.mono hrs, h.entry⟩

theorem put (h : tc.Noted D rs f m m1) {r : Reg} {v : UInt64} (hput : Put r [] v m1 m') (hr : r ∈ rs ++ [t0, t1, ra]) :
    tc.Noted D rs f m m' where
  tested := h.tested.put hput hr
  entry := by
    rw [hput.mem]
    exact h.entry

theorem of_tested (h : tc.Tested D rs m m') (hp : tc.profile = none) (f : Finding) : tc.Noted D rs f m m' :=
  ⟨h, fun p hp' => by rw [hp] at hp'; cases hp'⟩

theorem counted (h : tc.Noted D rs .failed m m1) {p : ProfileSite} (hp : tc.profile = some p)
    (hapart : ∀ x, p.Covers x → ¬ D.Covers x) (h1 : Alters [t0, t1] p.Covers m1 m')
    (hentry : p.entry m'.mem = (p.entry m1.mem).note p.rows.toNatClampNeg f) : tc.Noted D rs f m m' where
  tested := {
    alters := h.tested.alters.trans (h1.mono (by simp) fun x hx => .inr ⟨p, hp, hx⟩)
    laid := h.tested.laid.keep fun x hx => h1.mem x fun hs => hapart x hs hx }
  entry p' hp' hstack := by
    obtain rfl : p = p' := Option.some.inj (hp.symm.trans hp')
    rw [hentry, h.entry p hp hstack]
    rfl

end TypeCheck.Noted

/-- The check of a type has run, and nothing was noted yet. -/
theorem noted_of_check {t : Target} {W : World} {start : UInt64} {Free : UInt64 → Prop} {scan : CodeBlob}
    (hm : Testing t W start Free D scan tc m) (hrs : Alters (rs ++ [t0, t1, ra]) (fun _ => False) m m1) {tmps : List Reg}
    (ht : ∀ r ∈ tmps, r ∈ rs) (h : RiscvJit.Tested D (m.get sp) tmps m1 m') : tc.Noted D rs .failed m m' where
  tested := {
    alters := (hrs.mono (fun _ h => h) fun _ h => h.elim).trans (h.alters.mono (fun r hr => by
      rcases List.mem_append.mp hr with hr | hr
      · exact List.mem_append_right _ hr
      · exact List.mem_append_left _ (ht r hr)) fun _ hx => .inl hx)
    laid := h.laid }
  entry p hp hstack := by
    obtain ⟨hprofiled, hapart⟩ := hm.profiled p hp
    refine ProfileSite.entry_congr hprofiled.fits fun x hx => (h.alters.mem x fun hs => ?_).trans (hrs.mem x not_false)
    exact hs.elim (hstack x hx) fun hcache => hapart x hx (Descriptors.cache_covers hcache)

end

namespace Site

variable {S : Site} {D : Descriptors H} {scan : CodeBlob} {tc : TypeCheck} {m : Machine} {E : Exits}
  {Q : Unit → Machine → Prop} {c k : α} {obj : Reg} {onNull success failure : Label}

/-- A null leaves for its label, and the profile notes it. -/
theorem lowers_skipNull {profile : Option ProfileSite} (hprofile : tc.profile = profile)
    (hm : Testing S.target S.world S.start S.Free D scan tc m) (hl : S.Binds onNull)
    (hnull : m.get obj = 0 → ∀ m', tc.Noted D [] .null m m' → E (.label onNull) m')
    (hgo : m.get obj ≠ 0 → ∀ pc, Q () { m with pc }) : S.Lowers (skipNull obj profile onNull) m E Q := by
  have hstay : tc.Tested D [] m m := ⟨alters_refl .., hm.poised.laid⟩
  unfold skipNull
  cases profile with
  | none =>
    exact lowers_asm (does_bcond rfl hl (fun htaken pc =>
      hnull (of_decide_eq_true htaken) _ ((TypeCheck.Noted.of_tested hstay hprofile .null).withPc pc))
      fun hnot => hgo (of_decide_eq_false hnot))
  | some p =>
    obtain ⟨hprofiled, hapart⟩ := hm.profiled p hprofile
    refine .bind (lowers_asm (does_newLabel fun notNull => ?_))
    refine .of_eq (y := ((do
          branch .bne obj zr notNull
          Lower.profileNull p.mdp
          Asm.j onNull) : Lower Unit) >>= fun _ => (liftM (Asm.bind notNull) : Lower Unit))
      (by simp only [bind_assoc]) ?_
    refine .labelLast fun hnotNull => .bind (lowers_asm (does_branch rfl hnotNull
      (fun htaken pc => .inl ⟨rfl, hgo (of_decide_eq_true htaken) pc⟩) fun hnot pc => ?_))
    refine .bind (lowers_profileNull hprofiled fun m1 h1 hentry => lowers_asm (does_j hl fun pc' => .inr ?_))
    have hbefore : tc.Noted D [] .failed m { m with pc } := ⟨hstay.withPc pc, fun _ _ _ => rfl⟩
    exact hnull (Classical.not_not.mp (of_decide_eq_false hnot)) _
      ((hbefore.counted hprofile hapart h1 hentry).withPc pc')

/-- The profile of a check that was passed counts the class. -/
theorem lowers_countPassed {p : ProfileSite} {sub : Reg} {rs : List Reg} {m1 : Machine} {klass : UInt64}
    (hm : Testing S.target S.world S.start S.Free D scan tc m) (hp : tc.profile = some p) (hsub : sub ∉ [t0, t1])
    (hklass : m1.get sub = klass) (h : tc.Noted D rs .failed m m1)
    (hgo : ∀ m', tc.Noted D rs (.passed klass) m m' → Q () m') :
    S.Lowers (Lower.profileReceiver p sub) m1 E Q := by
  subst hklass
  obtain ⟨hprofiled, hapart⟩ := hm.profiled p hp
  exact lowers_profileReceiver hprofiled hsub fun m' h1 hentry => hgo m' (h.counted hp hapart h1 hentry)

/-- The part that tests and casts share leaves for the label that is right. -/
theorem lowers_typeCheck {k1 k2 : ValueKind} {hi1 hi2 : Reg} {super sub : Fin 32} (hopts : S.target.opts.refusal? = none)
    (hm : Testing S.target S.world S.start S.Free D scan tc m) (hk : tc.AsksFor D k)
    (hsuper : tc.tmp1 = .register k1 (.x super) hi1)
    (hsub : tc.tmp2 = .register k2 (.x sub) hi2) (hfree : (Reg.x super).isReserved = false ∧
    (Reg.x sub).isReserved = false)
    (hobj : m.get obj ≠ 0 → D.ObjectOf S.target.opts m.mem (m.get obj) c)
    (hl : S.Binds onNull ∧ S.Binds success ∧ S.Binds failure)
    (hnull : obj ∉ [Reg.x super, .x sub] → m.get obj = 0 → ∀ m', tc.Noted D [.x super, .x sub] .null m m' →
    E (.label onNull) m')
    (hyes : obj ∉ [Reg.x super, .x sub] → m.get obj ≠ 0 → H.Sub c k →
      ∀ m', tc.Noted D [.x super, .x sub] (.passed (D.addr c)) m m' → E (.label success) m')
    (hno : obj ∉ [Reg.x super, .x sub] → m.get obj ≠ 0 → ¬ H.Sub c k →
      ∀ m', tc.Noted D [.x super, .x sub] .failed m m' → E (.label failure) m') :
    S.Lowers (Lower.typeCheck obj tc onNull success failure) m E Q := by
  obtain ⟨hkeepsSuper, hsuperOther⟩ := Reg.x_free hfree.1
  obtain ⟨hkeepsSub, hsubOther⟩ := Reg.x_free hfree.2
  simp only [List.mem_cons, List.not_mem_nil, or_false, not_or] at hsuperOther hsubOther
  rw [Lower.typeCheck_eq]
  refine .bind (lowers_lift fun super' hsuper' =>
    .bind (lowers_lift fun sub' hsub' => .bind (lowers_lift fun _ hdistinct => ?_)))
  obtain rfl : .x super = super' := by
    rw [hsuper] at hsuper'
    exact Except.ok.inj hsuper'
  obtain rfl : .x sub = sub' := by
    rw [hsub] at hsub'
    exact Except.ok.inj hsub'
  obtain ⟨hobjOther, hne⟩ : obj ∉ [Reg.x super, .x sub] ∧ Reg.x super ≠ .x sub := by
    simpa using Lower.nodup_of_distinct hdistinct
  refine .bind (lowers_skipNull rfl hm hl.1 (fun hzero m' h =>
    hnull hobjOther hzero m' (h.mono (by simp))) fun hsome pc => ?_)
  obtain ⟨-, hproper, hklass⟩ := hobj hsome
  refine .bind (lowers_asm (does_movptr hkeepsSuper fun m1 h1 => .bind (lowers_asm
    (does_loadKlass hopts hkeepsSub (by decide) (Ne.symm hsubOther.2.1) fun m2 h2 => ?_))))
  rw [get_withPc] at h2
  have hsub2 : m2.get (.x sub) = D.addr c := by
    rw [h2.value, h1.mem, h1.other _ (fun e => hobjOther (e ▸ List.mem_cons_self)), get_withPc]
    exact hklass
  have hsuper2 : m2.get (.x super) = D.addr k := by
    rw [h2.rest _ hne (by simpa using hsuperOther.2.1), h1.value, hk.klass]
  have hm2 := ((hm.poised.withPc pc).put h1 hsuperOther.1 List.not_mem_nil).put h2 hsubOther.1 (by decide)
  have hto2 : Alters ([.x super, .x sub] ++ [t0, t1, ra]) (fun _ => False) m m2 :=
    ((alters_refl _ _ m).withPc pc).trans ((h1.alters (by simp) (by simp)).trans (h2.alters (by simp) (by simp)))
  have hapart : ((Reg.x sub ≠ sp ∧ Reg.x super ≠ sp) ∧ Reg.x sub ≠ t0 ∧ Reg.x super ≠ t0) :=
    ⟨⟨hsubOther.1, hsuperOther.1⟩, hsubOther.2.1, hsuperOther.2.1⟩
  have htested {m' : Machine} (h : RiscvJit.Tested D (m.get sp) [] m2 m') : tc.Noted D [.x super, .x sub] .failed m m' :=
    noted_of_check hm hto2 (by simp) h
  unfold Lower.checkCounted
  split
  case _ hp =>
    exact lowers_checkSubtypeStatic hm.checkable hm2 hsub2 hsuper2 hproper hapart hk.offset hk.fast hl.2.1 hl.2.2
      (fun h m' h' => hyes hobjOther hsome h m' (.of_tested (htested h').tested hp _)) fun h m' h' =>
      hno hobjOther hsome h m' (htested h')
  case _ p hp =>
    refine .bind (lowers_asm (does_newLabel fun passed => .label fun hpassed => ?_))
    refine lowers_checkSubtypeStatic hm.checkable hm2 hsub2 hsuper2 hproper hapart hk.offset hk.fast hpassed hl.2.2
      (fun h m' h' => .inl ⟨rfl, fun _ => ?_⟩) fun h m' h' => .inr (hno hobjOther hsome h m' (htested h'))
    have hsub' : m'.get (.x sub) = D.addr c := (h'.alters.regs _ (by simpa using hsubOther.2)).trans hsub2
    exact .bind (lowers_countPassed hm hp (by simpa using ⟨hsubOther.2.1, hsubOther.2.2.1⟩) hsub'
      (htested h') fun m3 h3 =>
      lowers_asm (does_j hl.2.1 fun pc' => hyes hobjOther hsome h _ (h3.withPc pc')))

end Site

/-! ## The instructions of a compiled method -/

section
variable {t : Target} {c : Resident t} {W : World} {j : Nat} {i : Instruction} {m : Machine}
  {D : Descriptors H} {scan : CodeBlob} {tc : TypeCheck} {a k : α}

/-- The register says whether this is so. -/
def Says (r : Reg) (P : Prop) (m : Machine) : Prop := m.get r = 1 ∧ P ∨ m.get r = 0 ∧ ¬ P

variable {ko kr k1 k2 : ValueKind} {obj res super : Fin 32} {array : Reg} {elem sub tmp : Fin 32} {b : α}

set_option synthInstance.maxSize 512 in
/-- An instance test says whether the object is there and of a subtype, and its profile notes what it found. -/
theorem instance_noted {obj ho hr hi1 hi2 : Reg} (hopts : t.opts.refusal? = none) (hm : c.Facing W j i m)
    (hop : i.op = .instanceOf) (hin : i.inputs[0]? = some (Operand.register ko obj ho))
    (hres : i.result = .register kr (.x res) hr) (htc : i.typeCheck = some tc)
    (hwhere : Testing t W c.start c.Clear D scan tc m) (hk : tc.AsksFor D k)
    (hsuper : tc.tmp1 = .register k1 (.x super) hi1) (hsub : tc.tmp2 = .register k2 (.x sub) hi2)
    (hfree : (Reg.x super).isReserved = false ∧ (Reg.x sub).isReserved = false)
    (hobj : m.get obj ≠ 0 → D.ObjectOf t.opts m.mem (m.get obj) a) :
    c.Runs W j m fun m' => Says (.x res) (m.get obj ≠ 0 ∧ H.Sub a k) m' ∧
      ∃ f, Finds (m.get obj) (H.Sub a k) (D.addr a) f ∧ tc.Noted D [.x res, .x super, .x sub] f m m' := by
  have hdispatch : dispatch i = instanceOf i := by
    rw [Lower.dispatch.eq_def, hop]
  refine hm.runs_viewed hdispatch fun S hviews hadmitted => ?_
  have htesting := hwhere.viewed hviews
  obtain rfl := hviews.target
  have hkeeps : Keeps (.x res) := by
    have := hadmitted.kept
    rw [hres] at this
    exact ⟨fun e => this (by rw [e]; rfl), Reg.noConfusion⟩
  unfold instanceOf
  refine .bind (lowers_lift fun o ho => .bind (lowers_lift fun obj' hobj' => .bind (lowers_lift fun res' hres' => ?_)))
  rw [input_eq_ok, hin] at ho
  cases ho
  cases hobj'
  rw [hres] at hres'
  cases hres'
  refine .bind (lowers_asm (does_newLabel fun success => .bind (lowers_asm (does_newLabel fun failure =>
    .bind (lowers_asm (does_newLabel fun done => .bind (lowers_lift fun tc' htc' => ?_)))))))
  rw [Lower.payload_eq_ok, htc] at htc'
  cases htc'
  -- one label inside the other, each with what comes behind it
  refine .of_eq (y := ((Lower.typeCheck obj tc failure success failure >>= fun _ =>
        (liftM (Asm.bind success) : Lower Unit) >>= fun _ => ((do
          li (.x res) 1
          Asm.j done) : Lower Unit)) >>= fun _ => (liftM (Asm.bind failure) : Lower Unit) >>= fun _ =>
        (liftM (mv (.x res) zr) : Lower Unit)) >>= fun _ => (liftM (Asm.bind done) : Lower Unit))
    (by simp only [bind_assoc]) ?_
  refine .labelLast fun hdone => .label fun hfailure => .label fun hsuccess => ?_
  have hwider {r : Reg} (hr : r ∈ [Reg.x super, .x sub]) : r ∈ [Reg.x res, .x super, .x sub] := List.mem_cons_of_mem _ hr
  let Answered (m' : Machine) : Prop := Says (.x res) (m.get obj ≠ 0 ∧ H.Sub a k) m' ∧
    ∃ f, Finds (m.get obj) (H.Sub a k) (D.addr a) f ∧ tc.Noted D [.x res, .x super, .x sub] f m m'
  have passes {m1 : Machine} (hsome : m.get obj ≠ 0) (hsub : H.Sub a k)
    (h : tc.Noted D [.x super, .x sub] (.passed (D.addr a)) m m1)
      {E : Exits} {Q : Unit → Machine → Prop} (hE : ∀ m', Answered m' → E (.label done) m') : S.Lowers ((do
        li (.x res) 1
        Asm.j done) : Lower Unit) m1 E Q :=
    .bind (lowers_asm (does_li (fun m2 h2 => lowers_asm (does_j hdone fun pc =>
      hE _ ⟨.inl ⟨(get_withPc ..).trans h2.value, hsome, hsub⟩, _, .passed hsome hsub,
      ((h.mono fun _ => hwider).put h2 (by simp)).withPc pc⟩)) hkeeps))
  have fails {m1 : Machine} {f : Finding} (hnot : ¬ (m.get obj ≠ 0 ∧ H.Sub a k))
    (hf : Finds (m.get obj) (H.Sub a k) (D.addr a) f)
      (h : tc.Noted D [.x super, .x sub] f m m1) {E : Exits} : S.Lowers (liftM (mv (.x res) zr) : Lower Unit)
      m1 E fun _ => Answered :=
    lowers_asm (does_mv (fun m2 h2 => ⟨.inr ⟨h2.value, hnot⟩, f, hf, (h.mono fun _ => hwider).put h2 (by simp)⟩) hkeeps)
  refine lowers_typeCheck hopts htesting hk hsuper hsub hfree hobj ⟨hfailure, hsuccess, hfailure⟩
    (fun _ hzero m1 h1 => ?_)
    (fun _ hsome h m1 h1 => ?_) fun _ hsome h m1 h1 => ?_
  · exact .inr (.inl ⟨rfl, fun _ => fails (fun hyes => hyes.1 hzero) (.null hzero) h1⟩)
  · exact .inl ⟨rfl, fun _ => passes hsome h h1 fun m' h' => .inr (.inl ⟨rfl, h'⟩)⟩
  · exact .inr (.inl ⟨rfl, fun _ => fails (fun hyes => h hyes.2) (.failed hsome h) h1⟩)

/-- The machine is at a routine that throws, with the object that failed its check and a site for the call. -/
structure Resident.Rejects (c : Resident t) (e : RuntimeEntry) (info : Option SiteInfo) (v : UInt64)
    (m' : Machine) : Prop where
  pc : m'.pc = t.runtime.addr e
  object : m'.get t0 = v
  site : ∀ i, info = some i → ∃ site ∈ c.method.sites, site.info = i ∧ m'.get ra = c.start + site.offset.toUInt64

/-- What a check lets pass goes on, and what it does not is rejected. -/
def Resident.Checks (c : Resident t) (W : World) (j : Nat) (m : Machine) (passed : Prop) (e : RuntimeEntry)
    (info : Option SiteInfo)
    (v : UInt64) (P Q : Machine → Prop) : Prop :=
  passed ∧ c.Runs W j m Q ∨ ¬ passed ∧ ∃ m', W.Reaches m m' ∧ c.Rejects e info v m' ∧ P m'

theorem Resident.Checks.imp {passed : Prop} {e : RuntimeEntry} {info : Option SiteInfo} {v : UInt64}
    {P P' Q Q' : Machine → Prop}
    (h : c.Checks W j m passed e info v P Q) (hP : ∀ m', P m' → P' m') (hQ : ∀ m', Q m' → Q' m') : c.Checks
    W j m passed e info v P' Q' := by
  rcases h with ⟨hpassed, m', hreach, hbefore, hq⟩ | ⟨hnot, m', hreach, hrejects, hp⟩
  · exact .inl ⟨hpassed, m', hreach, hbefore, hQ m' hq⟩
  · exact .inr ⟨hnot, m', hreach, hrejects, hP m' hp⟩

/-- The site of a check that an instruction makes, with its slow path. -/
theorem Resident.Facing.checksType {pre : Lower Unit} {main : Label → Lower Unit} {e : RuntimeEntry} {passed : Prop}
    {rs : List Reg} {Q : Machine → Prop} [Lower.Traced pre] [∀ l, Lower.Traced (main l)] [∀ l, Lower.Grows (main l)]
    [∀ l, Lower.Seals (main l)] (hm : c.Facing W j i m)
    (hx : dispatch i = pre >>= fun _ => (liftM newLabel : Lower Label) >>= fun l =>
      addSlowPath (.exception e (.x obj) i.info l) >>= fun _ => main l)
    (heven : t.runtime.addr e % 2 = 0) (hstart : c.start % 2 = 0)
    (hgo : ∀ S : Site, c.Views W S → i.Admitted → S.Lowers pre m .none fun _ m1 => ∀ l, S.Binds l →
      S.Lowers (main l) m1 (Exits.none.or (.label l) fun m2 => ¬ passed ∧ m2.get (.x obj) = m.get (.x obj) ∧
      tc.Noted D rs .failed m m2)
        fun _ m' => passed ∧ Q m') : c.Checks W j m passed e i.info (m.get (.x obj)) (tc.Noted D rs .failed m) Q := by
  have hrun := hm.checks (Q := fun m' => passed ∧ Q m') (P := fun m2 => ¬ passed ∧
    m2.get (.x obj) = m.get (.x obj) ∧ tc.Noted D rs .failed m m2)
    (R := fun m2 => ¬ passed ∧ m2.get t0 = m.get (.x obj) ∧ tc.Noted D rs .failed m m2) hx
    (fun _ l => Lower.emit_exception e rfl i.info l) (by decide) heven hstart hgo fun S ht m2 h => ?_
  · rcases hrun with ⟨m', hreach, hbefore, hpassed, hq⟩ | ⟨m1, m', ret, hreach, ⟨hnot, hobj, hnoted⟩, hcalled, hsites⟩
    · exact .inl ⟨hpassed, m', hreach, hbefore, hq⟩
    · refine .inr ⟨hnot, m', hreach, ⟨hcalled.pc,
        (hcalled.rest t0 (by decide) (by decide)).trans hobj, fun i hi => ?_⟩, ?_⟩
      · obtain ⟨site, hmem, hinfo, hret⟩ := hsites i hi
        exact ⟨site, hmem, hinfo, hcalled.ra.trans hret⟩
      · exact ⟨⟨hnoted.tested.alters.trans (hcalled.alters (by simp) (by simp)), by
          rw [hcalled.mem]
          exact hnoted.tested.laid⟩, by
          rw [hcalled.mem]
          exact hnoted.entry⟩
  · obtain ⟨hnot, hobj, hnoted⟩ := h
    exact lowers_asm (does_mv fun m3 h3 => ⟨hnot, h3.value.trans hobj, hnoted.put h3 (by simp)⟩)

theorem Operand.Admitted.unscratched {k : ValueKind} {r hi : Reg} (h : (Operand.register k r hi).Admitted) :
    r ∉ [t0, t1, ra] := by
  rcases h with rfl | hfree
  · decide
  · exact Reg.not_mem_of_free hfree (by decide)

/-- A cast goes on with the object if it is null or of a subtype, and rejects it otherwise. Its profile notes
what it found. -/
theorem cast_noted {ho hr hi1 hi2 : Reg} (hopts : t.opts.refusal? = none) (heven : t.runtime.addr .throwClassCast % 2 = 0)
    (hm : c.Facing W j i m) (hop : i.op = .checkCast) (hin : i.inputs[0]? = some (Operand.register ko (.x obj) ho))
    (hres : i.result = .register kr (.x res) hr) (htc : i.typeCheck = some tc)
    (hwhere : Testing t W c.start c.Clear D scan tc m) (hk : tc.AsksFor D k)
    (hsuper : tc.tmp1 = .register k1 (.x super) hi1) (hsub : tc.tmp2 = .register k2 (.x sub) hi2)
    (hfree : (Reg.x super).isReserved = false ∧ (Reg.x sub).isReserved = false)
    (hobj : m.get (.x obj) ≠ 0 → D.ObjectOf t.opts m.mem (m.get (.x obj)) a) :
    c.Checks W j m (m.get (.x obj) = 0 ∨ H.Sub a k) .throwClassCast i.info (m.get (.x obj))
    (tc.Noted D [.x super, .x sub] .failed m)
      fun m' => m'.get (.x res) = m.get (.x obj) ∧
        ∃ f, Finds (m.get (.x obj)) (H.Sub a k) (D.addr a) f ∧ tc.Noted D [.x res, .x super, .x sub] f m m' := by
  have hdispatch : dispatch i = (pure () : Lower Unit) >>= fun _ => (liftM newLabel : Lower Label) >>= fun l =>
      addSlowPath (.exception .throwClassCast (.x obj) i.info l) >>= fun _ => castTo (.x res) (.x obj) tc l := by
    have hpayload : payload (some tc) = .ok tc := rfl
    rw [Lower.dispatch.eq_def]
    simp only [hop, Lower.checkCast, input_eq_ok.mpr hin, hres, htc, Lower.lift_ok_bind, reg_register, hpayload]
    rfl
  refine hm.checksType hdispatch heven hwhere.checkable.start fun S hviews hadmitted => lowers_pure fun entry hentry => ?_
  have htesting := hwhere.viewed hviews
  obtain rfl := hviews.target
  have hkeeps : Keeps (.x res) := by
    have := hadmitted.kept
    rw [hres] at this
    exact ⟨fun e => this (by rw [e]; rfl), Reg.noConfusion⟩
  have hkept {m1 : Machine} (hother : Reg.x obj ∉ [Reg.x super, .x sub]) (h : tc.Tested D [.x super, .x sub] m m1) :
      m1.get (.x obj) = m.get (.x obj) :=
    h.alters.regs _ fun hmem => (List.mem_append.mp hmem).elim hother
    (hadmitted.input hin).unscratched
  unfold castTo
  refine .bind (lowers_asm (does_newLabel fun success => ?_))
  have passes {m1 : Machine} {f : Finding} (hpassed : m.get (.x obj) = 0 ∨ H.Sub a k)
      (hother : Reg.x obj ∉ [Reg.x super, .x sub]) (hf : Finds (m.get (.x obj)) (H.Sub a k) (D.addr a) f)
      (h : tc.Noted D [.x super, .x sub] f m m1) {E : Exits} : S.Lowers (liftM (mv (.x res) (.x obj)) : Lower Unit) m1 E
        fun _ m' => (m.get (.x obj) = 0 ∨ H.Sub a k) ∧ m'.get (.x res) = m.get (.x obj) ∧
          ∃ f, Finds (m.get (.x obj)) (H.Sub a k) (D.addr a) f ∧ tc.Noted D [.x res, .x super, .x sub] f m m' :=
    lowers_asm (does_mv (fun m2 h2 => ⟨hpassed, h2.value.trans (hkept hother h.tested), f, hf,
      (h.mono fun _ => List.mem_cons_of_mem _).put h2 (by simp)⟩) hkeeps)
  refine .label fun hsuccess => lowers_typeCheck hopts htesting hk hsuper hsub hfree hobj ⟨hsuccess, hsuccess, hentry⟩
    (fun hother hzero m1 h1 => ?_) (fun hother hsome h m1 h1 => ?_) fun hother hsome h m1 h1 => ?_
  · exact .inl ⟨rfl, fun _ => passes (.inl hzero) hother (.null hzero) h1⟩
  · exact .inl ⟨rfl, fun _ => passes (.inr h) hother (.passed hsome h) h1⟩
  · exact .inr (.inl ⟨rfl, not_or.mpr ⟨hsome, h⟩, hkept hother h1.tested, h1⟩)

/-- The classes of a value and of the elements of an array are loaded. -/
theorem Site.lowers_loadClasses {S : Site} {E : Exits} {Q : Unit → Machine → Prop} {value : Reg}
    {pc : UInt64} {rest : Lower Unit}
    [Lower.Traced rest] (hopts : S.target.opts.refusal? = none) (hm : Testing S.target S.world S.start S.Free D scan tc m)
    (hdistinct : [value, array, Reg.x elem, .x sub, .x tmp].Nodup)
    (hfree : ∀ r ∈ [elem, sub, tmp], (Reg.x r).isReserved = false) (hvalueFree : value ∉ [t0, t1, ra])
    (hvalue : D.ObjectOf S.target.opts m.mem (m.get value) a) (harray : D.ObjectOf S.target.opts m.mem (m.get array) b)
    (helement : D.element b = some k)
    (h : ∀ m3, Poised S.target D scan (m.get sp) m3 → m3.get (.x elem) = D.addr k → m3.get (.x sub) = D.addr a →
      Alters ([Reg.x elem, .x sub, .x tmp] ++ [t0, t1, ra]) (fun _ => False) m m3 → S.Lowers rest m3 E Q) :
    S.Lowers ((do
      loadKlass (.x elem) array t0
      ld (.x elem) (.x elem) klassLayout.elementKlass
      loadKlass (.x sub) value t0
      rest) : Lower Unit) { m with pc } E Q := by
  obtain ⟨hkeepsElem, helemOther⟩ := Reg.x_free (hfree elem (by simp))
  obtain ⟨hkeepsSub, hsubOther⟩ := Reg.x_free (hfree sub (by simp))
  simp only [List.nodup_cons, List.mem_cons, List.not_mem_nil, or_false, not_or]
    at hdistinct helemOther hsubOther hvalueFree
  obtain ⟨⟨-, hvalueElem, -⟩, -, ⟨helemSub, -⟩, -⟩ := hdistinct
  refine .bind (lowers_asm (does_loadKlass hopts hkeepsElem (by decide) (Ne.symm helemOther.2.1) fun m1 h1 =>
    .bind (lowers_asm (does_ld (fun m2 h2 => .bind (lowers_asm
      (does_loadKlass hopts hkeepsSub (by decide) (Ne.symm hsubOther.2.1) fun m3 h3 => ?_))) hkeepsElem))))
  rw [get_withPc] at h1
  have hm2 := ((hm.poised.withPc pc).put h1 helemOther.1 (by decide)).put h2 helemOther.1 List.not_mem_nil
  refine h m3 (hm2.put h3 hsubOther.1 (by decide)) ?_ ?_ ?_
  · have hclass : m1.get (.x elem) = D.addr b := h1.value.trans harray.klass
    rw [h3.rest _ helemSub (by simpa using helemOther.2.1), h2.value, hclass, h1.mem]
    exact hm.poised.laid.element b k helement
  · rw [h3.value, h2.mem, h1.mem, h2.other _ hvalueElem, h1.rest _ hvalueElem (by simpa using hvalueFree.1), get_withPc]
    exact hvalue.klass
  · exact ((alters_refl _ _ m).withPc pc).trans
      ((h1.alters (by simp) (by simp)).trans ((h2.alters (by simp) (by simp)).trans
      (h3.alters (by simp) (by simp))))

/-- The check decides from where the classes are in registers. -/
theorem Site.lowers_checkLoaded {S : Site} {E : Exits} {Q : Unit → Machine → Prop} {value : Reg}
    {passed entry : Label} {m3 : Machine}
    (hm : Testing S.target S.world S.start S.Free D scan tc m) (hdistinct : [value, array, Reg.x elem, .x sub, .x tmp].Nodup)
    (hfree : ∀ r ∈ [elem, sub, tmp], (Reg.x r).isReserved = false)
    (hvalue : D.ObjectOf S.target.opts m.mem (m.get value) a)
    (hm3 : Poised S.target D scan (m.get sp) m3) (helem3 : m3.get (.x elem) = D.addr k)
    (hsub3 : m3.get (.x sub) = D.addr a)
    (hto : Alters ([Reg.x elem, .x sub, .x tmp] ++ [t0, t1, ra]) (fun _ => False) m m3) (hl : S.Binds passed)
    (hentry : S.Binds entry)
    (hyes : ∀ m', H.Sub a k → m'.get (.x sub) = D.addr a → tc.Noted D [.x elem, .x sub, .x tmp] .failed m m' →
    E (.label passed) m')
    (hno : ∀ m', ¬ H.Sub a k → tc.Noted D [.x elem, .x sub, .x tmp] .failed m m' → E (.label entry) m') :
    S.Lowers (Lower.checkSubtypeDynamic (.x sub) (.x elem) (.x tmp) passed entry) m3 E Q := by
  obtain ⟨-, helemOther⟩ := Reg.x_free (hfree elem (by simp))
  obtain ⟨-, hsubOther⟩ := Reg.x_free (hfree sub (by simp))
  obtain ⟨hkeepsTmp, htmpOther⟩ := Reg.x_free (hfree tmp (by simp))
  simp only [List.nodup_cons, List.mem_cons, List.not_mem_nil, or_false, not_or]
    at hdistinct helemOther hsubOther htmpOther
  obtain ⟨-, -, ⟨-, helemTmp⟩, hsubTmp, -⟩ := hdistinct
  refine lowers_checkSubtypeDynamic hm.checkable hm3 hsub3 helem3 hvalue.proper ⟨⟨hsubOther.1, helemOther.1⟩, ?_, ?_⟩
    ⟨hkeepsTmp, ?_⟩ hl hentry (fun h m' h' => hyes m' h ((h'.alters.regs _ ?_).trans hsub3)
      (noted_of_check hm hto (by simp) h')) fun h m' h' => hno m' h (noted_of_check hm hto (by simp) h')
  · simp only [List.mem_cons, List.not_mem_nil, or_false, not_or]
    exact ⟨hsubTmp, hsubOther.2.1, hsubOther.2.2.1⟩
  · simp only [List.mem_cons, List.not_mem_nil, or_false, not_or]
    exact ⟨helemTmp, helemOther.2.1, helemOther.2.2.1⟩
  · simp only [List.mem_cons, List.not_mem_nil, or_false, not_or]
    exact ⟨htmpOther.1, htmpOther.2.1, htmpOther.2.2.1⟩
  · simp only [List.mem_append, List.mem_cons, List.not_mem_nil, or_false, not_or]
    exact ⟨⟨hsubOther.2.1, hsubOther.2.2.1, hsubOther.2.2.2⟩, hsubTmp⟩

/-- The code of a store check goes on if the value is null or of a subtype of the element type, and leaves otherwise. -/
theorem Site.lowers_storeAllowed {S : Site} {E : Exits} {value : Reg} {entry : Label}
    (hopts : S.target.opts.refusal? = none) (hm : Testing S.target S.world S.start S.Free D scan tc m)
    (hdistinct : [value, array, Reg.x elem, .x sub, .x tmp].Nodup)
    (hfree : ∀ r ∈ [elem, sub, tmp], (Reg.x r).isReserved = false) (hvalueFree : value ∉ [t0, t1, ra])
    (hentry : S.Binds entry) (hvalue : m.get value ≠ 0 → D.ObjectOf S.target.opts m.mem (m.get value) a)
    (harray : m.get value ≠ 0 → D.ObjectOf S.target.opts m.mem (m.get array) b) (helement : D.element b = some k)
    (hno : ∀ m', ¬ (m.get value = 0 ∨ H.Sub a k) → tc.Noted D [.x elem, .x sub, .x tmp] .failed m m' →
    E (.label entry) m') :
    S.Lowers (storeAllowed value array (.x elem) (.x sub) (.x tmp) tc.profile entry) m E
      fun _ m' => (m.get value = 0 ∨ H.Sub a k) ∧
        ∃ f, Finds (m.get value) (H.Sub a k) (D.addr a) f ∧ tc.Noted D [.x elem, .x sub, .x tmp] f m m' := by
  obtain ⟨-, hsubOther⟩ := Reg.x_free (hfree sub (by simp))
  simp only [List.mem_cons, List.not_mem_nil, or_false, not_or] at hsubOther
  let Passed (m' : Machine) : Prop := (m.get value = 0 ∨ H.Sub a k) ∧
    ∃ f, Finds (m.get value) (H.Sub a k) (D.addr a) f ∧ tc.Noted D [.x elem, .x sub, .x tmp] f m m'
  have hnull {m' : Machine} (hzero : m.get value = 0) (h : tc.Noted D [] .null m m') : Passed m' :=
    ⟨.inl hzero, .null, .null hzero, h.mono (by simp)⟩
  have hpass {m' : Machine} (hsome : m.get value ≠ 0) (hsub : H.Sub a k)
      (h : tc.Noted D [.x elem, .x sub, .x tmp] (.passed (D.addr a)) m m') : Passed m' :=
      ⟨.inr hsub, _, .passed hsome hsub, h⟩
  have hwrong {m' : Machine} (hsome : m.get value ≠ 0) (hnot : ¬ H.Sub a k)
    (h : tc.Noted D [.x elem, .x sub, .x tmp] .failed m m') :
      E (.label entry) m' := hno m' (not_or.mpr ⟨hsome, hnot⟩) h
  unfold storeAllowed
  cases hp : tc.profile with
  | none =>
    refine .bind (lowers_asm (does_newLabel fun done => ?_))
    refine .of_eq (y := ((do
          skipNull value none done
          loadKlass (.x elem) array t0
          ld (.x elem) (.x elem) klassLayout.elementKlass
          loadKlass (.x sub) value t0
          Lower.checkSubtypeDynamic (.x sub) (.x elem) (.x tmp) done entry) : Lower Unit) >>= fun _ =>
          liftM (Asm.bind done))
      (by simp only [bind_assoc]) ?_
    refine .labelLast fun hdone => .bind (lowers_skipNull hp hm hdone (fun hzero m' h => .inl ⟨rfl, hnull hzero h⟩)
      fun hsome pc => lowers_loadClasses hopts hm hdistinct hfree hvalueFree (hvalue hsome) (harray hsome) helement
        fun m3 hm3 helem3 hsub3 hto => lowers_checkLoaded hm hdistinct hfree (hvalue hsome) hm3 helem3
          hsub3 hto hdone hentry ?_ ?_)
    · exact fun m' h _ h' => .inl ⟨rfl, hpass hsome h (.of_tested h'.tested hp _)⟩
    · exact fun m' h h' => .inr (hwrong hsome h h')
  | some p =>
    refine .bind (lowers_asm (does_newLabel fun done => ?_))
    refine .of_eq (y := ((do
          skipNull value (some p) done
          loadKlass (.x elem) array t0
          ld (.x elem) (.x elem) klassLayout.elementKlass
          loadKlass (.x sub) value t0
          let passed ← newLabel
          Lower.checkSubtypeDynamic (.x sub) (.x elem) (.x tmp) passed entry
          Asm.bind passed
          Lower.profileReceiver p (.x sub)) : Lower Unit) >>= fun _ => liftM (Asm.bind done))
      (by simp only [bind_assoc]) ?_
    refine .labelLast fun hdone => .bind (lowers_skipNull hp hm hdone (fun hzero m' h => .inl ⟨rfl, hnull hzero h⟩)
      fun hsome pc => lowers_loadClasses hopts hm hdistinct hfree hvalueFree (hvalue hsome) (harray hsome) helement
        fun m3 hm3 helem3 hsub3 hto => ?_)
    refine .bind (lowers_asm (does_newLabel fun passed => .label fun hpassed =>
      lowers_checkLoaded hm hdistinct hfree (hvalue hsome) hm3 helem3 hsub3 hto hpassed hentry ?_ ?_))
    · exact fun m' h hsub' h' => .inl ⟨rfl, fun _ => lowers_countPassed hm hp
        (by simp [hsubOther.2.1, hsubOther.2.2.1]) hsub' h' fun m4 h4 => hpass hsome h h4⟩
    · exact fun m' h h' => .inr (.inr (hwrong hsome h h'))

/-- A store goes on if the value is null or of a subtype of the element type, and the value is rejected otherwise. Its profile
notes what it found. -/
theorem store_noted {kv ka k3 : ValueKind} {hv ha hi1 hi2 hi3 : Reg} {value : Fin 32} (hopts : t.opts.refusal? = none)
    (heven : t.runtime.addr .throwArrayStore % 2 = 0) (hm : c.Facing W j i m) (hop : i.op = .storeCheck)
    (hin : i.inputs[0]? = some (Operand.register kv (.x value) hv)) (hin' : i.inputs[1]? = some (Operand.register ka array ha))
    (htc : i.typeCheck = some tc) (hwhere : Testing t W c.start c.Clear D scan tc m)
    (helem : tc.tmp1 = .register k1 (.x elem) hi1) (hsub : tc.tmp2 = .register k2 (.x sub) hi2)
    (htmp : tc.tmp3 = .register k3 (.x tmp) hi3) (hfree : ∀ r ∈ [elem, sub, tmp], (Reg.x r).isReserved = false)
    (hvalue : m.get (.x value) ≠ 0 → D.ObjectOf t.opts m.mem (m.get (.x value)) a)
    (harray : m.get (.x value) ≠ 0 → D.ObjectOf t.opts m.mem (m.get array) b) (helement : D.element b = some k) :
    c.Checks W j m (m.get (.x value) = 0 ∨ H.Sub a k) .throwArrayStore i.info (m.get (.x value))
      (tc.Noted D [.x elem, .x sub, .x tmp] .failed m)
      fun m' => ∃ f, Finds (m.get (.x value)) (H.Sub a k) (D.addr a) f ∧ tc.Noted D [.x elem, .x sub, .x tmp] f m m' := by
  have hdispatch : dispatch i = (liftM (Lower.distinct "store check"
    [.x value, array, .x elem, .x sub, .x tmp]) : Lower Unit) >>=
      fun _ => (liftM newLabel : Lower Label) >>= fun l =>
        addSlowPath (.exception .throwArrayStore (.x value) i.info l) >>=
        fun _ => storeAllowed (.x value) array (.x elem) (.x sub) (.x tmp) tc.profile l := by
    have hpayload : payload (some tc) = .ok tc := rfl
    have hcheck (k : ValueKind) (r hi : Reg) (msg : Unit → String) : check (!(Operand.register k r hi).isAbsent)
      msg = .ok () := rfl
    rw [Lower.dispatch.eq_def]
    simp only [hop, Lower.storeCheck, input_eq_ok.mpr hin, input_eq_ok.mpr hin', htc, Lower.lift_ok_bind,
      reg_register, hpayload, helem, hsub, htmp, hcheck]
    rfl
  refine hm.checksType hdispatch heven hwhere.checkable.start fun S hviews hadmitted =>
    lowers_lift fun _ hdistinct entry hentry => ?_
  have htesting := hwhere.viewed hviews
  obtain rfl := hviews.target
  have hunscratched := (hadmitted.input hin).unscratched
  have hother := List.nodup_cons.mp (Lower.nodup_of_distinct hdistinct) |>.1
  refine lowers_storeAllowed hopts htesting (Lower.nodup_of_distinct hdistinct) hfree hunscratched hentry
    hvalue harray helement
    fun m' hnot h => .inl ⟨rfl, hnot, h.tested.alters.regs _ fun hmem => ?_, h⟩
  exact (List.mem_append.mp hmem).elim (fun h => hother (List.mem_cons_of_mem _ h)) hunscratched

end

/-! ## All type checks -/

/-- Type checks of a compiled method decide about subtypes. -/
structure DecidesTypes (t : Target) : Prop where
  /-- An instance test says whether the object is there and of a subtype. -/
  test : ∀ {α : Type} {H : Hierarchy α} {D : Descriptors H} {scan : CodeBlob} {c : Resident t} {W : World}
    {j : Nat} {i : Instruction} {m : Machine} {tc : TypeCheck} {a k : α} {ko kr k1 k2 : ValueKind}
    {obj ho hr hi1 hi2 : Reg} {res super sub : Fin 32},
    c.Facing W j i m → i.op = .instanceOf → i.inputs[0]? = some (Operand.register ko obj ho) →
    i.result = .register kr (.x res) hr →
    i.typeCheck = some tc → Testing t W c.start c.Clear D scan tc m → tc.AsksFor D k →
    tc.tmp1 = .register k1 (.x super) hi1 → tc.tmp2 = .register k2 (.x sub) hi2 →
    (Reg.x super).isReserved = false ∧ (Reg.x sub).isReserved = false →
    (m.get obj ≠ 0 → D.ObjectOf t.opts m.mem (m.get obj) a) →
    c.Runs W j m fun m' => Says (.x res) (m.get obj ≠ 0 ∧ H.Sub a k) m' ∧ tc.Tested D [.x res, .x super, .x sub] m m'
  /-- A cast goes on with the object if it is null or of a subtype. -/
  cast : ∀ {α : Type} {H : Hierarchy α} {D : Descriptors H} {scan : CodeBlob} {c : Resident t} {W : World}
    {j : Nat} {i : Instruction} {m : Machine} {tc : TypeCheck} {a k : α} {ko kr k1 k2 : ValueKind}
    {ho hr hi1 hi2 : Reg} {obj res super sub : Fin 32},
    c.Facing W j i m → i.op = .checkCast → i.inputs[0]? = some (Operand.register ko (.x obj) ho) →
    i.result = .register kr (.x res) hr →
    i.typeCheck = some tc → Testing t W c.start c.Clear D scan tc m → tc.AsksFor D k →
    tc.tmp1 = .register k1 (.x super) hi1 → tc.tmp2 = .register k2 (.x sub) hi2 →
    (Reg.x super).isReserved = false ∧ (Reg.x sub).isReserved = false →
    (m.get (.x obj) ≠ 0 → D.ObjectOf t.opts m.mem (m.get (.x obj)) a) →
    c.Checks W j m (m.get (.x obj) = 0 ∨ H.Sub a k) .throwClassCast i.info (m.get (.x obj))
    (tc.Tested D [.x super, .x sub] m)
      fun m' => m'.get (.x res) = m.get (.x obj) ∧ tc.Tested D [.x res, .x super, .x sub] m m'
  /-- A store goes on if the value is null or of a subtype of the element type of the array. -/
  store : ∀ {α : Type} {H : Hierarchy α} {D : Descriptors H} {scan : CodeBlob} {c : Resident t} {W : World}
    {j : Nat} {i : Instruction}
    {m : Machine} {tc : TypeCheck} {a b k : α} {kv ka k1 k2 k3 : ValueKind} {array hv ha hi1 hi2 hi3 : Reg}
    {value elem sub tmp : Fin 32}, c.Facing W j i m → i.op = .storeCheck →
    i.inputs[0]? = some (Operand.register kv (.x value) hv) →
    i.inputs[1]? = some (Operand.register ka array ha) → i.typeCheck = some tc → Testing t W c.start c.Clear D scan tc m →
    tc.tmp1 = .register k1 (.x elem) hi1 → tc.tmp2 = .register k2 (.x sub) hi2 → tc.tmp3 = .register k3 (.x tmp) hi3 →
    (∀ r ∈ [elem, sub, tmp], (Reg.x r).isReserved = false) →
    (m.get (.x value) ≠ 0 → D.ObjectOf t.opts m.mem (m.get (.x value)) a) →
    (m.get (.x value) ≠ 0 → D.ObjectOf t.opts m.mem (m.get array) b) → D.element b = some k →
    c.Checks W j m (m.get (.x value) = 0 ∨ H.Sub a k) .throwArrayStore i.info (m.get (.x value))
      (tc.Tested D [.x elem, .x sub, .x tmp] m) (tc.Tested D [.x elem, .x sub, .x tmp] m)

/-- Whatever hierarchy is in memory, tests, casts and stores decide as it says, and leave it well formed. -/
theorem type_checks_decide {t : Target} (hopts : t.opts.refusal? = none)
    (heven : ∀ e, t.runtime.addr e % 2 = 0) : DecidesTypes t where
  test hm hop hin hres htc hwhere hk hsuper hsub hfree hobj := by
    obtain ⟨m', hreach, hbefore, hsays, f, -, hnoted⟩ :=
      instance_noted hopts hm hop hin hres htc hwhere hk hsuper hsub hfree hobj
    exact ⟨m', hreach, hbefore, hsays, hnoted.tested⟩
  cast hm hop hin hres htc hwhere hk hsuper hsub hfree hobj :=
    (cast_noted hopts (heven _) hm hop hin hres htc hwhere hk hsuper hsub hfree hobj).imp (fun _ h => h.tested)
      fun _ ⟨hres, _, _, h⟩ => ⟨hres, h.tested⟩
  store hm hop hin hin' htc hwhere helem hsub htmp hfree hvalue harray helement :=
    (store_noted hopts (heven _) hm hop hin hin' htc hwhere helem hsub htmp hfree hvalue harray helement).imp
    (fun _ h => h.tested)
      fun _ ⟨_, _, h⟩ => h.tested

/-! ## A hierarchy in memory -/

/-- A root class, an interface and a class that implements it. -/
def implementing : Hierarchy (Fin 3) where
  root := 0
  super c := if c = 0 then none else some 0
  interfaces c := if c = 2 then [1] else []
  isInterface c := c == 1
  depth c := if c = 0 then 0 else 1
  root_iff := by decide
  root_class := rfl
  depth_root := rfl
  depth_super := by decide
  super_class := by decide
  interface_super := by decide
  interfaces_only := by decide

theorem implementing_sub {c d : Fin 3} (h : implementing.Sub c d) : d = c ∨ d = 0 ∨ c = 2 ∧ d = 1 := by
  induction h with
  | refl => exact .inl rfl
  | @tail d e _ hdirect ih =>
    have hstep : ∀ d e : Fin 3, implementing.super d = some e ∨ e ∈ implementing.interfaces d → e = 0 ∨
      d = 2 ∧ e = 1 := by decide
    rcases hstep d e hdirect with he | ⟨hd, he⟩
    · exact .inr (.inl he)
    · rcases ih with hc | hc | ⟨-, hc⟩
      · exact .inr (.inr ⟨hc.symm.trans hd, he⟩)
      · exact absurd (hc.symm.trans hd) (by decide)
      · exact absurd (hc.symm.trans hd) (by decide)

/-- The descriptors are at `0x3000`, the arrays at `0x3800`. -/
def implementingAt : Descriptors implementing where
  addr c := 0x3000 + 0x100 * UInt64.ofNat c
  array c := 0x3800 + 0x20 * UInt64.ofNat c
  secondaries c := if c = 2 then [1] else []
  element _ := none
  sound {c d} h := by
    have hone : ∀ c d : Fin 3, d ∈ (if c = 2 then [1] else []) → c = 2 ∧ d = 1 := by decide
    obtain ⟨rfl, rfl⟩ := hone c d h
    exact .single (.inr (by decide))
  complete {c d} h hne hd := by
    have hprimary : implementing.Primary 0 := by decide
    rcases implementing_sub h with rfl | rfl | ⟨rfl, rfl⟩
    · exact absurd rfl hne
    · exact absurd hprimary hd
    · decide
  positive := by decide
  fits := by decide
  array_fits := by decide
  short := by decide
  apart := by decide
  array_apart := by decide

/-- Words in memory: the descriptors, the one array that is not empty, and an object of each class. -/
def implementingWords : List (Nat × Nat) :=
  [(0x3008, 0x30 <<< 32), (0x3028, 0x3800), (0x3030, 0x3000),
   (0x3108, 0x20 <<< 32), (0x3128, 0x3820),
   (0x3208, 0x38 <<< 32), (0x3228, 0x3840), (0x3230, 0x3000), (0x3238, 0x3200),
   (0x3840, 1), (0x3848, 0x3100), (0x4008, 0x3200), (0x4108, 0x3000)]

def implementingMemory : Ram := fun addr =>
  match implementingWords.find? fun w => w.1 ≤ addr.toNat && addr.toNat < w.1 + 8 with
  | some w => UInt8.ofNat (w.2 >>> (8 * (addr.toNat - w.1)))
  | none => 0

theorem implementing_laid : implementingAt.Laid implementingMemory where
  offset := by decide +kernel
  display c n hc hn := by
    have : ∀ c, ∀ n < 8, implementing.isInterface c = false →
      implementingMemory.read (implementingAt.addr c + UInt64.ofNat (0x30 + 8 * n)) 8 =
      ((implementing.ancestor c n).map implementingAt.addr).getD 0 := by decide +kernel
    exact this c n hn hc
  array := by decide +kernel
  length := by decide +kernel
  entry c i d hd := by
    have hone : ∀ c, (implementingAt.secondaries c).length ≤ 1 := by decide
    have : ∀ c, ∀ i < 1, ∀ d, (implementingAt.secondaries c)[i]? = some d →
      implementingMemory.read (implementingAt.array c + UInt64.ofNat (8 + 8 * i)) 8 = implementingAt.addr
      d := by decide +kernel
    exact this c i (Nat.lt_of_lt_of_le (List.getElem?_eq_some_iff.mp hd).1 (hone c)) d hd
  cache c := .inl (by revert c; decide +kernel)
  element c e he := by cases he

/-- A check against the interface. -/
def asksInterface : TypeCheck where
  klass := 0x3100
  superCheckOffset := 0x20
  fast := false
  tmp1 := .register .address (.x 12) .none
  tmp2 := .register .address (.x 13) .none
  tmp3 := .absent
  profile := none

/-- A method that tests one object and casts another. -/
def testsAndCasts : Program where
  name := "p"
  frameSize := 32
  code := #[
    { op := .instanceOf, inputs := [.register .object (.x 11) .none], result := .register .int (.x 10) .none,
      typeCheck := some asksInterface },
    { op := .checkCast, inputs := [.register .object (.x 14) .none], result := .register .object (.x 14) .none,
      typeCheck := some asksInterface },
    { op := .ret }]

/-- A machine with the scan in memory and in front of code at `0x10000`, with an object of each class in registers. -/
def classy (code scan : List UInt8) (pc : UInt64) : Machine where
  x n := if n = 2 then 0x8000 else if n = 11 then 0x4000 else if n = 14 then 0x4100 else 0
  f _ := 0
  pc
  mem := (implementingMemory.overlay (throwingTarget.runtime.addr .slowSubtypeCheck) scan).overlay 0x10000 code

theorem asksInterface_asks : asksInterface.AsksFor implementingAt 1 := ⟨rfl, by decide, nofun⟩

/-- Checks write far from code at `0x10000` and from the scan. -/
theorem classy_apart {x : UInt64} (h : implementingAt.Checks 0x8000 x) : x.toNat < 0x8000 := by
  rcases h with h | ⟨c, h⟩
  · exact h.2
  · have hlow : ∀ c, (implementingAt.addr c).toNat + 0x28 ≤ 0x8000 := by decide
    have := hlow c
    omega

theorem implementing_covers {x : UInt64} (h : implementingAt.Covers x) : x.toNat < 0x4000 := by
  obtain ⟨d, h⟩ := h
  have hends : ∀ d, (implementingAt.addr d).toNat + 0xe0 ≤ 0x4000 ∧
    (implementingAt.array d).toNat + (8 + 8 * (implementingAt.secondaries d).length) ≤ 0x4000 := by decide
  have := hends d
  omega

section
variable {c : Resident throwingTarget} {scan : CodeBlob} {pc : UInt64} {tc : TypeCheck}

theorem classy_clear (hstart : c.start = 0x10000) (hsize : c.method.blob.code.length ≤ 0x1000)
    (hscanSize : scan.code.length ≤ 0x1000)
    {x : UInt64} (hx : x.toNat < 0x10000) : c.Clear x ∧ scan.Clear (throwingTarget.runtime.addr .slowSubtypeCheck) x := by
  have hlow : c.start.toNat = 0x10000 := by rw [hstart]; rfl
  have hentry : 0x20000 ≤ (throwingTarget.runtime.addr .slowSubtypeCheck).toNat ∧
    (throwingTarget.runtime.addr .slowSubtypeCheck).toNat ≤ 0x30000 := by decide
  refine ⟨(clear_iff (by omega)).mpr fun h => ?_, (clear_iff (by omega)).mpr fun h => ?_⟩ <;> omega

/-- Below the code memory holds the hierarchy. -/
theorem classy_mem {code scan : List UInt8} (hsize : code.length ≤ 0x1000) (hscanSize : scan.length ≤ 0x1000) {x : UInt64}
    (hx : x.toNat < 0x10000) : (classy code scan pc).mem x = implementingMemory x := by
  have hlow : (0x10000 : UInt64).toNat = 0x10000 := rfl
  have hentry : 0x20000 ≤ (throwingTarget.runtime.addr .slowSubtypeCheck).toNat ∧
    (throwingTarget.runtime.addr .slowSubtypeCheck).toNat ≤ 0x30000 := by decide
  refine (Ram.overlay_apart _ (by omega) fun h => ?_).trans (Ram.overlay_apart _ (by omega) fun h => ?_) <;> omega

/-- The machine may test types, and count them in an entry above the objects. -/
theorem classy_testing (hstart : c.start = 0x10000) (hsize : c.method.blob.code.length ≤ 0x1000)
    (hscan : Stub.subtypeScan throwingTarget 0 = .ok scan) (hscanSize : scan.code.length ≤ 0x1000)
    (hprofile : ∀ p, tc.profile = some p → 0x5000 ≤ p.mdp.toNat ∧ p.mdp.toNat + 16 + 16 * p.rows.toNatClampNeg ≤ 0x6000) :
    Testing throwingTarget World.bare c.start c.Clear implementingAt scan tc
    (classy c.method.blob.code scan.code pc) := by
  have hlow : (0x10000 : UInt64).toNat = 0x10000 := rfl
  have hentry : 0x20000 ≤ (throwingTarget.runtime.addr .slowSubtypeCheck).toNat ∧
    (throwingTarget.runtime.addr .slowSubtypeCheck).toNat ≤ 0x30000 := by decide
  refine ⟨⟨⟨0, hscan, absurd rfl⟩, fun _ _ =>
    rfl, by decide, by rw [hstart]; rfl, (by decide : 48 ≤ (0x8000 : UInt64).toNat),
      fun x hx => classy_clear hstart hsize hscanSize (Nat.lt_trans (classy_apart hx) (by omega)), fun x hx h => ?_⟩,
    ⟨rfl, implementing_laid.keep fun x hx => classy_mem hsize hscanSize
      (Nat.lt_trans (implementing_covers hx) (by omega)), ?_⟩,
    fun p hp => ⟨⟨?_, fun x hx => (classy_clear hstart hsize hscanSize ?_).1⟩, fun x hx h => ?_⟩⟩
  · have := implementing_covers hx
    have htop : 0x8000 - 48 ≤ x.toNat := h.1
    omega
  · refine (stands_overlay (b := scan) (m := { classy c.method.blob.code scan.code pc with
      mem := implementingMemory.overlay _ scan.code }) (by omega) rfl).keep fun addr hin =>
      Ram.overlay_apart _ (by omega) fun h => ?_
    have hspans := Classical.not_not.mp fun h' => hin ((clear_iff (by omega)).mpr h')
    omega
  all_goals have := hprofile p hp
  · omega
  · unfold ProfileSite.Covers at hx
    omega
  · have := implementing_covers h
    unfold ProfileSite.Covers at hx
    omega

/-- The objects stay what they are while checks write only to caches, to the stack and to entries above the objects. -/
theorem classy_object {code scan : List UInt8} (hsize : code.length ≤ 0x1000) (hscanSize : scan.length ≤ 0x1000)
    {m' : Machine} {v : UInt64} {d : Fin 3} (hv : 0x4000 ≤ v.toNat ∧ v.toNat + 16 ≤ 0x5000)
    (hproper : implementing.isInterface d = false)
    (hklass : throwingTarget.opts.klassAt implementingMemory v = implementingAt.addr d)
    (hmem : ∀ x : UInt64, x.toNat < 0x5000 → ¬ implementingAt.Checks 0x8000 x → m'.mem x = (classy code scan pc).mem x) :
    implementingAt.ObjectOf throwingTarget.opts m'.mem v d := by
  refine Descriptors.ObjectOf.keep ⟨by omega, hproper, hklass⟩ fun x hx => ?_
  refine (hmem x (by omega) fun h => ?_).trans (classy_mem hsize hscanSize (by omega))
  rcases h with h | h
  · have htop : 0x8000 - 48 ≤ x.toNat := h.1
    omega
  · have := implementing_covers (Descriptors.cache_covers h)
    omega

end

/-- The object of the class implements the interface, and the other one is rejected by the cast. -/
theorem an_object_implements : ∃ method off m1 m2, testsAndCasts.compile throwingTarget 0 = .ok method ∧
    testsAndCasts.placeOf throwingTarget 0 0 = .ok off ∧ ∃ scan, Stub.subtypeScan throwingTarget 0 = .ok scan ∧
    World.bare.Reaches (classy method.blob.code scan.code (0x10000 + UInt64.ofNat off)) m1 ∧ m1.get (.x 10) = 1 ∧
    World.bare.Reaches m1 m2 ∧ m2.pc = throwingTarget.runtime.addr .throwClassCast ∧ m2.get t0 = 0x4100 ∧
    implementingAt.Laid m2.mem := by
  obtain ⟨method, off, hcompiled, hsize, hoff⟩ : testsAndCasts.CompilesWithin throwingTarget 0 0 0x1000 :=
    .of_checks (by decide +kernel) (by decide +kernel)
  obtain ⟨scan, hscan, hscanSize⟩ := scan_generated
  have hdecides := type_checks_decide (t := throwingTarget) (by decide) (by intro e; cases e <;> rfl)
  let c : Resident throwingTarget := ⟨testsAndCasts, 0, method, 0x10000, hcompiled, absurd rfl⟩
  let m := classy method.blob.code scan.code (0x10000 + UInt64.ofNat off)
  have hlow : (0x10000 : UInt64).toNat = 0x10000 := rfl
  have hbefore : c.Before 0 m := .of_overlay hsize hoff rfl rfl
  have htesting : Testing throwingTarget World.bare c.start c.Clear implementingAt scan asksInterface m :=
    classy_testing (c := c) rfl hsize hscan hscanSize nofun
  have htest := hdecides.test (W := World.bare) (j := 0) (a := 2) ⟨rfl, fun _ _ => rfl, hbefore⟩ rfl rfl rfl rfl htesting
    asksInterface_asks rfl rfl ⟨rfl, rfl⟩
  obtain ⟨m1, hreach1, hbefore1, hsays, htested1⟩ := htest fun _ =>
    show implementingAt.ObjectOf throwingTarget.opts m.mem 0x4000 2 from
      classy_object hsize hscanSize (by decide) rfl (by decide +kernel) fun _ _ _ => rfl
  have hone : m1.get (.x 10) = 1 := by
    rcases hsays with ⟨hone, -⟩ | ⟨-, hnot⟩
    · exact hone
    · exact absurd ⟨show (0x4000 : UInt64) ≠ 0 by decide, .single (.inr (by decide))⟩ hnot
  have hsecond : m1.get (.x 14) = 0x4100 := htested1.alters.regs _ (by decide)
  have htesting1 := htesting.later htested1 (by decide) fun x ⟨p, hp, _⟩ => by cases hp
  have hcast := hdecides.cast (W := World.bare) (j := 1) (a := 0) ⟨rfl, fun _ _ => rfl, hbefore1⟩ rfl
    rfl rfl rfl htesting1
    asksInterface_asks rfl rfl ⟨rfl, rfl⟩ fun _ => by
      rw [hsecond]
      exact classy_object hsize hscanSize (by decide) rfl (by decide +kernel) fun x _ hx =>
        htested1.alters.mem x fun hs => hs.elim hx fun ⟨p, hp, _⟩ => by cases hp
  rcases hcast with ⟨hpassed, -⟩ | ⟨-, m2, hreach2, hrejects, htested2⟩
  · rcases hpassed with hzero | hsub
    · exact absurd (hsecond.symm.trans hzero) (by decide)
    · exact absurd (implementing_sub hsub) (by decide)
  · exact ⟨method, off, m1, m2, hcompiled, hoff, scan, hscan, hreach1, hone, hreach2, hrejects.pc,
      hrejects.object.trans hsecond, htested2.laid⟩

end RiscvJit
