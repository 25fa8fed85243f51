import RiscvJit.Proofs.Code.CapacitySequences
import RiscvJit.Proofs.Lower.Composed

/-
  RiscvJit.Proofs.Lower.Capacity — lowering into a smaller buffer.

  `Lower.Scales` carries over to lowering what `Asm.Scales` says of writing code. While everything
  fits, the two runs differ in the room of their buffers only; afterwards they still agree on the
  program and on the labels they gave out, which is what later work of the same instruction reads.

  A direct call looks at the distance to its target, which no longer means anything once the buffer
  failed. It does not have to: instructions are lowered only as long as the buffer works.
-/

namespace RiscvJit

open Assembler (Persists persists_refl)
open Reg (ra)

/-! ## Runs side by side -/

namespace Lowering

/-- The state with a buffer of another capacity. -/
def cropped (u : Lowering) (c : Nat) : Lowering := { u with asm := u.asm.cropped c }

/-- The first state's buffer ran out of room. -/
structure Lost (s u : Lowering) : Prop where
  asm : s.asm.Lost u.asm
  prog : s.prog = u.prog
  labels : s.labels = u.labels
  unwind : s.unwind = u.unwind

/-- The first state is the second one with less room, or its buffer ran out of room on the way. -/
inductive Shadows : Lowering → Lowering → Prop
  | same {u : Lowering} {c : Nat} : u.asm.Fits c → Shadows (u.cropped c) u
  | lost {s u : Lowering} : Lost s u → Shadows s u

variable {s u : Lowering}

theorem Shadows.asm (h : s.Shadows u) : s.asm.Shadows u.asm := by
  cases h with
  | same hfits => exact .same hfits
  | lost hl => exact .lost hl.asm

theorem Shadows.prog (h : s.Shadows u) : s.prog = u.prog := by
  cases h with
  | same => rfl
  | lost hl => exact hl.prog

theorem Shadows.labels (h : s.Shadows u) : s.labels = u.labels := by
  cases h with
  | same => rfl
  | lost hl => exact hl.labels

theorem Shadows.unwind (h : s.Shadows u) : s.unwind = u.unwind := by
  cases h with
  | same => rfl
  | lost hl => exact hl.unwind

end Lowering

namespace Lower

/-- Lowering into a smaller buffer keeps up with lowering into a larger one that is not exhausted by it. -/
class Scales {α : Type} (far : UInt64 → Prop) (x : Lower α) : Prop where
  persists : ∀ {t s r s'}, x t s = .ok (r, s') → Persists s.asm s'.asm
  scales : ∀ {t m n s u r u'}, (∀ e, far (t.runtime.addr e)) → s.Shadows u → x t u = .ok (r, u') →
    u'.asm.buf.failed = false → Strays far s.asm (x (t.resized m n) s) ∨
      ∃ s', x (t.resized m n) s = .ok (r, s') ∧ s'.Shadows u'

section
variable {α β : Type} {far : UInt64 → Prop}

instance scales_pure (r : α) : Scales far (pure r : Lower α) where
  persists h := by
    rw [(pure_eq_ok.mp h).2]
    exact persists_refl _
  scales _ hs h _ := by
    obtain ⟨rfl, rfl⟩ := pure_eq_ok.mp h
    exact .inr ⟨_, rfl, hs⟩

instance scales_lift (e : Except Fault α) : Scales far (liftM e : Lower α) where
  persists h := by
    rw [(lift_eq_ok.mp h).2]
    exact persists_refl _
  scales _ hs h _ := by
    obtain ⟨he, rfl⟩ := lift_eq_ok.mp h
    exact .inr ⟨_, lift_eq_ok.mpr ⟨he, rfl⟩, hs⟩

instance scales_throw (e : Fault) : Scales far (throw e : Lower α) where
  persists h := nomatch h
  scales _ _ h _ := nomatch h

instance scales_asm (x : Asm α) [hx : Asm.Scales far x] : Scales far (liftM x : Lower α) where
  persists h := by
    obtain ⟨a, ha, rfl⟩ := asm_eq_ok.mp h
    exact hx.persists ha
  scales {t main stubs s u r u'} hfar hs h hw := by
    obtain ⟨b, hb, rfl⟩ := asm_eq_ok.mp h
    rcases hx.scales (m := main) (n := stubs) hfar hs.asm hb hw with ⟨addr, h1, h2, h3, hstop⟩ | ⟨a, ha, hs'⟩
    · refine .inl ⟨addr, h1, h2, h3, ?_⟩
      show (match x (t.resized main stubs) s.asm with | .ok (a, asm) => _ | .error e => _) = _
      rw [hstop]
    · refine .inr ⟨{ s with asm := a }, asm_eq_ok.mpr ⟨a, ha, rfl⟩, ?_⟩
      cases hs with
      | lost hl =>
        exact .lost ⟨hs'.lost_of_failed (hx.persists ha |>.failed hl.asm.failed) hw, hl.prog, hl.labels, hl.unwind⟩
      | @same u c hfits =>
        cases hs' with
        | @same _ c' hfits' => exact Lowering.Shadows.same (u := { u with asm := b }) (c := c') hfits'
        | lost hl' => exact .lost ⟨hl', rfl, rfl, rfl⟩

theorem bind_ok {x : Lower α} {f : α → Lower β} {t : Target} {s s1 : Lowering} {q : α} (h : x t s = .ok (q, s1)) :
    (x >>= f) t s = f q t s1 := by
  show (x t s >>= fun p => f p.1 t p.2) = _
  rw [h]
  rfl

instance scales_bind (x : Lower α) (f : α → Lower β) [hx : Scales far x] [hf : ∀ r, Scales far (f r)] :
    Scales far (x >>= f) where
  persists h := by
    obtain ⟨r, s, hr, hs⟩ := bind_eq_ok.mp h
    exact (hx.persists hr).trans ((hf r).persists hs)
  scales {t main stubs s u q u'} hfar hs h hw := by
    obtain ⟨r, u1, hr, hrest⟩ := bind_eq_ok.mp h
    rcases hx.scales (m := main) (n := stubs) hfar hs hr (((hf r).persists hrest).working hw) with
      ⟨addr, h1, h2, h3, hstop⟩ | ⟨s1, hs1, hshadows⟩
    · refine .inl ⟨addr, h1, h2, h3, ?_⟩
      show (x (t.resized main stubs) s >>= _) = _
      rw [hstop]
      rfl
    · rw [bind_ok hs1]
      rcases (hf r).scales hfar hshadows hrest hw with ⟨addr, h1, h2, h3, hstop⟩ | hdone
      · exact .inl ⟨addr, h1, h2, (hx.persists hs1).base ▸ h3, hstop⟩
      · exact .inr hdone

instance scales_seq (x : Lower α) (y : Lower β) [Scales far x] [Scales far y] : Scales far (x >>= fun _ => y) :=
  scales_bind x _

instance scales_ite (c : Prop) [Decidable c] (x y : Lower α) [hx : Scales far x] [hy : Scales far y] :
    Scales far (if c then x else y) := by
  split
  · exact hx
  · exact hy

/-- What work reads of the settings may not be the sizes of buffers. -/
theorem scales_read {f : Target → Lower α} (hsame : ∀ t main stubs, f (t.resized main stubs) = f t)
    (hf : ∀ t, Scales far (f t)) : Scales far (read >>= f) where
  persists h := by
    obtain ⟨t, s, ht, hs⟩ := bind_eq_ok.mp h
    cases ht
    exact (hf _).persists hs
  scales {t main stubs s u q u'} hfar hs h hw := by
    obtain ⟨t', u1, ht, hrest⟩ := bind_eq_ok.mp h
    cases ht
    have hrun := (hf t).scales (m := main) (n := stubs) hfar hs hrest hw
    rwa [← hsame t main stubs] at hrun

/-- What work reads of the state is the program and the labels. -/
theorem scales_get {f : Lowering → Lower α}
    (hsame : ∀ s u : Lowering, s.prog = u.prog → s.labels = u.labels → s.unwind = u.unwind → f s = f u)
    (hf : ∀ s, Scales far (f s)) : Scales far (get >>= f) where
  persists h := by
    obtain ⟨s, s1, hget, hs⟩ := bind_eq_ok.mp h
    cases hget
    exact (hf _).persists hs
  scales {t main stubs s u q u'} hfar hs h hw := by
    obtain ⟨u1, u2, hget, hrest⟩ := bind_eq_ok.mp h
    cases hget
    have hrun := (hf u).scales (m := main) (n := stubs) hfar hs hrest hw
    rwa [← hsame s u hs.prog hs.labels hs.unwind] at hrun

/-- A change of what is kept besides the assembler. -/
theorem scales_modify {f : Lowering → Lowering} (hasm : ∀ s, (f s).asm = s.asm)
    (hcropped : ∀ u c, f (Lowering.cropped u c) = (f u).cropped c) (hprog : ∀ s, (f s).prog = s.prog)
    (hlabels : ∀ s u : Lowering, s.labels = u.labels → (f s).labels = (f u).labels)
    (hunwind : ∀ s u : Lowering, s.unwind = u.unwind → (f s).unwind = (f u).unwind) :
    Scales far (modify f : Lower Unit) where
  persists h := by
    cases h
    rw [hasm]
    exact persists_refl _
  scales {t main stubs s u q u'} hfar hs h hw := by
    cases h
    refine .inr ⟨_, rfl, ?_⟩
    cases hs with
    | @same _ c hfits =>
      rw [hcropped]
      exact .same (by rwa [hasm])
    | lost hl =>
      exact .lost ⟨by rw [hasm, hasm]; exact hl.asm, by rw [hprog, hprog]; exact hl.prog, hlabels _ _ hl.labels,
        hunwind _ _ hl.unwind⟩

end

/-! ## Labels, slow paths and sites -/

section
variable {far : UInt64 → Prop}

instance scales_label (id : LabelId) : Scales far (label id) := by
  unfold label
  refine scales_get (fun s u hprog hlabels _ => by rw [hprog, hlabels]) fun s => ?_
  have (l : Label) : Scales far (modify fun s => { s with labels := (id, l) :: s.labels } : Lower Unit) :=
    scales_modify (fun _ => rfl) (fun _ _ => rfl) (fun _ => rfl) (fun _ _ h => by rw [h]) fun _ _ h => h
  cases s.labels.lookup id <;> infer_instance

instance scales_unwindLabel : Scales far unwindLabel := by
  unfold unwindLabel
  refine scales_get (fun s u _ _ hunwind => by rw [hunwind]) fun s => ?_
  have (l : Label) : Scales far (modify fun s => { s with unwind := some l } : Lower Unit) :=
    scales_modify (fun _ => rfl) (fun _ _ => rfl) (fun _ => rfl) (fun _ _ h => h) fun _ _ _ => rfl
  cases s.unwind <;> infer_instance

instance scales_addSlowPath (p : SlowPath) : Scales far (addSlowPath p) :=
  scales_modify (fun _ => rfl) (fun _ _ => rfl) (fun _ => rfl) (fun _ _ h => h) fun _ _ h => h

theorem ensureUniquePc_eq (t : Target) (s : Lowering) : ensureUniquePc t s =
    (if s.lastSite = some (Int64.ofNat s.asm.buf.offset) then (liftM Asm.nop : Lower Unit) else pure ()) t s := rfl

/-- Whether a word is written to keep two sites apart may differ once the buffer failed. -/
instance scales_ensureUniquePc : Scales far ensureUniquePc where
  persists h := by
    have hword (c : Prop) [Decidable c] : Scales far (if c then (liftM Asm.nop : Lower Unit) else pure ()) :=
      inferInstance
    rw [ensureUniquePc_eq] at h
    exact (hword _).persists h
  scales {t main stubs s u q u'} hfar hs h hw := by
    rw [ensureUniquePc_eq] at h
    cases hs with
    | same hfits =>
      rw [ensureUniquePc_eq]
      exact (scales_ite ..).scales hfar (.same hfits) h hw
    | lost hl =>
      have hstays : ensureUniquePc (t.resized main stubs) s = .ok ((), s) := by
        rw [ensureUniquePc_eq]
        split
        · exact asm_eq_ok.mpr ⟨s.asm, Asm.emit_failed rfl hl.asm.failed, rfl⟩
        · rfl
      refine .inr ⟨s, hstays, .lost ?_⟩
      split at h
      · obtain ⟨b, hnop, rfl⟩ := asm_eq_ok.mp h
        exact ⟨Asm.emit_lost hl.asm hnop, hl.prog, hl.labels, hl.unwind⟩
      · obtain ⟨-, rfl⟩ := pure_eq_ok.mp h
        exact hl

variable {extra : List Operand} (info : Option SiteInfo)

theorem addSiteAt_eq_ok {t : Target} {u u' : Lowering} {off : Int64} {info : SiteInfo}
    (h : addSiteAt off (some info) extra t u = .ok ((), u')) : (u.asm.buf.failed = true ∧ u' = u) ∨
      (u.asm.buf.failed = false ∧ ∃ oopMap maps, OopMap.ofLive (info.live ++ extra) (frameSlots u.prog) = .ok oopMap ∧
        u.asm.oopMaps.add off oopMap = .ok maps ∧
        u' = { u with
          asm := { u.asm with oopMaps := maps }
          sites := u.sites.push { offset := off, info, oopMap := oopMap.placed off }
          lastSite := some off }) := by
  obtain ⟨f, s, hf, h⟩ := bind_eq_ok.mp h
  obtain ⟨a, hf, rfl⟩ := asm_eq_ok.mp hf
  cases hf
  split at h
  case _ hfailed => exact .inl ⟨hfailed, (pure_eq_ok.mp h).2⟩
  case _ hworks =>
    obtain ⟨s, s1, hget, h⟩ := bind_eq_ok.mp h
    cases hget
    obtain ⟨oopMap, hmap, h⟩ := lift_bind_eq_ok.mp h
    obtain ⟨_, s2, hadd, h⟩ := bind_eq_ok.mp h
    obtain ⟨a, hchange, rfl⟩ := asm_eq_ok.mp hadd
    obtain ⟨maps, hmaps, hdone⟩ := except_bind_eq_ok.mp (Asm.change_eq_ok.mp hchange)
    cases hdone
    cases h
    exact .inr ⟨by simpa using hworks, oopMap, maps, hmap, hmaps, rfl⟩

theorem addSiteAt_ok {t : Target} {u : Lowering} {off : Int64} {info : SiteInfo} {oopMap : OopMap} {maps : OopMapSet}
    (hw : u.asm.buf.failed = false) (hmap : OopMap.ofLive (info.live ++ extra) (frameSlots u.prog) = .ok oopMap)
    (hmaps : u.asm.oopMaps.add off oopMap = .ok maps) :
    addSiteAt off (some info) extra t u = .ok ((), { u with
      asm := { u.asm with oopMaps := maps }
      sites := u.sites.push { offset := off, info, oopMap := oopMap.placed off }
      lastSite := some off }) := by
  have hadd : Asm.change (fun a => return { a with oopMaps := ← a.oopMaps.add off oopMap }) t u.asm =
      .ok ((), { u.asm with oopMaps := maps }) := by
    refine Asm.change_ok ?_
    rw [hmaps]
    rfl
  unfold addSiteAt
  dsimp only
  rw [bind_ok (asm_eq_ok.mpr ⟨u.asm, show Asm.failed t u.asm = .ok (u.asm.buf.failed, u.asm) from rfl, rfl⟩), hw,
    if_neg (by decide), bind_ok get_ok, bind_ok (lift_eq_ok.mpr ⟨hmap, rfl⟩), bind_ok (asm_eq_ok.mpr ⟨_, hadd, rfl⟩)]
  rfl

/-- A site is recorded at an offset the buffer has, or not at all. -/
theorem scales_site (extra : List Operand) : Scales far (offset >>= fun off => addSiteAt off info extra) := by
  cases info with
  | none =>
    refine ⟨fun h => ?_, fun hfar hs h hw => ?_⟩
    · cases h
      exact persists_refl _
    · cases h
      exact .inr ⟨_, rfl, hs⟩
  | some info =>
    have hread {t : Target} {s : Lowering} : (offset >>= fun off => addSiteAt off (some info) extra) t s =
      addSiteAt (Int64.ofNat s.asm.buf.offset) (some info) extra t s := rfl
    refine ⟨fun h => ?_, fun {t main stubs s u q u'} hfar hs h hw => ?_⟩
    · rw [hread] at h
      rcases addSiteAt_eq_ok h with ⟨-, rfl⟩ | ⟨-, oopMap, maps, -, -, rfl⟩
      · exact persists_refl _
      · exact ⟨id, rfl, rfl⟩
    · rw [hread] at h ⊢
      rcases addSiteAt_eq_ok h with ⟨hfailed, rfl⟩ | ⟨hb, oopMap, maps, hmap, hmaps, rfl⟩
      · exact absurd (hfailed.symm.trans hw) (by decide)
      · cases hs with
        | @same _ c hfits =>
          exact .inr ⟨_, addSiteAt_ok hb hmap hmaps, Lowering.Shadows.same (u := { u with
            asm := { u.asm with oopMaps := maps }
            sites := u.sites.push
              { offset := Int64.ofNat u.asm.buf.offset, info, oopMap := oopMap.placed (Int64.ofNat u.asm.buf.offset) }
            lastSite := some (Int64.ofNat u.asm.buf.offset) }) (c := c) ⟨hfits.le, hfits.small,
            hfits.offset, hfits.written⟩⟩
        | lost hl =>
          refine .inr ⟨s, ?_, .lost ⟨⟨hl.asm.failed, hl.asm.labels, hl.asm.inStub, hl.asm.base⟩, hl.prog,
            hl.labels, hl.unwind⟩⟩
          unfold addSiteAt
          dsimp only
          rw [bind_ok (asm_eq_ok.mpr ⟨s.asm, show Asm.failed (t.resized main stubs) s.asm = .ok
            (s.asm.buf.failed, s.asm) from rfl, rfl⟩),
            hl.asm.failed]
          rfl

instance scales_addSite : Scales far (addSite info) := scales_site info []

instance scales_siteWith {β : Type} (f : Unit → Lower β) [hf : ∀ r, Scales far (f r)] :
    Scales far (offset >>= fun off => addSiteAt off info extra >>= f) := by
  have : Scales far (offset >>= fun off => addSiteAt off info extra) := scales_site info extra
  rw [← bind_assoc]
  infer_instance

/-! ## Instructions -/

theorem closed_scales : Closed true (Scales far) where
  pure := scales_pure
  lift e := scales_lift e
  asm x := scales_asm x
  bind hx hf := @scales_bind _ _ _ _ _ hx hf
  read := scales_read
  get hsame := scales_get fun s u hprog _ _ => hsame s u hprog
  label := scales_label
  unwindLabel := scales_unwindLabel
  addSlowPath := scales_addSlowPath
  called e tmp info := by
    have : Asm.Scales far (Asm.entryAddress e >>= fun target => Asm.farCall target ra (.x tmp)) :=
      Asm.closed_scales.routine e 1 tmp
    infer_instance

instance (priority := low) scales_of_composed {α : Type} (x : Lower α) [hx : Composed true x] :
    Scales far x := hx.has closed_scales

instance scales_throwEx (i : Instruction) : Scales far (throwEx i) := by
  unfold throwEx
  have : Scales far (get >>= fun s : Lowering => do
      Asm.rtCall (if s.prog.hasFpu then .handleException else .handleExceptionNoFpu)
      (liftM Asm.nop : Lower Unit)) :=
    scales_get (fun s u hprog _ _ => by rw [hprog]) fun _ => inferInstance
  infer_instance

instance scales_safepoint (i : Instruction) : Scales far (safepoint i) := by
  unfold safepoint
  infer_instance

end

end Lower

end RiscvJit
