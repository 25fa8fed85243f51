import RiscvJit.Proofs.Code.Grown
import RiscvJit.Proofs.Lower.MethodCapacity

/-
  RiscvJit.Proofs.Lower.Sites — sites are recorded at increasing offsets.

  While the buffer works, the sites recorded so far stand at increasing offsets, none behind the code,
  and the set of maps has the map of each of them and no other (`Lowering.Sites`). A new site keeps
  this when it stands behind the last one. So there are two kinds of states: in some the last site may
  stand right at the end of the code (`Sited`), in others it does not (`Fresh`). Recording a site leads
  from the second kind to the first; writing an instruction leads back, and so does the word that
  keeps two sites apart. `Leads` follows the two through work of any shape, together with what the
  work adds to the code, and says besides that the work does not stop for two maps at one offset.
-/

namespace RiscvJit

open Lowering

/-- What lowering adds to: the code, the slow paths, the sites and the labels of one program. -/
structure Lowering.Grown (t : Target) (s s' : Lowering) : Prop where
  asm : Assembler.Grown t s.asm s'.asm
  prog : s'.prog = s.prog
  slowPaths : s.slowPaths.toList <+: s'.slowPaths.toList
  sites : s.sites.toList <+: s'.sites.toList
  labels : ∀ id l, s.labels.lookup id = some l → s'.labels.lookup id = some l
  unwind : ∀ l, s.unwind = some l → s'.unwind = some l

/-- The work on a buffer began with an empty one. -/
def Assembler.Begun (t : Target) (a : Assembler) : Prop := ∃ first, Holds {} first ∧ first.lastFence = none ∧
  Grown t first a

/-- The sites that were recorded, and where they stand. -/
structure Lowering.Sites (s : Lowering) (places : List Nat) : Prop where
  offsets : s.sites.toList.map (·.offset) = places.map Int64.ofNat
  ascending : places.Pairwise (· < ·)
  within : ∀ n ∈ places, n ≤ s.asm.buf.offset
  last : s.lastSite = places.getLast?.map Int64.ofNat
  maps : s.asm.oopMaps.maps.toList = s.sites.toList.map (·.oopMap)
  placed : ∀ site ∈ s.sites.toList, site.oopMap.offset = site.offset

/-- While the buffer works, sites are in order. -/
def Lowering.Sited (s : Lowering) : Prop := s.asm.buf.failed = false → ∃ places, s.Sites places

/-- Besides, no site stands at the end of the code. -/
def Lowering.Fresh (s : Lowering) : Prop :=
  s.asm.buf.failed = false → ∃ places, s.Sites places ∧ ∀ n ∈ places, n < s.asm.buf.offset

section
variable {t : Target} {s s1 s' : Lowering} {places : List Nat}

theorem Lowering.grown_refl (t : Target) (s : Lowering) : Lowering.Grown t s s :=
  ⟨.refl, rfl, List.prefix_refl _, List.prefix_refl _, fun _ _ h => h, fun _ h => h⟩

theorem Lowering.Grown.trans (h : Lowering.Grown t s s1) (h' : Lowering.Grown t s1 s') : Lowering.Grown t s s' :=
  ⟨h.asm.trans h'.asm, h'.prog.trans h.prog, h.slowPaths.trans h'.slowPaths, h.sites.trans h'.sites,
    fun id l hl => h'.labels id l (h.labels id l hl), fun l hl => h'.unwind l (h.unwind l hl)⟩

theorem Assembler.Begun.grown {a b : Assembler} (h : a.Begun t) (h' : Grown t a b) : b.Begun t := by
  obtain ⟨first, hfirst, hfence, hgrown⟩ := h
  exact ⟨first, hfirst, hfence, hgrown.trans h'⟩

theorem Assembler.Begun.small {a : Assembler} (h : a.Begun t) (hw : a.buf.failed = false) : a.buf.offset ≤ 2 ^ 48 := by
  obtain ⟨first, hfirst, hfence, hgrown⟩ := h
  obtain ⟨L, hL, -⟩ := hgrown.holds hfirst hfence hw
  rw [hL.spells.offset]
  exact Nat.le_trans hL.spells.room hL.spells.limit

theorem Lowering.Fresh.sited (h : s.Fresh) : s.Sited := fun hw => by
  obtain ⟨places, hsites, -⟩ := h hw
  exact ⟨places, hsites⟩

/-- Sites stay where they are when code is added. -/
theorem Lowering.Sites.keep (h : s.Sites places) (hmaps : s'.asm.oopMaps = s.asm.oopMaps)
    (hoffset : s.asm.buf.offset ≤ s'.asm.buf.offset) (hsites : s'.sites = s.sites) (hlast : s'.lastSite = s.lastSite) :
    s'.Sites places where
  offsets := by rw [hsites]; exact h.offsets
  ascending := h.ascending
  within n hn := Nat.le_trans (h.within n hn) hoffset
  last := by rw [hlast]; exact h.last
  maps := by rw [hmaps, hsites]; exact h.maps
  placed := by rw [hsites]; exact h.placed

/-- A site at the end of the code is the last one. -/
theorem Lowering.Sites.last_of_end (h : s.Sites places) (hend : s.asm.buf.offset ∈ places) :
    places.getLast? = some s.asm.buf.offset := by
  obtain ⟨before, after, rfl⟩ := List.append_of_mem hend
  cases after with
  | nil => simp
  | cons n after =>
    have hlt := (List.pairwise_append.mp h.ascending).2.1
    have := List.rel_of_pairwise_cons hlt List.mem_cons_self
    have := h.within n (by simp)
    omega

theorem ofNat_inj_of_small {n k : Nat} (hn : n ≤ 2 ^ 48) (hk : k ≤ 2 ^ 48) (h : Int64.ofNat n = Int64.ofNat k) :
    n = k := by
  have e := congrArg Int64.toInt h
  rw [Int64.toInt_ofNat_of_lt (by omega), Int64.toInt_ofNat_of_lt (by omega)] at e
  omega

/-- A site is recorded at the end of the code, where none stands. -/
theorem Lowering.Sites.push (h : s.Sites places) (hfree : ∀ n ∈ places, n < s.asm.buf.offset)
    {info : SiteInfo} {oopMap : OopMap} {maps : OopMapSet}
    (hmaps : s.asm.oopMaps.add (Int64.ofNat s.asm.buf.offset) oopMap = .ok maps) :
    Sites { s with
      asm := { s.asm with oopMaps := maps }
      sites := s.sites.push { offset := Int64.ofNat s.asm.buf.offset, info, oopMap := oopMap.placed (Int64.ofNat s.asm.buf.offset) }
      lastSite := some (Int64.ofNat s.asm.buf.offset) } (places ++ [s.asm.buf.offset]) where
  offsets := by simp [h.offsets]
  ascending := by
    refine List.pairwise_append.mpr ⟨h.ascending, List.pairwise_singleton _ _, fun n hn k hk => ?_⟩
    rw [List.mem_singleton.mp hk]
    exact hfree n hn
  within n hn := by
    rcases List.mem_append.mp hn with hn | hn
    · exact h.within n hn
    · exact Nat.le_of_eq (List.mem_singleton.mp hn)
  last := by simp
  maps := by
    unfold OopMapSet.add at hmaps
    split at hmaps
    · cases hmaps
    · cases hmaps
      simp [h.maps]
  placed site hsite := by
    simp only [Array.toList_push, List.mem_append, List.mem_singleton] at hsite
    rcases hsite with hsite | rfl
    · exact h.placed site hsite
    · rfl

/-- Where no site stands there is no map. -/
theorem Lowering.Sites.free (h : s.Sites places) {n : Nat} (hn : n ≤ 2 ^ 48) (hfree : ∀ k ∈ places, k < n) :
    s.asm.oopMaps.find? (Int64.ofNat n) = none := by
  rw [OopMapSet.find?, ← Array.find?_toList, h.maps, List.find?_eq_none]
  intro m hm
  obtain ⟨site, hsite, rfl⟩ := List.mem_map.mp hm
  have hplace : site.offset ∈ places.map Int64.ofNat := h.offsets ▸ List.mem_map_of_mem hsite
  obtain ⟨k, hk, e⟩ := List.mem_map.mp hplace
  have hlt := hfree k hk
  rw [h.placed site hsite, ← e]
  simp only [beq_iff_eq]
  intro e'
  have := ofNat_inj_of_small (by omega) hn e'
  omega

end

/-! ## Code of at least a word -/

namespace Asm

/-- The work writes at least a word, or the buffer fails. -/
class Writes {α : Type} (x : Asm α) : Prop where
  word : ∀ {t a r a'}, x t a = .ok (r, a') → a'.buf.failed = false → a.buf.offset < a'.buf.offset

section
variable {α β : Type}

instance writes_emit (o : Op) (rd rs1 rs2 : Reg) (imm : Int64) (aqrl : UInt32) : Writes (emit o rd rs1 rs2 imm aqrl) where
  word h hw := by
    obtain ⟨-, rfl⟩ := emit_eq_ok.mp h
    have := offset_emit4_working hw
    simp only at this ⊢
    omega

theorem Writes.first {x : Asm α} {f : α → Asm β} (hx : Writes x) [hf : ∀ r, Grows (f r)] : Writes (x >>= f) where
  word h hw := by
    obtain ⟨r, b, hr, hs⟩ := bind_eq_ok.mp h
    have hsteps := (hf r).steps hs
    exact Nat.lt_of_lt_of_le (hx.word hr (hsteps.grown.working hw)) (hsteps.quiet hw).offset

theorem Writes.second {x : Asm α} {f : α → Asm β} [hx : Grows x] [hg : ∀ r, Grows (f r)] (hf : ∀ r, Writes (f r)) :
    Writes (x >>= f) where
  word h hw := by
    obtain ⟨r, b, hr, hs⟩ := bind_eq_ok.mp h
    have hwb := ((hg r).grown hs).working hw
    exact Nat.lt_of_le_of_lt ((hx.steps hr).quiet hwb).offset ((hf r).word hs hw)

variable (rd : Reg)

instance writes_jal (l : Label) : Writes (jal rd l) where
  word h hw := by
    obtain ⟨off, b, hoff, h⟩ := bind_eq_ok.mp h
    cases hoff
    obtain ⟨_, b, hemit, hrefer⟩ := bind_eq_ok.mp h
    have hcode := codeOnly_refer _ _ _ _ _ _ _ hrefer
    have hwb : b.buf.failed = false := by
      cases hf : b.buf.failed with
      | false => rfl
      | true => rw [hcode.failed hf] at hw; cases hw
    exact Nat.lt_of_lt_of_le ((writes_emit ..).word hemit hwb) hcode.offset

instance writes_jalOffset (off : Int64) : Writes (jalOffset rd off) := by
  unfold jalOffset
  split
  · exact writes_emit ..
  · refine ⟨fun h hw => ?_⟩
    cases h
    exact nomatch (CodeBuffer.failed_fail (by decide)).symm.trans hw

instance writes_jalr (base : Reg) (off : Int64) : Writes (jalr rd base off) := Writes.second fun _ => writes_emit ..

instance writes_farCall (target : UInt64) (link tmp : Reg) : Writes (farCall target link tmp) := by
  refine Writes.second fun a => ?_
  dsimp only
  split
  · exact writes_jalOffset ..
  · split <;> exact Writes.second fun _ => writes_jalr ..

end

end Asm

namespace Lower

/-! ## Work that leads from one kind of state to another -/

/-- The work only adds. From a state of the first kind it leads to one of the second, or stops for
another reason than two maps at one offset. -/
structure Leads {α : Type} (P Q : Lowering → Prop) (x : Lower α) : Prop where
  grown : ∀ {t s r s'}, x t s = .ok (r, s') → Lowering.Grown t s s'
  arrives : ∀ {t s r s'}, s.asm.Begun t → P s → x t s = .ok (r, s') → Q s'
  spared : ∀ {t s f}, s.asm.Begun t → P s → x t s = .error f → f.Other

section
variable {α β : Type} {P Q R : Lowering → Prop}

variable {t : Target} {s : Lowering} (x : Asm α)

theorem bind_eq_error {x : Lower α} {f : α → Lower β} {g : Fault} :
    (x >>= f) t s = .error g ↔ x t s = .error g ∨ ∃ r s', x t s = .ok (r, s') ∧ f r t s' = .error g := by
  show (x t s >>= fun p => f p.1 t p.2) = _ ↔ _
  cases x t s with
  | error e =>
    refine ⟨fun h => ?_, fun h => ?_⟩
    · cases h
      exact .inl rfl
    · rcases h with h | ⟨_, _, h, -⟩
      · cases h
        rfl
      · cases h
  | ok p =>
    refine ⟨fun h => .inr ⟨p.1, p.2, rfl, h⟩, fun h => ?_⟩
    rcases h with h | ⟨_, _, h, h'⟩
    · cases h
    · cases h
      exact h'

theorem Leads.bind {x : Lower α} {f : α → Lower β} (hx : Leads P Q x) (hf : ∀ r, Leads Q R (f r)) :
    Leads P R (x >>= f) where
  grown h := by
    obtain ⟨r, s, hr, hs⟩ := bind_eq_ok.mp h
    exact (hx.grown hr).trans ((hf r).grown hs)
  arrives hb hp h := by
    obtain ⟨r, s, hr, hs⟩ := bind_eq_ok.mp h
    exact (hf r).arrives (hb.grown (hx.grown hr).asm) (hx.arrives hb hp hr) hs
  spared hb hp h := by
    rcases bind_eq_error.mp h with h | ⟨r, s, hr, hs⟩
    · exact hx.spared hb hp h
    · exact (hf r).spared (hb.grown (hx.grown hr).asm) (hx.arrives hb hp hr) hs

theorem leads_pure (r : α) : Leads P P (pure r : Lower α) where
  grown h := by
    obtain ⟨-, rfl⟩ := pure_eq_ok.mp h
    exact grown_refl _ _
  arrives _ hp h := by
    obtain ⟨-, rfl⟩ := pure_eq_ok.mp h
    exact hp
  spared _ _ h := nomatch h

theorem leads_lift (e : Except Fault α) [he : Tells e] : Leads P P (liftM e : Lower α) where
  grown h := by
    obtain ⟨-, rfl⟩ := lift_eq_ok.mp h
    exact grown_refl _ _
  arrives _ hp h := by
    obtain ⟨-, rfl⟩ := lift_eq_ok.mp h
    exact hp
  spared {t s f} _ _ h := by
    cases e with
    | ok r => cases h
    | error g =>
      cases h
      exact he.other rfl

theorem leads_get : Leads P P (get : Lower Lowering) where
  grown h := by
    cases h
    exact grown_refl _ _
  arrives _ hp h := by
    cases h
    exact hp
  spared _ _ h := nomatch h

theorem leads_read : Leads P P (read : Lower Target) where
  grown h := by
    cases h
    exact grown_refl _ _
  arrives _ hp h := by
    cases h
    exact hp
  spared _ _ h := nomatch h

theorem asm_eq_error {x : Asm α} {f : Fault} : (liftM x : Lower α) t s = .error f ↔ x t s.asm = .error f := by
  simp only [liftM, monadLift, MonadLift.monadLift]
  cases x t s.asm <;> simp

/-- Writing code changes the assembler, and it stops as the writing does. -/
theorem leads_asm {x : Asm α} (hx : Asm.Grows x)
    (h : ∀ {t s r a}, P s → x t s.asm = .ok (r, a) → a.buf.failed = false → Q { s with asm := a })
    (hfail : ∀ {s}, s.asm.buf.failed = true → Q s) :
    Leads P Q (liftM x : Lower α) where
  grown hrun := by
    obtain ⟨a, ha, rfl⟩ := asm_eq_ok.mp hrun
    exact ⟨hx.grown ha, rfl, List.prefix_refl _, List.prefix_refl _, fun _ _ h => h, fun _ h => h⟩
  arrives _ hp hrun := by
    obtain ⟨a, ha, rfl⟩ := asm_eq_ok.mp hrun
    cases hf : a.buf.failed with
    | true => exact hfail hf
    | false => exact h hp ha hf
  spared _ _ hrun := hx.spared _ _ _ (asm_eq_error.mp hrun)

/-- Code that is written leaves sites as they are. -/
theorem sites_of_asm {x : Asm α} [hx : Asm.Grows x] {r : α} {a : Assembler} {places : List Nat} (hs : s.Sites places)
    (h : x t s.asm = .ok (r, a)) (hw : a.buf.failed = false) : Sites { s with asm := a } places :=
  have hquiet := (hx.steps h).quiet hw
  hs.keep hquiet.maps hquiet.offset rfl rfl

theorem leads_sited [hx : Asm.Grows x] : Leads Sited Sited (liftM x : Lower α) :=
  leads_asm hx (fun hs h hw _ => by
    obtain ⟨places, hsites⟩ := hs ((hx.grown h).working hw)
    exact ⟨places, sites_of_asm hsites h hw⟩) fun hf hw => nomatch hf.symm.trans hw

theorem leads_fresh [hx : Asm.Grows x] : Leads Fresh Fresh (liftM x : Lower α) :=
  leads_asm hx (fun hs h hw _ => by
    obtain ⟨places, hsites, hfree⟩ := hs ((hx.grown h).working hw)
    exact ⟨places, sites_of_asm hsites h hw, fun n hn => Nat.lt_of_lt_of_le (hfree n hn) ((hx.steps h).quiet hw).offset⟩)
    fun hf hw => nomatch hf.symm.trans hw

/-- Code that writes at least a word leaves no site at its end. -/
theorem leads_past [hx : Asm.Grows x] [hwrites : Asm.Writes x] : Leads Sited Fresh (liftM x : Lower α) :=
  leads_asm hx (fun hs h hw _ => by
    obtain ⟨places, hsites⟩ := hs ((hx.grown h).working hw)
    exact ⟨places, sites_of_asm hsites h hw, fun n hn => Nat.lt_of_le_of_lt (hsites.within n hn) (hwrites.word h hw)⟩)
    fun hf hw => nomatch hf.symm.trans hw

/-- The word that keeps two sites apart. -/
theorem leads_ensureUniquePc : Leads Sited Fresh ensureUniquePc where
  grown h := by
    rw [ensureUniquePc_eq] at h
    split at h
    · exact (leads_sited Asm.nop).grown h
    · exact (leads_pure (P := Sited) ()).grown h
  arrives {t s r s'} hb hs h := by
    rw [ensureUniquePc_eq] at h
    split at h
    · exact (leads_past Asm.nop).arrives hb hs h
    · rename_i hlast
      obtain ⟨-, rfl⟩ := pure_eq_ok.mp h
      intro hw
      obtain ⟨places, hsites⟩ := hs hw
      refine ⟨places, hsites, fun n hn => Nat.lt_of_le_of_ne (hsites.within n hn) ?_⟩
      rintro rfl
      exact hlast (by rw [hsites.last, hsites.last_of_end hn]; rfl)
  spared hb hs h := by
    rw [ensureUniquePc_eq] at h
    split at h
    · exact (leads_sited Asm.nop).spared hb hs h
    · exact (leads_pure (P := Sited) ()).spared hb hs h

/-! ## Recording a site -/

instance tells_ofReg (r : Reg) : Tells (Location.ofReg r) := by
  cases r <;> (dsimp only [Location.ofReg]; infer_instance)

instance tells_location (o : Operand) : Tells o.location := by
  cases o <;> (dsimp only [Operand.location]; infer_instance)

instance tells_record (m : OopMap) (e : OopEntry) : Tells (m.record e) := by
  have : Unlike "oop map slot " := ⟨'l', by decide, by decide⟩
  unfold OopMap.record
  infer_instance

instance tells_ofLive (live : List Operand) (slots : Int64) : Tells (OopMap.ofLive live slots) := by
  have (m : OopMap) (o : Operand) : Tells (m.recordLive o) := by
    unfold OopMap.recordLive OopMap.setOop OopMap.setNarrowOop
    cases o.kind <;> (dsimp only; infer_instance)
  unfold OopMap.ofLive
  infer_instance

/-- A site is recorded where none stands. -/
theorem leads_addSite (info : Option SiteInfo) (extra : List Operand) :
    Leads Fresh Sited (offset >>= fun off => addSiteAt off info extra) where
  grown {t s r s'} h := by
    cases info with
    | none =>
      cases h
      exact grown_refl _ _
    | some info =>
      rcases addSiteAt_eq_ok h with ⟨-, rfl⟩ | ⟨-, oopMap, maps, -, hmaps, rfl⟩
      · exact grown_refl _ _
      · refine ⟨.single (.map hmaps rfl), rfl, List.prefix_refl _, ?_, fun _ _ h => h, fun _ h => h⟩
        rw [Array.toList_push]
        exact List.prefix_append ..
  arrives {t s r s'} hb hs h := by
    cases info with
    | none =>
      cases h
      exact hs.sited
    | some info =>
      rcases addSiteAt_eq_ok h with ⟨-, rfl⟩ | ⟨hw, oopMap, maps, -, hmaps, rfl⟩
      · exact hs.sited
      · intro _
        obtain ⟨places, hsites, hfree⟩ := hs hw
        exact ⟨places ++ [s.asm.buf.offset], hsites.push hfree hmaps⟩
  spared {t s f} hb hs h := by
    cases info with
    | none => cases h
    | some info =>
      rcases bind_eq_error.mp h with h | ⟨off, s1, hoff, h⟩
      · cases h
      cases hoff
      rcases bind_eq_error.mp h with h | ⟨failed, s1, hfailed, h⟩
      · cases h
      obtain ⟨a, hrun, rfl⟩ := asm_eq_ok.mp hfailed
      cases hrun
      split at h
      · cases h
      rename_i hw
      have hworks : s.asm.buf.failed = false := by simpa using hw
      obtain ⟨places, hsites, hfree⟩ := hs hworks
      have hadd (m : OopMap) : Tells (s.asm.oopMaps.add (Int64.ofNat s.asm.buf.offset) m) := by
        unfold OopMapSet.add
        rw [hsites.free (hb.small hworks) hfree]
        exact tells_ok _
      rcases bind_eq_error.mp h with h | ⟨u, s1, hget, h⟩
      · cases h
      cases hget
      rcases bind_eq_error.mp h with h | ⟨oopMap, s1, hmap, h⟩
      · exact (leads_lift (P := Fresh) _).spared hb hs h
      obtain ⟨-, rfl⟩ := lift_eq_ok.mp hmap
      rcases bind_eq_error.mp h with h | ⟨_, s1, -, h⟩
      · exact (tells_bind _ _).other (Asm.change_eq_error (asm_eq_error.mp h))
      · cases h

theorem leads_siteThen (info : Option SiteInfo) (extra : List Operand) {f : Unit → Lower β}
    (hf : ∀ r, Leads Sited R (f r)) :
    Leads Fresh R (offset >>= fun off => addSiteAt off info extra >>= f) := by
  have h := (leads_addSite info extra).bind hf
  rwa [bind_assoc] at h

end

end Lower

end RiscvJit
