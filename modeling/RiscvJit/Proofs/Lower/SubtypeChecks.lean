import RiscvJit.Proofs.Lower.Running
import RiscvJit.Proofs.Stub.SubtypeScan

/-
  RiscvJit.Proofs.Lower.SubtypeChecks — subtype checks leave for the label that is right.

  Descriptors in memory are `Laid`, and the scan of secondary supers is where calls of the runtime
  go (`Checkable`, `Poised`). Then both checks of a class against a type, the one that knows the
  super check offset of the type and the one that loads it, leave for one label when the class is a
  subtype and for the other when it is not (`lowers_checkSubtypeStatic`, `lowers_checkSubtypeDynamic`).
  On the way there (`Tested`) at most scratch registers change, the stack below the stack pointer and
  caches, and descriptors are still as they should be.
-/

namespace RiscvJit

open Machine (Keeps get_withPc)
open Reg (ra sp t0 t1)

/-! ## What is written -/

variable {α : Type} {H : Hierarchy α}

/-! ## Where checks run -/

/-- The stack that checks use. -/
abbrev CheckStack (top : UInt64) : UInt64 → Prop := Spans (top.toNat - 48) 48

/-- Checks may write there. -/
def Descriptors.Checks (D : Descriptors H) (top x : UInt64) : Prop := CheckStack top x ∨ D.Cache x

/-- The scan is where the runtime's entry for it is, and checks write neither over the code nor over the scan. -/
structure Checkable (t : Target) (W : World) (start : UInt64) (Free : UInt64 → Prop) (D : Descriptors H) (scan : CodeBlob)
    (top : UInt64) : Prop where
  generated : ∃ base, Stub.subtypeScan t base = .ok scan ∧ (base ≠ 0 → t.runtime.addr .slowSubtypeCheck = base)
  outside : ∀ i < scan.code.length, W (t.runtime.addr .slowSubtypeCheck + UInt64.ofNat i) = none
  even : t.runtime.addr .slowSubtypeCheck % 2 = 0
  start : start % 2 = 0
  room : 48 ≤ top.toNat
  free : ∀ x, D.Checks top x → Free x ∧ scan.Clear (t.runtime.addr .slowSubtypeCheck) x
  apart : ∀ x, D.Covers x → ¬ CheckStack top x

/-- The machine has descriptors and the scan in memory. -/
structure Poised (t : Target) (D : Descriptors H) (scan : CodeBlob) (top : UInt64) (m : Machine) : Prop where
  stack : m.get sp = top
  laid : D.Laid m.mem
  scan : scan.Stands (t.runtime.addr .slowSubtypeCheck) m

/-- A check has run. -/
structure Tested (D : Descriptors H) (top : UInt64) (tmps : List Reg) (m m' : Machine) : Prop where
  alters : Alters ([t0, t1, ra] ++ tmps) (D.Checks top) m m'
  laid : D.Laid m'.mem

section
variable {t : Target} {D : Descriptors H} {scan : CodeBlob} {top : UInt64} {m m1 m' : Machine} {tmps : List Reg}

theorem Tested.withPc (h : Tested D top tmps m m') (p : UInt64) : Tested D top tmps m { m' with pc := p } :=
  ⟨h.alters.withPc p, h.laid⟩

theorem Tested.after (h : Tested D top tmps m1 m') (h1 : Alters ([t0, t1, ra] ++ tmps) (D.Checks top) m m1) :
    Tested D top tmps m m' := ⟨h1.trans h.alters, h.laid⟩

theorem Tested.mono {tmps' : List Reg} (h : Tested D top tmps m m') (ht : ∀ r ∈ tmps, r ∈ tmps') :
    Tested D top tmps' m m' where
  alters := h.alters.mono (fun r hr => (List.mem_append.mp hr).elim (List.mem_append_left _) fun hr =>
  List.mem_append_right _ (ht r hr))
    fun _ hx => hx
  laid := h.laid

/-- Registers were set, and memory is as before. -/
theorem tested_of_regs (hl : D.Laid m.mem) (h : Alters ([t0, t1, ra] ++ tmps) (fun _ => False) m m') :
    Tested D top tmps m m' := by
  refine ⟨h.mono (fun _ h => h) fun _ h => h.elim, ?_⟩
  exact hl.keep fun x _ => h.mem x id

theorem Poised.put (h : Poised t D scan top m) {r : Reg} {tmps : List Reg} {v : UInt64} (hput : Put r tmps v m m')
    (hr : r ≠ sp) (ht : sp ∉ tmps) : Poised t D scan top m' where
  stack := (hput.rest _ hr.symm ht).trans h.stack
  laid := by
    rw [hput.mem]
    exact h.laid
  scan i hi := by
    rw [hput.mem]
    exact h.scan i hi

theorem Poised.withPc (h : Poised t D scan top m) (p : UInt64) : Poised t D scan top { m with pc := p } :=
  ⟨(get_withPc ..).trans h.stack, h.laid, h.scan⟩

end

/-! ## What slots tell -/

/-- The offset at which a type is looked for is a small number. -/
theorem cacheOffset_iff {k : α} : klassLayout.secondarySuperCache = Int64.ofNat (H.checkOffset k) ↔
    H.checkOffset k = 0x20 := by
  have hlt := Hierarchy.checkOffset_lt (H := H) k
  constructor
  · intro h
    have hnat := congrArg (fun v => v.toUInt64.toNat) h
    simp only [Int64.toUInt64_ofNat'] at hnat
    rw [UInt64.toNat_ofNat_of_lt' (by show _ < 2 ^ 64; omega)] at hnat
    exact hnat.symm
  · intro h
    rw [h]
    rfl

/-- What is found in the slot of a type is below it. -/
theorem Descriptors.Laid.slot_sub {D : Descriptors H} {mem : Ram} {c k : α} (hl : D.Laid mem)
    (hproper : H.isInterface c = false)
    (h : mem.read (D.addr c + UInt64.ofNat (H.checkOffset k)) 8 = D.addr k) : H.Sub c k := by
  by_cases hk : H.Primary k
  · exact (hl.display_iff hproper hk).mp h
  · rw [Hierarchy.checkOffset_secondary hk] at h
    exact hl.cache_sub h

namespace Site

variable {S : Site} {D : Descriptors H} {scan : CodeBlob} {top : UInt64} {m : Machine} {E : Exits}
  {Q : Unit → Machine → Prop} {c k : α} {sub super : Reg} {success failure : Label}

/-- The scan comes back with the answer in place of the supertype. -/
theorem does_scanCall (hS : Checkable S.target S.world S.start S.Free D scan top) {m : Machine}
    (hstack : m.get sp = top - 16) (hlaid : D.Laid m.mem)
    (hscan : scan.Stands (S.target.runtime.addr .slowSubtypeCheck) m) (hsub : m.mem.read (top - 16 + 8) 8 = D.addr c)
    (hsuper : m.mem.read (top - 16) 8 = D.addr k)
    (h : ∀ m', (∀ r, r ∉ [t0, t1, ra] → m'.get r = m.get r) → (∀ x, ¬ D.Checks top x → m'.mem x = m.mem x) →
      D.Laid m'.mem → (m'.mem.read (top - 16) 8 ≠ 0 ↔ k ∈ D.secondaries c) → Q () m') :
    S.Does (Asm.rtCall .slowSubtypeCheck) m E Q := by
  have hroom := hS.room
  have hlow : (top - 16).toNat = top.toNat - 16 := toNat_back (k := 16) (by omega)
  have htop := top.toNat_lt
  have hin {x : UInt64} (hx : D.Scannable (top - 16) x) : D.Checks top x := by
    rcases hx with hx | hx
    · refine .inl ?_
      omega
    · exact .inr hx
  obtain ⟨base, hgen, hbase⟩ := hS.generated
  refine .bind (does_entryAddress ?_)
  refine does_subroutine [t0] hS.start (fun a a' hrun ha ha' hat =>
    farCall_reaches (by decide) hS.even hS.start hrun ha ha' hat)
    fun m1 ret _ hcalled => ?_
  have hsp1 : m1.get sp = top - 16 := (hcalled.rest _ (by decide) (by decide)).trans hstack
  have hasked : Asked D (scan.Clear (S.target.runtime.addr .slowSubtypeCheck)) c k m1 := by
    refine ⟨?_, ?_, ?_, ?_, ?_, ?_, ?_⟩
    · rw [hsp1, hcalled.mem, hsub]
    · rw [hsp1, hcalled.mem, hsuper]
    · rw [hcalled.mem]
      exact hlaid
    · rw [hsp1, hlow]
      omega
    · rw [hsp1, hlow]
      omega
    · intro x hx
      rw [hsp1] at hx
      exact (hS.free x (hin hx)).2
    · intro x hx hs
      rw [hsp1, hlow] at hs
      exact hS.apart x hx (by omega)
  have hstands : scan.Stands (S.target.runtime.addr .slowSubtypeCheck) m1 := fun i hi => by
    rw [hcalled.mem]
    exact hscan i hi
  obtain ⟨m2, hreach, hanswered⟩ := subtypeScan_answers hgen hS.outside hbase hstands hcalled.pc hasked
  have hmem : ∀ x, ¬ D.Checks top x → m2.mem x = m1.mem x := fun x hx => hanswered.alters.mem x fun hs => by
    rw [hsp1] at hs
    exact hx (hin hs)
  refine ⟨m2, hreach, hanswered.pc, fun x hx => hmem x fun hs => hx (hS.free x hs).1,
    h m2 (fun r hr => ?_) (fun x hx => ?_)
    hanswered.laid ?_⟩
  · simp only [List.mem_cons, List.not_mem_nil, or_false, not_or] at hr
    rw [hanswered.alters.regs r (by simp [hr.1, hr.2.1]), hcalled.rest r hr.2.2 (by simp [hr.1])]
  · rw [hmem x hx, hcalled.mem]
  · rw [← hanswered.answer, hsp1]

/-- The slow check leaves for the label that the list of secondary supers says. -/
theorem lowers_slowSubtypeCheck (hS : Checkable S.target S.world S.start S.Free D scan top)
    (hm : Poised S.target D scan top m) (hsub : m.get sub = D.addr c)
    (hsuper : m.get super = D.addr k) (hne : sub ≠ sp ∧ super ≠ sp) (hl : S.Binds success) (hl' : S.Binds failure)
    (hyes : k ∈ D.secondaries c → ∀ m', Tested D top [] m m' → E (.label success) m')
    (hno : k ∉ D.secondaries c → ∀ m', Tested D top [] m m' → E (.label failure) m') :
    S.Lowers (Lower.slowSubtypeCheck sub super success failure) m E Q := by
  have hroom := hS.room
  have htop := top.toNat_lt
  have hlow : (top - 16).toNat = top.toNat - 16 := toNat_back (k := 16) (by omega)
  have hhigh : (top - 16 + 8).toNat = top.toNat - 8 := by
    rw [show (8 : UInt64) = UInt64.ofNat 8 from rfl, toNat_off (by omega), hlow]
    omega
  refine .bind (lowers_asm (does_addi fun m1 h1 => ?_))
  have hsp1 : m1.get sp = top - 16 := by
    rw [h1.value, hm.stack]
    exact add_neg_toUInt64 _ 16
  have hlowIn {x : UInt64} (hx : Spans (top - 16).toNat 8 x) : CheckStack top x := by
    omega
  have hhighIn {x : UInt64} (hx : Spans (top - 16 + 8).toNat 8 x) : CheckStack top x := by
    omega
  refine .bind (lowers_asm (does_sdAt (a := top - 16 + 8) (by rw [hsp1]; rfl) (by omega)
    (fun x hx => (hS.free x (.inl (hhighIn hx))).1) fun m2 h2 => ?_))
  refine .bind (lowers_asm (does_sdAt (a := top - 16) (by rw [h2.rest _ List.not_mem_nil, hsp1]; exact UInt64.add_zero _)
    (by omega) (fun x hx => (hS.free x (.inl (hlowIn hx))).1) fun m3 h3 => ?_))
  have hsp3 : m3.get sp = top - 16 := by rw [h3.rest _ List.not_mem_nil, h2.rest _ List.not_mem_nil, hsp1]
  have halters3 : Alters [sp] (CheckStack top) m m3 :=
    (h1.alters (by decide) (by simp)).trans ((h2.alters (by simp) (by omega) fun _ => hhighIn).trans
      (h3.alters (by simp) (by omega) fun _ => hlowIn))
  have hscan3 : scan.Stands (S.target.runtime.addr .slowSubtypeCheck) m3 := fun i hi => by
    rw [halters3.mem _ fun hs => (hS.free _ (.inl hs)).2 i (by simpa using hi) rfl]
    exact hm.scan i hi
  refine .bind (lowers_asm (does_scanCall hS (c := c) (k := k) hsp3
    (hm.laid.keep fun x hx => halters3.mem x (hS.apart x hx)) hscan3 ?_ ?_ fun m4 hregs4 hmem4 hlaid4 hanswer => ?_))
  · rw [h3.mem, Ram.read_write_off _ _ (by omega) (by omega) (by omega), h2.mem, read_write_eight,
      h1.other _ hne.1, hsub]
  · rw [h3.mem, read_write_eight, h2.rest _ List.not_mem_nil, h1.other _ hne.2, hsuper]
  refine .bind (lowers_asm (does_ld fun m5 h5 => .bind (lowers_asm (does_addi fun m6 h6 => ?_))))
  have hsp4 : m4.get sp = top - 16 := (hregs4 _ (by decide)).trans hsp3
  have hvalue : m6.get t0 ≠ 0 ↔ k ∈ D.secondaries c := by
    rw [h6.other _, h5.value, hsp4, show (0 : Int64).toUInt64 = 0 from rfl, UInt64.add_zero]
    exact hanswer
  have hmem6 : m6.mem = m4.mem := h6.mem.trans h5.mem
  have htested : Tested D top [] m m6 := by
    refine ⟨⟨fun r hr => ?_, fun x hx => ?_⟩, ?_⟩
    · rw [List.append_nil] at hr
      by_cases hsp : r = sp
      · subst hsp
        rw [h6.value, h5.other _, hsp4, show (16 : Int64).toUInt64 = 16 from rfl,
          UInt64.sub_add_cancel, hm.stack]
      · have ht0 : r ≠ t0 := by
          rintro rfl
          exact hr (by decide)
        rw [h6.other r hsp, h5.other r ht0, hregs4 r hr, halters3.regs r (by simpa using hsp)]
    · rw [hmem6, hmem4 x hx, halters3.mem x fun hs => hx (.inl hs)]
    · rw [hmem6]
      exact hlaid4
  refine .bind (lowers_asm (does_bcond rfl hl' (fun htaken p => hno (fun hk => ?_) _ (htested.withPc p)) fun hnot p =>
    lowers_asm (does_j hl fun p' => hyes ?_ _ ((htested.withPc p).withPc p'))))
  · exact hvalue.mpr hk (of_decide_eq_true htaken)
  · exact hvalue.mp (of_decide_eq_false hnot)

/-- The check against a type whose super check offset is known leaves for the label that is right. -/
theorem lowers_checkSubtypeStatic {offset : Int32} {fast : Bool}
    (hS : Checkable S.target S.world S.start S.Free D scan top) (hm : Poised S.target D scan top m)
    (hsub : m.get sub = D.addr c) (hsuper : m.get super = D.addr k) (hproper : H.isInterface c = false)
    (hne : (sub ≠ sp ∧ super ≠ sp) ∧ sub ≠ t0 ∧ super ≠ t0) (hoffset : offset.toInt64 = Int64.ofNat (H.checkOffset k))
    (hfast : fast = true → ∀ d, H.Sub d k → d = k) (hl : S.Binds success) (hl' : S.Binds failure)
    (hyes : H.Sub c k → ∀ m', Tested D top [] m m' → E (.label success) m')
    (hno : ¬ H.Sub c k → ∀ m', Tested D top [] m m' → E (.label failure) m') :
    S.Lowers (Lower.checkSubtypeStatic sub super offset fast success failure) m E Q := by
  have hstay : Tested D top [] m m := tested_of_regs hm.laid (alters_refl ..)
  have hcache : klassLayout.secondarySuperCache = offset.toInt64 ↔ H.checkOffset k = 0x20 := by
    rw [hoffset]
    exact cacheOffset_iff
  unfold Lower.checkSubtypeStatic
  refine .bind (lowers_asm (does_bcond rfl hl (fun htaken p => hyes ?_ _ (hstay.withPc p)) fun hnot p => ?_))
  · obtain rfl : c = k := Descriptors.addr_inj (hsub.symm.trans ((of_decide_eq_true htaken).trans hsuper))
    exact .refl
  have hck : c ≠ k := fun e => of_decide_eq_false hnot (by rw [hsub, hsuper, e])
  split
  case _ hquick => exact lowers_asm (does_j hl' fun p' =>
    hno (fun h => hck (hfast hquick c h)) _ ((hstay.withPc p).withPc p'))
  refine .bind (lowers_asm (does_loadOff (o := .ld) rfl rfl (by decide) (by decide) fun m1 h1 => ?_))
  have hslot : m1.get t0 = m.mem.read (D.addr c + UInt64.ofNat (H.checkOffset k)) 8 := by
    rw [h1.value, get_withPc, hsub, hoffset, Int64.toUInt64_ofNat']
    rfl
  have hput1 : Put t0 [t0] (m1.get t0) m m1 := ⟨rfl, fun r hr ht => (h1.rest r hr ht).trans (get_withPc ..), h1.mem⟩
  have htested1 : Tested D top [] m m1 := tested_of_regs hm.laid (hput1.alters (by simp) (by simp))
  have hm1 := hm.put hput1 (by decide) (by decide)
  have hsub1 : m1.get sub = D.addr c := (hput1.rest _ hne.2.1 (by simpa using hne.2.1)).trans hsub
  have hsuper1 : m1.get super = D.addr k := (hput1.rest _ hne.2.2 (by simpa using hne.2.2)).trans hsuper
  refine .bind (lowers_asm (does_bcond rfl hl (fun htaken p1 => hyes ?_ _ (htested1.withPc p1)) fun hmiss p1 => ?_))
  · exact hm.laid.slot_sub hproper (hslot.symm.trans ((of_decide_eq_true htaken).trans hsuper1))
  have hmiss : m.mem.read (D.addr c + UInt64.ofNat (H.checkOffset k)) 8 ≠ D.addr k := fun e =>
    of_decide_eq_false hmiss (hslot.trans (e.trans hsuper1.symm))
  split
  case _ hother =>
    have hprimary : H.Primary k := Classical.byContradiction fun hk =>
      hother (hcache.mpr (Hierarchy.checkOffset_eq_cache.mpr hk)).symm
    exact lowers_asm (does_j hl' fun p2 => hno (fun h => hmiss ((hm.laid.display_iff hproper hprimary).mpr h)) _
      ((htested1.withPc p1).withPc p2))
  case _ hsame =>
    have hsecondary : ¬ H.Primary k := Hierarchy.checkOffset_eq_cache.mp (hcache.mp (Classical.not_not.mp hsame).symm)
    exact lowers_slowSubtypeCheck hS (hm1.withPc p1) ((get_withPc ..).trans hsub1) ((get_withPc ..).trans hsuper1) hne.1
      hl hl' (fun hk m' h => hyes ((Descriptors.mem_secondaries_iff hck hsecondary).mp hk) m'
      (h.after (htested1.withPc p1).alters))
      fun hk m' h => hno (fun h => hk ((Descriptors.mem_secondaries_iff hck hsecondary).mpr h)) m'
        (h.after (htested1.withPc p1).alters)

/-- The check against a type whose super check offset is in its descriptor leaves for the label that is right. -/
theorem lowers_checkSubtypeDynamic {tmp : Reg} (hS : Checkable S.target S.world S.start S.Free D scan top)
    (hm : Poised S.target D scan top m) (hsub : m.get sub = D.addr c)
    (hsuper : m.get super = D.addr k) (hproper : H.isInterface c = false)
    (hne : (sub ≠ sp ∧ super ≠ sp) ∧ sub ∉ [tmp, t0, t1] ∧ super ∉ [tmp, t0, t1]) (htmp : Keeps tmp ∧ tmp ∉ [sp, t0, t1])
    (hl : S.Binds success) (hl' : S.Binds failure) (hyes : H.Sub c k → ∀ m', Tested D top [tmp] m m' →
    E (.label success) m')
    (hno : ¬ H.Sub c k → ∀ m', Tested D top [tmp] m m' → E (.label failure) m') :
    S.Lowers (Lower.checkSubtypeDynamic sub super tmp success failure) m E Q := by
  obtain ⟨hnsp, hsubOther, hsuperOther⟩ := hne
  obtain ⟨hkeeps, htmpOther⟩ := htmp
  simp only [List.mem_cons, List.not_mem_nil, or_false, not_or] at hsubOther hsuperOther htmpOther
  have hstay : Tested D top [tmp] m m := tested_of_regs hm.laid (alters_refl ..)
  unfold Lower.checkSubtypeDynamic
  refine .bind (lowers_asm (does_bcond rfl hl (fun htaken p => hyes ?_ _ (hstay.withPc p)) fun hnot p => ?_))
  · obtain rfl : c = k := Descriptors.addr_inj (hsub.symm.trans ((of_decide_eq_true htaken).trans hsuper))
    exact .refl
  have hck : c ≠ k := fun e => of_decide_eq_false hnot (by rw [hsub, hsuper, e])
  refine .bind (lowers_asm (does_lwu hkeeps fun m1 h1 => .bind (lowers_asm (does_add (by decide) fun m2 h2 =>
    .bind (lowers_asm (does_ld fun m3 h3 => ?_))))))
  rw [get_withPc] at h1
  have hread : m1.get tmp = UInt64.ofNat (H.checkOffset k) := by
    rw [h1.value, hsuper]
    exact hm.laid.offset k
  have hslot : m3.get t0 = m.mem.read (D.addr c + UInt64.ofNat (H.checkOffset k)) 8 := by
    rw [h3.value, h2.mem, h2.value, h1.mem, h1.other _ hsubOther.1, get_withPc, hsub, hread,
      show (0 : Int64).toUInt64 = 0 from rfl, UInt64.add_zero]
  have hmem3 : m3.mem = m.mem := h3.mem.trans (h2.mem.trans h1.mem)
  have hrest3 (r : Reg) (ht : r ≠ tmp) (h0 : r ≠ t0) : m3.get r = m.get r := by
    rw [h3.other r h0, h2.other r h0, h1.other r ht, get_withPc]
  have htmp3 : m3.get tmp = UInt64.ofNat (H.checkOffset k) := by
    rw [h3.other _ htmpOther.2.1, h2.other _ htmpOther.2.1, hread]
  have htested3 : Tested D top [tmp] m m3 := tested_of_regs hm.laid
    ⟨fun r hr => hrest3 r (fun e => hr (by simp [e])) fun e => hr (by simp [e]), fun _ _ => by rw [hmem3]⟩
  have hsuper3 : m3.get super = D.addr k := (hrest3 _ hsuperOther.1 hsuperOther.2.1).trans hsuper
  refine .bind (lowers_asm (does_bcond rfl hl (fun htaken p => hyes ?_ _ (htested3.withPc p)) fun hmiss p => ?_))
  · exact hm.laid.slot_sub hproper (hslot.symm.trans ((of_decide_eq_true htaken).trans hsuper3))
  have hmiss : m.mem.read (D.addr c + UInt64.ofNat (H.checkOffset k)) 8 ≠ D.addr k := fun e =>
    of_decide_eq_false hmiss (hslot.trans (e.trans hsuper3.symm))
  refine .bind (lowers_asm (does_li fun m4 h4 => .bind (lowers_asm (does_bcond rfl hl' (fun htaken p1 => hno ?_ _ ?_)
    fun hnot p1 => ?_))))
  · -- the type has a place in the display
    have hprimary : H.Primary k := Classical.byContradiction fun hk => of_decide_eq_true htaken (by
      rw [h4.other _ htmpOther.2.2, get_withPc, htmp3, h4.value, Hierarchy.checkOffset_secondary hk]
      rfl)
    exact fun h => hmiss ((hm.laid.display_iff hproper hprimary).mpr h)
  · exact ((tested_of_regs ((htested3.withPc p).laid) (h4.alters (by simp) (by simp))).after
      (htested3.withPc p).alters).withPc p1
  · have hput3 : Put t0 [tmp] (m3.get t0) m m3 := ⟨rfl, fun r h0 ht => hrest3 r (by simpa using ht) h0, hmem3⟩
    have hput4 : Put t1 [] (m4.get t1) { m3 with pc := p } m4 := ⟨rfl, h4.rest, h4.mem⟩
    have hm4 := (hm.put hput3 (by decide) (by simpa using fun e => htmpOther.1 e.symm)).withPc p |>.put
      hput4 (by decide) List.not_mem_nil
    have hrest4 {r : Reg} (h : r ≠ t1) : ({ m4 with pc := p1 } : Machine).get r = m3.get r := by
      rw [get_withPc, h4.other r h, get_withPc]
    have hcache : m4.get tmp = m4.get t1 := Classical.not_not.mp (of_decide_eq_false hnot)
    have hsecondary : ¬ H.Primary k := by
      refine Hierarchy.checkOffset_eq_cache.mp (cacheOffset_iff.mp ?_)
      rw [h4.other _ htmpOther.2.2, get_withPc, htmp3, h4.value, ← Int64.toUInt64_ofNat'] at hcache
      exact (congrArg Int64.ofUInt64 hcache).symm
    have hsub4 : ({ m4 with pc := p1 } : Machine).get sub = D.addr c :=
      (hrest4 hsubOther.2.2).trans ((hrest3 _ hsubOther.1 hsubOther.2.1).trans hsub)
    have hto4 : Alters ([t0, t1, ra] ++ [tmp]) (D.Checks top) m { m4 with pc := p1 } :=
      (htested3.withPc p).alters.trans ((h4.alters (by simp) (by simp)).withPc p1)
    have hafter {m' : Machine} (h : Tested D top [] { m4 with pc := p1 } m') : Tested D top [tmp] m m' :=
      (h.mono (by simp)).after hto4
    exact lowers_slowSubtypeCheck hS (hm4.withPc p1) hsub4 ((hrest4 hsuperOther.2.2).trans hsuper3) hnsp hl hl'
      (fun hk m' h => hyes ((Descriptors.mem_secondaries_iff hck hsecondary).mp hk) m' (hafter h))
      fun hk m' h => hno (fun h => hk ((Descriptors.mem_secondaries_iff hck hsecondary).mpr h)) m' (hafter h)

end Site

end RiscvJit
