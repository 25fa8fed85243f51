import RiscvJit.Proofs.Lower.TypeChecks

/-
  RiscvJit.Proofs.Lower.ProfileHistories — a profile entry after any number of type checks.

  Checks of all three kinds, in any methods and against any hierarchies, may count in one profile entry (`Checking`). Each of
  them notes in it what it finds (`Checking.notes`), so whatever checks are run one after the other, a profile that was zeroed
  shows the first types that passed with their counts (`profile_shows`). Between two checks anything may happen that does not
  change the entry.
-/

namespace RiscvJit

open Reg (sp)

variable {t : Target} {p : ProfileSite}

/-! ## Counts -/

/-- The profile shows what the checks found: the first types that passed, each with how often it did, how often others passed,
and whether there was a null. -/
structure ReceiverProfile.Shows (P : ReceiverProfile) (size : Nat) (fs : List Finding) : Prop where
  rows : ∀ n k, (shown size fs)[n]? = some k → (P.rows n).klass = k ∧ (P.rows n).count.toNat = (passing fs).count k
  empty : ∀ n, (shown size fs).length ≤ n → n < size → P.rows n = ⟨0, 0⟩
  others : P.others.toNat = (passing fs).countP fun k => k ∉ shown size fs
  flags : P.flags = if .null ∈ fs then 1 else 0

/-- A profile that holds nothing. -/
def ReceiverProfile.zeroed : ReceiverProfile := ⟨0, 0, fun _ => ⟨0, 0⟩⟩

theorem Ram.read_zeros (addr : UInt64) (n : Nat) : Ram.read (fun _ => 0) addr n = 0 := by
  induction n generalizing addr with
  | zero => rfl
  | succ n ih =>
    rw [Ram.read, ih]
    rfl

theorem ProfileSite.entry_zeros {mem : Ram} (hfits : p.mdp.toNat + 16 + 16 * p.rows.toNatClampNeg ≤ 2 ^ 64)
    (h : ∀ x, p.Covers x → mem x = 0) : p.entry mem = .zeroed := by
  rw [show p.entry mem = p.entry fun _ => 0 from p.entry_congr hfits h]
  simp only [ProfileSite.entry, Ram.read_zeros, ite_self]
  rfl

/-- After fewer checks than there are words no counter has wrapped around. -/
theorem ReceiverProfile.Tells.shows {P : ReceiverProfile} {size : Nat} {fs : List Finding} (h : P.Tells size fs)
    (hlen : fs.length < 2 ^ 64) : P.Shows size fs := by
  have hpassing : (passing fs).length < 2 ^ 64 := Nat.lt_of_le_of_lt (List.length_filterMap_le ..) hlen
  refine ⟨fun n k hn => ?_, h.empty, ?_, h.flags⟩
  · rw [h.rows n k hn]
    exact ⟨rfl, UInt64.toNat_ofNat_of_lt' (Nat.lt_of_le_of_lt List.count_le_length hpassing)⟩
  · rw [h.others]
    exact UInt64.toNat_ofNat_of_lt' (Nat.lt_of_le_of_lt List.countP_le_length hpassing)

/-! ## One check -/

/-- The machine is in front of an instruction with a check that counts in the entry. The entry is not on the stack that checks
use. -/
structure Profiling {α : Type} {H : Hierarchy α} (p : ProfileSite) (c : Resident t) (W : World) (j : Nat)
    (i : Instruction)
    (tc : TypeCheck) (D : Descriptors H) (scan : CodeBlob) (m : Machine) : Prop where
  facing : c.Facing W j i m
  check : i.typeCheck = some tc
  testing : Testing t W c.start c.Clear D scan tc m
  profile : tc.profile = some p
  apart : ∀ x, p.Covers x → ¬ CheckStack (m.get sp) x

/-- An instance test, a cast or a store is checked, and this is what the check finds. It may change these registers. -/
inductive Checking {α : Type} {H : Hierarchy α} (p : ProfileSite) (c : Resident t) (W : World) (j : Nat) (tc : TypeCheck)
    (D : Descriptors H) (m : Machine) : List Reg → Finding → Prop where
  | test {i : Instruction} {scan : CodeBlob} {a k : α} {ko kr k1 k2 : ValueKind} {obj ho hr hi1 hi2 : Reg}
    {res super sub : Fin 32}
      {f : Finding} (hm : Profiling p c W j i tc D scan m) (hop : i.op = .instanceOf)
      (hin : i.inputs[0]? = some (Operand.register ko obj ho))
      (hres : i.result = .register kr (.x res) hr) (hk : tc.AsksFor D k) (hsuper : tc.tmp1 = .register k1 (.x super) hi1)
      (hsub : tc.tmp2 = .register k2 (.x sub) hi2) (hfree : (Reg.x super).isReserved = false ∧
      (Reg.x sub).isReserved = false)
      (hobj : m.get obj ≠ 0 → D.ObjectOf t.opts m.mem (m.get obj) a)
      (hfinds : Finds (m.get obj) (H.Sub a k) (D.addr a) f) :
      Checking p c W j tc D m [.x res, .x super, .x sub] f
  | cast {i : Instruction} {scan : CodeBlob} {a k : α} {ko kr k1 k2 : ValueKind} {ho hr hi1 hi2 : Reg}
    {obj res super sub : Fin 32}
      {f : Finding} (hm : Profiling p c W j i tc D scan m) (hop : i.op = .checkCast)
      (hin : i.inputs[0]? = some (Operand.register ko (.x obj) ho)) (hres : i.result = .register kr (.x res) hr)
      (hk : tc.AsksFor D k)
      (hsuper : tc.tmp1 = .register k1 (.x super) hi1) (hsub : tc.tmp2 = .register k2 (.x sub) hi2)
      (hfree : (Reg.x super).isReserved = false ∧ (Reg.x sub).isReserved = false)
      (hobj : m.get (.x obj) ≠ 0 → D.ObjectOf t.opts m.mem (m.get (.x obj)) a)
      (hfinds : Finds (m.get (.x obj)) (H.Sub a k) (D.addr a) f) : Checking p c W j tc D m [.x res, .x super, .x sub] f
  | store {i : Instruction} {scan : CodeBlob} {a b k : α} {kv ka k1 k2 k3 : ValueKind} {array hv ha hi1 hi2 hi3 : Reg}
      {value elem sub tmp : Fin 32} {f : Finding} (hm : Profiling p c W j i tc D scan m) (hop : i.op = .storeCheck)
      (hin : i.inputs[0]? = some (Operand.register kv (.x value) hv)) (hin' : i.inputs[1]? = some (Operand.register ka array ha))
      (helem : tc.tmp1 = .register k1 (.x elem) hi1) (hsub : tc.tmp2 = .register k2 (.x sub) hi2)
      (htmp : tc.tmp3 = .register k3 (.x tmp) hi3) (hfree : ∀ r ∈ [elem, sub, tmp], (Reg.x r).isReserved = false)
      (hvalue : m.get (.x value) ≠ 0 → D.ObjectOf t.opts m.mem (m.get (.x value)) a)
      (harray : m.get (.x value) ≠ 0 → D.ObjectOf t.opts m.mem (m.get array) b) (helement : D.element b = some k)
      (hfinds : Finds (m.get (.x value)) (H.Sub a k) (D.addr a) f) : Checking p c W j tc D m [.x elem, .x sub, .x tmp] f

/-- The check was made: the next instruction is to be run, or a value that failed was rejected. -/
structure Resident.Checked {α : Type} {H : Hierarchy α} (c : Resident t) (W : World) (j : Nat)
    (tc : TypeCheck) (D : Descriptors H)
    (m : Machine) (rs : List Reg) (f : Finding) (m' : Machine) : Prop where
  reaches : W.Reaches m m'
  leaves : c.Before (j + 1) m' ∨ f = .failed ∧ ∃ e info v, c.Rejects e info v m'
  tested : tc.Tested D rs m m'

section
variable {α : Type} {H : Hierarchy α} {D : Descriptors H} {c : Resident t} {W : World} {j : Nat}
  {tc : TypeCheck} {m : Machine} {rs : List Reg} {f g : Finding} {value klass : UInt64} {sub : Prop}

theorem Finds.unique (h : Finds value sub klass f) (h' : Finds value sub klass g) : f = g := by
  cases h with
  | null hnull => cases h' <;> first | rfl | contradiction
  | passed hsome hsub => cases h' <;> first | rfl | contradiction
  | failed hsome hnot => cases h' <;> first | rfl | contradiction

theorem Finds.failed_of_not (h : Finds value sub klass f) (hnot : ¬ (value = 0 ∨ sub)) : f = .failed :=
  h.unique (.failed (fun hnull => hnot (.inl hnull)) fun hsub => hnot (.inr hsub))

/-- No type is at address zero. -/
theorem Checking.passing_ne (h : Checking p c W j tc D m rs f) : f.passing? ≠ some 0 := by
  have positive {value : UInt64} {sub : Prop} {a : α} (hfinds : Finds value sub (D.addr a) f) : f.passing? ≠ some 0 := by
    cases hfinds with
    | null => nofun
    | failed => nofun
    | passed =>
      intro hzero
      have := D.positive a
      rw [Option.some.inj hzero] at this
      exact absurd this (by decide)
  cases h <;> exact positive ‹Finds ..›

/-- A check that lets values pass or rejects them notes what it finds. -/
theorem Resident.Checks.notes {passed : Prop} {e : RuntimeEntry} {info : Option SiteInfo} {v : UInt64}
    {rs' : List Reg} {Q : Machine → Prop}
    (h : c.Checks W j m passed e info v (tc.Noted D rs' .failed m) Q) (hrs : ∀ r ∈ rs', r ∈ rs)
    (hnot : ¬ passed → f = .failed)
    (hQ : ∀ m', Q m' → tc.Noted D rs f m m') (hprofile : tc.profile = some p)
    (hapart : ∀ x, p.Covers x → ¬ CheckStack (m.get sp) x) :
    ∃ m', c.Checked W j tc D m rs f m' ∧ p.entry m'.mem = (p.entry m.mem).note p.rows.toNatClampNeg f := by
  rcases h with ⟨-, m', hreach, hbefore, hq⟩ | ⟨hfailed, m', hreach, hrejects, hp⟩
  · exact ⟨m', ⟨hreach, .inl hbefore, (hQ m' hq).tested⟩, (hQ m' hq).entry p hprofile hapart⟩
  · obtain rfl := hnot hfailed
    exact ⟨m', ⟨hreach, .inr ⟨rfl, e, info, v, hrejects⟩, hp.tested.mono hrs⟩, hp.entry p hprofile hapart⟩

/-- A check runs to its end and notes what it finds. -/
theorem Checking.notes (hopts : t.opts.refusal? = none) (heven : ∀ e, t.runtime.addr e % 2 = 0)
    (h : Checking p c W j tc D m rs f) :
    ∃ m', c.Checked W j tc D m rs f m' ∧ p.entry m'.mem = (p.entry m.mem).note p.rows.toNatClampNeg f := by
  cases h with
  | test hm hop hin hres hk hsuper hsub hfree hobj hfinds =>
    obtain ⟨m', hreach, hbefore, -, g, hg, hnoted⟩ :=
      instance_noted hopts hm.facing hop hin hres hm.check hm.testing hk hsuper hsub hfree hobj
    obtain rfl := hg.unique hfinds
    exact ⟨m', ⟨hreach, .inl hbefore, hnoted.tested⟩, hnoted.entry p hm.profile hm.apart⟩
  | cast hm hop hin hres hk hsuper hsub hfree hobj hfinds =>
    refine (cast_noted hopts (heven _) hm.facing hop hin hres hm.check hm.testing hk hsuper hsub hfree hobj).notes
      (fun _ => List.mem_cons_of_mem _) hfinds.failed_of_not (fun m' ⟨_, g, hg, hnoted⟩ => ?_) hm.profile hm.apart
    obtain rfl := hg.unique hfinds
    exact hnoted
  | store hm hop hin hin' helem hsub htmp hfree hvalue harray helement hfinds =>
    refine (store_noted hopts (heven _) hm.facing hop hin hin' hm.check hm.testing helem hsub htmp hfree
      hvalue harray helement).notes
      (fun _ hr => hr) hfinds.failed_of_not (fun m' ⟨g, hg, hnoted⟩ => ?_) hm.profile hm.apart
    obtain rfl := hg.unique hfinds
    exact hnoted

end

/-! ## All checks -/

/-- Whatever checks of this entry find these things, one after the other: each of them runs to its end, and at the end the
entry is as said. Each starts from the entry that the one before it left. -/
def Leads (t : Target) (p : ProfileSite) (Final : ReceiverProfile → Prop) : List Finding → ReceiverProfile → Prop
  | [], P => Final P
  | f :: fs, P => ∀ ⦃α : Type⦄ ⦃H : Hierarchy α⦄ ⦃D : Descriptors H⦄ ⦃c : Resident t⦄ ⦃W : World⦄ ⦃j : Nat⦄
      ⦃tc : TypeCheck⦄ ⦃m : Machine⦄ ⦃rs : List Reg⦄, Checking p c W j tc D m rs f → p.entry m.mem = P →
        ∃ m', c.Checked W j tc D m rs f m' ∧ Leads t p Final fs (p.entry m'.mem)

/-- The profile tells what the checks found that were made, whatever comes. -/
theorem leads_of_tells (hopts : t.opts.refusal? = none) (heven : ∀ e, t.runtime.addr e % 2 = 0)
    {Final : ReceiverProfile → Prop} (todo : List Finding) {done : List Finding} {P : ReceiverProfile}
    (h : P.Tells p.rows.toNatClampNeg done)
    (hdone : ∀ k ∈ passing done, k ≠ 0) (hfinal : ∀ P,
    P.Tells p.rows.toNatClampNeg (done ++ todo) → Final P) : Leads t p Final todo P := by
  induction todo generalizing done P with
  | nil => exact hfinal P (by rw [List.append_nil]; exact h)
  | cons f fs ih =>
    intro _ _ _ _ _ _ _ m _ hcheck hentry
    obtain ⟨m', hchecked, hnoted⟩ := hcheck.notes hopts heven
    have hf := hcheck.passing_ne
    rw [hentry] at hnoted
    refine ⟨m', hchecked, ih (hnoted ▸ h.note hdone hf) (fun k hk => ?_) fun P hP => hfinal P ?_⟩
    · rw [passing_concat] at hk
      rcases List.mem_append.mp hk with hk | hk
      · exact hdone k hk
      · rintro rfl
        exact hf (Option.mem_toList.mp hk)
    · rw [← List.append_cons] at hP
      exact hP

/-- After any checks a profile entry that was zeroed shows the types that passed first, in the order in which they were first
seen and each with how often it passed, how often others passed, and whether there was a null. -/
theorem profile_shows (hopts : t.opts.refusal? = none) (heven : ∀ e, t.runtime.addr e % 2 = 0) {fs : List Finding}
    (hlen : fs.length < 2 ^ 64) : Leads t p (fun P => P.Shows p.rows.toNatClampNeg fs) fs .zeroed :=
  leads_of_tells hopts heven fs (ReceiverProfile.tells_nil (fun _ _ => rfl) rfl rfl) nofun fun _ h => h.shows hlen

/-- An entry with one row, above the objects. -/
def countsAt : ProfileSite := { mdp := 0x5000, rows := 1 }

def countsInterface : TypeCheck := { asksInterface with profile := some countsAt }

/-- A method that tests an object and counts its class. -/
def countsTypes : Program := {
  testsAndCasts with
  code := #[
    { op := .instanceOf, inputs := [.register .object (.x 11) .none], result := .register .int (.x 10) .none,
      typeCheck := some countsInterface }] }

theorem countsInterface_asks : countsInterface.AsksFor implementingAt 1 := ⟨rfl, by decide, nofun⟩

theorem countsAt_covers {x : UInt64} (hx : countsAt.Covers x) : 0x5000 ≤ x.toNat ∧ x.toNat < 0x6000 := by
  have hends : countsAt.mdp.toNat = 0x5000 ∧ countsAt.rows.toNatClampNeg = 1 := by decide
  unfold ProfileSite.Covers at hx
  omega

theorem implementingMemory_behind {x : UInt64} (hx : 0x5000 ≤ x.toNat) : implementingMemory x = 0 := by
  have hwords : ∀ w ∈ implementingWords, w.1 + 8 ≤ 0x5000 := by decide
  have hnone : (implementingWords.find? fun w => w.1 ≤ x.toNat && x.toNat < w.1 + 8) = none := by
    refine List.find?_eq_none.mpr fun w hw hin => ?_
    have := hwords w hw
    simp only [Bool.and_eq_true, decide_eq_true_eq] at hin
    omega
  rw [implementingMemory, hnone]

/-- The class that implements the interface takes the row. The other one, tested by the same code, is not counted. -/
theorem a_class_takes_the_row : ∃ method off m1 m2, countsTypes.compile throwingTarget 0 = .ok method ∧
    countsTypes.placeOf throwingTarget 0 0 = .ok off ∧ ∃ scan, Stub.subtypeScan throwingTarget 0 = .ok scan ∧
    World.bare.Reaches (classy method.blob.code scan.code (0x10000 + UInt64.ofNat off)) m1 ∧
    World.bare.Reaches { m1.set (.x 11) 0x4100 with pc := 0x10000 + UInt64.ofNat off } m2 ∧
    (countsAt.entry m2.mem).Shows 1 [.passed 0x3200, .failed] ∧ ((countsAt.entry m2.mem).rows 0).klass = 0x3200 ∧
    ((countsAt.entry m2.mem).rows 0).count.toNat = 1 := by
  obtain ⟨method, off, hcompiled, hsize, hoff⟩ : countsTypes.CompilesWithin throwingTarget 0 0 0x1000 :=
    .of_checks (by decide +kernel) (by decide +kernel)
  obtain ⟨scan, hscan, hscanSize⟩ := scan_generated
  have hleads := profile_shows (t := throwingTarget) (p := countsAt) (by decide) (by intro e; cases e <;> rfl)
    (show [Finding.passed 0x3200, .failed].length < 2 ^ 64 by decide)
  let c : Resident throwingTarget := ⟨countsTypes, 0, method, 0x10000, hcompiled, absurd rfl⟩
  let m := classy method.blob.code scan.code (0x10000 + UInt64.ofNat off)
  have hlow : (0x10000 : UInt64).toNat = 0x10000 := rfl
  have hbefore : c.Before 0 m := .of_overlay hsize hoff rfl rfl
  have htesting : Testing throwingTarget World.bare c.start c.Clear implementingAt scan countsInterface m :=
    classy_testing (c := c) rfl hsize hscan hscanSize fun p hp => by
      obtain rfl : countsAt = p := Option.some.inj hp
      decide
  have hapart {x : UInt64} (hx : countsAt.Covers x) : ¬ CheckStack 0x8000 x := fun h => by
    have := countsAt_covers hx
    have htop : 0x8000 - 48 ≤ x.toNat := h.1
    omega
  have hzeroed : countsAt.entry m.mem = .zeroed := ProfileSite.entry_zeros (by decide) fun x hx => by
    have := countsAt_covers hx
    exact (classy_mem hsize hscanSize (by omega)).trans (implementingMemory_behind this.1)
  obtain ⟨m1, hchecked1, hleads1⟩ := hleads (.test (c := c) (W := World.bare) (j := 0) (m := m) (a := 2) (k := 1)
    ⟨⟨rfl, fun _ _ => rfl, hbefore⟩, rfl, htesting,
      rfl, fun _ => hapart⟩ rfl rfl rfl countsInterface_asks rfl rfl ⟨rfl, rfl⟩
    (fun _ => show implementingAt.ObjectOf throwingTarget.opts m.mem 0x4000 2 from
      classy_object hsize hscanSize (by decide) rfl (by decide +kernel) fun _ _ _ => rfl)
    (.passed (by decide : (0x4000 : UInt64) ≠ 0) (.single (.inr (by decide))))) hzeroed
  -- the test is run again, with the other object
  let m' : Machine := { m1.set (.x 11) 0x4100 with pc := 0x10000 + UInt64.ofNat off }
  have hmem : m'.mem = m1.mem := Machine.set_mem ..
  have hput : Put (.x 11) [] 0x4100 m1 (m1.set (.x 11) 0x4100) :=
    ⟨by rw [Machine.get_set _ (by decide), if_pos rfl], fun r hr _ => by rw [Machine.get_set _ (by decide), if_neg hr], hmem⟩
  have htested : countsInterface.Tested implementingAt [.x 10, .x 12, .x 13, .x 11] m m' :=
    ((hchecked1.tested.mono (by simp)).put hput (by simp)).withPc _
  have hprofile {x : UInt64} (hx : countsInterface.Profiles x) : 0x5000 ≤ x.toNat ∧ x.toNat < 0x6000 := by
    obtain ⟨p, hp, hx⟩ := hx
    obtain rfl : countsAt = p := Option.some.inj hp
    exact countsAt_covers hx
  have htesting' := htesting.later htested (by decide) fun x hx =>
    (classy_clear (c := c) rfl hsize hscanSize (by have := hprofile hx; omega)).2
  have hbefore1 : c.Before 1 m1 := hchecked1.leaves.resolve_right fun h => by cases h.1
  have hbefore' : c.Before 0 m' := ⟨hbefore1.stands.keep fun x _ => congrFun hmem x, off, hoff, rfl⟩
  have hobject : m'.get (.x 11) = 0x4100 := hput.value
  have hstack : m'.get sp = 0x8000 := htested.alters.regs _ (by decide)
  obtain ⟨m2, hchecked2, hshows⟩ := hleads1 (.test (c := c) (W := World.bare) (j := 0) (m := m') (a := 0) (k := 1)
    ⟨⟨rfl, fun _ _ => rfl, hbefore'⟩, rfl, htesting', rfl, fun x hx => by rw [hstack]; exact hapart hx⟩ rfl rfl rfl
    countsInterface_asks rfl rfl ⟨rfl, rfl⟩ (fun _ => hobject ▸ classy_object hsize hscanSize (by decide)
    rfl (by decide +kernel)
      fun x hlow hx => htested.alters.mem x fun hs => hs.elim hx fun hx => by have := hprofile hx; omega)
    (.failed (hobject ▸ by decide) fun hsub => absurd (implementing_sub hsub) (by decide))) (by rw [hmem])
  obtain ⟨hklass, hcount⟩ := hshows.rows 0 0x3200 (by decide)
  exact ⟨method, off, m1, m2, hcompiled, hoff, scan, hscan, hchecked1.reaches, hchecked2.reaches, hshows, hklass, hcount⟩

end RiscvJit
