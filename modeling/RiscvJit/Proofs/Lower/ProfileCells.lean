import RiscvJit.Proofs.Lower.Resident
import RiscvJit.Proofs.Lower.TypeProfiles

/-
  RiscvJit.Proofs.Lower.ProfileCells — what a profile cell tells of the values that were profiled.

  Instructions of any number of methods share a cell (`ProfilePoint`), and each was compiled when the
  cell held some earlier value: what was settled by then is left out of its code. One run of such code
  does to the cell what `TypeProfile.record` says (`ProfilePoint.runs`). No bit of the cell is ever
  lost (`CellKept`), so what was settled when the code was compiled is settled when it runs, and the cell
  tells at any time whether there was a null, which type came first and whether others followed
  (`cell_tells_history`).
-/

namespace RiscvJit

open Lower

/-! ## Bits of a cell -/

variable {c : UInt64} (x : UInt64)

theorem or_masked (y m : UInt64) : (x ||| y) &&& m = x &&& m ||| y &&& m := by
  refine UInt64.eq_of_toBitVec_eq ?_
  simp only [UInt64.toBitVec_and, UInt64.toBitVec_or]
  ext i hi
  simp only [BitVec.getElem_and, BitVec.getElem_or, Bool.and_or_distrib_right]

theorem xor_masked (y m : UInt64) : (x ^^^ y) &&& m = x &&& m ^^^ y &&& m := by
  refine UInt64.eq_of_toBitVec_eq ?_
  simp only [UInt64.toBitVec_and, UInt64.toBitVec_xor]
  ext i hi
  simp only [BitVec.getElem_and, BitVec.getElem_xor, Bool.and_xor_distrib_right]

/-- Bits that are not looked at may be set. -/
theorem or_masked_off {y m : UInt64} (h : y &&& m = 0) (x : UInt64) : (x ||| y) &&& m = x &&& m := by
  rw [or_masked, h, UInt64.or_zero]

theorem and_three (h : c % 4 = 0) : c &&& 3 = 0 := by
  rw [← UInt64.toNat_inj, UInt64.toNat_and, show UInt64.toNat 3 = 2 ^ 2 - 1 from rfl, Nat.and_two_pow_sub_one_eq_mod]
  exact (UInt64.toNat_mod c 4).symm.trans (congrArg UInt64.toNat h)

/-- A descriptor has no other bits. -/
theorem cellKlass_of_aligned (h : c % 4 = 0) : cellKlass c = c := by
  have hsplit : cellKlass c ^^^ c &&& 3 = c := by
    rw [cellKlass, UInt64.and_comm c, UInt64.and_comm c, ← xor_masked,
      show typeKlassMask.toUInt64 ^^^ 3 = -1 from by decide, UInt64.and_comm, UInt64.and_neg_one]
  rwa [and_three h, UInt64.xor_zero] at hsplit

theorem aligned_masked {m : UInt64} (h : c % 4 = 0) (hm : 3 &&& m = m) : c &&& m = 0 := by
  rw [← hm, ← UInt64.and_assoc, and_three h, UInt64.zero_and]

/-- The cell has the mark for a null. -/
def CellNull (x : UInt64) : Prop := x &&& typeNullSeen.toUInt64 ≠ 0

/-- The cell has the mark for several types. -/
def CellSeveral (x : UInt64) : Prop := x &&& typeUnknown.toUInt64 ≠ 0

/-! ## What a record does -/

/-- What a cell held it holds on to. -/
structure CellKept (y x : UInt64) : Prop where
  null : CellNull y → CellNull x
  several : CellSeveral y → CellSeveral x
  klass : cellKlass y ≠ 0 → cellKlass x = cellKlass y

theorem CellKept.refl : CellKept x x := ⟨id, id, fun _ => rfl⟩

theorem CellKept.trans {x y z : UInt64} (h : CellKept x y) (h' : CellKept y z) : CellKept x z where
  null := h'.null ∘ h.null
  several := h'.several ∘ h.several
  klass hx := (h'.klass (by rwa [h.klass hx])).trans (h.klass hx)

theorem masked_eq_zero_iff (m : Int64) : x.toInt64 &&& m = 0 ↔ x &&& m.toUInt64 = 0 := by
  constructor
  · intro h
    rw [← UInt64.toUInt64_toInt64 x, ← Int64.toUInt64_and, h]
    rfl
  · intro h
    rw [← Int64.toInt64_toUInt64 m, ← UInt64.toInt64_and, h]
    rfl

/-- Descriptors are no null and aligned, so that their lowest bits are free. -/
def ProperKlass (c : UInt64) : Prop := c ≠ 0 ∧ c % 4 = 0

section
variable {p : TypeProfile} {x c : UInt64} {k : Option UInt64}

/-- The mark for a null is the only thing that a null adds. -/
theorem record_none : cellKlass (p.record none x) = cellKlass x ∧ (CellSeveral (p.record none x) ↔ CellSeveral x) ∧
    (CellNull (p.record none x) ↔ CellNull x ∨ ¬ CellNull p.current) := by
  simp only [TypeProfile.record, masked_eq_zero_iff]
  split
  · case _ hunseen =>
    refine ⟨or_masked_off (by decide) x, ?_, iff_of_true ?_ (.inr fun h => h hunseen)⟩
    · rw [CellSeveral, or_masked_off (by decide), CellSeveral]
    · rw [CellNull, or_masked]
      intro h
      exact absurd (UInt64.or_eq_zero_iff.mp h).2 (by decide)
  · case _ hseen => exact ⟨rfl, .rfl, ⟨.inl, fun h => h.resolve_right fun h => h hseen⟩⟩

/-- What a type adds to a cell. -/
inductive Recorded (p : TypeProfile) (c x x' : UInt64) : Prop
  /-- Nothing, as it was settled when the code was compiled, or the type is in the cell, or several were before. -/
  | same : x' = x → cellSettled p = true ∨ cellKlass x = c ∨ CellSeveral x → Recorded p c x x'
  /-- The mark for several types. -/
  | second : cellKlass x ≠ 0 → cellKlass x ≠ c → cellKlass x' = cellKlass x → (CellNull x' ↔ CellNull x) →
      CellSeveral x' → Recorded p c x x'
  /-- The type. -/
  | first : cellKlass x = 0 → cellKlass x' = c → (CellNull x' ↔ CellNull x) → ¬ CellSeveral x → ¬ CellSeveral x' →
      Recorded p c x x'

theorem record_some (hc : ProperKlass c) : Recorded p c x (p.record (some c) x) := by
  have hklass : cellKlass (c ^^^ x) = c ^^^ cellKlass
    x := by rw [cellKlass, xor_masked, ← cellKlass, cellKlass_of_aligned hc.2, cellKlass]
  rw [TypeProfile.record]
  split
  · case _ hsettled => exact .same rfl (.inl hsettled)
  rw [hklass]
  split
  · case _ hknown => exact .same rfl (.inr (.inl (UInt64.xor_eq_zero_iff.mp hknown).symm))
  · case _ hnew =>
    split
    · case _ hseveral => exact .same rfl (.inr (.inr hseveral))
    · case _ hone =>
      split
      · case _ hother =>
        refine .second hother (fun e => hnew (UInt64.xor_eq_zero_iff.mpr e.symm)) (or_masked_off (by decide) x) ?_ ?_
        · rw [CellNull, or_masked_off (by decide), CellNull]
        · rw [CellSeveral, or_masked]
          intro h
          exact absurd (UInt64.or_eq_zero_iff.mp h).2 (by decide)
      · case _ hempty =>
        have hempty : cellKlass x = 0 := Classical.not_not.mp hempty
        refine .first hempty (by rw [hklass, hempty, UInt64.xor_zero]) ?_ hone ?_
        · rw [CellNull, xor_masked, aligned_masked hc.2 (by decide), UInt64.zero_xor, CellNull]
        · rw [CellSeveral, xor_masked, aligned_masked hc.2 (by decide), UInt64.zero_xor]
          exact hone

theorem kept_record (hk : ∀ c, k = some c → ProperKlass c) : CellKept x (p.record k x) := by
  cases k with
  | none =>
    obtain ⟨hklass, hseveral, hnull⟩ := @record_none p x
    exact ⟨fun h => hnull.mpr (.inl h), hseveral.mpr, fun _ => hklass⟩
  | some c =>
    have hrecorded := record_some (p := p) (x := x) (hk c rfl)
    cases hrecorded with
    | same h _ =>
      rw [h]
      exact .refl x
    | second hother hne hklass hnull hseveral => exact ⟨hnull.mpr, fun _ => hseveral, fun _ => hklass⟩
    | first hempty hklass hnull hnot _ => exact ⟨hnull.mpr, fun h => absurd h hnot, fun h => absurd hempty h⟩

end

/-! ## What a cell tells -/

/-- The type of the first value that was not null. -/
def firstType (vs : List (Option UInt64)) : Option UInt64 := vs.findSome? id

/-- The cell tells of the types of values, and of nulls among them. -/
structure CellTells (vs : List (Option UInt64)) (x : UInt64) : Prop where
  null : CellNull x ↔ none ∈ vs
  klass : cellKlass x = (firstType vs).getD 0
  several : CellSeveral x ↔ ∃ c c', some c ∈ vs ∧ some c' ∈ vs ∧ c ≠ c'

section
variable {p : TypeProfile} {x c : UInt64} {k : Option UInt64} {vs : List (Option UInt64)}

theorem firstType_append (vs : List (Option UInt64)) (k : Option UInt64) :
    firstType (vs ++ [k]) = (firstType vs).or k := by
  rw [firstType, List.findSome?_append, firstType]
  cases k <;> rfl

theorem firstType_mem (h : firstType vs = some c) : some c ∈ vs := by
  obtain ⟨v, hv, e⟩ := List.exists_of_findSome?_eq_some h
  exact e ▸ hv

theorem firstType_ne_none (h : some c ∈ vs) : firstType vs ≠ none := fun hnone => by
  cases List.findSome?_eq_none_iff.mp hnone _ h

/-- There are different types when there is one that is not the first. -/
theorem several_iff : (∃ c c', some c ∈ vs ∧ some c' ∈ vs ∧ c ≠ c') ↔ ∃ c, some c ∈ vs ∧ firstType vs ≠ some c := by
  constructor
  · rintro ⟨c, c', hc, hc', hne⟩
    by_cases h : firstType vs = some c
    · exact ⟨c', hc', fun e => hne (Option.some.inj (h.symm.trans e))⟩
    · exact ⟨c, hc, h⟩
  · rintro ⟨c, hc, hne⟩
    obtain ⟨f, hf⟩ := Option.ne_none_iff_exists'.mp (firstType_ne_none hc)
    exact ⟨f, c, firstType_mem hf, hc, fun e => hne (hf.trans (congrArg some e))⟩

theorem CellTells.first (h : CellTells vs x) (hx : cellKlass x ≠ 0) : firstType vs = some (cellKlass x) := by
  cases hfirst : firstType vs with
  | none =>
    rw [h.klass, hfirst] at hx
    exact absurd rfl hx
  | some f => rw [h.klass, hfirst, Option.getD_some]

theorem CellTells.recordNull (h : CellTells vs x) (hcurrent : CellKept p.current x) :
    CellTells (vs ++ [none]) (p.record none x) := by
  obtain ⟨hklass, hseveral, hnull⟩ := @record_none p x
  refine ⟨?_, ?_, ?_⟩
  · refine hnull.trans (iff_of_true ?_ (by simp))
    by_cases hseen : CellNull p.current
    · exact .inl (hcurrent.null hseen)
    · exact .inr hseen
  · rw [hklass, h.klass, firstType_append, Option.or_none]
  · rw [hseveral, h.several]
    simp

theorem CellTells.recordType (h : CellTells vs x) (hvs : ∀ c, some c ∈ vs → ProperKlass c) (hc : ProperKlass c)
    (hcurrent : CellKept p.current x)
    (hexact : p.exactKlass ≠ 0 → p.exactKlass = c) : CellTells (vs ++ [some c]) (p.record (some c) x) := by
  have hnulls : none ∈ vs ++ [some c] ↔ none ∈ vs := by simp
  have hrecorded := record_some (p := p) (x := x) hc
  have hseveral := h.several.trans several_iff
  cases hrecorded with
  | same hsame hwhy =>
    -- the type is the first, or there were others
    have hold : firstType vs = some c ∨ CellSeveral x := by
      rcases hwhy with hsettled | hknown | hmany
      · rw [cellSettled, Bool.or_eq_true, decide_eq_true_eq, Bool.and_eq_true,
          decide_eq_true_eq, decide_eq_true_eq] at hsettled
        rcases hsettled with hmany | ⟨hgiven, hcell⟩
        · exact .inr (hcurrent.several fun e => hmany ((masked_eq_zero_iff _ _).mpr e))
        · left
          have hcell : cellKlass p.current = c := by
            rw [← hexact hgiven, cellKlass, ← UInt64.toUInt64_toInt64 p.current, ← Int64.toUInt64_and, hcell,
              UInt64.toUInt64_toInt64]
          have hkept : cellKlass x = c := (hcurrent.klass (by rw [hcell]; exact hc.1)).trans hcell
          rw [← hkept]
          exact h.first (by rw [hkept]; exact hc.1)
      · left
        rw [← hknown]
        exact h.first (by rw [hknown]; exact hc.1)
      · exact .inr hmany
    obtain ⟨f, hf⟩ : ∃ f, firstType vs = some f := by
      rcases hold with hfirst | hmany
      · exact ⟨c, hfirst⟩
      · obtain ⟨c', hc', -⟩ := hseveral.mp hmany
        exact Option.ne_none_iff_exists'.mp (firstType_ne_none hc')
    have hstill : firstType (vs ++ [some c]) = firstType vs := by rw [firstType_append, hf, Option.some_or]
    rw [hsame]
    refine ⟨h.null.trans hnulls.symm, by rw [hstill, h.klass], ?_⟩
    rw [hseveral, several_iff, hstill]
    constructor
    · rintro ⟨c', hc', hne⟩
      exact ⟨c', List.mem_append_left _ hc', hne⟩
    · rintro ⟨c', hc', hne⟩
      rcases List.mem_append.mp hc' with hc' | hc'
      · exact ⟨c', hc', hne⟩
      · cases List.mem_singleton.mp hc'
        exact hseveral.mp (hold.resolve_left hne)
  | second hother hne hklass hnull hmany =>
    have hf := h.first hother
    have hstill : firstType (vs ++ [some c]) = some (cellKlass x) := by rw [firstType_append, hf, Option.some_or]
    refine ⟨hnull.trans (h.null.trans hnulls.symm), by rw [hklass, hstill, Option.getD_some], ?_⟩
    rw [several_iff, hstill]
    exact iff_of_true hmany ⟨c, by simp, fun e => hne (Option.some.inj e)⟩
  | first hempty hklass hnull _ hone =>
    have hnone : firstType vs = none := by
      cases hf : firstType vs with
      | none => rfl
      | some f =>
        rw [h.klass, hf, Option.getD_some] at hempty
        exact absurd hempty (hvs f (firstType_mem hf)).1
    have hnew : firstType (vs ++ [some c]) = some c := by rw [firstType_append, hnone, Option.none_or]
    refine ⟨hnull.trans (h.null.trans hnulls.symm), by rw [hklass, hnew, Option.getD_some], ?_⟩
    rw [several_iff, hnew]
    refine iff_of_false hone ?_
    rintro ⟨c', hc', hne⟩
    rcases List.mem_append.mp hc' with hc' | hc'
    · exact firstType_ne_none hc' hnone
    · exact hne (List.mem_singleton.mp hc').symm

end

/-! ## Code that records types in a cell -/

/-- An instruction of a compiled method that records types in the cell. -/
structure ProfilePoint (t : Target) (cell : UInt64) extends Resident t where
  index : Nat
  instruction : Instruction
  here : program.code[index]? = some instruction
  op : instruction.op = .profileType
  profile : TypeProfile
  profiles : instruction.typeProfile = some profile
  records : profile.cell = cell
  operand : Operand
  input : instruction.inputs[0]? = some operand
  /-- The register that holds the value. -/
  value : Reg
  held : operand.reg = .ok value
  tmp : Fin 32
  temporary : profile.tmp.reg = .ok (.x tmp)
  free : (Reg.x tmp).isReserved = false
  /-- The cell lies outside the code. -/
  apart : ∀ i < 8, toResident.Clear (cell + UInt64.ofNat i)

namespace ProfilePoint

variable {t : Target} {cell : UInt64} (pt : ProfilePoint t cell)

/-- The type of the value, if it is not null. Code that was told of no nulls takes what it gets for an object. -/
def typeAt (m : Machine) : Option UInt64 :=
  if pt.profile.notNull = false ∧ m.get pt.value = 0 then none else some (t.opts.klassAt m.mem (m.get pt.value))

/-- What the code was told of the value is so, and the value has a descriptor. -/
structure Apt (m : Machine) : Prop where
  before : pt.Before pt.index m
  exact : ∀ c, pt.typeAt m = some c → pt.profile.exactKlass ≠ 0 → pt.profile.exactKlass = c
  proper : ∀ c, pt.typeAt m = some c → ProperKlass c

variable {pt} {m : Machine}

theorem dispatch_profileType {i : Instruction} (h : i.op = .profileType) : dispatch i = profileType i := by
  rw [Lower.dispatch.eq_def]
  simp only [h]

instance seals_profileType (i : Instruction) : Seals (profileType i) := by
  unfold profileType
  dsimp only
  infer_instance

theorem spelled (pt : ProfilePoint t cell) (W : World)
    (hclear : ∀ i < pt.method.blob.code.length, W (pt.start + UInt64.ofNat i) = none) :
    ∃ S s s', pt.Spelled pt.index pt.instruction W S s s' := by
  have := Lower.traced_of_dispatch (dispatch_profileType pt.op)
  have := Lower.seals_of_dispatch (dispatch_profileType pt.op)
  exact Resident.spelled pt.here W hclear

/-- The code runs to its end and makes its record on the way. -/
theorem proceeds {S : Site} {C : Company S} {A : UInt64 → Prop} {Q : Shared → Prop} {E : Site.Exits}
    (hopts : S.target.opts.refusal? = none) (htarget : S.target = t) (hapt : pt.Apt m)
    (hklass : ∀ c, pt.typeAt m = some c → ∀ s, C.others m.shared s → t.opts.klassAt s.mem (m.get pt.value) = c)
    (hrec : Recording C pt.profile (pt.typeAt m) A Q m.shared) :
    S.Proceeds C (Lower.instruction pt.instruction) m E fun _ m' => Q m'.shared := by
  subst htarget
  rw [Lower.instruction, dispatch_profileType pt.op]
  refine .bind (Site.proceeds_lift fun _ _ =>
    Site.proceeds_profileType hopts pt.input pt.held pt.profiles pt.temporary pt.free
    (fun hnone => ?_) (fun c hc => ⟨fun hnotNull hnull => ?_, hapt.exact c hc, hklass c hc⟩) hrec)
  · rw [typeAt] at hnone
    split at hnone
    · assumption
    · cases hnone
  · rw [typeAt, if_pos ⟨hnotNull, hnull⟩] at hc
    cases hc

/-- Run to its end, the code makes its record in the cell. -/
theorem runs (hopts : t.opts.refusal? = none) (hapt : pt.Apt m) :
    ∃ m', World.bare.Passes (pt.Inside pt.index) m m' ∧ pt.Before (pt.index + 1) m' ∧
      m'.mem.read cell 8 = pt.profile.record (pt.typeAt m) (m.mem.read cell 8) := by
  obtain ⟨S, s, s', hspelled⟩ := pt.spelled World.bare fun _ _ => rfl
  have hklass (c : UInt64) (hc : pt.typeAt m = some c) (s : Shared) (hs : s = m.shared) :
      t.opts.klassAt s.mem (m.get pt.value) = c := by
    rw [typeAt] at hc
    split at hc
    · cases hc
    · rw [hs]
      exact Option.some.inj hc
  have hrec : Recording (.alone S) pt.profile (pt.typeAt m) (fun x => x = m.mem.read cell 8)
      (fun s => s.mem.read cell 8 = pt.profile.record (pt.typeAt m) (m.mem.read cell 8)) m.shared := by
    refine ⟨fun i hi => ?_, ?_, ?_, fun _ _ _ _ => trivial, ?_⟩
    · rw [hspelled.free, pt.records]
      exact pt.apart i hi
    · rintro _ rfl
      rw [pt.records]
      rfl
    · rintro _ x rfl rfl hsame
      exact hsame.symm
    · rintro _ x _ rfl rfl rfl
      rw [pt.records]
      exact read_write_eight _ _ _
  exact hspelled.passes hapt.before (proceeds (hspelled.target ▸ hopts) hspelled.target hapt hklass hrec)

end ProfilePoint

/-! ## Histories of a cell -/

/-- Code with profiles of the cell is run over and over, from when the cell is zero on, and nothing else writes to the cell.
There are the types of the values, the values that the cell has had, and the one that it has. -/
inductive History (t : Target) (cell : UInt64) : List (Option UInt64) → List UInt64 → UInt64 → Prop
  | start : History t cell [] [0] 0
  /-- One more run, of code that was compiled for some earlier value of the cell. -/
  | run {vs : List (Option UInt64)} {xs : List UInt64} {x : UInt64} {m m' : Machine} (pt : ProfilePoint t cell) :
      History t cell vs xs x → pt.profile.current ∈ xs → pt.Apt m →
      (pt.profile.notNull = true → m.get pt.value ≠ 0) → m.mem.read cell 8 = x →
      World.bare.Passes (pt.Inside pt.index) m m' →
      History t cell (vs ++ [pt.typeAt m]) (xs ++ [m'.mem.read cell 8]) (m'.mem.read cell 8)

/-- What is known of a cell in a history. -/
structure Told (vs : List (Option UInt64)) (xs : List UInt64) (x : UInt64) : Prop where
  tells : CellTells vs x
  proper : ∀ c, some c ∈ vs → ProperKlass c
  kept : ∀ y ∈ xs, CellKept y x

theorem History.told {t : Target} {cell : UInt64} {vs : List (Option UInt64)} {xs : List UInt64} {x : UInt64}
    (hopts : t.opts.refusal? = none) (h : History t cell vs xs x) : Told vs xs x := by
  induction h with
  | start =>
    refine ⟨⟨?_, by decide, ?_⟩, fun _ hc => ?_, ?_⟩
    · exact iff_of_false (fun h => h (by decide)) List.not_mem_nil
    · exact iff_of_false (fun h => h (by decide)) fun ⟨_, _, hc, _⟩ => List.not_mem_nil hc
    · cases hc
    · rintro y hy
      cases List.mem_singleton.mp hy
      exact .refl 0
  | run pt _ hcurrent hapt _ hx hpasses ih =>
    obtain ⟨m1, hpasses1, -, hcell⟩ := ProfilePoint.runs hopts hapt
    cases hpasses.unique hpasses1
    rw [hx] at hcell
    rw [hcell]
    have hold := ih.kept _ hcurrent
    refine ⟨?_, fun c hc => ?_, fun y hy => ?_⟩
    · cases htype : pt.typeAt _ with
      | none => exact ih.tells.recordNull hold
      | some c => exact ih.tells.recordType ih.proper (hapt.proper c htype) hold (hapt.exact c htype)
    · rcases List.mem_append.mp hc with hc | hc
      · exact ih.proper c hc
      · exact hapt.proper c (List.mem_singleton.mp hc).symm
    · rcases List.mem_append.mp hy with hy | hy
      · exact (ih.kept y hy).trans (kept_record hapt.proper)
      · cases List.mem_singleton.mp hy
        exact .refl _

/-- After any history the cell tells of the values. Code that was compiled for an earlier value of the cell runs to its
end whenever it is run, and goes on with the history. -/
theorem cell_tells_history {t : Target} {cell : UInt64} {vs : List (Option UInt64)} {xs : List UInt64} {x : UInt64}
    (hopts : t.opts.refusal? = none) (h : History t cell vs xs x) :
    CellTells vs x ∧ ∀ (pt : ProfilePoint t cell) (m : Machine), pt.profile.current ∈ xs → pt.Apt m →
      (pt.profile.notNull = true → m.get pt.value ≠ 0) → m.mem.read cell 8 = x →
      ∃ m', World.bare.Passes (pt.Inside pt.index) m m' ∧ pt.Before (pt.index + 1) m' ∧
        History t cell (vs ++ [pt.typeAt m]) (xs ++ [m'.mem.read cell 8]) (m'.mem.read cell 8) := by
  refine ⟨(h.told hopts).tells, fun pt m hcurrent hapt hnotNull hx => ?_⟩
  obtain ⟨m', hpasses, hbefore, -⟩ := ProfilePoint.runs hopts hapt
  exact ⟨m', hpasses, hbefore, .run pt h hcurrent hapt hnotNull hx hpasses⟩

/-- A method that profiles what is in x10 twice. The second time it is an object of a known type, and the cell has had a
null and another type. -/
def twiceProfiled : Program where
  name := "p"
  frameSize := 32
  code := #[
    { op := .profileType, inputs := [.register .object (.x 10) .none],
      typeProfile := some ⟨0x1000, 0, 0, false, .register .long (.x 11) .none⟩ },
    { op := .profileType, inputs := [.register .object (.x 10) .none],
      typeProfile := some ⟨0x1000, 0x41, 0x80, true, .register .long (.x 11) .none⟩ },
    { op := .ret }]

section
variable {c : CompiledMethod} (hc : twiceProfiled.compile ⟨{}, .empty⟩ 0 = .ok c) (hroom : c.blob.code.length ≤ 0x1000)

/-- The method at `0x10000`. -/
def twiceProfiledMethod : Resident ⟨{}, .empty⟩ := ⟨twiceProfiled, 0, c, 0x10000, hc, absurd rfl⟩

include hroom in
theorem twiceProfiled_clear : ∀ i < 8, (twiceProfiledMethod hc).Clear (0x1000 + UInt64.ofNat i) := by
  intro i hi
  refine (CodeBlob.clear_iff (show (0x10000 : UInt64).toNat + c.blob.code.length ≤ _ by
    rw [show (0x10000 : UInt64).toNat = 0x10000 from rfl]; omega)).mpr ?_
  rw [Spans, toNat_off (by rw [show (0x1000 : UInt64).toNat = 0x1000 from rfl]; omega)]
  exact fun h => absurd h.1 (by
    rw [show (0x1000 : UInt64).toNat = 0x1000 from rfl, show (0x10000 : UInt64).toNat = 0x10000 from rfl]; omega)

/-- Its first profile. -/
def firstProfile : ProfilePoint ⟨{}, .empty⟩ 0x1000 where
  toResident := twiceProfiledMethod hc
  index := 0
  instruction := _
  here := rfl
  op := rfl
  profile := _
  profiles := rfl
  records := rfl
  operand := _
  input := rfl
  value := .x 10
  held := rfl
  tmp := 11
  temporary := rfl
  free := rfl
  apart := twiceProfiled_clear hc hroom

/-- Its second profile. -/
def secondProfile : ProfilePoint ⟨{}, .empty⟩ 0x1000 where
  toResident := twiceProfiledMethod hc
  index := 1
  instruction := _
  here := rfl
  op := rfl
  profile := _
  profiles := rfl
  records := rfl
  operand := _
  input := rfl
  value := .x 10
  held := rfl
  tmp := 11
  temporary := rfl
  free := rfl
  apart := twiceProfiled_clear hc hroom

end

/-- Memory with a cell at `0x1000` and with objects of two types at `0x2000` and `0x3000`. -/
def profiledMemory (cell : UInt8) : Ram := fun addr =>
  if addr = 0x1000 then cell else if addr = 0x2008 then 0x40 else if addr = 0x3008 then 0x80 else 0

/-- A machine with a value in x10, and with code at `0x10000`. -/
def profiling (code : List UInt8) (cell : UInt8) (value pc : UInt64) : Machine where
  x n := if n = 10 then value else 0
  f _ := 0
  pc
  mem := (profiledMemory cell).overlay 0x10000 code

theorem twiceProfiled_compiles : ∃ c, twiceProfiled.compile ⟨{}, .empty⟩ 0 = .ok c ∧ c.blob.code.length ≤ 0x1000 := by
  have hcompiles : (twiceProfiled.compile ⟨{}, .empty⟩ 0).toOption.any
    (fun c => decide (c.blob.code.length ≤ 0x1000)) = true := by
    decide +kernel
  cases hc : twiceProfiled.compile ⟨{}, .empty⟩ 0 with
  | error e =>
    rw [hc] at hcompiles
    cases hcompiles
  | ok c =>
    rw [hc] at hcompiles
    exact ⟨c, rfl, of_decide_eq_true hcompiles⟩

theorem twiceProfiled_places {c : CompiledMethod} (hc : twiceProfiled.compile ⟨{}, .empty⟩ 0 = .ok c)
    {k : Nat} (hk : k ≤ 1) :
    ∃ off, twiceProfiled.placeOf ⟨{}, .empty⟩ 0 k = .ok off := by
  obtain ⟨i, hi⟩ : ∃ i, twiceProfiled.code[k]? = some i := by
    match k, hk with
    | 0, _ => exact ⟨_, rfl⟩
    | 1, _ => exact ⟨_, rfl⟩
  obtain ⟨first, last, s, s', -, hplaced⟩ := compile_placed hc hi
  exact ⟨_, hplaced.place⟩

section
variable {code : List UInt8} {cell : UInt8} {value pc : UInt64}

theorem profiling_read (hroom : code.length ≤ 0x1000) {addr : UInt64} {n : Nat} (h : addr.toNat + n ≤ 0x10000) :
    (profiling code cell value pc).mem.read addr n = (profiledMemory cell).read addr n :=
  Ram.read_overlay (profiledMemory cell) (by rw [show (0x10000 : UInt64).toNat = 0x10000 from rfl]; omega) (by omega)
    (by rw [show (0x10000 : UInt64).toNat = 0x10000 from rfl]; omega)

theorem profiling_klassAt (hroom : code.length ≤ 0x1000) {v k : UInt64} (hend : v.toNat + 16 ≤ 0x10000)
    (hk : (profiledMemory cell).read (v + 8) 4 = k) : Options.klassAt {} (profiling code cell value pc).mem v = k := by
  have hv : (v + 8).toNat = v.toNat + 8 := toNat_off (k := 8) (by omega)
  rw [Options.klassAt, if_pos rfl, profiling_read hroom (by omega), hk]
  exact (UInt64.zero_add _).trans UInt64.shiftLeft_zero

end

/-- A null and values of two types are told of. -/
theorem three_values_are_told : ∃ xs, History ⟨{}, .empty⟩ 0x1000 [none, some 0x40, some 0x80] xs 0x43 ∧
    CellTells [none, some 0x40, some 0x80] 0x43 := by
  obtain ⟨c, hc, hroom⟩ := twiceProfiled_compiles
  obtain ⟨off, hoff⟩ := twiceProfiled_places hc (k := 0) (by decide)
  obtain ⟨off', hoff'⟩ := twiceProfiled_places hc (k := 1) (by decide)
  have hstands (cell : UInt8) (value pc : UInt64) : c.blob.Stands 0x10000 (profiling c.blob.code cell value pc) :=
    CodeBlob.stands_overlay (by omega) rfl
  -- one run of code with a profile
  have next (pt : ProfilePoint ⟨{}, .empty⟩ 0x1000) (cell cell' : UInt8) (value pc : UInt64) (k : Option UInt64) {vs xs}
      (h : History ⟨{}, .empty⟩ 0x1000 vs xs cell.toUInt64) (hcurrent : pt.profile.current ∈ xs)
      (hbefore : pt.Before pt.index (profiling c.blob.code cell value pc))
      (htype : pt.typeAt (profiling c.blob.code cell value pc) = k)
      (hexact : ∀ c, k = some c → pt.profile.exactKlass ≠ 0 → pt.profile.exactKlass = c)
      (hproper : ∀ c, k = some c → ProperKlass c)
      (hnotNull : pt.profile.notNull = true → (profiling c.blob.code cell value pc).get pt.value ≠ 0)
      (hcell : (profiledMemory cell).read 0x1000 8 = cell.toUInt64)
      (hrecord : pt.profile.record k cell.toUInt64 = cell'.toUInt64) :
      History ⟨{}, .empty⟩ 0x1000 (vs ++ [k]) (xs ++ [cell'.toUInt64]) cell'.toUInt64 := by
    have hx : (profiling c.blob.code cell value pc).mem.read 0x1000 8 = cell.toUInt64 :=
      (profiling_read hroom (by decide)).trans hcell
    have hapt : pt.Apt (profiling c.blob.code cell value pc) := ⟨hbefore, by rwa [htype], by rwa [htype]⟩
    obtain ⟨m', hpasses, -, hm'⟩ := ProfilePoint.runs rfl hapt
    rw [hx, htype, hrecord] at hm'
    have hrun := History.run pt h hcurrent hapt hnotNull hx hpasses
    rwa [htype, hm'] at hrun
  have h1 := next (firstProfile hc hroom) 0 1 0 (0x10000 + UInt64.ofNat off) none .start
    (show (0 : UInt64) ∈ [0] by decide) ⟨hstands _ _ _, off, hoff, rfl⟩ (if_pos ⟨rfl, rfl⟩) nofun nofun nofun (by decide)
    (show TypeProfile.record ⟨0x1000, 0, 0, false, .register .long (.x 11) .none⟩ none 0 = 1 by decide)
  have h2 := next (firstProfile hc hroom) 1 0x41 0x2000 (0x10000 + UInt64.ofNat off) (some 0x40) h1
    (show (0 : UInt64) ∈ [0, 1] by decide) ⟨hstands _ _ _, off, hoff, rfl⟩
    ((if_neg (show ¬ (false = false ∧ (0x2000 : UInt64) = 0) by decide)).trans
      (congrArg some (profiling_klassAt (v := 0x2000) hroom (by decide) (by decide))))
    (fun _ _ h => absurd rfl h) (by rintro _ ⟨⟩; exact ⟨by decide, by decide⟩) nofun (by decide)
    (show TypeProfile.record ⟨0x1000, 0, 0, false, .register .long (.x 11) .none⟩ (some 0x40) 1 = 0x41 by decide)
  have h3 := next (secondProfile hc hroom) 0x41 0x43 0x3000 (0x10000 + UInt64.ofNat off') (some 0x80) h2
    (show (0x41 : UInt64) ∈ [0, 1, 0x41] by decide) ⟨hstands _ _ _, off', hoff', rfl⟩
    ((if_neg (show ¬ (true = false ∧ (0x3000 : UInt64) = 0) by decide)).trans
      (congrArg some (profiling_klassAt (v := 0x3000) hroom (by decide) (by decide))))
    (by rintro _ ⟨⟩ -; rfl) (by rintro _ ⟨⟩; exact ⟨by decide, by decide⟩)
    (fun _ => show (0x3000 : UInt64) ≠ 0 by decide) (by decide)
    (show TypeProfile.record ⟨0x1000, 0x41, 0x80, true, .register .long (.x 11) .none⟩ (some 0x80) 0x41 = 0x43 by decide)
  exact ⟨_, h3, (cell_tells_history rfl h3).1⟩

end RiscvJit
