import RiscvJit.Proofs.Code.Sizes

/-
  RiscvJit.Proofs.Code.Nearby — references within 4096 bytes are in reach.

  A branch reaches 4096 bytes, a jump more. While the code is shorter than that, every reference that waits for
  its label and every label that is bound is that near to what comes (`Assembler.Near`), so no work fails because
  a reference is out of reach (`Asm.Nearby`). Beyond that, work without labels does not either: it writes
  instructions, and fails for want of room only (`Asm.Plain`).
-/

namespace RiscvJit

open CodeBuffer (codeOverflow create failure_patch emit4)

namespace Assembler

/-- An offset in code of `n` bytes. -/
def Inside (n : Nat) (off : Int64) : Prop := 0 ≤ off.toInt ∧ off.toInt ≤ n

/-- No reference was out of reach. References that wait and labels that are bound are inside the code. -/
structure Near (a : Assembler) : Prop where
  reached : a.buf.failure ≠ branchOutOfRange
  uses : ∀ s ∈ a.labels.toList, ∀ u ∈ s.uses.toList, Inside a.buf.offset u.offset
  marks : ∀ s ∈ a.labels.toList, ∀ pos, s.position? = some pos → Inside a.buf.offset pos

/-- Code was added, and if that failed, it was for want of room. -/
structure Extended (a a' : Assembler) : Prop where
  labels : a'.labels = a.labels
  grows : a.buf.offset ≤ a'.buf.offset
  reason : a'.buf.failure = a.buf.failure ∨ a'.buf.failure = codeOverflow

section
variable {n m : Nat} {off pos : Int64} {a b c : Assembler}

theorem Inside.mono (h : Inside n off) (hle : n ≤ m) : Inside m off := ⟨h.1, Int.le_trans h.2 (Int.ofNat_le.mpr hle)⟩

theorem inside_ofNat {k : Nat} (hk : k ≤ n) (hn : n < 4096) : Inside n (Int64.ofNat k) := by
  unfold Inside
  rw [Int64.toInt_ofNat_of_lt (by omega)]
  omega

theorem extended_refl (a : Assembler) : Extended a a := ⟨rfl, Nat.le_refl _, .inl rfl⟩

theorem Extended.trans (h : Extended a b) (h' : Extended b c) : Extended a c := by
  refine ⟨h'.labels.trans h.labels, Nat.le_trans h.grows h'.grows, ?_⟩
  rcases h'.reason with hsame | hover
  · rw [hsame]
    exact h.reason
  · exact .inr hover

theorem Extended.reached (h : Extended a b) (ha : a.buf.failure ≠ branchOutOfRange) :
    b.buf.failure ≠ branchOutOfRange := by
  rcases h.reason with hsame | hover
  · rwa [hsame]
  · rw [hover]
    exact CodeBuffer.overflow_apart.symm

theorem Extended.near (h : Extended a b) (ha : a.Near) : b.Near where
  reached := h.reached ha.reached
  uses s hs u hu := (ha.uses s (h.labels ▸ hs) u hu).mono h.grows
  marks s hs pos hpos := (ha.marks s (h.labels ▸ hs) pos hpos).mono h.grows

theorem near_fresh {name : String} {base : UInt64} {capacity : Int64}
    (h : Assembler.start name base capacity = .ok a) : a.Near := by
  unfold Assembler.start at h
  obtain ⟨buf, hbuf, h⟩ := except_bind_eq_ok.mp h
  cases h
  have hempty : buf.failure = "" := by
    unfold create at hbuf
    split at hbuf
    · cases hbuf
    · cases hbuf
      rfl
  exact ⟨by dsimp only; rw [hempty]; decide, fun s hs => absurd hs List.not_mem_nil, fun s hs => absurd hs List.not_mem_nil⟩

/-! ## Patching -/

variable {k : Nat} {x y : CodeBuffer}

theorem toInt_apart (hk : k < 4096) (ho : Inside k off) (hp : Inside k pos) :
    (pos - off).toInt = pos.toInt - off.toInt := by
  obtain ⟨ho0, ho⟩ := ho
  obtain ⟨hp0, hp⟩ := hp
  rw [Int64.toInt_sub, Int.bmod_def]
  simp only [Nat.reducePow]
  omega

/-- Within 4096 bytes every kind of reference reaches. -/
theorem reached_patchUse {u : LabelUse} (h : patchUse x u pos = .ok y) (hk : k < 4096) (hu : Inside k u.offset)
    (hp : Inside k pos)
    (hx : x.failure ≠ branchOutOfRange) : y.failure ≠ branchOutOfRange := by
  have hdistance := toInt_apart hk hu hp
  obtain ⟨hu0, hu⟩ := hu
  obtain ⟨hp0, hp⟩ := hp
  unfold patchUse at h
  split at h
  · cases h
    exact hx
  · obtain ⟨w, -, h⟩ := except_bind_eq_ok.mp h
    split at h
    · rw [if_pos (by rw [fitsSigned_iff]; simp only [Nat.reduceSub, Int.reducePow]; omega)] at h
      rwa [failure_patch h]
    · rw [if_pos (by rw [fitsSigned_iff]; simp only [Nat.reduceSub, Int.reducePow]; omega)] at h
      rwa [failure_patch h]
    · obtain ⟨z, hhigh, h⟩ := except_bind_eq_ok.mp h
      obtain ⟨w', -, h⟩ := except_bind_eq_ok.mp h
      rwa [failure_patch h, failure_patch hhigh]
    · cases h

theorem reached_patchUses {us : List LabelUse} (h : us.foldlM (fun b u => patchUse b u pos) x = .ok y) (hk : k < 4096)
    (hus : ∀ u ∈ us, Inside k u.offset) (hp : Inside k pos)
    (hx : x.failure ≠ branchOutOfRange) : y.failure ≠ branchOutOfRange := by
  induction us generalizing x with
  | nil =>
    cases h
    exact hx
  | cons u us ih =>
    rw [List.foldlM_cons] at h
    obtain ⟨z, hfirst, h⟩ := except_bind_eq_ok.mp h
    exact ih h (fun v hv => hus v (List.mem_cons_of_mem _ hv))
      (reached_patchUse hfirst hk (hus u List.mem_cons_self) hp hx)

end

end Assembler

namespace Asm

open Assembler (Extended Inside)

/-! ## Work without labels -/

/-- The work writes instructions, and fails for want of room only. -/
class Plain {α : Type} (x : Asm α) : Prop where
  extended : ∀ {t a r a'}, x t a = .ok (r, a') → Extended a a'

section
variable {α β : Type}

theorem Plain.andThen {x : Asm α} {f : α → Asm β} (hx : Plain x) (hf : ∀ t a r b, x t a = .ok (r, b) → Plain (f r)) :
    Plain (x >>= f) where
  extended h := by
    obtain ⟨r, b, hr, hrest⟩ := bind_eq_ok.mp h
    exact (hx.extended hr).trans ((hf _ _ r b hr).extended hrest)

instance plain_bind (x : Asm α) (f : α → Asm β) [hx : Plain x] [hf : ∀ r, Plain (f r)] : Plain (x >>= f) :=
  hx.andThen fun _ _ r _ _ => hf r

instance plain_seq (x : Asm α) (y : Asm β) [Plain x] [Plain y] : Plain (x >>= fun _ => y) := plain_bind x _

instance plain_pure (r : α) : Plain (pure r : Asm α) where
  extended h := by
    obtain ⟨-, rfl⟩ := pure_eq_ok.mp h
    exact Assembler.extended_refl _

instance plain_lift (e : Except Fault α) : Plain (liftM e : Asm α) where
  extended h := by
    obtain ⟨-, rfl⟩ := lift_eq_ok.mp h
    exact Assembler.extended_refl _

instance plain_ite (c : Prop) [Decidable c] (x y : Asm α) [hx : Plain x] [hy : Plain y] : Plain (if c then x else y) := by
  split
  · exact hx
  · exact hy

instance plain_forM (xs : List β) (f : β → Asm Unit) [hf : ∀ x, Plain (f x)] : Plain (xs.forM f) := by
  induction xs with
  | nil => exact plain_pure ()
  | cons x xs ih => exact plain_bind (f x) fun _ => xs.forM f

instance plain_emit (o : Op) (rd rs1 rs2 : Reg) (imm : Int64) (aqrl : UInt32) : Plain (emit o rd rs1 rs2 imm aqrl) where
  extended {t a r a'} h := by
    obtain ⟨-, rfl⟩ := emit_eq_ok.mp h
    have hspent := a.buf.spent_emit4 (o.encode rd rs1 rs2 imm aqrl)
    refine ⟨rfl, hspent.grows, ?_⟩
    show (a.buf.emit4 _).failure = _ ∨ (a.buf.emit4 _).failure = _
    unfold emit4
    split
    · exact .inl rfl
    · split
      · exact .inr rfl
      · exact .inl rfl

instance plain_markEntry (name : String) : Plain (markEntry name) where
  extended h := by
    cases h
    exact ⟨rfl, Nat.le_refl _, .inl rfl⟩

end

section
variable (o : Op) (rd rs base tmp : Reg) (imm off : Int64)

instance plain_constStep (s : ConstStep) : Plain (constStep rd s) := by
  cases s <;> (unfold constStep lui addiw slli shiftI addi ri; infer_instance)

instance plain_li : Plain (li rd imm) := plain_forM _ (constStep rd)

instance plain_load : Plain (load o rd base off) := by
  unfold load
  infer_instance

instance plain_store : Plain (store o rd base off) := by
  unfold store
  infer_instance

instance plain_addImm : Plain (addImm rd rs imm tmp) := by
  unfold addImm addi ri add rr
  infer_instance

instance plain_loadOff : Plain (loadOff o rd base off tmp) := by
  unfold loadOff add rr
  infer_instance

instance plain_mv : Plain (mv rd rs) := by
  unfold mv addi ri rr
  infer_instance

instance plain_jr : Plain (jr rs) := by
  unfold jr jalr
  infer_instance

/-- A call of a known address takes the short form only if that reaches. -/
instance plain_farCallAt (target : UInt64) (link : Reg) (known : Bool) (rel : Int64) :
    Plain (farCallAt target link tmp known rel) := by
  unfold farCallAt
  split
  case _ hnear =>
    rw [jalOffset, if_pos (Bool.and_eq_true_iff.mp hnear).2]
    infer_instance
  · unfold movptrWithOffset auipc jalr lui addi slli shiftI ri
    infer_instance

instance plain_farCall (target : UInt64) (link : Reg) : Plain (farCall target link tmp) where
  extended h := by
    rw [farCall_eq] at h
    exact (plain_farCallAt ..).extended h

end

/-! ## Work with labels -/

/-- In code of less than 4096 bytes, the work leaves no reference out of reach. -/
structure Nearby {α : Type} (x : Asm α) : Prop where
  grows : ∀ {t a r a'}, x t a = .ok (r, a') → a.buf.offset ≤ a'.buf.offset
  near : ∀ {t a r a'}, x t a = .ok (r, a') → a.Near → a'.buf.offset < 4096 → a'.Near

section
variable {α β : Type} {x : Asm α}

theorem nearby_plain (h : Plain x) : Nearby x := ⟨fun hx => (h.extended hx).grows, fun hx ha _ => (h.extended hx).near ha⟩

theorem Nearby.bind {f : α → Asm β} (hx : Nearby x) (hf : ∀ r, Nearby (f r)) : Nearby (x >>= f) where
  grows h := by
    obtain ⟨r, b, hr, hrest⟩ := bind_eq_ok.mp h
    exact Nat.le_trans (hx.grows hr) ((hf r).grows hrest)
  near h ha hshort := by
    obtain ⟨r, b, hr, hrest⟩ := bind_eq_ok.mp h
    exact (hf r).near hrest (hx.near hr ha (Nat.lt_of_le_of_lt ((hf r).grows hrest) hshort)) hshort

/-- What leaves the buffer and the labels as they are. -/
theorem nearby_same (h : ∀ {t a r a'}, x t a = .ok (r, a') → a' = a) : Nearby x where
  grows hx := by rw [h hx]
  near hx ha _ := h hx ▸ ha

theorem nearby_newLabel : Nearby newLabel where
  grows h := by
    cases h
    exact Nat.le_refl _
  near h ha _ := by
    cases h
    have hmem {s : LabelState} {labels : Array LabelState}
      (hs : s ∈ (labels.push {}).toList) : s ∈ labels.toList ∨ s = {} := by
      rw [Array.toList_push] at hs
      exact (List.mem_append.mp hs).imp_right List.mem_singleton.mp
    refine ⟨ha.reached, fun s hs u hu => ?_, fun s hs pos hpos => ?_⟩
    · rcases hmem hs with hs | rfl
      · exact ha.uses s hs u hu
      · cases hu
    · rcases hmem hs with hs | rfl
      · exact ha.marks s hs pos hpos
      · cases hpos

/-- A label that was changed, or one that was there. -/
theorem mem_setLabel {labels : Array LabelState} {l : Label} {s s' : LabelState}
    (h : s' ∈ (labels.setIfInBounds (l - 1) s).toList) :
    s' ∈ labels.toList ∨ s' = s := List.mem_or_eq_of_mem_set (by rwa [Array.toList_setIfInBounds] at h)

theorem mem_label {a : Assembler} {l : Label} {s : LabelState} (h : a.label l = .ok s) : s ∈ a.labels.toList := by
  unfold Assembler.label at h
  split at h
  · cases h
  · split at h
    case _ s' hs =>
      cases h
      exact Array.mem_toList_iff.mpr (Array.mem_of_getElem? hs)
    · cases h

theorem nearby_bindLabel (l : Label) : Nearby (Asm.bind l) where
  grows h := ((takes_bindLabel l).spent h).grows
  near h ha hshort := by
    obtain ⟨s, buf, hs, -, hbuf, rfl⟩ := bindLabel_eq_ok h
    have hoffset := (patched_patchUses hbuf).offset
    have hshort : buf.offset < 4096 := hshort
    have hsame (n : Int64) : Inside buf.offset n ↔ Inside _ n := iff_of_eq (congrArg (Inside · n) hoffset)
    have hpos := Assembler.inside_ofNat (Nat.le_refl _) (hoffset ▸ hshort)
    refine ⟨Assembler.reached_patchUses hbuf (hoffset ▸ hshort) (ha.uses s (mem_label hs)) hpos ha.reached,
      fun s' hs' u hu => ?_, fun s' hs' pos hmark => ?_⟩
    · rcases mem_setLabel hs' with hs' | rfl
      · exact (hsame _).mpr (ha.uses s' hs' u hu)
      · cases hu
    · rcases mem_setLabel hs' with hs' | rfl
      · exact (hsame _).mpr (ha.marks s' hs' pos hmark)
      · cases hmark
        exact (hsame _).mpr hpos

/-- A reference from code that was written. -/
theorem near_refer {l : Label} {off : Int64} {kind : UInt8} {t : Target} {a a' : Assembler}
    (h : refer l off kind t a = .ok ((), a'))
    (ha : a.Near) (hoff : Inside a.buf.offset off) (hshort : a.buf.offset < 4096) : a'.Near := by
  obtain ⟨s, hs, ⟨pos, buf, hpos, hbuf, rfl⟩ | ⟨-, rfl⟩⟩ := refer_eq_ok h
  · have hoffset := (patched_patchUse hbuf).offset
    have hsame (n : Int64) : Inside buf.offset n ↔ Inside a.buf.offset n := iff_of_eq (congrArg (Inside · n) hoffset)
    exact ⟨Assembler.reached_patchUse hbuf hshort hoff (ha.marks s (mem_label hs) pos hpos) ha.reached,
      fun s' hs' u hu => (hsame _).mpr (ha.uses s' hs' u hu), fun s' hs' p hp => (hsame _).mpr (ha.marks s' hs' p hp)⟩
  · refine ⟨ha.reached, fun s' hs' u hu => ?_, fun s' hs' pos hmark => ?_⟩
    · rcases mem_setLabel hs' with hs' | rfl
      · exact ha.uses s' hs' u hu
      · rw [LabelState.addUse, Array.toList_push] at hu
        rcases List.mem_append.mp hu with hu | hu
        · exact ha.uses s (mem_label hs) u hu
        · rw [List.mem_singleton.mp hu]
          exact hoff
    · rcases mem_setLabel hs' with hs' | rfl
      · exact ha.marks s' hs' pos hmark
      · exact ha.marks s (mem_label hs) pos hmark

/-- A reference by words that are written first. -/
theorem nearby_reference {y : Asm Unit} (hy : Plain y) (l : Label) (kind : UInt8) :
    Nearby (offset >>= fun off => y >>= fun _ => refer l (Int64.ofNat off) kind) where
  grows h := by
    obtain ⟨off, b, hoff, h⟩ := bind_eq_ok.mp h
    cases hoff
    obtain ⟨_, b1, hrun, hrefer⟩ := bind_eq_ok.mp h
    exact Nat.le_trans (hy.extended hrun).grows ((takes_refer _ l kind).spent hrefer).grows
  near h ha hshort := by
    obtain ⟨off, b, hoff, h⟩ := bind_eq_ok.mp h
    cases hoff
    obtain ⟨_, b1, hrun, hrefer⟩ := bind_eq_ok.mp h
    have hgrows := (hy.extended hrun).grows
    have hshort := Nat.lt_of_le_of_lt ((takes_refer _ l kind).spent hrefer).grows hshort
    exact near_refer hrefer ((hy.extended hrun).near ha) (Assembler.inside_ofNat hgrows hshort) hshort

theorem nearby_branch (o : Op) (rs1 rs2 : Reg) (l : Label) : Nearby (branch o rs1 rs2 l) :=
  nearby_reference (plain_emit o .none rs1 rs2 0 0) l 0

theorem nearby_jal (rd : Reg) (l : Label) : Nearby (jal rd l) := nearby_reference (plain_emit .jal rd .none .none 0 0) l 1

theorem nearby_la (rd : Reg) (l : Label) : Nearby (la rd l) := by
  have : Plain (auipc rd 0) := plain_emit ..
  rw [la_eq]
  exact nearby_reference inferInstance l 2

theorem nearby_bcond (o : Op) (rs1 rs2 : Reg) (l : Label) : Nearby (bcond o rs1 rs2 l) := by
  unfold bcond
  refine (nearby_same fun h => (isNear_eq_ok h).1).bind fun near => ?_
  split
  · exact nearby_branch o rs1 rs2 l
  · exact (nearby_plain inferInstance).bind fun o' => (nearby_plain (plain_emit ..)).bind fun _ => nearby_jal .zr l

theorem closed_nearby : Closed false Nearby where
  pure r := nearby_plain (plain_pure r)
  lift e := nearby_plain (plain_lift e)
  bind := Nearby.bind
  opts _ hf := (nearby_same fun h => by cases h; rfl).bind hf
  newLabel := nearby_newLabel
  call c _ := by
    cases c with
    | plain o rd rs1 rs2 imm aqrl => exact nearby_plain (plain_emit ..)
    | branch o rs1 rs2 l => exact nearby_branch o rs1 rs2 l
    | bcond o rs1 rs2 l => exact nearby_bcond o rs1 rs2 l
    | jal rd l => exact nearby_jal rd l
    | la rd l => exact nearby_la rd l
    | newLabel => exact nearby_newLabel.bind fun _ => nearby_plain (plain_pure ())
    | bind l => exact nearby_bindLabel l
  routine e link tmp := (nearby_same fun h => (lift_eq_ok.mp (entryAddress_eq.symm.trans h)).2).bind fun target =>
    nearby_plain (plain_farCall (.x tmp) target (.x link))
  barrier _ _ h := by cases h

end

end Asm

end RiscvJit
