import RiscvJit.Proofs.Code.CapacitySequences

/-
  RiscvJit.Proofs.Code.Guarded — work that ends with a result or with a broken precondition.

  Writing code can stop in three ways. A precondition that does not hold is the caller's, and the
  caller is told. A defect, or an access outside of a table, is the generator's own and must not
  happen. `Asm.Safe F x Q` says that work on an assembler whose labels are bound as `F` tells does
  not stop in these last two ways; when it ends with a result, `Q` holds of it and of the labels
  afterwards.

  Most work may make labels of its own and leaves those that were there as they were: it is
  `Asm.Guarded F`, wherever the labels of `F` exist. Jumps to labels of `F` are of that kind, so a
  sequence of instructions is found to be guarded by its shape.
-/

namespace RiscvJit

open Assembler (label patchUse patchHigh fenceWord fenceAt?)
open CodeBuffer

/-- Every routine of the runtime has an address. -/
def Target.Complete (t : Target) : Prop := ∀ e, e ≠ .invalid → t.runtime.addr e ≠ 0

namespace Assembler

/-- An assembler on which nothing goes wrong: its labels are bound as told, and the references that
wait for one of them were made by instructions that are there. -/
structure Sound (F : List Bool) (a : Assembler) : Prop where
  flags : a.labels.toList.map LabelState.isBound = F
  room : a.buf.offset ≤ a.buf.capacity
  small : a.buf.capacity < 2 ^ 62
  written : a.buf.failed = false → ∀ s ∈ a.labels.toList, ∀ u ∈ s.uses.toList, u.Within a.buf.offset ∧ u.kind.toNat ≤ 2

end Assembler

/-- The label is one of those. -/
class KnownLabel (F : List Bool) (l : Label) : Prop where
  pos : 0 < l
  le : l ≤ F.length

section
variable {F F' : List Bool} {l : Label}

theorem KnownLabel.extend (h : KnownLabel F l) (hp : F <+: F') : KnownLabel F' l :=
  ⟨h.pos, Nat.le_trans h.le hp.length_le⟩

/-- A label that waits to be bound. -/
def OpenLabel (F : List Bool) (l : Label) : Prop := 0 < l ∧ F[l - 1]? = some false

theorem OpenLabel.known (h : OpenLabel F l) : KnownLabel F l where
  pos := h.1
  le := Nat.le_of_pred_lt (List.getElem?_eq_some_iff.mp h.2).1

theorem getElem?_of_extends {α : Type} {l l' : List α} (h : l <+: l') {i : Nat} {x : α} (hx : l[i]? = some x) :
    l'[i]? = some x := by
  obtain ⟨rest, rfl⟩ := h
  rw [List.getElem?_append_left (List.getElem?_eq_some_iff.mp hx).1, hx]

theorem OpenLabel.extend (h : OpenLabel F l) (hp : F <+: F') : OpenLabel F' l := ⟨h.1, getElem?_of_extends hp h.2⟩

theorem openLabel_fresh (F : List Bool) : OpenLabel (F ++ [false]) (F.length + 1) :=
  ⟨Nat.succ_pos _, by simp⟩

/-- Labels after that label was bound. -/
def boundLabel (F : List Bool) (l : Label) : List Bool := F.set (l - 1) true

/-- Binding a label that came later leaves the earlier ones alone. -/
theorem prefix_boundLabel (h : F <+: F') (hl : F.length < l) : F <+: boundLabel F' l := by
  obtain ⟨rest, rfl⟩ := h
  unfold boundLabel
  rw [List.set_append_right (l - 1) true (Nat.le_pred_of_lt hl)]
  exact List.prefix_append _ _

theorem boundLabel_extends (h : F <+: F') (hl : KnownLabel F l) : boundLabel F l <+: boundLabel F' l := by
  obtain ⟨rest, rfl⟩ := h
  unfold boundLabel
  rw [List.set_append_left (l - 1) true (Nat.sub_one_lt_of_le hl.pos hl.le)]
  exact List.prefix_append _ _

theorem OpenLabel.boundLabel_other {k : Label} (h : OpenLabel F k) (hne : k ≠ l) (hl : 0 < l) :
    OpenLabel (boundLabel F l) k := by
  refine ⟨h.1, ?_⟩
  have hindex : l - 1 ≠ k - 1 := fun e => hne (Nat.pred_inj hl h.1 e).symm
  rw [boundLabel, List.getElem?_set_ne hindex, h.2]

end

/-- The outcome is right, or a precondition was broken. -/
def Ends {α : Type} (x : Except Fault α) (Q : α → Prop) : Prop := (∃ r, x = .ok r ∧ Q r) ∨ ∃ what,
  x = .error (.precondition what)

theorem Ends.mono {α : Type} {x : Except Fault α} {Q R : α → Prop} (h : Ends x Q) (hq : ∀ r, Q r → R r) : Ends x R :=
  h.imp (fun ⟨r, hx, hr⟩ => ⟨r, hx, hq r hr⟩) id

theorem Ends.bind {α β : Type} {x : Except Fault α} {f : α → Except Fault β} {Q : α → Prop} {R : β → Prop} (h : Ends x Q)
    (hf : ∀ r, Q r → Ends (f r) R) : Ends (x >>= f) R := by
  rcases h with ⟨r, rfl, hr⟩ | ⟨what, rfl⟩
  · exact hf r hr
  · exact .inr ⟨what, rfl⟩

theorem ends_check (b : Bool) (what : Unit → String) : Ends (check b what) fun _ => b = true := by
  cases b with
  | true => exact .inl ⟨(), rfl, rfl⟩
  | false => exact .inr ⟨what (), rfl⟩

namespace Asm

/-- From labels bound so, the work is safe and ends as told. -/
structure Safe {α : Type} (F : List Bool) (x : Asm α) (Q : α → List Bool → Prop) : Prop where
  ends : ∀ {t a}, t.Complete → a.Sound F →
    Ends (x t a) fun r => ∃ F', Q r.1 F' ∧ r.2.Sound F' ∧ r.2.buf.inStub = a.buf.inStub

/-- Where the labels of `F` exist the work is safe, and the labels that were there are as they were. -/
class Guarded {α : Type} (F : List Bool) (x : Asm α) : Prop where
  safe : ∀ {F'}, F <+: F' → Safe F' x fun _ F'' => F' <+: F''

/-! ## Sequences, choices, repetitions -/

section
variable {α β : Type} {F : List Bool}

variable {x : Asm α}

theorem Safe.mono {Q R : α → List Bool → Prop} (h : Safe F x Q) (hq : ∀ r F', Q r F' → R r F') : Safe F x R where
  ends ht ha := (h.ends ht ha).mono fun _ ⟨F', hr, hs, hin⟩ => ⟨F', hq _ _ hr, hs, hin⟩

theorem Safe.bind {f : α → Asm β} {Q : α → List Bool → Prop} {R : β → List Bool → Prop} (hx : Safe F x Q)
    (hf : ∀ r F', Q r F' → Safe F' (f r) R) : Safe F (x >>= f) R where
  ends ht ha := (hx.ends ht ha).bind fun r ⟨F', hq, hb, hin⟩ =>
    ((hf r.1 F' hq).ends ht hb).mono fun _ ⟨F'', h, hs, hin'⟩ => ⟨F'', h, hs, hin'.trans hin⟩

theorem safe_pure (r : α) : Safe F (pure r) fun q F' => q = r ∧ F' = F where
  ends _ ha := .inl ⟨_, rfl, F, ⟨rfl, rfl⟩, ha, rfl⟩

/-- A check that may fail, or a value that is there. -/
theorem safe_lift {e : Except Fault α} {Q : α → Prop} (h : Ends e Q) : Safe F (liftM e) fun r F' => Q r ∧ F' = F where
  ends _ ha := by
    rcases h with ⟨r, rfl, hr⟩ | ⟨what, rfl⟩
    · exact .inl ⟨_, rfl, F, ⟨hr, rfl⟩, ha, rfl⟩
    · exact .inr ⟨what, rfl⟩

theorem guarded_lift {e : Except Fault α} {Q : α → Prop} (h : Ends e Q) : Guarded F (liftM e : Asm α) where
  safe _ := (safe_lift h).mono fun _ _ h => h.2 ▸ List.prefix_refl _

theorem Guarded.andThen {f : α → Asm β} {R : β → List Bool → Prop} (hx : Guarded F x)
    (hf : ∀ r F', F <+: F' → Safe F' (f r) R) : Safe F (x >>= f) R :=
  (hx.safe (List.prefix_refl F)).bind hf

instance guarded_pure (r : α) : Guarded F (pure r : Asm α) where
  safe _ := (safe_pure r).mono fun _ _ h => h.2 ▸ List.prefix_refl _

instance guarded_bind (x : Asm α) (f : α → Asm β) [hx : Guarded F x] [hf : ∀ r, Guarded F (f r)] :
    Guarded F (x >>= f) where
  safe hp := (hx.safe hp).bind fun r _ h => ((hf r).safe (hp.trans h)).mono fun _ _ h' => h.trans h'

instance guarded_seq (x : Asm α) (y : Asm β) [Guarded F x] [Guarded F y] : Guarded F (x >>= fun _ => y) :=
  guarded_bind x _

instance guarded_ite (c : Prop) [Decidable c] (x y : Asm α) [hx : Guarded F x] [hy : Guarded F y] :
    Guarded F (if c then x else y) := by
  split
  · exact hx
  · exact hy

instance guarded_forM (xs : List β) (f : β → Asm Unit) [hf : ∀ x, Guarded F (f x)] : Guarded F (xs.forM f) := by
  induction xs with
  | nil => exact guarded_pure ()
  | cons x xs ih => exact guarded_bind (f x) fun _ => xs.forM f

instance guarded_check (b : Bool) (what : Unit → String) : Guarded F (liftM (check b what) : Asm Unit) :=
  guarded_lift (ends_check b what)

instance guarded_read : Guarded F (read : Asm Target) where
  safe _ := ⟨fun _ ha => .inl ⟨_, rfl, _, List.prefix_refl _, ha, rfl⟩⟩

instance guarded_get : Guarded F (get : Asm Assembler) where
  safe _ := ⟨fun _ ha => .inl ⟨_, rfl, _, List.prefix_refl _, ha, rfl⟩⟩

instance guarded_opts : Guarded F opts := by
  unfold opts
  infer_instance

end

/-! ## Words -/

section
variable {F : List Bool} {a : Assembler}

variable {f : CodeBuffer → CodeBuffer} (o : Op) (rd rs1 rs2 : Reg)

theorem sound_appended (h : Appends f) (ha : a.Sound F) : Assembler.Sound F { a with buf := f a.buf } where
  flags := ha.flags
  room := by
    show (f a.buf).offset ≤ (f a.buf).capacity
    rw [h.capacity]
    exact h.room _ ha.room
  small := by
    show (f a.buf).capacity < _
    rw [h.capacity]
    exact ha.small
  written hw s hs u hu := by
    obtain ⟨hin, hkind⟩ := ha.written ((h.persists a).working hw) s hs u hu
    have hlo := h.grows a.buf
    exact ⟨⟨hin.1, Int.le_trans hin.2 (Int.ofNat_le.mpr hlo)⟩, hkind⟩

theorem safe_modifyBuf (h : Appends f) : Safe F (modifyBuf f) fun _ F' => F' = F where
  ends _ ha := .inl ⟨_, rfl, F, rfl, sound_appended h ha, h.inStub _⟩

theorem guarded_modifyBuf (h : Appends f) : Guarded F (modifyBuf f) where
  safe _ := (safe_modifyBuf h).mono fun _ _ h => h ▸ List.prefix_refl _

theorem ends_checkClass (r : Reg) (c : RegClass) (what : String) : Ends (checkClass o r c what) fun _ => True := by
  unfold checkClass
  split
  · exact .inl ⟨(), rfl, trivial⟩
  · exact (ends_check ..).mono fun _ _ => trivial
  · exact (ends_check ..).mono fun _ _ => trivial

theorem ends_checkClasses : Ends (checkClasses o rd rs1 rs2) fun _ => True :=
  (ends_checkClass ..).bind fun _ _ => (ends_checkClass ..).bind fun _ _ => ends_checkClass ..

theorem safe_emit (imm : Int64) (aqrl : UInt32) : Safe F (emit o rd rs1 rs2 imm aqrl) fun _ F' => F' = F :=
  (safe_lift (ends_checkClasses o rd rs1 rs2)).bind fun _ _ h => h.2 ▸ safe_modifyBuf (appends_emit4 _)

instance guarded_emit (imm : Int64) (aqrl : UInt32) : Guarded F (emit o rd rs1 rs2 imm aqrl) where
  safe _ := (safe_emit o rd rs1 rs2 imm aqrl).mono fun _ _ h => h ▸ List.prefix_refl _

instance guarded_jalOffset (off : Int64) : Guarded F (jalOffset rd off) := by
  have := guarded_modifyBuf (F := F) (appends_fail branchOutOfRange)
  unfold jalOffset
  infer_instance

end

/-! ## Labels -/

section
variable {F : List Bool} {a : Assembler} {l : Label}

theorem safe_newLabel : Safe F newLabel fun l F' => l = F.length + 1 ∧ F' = F ++ [false] := by
  refine ⟨fun {t a} _ ha => ?_⟩
  have hsize : a.labels.size = F.length := by
    rw [← ha.flags]
    simp
  refine .inl ⟨_, rfl, F ++ [false], ⟨congrArg (· + 1) hsize, rfl⟩, ⟨?_, ha.room, ha.small, fun hw s hs u hu => ?_⟩, rfl⟩
  · show (a.labels.push {}).toList.map LabelState.isBound = _
    rw [Array.toList_push, List.map_append, ha.flags]
    rfl
  · rcases Array.mem_push.mp (Array.mem_toList_iff.mp hs) with hs | rfl
    · exact ha.written hw s (Array.mem_toList_iff.mpr hs) u hu
    · cases hu

/-- A new label is made, and work goes on with it. -/
theorem safe_fresh {α : Type} {f : Label → Asm α} {Q : α → List Bool → Prop}
    (hf : ∀ l F', F <+: F' → F.length < l → OpenLabel F' l → Safe F' (f l) Q) : Safe F (newLabel >>= f) Q :=
  safe_newLabel.bind fun l F' ⟨hl, hF⟩ => by
    subst hl hF
    exact hf _ _ (List.prefix_append _ _) (Nat.lt_succ_self _) (openLabel_fresh F)

theorem label_known (hl : KnownLabel F l) (ha : a.Sound F) : ∃ s, a.label l = .ok s ∧ F[l - 1]? = some s.isBound := by
  have hlen : l - 1 < a.labels.toList.length := by
    rw [← List.length_map LabelState.isBound, ha.flags]
    exact Nat.sub_one_lt_of_le hl.pos hl.le
  obtain ⟨s, hs⟩ : ∃ s, a.labels.toList[l - 1]? = some s := ⟨_, List.getElem?_eq_getElem hlen⟩
  refine ⟨s, ?_, ?_⟩
  · unfold label
    rw [if_neg (Nat.ne_of_gt hl.pos), ← Array.getElem?_toList, hs]
  · rw [← ha.flags, List.getElem?_map, hs]
    rfl

end

end Asm

namespace CodeBuffer

variable {b : CodeBuffer} {off : Int64} {u : LabelUse}

theorem wordAt_ok (hpos : 0 ≤ off.toInt) (hroom : off.toInt + 4 ≤ b.capacity) : ∃ w, b.wordAt off = .ok w := by
  have hneg : decide (off < 0) = false := decide_eq_false (Int64.not_lt.mpr (Int64.le_iff_toInt_le.mpr hpos))
  have hin : decide ((b.capacity : Int) < off.toInt + 4) = false := decide_eq_false (by omega)
  unfold wordAt
  rw [hneg, hin]
  exact ⟨_, rfl⟩

theorem patch_ok (hpos : 0 ≤ off.toInt) (hin : off.toInt + 4 ≤ b.offset) (hsmall : b.offset < 2 ^ 62) (w : UInt32) :
    ∃ b', b.patch off w = .ok b' := by
  have hstop : (off + 4).toInt = off.toInt + 4 := by
    rw [Int64.toInt_add, show (4 : Int64).toInt = 4 from rfl, Int.bmod_def]
    omega
  have hneg : decide (off < 0) = false := decide_eq_false (Int64.not_lt.mpr (Int64.le_iff_toInt_le.mpr hpos))
  have hup : decide (off + 4 < off) = false := decide_eq_false (Int64.not_lt.mpr (Int64.le_iff_toInt_le.mpr (by omega)))
  unfold patch
  dsimp only
  rw [if_neg (by omega), hneg, hup]
  exact ⟨_, rfl⟩

/-- A reference that was written can be corrected. -/
theorem patchUse_ok (hu : u.Within b.offset) (hkind : u.kind.toNat ≤ 2) (hroom : b.offset ≤ b.capacity)
    (hsmall : b.capacity < 2 ^ 62) (target : Int64) : ∃ b', patchUse b u target = .ok b' := by
  obtain ⟨hpos, hin⟩ := hu
  have hfirst : u.offset.toInt + 4 ≤ b.offset := by split at hin <;> omega
  have hroom' : u.offset.toInt + 4 ≤ b.capacity := by omega
  have hsmall' : b.offset < 2 ^ 62 := Nat.lt_of_le_of_lt hroom hsmall
  obtain ⟨w, hw⟩ := wordAt_ok hpos hroom'
  unfold patchUse
  split
  · exact ⟨b, rfl⟩
  · simp only [hw, bind, Except.bind]
    split
    · split
      · exact patch_ok hpos hfirst hsmall' _
      · exact ⟨_, rfl⟩
    · split
      · exact patch_ok hpos hfirst hsmall' _
      · exact ⟨_, rfl⟩
    case _ htwo =>
      rw [if_pos htwo] at hin
      have hnext : (u.offset + 4).toInt = u.offset.toInt + 4 := by
        rw [Int64.toInt_add, show (4 : Int64).toInt = 4 from rfl, Int.bmod_def]
        omega
      obtain ⟨b', hb'⟩ := patch_ok hpos hfirst hsmall' (patchHigh w (target - u.offset))
      have hpatched := patched_patch hb'
      rw [← hpatched.offset] at hin hsmall'
      rw [← hpatched.offset, ← hpatched.capacity] at hroom
      obtain ⟨w', hw'⟩ : ∃ w', b'.wordAt (u.offset + 4) = .ok w' := wordAt_ok (by omega) (by omega)
      rw [hb']
      simp only [hw']
      exact patch_ok (by omega) (by omega) hsmall' _
    case _ hzero hone htwo =>
      have : u.kind.toNat ≠ 0 ∧ u.kind.toNat ≠ 1 ∧ u.kind.toNat ≠ 2 := ⟨hzero, hone, htwo⟩
      omega

/-- References that were written can be corrected one after the other. -/
theorem patchUses_ok {us : List LabelUse} (hus : ∀ u ∈ us, u.Within b.offset ∧ u.kind.toNat ≤ 2)
    (hroom : b.offset ≤ b.capacity)
    (hsmall : b.capacity < 2 ^ 62) (target : Int64) :
    ∃ b', us.foldlM (fun b u => patchUse b u target) b = .ok b' := by
  induction us generalizing b with
  | nil => exact ⟨b, rfl⟩
  | cons u us ih =>
    obtain ⟨hin, hkind⟩ := hus u List.mem_cons_self
    obtain ⟨b', hb'⟩ := patchUse_ok hin hkind hroom hsmall target
    have hpatched := patched_patchUse hb'
    rw [List.foldlM_cons, hb']
    refine ih (fun u' hu' => ?_) ?_ ?_
    · rw [hpatched.offset]
      exact hus u' (List.mem_cons_of_mem _ hu')
    · rwa [hpatched.offset, hpatched.capacity]
    · rwa [hpatched.capacity]

end CodeBuffer

namespace Asm

section
variable {F : List Bool} {a : Assembler} {l : Label} {t : Target}

theorem sound_patched {buf : CodeBuffer} (h : Patched a.buf buf) (ha : a.Sound F) :
    Assembler.Sound F { a with buf := buf } where
  flags := ha.flags
  room := by
    show buf.offset ≤ buf.capacity
    rw [h.offset, h.capacity]
    exact ha.room
  small := by
    show buf.capacity < _
    rw [h.capacity]
    exact ha.small
  written hw s hs u hu := by
    have hwas : a.buf.failed = false := by
      cases hf : a.buf.failed with
      | false => rfl
      | true => exact (h.failed hf).symm.trans hw
    show u.Within buf.offset ∧ _
    rw [h.offset]
    exact ha.written hwas s hs u hu

theorem safe_bindLabel (hl : OpenLabel F l) : Safe F (Asm.bind l) fun _ F' => F' = boundLabel F l := by
  refine ⟨fun {t a} _ ha => ?_⟩
  obtain ⟨s, hs, hflag⟩ := label_known hl.known ha
  have hnot : s.isBound = false := Option.some.inj (hflag.symm.trans hl.2)
  obtain ⟨buf, hbuf⟩ : ∃ buf, s.uses.toList.foldlM (fun buf u =>
    patchUse buf u (Int64.ofNat a.buf.offset)) a.buf = .ok buf := by
    cases hf : a.buf.failed with
    | true => exact ⟨_, patchUses_failed hf _ _⟩
    | false => exact patchUses_ok (ha.written hf s (mem_of_label hs)) ha.room ha.small _
  have hpatched := patched_patchUses hbuf
  have hsound := sound_patched hpatched ha
  refine .inl ⟨_, bindLabel_ok hs hnot hbuf, _, rfl,
    ⟨?_, hsound.room, hsound.small, fun hw s' hs' u hu => ?_⟩, hpatched.inStub⟩
  · show (a.labels.setIfInBounds (l - 1) _).toList.map LabelState.isBound = _
    rw [Array.toList_setIfInBounds, List.map_set, ha.flags]
    rfl
  · rcases List.mem_or_eq_of_mem_set (by rwa [Array.toList_setIfInBounds] at hs') with hs' | rfl
    · exact hsound.written hw s' hs' u hu
    · cases hu

/-! ## References -/

/-- A reference by an instruction that is there, to a label that is there. -/
theorem refer_ends {off : Int64} {kind : UInt8} (hl : KnownLabel F l) (ha : a.Sound F)
    (hu : a.buf.failed = false → LabelUse.Within ⟨off, kind⟩ a.buf.offset) (hkind : kind.toNat ≤ 2) :
    ∃ a', refer l off kind t a = .ok ((), a') ∧ a'.Sound F ∧ a'.buf.inStub = a.buf.inStub := by
  obtain ⟨s, hs, hflag⟩ := label_known hl ha
  cases hpos : s.position? with
  | some pos =>
    obtain ⟨buf, hbuf⟩ : ∃ buf, patchUse a.buf ⟨off, kind⟩ pos = .ok buf := by
      cases hf : a.buf.failed with
      | true => exact ⟨_, patchUse_failed hf _ _⟩
      | false => exact patchUse_ok (hu hf) hkind ha.room ha.small pos
    have hpatched := patched_patchUse hbuf
    exact ⟨_, refer_bound hs hpos hbuf, sound_patched hpatched ha, hpatched.inStub⟩
  | none =>
    have hbound : (s.addUse ⟨off, kind⟩).isBound = s.isBound := rfl
    refine ⟨_, refer_unbound hs hpos, ⟨?_, ha.room, ha.small, fun hw s' hs' u hu' => ?_⟩, rfl⟩
    · show (a.labels.setIfInBounds (l - 1) _).toList.map LabelState.isBound = _
      rw [Array.toList_setIfInBounds, List.map_set, ha.flags, hbound]
      obtain ⟨hlt, hat⟩ := List.getElem?_eq_some_iff.mp hflag
      rw [← hat, List.set_getElem_self]
    · have hs' : s' ∈ (a.labels.setIfInBounds (l - 1) (s.addUse ⟨off, kind⟩)).toList := hs'
      rw [Array.toList_setIfInBounds] at hs'
      rcases List.mem_or_eq_of_mem_set hs' with hs' | rfl
      · exact ha.written hw s' hs' u hu'
      · rcases Array.mem_push.mp (Array.mem_toList_iff.mp hu') with hu' | rfl
        · exact ha.written hw s (mem_of_label hs) u (Array.mem_toList_iff.mpr hu')
        · exact ⟨hu hw, hkind⟩

theorem safe_reference {y : Asm Unit} {kind : UInt8} (hy : Safe F y fun _ F' => F' = F) (hkind : kind.toNat ≤ 2)
    (hwritten : ∀ {t b b'}, y t b = .ok ((), b') → b'.buf.failed = false →
      b.buf.offset + (if kind.toNat = 2 then 8 else 4) ≤ b'.buf.offset) (hl : KnownLabel F l) :
    Safe F (offset >>= fun off => y >>= fun _ => refer l (Int64.ofNat off) kind) fun _ F' => F' = F := by
  refine ⟨fun {t a} ht ha => ?_⟩
  rw [bind_ok (show offset t a = .ok (a.buf.offset, a) from rfl)]
  rcases hy.ends ht ha with ⟨⟨⟨⟩, b⟩, hrun, F', hF, hb, hin⟩ | ⟨what, hstop⟩
  · have hF : F' = F := hF
    subst hF
    rw [bind_ok hrun]
    have hwithin (hw : b.buf.failed = false) : LabelUse.Within ⟨Int64.ofNat a.buf.offset, kind⟩ b.buf.offset := by
      have hlen := hwritten hrun hw
      have hsmall : b.buf.offset < 2 ^ 62 := Nat.lt_of_le_of_lt hb.room hb.small
      have hint : (Int64.ofNat a.buf.offset).toInt = a.buf.offset := Int64.toInt_ofNat_of_lt (by omega)
      refine ⟨by rw [hint]; omega, ?_⟩
      rw [hint]
      split at hlen <;> simp_all <;> omega
    obtain ⟨a', hrefer, hs, hin'⟩ := refer_ends (t := t) hl hb hwithin hkind
    exact .inl ⟨_, hrefer, F', rfl, hs, hin'.trans hin⟩
  · refine .inr ⟨what, ?_⟩
    show (y t a >>= _) = _
    rw [hstop]
    rfl

theorem safe_branch (o : Op) (rs1 rs2 : Reg) (hl : KnownLabel F l) : Safe F (branch o rs1 rs2 l) fun _ F' => F' = F :=
  safe_reference (safe_emit ..) (by decide) (fun h hw => Nat.le_of_eq (emit_written h hw).symm) hl

theorem safe_jal (rd : Reg) (hl : KnownLabel F l) : Safe F (jal rd l) fun _ F' => F' = F :=
  safe_reference (safe_emit ..) (by decide) (fun h hw => Nat.le_of_eq (emit_written h hw).symm) hl

theorem safe_la (rd : Reg) (hl : KnownLabel F l) : Safe F (la rd l) fun _ F' => F' = F := by
  have hwords : Safe F (auipc rd 0 >>= fun _ => emit .addi rd rd .none 0 0) fun _ F' => F' = F :=
    (safe_emit ..).bind fun _ _ h => h ▸ safe_emit ..
  rw [la_eq]
  refine safe_reference hwords (by decide) (fun h hw => ?_) hl
  obtain ⟨_, b1, h1, h2⟩ := bind_eq_ok.mp h
  have hfirst := emit_written h1 ((persists_emit h2).working hw)
  have hsecond := emit_written h2 hw
  rw [if_pos (by decide)]
  omega

theorem safe_isNear (hl : KnownLabel F l) : Safe F (isNear l) fun _ F' => F' = F := by
  refine ⟨fun {t a} _ ha => ?_⟩
  obtain ⟨s, hs, -⟩ := label_known hl ha
  exact .inl ⟨_, isNear_ok hs, F, rfl, ha, rfl⟩

theorem safe_bcond {o : Op} (ho : o.info.format = .branch) (rs1 rs2 : Reg) (hl : KnownLabel F l) :
    Safe F (bcond o rs1 rs2 l) fun _ F' => F' = F := by
  refine (safe_isNear hl).bind fun near _ h => ?_
  subst h
  cases near with
  | true => exact safe_branch o rs1 rs2 hl
  | false =>
    refine (safe_lift (Q := fun _ => True) (.inl ⟨_, negateBranch_eq ho, trivial⟩)).bind fun o' _ h => ?_
    obtain ⟨-, rfl⟩ := h
    refine (safe_emit ..).bind fun _ _ h => ?_
    subst h
    exact safe_jal .zr hl

section
variable [hl : KnownLabel F l]

instance guarded_branch (o : Op) (rs1 rs2 : Reg) : Guarded F (branch o rs1 rs2 l) where
  safe hp := (safe_branch o rs1 rs2 (hl.extend hp)).mono fun _ _ h => h ▸ List.prefix_refl _

instance guarded_jal (rd : Reg) : Guarded F (jal rd l) where
  safe hp := (safe_jal rd (hl.extend hp)).mono fun _ _ h => h ▸ List.prefix_refl _

instance guarded_la (rd : Reg) : Guarded F (la rd l) where
  safe hp := (safe_la rd (hl.extend hp)).mono fun _ _ h => h ▸ List.prefix_refl _

theorem guarded_bcond {o : Op} (ho : o.info.format = .branch) (rs1 rs2 : Reg) : Guarded F (bcond o rs1 rs2 l) where
  safe hp := (safe_bcond ho rs1 rs2 (hl.extend hp)).mono fun _ _ h => h ▸ List.prefix_refl _

instance guarded_bcond_beq (rs1 rs2 : Reg) : Guarded F (bcond .beq rs1 rs2 l) := guarded_bcond rfl rs1 rs2
instance guarded_bcond_bne (rs1 rs2 : Reg) : Guarded F (bcond .bne rs1 rs2 l) := guarded_bcond rfl rs1 rs2

end

end

/-! ## Barriers, maps and entries -/

section
variable {F : List Bool}

instance guarded_fence (pred succ : Int64) : Guarded F (fence pred succ) where
  safe {F'} _ := by
    refine ⟨fun {t a} _ ha => ?_⟩
    have hmarked : Assembler.Sound F' { a with lastFence := some a.buf.offset } :=
      ⟨ha.flags, ha.room, ha.small, ha.written⟩
    have happends := appends_emit4 (fenceWord (pred <<< 4 ||| succ))
    have halone (h : Alone a) : Ends (fence pred succ t a) fun r =>
        ∃ F'', F' <+: F'' ∧ r.2.Sound F'' ∧ r.2.buf.inStub = a.buf.inStub :=
      .inl ⟨_, fence_alone h, F', List.prefix_refl _, sound_appended happends hmarked, happends.inStub a.buf⟩
    cases hm : a.mergeable? with
    | none => exact halone (.inl hm)
    | some f =>
      have hf := (mergeable_eq_some hm).1
      have hroom := ha.room
      have hsmall := Nat.lt_of_le_of_lt ha.room ha.small
      have hint : (Int64.ofNat f).toInt = f := Int64.toInt_ofNat_of_lt (by omega)
      obtain ⟨w, hw⟩ : ∃ w, a.buf.wordAt (Int64.ofNat f) = .ok w := wordAt_ok (by omega) (by omega)
      obtain ⟨o, ho⟩ : ∃ o, fenceAt? a.buf f = .ok o := by
        unfold fenceAt?
        rw [hw]
        show ∃ o, (match decode w with | some i => _ | none => _) = Except.ok o
        cases decode w <;> exact ⟨_, rfl⟩
      cases o with
      | none => exact halone (.inr ⟨f, hm, ho⟩)
      | some old =>
        obtain ⟨buf, hbuf⟩ : ∃ buf, a.buf.patch (Int64.ofNat f) (fenceWord (old ||| (pred <<< 4 ||| succ))) = .ok buf :=
          patch_ok (by omega) (by omega) hsmall _
        have hpatched := patched_patch hbuf
        exact .inl ⟨_, fence_merged hm ho hbuf, F', List.prefix_refl _, sound_patched hpatched ha, hpatched.inStub⟩

/-- A change that keeps the labels and the buffer. -/
theorem guarded_modify {f : Assembler → Assembler} (hbuf : ∀ a, (f a).buf = a.buf)
    (hlabels : ∀ a, (f a).labels = a.labels) :
    Guarded F (modify f : Asm Unit) where
  safe {F'} _ := by
    refine ⟨fun _ ha => .inl ⟨_, rfl, F', List.prefix_refl _, ⟨?_, ?_, ?_, ?_⟩, by rw [hbuf]⟩⟩
    · rw [hlabels]
      exact ha.flags
    · rw [hbuf]
      exact ha.room
    · rw [hbuf]
      exact ha.small
    · rw [hbuf, hlabels]
      exact ha.written

instance guarded_comment (text : String) : Guarded F (comment text) := guarded_modify (fun _ => rfl) fun _ => rfl

instance guarded_markEntry (name : String) : Guarded F (markEntry name) := guarded_modify (fun _ => rfl) fun _ => rfl

end

end Asm

end RiscvJit
