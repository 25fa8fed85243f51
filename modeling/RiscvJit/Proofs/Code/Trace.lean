import RiscvJit.Proofs.Lower.Control

/-
  RiscvJit.Proofs.Code.Trace — what work writes, as a list of items.

  Work that writes code is a sequence of items: words, references to labels, labels that are
  bound, barriers, entry points, maps and the brackets of stubs. `Trace t items a a'` says that
  the items, done one after the other, take the assembler `a` to `a'`. Then

    - an item that ends normally on an assembler that holds a layout, and does not fail it, leads
      to the layout with the item added (`Item.holds`), and so does a trace (`Trace.holds`);
    - a buffer that works at the end has worked all the time (`Trace.working`);
    - pieces stay where they are (`pieces_drawn`) and bound labels stay bound (`Trace.mark`);
    - an entry point keeps the offset at which it was recorded (`Trace.lookup`), and so does a map
      (`Trace.find?`).
-/

namespace RiscvJit

open Asm (addOopMap startStub bind_eq_ok lift_eq_ok pure_eq_ok emit_eq_ok change_eq_ok)

/-- Something written, or noted, at the end of the code. -/
inductive Item where
  | word (w : UInt32)
  /-- A reference to a label, a new label or the binding of one. -/
  | call (c : Call)
  | barrier (w : UInt32)
  | entry (name : String)
  | map (m : OopMap)
  | stub (name : String) (size : Int64)
  | endStub

/-- Branches are made by branch instructions. -/
def Call.Proper : Call → Prop
  | .branch o _ _ _ | .bcond o _ _ _ => o.info.format = .branch
  | _ => True

namespace Item

/-- The work of an item. -/
def run : Item → Asm Unit
  | .word w => Asm.modifyBuf (·.emit4 w)
  | .call c => c.run
  | .barrier w => fun _ a => .ok ((), { a with lastFence := some a.buf.offset, buf := a.buf.emit4 w })
  | .entry name => Asm.markEntry name
  | .map m => addOopMap m
  | .stub name size => do let _ ← startStub name size
  | .endStub => Asm.endStub

def Proper : Item → Prop
  | .call c => c.Proper
  | _ => True

end Item

/-- The layout with an item added. -/
def Layout.add (L : Layout) : Item → Layout
  | .word w | .barrier w => L.write [.word w]
  | .call c => L.after c
  | _ => L

/-- The layout with items added. -/
def Layout.drawn (L : Layout) (items : List Item) : Layout := items.foldl Layout.add L

/-- The items take one assembler to the other. -/
inductive Trace (t : Target) : List Item → Assembler → Assembler → Prop
  | nil (a : Assembler) : Trace t [] a a
  | cons {i : Item} {is : List Item} {a b a' : Assembler} : i.Proper → i.run t a = .ok ((), b) → Trace t is b a' →
      Trace t (i :: is) a a'

/-! ## What single statements leave alone -/

/-- The same stubs, and none opened or closed. -/
structure CodeBuffer.SameStubs (b b' : CodeBuffer) : Prop where
  stubs : b'.stubs = b.stubs
  inStub : b'.inStub = b.inStub

theorem CodeBuffer.sameStubs_refl (b : CodeBuffer) : b.SameStubs b := ⟨rfl, rfl⟩

theorem CodeBuffer.SameStubs.trans {b c d : CodeBuffer} (h : b.SameStubs c) (h' : c.SameStubs d) : b.SameStubs d :=
  ⟨h'.stubs.trans h.stubs, h'.inStub.trans h.inStub⟩

/-- Code and labels changed at most. A failed buffer stays failed, and nothing written is taken
back. -/
structure CodeOnly (a a' : Assembler) : Prop where
  failed : a.buf.failed = true → a'.buf.failed = true
  offset : a.buf.offset ≤ a'.buf.offset
  base : a'.buf.base = a.buf.base
  entries : a'.entries = a.entries
  maps : a'.oopMaps = a.oopMaps
  fence : a'.lastFence = a.lastFence
  /-- A label that was bound at the end still is, if the end is the same. -/
  bound : a'.buf.offset = a.buf.offset → a.lastBind = some a.buf.offset → a'.lastBind = some a.buf.offset
  stubs : a.buf.SameStubs a'.buf

theorem codeOnly_refl (a : Assembler) : CodeOnly a a :=
  ⟨id, Nat.le_refl _, rfl, rfl, rfl, rfl, fun _ h => h, a.buf.sameStubs_refl⟩

theorem CodeOnly.trans {a b c : Assembler} (h : CodeOnly a b) (h' : CodeOnly b c) : CodeOnly a c where
  failed := h'.failed ∘ h.failed
  offset := Nat.le_trans h.offset h'.offset
  base := h'.base.trans h.base
  entries := h'.entries.trans h.entries
  maps := h'.maps.trans h.maps
  fence := h'.fence.trans h.fence
  bound hend hbound := by
    have hle := h.offset
    have hle' := h'.offset
    have hmiddle : b.buf.offset = a.buf.offset := by omega
    rw [← hmiddle] at hend ⊢
    exact h'.bound hend (hmiddle ▸ h.bound hmiddle hbound)
  stubs := h.stubs.trans h'.stubs

/-- Work that changes code and labels at most. -/
def Asm.CodeOnly {α : Type} (x : Asm α) : Prop := ∀ t a r a', x t a = .ok (r, a') → RiscvJit.CodeOnly a a'

section
variable {α β : Type}

theorem Asm.CodeOnly.bind {x : Asm α} {f : α → Asm β} (hx : x.CodeOnly) (hf : ∀ r, (f r).CodeOnly) :
    (x >>= f).CodeOnly := by
  intro t a s a' h
  obtain ⟨r, b, hr, hs⟩ := bind_eq_ok.mp h
  exact (hx t a r b hr).trans (hf r t b s a' hs)

theorem codeOnly_lift (e : Except Fault α) : (liftM e : Asm α).CodeOnly := by
  intro t a r a' h
  rw [(lift_eq_ok.mp h).2]
  exact codeOnly_refl a

theorem codeOnly_pure (r : α) : (pure r : Asm α).CodeOnly := by
  intro t a s a' h
  rw [← (pure_eq_ok.mp h).2]
  exact codeOnly_refl a

theorem codeOnly_offset : Asm.offset.CodeOnly := by
  intro t a r a' h
  cases h
  exact codeOnly_refl a

variable {b' : CodeBuffer} (b : CodeBuffer) (w : UInt32) (l : Label)

theorem offset_emit4 : b.offset ≤ (b.emit4 w).offset := by
  unfold CodeBuffer.emit4 CodeBuffer.offset
  split
  · exact Nat.le_refl _
  · split
    · exact Nat.le_refl _
    · simp only [Array.size_push]
      omega

theorem base_emit4 : (b.emit4 w).base = b.base := by
  unfold CodeBuffer.emit4
  split
  · rfl
  · split <;> rfl

theorem sameStubs_emit4 : b.SameStubs (b.emit4 w) := by
  unfold CodeBuffer.emit4
  split
  · exact b.sameStubs_refl
  · split <;> exact ⟨rfl, rfl⟩

theorem codeOnly_emit4 (a : Assembler) (w : UInt32) : RiscvJit.CodeOnly a { a with buf := a.buf.emit4 w } where
  failed := fun hf => by rw [CodeBuffer.emit4_failed hf]; exact hf
  offset := offset_emit4 _ _
  base := base_emit4 _ _
  entries := rfl
  maps := rfl
  fence := rfl
  bound := fun _ h => h
  stubs := sameStubs_emit4 _ _

theorem codeOnly_emit (o : Op) (rd rs1 rs2 : Reg) (imm : Int64) (aqrl : UInt32) :
    (Asm.emit o rd rs1 rs2 imm aqrl).CodeOnly := by
  intro t a r a' h
  obtain ⟨-, rfl⟩ := emit_eq_ok.mp h
  exact codeOnly_emit4 a _

/-- What patching a reference leaves alone. -/
structure Patched (b b' : CodeBuffer) : Prop where
  failed : b.failed = true → b'.failed = true
  offset : b'.offset = b.offset
  base : b'.base = b.base
  capacity : b'.capacity = b.capacity
  inStub : b'.inStub = b.inStub
  stubs : b'.stubs = b.stubs

theorem patched_refl : Patched b b := ⟨id, rfl, rfl, rfl, rfl, rfl⟩

theorem Patched.trans {b c d : CodeBuffer} (h : Patched b c) (h' : Patched c d) : Patched b d :=
  ⟨h'.failed ∘ h.failed, h'.offset.trans h.offset, h'.base.trans h.base, h'.capacity.trans h.capacity,
    h'.inStub.trans h.inStub, h'.stubs.trans h.stubs⟩

theorem Patched.sameStubs {b c : CodeBuffer} (h : Patched b c) : b.SameStubs c := ⟨h.stubs, h.inStub⟩

theorem patched_fail (reason : String) : Patched b (b.fail reason) := by
  unfold CodeBuffer.fail
  split
  · exact patched_refl b
  case _ hf => exact ⟨fun h => absurd h hf, rfl, rfl, rfl, rfl, rfl⟩

theorem patched_patch {b : CodeBuffer} {off : Int64} {w : UInt32} (h : b.patch off w = .ok b') : Patched b b' := by
  have kept {bytes : Array UInt8} (hsize : bytes.size = b.bytes.size) : Patched b { b with bytes } :=
    ⟨id, hsize, rfl, rfl, rfl, rfl⟩
  unfold CodeBuffer.patch at h
  dsimp only at h
  split at h
  · cases h
    exact patched_refl _
  · split at h
    · cases h
    · cases h
      exact kept (CodeBuffer.size_patchBytes _ _ _)

theorem patched_patchUse {b : CodeBuffer} {u : LabelUse} {pos : Int64} (h : Assembler.patchUse b u pos = .ok b') :
    Patched b b' := by
  unfold Assembler.patchUse at h
  split at h
  · cases h
    exact patched_refl _
  · obtain ⟨w, -, h⟩ := except_bind_eq_ok.mp h
    split at h
    · split at h
      · exact patched_patch h
      · cases h
        exact patched_fail b _
    · split at h
      · exact patched_patch h
      · cases h
        exact patched_fail b _
    · obtain ⟨b1, hb1, h⟩ := except_bind_eq_ok.mp h
      obtain ⟨w', -, h⟩ := except_bind_eq_ok.mp h
      exact (patched_patch hb1).trans (patched_patch h)
    · cases h

theorem patched_patchUses {uses : List LabelUse} {pos : Int64} {b : CodeBuffer}
    (h : uses.foldlM (fun b u => Assembler.patchUse b u pos) b = .ok b') : Patched b b' := by
  induction uses generalizing b with
  | nil =>
    cases h
    exact patched_refl _
  | cons u uses ih =>
    rw [List.foldlM_cons] at h
    obtain ⟨b1, hb, h⟩ := except_bind_eq_ok.mp h
    exact (patched_patchUse hb).trans (ih h)

theorem codeOnly_refer (off : Int64) (kind : UInt8) : (Asm.refer l off kind).CodeOnly := by
  intro t a r a' h
  obtain ⟨s, -, h⟩ := except_bind_eq_ok.mp (change_eq_ok.mp h)
  split at h
  · obtain ⟨b, hb, h⟩ := except_bind_eq_ok.mp h
    cases h
    have hp := patched_patchUse hb
    exact ⟨hp.failed, Nat.le_of_eq hp.offset.symm, hp.base, rfl, rfl, rfl, fun _ h => h, hp.sameStubs⟩
  · cases h
    exact ⟨id, Nat.le_refl _, rfl, rfl, rfl, rfl, fun _ h => h, ⟨rfl, rfl⟩⟩

theorem codeOnly_bind : (Asm.bind l).CodeOnly := by
  intro t a r a' h
  obtain ⟨s, -, h⟩ := except_bind_eq_ok.mp (change_eq_ok.mp h)
  obtain ⟨us, -, h⟩ := except_bind_eq_ok.mp h
  obtain ⟨b, hb, h⟩ := except_bind_eq_ok.mp h
  cases h
  rw [← Array.foldlM_toList] at hb
  have hp := patched_patchUses hb
  exact ⟨hp.failed, Nat.le_of_eq hp.offset.symm, hp.base, rfl, rfl, rfl, fun _ _ => rfl, hp.sameStubs⟩

theorem codeOnly_newLabel : Asm.newLabel.CodeOnly := by
  intro t a r a' h
  cases h
  exact ⟨id, Nat.le_refl _, rfl, rfl, rfl, rfl, fun _ h => h, ⟨rfl, rfl⟩⟩

theorem codeOnly_branch (o : Op) (rs1 rs2 : Reg) (l : Label) : (Asm.branch o rs1 rs2 l).CodeOnly :=
  codeOnly_offset.bind fun _ => (codeOnly_emit _ _ _ _ _ _).bind fun _ => codeOnly_refer _ _ _

theorem codeOnly_jal (rd : Reg) (l : Label) : (Asm.jal rd l).CodeOnly :=
  codeOnly_offset.bind fun _ => (codeOnly_emit _ _ _ _ _ _).bind fun _ => codeOnly_refer _ _ _

theorem codeOnly_isNear : (Asm.isNear l).CodeOnly := by
  refine Asm.CodeOnly.bind (fun t a r a' h => ?_) fun a => (codeOnly_lift _).bind fun s => ?_
  · cases h
    exact codeOnly_refl a
  · split <;> exact codeOnly_pure _

theorem Call.codeOnly (c : Call) : c.run.CodeOnly := by
  cases c with
  | plain o rd rs1 rs2 imm aqrl => exact codeOnly_emit _ _ _ _ _ _
  | branch o rs1 rs2 l => exact codeOnly_branch _ _ _ _
  | bcond o rs1 rs2 l =>
    refine (codeOnly_isNear l).bind fun near => ?_
    split
    · exact codeOnly_branch _ _ _ _
    · exact (codeOnly_lift _).bind fun _ => (codeOnly_emit _ _ _ _ _ _).bind fun _ => codeOnly_jal _ _
  | jal rd l => exact codeOnly_jal _ _
  | la rd l =>
    exact codeOnly_offset.bind fun _ => (codeOnly_emit _ _ _ _ _ _).bind fun _ =>
      (codeOnly_emit _ _ _ _ _ _).bind fun _ =>
      codeOnly_refer _ _ _
  | newLabel => exact codeOnly_newLabel.bind fun _ => codeOnly_pure _
  | bind l => exact codeOnly_bind l

end

/-! ## One item -/

section
variable {t : Target} {a b a' : Assembler} {L : Layout} {i : Item}

variable {l : Label}

/-- A label that is looked up was handed out. -/
theorem Tracks.known (h : Tracks L a) {s : LabelState} (hl : a.label l = .ok s) : L.Known l := by
  unfold Assembler.label at hl
  split at hl
  · cases hl
  case _ hne =>
    have size : a.labels.size = L.marks.length := by
      simpa using congrArg List.length h
    refine ⟨Nat.pos_of_ne_zero hne, ?_⟩
    split at hl
    case _ s' hs =>
      have := (Array.getElem?_eq_some_iff.mp hs).1
      omega
    · cases hl

theorem Tracks.known_refer (h : Tracks L a) {b : CodeBuffer} {u : LabelUse}
    (hrefer : ({ a with buf := b } : Assembler).refer l u = .ok a') : L.Known l := by
  obtain ⟨s, hs, -⟩ := except_bind_eq_ok.mp hrefer
  exact h.known (a := a) hs

theorem isInt_of_check {o : Op} {r : Reg} {c : RegClass} {what : String} (hc : c = .int)
    (h : Asm.checkClass o r c what = .ok ()) : r.isInt = true := by
  subst hc
  rw [Asm.checkClass] at h
  exact check_eq_ok.mp h

theorem Tracks.legal_branch (h : Tracks L a) {o : Op} {rs1 rs2 : Reg} (ho : o.info.format = .branch)
    (hrun : Asm.branch o rs1 rs2 l t a = .ok ((), b)) : L.Legal (.branch o rs1 rs2 l) := by
  obtain ⟨off, a1, hoff, hrun⟩ := bind_eq_ok.mp hrun
  cases hoff
  obtain ⟨_, a2, hemit, hrefer⟩ := bind_eq_ok.mp hrun
  obtain ⟨hcheck, rfl⟩ := emit_eq_ok.mp hemit
  obtain ⟨-, c1, c2⟩ := checkClasses_eq_ok hcheck
  obtain ⟨-, e1, e2⟩ := branch_classes ho
  exact ⟨ho, isInt_of_check e1 c1, isInt_of_check e2 c2, h.known_refer (change_eq_ok.mp hrefer)⟩

theorem Tracks.legal_jal (h : Tracks L a) {rd : Reg} (hrun : Asm.jal rd l t a = .ok ((), b)) : L.Legal (.jal rd l) := by
  obtain ⟨off, a1, hoff, hrun⟩ := bind_eq_ok.mp hrun
  cases hoff
  obtain ⟨_, a2, hemit, hrefer⟩ := bind_eq_ok.mp hrun
  obtain ⟨hcheck, rfl⟩ := emit_eq_ok.mp hemit
  exact ⟨isInt_of_check rfl (checkClasses_eq_ok hcheck).1, h.known_refer (change_eq_ok.mp hrefer)⟩

/-- A call that ended normally was a legal one. -/
theorem Tracks.legal (h : Tracks L a) {c : Call} (hp : c.Proper) (hrun : c.run t a = .ok ((), b)) : L.Legal c := by
  cases c with
  | plain o rd rs1 rs2 imm aqrl => exact (emit_eq_ok.mp hrun).1
  | branch o rs1 rs2 l => exact h.legal_branch hp hrun
  | bcond o rs1 rs2 l =>
    obtain ⟨near, a1, hnear, hrest⟩ := bind_eq_ok.mp hrun
    have hsame : a1 = a ∧ ∃ s, a.label l = .ok s := by
      obtain ⟨a2, b2, hget, hnear⟩ := bind_eq_ok.mp hnear
      cases hget
      obtain ⟨s, b3, hs, hnear⟩ := bind_eq_ok.mp hnear
      obtain ⟨hs, rfl⟩ := lift_eq_ok.mp hs
      refine ⟨?_, s, hs⟩
      cases hpos : s.position? with
      | none => rw [hpos] at hnear; exact (pure_eq_ok.mp hnear).2.symm
      | some p => rw [hpos] at hnear; exact (pure_eq_ok.mp hnear).2.symm
    obtain ⟨rfl, s, hs⟩ := hsame
    split at hrest
    · exact h.legal_branch hp hrest
    · obtain ⟨o', a2, ho', hrest⟩ := bind_eq_ok.mp hrest
      obtain ⟨ho', rfl⟩ := lift_eq_ok.mp ho'
      rw [negateBranch_eq hp] at ho'
      cases ho'
      obtain ⟨_, a3, hemit, -⟩ := bind_eq_ok.mp hrest
      obtain ⟨-, c1, c2⟩ := checkClasses_eq_ok (emit_eq_ok.mp hemit).1
      obtain ⟨-, e1, e2⟩ := branch_classes (format_negated hp)
      exact ⟨hp, isInt_of_check e1 c1, isInt_of_check e2 c2, h.known hs⟩
  | jal rd l => exact h.legal_jal hrun
  | la rd l =>
    obtain ⟨off, a1, hoff, hrun⟩ := bind_eq_ok.mp hrun
    cases hoff
    obtain ⟨_, a2, hhigh, hrun⟩ := bind_eq_ok.mp hrun
    obtain ⟨hcheck, rfl⟩ := emit_eq_ok.mp hhigh
    obtain ⟨_, a3, hlow, hrefer⟩ := bind_eq_ok.mp hrun
    obtain ⟨-, rfl⟩ := emit_eq_ok.mp hlow
    exact ⟨isInt_of_check rfl (checkClasses_eq_ok hcheck).1, h.known_refer (change_eq_ok.mp hrefer)⟩
  | newLabel => trivial
  | bind l =>
    have hbind : a.bind l = .ok b := change_eq_ok.mp (show Asm.bind l t a = _ from hrun)
    obtain ⟨s, hs, -⟩ := except_bind_eq_ok.mp hbind
    exact ⟨h.known hs, h.unbound (h.known hs) hbind⟩

theorem Holds.legal (h : Holds L a) {c : Call} (hp : c.Proper) (hrun : c.run t a = .ok ((), b)) : L.Legal c :=
  h.tracks.legal hp hrun

/-- What every item leaves alone. -/
structure Item.Steady (a b : Assembler) : Prop where
  failed : a.buf.failed = true → b.buf.failed = true
  offset : a.buf.offset ≤ b.buf.offset
  base : b.buf.base = a.buf.base
  bound : b.buf.offset = a.buf.offset → a.lastBind = some a.buf.offset → b.lastBind = some a.buf.offset

theorem Item.steady_refl (a : Assembler) : Item.Steady a a := ⟨id, Nat.le_refl _, rfl, fun _ h => h⟩

theorem Item.Steady.trans (h : Item.Steady a b) (h' : Item.Steady b a') : Item.Steady a a' where
  failed := h'.failed ∘ h.failed
  offset := Nat.le_trans h.offset h'.offset
  base := h'.base.trans h.base
  bound hend hbound := by
    have hle := h.offset
    have hle' := h'.offset
    have hmiddle : b.buf.offset = a.buf.offset := by omega
    rw [← hmiddle] at hend ⊢
    exact h'.bound hend (hmiddle ▸ h.bound hmiddle hbound)

theorem addOopMap_cases {m : OopMap} (h : addOopMap m t a = .ok ((), b)) :
    a.buf.failed = true ∧ b = a ∨
      a.buf.failed = false ∧ ∃ maps, a.oopMaps.add (Int64.ofNat a.buf.offset) m = .ok maps ∧
      b = { a with oopMaps := maps } := by
  obtain ⟨f, a1, hf, h⟩ := bind_eq_ok.mp h
  cases hf
  cases hfailed : a.buf.failed with
  | true =>
    rw [hfailed] at h
    exact .inl ⟨rfl, (pure_eq_ok.mp h).2.symm⟩
  | false =>
    rw [hfailed, if_neg (by decide)] at h
    obtain ⟨maps, hmaps, e⟩ := except_bind_eq_ok.mp (change_eq_ok.mp h)
    cases e
    exact .inr ⟨rfl, maps, hmaps, rfl⟩

theorem startStub_eq {name : String} {size : Int64} {ok : Bool} (h : startStub name size t a = .ok (ok, b)) :
    ∃ buf, a.buf.startStub name size = .ok (ok, buf) ∧ b = { a with buf } := by
  obtain ⟨a1, a2, hget, h⟩ := bind_eq_ok.mp h
  cases hget
  obtain ⟨⟨ok', buf⟩, a3, hstart, h⟩ := bind_eq_ok.mp h
  obtain ⟨hstart, rfl⟩ := lift_eq_ok.mp hstart
  obtain ⟨_, a4, hset, h⟩ := bind_eq_ok.mp h
  cases hset
  obtain ⟨rfl, rfl⟩ := pure_eq_ok.mp h
  exact ⟨buf, hstart, rfl⟩

/-- Opening a stub changes no byte; it fails the buffer when there is no room. -/
theorem startStub_cases {name : String} {size : Int64} {ok : Bool} (h : startStub name size t a = .ok (ok, b)) :
    ∃ buf, b = { a with buf } ∧ buf.bytes = a.buf.bytes ∧ buf.capacity = a.buf.capacity ∧ buf.base = a.buf.base ∧
      (ok = true ∧ buf.failure = a.buf.failure ∨ ok = false ∧ buf.failed = true) := by
  obtain ⟨buf, hstart, rfl⟩ := startStub_eq h
  obtain ⟨-, ⟨rfl, hf, rfl⟩ | ⟨rfl, -, -, rfl⟩ | ⟨rfl, -, -, rfl⟩⟩ := CodeBuffer.startStub_cases hstart
  · exact ⟨_, rfl, rfl, rfl, rfl, .inr ⟨rfl, hf⟩⟩
  · exact ⟨_, rfl, rfl, rfl, rfl, .inr ⟨rfl, rfl⟩⟩
  · exact ⟨_, rfl, rfl, rfl, rfl, .inl ⟨rfl, rfl⟩⟩

theorem endStub_eq_ok (h : Asm.endStub t a = .ok ((), b)) : a.buf.inStub = true ∧ b = { a with buf := { a.buf with
    inStub := false, stubs := a.buf.stubs.modify (a.buf.stubs.size - 1) fun s => { s with stop := a.buf.offset } } } := by
  obtain ⟨buf, hend, e⟩ := except_bind_eq_ok.mp (change_eq_ok.mp h)
  cases e
  obtain ⟨hin, rfl⟩ := CodeBuffer.endStub_eq_ok hend
  exact ⟨hin, rfl⟩

theorem Item.steady (h : i.run t a = .ok ((), b)) : Item.Steady a b := by
  cases i with
  | word w =>
    cases h
    exact ⟨(codeOnly_emit4 a w).failed, (codeOnly_emit4 a w).offset, (codeOnly_emit4 a w).base, fun _ h => h⟩
  | call c =>
    have hc := c.codeOnly t a () b h
    exact ⟨hc.failed, hc.offset, hc.base, hc.bound⟩
  | barrier w =>
    cases h
    exact ⟨(codeOnly_emit4 a w).failed, (codeOnly_emit4 a w).offset, (codeOnly_emit4 a w).base, fun _ h => h⟩
  | entry name =>
    cases h
    exact ⟨id, Nat.le_refl _, rfl, fun _ h => h⟩
  | map m =>
    rcases addOopMap_cases h with ⟨-, rfl⟩ | ⟨-, maps, -, rfl⟩
    · exact ⟨id, Nat.le_refl _, rfl, fun _ h => h⟩
    · exact ⟨id, Nat.le_refl _, rfl, fun _ h => h⟩
  | stub name size =>
    obtain ⟨ok, a1, hstart, e⟩ := bind_eq_ok.mp h
    obtain ⟨-, rfl⟩ := pure_eq_ok.mp e
    obtain ⟨buf, rfl, hbytes, -, hbase, hok⟩ := startStub_cases hstart
    refine ⟨fun hf => ?_, Nat.le_of_eq (congrArg Array.size hbytes.symm), hbase, fun _ h => h⟩
    rcases hok with ⟨-, hfail⟩ | ⟨-, hfail⟩
    · rw [CodeBuffer.failed] at hf ⊢
      rwa [hfail]
    · exact hfail
  | endStub =>
    obtain ⟨-, rfl⟩ := endStub_eq_ok h
    exact ⟨id, Nat.le_refl _, rfl, fun _ h => h⟩

theorem Holds.congr (h : Holds L a) {buf : CodeBuffer} (hbytes : buf.bytes = a.buf.bytes)
    (hcap : buf.capacity = a.buf.capacity) (hfail : buf.failure = a.buf.failure) : Holds L { a with buf } := by
  refine ⟨⟨?_, ?_, ?_, ?_⟩, h.labels, h.sound, h.reaches⟩
  · rw [CodeBuffer.failed, hfail]
    exact h.spells.working
  · rw [hbytes]
    exact h.spells.bytes
  · rw [hcap]
    exact h.spells.room
  · rw [hcap]
    exact h.spells.limit

/-- An item that does not fail the buffer leads to the layout with it. -/
theorem Item.holds (hL : Holds L a) (hp : i.Proper) (h : i.run t a = .ok ((), b)) (hw : b.buf.failed = false) :
    Holds (L.add i) b := by
  cases i with
  | word w =>
    cases h
    exact holds_of_settles (hL.emit w) hw
  | call c =>
    obtain ⟨b', hrun, -, hsettles, -⟩ := Call.run_holds (t := t) hL (hL.legal hp h)
    rw [show c.run t a = .ok ((), b) from h] at hrun
    cases hrun
    exact holds_of_settles hsettles hw
  | barrier w =>
    cases h
    have hword := holds_of_settles (hL.emit w) hw
    exact ⟨hword.spells, hword.labels, hword.sound, hword.reaches⟩
  | entry name =>
    cases h
    exact ⟨hL.spells, hL.labels, hL.sound, hL.reaches⟩
  | map m =>
    rcases addOopMap_cases h with ⟨-, rfl⟩ | ⟨-, maps, -, rfl⟩
    · exact hL
    · exact ⟨hL.spells, hL.labels, hL.sound, hL.reaches⟩
  | stub name size =>
    obtain ⟨ok, a1, hstart, e⟩ := bind_eq_ok.mp h
    obtain ⟨-, rfl⟩ := pure_eq_ok.mp e
    obtain ⟨buf, rfl, hbytes, hcap, -, hok⟩ := startStub_cases hstart
    rcases hok with ⟨-, hfail⟩ | ⟨-, hfail⟩
    · exact hL.congr hbytes hcap hfail
    · rw [show ({ a with buf } : Assembler).buf.failed = true from hfail] at hw
      cases hw
  | endStub =>
    obtain ⟨-, rfl⟩ := endStub_eq_ok h
    exact hL.congr rfl rfl rfl

end

/-! ## Traces -/

section
variable {t : Target} {a b a' : Assembler} {L : Layout} {items pre post : List Item}

theorem Trace.append (h : Trace t pre a b) (h' : Trace t post b a') : Trace t (pre ++ post) a a' := by
  induction h with
  | nil a => exact h'
  | cons hp hrun _ ih => exact .cons hp hrun (ih h')

theorem Trace.steady (h : Trace t items a a') : Item.Steady a a' := by
  induction h with
  | nil a => exact Item.steady_refl a
  | cons _ hrun _ ih => exact (Item.steady hrun).trans ih

/-- A buffer that works in the end has worked before. -/
theorem Trace.working (h : Trace t items a a') (hw : a'.buf.failed = false) : a.buf.failed = false := by
  cases hf : a.buf.failed with
  | false => rfl
  | true => rw [h.steady.failed hf] at hw; cases hw

theorem Trace.holds (hL : Holds L a) (h : Trace t items a a') (hw : a'.buf.failed = false) :
    Holds (L.drawn items) a' := by
  induction h generalizing L with
  | nil a => exact hL
  | cons hp hrun hrest ih => exact ih (Item.holds hL hp hrun (hrest.working hw)) hw

theorem pieces_add (L : Layout) (i : Item) : L.pieces <+: (L.add i).pieces := by
  cases i with
  | word w => exact List.prefix_append ..
  | barrier w => exact List.prefix_append ..
  | call c =>
    obtain ⟨ps, e⟩ := pieces_after L c
    exact ⟨ps, e.symm⟩
  | entry _ => exact List.prefix_refl _
  | map _ => exact List.prefix_refl _
  | stub _ _ => exact List.prefix_refl _
  | endStub => exact List.prefix_refl _

/-- What was written stays where it is. -/
theorem pieces_drawn (L : Layout) (items : List Item) : L.pieces <+: (L.drawn items).pieces := by
  induction items generalizing L with
  | nil => exact List.prefix_refl _
  | cons i items ih => exact (pieces_add L i).trans (ih _)

/-- A label that was handed out stays known and, once bound, where it is. -/
theorem Item.mark {i : Item} (hL : Holds L a) (hp : i.Proper) (h : i.run t a = .ok ((), b)) {l m : Nat}
    (hl : L.Known l) (hm : L.mark l = some m) : (L.add i).Known l ∧ (L.add i).mark l = some m := by
  cases i with
  | call c => exact ⟨known_after hl, mark_after (hL.legal hp h) hl hm⟩
  | word w => exact ⟨hl, hm⟩
  | barrier w => exact ⟨hl, hm⟩
  | entry _ => exact ⟨hl, hm⟩
  | map _ => exact ⟨hl, hm⟩
  | stub _ _ => exact ⟨hl, hm⟩
  | endStub => exact ⟨hl, hm⟩

theorem Trace.mark (hL : Holds L a) (h : Trace t items a a') (hw : a'.buf.failed = false) {l m : Nat}
    (hl : L.Known l) (hm : L.mark l = some m) : (L.drawn items).Known l ∧ (L.drawn items).mark l = some m := by
  induction h generalizing L with
  | nil a => exact ⟨hl, hm⟩
  | cons hp hrun hrest ih =>
    obtain ⟨hl', hm'⟩ := Item.mark hL hp hrun hl hm
    exact ih (Item.holds hL hp hrun (hrest.working hw)) hw hl' hm'

/-- An item that is no entry point keeps those that were recorded. -/
theorem Item.entries {i : Item} (h : i.run t a = .ok ((), b)) (hi : ∀ name, i ≠ .entry name) :
    b.entries = a.entries := by
  cases i with
  | word w => cases h; rfl
  | call c => exact (c.codeOnly t a () b h).entries
  | barrier w => cases h; rfl
  | entry name => exact absurd rfl (hi name)
  | map m => rcases addOopMap_cases h with ⟨-, rfl⟩ | ⟨-, maps, -, rfl⟩ <;> rfl
  | stub name size =>
    obtain ⟨ok, a1, hstart, e⟩ := bind_eq_ok.mp h
    obtain ⟨-, rfl⟩ := pure_eq_ok.mp e
    obtain ⟨buf, rfl, -⟩ := startStub_cases hstart
    rfl
  | endStub =>
    obtain ⟨-, rfl⟩ := endStub_eq_ok h
    rfl

theorem lookup_markEntry (a : Assembler) (name : String) :
    (a.markEntry name).entries.lookup name = some a.buf.offset := by
  show (a.entries.filter (·.1 ≠ name) ++ [(name, a.buf.offset)]).lookup name = _
  induction a.entries with
  | nil => simp
  | cons e rest ih =>
    obtain ⟨n, off⟩ := e
    by_cases hn : n = name
    · simpa [hn] using ih
    · have hne : (name == n) = false := by simpa using Ne.symm hn
      simpa [hn, List.lookup_cons, hne] using ih

theorem lookup_markEntry_other (a : Assembler) {name other : String} (h : name ≠ other) :
    (a.markEntry other).entries.lookup name = a.entries.lookup name := by
  show (a.entries.filter (·.1 ≠ other) ++ [(other, a.buf.offset)]).lookup name = _
  have hne : (name == other) = false := by simpa using h
  induction a.entries with
  | nil => simp [List.lookup_cons, hne]
  | cons e rest ih =>
    obtain ⟨n, off⟩ := e
    by_cases ho : n = other
    · subst ho
      simpa [List.lookup_cons, hne] using ih
    · by_cases hn : name = n
      · subst hn
        simp [ho]
      · have : (name == n) = false := by simpa using hn
        simpa [ho, List.lookup_cons, this] using ih

theorem Trace.lookup {name : String} (h : Trace t items a a') (hi : Item.entry name ∉ items) :
    a'.entries.lookup name = a.entries.lookup name := by
  induction h with
  | nil a => rfl
  | @cons i is a b a' hp hrun _ ih =>
    rw [ih fun hmem => hi (List.mem_cons_of_mem _ hmem)]
    by_cases he : ∃ other, i = .entry other
    · obtain ⟨other, rfl⟩ := he
      cases hrun
      refine lookup_markEntry_other a fun e => hi ?_
      rw [e]
      exact List.mem_cons_self
    · rw [Item.entries hrun fun other e => he ⟨other, e⟩]

variable {m : OopMap}

theorem find?_add {s s' : OopMapSet} {off off' : Int64} {m' : OopMap} (h : s.add off m = .ok s')
    (hm : s.find? off' = some m') : s'.find? off' = some m' := by
  unfold OopMapSet.add at h
  split at h
  · cases h
  · cases h
    rw [OopMapSet.find?] at hm ⊢
    rw [Array.find?_push, hm]
    rfl

theorem Trace.find? {off : Int64} (h : Trace t items a a') (hm : a.oopMaps.find? off = some m) :
    a'.oopMaps.find? off = some m := by
  induction h with
  | nil a => exact hm
  | @cons i is a b a' hp hrun _ ih =>
    refine ih ?_
    cases i with
    | word w => cases hrun; exact hm
    | call c => rw [(c.codeOnly t a () b hrun).maps]; exact hm
    | barrier w => cases hrun; exact hm
    | entry name => cases hrun; exact hm
    | map m' =>
      rcases addOopMap_cases hrun with ⟨-, rfl⟩ | ⟨-, maps, hmaps, rfl⟩
      · exact hm
      · exact find?_add hmaps hm
    | stub name size =>
      obtain ⟨ok, a1, hstart, e⟩ := bind_eq_ok.mp hrun
      obtain ⟨-, rfl⟩ := pure_eq_ok.mp e
      obtain ⟨buf, rfl, -⟩ := startStub_cases hstart
      exact hm
    | endStub =>
      obtain ⟨-, rfl⟩ := endStub_eq_ok hrun
      exact hm

theorem find?_addOopMap (h : addOopMap m t a = .ok ((), b)) (hw : b.buf.failed = false) :
    b.oopMaps.find? (Int64.ofNat a.buf.offset) = some (m.placed (Int64.ofNat a.buf.offset)) := by
  rcases addOopMap_cases h with ⟨hfailed, rfl⟩ | ⟨-, maps, hmaps, rfl⟩
  · rw [hfailed] at hw; cases hw
  · unfold OopMapSet.add at hmaps
    split at hmaps
    · cases hmaps
    case _ hnone =>
      cases hmaps
      rw [Option.not_isSome_iff_eq_none, OopMapSet.find?] at hnone
      rw [OopMapSet.find?, Array.find?_push, hnone]
      simp [OopMap.placed]

end

end RiscvJit
