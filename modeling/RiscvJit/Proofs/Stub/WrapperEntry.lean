import RiscvJit.Proofs.Stub.AdapterMoves
import RiscvJit.Proofs.Stub.WrapperCode

/-
  RiscvJit.Proofs.Stub.WrapperEntry — the frame of a native wrapper, its handles and its lock.

  Before arguments are moved, they are still where the caller put them, the caller's return address
  and frame pointer are saved, and every reference is in its handle (`Ready`). Recording the last frame
  and taking the lock leave that as it is (`does_recordFrame`, `does_lock`). The lock is taken in the code
  or, when it is contended, by the runtime, around which the registers of arguments are pushed. It is that
  of the receiver or the class (`NativeMethod.locked`).
-/

namespace RiscvJit

open Reg (ra sp t0 fp thread)
open Site
open Convention

/-- The object whose lock a synchronized method holds. -/
def NativeMethod.locked (m : NativeMethod) (m0 : Machine) : UInt64 := if m.isStatic then m.classObject else m0.get (.x 11)

namespace NativeWrapper

/-- The bytes that the runtime's lock routine finds below the frame. -/
def pushedBytes : Nat := 144

theorem saveable_argumentRegs : Saveable Stub.argumentRegs pushedBytes := Stub.saveable_argumentRegs

/-- Registers of arguments, and those that the wrapper keeps for itself. -/
def keptRegs : List Reg :=
  [sp, fp, thread] ++ (managed.intArgs.map Reg.x ++ managed.floatArgs.map Reg.f)

section
variable {m : NativeMethod} {p : Plan}

/-- Room for a frame of that many bytes below the caller's, with arguments in that many slots above it, and the thread
elsewhere. -/
structure WrapperRoom (frame inSlots : Nat) (Free : UInt64 → Prop) (top thr : UInt64) : Prop where
  below : frame + pushedBytes ≤ top.toNat
  above : top.toNat + 4 * inSlots ≤ 2 ^ 64
  free : ∀ x, Spans (top.toNat - (frame + pushedBytes)) (frame + pushedBytes) x → Free x
  threadEnd : thr.toNat + 0x200 ≤ 2 ^ 64
  threadFree : ∀ x, OfThread thr 0 0x200 x → Free x
  threadApart : thr.toNat + 0x200 ≤ top.toNat - (frame + pushedBytes) ∨ top.toNat + 4 * inSlots ≤ thr.toNat

namespace Planned

variable (P : Planned m p)

/-- The address of a word of the frame. -/
def word (top : UInt64) (k : Nat) : UInt64 := top - UInt64.ofNat P.frame + UInt64.ofNat (8 * k)

theorem toNat_base (top : UInt64) (h : P.frame ≤ top.toNat) : (top - UInt64.ofNat P.frame).toNat = top.toNat - P.frame :=
  toNat_back h

theorem toNat_word (top : UInt64) (h : P.frame ≤ top.toNat) {k : Nat} (hk : 8 * k ≤ P.frame) :
    (P.word top k).toNat = top.toNat - P.frame + 8 * k := by
  have := top.toNat_lt
  have := P.toNat_base top h
  rw [word, toNat_off (by omega), this]

/-- What the handles say: the references among the arguments, and the class. -/
def HandleWords (top x : UInt64) : Prop :=
  Spans (top.toNat - P.frame + 8 * P.first) (8 * P.sig.expanded.countP (·.isReference)) x ∨
    m.isStatic = true ∧ Spans (top.toNat - P.frame + 8 * P.klass) 8 x

/-- What is kept until the arguments are moved: the linkage, the caller's stack arguments and the handles. -/
def Kept (top x : UInt64) : Prop := Spans (top.toNat - 16) (16 + 4 * P.inSlots) x ∨ P.HandleWords top x

end Planned

/-- The machine with the wrapper's frame on the stack. -/
structure Standing (P : Planned m p) (m0 m1 : Machine) : Prop where
  sp : m1.get .sp = m0.get .sp - UInt64.ofNat P.frame
  fp : m1.get .fp = m0.get .sp - UInt64.ofNat 16
  thread : m1.get thread = m0.get thread
  ra : m1.mem.read (m0.get .sp - UInt64.ofNat 8) 8 = m0.get .ra
  callerFp : m1.mem.read (m0.get .sp - UInt64.ofNat 16) 8 = m0.get .fp

/-- The arguments are where the caller put them. -/
structure Arrived (P : Planned m p) (m0 m1 : Machine) : Prop where
  regs : ∀ r ∈ keptRegs, r ∉ [.sp, .fp] → m1.get r = m0.get r
  stack : ∀ x, Spans (m0.get .sp).toNat (4 * P.inSlots) x → m1.mem x = m0.mem x

/-- The references are in their handles. -/
structure Handled (P : Planned m p) (m0 m1 : Machine) : Prop where
  args : ∀ i l a, Sent P i l a → a.kind.isReference = true →
    m1.mem.read (P.word (m0.get sp) (handleWord P.first P.sig.expanded i)) 8 = m0.at (m0.get sp) l
  klass : m.isStatic = true → m1.mem.read (P.word (m0.get sp) P.klass) 8 = m.classObject

/-- The machine before the arguments are moved. -/
structure Ready (P : Planned m p) (m0 m1 : Machine) : Prop where
  standing : Standing P m0 m1
  arrived : Arrived P m0 m1
  handled : Handled P m0 m1

end

section
variable {m : NativeMethod} {p : Plan} {P : Planned m p} {m0 m1 m2 : Machine} {rs : List Reg} {Mem : UInt64 → Prop}

theorem Standing.keep (h : Standing P m0 m1) (hroom : 16 ≤ (m0.get .sp).toNat)
    (hr : ∀ r ∈ [.sp, .fp, .thread], m2.get r = m1.get r)
    (hm : ∀ x, Spans ((m0.get .sp).toNat - 16) 16 x → m2.mem x = m1.mem x) : Standing P m0 m2 := by
  have htop := (m0.get .sp).toNat_lt
  have hback {k : Nat} (hk : k ≤ 16) : (m0.get .sp - UInt64.ofNat k).toNat = (m0.get .sp).toNat - k :=
    toNat_back (by omega)
  have hword {k : Nat} (hk : 8 ≤ k) (hk' : k ≤ 16) : m2.mem.read (m0.get .sp - UInt64.ofNat k) 8 =
      m1.mem.read (m0.get .sp - UInt64.ofNat k) 8 := by
    have := hback hk'
    exact Ram.read_same (by omega) fun x hx => hm x (by omega)
  exact ⟨(hr _ (by simp)).trans h.sp, (hr _ (by simp)).trans h.fp, (hr _ (by simp)).trans h.thread,
    (hword (by decide) (by decide)).trans h.ra, (hword (by decide) (by decide)).trans h.callerFp⟩

variable {i : Nat} {l : Location} {a : Argument}

theorem Planned.handleWord_lt (P : Planned m p) (h : Sent P i l a) (href : a.kind.isReference = true) :
    P.first ≤ handleWord P.first P.sig.expanded i ∧
      handleWord P.first P.sig.expanded i < P.first + P.sig.expanded.countP (·.isReference) := by
  have := refsBefore_lt_all h.kind href
  unfold handleWord
  omega

theorem Handled.keep (h : Handled P m0 m1) (hroom : P.frame ≤ (m0.get sp).toNat)
    (hm : ∀ x, P.HandleWords (m0.get sp) x → m2.mem x = m1.mem x) : Handled P m0 m2 := by
  have htop := (m0.get sp).toNat_lt
  have hlinkage := P.linkage
  have htemp := P.tempAbove
  refine ⟨fun i l a ha href => ?_, fun hstatic => ?_⟩
  · have hlt := P.handleWord_lt ha href
    have haddr := P.toNat_word _ hroom (k := handleWord P.first P.sig.expanded i) (by omega)
    rw [← h.args i l a ha href]
    exact Ram.read_same (by omega) fun x hx => hm x (.inl (by omega))
  · have habove := htemp.2.1 hstatic
    have haddr := P.toNat_word _ hroom (k := P.klass) (by omega)
    rw [← h.klass hstatic]
    exact Ram.read_same (by omega) fun x hx => hm x (.inr ⟨hstatic, by rwa [haddr] at hx⟩)

theorem Ready.keep (h : Ready P m0 m1) (hroom : P.frame ≤ (m0.get sp).toNat) (hr : ∀ r ∈ keptRegs, m2.get r = m1.get r)
    (hm : ∀ x, P.Kept (m0.get sp) x → m2.mem x = m1.mem x) : Ready P m0 m2 := by
  have hlinkage := P.linkage
  refine ⟨h.standing.keep (by omega) (fun r hmem => hr r (List.mem_append_left _ hmem)) fun x hx => ?_, ⟨?_, ?_⟩,
    h.handled.keep hroom fun x hx => hm x (.inr hx)⟩
  · exact hm x (.inl (by omega))
  · exact fun r hk hne => (hr r hk).trans (h.arrived.regs r hk hne)
  · exact fun x hx => (hm x (.inl (by omega))).trans (h.arrived.stack x hx)

/-- What touches nothing that is kept. -/
theorem Ready.alters (h : Ready P m0 m1) (hroom : P.frame ≤ (m0.get sp).toNat) (ha : Alters rs Mem m1 m2)
    (hr : ∀ r ∈ keptRegs, r ∉ rs) (hm : ∀ x, P.Kept (m0.get sp) x → ¬ Mem x) : Ready P m0 m2 :=
  h.keep hroom (fun r hk => ha.regs r (hr r hk)) fun x hx => ha.mem x (hm x hx)

/-! ## The frame -/

section
variable {S : Site} {E : Exits} {Q : Unit → Machine → Prop}
  (hroom : WrapperRoom P.frame P.inSlots S.Free (m0.get sp) (m0.get thread))
include hroom

theorem does_frame (h : ∀ m1, Standing P m0 m1 → Arrived P m0 m1 → Q () m1) :
    S.Does (Asm.buildFrame p.layout.size) m0 E Q := by
  have hbelow := hroom.below
  have hlinkage := P.linkage
  rw [P.size]
  refine does_buildFrame (by omega) (by omega) (fun x hx => hroom.free x (by omega)) fun m1 hbuilt =>
    h m1 ⟨hbuilt.sp, hbuilt.fp, hbuilt.rest _ (by decide), hbuilt.ra, hbuilt.callerFp⟩ ⟨fun r hr hne =>
    hbuilt.rest r ?_, fun x hx => ?_⟩
  · have : ∀ r ∈ keptRegs, r ≠ t0 := by decide
    have := this r hr
    simp only [List.mem_cons, List.not_mem_nil, or_false, not_or] at hne ⊢
    exact ⟨hne.1, hne.2, this⟩
  · exact hbuilt.mem x (by omega)

/-! ## Handles -/

omit hroom in
/-- The address of a stack slot of the caller, seen from below the frame. -/
theorem lowered_address (P : Planned m p) (top : UInt64) (slot : Nat) :
    top - UInt64.ofNat P.frame + UInt64.ofNat (4 * (slot + P.frame / 4)) = top + UInt64.ofNat (4 * slot) := by
  have hwhole := P.whole
  rw [show 4 * (slot + P.frame / 4) = P.frame + 4 * slot by omega, UInt64.ofNat_add, ← UInt64.add_assoc, UInt64.sub_add_cancel]

/-- An argument that was not moved is where the caller put it. -/
theorem Arrived.source (ha : Arrived P m0 m1) {i : Nat} {l : Location} {a : Argument} (h : Sent P i l a) :
    m1.at (m0.get sp - UInt64.ofNat P.frame) a.src = m0.at (m0.get sp) l := by
  have hgiven := (P.places h).1
  have habove := hroom.above
  rw [h.src]
  cases l with
  | nowhere => rfl
  | stack slot =>
    have hle : slot + 2 ≤ P.inSlots := hgiven.2
    have haddr : (m0.get sp + UInt64.ofNat (4 * slot)).toNat = (m0.get sp).toNat + 4 * slot := toNat_off (by omega)
    show m1.mem.read _ 8 = m0.mem.read _ 8
    rw [lowered_address]
    exact Ram.read_same (by omega) fun x hx => ha.stack x (by omega)
  | int r =>
    refine ha.regs _ (List.mem_append_right _ (List.mem_append_left _ (List.mem_map_of_mem hgiven))) ?_
    rintro hr
    have : ∀ r ∈ managed.intArgs, Reg.x r ∉ [sp, fp] := by decide
    exact this r hgiven hr
  | float r =>
    exact ha.regs _ (List.mem_append_right _ (List.mem_append_right _ (List.mem_map_of_mem hgiven))) (by simp [sp, fp])

end

/-- Arguments come from registers of arguments. -/
theorem Sent.src_ne (h : Sent P i l a) {r : Reg}
    (hr : r ∉ managed.intArgs.map Reg.x ++ managed.floatArgs.map Reg.f) (hnone : r ≠ .none) :
    a.src.reg ≠ r := by
  have hne := Stub.given_ne (P.places h).1 hr hnone
  rw [h.src]
  cases l <;> exact hne

/-- Arguments that come from the stack come from above the frame. -/
theorem Sent.src_fits (h : Sent P i l a) {top : UInt64} (hroom : P.frame ≤ top.toNat)
    (habove : top.toNat + 4 * P.inSlots ≤ 2 ^ 64) : a.src.Fits (top - UInt64.ofNat P.frame) := by
  have hgiven := (P.places h).1
  have hbase := P.toNat_base _ hroom
  have hwhole := P.whole
  rw [h.src]
  cases l with
  | stack slot =>
    have hle : slot + 2 ≤ P.inSlots := hgiven.2
    show _ + 4 * (slot + P.frame / 4) + 8 ≤ _
    omega
  | _ => trivial

/-- Words of the frame hold no argument. -/
theorem Sent.src_apart (h : Sent P i l a) {l' : Location} (hreg : l'.reg = .none)
    (hbelow : ∀ slot, l' = .stack slot → 4 * slot + 8 ≤ P.frame) : l'.aliases a.src = false := by
  have hwhole := P.whole
  cases l' with
  | stack slot =>
    have := hbelow slot rfl
    rw [h.src]
    cases l with
    | stack slot' =>
      rw [lowered, Location.aliases, Bool.and_eq_false_iff, decide_eq_false_iff_not, decide_eq_false_iff_not]
      unfold slotsPerWord
      omega
    | _ => rfl
  | nowhere => rfl
  | _ => cases hreg

/-- Where the handle of an argument is. -/
def handlePlace (a : Argument) : Location :=
  match a.handle with
  | some off => .stack (off.toInt.toNat / 4)
  | none => .nowhere

theorem Sent.handlePlace (h : Sent P i l a) :
    handlePlace a = if a.kind.isReference then .stack (2 * handleWord P.first P.sig.expanded i) else .nowhere := by
  have hsmall := P.small
  have hlinkage := P.linkage
  have htemp := P.tempAbove.1
  unfold NativeWrapper.handlePlace
  rw [h.handle]
  by_cases href : a.kind.isReference = true
  · have hlt := P.handleWord_lt h href
    rw [if_pos href, if_pos href]
    show Location.stack ((Int64.ofNat (8 * handleWord P.first P.sig.expanded i)).toInt.toNat / 4) = _
    rw [Int64.toInt_ofNat_of_lt (by omega)]
    congr 1
    omega
  · rw [if_neg href, if_neg href]

section
variable {S : Site} {E : Exits} {i : Nat} {l : Location} {a : Argument}

theorem does_storeHandle (h : Sent P i l a) {base : UInt64} (hsp : m1.get sp = base)
    (hfits : (handlePlace a).Fits base) (hfree : ∀ x, (handlePlace a).Covers base x → S.Free x) :
    S.Does (Plan.storeHandle a) m1 E fun _ m' => Changed base [handlePlace a] [t0] m1 m' ∧
      (a.kind.isReference = true → m'.at base (handlePlace a) = m1.at base a.src) := by
  unfold Plan.storeHandle
  have hplace := h.handlePlace
  rw [h.handle]
  by_cases href : a.kind.isReference = true
  · rw [if_pos href] at hplace ⊢
    rw [hplace] at hfits hfree ⊢
    have hoff : m1.get sp + (Int64.ofNat (8 * handleWord P.first P.sig.expanded i)).toUInt64 =
        base + UInt64.ofNat (4 * (2 * handleWord P.first P.sig.expanded i)) := by
      rw [hsp, Int64.toUInt64_ofNat', ← Nat.mul_assoc]
    have hfits : base.toNat + 4 * (2 * handleWord P.first P.sig.expanded i) + 8 ≤ 2 ^ 64 := hfits
    have stored {m2 : Machine} {src : Reg} (hsp2 : m2.get sp = m1.get sp) (hv : m2.get src = m1.at base a.src)
        (hchanged : Changed base [] [t0] m1 m2) : S.Does
        (Asm.sd src sp (Int64.ofNat (8 * handleWord P.first P.sig.expanded i))) m2 E
          fun _ m' => Changed base [.stack (2 * handleWord P.first P.sig.expanded i)] [t0] m1 m' ∧
            (a.kind.isReference = true → m'.at base
            (.stack (2 * handleWord P.first P.sig.expanded i)) = m1.at base a.src) := by
      rw [← hsp2] at hoff
      refine does_sd (fun k hk => ?_) fun m' hs => ?_
      · rw [hoff]
        exact hfree _ (spans_off (by omega) hk)
      · rw [hoff] at hs
        refine ⟨(hchanged.mono (by simp) fun _ h => h).trans
          ((hs.changed hfits (by decide)).mono (fun _ h => h) (by simp)), fun _ => ?_⟩
        show m'.mem.read _ 8 = _
        rw [hs.mem, read_write_eight, hv]
    cases hsrc : a.src with
    | stack slot =>
      refine .bind (does_loadOff (o := .ld) rfl rfl (by decide) (by decide) fun m2 h2 => ?_)
      rw [hsrc] at stored
      refine stored (h2.rest _ (by decide) (by decide)) ?_ (h2.scratch (by decide) (by simp))
      rw [h2.value, hsp, toUInt64_slotBytes]
      rfl
    | _ =>
      rw [hsrc] at stored
      exact stored rfl rfl (changed_refl ..)
  · rw [if_neg href] at hplace ⊢
    rw [hplace]
    exact does_pure ⟨changed_refl .., fun h => absurd h href⟩

end

/-- What is sent is an argument of the plan. -/
theorem Sent.mem (h : Sent P i l a) : a ∈ p.args := by
  obtain ⟨a', hmem, hkind, hdst, h'⟩ := P.exists_sent h.kind h.real h.place h.dst
  have : a' = a := by
    obtain ⟨k, s, d, hd⟩ := a
    obtain ⟨k', s', d', hd'⟩ := a'
    cases hkind
    cases hdst
    rw [show s' = s from h'.src.trans h.src.symm, show hd' = hd from h'.handle.trans h.handle.symm]
  exact this ▸ hmem

/-- Handles have words of their own. -/
theorem handlePlaces_apart (P : Planned m p) : p.args.Pairwise fun a b =>
    (handlePlace b).aliases (handlePlace a) = false := by
  have hsmall := P.small
  have hlinkage := P.linkage
  have htemp := P.tempAbove.1
  refine P.handles_ascend.imp_of_mem fun {a b} ha hb hlt => ?_
  obtain ⟨i, l, ha⟩ := P.sent ha
  obtain ⟨j, l', hb⟩ := P.sent hb
  rw [ha.handlePlace, hb.handlePlace]
  split
  · split
    case _ hrefb hrefa =>
      have hi := P.handleWord_lt ha hrefa
      have hj := P.handleWord_lt hb hrefb
      have := hlt _ _ (ha.handle.trans (if_pos hrefa)) (hb.handle.trans (if_pos hrefb))
      rw [Int64.toInt_ofNat_of_lt (by omega), Int64.toInt_ofNat_of_lt (by omega)] at this
      rw [Location.aliases, Bool.and_eq_false_iff, decide_eq_false_iff_not, decide_eq_false_iff_not]
      unfold slotsPerWord
      omega
    · rfl
  · split <;> rfl

/-- Handles of arguments are among the first words above the outgoing arguments. -/
theorem spans_of_handlePlace (h : Sent P i l a) {base x : UInt64} (hc : (handlePlace a).Covers base x) :
    Spans (base.toNat + 8 * P.first) (8 * P.sig.expanded.countP (·.isReference)) x := by
  rw [h.handlePlace] at hc
  split at hc
  case _ href =>
    have := P.handleWord_lt h href
    simp only [Location.Covers] at hc
    omega
  case _ => exact hc.elim

section
variable {S : Site} {E : Exits} {Q : Unit → Machine → Prop}
  (hroom : WrapperRoom P.frame P.inSlots S.Free (m0.get sp) (m0.get thread))
include hroom

omit hroom in
/-- Writing handles leaves the linkage and the arguments alone. -/
theorem Arrived.stored (hroom : WrapperRoom P.frame P.inSlots S.Free (m0.get sp) (m0.get thread))
    (hs : Standing P m0 m1) (ha : Arrived P m0 m1)
    (halters : Alters [t0] Mem m1 m2) (hMem : ∀ x, Mem x → Spans ((m0.get sp).toNat - P.frame) (8 * P.temp) x) :
    Standing P m0 m2 ∧ Arrived P m0 m2 := by
  have hbelow := hroom.below
  have hlinkage := P.linkage
  have hmem {x : UInt64} (hx : ¬ Spans ((m0.get sp).toNat - P.frame) (8 * P.temp) x) : m2.mem x = m1.mem x :=
    halters.mem x fun h => hx (hMem x h)
  refine ⟨hs.keep (by omega) (fun r hr => halters.regs r ?_) fun x hx => hmem (by omega),
    fun r hr hne => (halters.regs r ?_).trans (ha.regs r hr hne), fun x hx => (hmem (by omega)).trans (ha.stack x hx)⟩
  · have : ∀ r ∈ [sp, fp, thread], r ∉ [t0] := by decide
    exact this r hr
  · have : ∀ r ∈ keptRegs, r ∉ [t0] := by decide
    exact this r hr

/-- The references among the arguments are copied into their handles. -/
theorem does_storeArguments (hs : Standing P m0 m1) (ha : Arrived P m0 m1) (h : ∀ m2, Standing P m0 m2 → Arrived P m0 m2 →
      (∀ i l a, Sent P i l a → a.kind.isReference = true →
        m2.mem.read (P.word (m0.get sp) (handleWord P.first P.sig.expanded i)) 8 = m0.at (m0.get sp) l) → Q () m2) :
    S.Does (p.args.forM Plan.storeHandle) m1 E Q := by
  have htop := (m0.get sp).toNat_lt
  have hbelow := hroom.below
  have hlinkage := P.linkage
  have htemp := P.tempAbove
  have hbase := P.toNat_base (m0.get sp) (by omega)
  have hreg {a : Argument} : (handlePlace a).reg = .none := by
    unfold handlePlace
    split <;> rfl
  have hfits {i : Nat} {l : Location} {a : Argument} (hsent : Sent P i l a) :
      (handlePlace a).Fits (m0.get sp - UInt64.ofNat P.frame) := by
    rw [hsent.handlePlace]
    split
    case _ href =>
      have := P.handleWord_lt hsent href
      show _ + 4 * (2 * _) + 8 ≤ _
      omega
    case _ => trivial
  refine (Does.deliver (m0.get sp - UInt64.ofNat P.frame) [t0] handlePlace
    (P := fun a v => a.kind.isReference = true → v = m1.at (m0.get sp - UInt64.ofNat P.frame) a.src)
    (fun a hmem => ?_) (fun a _ => by rw [hreg]; decide) (handlePlaces_apart P) fun a hmem m' hchanged => ?_).imp
    (fun _ _ h => h) fun _ m2 hdelivered => ?_
  · obtain ⟨i, l, hsent⟩ := P.sent hmem
    exact hfits hsent
  · obtain ⟨i, l, hsent⟩ := P.sent hmem
    have hsp : m'.get sp = m0.get sp - UInt64.ofNat P.frame := by
      refine (hchanged.regs _ (by decide) fun l' hl' => ?_).trans hs.sp
      obtain ⟨b, -, rfl⟩ := List.mem_map.mp hl'
      rw [hreg]
      decide
    -- arguments come from above the frame, or from registers that no handle is
    have hsource : m'.at (m0.get sp - UInt64.ofNat P.frame) a.src = m1.at (m0.get sp - UInt64.ofNat P.frame) a.src := by
      refine hchanged.at_eq (hsent.src_fits (by omega) hroom.above) ?_ fun l' hl' => ?_
      · rw [List.mem_singleton]
        exact hsent.src_ne (by decide) (by decide)
      · obtain ⟨b, hb, rfl⟩ := List.mem_map.mp hl'
        obtain ⟨j, k, hsent'⟩ := P.sent hb
        refine hsent.src_apart hreg fun slot hslot => ?_
        rw [hsent'.handlePlace] at hslot
        split at hslot
        case _ href =>
          have := P.handleWord_lt hsent' href
          cases hslot
          omega
        case _ => cases hslot
    refine (does_storeHandle hsent hsp (hfits hsent) fun x hx => hroom.free x ?_).imp (fun _ _ h => h)
      fun _ m'' hstored =>
      ⟨hstored.1, fun href => (hstored.2 href).trans hsource⟩
    have := spans_of_handlePlace hsent hx
    omega
  · obtain ⟨hchanged, hwords⟩ := hdelivered
    have halters : Alters [t0] (Spans ((m0.get sp).toNat - P.frame) (8 * P.temp)) m1 m2 := by
      refine ⟨fun r hr => ?_, fun x hx => hchanged.mem x fun l' hl' hc => hx ?_⟩
      · by_cases hnone : r = .none
        · rw [hnone]
          rfl
        · refine hchanged.regs r hr fun l' hl' => ?_
          obtain ⟨b, -, rfl⟩ := List.mem_map.mp hl'
          rw [hreg]
          exact Ne.symm hnone
      · obtain ⟨b, hb, rfl⟩ := List.mem_map.mp hl'
        obtain ⟨i, l, hsent⟩ := P.sent hb
        have := spans_of_handlePlace hsent hc
        omega
    obtain ⟨hs2, ha2⟩ := ha.stored hroom hs halters fun _ h => h
    refine h m2 hs2 ha2 fun i l a hsent href => ?_
    have := hwords a hsent.mem href
    rw [hsent.handlePlace, if_pos href, ha.source hroom hsent, Machine.at, ← Nat.mul_assoc] at this
    exact this

theorem does_storeHandles (hs : Standing P m0 m1) (ha : Arrived P m0 m1) (h : ∀ m2, Ready P m0 m2 → Q () m2) :
    S.Does p.storeHandles m1 E Q := by
  have htop := (m0.get sp).toNat_lt
  have hbelow := hroom.below
  have hlinkage := P.linkage
  have htemp := P.tempAbove
  unfold Plan.storeHandles
  rw [P.classHandle, P.method]
  cases hstatic : m.isStatic with
  | false =>
    rw [if_neg Bool.false_ne_true]
    dsimp only
    refine .bind (does_storeArguments hroom hs ha fun m2 hs2 ha2 hargs => does_pure (h m2 ⟨hs2, ha2, hargs, fun e => ?_⟩))
    rw [hstatic] at e
    cases e
  | true =>
    have hklass := htemp.2.1 hstatic
    have haddr := P.toNat_word (m0.get sp) (by omega) (k := P.klass) (by omega)
    rw [if_pos rfl]
    dsimp only
    refine .bind (does_storeArguments hroom hs ha fun m2 hs2 ha2 hargs => .bind (does_li fun m3 h3 => ?_))
    refine does_sdAt (a := P.word (m0.get sp) P.klass) ?_ (by omega) (fun x hx => hroom.free x ?_) fun m4 h4 => ?_
    · rw [h3.other _, hs2.sp, Int64.toUInt64_ofNat']
      rfl
    · rw [haddr] at hx
      omega
    · have halters : Alters [t0] (Spans (P.word (m0.get sp) P.klass).toNat 8) m2 m4 :=
        (h3.alters (by simp) (by simp)).trans (h4.alters (by simp) (by omega) fun _ h => h)
      obtain ⟨hs4, ha4⟩ := ha2.stored hroom hs2 halters fun x hx => by rw [haddr] at hx; omega
      refine h m4 ⟨hs4, ha4, fun i l a hsent href => ?_, fun _ => ?_⟩
      · have hlt := P.handleWord_lt hsent href
        have habove := P.klassAbove hstatic
        have hword := P.toNat_word (m0.get sp) (by omega) (k := handleWord P.first P.sig.expanded i) (by omega)
        rw [halters.read (by omega) fun x hx => by omega]
        exact hargs i l a hsent href
      · rw [h4.mem, read_write_eight, h3.value]
        exact UInt64.toUInt64_toInt64 _

/-! ## The lock -/

omit hroom in
/-- The words of the frame and the arguments above it. -/
theorem Planned.Kept.inside (hbelow : P.frame ≤ (m0.get sp).toNat) {x : UInt64} (h : P.Kept (m0.get sp) x) :
    Spans ((m0.get sp).toNat - P.frame) (P.frame + 4 * P.inSlots) x := by
  have hlinkage := P.linkage
  have htemp := P.tempAbove
  rcases h with hx | hx | ⟨hstatic, hx⟩
  · omega
  · omega
  · have := htemp.2.1 hstatic
    omega

omit hroom in
theorem Planned.Kept.unlocked (hbelow : P.frame ≤ (m0.get sp).toNat) (hsync : m.isSynchronized = true) {x : UInt64}
    (h : P.Kept (m0.get sp) x) : ¬ Spans (P.word (m0.get sp) P.lock).toNat 16 x := by
  have hlinkage := P.linkage
  have hlock := P.lockAbove hsync
  have htemp := P.tempAbove.2.2 hsync
  rw [P.toNat_word _ hbelow (by omega)]
  rcases h with hx | hx | ⟨hstatic, hx⟩
  · omega
  · omega
  · have := hlock.2 hstatic
    omega

theorem does_recordFrame {l : Label} (hl : S.Binds l) (hready : Ready P m0 m1) (h : ∀ m2, Ready P m0 m2 → Q () m2) :
    S.Does (Asm.setLastJavaFrame sp fp l t0) m1 E Q := by
  have hbelow := hroom.below
  have hend := hroom.threadEnd
  refine does_setLastJavaFrame (by decide) (by decide) (by decide) hl hready.standing.thread (by omega)
    (fun x hx => hroom.threadFree x ?_) fun m2 halters =>
    h m2 (hready.alters (by omega) halters (by decide) fun x hx hlast => ?_)
  · omega
  · have := hx.inside (by omega)
    have := hroom.threadApart
    omega

end

end

end NativeWrapper

/-! ## The monitor -/

namespace NativeWrapper

variable {m : NativeMethod} {p : Plan}

/-- What callers of the runtime rely on: the code, a frame of that many bytes with what was pushed below it, and the arguments
above. -/
def Relied (frame inSlots : Nat) (Free : UInt64 → Prop) (top x : UInt64) : Prop :=
  ¬ Free x ∨ Spans (top.toNat - (frame + pushedBytes)) (frame + pushedBytes + 4 * inSlots) x

/-- A routine of the runtime for monitors, called with an object and a lock slot: it returns, keeps the registers that callees
save, and of what callers rely on changes at most the mark of the object and the displaced mark in the slot. -/
structure MonitorRoutine (W : World) (target : UInt64) (Kept : UInt64 → Prop) (routine : Machine → Machine) : Prop where
  there : W target = some routine
  even : target % 2 = 0
  returns : ∀ m, (routine m).pc = m.get ra &&& ~~~1
  regs : ∀ m, ∀ r ∈ calleeSaved, (routine m).get r = m.get r
  mem : ∀ m x, Kept x → ¬ Spans (m.get (.x 10)).toNat 8 x → ¬ Spans (m.get (.x 11)).toNat 8 x →
    (routine m).mem x = m.mem x

/-- What taking the lock needs: the mark lies elsewhere, and the runtime has its routine. -/
structure LockHelp (m : NativeMethod) (frame inSlots : Nat) (W : World) (t : Target) (Free : UInt64 → Prop)
    (m0 : Machine) :
    Prop where
  markEnd : (m.locked m0).toNat + 8 ≤ 2 ^ 64
  markFree : ∀ x, Spans (m.locked m0).toNat 8 x → Free x
  markApart : (m.locked m0).toNat + 8 ≤ (m0.get sp).toNat - (frame + pushedBytes) ∨
    (m0.get sp).toNat + 4 * inSlots ≤ (m.locked m0).toNat
  routine : ∃ r, MonitorRoutine W (t.runtime.addr .completeMonitorLocking) (Relied frame inSlots Free (m0.get sp)) r

variable {P : Planned m p} {m0 m1 m2 : Machine}

/-- The receiver comes first and has the first handle. -/
theorem receiver_sent (P : Planned m p) (hstatic : m.isStatic = false) : ∃ a, p.args.head? = some a ∧
    a.kind.isReference = true ∧ Sent P 0 (.int 11) a := by
  have hreceiver := P.receiver hstatic
  cases hargs : P.sig.args with
  | nil =>
    rw [hargs] at hreceiver
    cases hreceiver
  | cons k rest =>
    rw [hargs] at hreceiver
    have href : k.isReference = true := hreceiver
    have hexpanded : P.sig.expanded = k :: rest.flatMap Signature.expandKind := by
      rw [Signature.expanded, hargs, List.flatMap_cons]
      cases k <;> first | rfl | cases href
    have hvoid : k ≠ .void := by
      rintro rfl
      cases href
    have hkind : P.sig.expanded[0]? = some k := by rw [hexpanded]; rfl
    have hlocate := P.managedPlaces
    rw [hexpanded, locate] at hlocate
    obtain ⟨locs, hlocs, -⟩ := assignFrom_cons hlocate
    have hplace : P.locs[0]? = some (.int 11) := by
      rw [hlocs]
      cases k <;> first | rfl | cases href
    obtain ⟨j, prev, hrest⟩ := P.nativeRest
    rw [hexpanded] at hrest
    obtain ⟨dsts, hdsts, -⟩ := assignFrom_cons hrest
    obtain ⟨s, ss, hsrcs⟩ : ∃ s ss, P.srcs = s :: ss := by
      refine List.exists_cons_of_length_pos ?_
      rw [(getElem?_mapM P.sources).1]
      exact (List.getElem?_eq_some_iff.mp hplace).1
    have hhandle := P.getElem?_handle hkind
    have hargs' := P.args
    rw [hsrcs, hdsts, hexpanded, handleOffsets, if_pos href, arguments, if_neg hvoid] at hargs'
    rw [hexpanded, handleOffsets, if_pos href, if_pos href] at hhandle
    refine ⟨_, congrArg List.head? hargs', href, hkind, hvoid, hplace,
      P.lowered_src hkind hvoid hplace (by rw [hsrcs]; rfl), by rw [hdsts]; rfl, ?_⟩
    rw [if_pos href, hexpanded]
    exact Option.some.inj hhandle

/-- The handle of the lock says whose lock it is. -/
theorem Ready.locked (h : Ready P m0 m1) :
    m1.mem.read (m1.get .sp + p.lockedHandle.toUInt64) 8 = m.locked m0 := by
  unfold Plan.lockedHandle NativeMethod.locked
  rw [P.classHandle, h.standing.sp]
  cases hstatic : m.isStatic with
  | true =>
    have := h.handled.klass hstatic
    rw [if_pos rfl, if_pos rfl]
    dsimp only
    rw [Int64.toUInt64_ofNat']
    exact this
  | false =>
    obtain ⟨a, hhead, href, hsent⟩ := receiver_sent P hstatic
    have := h.handled.args 0 _ a hsent href
    rw [if_neg Bool.false_ne_true, if_neg Bool.false_ne_true]
    dsimp only
    rw [hhead, Option.bind_some, hsent.handle, if_pos href, Option.getD_some, Int64.toUInt64_ofNat']
    exact this

/-! ## Taking the lock -/

/-- The machine that has the lock, or waits for the runtime to take it: the slot names the object. -/
structure Locking (P : Planned m p) (m0 m1 : Machine) : Prop where
  ready : Ready P m0 m1
  obj : m1.get lockRegs.obj = m.locked m0
  lock : m1.get lockRegs.lock = P.word (m0.get sp) P.lock

theorem does_monitorCall {S : Site} {E : Exits} {Q : Unit → Machine → Prop} {e : RuntimeEntry} {Kept : UInt64 → Prop}
    {routine : Machine → Machine} (hs : MonitorRoutine S.world (S.target.runtime.addr e) Kept routine)
    (hstart : S.start % 2 = 0)
    (hcode : ∀ x, ¬ S.Free x → Kept x ∧ ¬ Spans (m1.get (.x 10)).toNat 8 x ∧ ¬ Spans (m1.get (.x 11)).toNat 8 x)
    (h : ∀ m2, (∀ r ∈ calleeSaved, m2.get r = m1.get r) → (∀ x, Kept x → ¬ Spans (m1.get (.x 10)).toNat 8 x →
      ¬ Spans (m1.get (.x 11)).toNat 8 x → m2.mem x = m1.mem x) → Q () m2) : S.Does (Asm.rtCall e) m1 E Q := by
  refine .bind (does_entryAddress (does_routine [t0] hstart (fun a a' hrun ha ha' hat => ?_) hs.there
    fun m2 ret _ hcalled => ⟨hs.returns m2, fun x hx => ?_, h _ (fun r hr => ?_) fun x hx hmark hslot => ?_⟩))
  · exact farCall_reaches (by decide) hs.even hstart hrun ha ha' hat
  · obtain ⟨hkept, hmark, hslot⟩ := hcode x hx
    rw [← hcalled.rest _ (by decide) (by decide)] at hmark hslot
    exact hs.mem m2 x hkept hmark hslot
  · have hother : ∀ r ∈ calleeSaved, r ≠ ra ∧ r ∉ [t0] := by decide
    rw [hs.regs m2 r hr, hcalled.rest r (hother r hr).1 (hother r hr).2]
  · rw [← hcalled.rest _ (by decide) (by decide)] at hmark hslot
    rw [hs.mem m2 x hx hmark hslot, hcalled.mem]

section
variable {S : Site} {E : Exits} (hroom : WrapperRoom P.frame P.inSlots S.Free (m0.get sp) (m0.get thread))
  (hhelp : LockHelp m P.frame P.inSlots S.world S.target S.Free m0) (hstart : S.start % 2 = 0)
include hroom hhelp hstart

/-- The runtime takes the lock; the arguments are pushed meanwhile. -/
theorem does_lockSlowly {cont : Label} (hl : S.Binds cont) (h1 : Locking P m0 m1) {v : UInt64}
    (hv : m1.mem.read (P.word (m0.get sp) (P.lock + 1)) 8 = v) (hsync : m.isSynchronized = true) :
    S.Does (do
      let _ ← Asm.pushRegs Stub.argumentRegs
      Plan.passMonitor
      Asm.rtCall .completeMonitorLocking
      Asm.popRegs Stub.argumentRegs
      Asm.j cont) m1 (E.or (.label cont) fun m2 => Ready P m0 m2 ∧ m2.mem.read (P.word (m0.get sp) (P.lock + 1)) 8 = v)
      fun _ _ => False := by
  obtain ⟨routine, hserves⟩ := hhelp.routine
  have htop := (m0.get sp).toNat_lt
  have hbelow := hroom.below
  have habove := hroom.above
  have hlinkage := P.linkage
  have hlock := P.lockAbove hsync
  have htemp := P.tempAbove.2.2 hsync
  have hword := P.toNat_word (m0.get sp) (by omega) (k := P.lock) (by omega)
  have hword' := P.toNat_word (m0.get sp) (by omega) (k := P.lock + 1) (by omega)
  have hsp1 := h1.ready.standing.sp
  have hlow : (m1.get sp).toNat = (m0.get sp).toNat - P.frame := by rw [hsp1, P.toNat_base _ (by omega)]
  refine .bind (does_pushRegs saveable_argumentRegs (by omega) (fun x hx => hroom.free x ?_) fun _ m2 h2 => ?_)
  · omega
  unfold Plan.passMonitor
  simp only [bind_assoc]
  refine .bind (does_mv fun m3 h3 => .bind (does_mv fun m4 h4 =>
    .bind (does_mv fun m5 h5 => ?_)))
  have hmem5 : m5.mem = m2.mem := h5.mem.trans (h4.mem.trans h3.mem)
  have hregs5 {r : Reg} (hr : r ∉ [Reg.x 10, .x 11, .x 12]) : m5.get r = m2.get r := by
    simp only [List.mem_cons, List.not_mem_nil, or_false, not_or] at hr
    rw [h5.other r hr.2.2, h4.other r hr.2.1, h3.other r hr.1]
  -- the routine gets the object and the slot
  have hobj5 : m5.get (.x 10) = m.locked m0 := by
    rw [h5.other _, h4.other _, h3.value, h2.rest _ (by decide), h1.obj]
  have hslot5 : m5.get (.x 11) = P.word (m0.get sp) P.lock := by
    rw [h5.other _, h4.value, h3.other _, h2.rest _ (by decide), h1.lock]
  have hmark := hhelp.markApart
  refine .bind (does_monitorCall hserves hstart (fun x hx =>
    ⟨.inl hx, fun hin => hx ?_, fun hin => hx ?_⟩) fun m6 hregs6 hmem6 => ?_)
  · rw [hobj5] at hin
    exact hhelp.markFree x hin
  · rw [hslot5] at hin
    exact hroom.free x (by omega)
  rw [hobj5, hslot5] at hmem6
  -- what the routine keeps, among it the registers that were pushed
  have hkept {x : UInt64} (hx : Spans ((m0.get sp).toNat - (P.frame + pushedBytes))
    (P.frame + pushedBytes + 4 * P.inSlots) x)
      (hx' : ¬ Spans (P.word (m0.get sp) P.lock).toNat 8 x) : m6.mem x = m2.mem x := by
    rw [hmem6 x (.inr hx) (by omega) hx', hmem5]
  have hsp6 : m6.get sp = m1.get sp - UInt64.ofNat pushedBytes := by
    rw [hregs6 _ (by decide), hregs5 (by decide), h2.sp]
  have hlow6 : (m6.get sp).toNat = (m0.get sp).toNat - P.frame - pushedBytes := by
    rw [hsp6, toNat_back (by omega), hlow]
  refine .bind (does_popRegs saveable_argumentRegs fun m7 h7 => does_j hl fun pc => .inl ⟨rfl, ?_⟩)
  have hframe {x : UInt64} (hx : Spans ((m0.get sp).toNat - P.frame) (P.frame + 4 * P.inSlots) x)
      (hx' : ¬ Spans (P.word (m0.get sp) P.lock).toNat 8 x) : m7.mem x = m1.mem x := by
    rw [h7.mem, hkept (by omega) hx', h2.mem x (by omega)]
  have hsame : ∀ r ∈ keptRegs, m7.get r = m1.get r := by
    intro r hr
    by_cases hpushed : r ∈ Stub.argumentRegs
    · obtain ⟨i, hi⟩ := List.mem_iff_getElem?.mp hpushed
      have hlt : i < 18 := (List.getElem?_eq_some_iff.mp hi).1
      have haddr : (m1.get sp - UInt64.ofNat pushedBytes + UInt64.ofNat (8 * i)).toNat =
          (m0.get sp).toNat - P.frame - pushedBytes + 8 * i := by
        rw [toNat_off (by rw [← hsp6]; unfold pushedBytes at *; omega), ← hsp6, hlow6]
      rw [h7.words i r hi, hsp6, ← h2.words i r hi]
      refine Ram.read_same (by unfold pushedBytes at *; omega) fun x hx => ?_
      rw [haddr] at hx
      exact hkept (by unfold pushedBytes at *; omega) (by unfold pushedBytes at *; omega)
    · by_cases hstack : r = sp
      · subst hstack
        rw [h7.sp, hsp6, UInt64.sub_add_cancel]
      · have hsaved : ∀ r ∈ keptRegs, r ∉ Stub.argumentRegs → r ≠ sp → r ∈ calleeSaved ∧
          r ∉ [Reg.x 10, .x 11, .x 12] := by decide
        obtain ⟨hcallee, hne⟩ := hsaved r hr hpushed hstack
        rw [h7.rest r (by simp only [List.mem_cons, not_or]; exact ⟨hstack, hpushed⟩), hregs6 r hcallee,
          hregs5 hne, h2.rest r hstack]
  have hready : Ready P m0 m7 := by
    refine h1.ready.keep (by omega) hsame fun x hx => hframe (hx.inside (by omega)) fun hx' => ?_
    exact hx.unlocked (by omega) hsync (by omega)
  have hword7 : m7.mem.read (P.word (m0.get sp) (P.lock + 1)) 8 = v := by
    rw [← hv]
    exact Ram.read_same (by omega) fun x hx => hframe (by omega) (by omega)
  exact ⟨hready.keep (by omega) (fun r _ => Machine.get_withPc ..) fun _ _ => rfl, hword7⟩

/-- What the slot remembers of the lock that was taken. -/
def Remembers (P : Planned m p) (t : Target) (m0 m1 : Machine) : Prop :=
  t.opts.useFastLocking = true → m1.mem.read (P.word (m0.get sp) (P.lock + 1)) 8 = m.locked m0

omit hstart in
/-- The lock is taken in the code, or not at all. -/
theorem does_tryLock {entry : Label} (hl : S.Binds entry) (h1 : Locking P m0 m1) (hsync : m.isSynchronized = true) :
    S.Does (Plan.tryLock entry) m1
      (Exits.none.or (.label entry) fun m2 => Locking P m0 m2 ∧ Remembers P S.target m0 m2)
      fun _ m2 => Ready P m0 m2 ∧ Remembers P S.target m0 m2 := by
  have htop := (m0.get sp).toNat_lt
  have hbelow := hroom.below
  have hlinkage := P.linkage
  have hlock := P.lockAbove hsync
  have htemp := P.tempAbove.2.2 hsync
  have hword := P.toNat_word (m0.get sp) (by omega) (k := P.lock) (by omega)
  have hfree := hroom.free
  have hapart := hhelp.markApart
  have hend := hhelp.markEnd
  -- what was tried is written to the slot and to the mark, neither of which is kept
  have tried {m2 : Machine} (h2 : LockTried lockRegs (P.word (m0.get sp) P.lock) (m.locked m0) m1 m2) :
      Locking P m0 m2 ∧ Remembers P S.target m0 m2 := by
    refine ⟨⟨h1.ready.alters (by omega) h2.alters (by decide) fun x hx hwords => ?_, ?_, ?_⟩, fun _ => ?_⟩
    · have hin := hx.inside (by omega)
      have hout := hx.unlocked (by omega) hsync
      omega
    · exact (h2.alters.regs _ (by decide)).trans h1.obj
    · exact (h2.alters.regs _ (by decide)).trans h1.lock
    · have := h2.object
      rwa [Planned.word, UInt64.add_assoc, ← UInt64.ofNat_add, ← Nat.mul_succ] at this
  have := lockRegs_apart.traced_fastLock entry
  unfold Plan.tryLock
  refine .bind (does_opts ?_)
  by_cases hfast : S.target.opts.useFastLocking = true
  · rw [if_pos hfast]
    refine does_fastLock lockRegs_apart h1.obj h1.lock (by omega) hend (by omega) (fun x hx => ?_) hl
      (fun m2 h2 => ⟨(tried h2).1.ready, (tried h2).2⟩) fun m2 h2 => .inl ⟨rfl, tried h2⟩
    rcases hx with hx | hx
    · exact hfree x (by omega)
    · exact hhelp.markFree x hx
  · rw [if_neg hfast]
    refine does_j hl fun pc => .inl ⟨rfl, ⟨?_, ?_, ?_⟩, fun h => absurd h hfast⟩
    · exact h1.ready.keep (by omega) (fun r _ => Machine.get_withPc ..) fun _ _ => rfl
    · exact (Machine.get_withPc ..).trans h1.obj
    · exact (Machine.get_withPc ..).trans h1.lock

/-- The lock of the receiver or the class is taken. -/
theorem does_lock (h1 : Ready P m0 m1) (hsync : m.isSynchronized = true) :
    S.DoesWhere (fun s => S.Contains (p.slowPath s)) (p.lock (Int64.ofNat (8 * P.lock))) m1 E
      fun _ m2 => Ready P m0 m2 ∧ Remembers P S.target m0 m2 := by
  have hbelow := hroom.below
  have hfits {v : UInt64} {rd : Reg} {m2 m3 : Machine} (h2 : Ready P m0 m2) (hput : Put rd [] v m2 m3)
    (hr : rd ∉ keptRegs) :
      Ready P m0 m3 :=
    h2.alters (by omega) (show Alters [rd] (fun _ => False) _ _ from hput.alters (by simp) (by simp))
      (fun r hk => by rw [List.mem_singleton]; rintro rfl; exact hr hk) fun _ _ h => h
  rw [Plan.lock_eq]
  refine Does.bindWhere (does_ld fun m2 h2 => Does.bindWhere (does_addi fun m3 h3 => ?_))
  have locking : Locking P m0 m3 := by
    refine ⟨hfits (hfits h1 h2 (by decide)) h3 (by decide), ?_, ?_⟩
    · rw [h3.other _, h2.value, h1.locked]
    · rw [h3.value, h2.other _, h1.standing.sp, Int64.toUInt64_ofNat']
      rfl
  refine Does.bindWhere (does_newLabel fun entry => Does.bindWhere (does_newLabel fun cont => ?_))
  refine DoesWhere.knowing (r := .lock entry cont) (.after fun _ => .after fun _ => Asm.returns_pure rfl) fun hpath => ?_
  refine Does.detour hpath (fun hl => (does_tryLock hroom hhelp hl locking hsync).imp (fun _ _ h => h) fun _ m4 h4 =>
    does_pure h4) fun hl m4 h4 => ?_
  refine (does_lockSlowly hroom hhelp hstart hl h4.1 rfl hsync).imp (fun e m5 h5 => h5.imp_left fun ⟨he, hready, hword⟩ =>
    ⟨he, fun _ => does_pure ⟨hready, fun hfast => hword.trans (h4.2 hfast)⟩⟩) fun _ _ h => h

end

end NativeWrapper

end RiscvJit
