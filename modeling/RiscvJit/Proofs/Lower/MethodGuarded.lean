import Mathlib.Data.List.Nodup
import RiscvJit.Proofs.Lower.Guarded
import RiscvJit.Proofs.Lower.MethodCapacity

/-
  RiscvJit.Proofs.Lower.MethodGuarded — compiling a method ends with code, with a bailout or with a
  broken precondition.

  Over the instructions of a method, lowering keeps its labels in order (`Lowering.Orderly`): each
  label of the program has an assembler label of its own, bound if and only if the program's label
  was met; each slow path waits at an entry of its own that is not bound yet. One instruction keeps
  this up (`regular_instruction`) and so does the whole list (`instructions_orderly`), as long as no
  label is met twice. The slow paths then bind their entries, each once (`emitSlowPaths_ends`).

  So compiling stops only for a precondition or a full buffer (`Program.compile_answered`).
-/

namespace RiscvJit

open Reg (t0)
open CodeBuffer
open Assembler

/-! ## Labels in order -/

/-- Where a slow path starts. -/
def SlowPath.entry : SlowPath → Label
  | .divByZero _ entry => entry
  | .exception _ _ _ entry => entry
  | .rangeCheck _ _ entry => entry
  | .monitorEnter _ _ _ entry _ => entry
  | .monitorExit _ entry _ => entry
  | .newInstance _ _ _ entry _ => entry
  | .newArray _ _ _ _ _ entry _ => entry
  | .safepointPoll _ entry => entry
  | .trampoline _ entry => entry

/-- A slow path that can be written: a check for zero without live operands, or a poll. -/
def SlowPath.Ready (F : List Bool) : SlowPath → Prop
  | .divByZero info entry => info.live = [] ∧ OpenLabel F entry
  | .safepointPoll poll entry => KnownLabel F poll ∧ OpenLabel F entry
  | _ => False

section
variable {F F' : List Bool} {p : SlowPath}

theorem SlowPath.Ready.open (h : p.Ready F) : OpenLabel F p.entry := by
  cases p <;> first | exact h.2 | exact h.elim

theorem SlowPath.Ready.extend (h : p.Ready F) (hp : F <+: F') : p.Ready F' := by
  cases p with
  | divByZero => exact ⟨h.1, h.2.extend hp⟩
  | safepointPoll => exact ⟨h.1.extend hp, h.2.extend hp⟩
  | _ => exact h.elim

theorem KnownLabel.boundLabel {l k : Label} (h : KnownLabel F l) : KnownLabel (boundLabel F k) l :=
  ⟨h.pos, Nat.le_trans h.le (Nat.le_of_eq List.length_set.symm)⟩

theorem SlowPath.Ready.boundLabel {l : Label} (h : p.Ready F) (hne : p.entry ≠ l) (hl : 0 < l) :
    p.Ready (boundLabel F l) := by
  cases p with
  | divByZero => exact ⟨h.1, h.2.boundLabel_other hne hl⟩
  | safepointPoll => exact ⟨h.1.boundLabel, h.2.boundLabel_other hne hl⟩
  | _ => exact h.elim

end

/-- The labels of the program in `B` are bound, the others are not, and every slow path waits at an
entry of its own. -/
structure Lowering.Orderly (B : List LabelId) (F : List Bool) (s : Lowering) : Prop where
  sound : s.asm.Sound F
  outside : s.asm.buf.inStub = false
  unwind : s.unwind = none
  met : ∀ id ∈ B, ∃ l, (id, l) ∈ s.labels
  labels : ∀ q ∈ s.labels, 0 < q.2 ∧ F[q.2 - 1]? = some (decide (q.1 ∈ B))
  ready : ∀ p ∈ s.slowPaths.toList, p.Ready F
  keys : (s.labels.map (·.1)).Nodup
  apart : (s.labels.map (·.2) ++ s.slowPaths.toList.map SlowPath.entry).Nodup

theorem Lowering.orderly_start {a : Assembler} {p : Program} (ha : a.Sound []) (hout : a.buf.inStub = false) :
    Lowering.Orderly [] [] { asm := a, prog := p } where
  sound := ha
  outside := hout
  unwind := rfl
  met _ h := absurd h List.not_mem_nil
  labels _ h := absurd h List.not_mem_nil
  ready _ h := absurd h List.not_mem_nil
  keys := List.nodup_nil
  apart := List.nodup_nil

namespace Lowering.Orderly

variable {B : List LabelId} {F F' : List Bool} {s s' : Lowering} {id : LabelId} {l : Label}

theorem known (h : s.Orderly B F) (hl : (id, l) ∈ s.labels) : KnownLabel F l := by
  obtain ⟨hpos, hat⟩ := h.labels _ hl
  exact ⟨hpos, Nat.le_of_pred_lt (List.getElem?_eq_some_iff.mp hat).1⟩

/-- No label in use lies beyond those that were made. -/
theorem taken_le (h : s.Orderly B F) (hl : l ∈ s.labels.map (·.2) ++ s.slowPaths.toList.map SlowPath.entry) :
    l ≤ F.length := by
  rcases List.mem_append.mp hl with hl | hl
  · obtain ⟨⟨id, l⟩, hq, rfl⟩ := List.mem_map.mp hl
    exact (h.known hq).le
  · obtain ⟨p, hp, rfl⟩ := List.mem_map.mp hl
    exact (h.ready p hp).open.known.le

/-- After work that made neither labels of the program nor slow paths. -/
theorem keeps (h : s.Orderly B F) (hk : s.Keeps s') (hp : F <+: F') (hs : s'.asm.Sound F') : s'.Orderly B F' where
  sound := hs
  outside := hk.inStub.trans h.outside
  unwind := hk.unwind.trans h.unwind
  met := hk.labels ▸ h.met
  labels q hq := ⟨(h.labels q (hk.labels ▸ hq)).1, getElem?_of_extends hp (h.labels q (hk.labels ▸ hq)).2⟩
  ready p hq := (h.ready p (hk.slowPaths ▸ hq)).extend hp
  keys := hk.labels ▸ h.keys
  apart := hk.labels ▸ hk.slowPaths ▸ h.apart

/-- After a slow path was added at an entry that was not there before. -/
theorem slowPath (h : s.Orderly B F) (hk : s.Keeps s') (hp : F <+: F') (hs : s'.asm.Sound F') {p : SlowPath}
    (hready : p.Ready F') (hfresh : F.length < p.entry) : Orderly B F' { s' with slowPaths := s'.slowPaths.push p } := by
  have hkept := h.keeps hk hp hs
  refine ⟨hs, hkept.outside, hkept.unwind, hkept.met, hkept.labels, fun q hq => ?_, hkept.keys, ?_⟩
  · rcases Array.mem_push.mp (Array.mem_toList_iff.mp hq) with hq | rfl
    · exact hkept.ready q (Array.mem_toList_iff.mpr hq)
    · exact hready
  · show (s'.labels.map (·.2) ++ (s'.slowPaths.push p).toList.map SlowPath.entry).Nodup
    rw [Array.toList_push, List.map_append, ← List.append_assoc]
    refine List.nodup_append.mpr ⟨hkept.apart, List.nodup_singleton _, fun l hl k hk' => ?_⟩
    rw [List.map_cons, List.map_nil, List.mem_singleton] at hk'
    subst hk'
    exact Nat.ne_of_lt (Nat.lt_of_le_of_lt (h.taken_le (hk.labels ▸ hk.slowPaths ▸ hl)) hfresh)

/-- After a label of the program was met for the first time. -/
theorem label (h : s.Orderly B F) (hs : s'.asm.Sound (F ++ [false])) (hk : s.Keeps s')
    (hnew : s.labels.lookup id = none) :
    Orderly B (F ++ [false]) { s' with labels := (id, F.length + 1) :: s'.labels } := by
  have hkept := h.keeps hk (List.prefix_append _ _) hs
  have hkey : id ∉ s.labels.map (·.1) := by
    intro hmem
    obtain ⟨q, hq, rfl⟩ := List.mem_map.mp hmem
    exact absurd (List.lookup_eq_none_iff.mp hnew q hq) (by simp)
  have hunmet : id ∉ B := fun hB => by
    obtain ⟨l, hl⟩ := h.met id hB
    exact hkey (List.mem_map.mpr ⟨(id, l), hl, rfl⟩)
  refine ⟨hs, hkept.outside, hkept.unwind, fun id' hB => ?_, fun q hq => ?_, hkept.ready, ?_, ?_⟩
  · obtain ⟨l, hl⟩ := hkept.met id' hB
    exact ⟨l, List.mem_cons_of_mem _ hl⟩
  · rcases List.mem_cons.mp hq with rfl | hq
    · exact ⟨Nat.succ_pos _, by simp [hunmet]⟩
    · exact hkept.labels q hq
  · exact List.nodup_cons.mpr ⟨hk.labels ▸ hkey, hkept.keys⟩
  · refine List.nodup_cons.mpr ⟨fun hl => ?_, hkept.apart⟩
    have hle : F.length + 1 ≤ F.length := h.taken_le (hk.labels ▸ hk.slowPaths ▸ hl)
    omega

/-- After a label was bound that is neither the program's nor a slow path's. -/
theorem ownLabel (h : s.Orderly B F) (hpos : 0 < l)
    (hown : l ∉ s.labels.map (·.2) ++ s.slowPaths.toList.map SlowPath.entry) (hk : s.Keeps s')
    (hs : s'.asm.Sound (boundLabel F l)) : s'.Orderly B (boundLabel F l) := by
  rw [List.mem_append, not_or] at hown
  refine ⟨hs, hk.inStub.trans h.outside, hk.unwind.trans h.unwind, hk.labels ▸ h.met, fun q hq => ?_, fun p hp => ?_,
    hk.labels ▸ h.keys, hk.labels ▸ hk.slowPaths ▸ h.apart⟩
  · rw [hk.labels] at hq
    obtain ⟨hpos', hat⟩ := h.labels q hq
    have hindex : l - 1 ≠ q.2 - 1 := fun e => hown.1 (Nat.pred_inj hpos hpos' e ▸ List.mem_map_of_mem hq)
    refine ⟨hpos', ?_⟩
    rw [boundLabel, List.getElem?_set_ne hindex, hat]
  · rw [hk.slowPaths] at hp
    exact (h.ready p hp).boundLabel (fun e => hown.2 (e ▸ List.mem_map_of_mem hp)) hpos

/-- After a label of the program was bound. -/
theorem bind (h : s.Orderly B F) (hl : (id, l) ∈ s.labels) (hnew : id ∉ B) (hk : s.Keeps s')
    (hs : s'.asm.Sound (boundLabel F l)) : s'.Orderly (id :: B) (boundLabel F l) := by
  obtain ⟨hpos, hat⟩ := h.labels _ hl
  have hlt : l - 1 < F.length := (List.getElem?_eq_some_iff.mp hat).1
  have hvalues := (List.nodup_append.mp h.apart).1
  refine ⟨hs, hk.inStub.trans h.outside, hk.unwind.trans h.unwind, fun id' hB => ?_, fun q hq => ?_, fun p hp => ?_,
    hk.labels ▸ h.keys, hk.labels ▸ hk.slowPaths ▸ h.apart⟩
  · rw [hk.labels]
    rcases List.mem_cons.mp hB with rfl | hB
    · exact ⟨l, hl⟩
    · exact h.met id' hB
  · rw [hk.labels] at hq
    obtain ⟨hpos', hat'⟩ := h.labels q hq
    refine ⟨hpos', ?_⟩
    by_cases he : q.2 = l
    · have hq' : q = (id, l) := List.inj_on_of_nodup_map hvalues hq hl he
      subst hq'
      simp [boundLabel, hlt]
    · have hid : q.1 ≠ id := fun e => he (congrArg Prod.snd (List.inj_on_of_nodup_map h.keys hq hl e))
      have hindex : l - 1 ≠ q.2 - 1 := fun e => he (Nat.pred_inj hpos' hpos e.symm)
      rw [boundLabel, List.getElem?_set_ne hindex, hat']
      simp [hid]
  · rw [hk.slowPaths] at hp
    refine (h.ready p hp).boundLabel (fun e => ?_) hpos
    exact (List.nodup_append.mp h.apart).2.2 l (List.mem_map.mpr ⟨(id, l), hl, rfl⟩) p.entry
      (List.mem_map_of_mem hp) e.symm

end Lowering.Orderly

namespace Lower

/-! ## One instruction -/

theorem ends_bind {α β : Type} {x : Lower α} {f : α → Lower β} {t : Target} {s : Lowering} {Q : α × Lowering → Prop}
    {R : β × Lowering → Prop} (hx : Ends (x t s) Q) (hf : ∀ q s', Q (q, s') → Ends (f q t s') R) : Ends
    ((x >>= f) t s) R :=
  hx.bind fun r hr => hf r.1 r.2 hr

theorem ends_lift {α : Type} {e : Except Fault α} {t : Target} {s : Lowering} {Q : α → Prop} (he : Ends e Q) :
    Ends ((liftM e : Lower α) t s) fun r => Q r.1 ∧ r.2 = s := by
  rcases he with ⟨r, rfl, hr⟩ | ⟨what, rfl⟩
  · exact .inl ⟨_, rfl, hr, rfl⟩
  · exact .inr ⟨what, rfl⟩

/-- The work ends, and the labels stay in order. -/
class Regular {α : Type} (x : Lower α) : Prop where
  ends : ∀ {B F t s}, t.Complete → s.Orderly B F → Ends (x t s) fun r => ∃ F', r.2.Orderly B F'

section
variable {α β : Type}

variable {x : Lower α} {f : α → Lower β} {i : Instruction} {B : List LabelId} {F : List Bool} {t : Target} {s : Lowering}

theorem Guarded.ends_orderly (hx : Guarded F x) (ht : t.Complete) (hs : s.Orderly B F) :
    Ends (x t s) fun r => ∃ F', F <+: F' ∧ r.2.Orderly B F' :=
  ((hx.safe (List.prefix_refl F)).ends ht hs.sound).mono fun _ ⟨hk, F', hp, hs'⟩ => ⟨F', hp, hs.keeps hk hp hs'⟩

theorem Guarded.regular (hx : ∀ F, Guarded F x) : Regular x where
  ends ht hs := ((hx _).ends_orderly ht hs).mono fun _ ⟨F', _, hs'⟩ => ⟨F', hs'⟩

theorem Regular.andThen (hx : Regular x) (hf : ∀ r, Regular (f r)) : Regular (x >>= f) where
  ends ht hs := ends_bind (hx.ends ht hs) fun r _ ⟨_, hs'⟩ => (hf r).ends ht hs'

instance regular_bind [hx : Regular x] [hf : ∀ r, Regular (f r)] : Regular (x >>= f) :=
  hx.andThen hf

instance regular_seq {y : Lower β} [Regular x] [Regular y] : Regular (x >>= fun _ => y) := regular_bind

theorem regular_lift_bind {e : Except Fault α} {Q : α → Prop} (he : Ends e Q) (hf : ∀ r, Q r → Regular (f r)) :
    Regular (liftM e >>= f) where
  ends ht hs := ends_bind (ends_lift he) fun r _ ⟨hr, h⟩ => by
    subst h
    exact (hf r hr).ends ht hs

/-- The label of the program has a label that is bound if it was met. -/
theorem label_ends {id : LabelId} (ht : t.Complete) (hs : s.Orderly B F) :
    Ends (label id t s) fun r => ∃ F', r.2.Orderly B F' ∧ (id, r.1) ∈ r.2.labels := by
  unfold label
  rw [bind_ok (show (get : Lower Lowering) t s = .ok (s, s) from rfl)]
  refine ends_bind (ends_lift (ends_check ..)) fun _ s1 ⟨_, h⟩ => ?_
  have h : s1 = s := h
  subst h
  cases hat : s1.labels.lookup id with
  | some l =>
    obtain ⟨before, after, hsplit, -⟩ := List.lookup_eq_some_iff.mp hat
    exact .inl ⟨(l, s1), rfl, F, hs, by rw [hsplit]; simp⟩
  | none =>
    refine ends_bind ((safe_asm Asm.safe_newLabel).ends ht hs.sound) fun l s' ⟨hk, F', ⟨hl, hF⟩, hs'⟩ => ?_
    have hl : l = F.length + 1 := hl
    subst hF hl
    exact .inl ⟨_, rfl, _, hs.label hs' hk hat, List.mem_cons_self⟩

theorem regular_label {id : LabelId} {f : Label → Lower β} (hf : ∀ F l, KnownLabel F l → Guarded F (f l)) :
    Regular (label id >>= f) where
  ends ht hs := ends_bind (label_ends ht hs) fun l _ ⟨F', hs', hl⟩ =>
    ((hf F' l (hs'.known hl)).ends_orderly ht hs').mono fun _ ⟨F'', _, h⟩ => ⟨F'', h⟩

/-- A check for zero at a new entry, and work that goes there. -/
theorem regular_divByZero {f : Label → Lower β} {info : SiteInfo} (hinfo : info.live = [])
    (hf : ∀ F l, KnownLabel F l → Guarded F (f l)) :
    Regular (liftM Asm.newLabel >>= fun entry => addSlowPath (.divByZero info entry) >>= fun _ => f entry) where
  ends {B F t s} ht hs := by
    refine ends_bind ((safe_asm Asm.safe_newLabel).ends ht hs.sound) fun l s' ⟨hk, F', ⟨hl, hF⟩, hs'⟩ => ?_
    have hl : l = F.length + 1 := hl
    subst hF hl
    have hopen := openLabel_fresh F
    have hadded := hs.slowPath hk (List.prefix_append _ _) hs' (p := .divByZero info (F.length + 1))
      ⟨hinfo, hopen⟩ (Nat.lt_succ_self _)
    exact ((hf _ _ hopen.known).ends_orderly ht hadded).mono fun _ ⟨F'', _, h⟩ => ⟨F'', h⟩

/-- The labels of a poll and of its slow path. -/
def pollLabels : Lower (Label × Label) := do
  let poll ← Asm.newLabel
  let entry ← Asm.newLabel
  addSlowPath (.safepointPoll poll entry)
  return (poll, entry)

theorem pollLabels_ends (ht : t.Complete) (hs : s.Orderly B F) :
    Ends (pollLabels t s) fun r => ∃ F', r.2.Orderly B F' ∧ OpenLabel F' r.1.1 ∧ KnownLabel F' r.1.2 ∧
      r.1.1 ∉ r.2.labels.map (·.2) ++ r.2.slowPaths.toList.map SlowPath.entry := by
  unfold pollLabels
  refine ends_bind ((safe_asm Asm.safe_newLabel).ends ht hs.sound) fun poll s1 ⟨hk1, F1, ⟨hl1, hF1⟩, hs1⟩ => ?_
  have hl1 : poll = F.length + 1 := hl1
  subst hF1
  refine ends_bind ((safe_asm Asm.safe_newLabel).ends ht hs1) fun entry s2 ⟨hk2, F2, ⟨hl2, hF2⟩, hs2⟩ => ?_
  have hl2 : entry = F.length + 2 := hl2.trans (by simp)
  subst hF2
  have hk : s.Keeps s2 := hk1.trans hk2
  have hpoll : OpenLabel (F ++ [false] ++ [false]) poll := hl1 ▸ (openLabel_fresh F).extend (List.prefix_append _ _)
  have hentry : OpenLabel (F ++ [false] ++ [false]) entry := by
    have := openLabel_fresh (F ++ [false])
    rwa [List.length_append, show (F.length + [false].length + 1) = entry from hl2.symm] at this
  have hadded := hs.slowPath hk ((List.prefix_append _ _).trans (List.prefix_append _ _)) hs2
    (p := .safepointPoll poll entry) ⟨hpoll.known, hentry⟩ (show F.length < entry by
      rw [hl2]
      omega)
  refine .inl ⟨_, rfl, _, hadded, hpoll, hentry.known, fun hmem => ?_⟩
  have hmem : poll ∈ s2.labels.map (·.2) ++ (s2.slowPaths.push (.safepointPoll poll entry)).toList.map
    SlowPath.entry := hmem
  rw [hk.labels, hk.slowPaths, Array.toList_push, List.map_append, ← List.append_assoc] at hmem
  rcases List.mem_append.mp hmem with hmem | hmem
  · exact Nat.not_succ_le_self _ (hl1 ▸ hs.taken_le hmem)
  · have heq : poll = entry := List.mem_singleton.mp hmem
    rw [hl1, hl2] at heq
    exact Nat.succ_ne_self _ heq.symm

/-- A poll is at a place of its own, which is bound at once, and goes to a slow path of its own. -/
theorem regular_safepoint (hsite : i.info.isSome) (hinfo : ∀ info, i.info = some info → info.live = []) :
    Regular (safepoint i) where
  ends {B F t s} ht hs := by
    obtain ⟨info, hi⟩ := Option.isSome_iff_exists.mp hsite
    have hbody : safepoint i = pollLabels >>= fun q => ensureUniquePc >>= fun _ => liftM (Asm.bind q.1) >>= fun _ =>
        addSite i.info >>= fun _ => liftM (Asm.safepointPoll q.2) := by
      simp only [safepoint, pollLabels, bind_assoc, pure_bind]
    rw [hbody, hi]
    refine ends_bind (pollLabels_ends ht hs) fun q s1 ⟨F1, hs1, hpoll, hentry, hown⟩ => ?_
    refine ends_bind ((guarded_ensureUniquePc.safe (List.prefix_refl _)).ends ht hs1.sound)
      fun _ s2 ⟨hk2, F2, hp2, hs2⟩ => ?_
    have hs2 := hs1.keeps hk2 hp2 hs2
    refine ends_bind ((safe_asm (Asm.safe_bindLabel (hpoll.extend hp2))).ends ht hs2.sound)
      fun _ s3 ⟨hk3, F3, hF3, hs3⟩ => ?_
    have hF3 : F3 = boundLabel F2 q.1 := hF3
    subst hF3
    have hs3 := hs2.ownLabel hpoll.1 (hk2.labels ▸ hk2.slowPaths ▸ hown) hk3 hs3
    have : KnownLabel (boundLabel F2 q.1) q.2 := (hentry.extend hp2).boundLabel
    have hsite := guarded_addSite (F := boundLabel F2 q.1) (hinfo info hi)
    exact (Guarded.ends_orderly (F := boundLabel F2 q.1) inferInstance ht hs3).mono fun _ ⟨F4, _, h⟩ => ⟨F4, h⟩

/-! ## Every instruction of a file -/

theorem regular_divByConstant {info : Option SiteInfo} (hinfo : ∀ x, info = some x → x.live = []) :
    Regular (divByZero info) := by
  cases info with
  | none => exact Guarded.regular fun _ => guarded_broken ..
  | some info => exact regular_divByZero (hinfo info rfl) fun _ _ _ => inferInstance

theorem regular_checkDivisor (divisor : Reg) {info : Option SiteInfo} (hinfo : ∀ x, info = some x → x.live = []) :
    Regular (checkDivisor divisor info) := by
  cases info with
  | none => exact Guarded.regular fun _ => guarded_pure ()
  | some info => exact regular_divByZero (hinfo info rfl) fun _ _ _ => inferInstance

theorem regular_arithReg (hinfo : ∀ x, i.info = some x → x.live = []) (rd rs1 : Reg) (k : ValueKind) (right : Operand) :
    Regular (arithReg i rd rs1 k right) := by
  have hsrc : Regular (srcReg right t0) := Guarded.regular fun _ => inferInstance
  have hrest (rs2 : Reg) : Regular (liftM (Asm.rr (intOp i.op k) rd rs1 rs2) : Lower Unit) :=
    Guarded.regular fun _ => inferInstance
  have hdone : Regular (pure PUnit.unit : Lower PUnit) := Guarded.regular fun _ => inferInstance
  have hcheck (rs2 : Reg) := regular_checkDivisor rs2 hinfo
  unfold arithReg
  refine hsrc.andThen fun rs2 => ?_
  split
  · infer_instance
  · infer_instance

theorem regular_intArith (hinfo : ∀ x, i.info = some x → x.live = []) (left right : Operand) :
    Regular (intArith i left right) := by
  have hreg (o : Operand) (what : String) : Regular (liftM (reg o what) : Lower Reg) :=
    Guarded.regular fun _ => inferInstance
  have hri (o : Op) (rd rs1 : Reg) (v : Int64) : Regular (liftM (Asm.ri o rd rs1 v) : Lower Unit) :=
    Guarded.regular fun _ => inferInstance
  have hzero := regular_divByConstant hinfo
  have hrest (rd rs1 : Reg) := regular_arithReg hinfo rd rs1 left.kind right
  unfold intArith
  cases right with
  | constant rk bits =>
    refine (hreg ..).andThen fun rd => (hreg ..).andThen fun rs1 => ?_
    dsimp only
    cases foldConst? i.op left.kind (Operand.longOfBits rk bits) with
    | some q => exact hri ..
    | none =>
      dsimp only
      split
      · exact hzero
      · exact hrest rd rs1
  | _ => infer_instance

theorem regular_arith (hi : 2 ≤ i.inputs.length) (hinfo : ∀ x, i.info = some x → x.live = []) : Regular (arith i) := by
  unfold arith
  refine regular_lift_bind (ends_input (by omega)) fun left _ => regular_lift_bind (ends_input hi) fun right _ => ?_
  split
  · exact Guarded.regular fun _ => inferInstance
  · exact regular_intArith hinfo left right

theorem regular_cmpBranch (hi : i.cond ≠ .always → 2 ≤ i.inputs.length) : Regular (cmpBranch i) := by
  unfold cmpBranch
  refine regular_label fun F l hl => ?_
  split
  · infer_instance
  case _ hcond =>
    have hleft := guarded_lift (F := F) (ends_input (i := i) (n := 0) (Nat.lt_of_lt_of_le (by decide) (hi hcond)))
    have hright := guarded_lift (F := F) (ends_input (i := i) (n := 1) (hi hcond))
    infer_instance

theorem ends_checkRole (o : Operand) (r : Reg) (what : String) : Ends (checkRole o r what) fun _ => True := by
  have hcheck (holds : Bool) : Ends (check holds fun _ => what ++ " must be in " ++ r.abiName) fun _ => True :=
    (ends_check ..).mono fun _ _ => trivial
  unfold checkRole
  cases o with
  | register k lo hi => exact hcheck (lo == r)
  | _ => exact hcheck false

theorem ends_checkResult (o : Operand) : Ends (checkResult o) fun _ => True := by
  unfold checkResult
  cases o <;> first | exact (ends_check ..).mono fun _ _ => trivial | exact ends_checkRole ..

theorem regular_ret (i : Instruction) : Regular (ret i) := by
  refine Guarded.regular fun F => ?_
  have hcheck (o : Operand) : Guarded F (liftM (checkResult o) : Lower Unit) := guarded_lift (ends_checkResult o)
  unfold ret
  cases i.inputs <;> infer_instance

/-- Every instruction of a file but a label keeps the labels in order. -/
theorem regular_dispatch (hi : i.Expressible) (hreads : i.reads ≤ i.inputs.length) (hop : i.op ≠ .label) :
    Regular (dispatch i) := by
  have hop : i.op ∈ InstructionText.writable := (List.mem_cons.mp hi.op).resolve_left hop
  have harith := fun h => regular_arith (i := i) h hi.info
  have hshift := fun h => Guarded.regular fun F => guarded_shift (F := F) (i := i) h
  have hmove (h : 1 ≤ i.inputs.length) : Regular (liftM (input i 0) >>= fun v => move v i.result) :=
    regular_lift_bind (ends_input h) fun v hv => Guarded.regular fun _ => guarded_move (hi.inputs v hv) hi.result
  have hbranch : Regular (label i.target >>= fun l => liftM (Asm.j l)) := regular_label fun _ _ _ => inferInstance
  have hcmpBranch := regular_cmpBranch (i := i)
  have hsafepoint := fun h => regular_safepoint (i := i) (hi.site h) hi.info
  unfold Instruction.reads at hreads
  unfold dispatch
  cases hi' : i.op with
  | nop => exact Guarded.regular fun _ => inferInstance
  | move => exact hmove (by simpa [hi'] using hreads)
  | add | sub | mul | div | rem | and | or | xor => exact harith (by simpa [hi'] using hreads)
  | shl | shr | ushr => exact hshift (by simpa [hi'] using hreads)
  | neg => exact Guarded.regular fun _ => guarded_neg (by simpa [hi'] using hreads)
  | cmpBranch => exact hcmpBranch fun hcond => by simpa [hi', hcond] using hreads
  | branch => exact hbranch
  | cmove => exact Guarded.regular fun _ => guarded_cmove (by simpa [hi'] using hreads) hi.inputs hi.result
  | cmp3 => exact Guarded.regular fun _ => guarded_cmp3 (by simpa [hi'] using hreads)
  | convert => exact Guarded.regular fun _ => guarded_convert (by simpa [hi'] using hreads)
  | ret => exact regular_ret i
  | safepoint => exact hsafepoint hi'
  | _ => exact absurd hop (by simp [hi', InstructionText.writable])

theorem regular_instruction (hi : i.Expressible) (hreads : i.reads ≤ i.inputs.length) (hop : i.op ≠ .label) :
    Regular (instruction i) := by
  have := regular_dispatch hi hreads hop
  exact regular_lift_bind (ends_checkOperands i) fun _ _ => this

/-- A label is met, and from then on it is bound. -/
theorem instruction_label (hop : i.op = .label) (hnew : i.label ∉ B) (ht : t.Complete) (hs : s.Orderly B F) :
    Ends (instruction i t s) fun r => ∃ F', r.2.Orderly (i.label :: B) F' := by
  have hbody : dispatch i = label i.label >>= fun l => liftM (Asm.bind l) := by
    unfold dispatch
    rw [hop]
  unfold instruction
  rw [hbody]
  refine ends_bind (ends_lift (ends_checkOperands i)) fun _ s1 ⟨_, h⟩ => ?_
  have h : s1 = s := h
  subst h
  refine ends_bind (label_ends ht hs) fun l s2 ⟨F2, hs2, hl⟩ => ?_
  have hopen : OpenLabel F2 l := by
    obtain ⟨hpos, hat⟩ := hs2.labels _ hl
    exact ⟨hpos, by simpa [hnew] using hat⟩
  refine ((safe_asm (Asm.safe_bindLabel hopen)).ends ht hs2.sound).mono fun r ⟨hk, F3, hF3, hs3⟩ => ?_
  subst hF3
  exact ⟨_, hs2.bind hl hnew hk hs3⟩

/-! ## The instructions of a method -/

/-- The labels are in order after all instructions, or after those that found room. -/
theorem instructions_orderly {is : List Instruction} (his : ∀ i ∈ is, i.Expressible ∧ i.reads ≤ i.inputs.length)
    (hnew : (labelsBound is ++ B).Nodup) (ht : t.Complete) (hs : s.Orderly B F) :
    Ends (instructions is t s) fun r => ∃ B' F', r.2.Orderly B' F' := by
  induction is generalizing B F s with
  | nil => exact .inl ⟨_, rfl, B, F, hs⟩
  | cons i is ih =>
    obtain ⟨hi, hreads⟩ := his i List.mem_cons_self
    have hrest := fun i hi => his i (List.mem_cons_of_mem _ hi)
    unfold instructions
    rw [bind_ok failed_ok]
    split
    · exact .inl ⟨_, rfl, B, F, hs⟩
    · by_cases hop : i.op = .label
      · have hbound : labelsBound (i :: is) = i.label :: labelsBound is := by simp [labelsBound, hop]
        rw [hbound, List.cons_append] at hnew
        have hunmet : i.label ∉ B := fun h => (List.nodup_cons.mp hnew).1 (List.mem_append_right _ h)
        exact ends_bind (instruction_label hop hunmet ht hs) fun _ s' ⟨F', hs'⟩ =>
          ih hrest (List.nodup_middle.mpr hnew) hs'
      · have hbound : labelsBound (i :: is) = labelsBound is := by simp [labelsBound, hop]
        rw [hbound] at hnew
        exact ends_bind ((regular_instruction hi hreads hop).ends ht hs) fun _ s' ⟨F', hs'⟩ => ih hrest hnew hs'

/-! ## Slow paths -/

/-- A slow path binds its entry and no other label. -/
theorem emitSlowPath_safe {p : SlowPath} (hp : p.Ready F) :
    Safe F (emitSlowPath p) fun _ F' => boundLabel F p.entry <+: F' := by
  cases p with
  | divByZero info entry =>
    refine (safe_asm (Asm.safe_bindLabel hp.2)).bind fun _ F' h => ?_
    subst h
    have := guarded_addSite (F := boundLabel F entry) hp.1
    exact Guarded.safe (F := boundLabel F entry) (List.prefix_refl _)
  | safepointPoll poll entry =>
    refine (safe_asm (Asm.safe_bindLabel hp.2)).bind fun _ F' h => ?_
    subst h
    have : KnownLabel (boundLabel F entry) poll := hp.1.boundLabel
    exact Guarded.safe (F := boundLabel F entry) (List.prefix_refl _)
  | _ => exact hp.elim

/-- A stub is written and closed, or there is no room for it. -/
theorem stub_ends {x : Lower Unit} {done : Lower α} {none : α} {Q : List Bool → Prop} {R : α × Lowering → Prop}
    {name : String} {size : Int64} (hx : Safe F x fun _ F' => Q F') (ht : t.Complete) (hs : s.asm.Sound F)
    (hout : s.asm.buf.inStub = false) (hfull : ∀ s', s.Keeps s' → s'.asm.Sound F → R (none, s'))
    (hdone : ∀ s' F', s.Keeps s' → Q F' → s'.asm.Sound F' → Ends (done t s') R) :
    Ends (stub name size x done none t s) R := by
  cases hw : s.asm.buf.failed with
  | true =>
    unfold stub
    rw [bind_ok (startStub_ok (Asm.startStub_failed hw hout))]
    exact .inl ⟨_, rfl, hfull s s.keeps_refl hs⟩
  | false =>
    by_cases hroom : size.toInt ≤ s.asm.buf.remaining
    · rw [stub_opened (Asm.startStub_room hw hout hroom)]
      have hopened : Sound F (Asm.opened s.asm name) := ⟨hs.flags, hs.room, hs.small, hs.written⟩
      refine ends_bind (hx.ends ht hopened) fun _ s1 ⟨hk, F', hF', hs1⟩ => ?_
      have hin : s1.asm.buf.inStub = true := hk.inStub
      refine ends_bind (Q := fun r => r.2 = { s1 with asm := Asm.closed s1.asm })
        (.inl ⟨_, endStub_ok hin, rfl⟩) fun _ s2 h => ?_
      have h : s2 = _ := h
      subst h
      exact hdone _ F' ⟨hout.symm, hk.prog, hk.labels, hk.slowPaths, hk.unwind⟩ hF' ⟨hs1.flags, hs1.room,
        hs1.small, hs1.written⟩
    · unfold stub
      rw [bind_ok (startStub_ok (Asm.startStub_overflow hw hout (Int.not_le.mp hroom)))]
      refine .inl ⟨_, rfl, hfull _ ⟨rfl, rfl, rfl, rfl, rfl⟩ ⟨hs.flags, hs.room, hs.small, fun h => ?_⟩⟩
      exact absurd (show (!stubOverflow.isEmpty) = false from h) (by decide)

/-- Slow paths that wait at entries of their own are written one after the other. -/
theorem emitSlowPaths_ends {ps : List SlowPath} (hready : ∀ p ∈ ps, p.Ready F) (hapart : (ps.map SlowPath.entry).Nodup)
    (ht : t.Complete) (hs : s.asm.Sound F) (hout : s.asm.buf.inStub = false) :
    Ends (emitSlowPaths ps t s) fun r => s.Keeps r.2 ∧ ∃ F', r.2.asm.Sound F' := by
  induction ps generalizing F s with
  | nil => exact .inl ⟨_, rfl, s.keeps_refl, F, hs⟩
  | cons p ps ih =>
    obtain ⟨hfirst, hrest⟩ := List.nodup_cons.mp hapart
    rw [emitSlowPaths_cons]
    have hp := hready p List.mem_cons_self
    have hbody : Safe F (liftM (Asm.comment p.name) >>= fun _ => emitSlowPath p) fun _ F' =>
      boundLabel F p.entry <+: F' :=
      (guarded_asm (Asm.comment p.name)).andThen fun _ F1 hp1 =>
        (emitSlowPath_safe (hp.extend hp1)).mono fun _ _ h => (boundLabel_extends hp1 hp.open.known).trans h
    refine stub_ends hbody ht hs hout (fun _ hk hs' => ⟨hk, F, hs'⟩) fun s' F' hk hF' hs' => ?_
    refine (ih (fun q hq => ?_) hrest hs' (hk.inStub.trans hout)).mono fun _ ⟨hk', hs''⟩ => ⟨hk.trans hk', hs''⟩
    have hne : q.entry ≠ p.entry := fun e => hfirst (e ▸ List.mem_map_of_mem hq)
    exact ((hready q (List.mem_cons_of_mem _ hq)).boundLabel hne hp.open.1).extend hF'

/-! ## The method -/

theorem checkLabels_ends (t : Target) (s : Lowering) : Ends (checkLabels t s) fun r => r.2 = s := by
  unfold checkLabels
  rw [bind_ok (show (get : Lower Lowering) t s = .ok (s, s) from rfl)]
  split
  · exact .inl ⟨_, rfl, rfl⟩
  · cases pendingLabel? s with
    | none => exact .inl ⟨_, rfl, rfl⟩
    | some id => exact .inr ⟨_, rfl⟩

theorem emitStubs_ends (ht : t.Complete) (hs : s.Orderly B F) : Ends (emitStubs t s) fun r => ∃ F', r.2.asm.Sound F' := by
  rw [emitStubs_eq, bind_ok (show (get : Lower Lowering) t s = .ok (s, s) from rfl)]
  refine ends_bind (emitSlowPaths_ends hs.ready (List.nodup_append.mp hs.apart).2.1 ht hs.sound hs.outside)
    fun all s' ⟨hk, hs'⟩ => ?_
  have hunwind : s'.unwind = none := hk.unwind.trans hs.unwind
  split
  · rw [bind_ok (show (get : Lower Lowering) t s' = .ok (s', s') from rfl), unwindStub, hunwind]
    exact .inl ⟨_, rfl, hs'⟩
  · exact .inl ⟨_, rfl, hs'⟩

theorem method_ends (hcode : ∀ i ∈ s.prog.code.toList, i.Expressible ∧ i.reads ≤ i.inputs.length)
    (honce : (labelsBound s.prog.code.toList).Nodup) (ht : t.Complete) (hs : s.Orderly [] []) :
    Ends (method t s) fun r => ∃ F', r.2.asm.Sound F' := by
  rw [method_eq, bind_ok (show (get : Lower Lowering) t s = .ok (s, s) from rfl)]
  refine ends_bind (Guarded.ends_orderly (F := []) inferInstance ht hs) fun _ s1 ⟨F1, _, hs1⟩ => ?_
  refine ends_bind (instructions_orderly hcode (by rwa [List.append_nil]) ht hs1) fun _ s2 ⟨B, F2, hs2⟩ => ?_
  exact ends_bind (emitStubs_ends ht hs2) fun _ s3 hs3 => (checkLabels_ends t s3).mono fun _ h => h ▸ hs3

end

end Lower

/-! ## Compiling -/

/-- An ordinary answer: a result, or a failure that names its reason. -/
def Answered {α : Type} (x : Except Stop α) (Q : α → Prop) : Prop := (∃ r, x = .ok r ∧ Q r) ∨ ∃ f, x = .error (.failure f)

theorem Answered.bind {α β : Type} {x : Except Stop α} {f : α → Except Stop β} {P : α → Prop} {Q : β → Prop}
    (hx : Answered x P)
    (hf : ∀ r, P r → Answered (f r) Q) : Answered (x >>= f) Q := by
  rcases hx with ⟨r, rfl, hr⟩ | ⟨e, rfl⟩
  · exact hf r hr
  · exact .inr ⟨e, rfl⟩

/-- A program as it is read from a file, with the inputs that its instructions read, no label bound
twice, and labels that there is memory for. -/
structure Program.Sensible (p : Program) : Prop where
  expressible : ∀ i ∈ p.code.toList, i.Expressible
  reads : ∀ i ∈ p.code.toList, i.reads ≤ i.inputs.length
  once : (labelsBound p.code.toList).Nodup
  labels : 0 ≤ (p.labels + 1).toInt ∧ (p.labels + 1).toInt ≤ Program.labelLimit

section
variable {α β : Type} {Q : β → Prop}

theorem answered_ofFault {x : Except Fault α} {f : α → Except Stop β} {P : α → Prop} (hx : Ends x P)
    (hf : ∀ r, P r → Answered (Stop.answerPreconditions (f r)) Q) :
    Answered (Stop.answerPreconditions (Stop.ofFault x >>= f)) Q := by
  rcases hx with ⟨r, rfl, hr⟩ | ⟨what, rfl⟩
  · exact hf r hr
  · exact .inr ⟨.precondition what, rfl⟩

theorem answered_ofFailure {x : Except Failure α} {f : α → Except Stop β}
    (hf : ∀ r, x = .ok r → Answered (Stop.answerPreconditions (f r)) Q) :
    Answered (Stop.answerPreconditions (Stop.ofFailure x >>= f)) Q := by
  cases x with
  | ok r => exact hf r rfl
  | error e => exact .inr ⟨e, rfl⟩

end

section
variable {t : Target} {p : Program} {base : UInt64}

/-- An empty buffer that there is memory for. -/
theorem start_ok {name : String} {size : Int64} (hpos : 0 ≤ size.toInt) (hlimit : size.toInt ≤ capacityLimit) :
    ∃ a, start name base size = .ok a ∧ a.Sound [] ∧ a.buf.inStub = false ∧ a.oopMaps = {} := by
  have hfits : (decide (size < 0) || decide (capacityLimit < size.toInt)) = false := by
    simp only [Bool.or_eq_false_iff, decide_eq_false_iff_not, Int64.not_lt, Int64.le_iff_toInt_le, Int64.toInt_zero]
    exact ⟨hpos, Int.not_lt.mpr hlimit⟩
  unfold start create
  rw [hfits]
  refine ⟨_, rfl, ⟨rfl, Nat.zero_le _, ?_, fun _ s hs => nomatch hs⟩, rfl, rfl⟩
  show size.toInt.toNat < 2 ^ 62
  have : size.toInt ≤ 2 ^ 48 := hlimit
  omega

theorem start_ends {name : String} {size : Int64} (hpos : 0 ≤ size.toInt) (hlimit : size.toInt ≤ capacityLimit) :
    Ends (start name base size) fun a => a.Sound [] ∧ a.buf.inStub = false :=
  (start_ok hpos hlimit).elim fun a ⟨hstart, hsound, hout, _⟩ => .inl ⟨a, hstart, hsound, hout⟩

/-- A sensible program has an ordinary answer, and code that is no larger than a buffer may be. -/
theorem Program.compile_answered (hp : p.Sensible) (ht : t.Complete) (hpos : 0 ≤ t.opts.codeBufferSize.toInt)
    (hlimit : t.opts.codeBufferSize.toInt ≤ capacityLimit) :
    Answered (Stop.answerPreconditions (p.compile t base)) fun c => c.blob.size < 2 ^ 62 := by
  have hframe : Ends p.checkFrame fun _ => True := (ends_check ..).bind fun _ _ => (ends_check ..).mono fun _ _ => trivial
  have hlabels : (decide (p.labels + 1 < 0) || decide (Program.labelLimit < (p.labels + 1).toInt)) = false := by
    simp only [Bool.or_eq_false_iff, decide_eq_false_iff_not, Int64.not_lt, Int64.le_iff_toInt_le, Int64.toInt_zero]
    exact ⟨hp.labels.1, Int.not_lt.mpr hp.labels.2⟩
  unfold Program.compile
  refine answered_ofFault hframe fun _ _ => answered_ofFault (start_ends hpos hlimit) fun asm ⟨hasm, hout⟩ => ?_
  rw [hlabels]
  have horderly := Lowering.orderly_start (p := p) hasm hout
  have hcode (i : Instruction) (hi : i ∈ p.code.toList) := And.intro (hp.expressible i hi) (hp.reads i hi)
  refine answered_ofFault (Lower.method_ends hcode hp.once ht horderly) fun r ⟨F, hs⟩ => ?_
  refine answered_ofFailure fun blob hblob => .inl ⟨_, rfl, ?_⟩
  have hsize : blob.size = r.2.asm.buf.offset := by
    unfold finish at hblob
    split at hblob
    · cases hblob
    · cases hblob
      exact Array.length_toList
  show blob.size < _
  rw [hsize]
  exact Nat.lt_of_le_of_lt hs.room hs.small

end

end RiscvJit
