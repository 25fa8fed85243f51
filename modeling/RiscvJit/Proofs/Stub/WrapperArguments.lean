import RiscvJit.Proofs.Stub.WrapperEntry

/-
  RiscvJit.Proofs.Stub.WrapperArguments — arguments on their way to the native function.

  Arguments that are no references go from their managed to their native places. Along the way places
  rise (`rank`), so the solver only orders the moves, and every move still finds what the caller passed
  (`does_moveArguments`). A reference goes as the address of its handle, or as null (`does_passHandles`).
  The environment and the class come first (`does_passLeading`). So the native function finds its
  arguments where its convention expects them (`Passed`, `does_towards`).
-/

namespace RiscvJit

open Machine (Keeps)
open Reg (zr sp t0 t1 fp thread)
open Site
open Location
open MoveSolver
open Convention

namespace NativeWrapper

/-! ## One argument -/

section
variable {S : Site} {m : Machine} {E : Exits} {base : UInt64}

/-- An argument goes to a place that its own rises to. -/
theorem does_moveArgument {mv : Move} (hsp : m.get sp = base) (hrises : Rises mv.src mv.dst) (hne : mv.src ≠ mv.dst)
    (hkeeps : mv.dst.isReg = true → Keeps mv.dst.reg) (hfits : mv.dst.Fits base)
    (hfree : ∀ x, mv.dst.Covers base x → S.Free x) :
    S.Does (Plan.moveArgument mv) m E fun _ m' =>
      Changed base [mv.dst] [t0, t1] m m' ∧ mv.kind.Same (m.at base mv.src) (m'.at base mv.dst) := by
  obtain ⟨src, dst, k⟩ := mv
  have stored {o : Reg} {m1 : Machine} {slot : Nat} (hfits : base.toNat + 4 * slot + 8 ≤ 2 ^ 64)
      (hfree : ∀ x, (Location.stack slot).Covers base x → S.Free x) (h1 : Changed base [] [t0, t1] m m1)
      (hsp1 : m1.get sp = base)
      (hvalue : m1.get o = m.at base src) : S.Does (Asm.storeOff .sd o sp (slotBytes slot) t1) m1 E fun _ m' =>
        Changed base [.stack slot] [t0, t1] m m' ∧ k.Same (m.at base src) (m'.at base (.stack slot)) := by
    refine does_storeOff rfl rfl (by decide) (fun i hi => ?_) fun m2 h2 => ?_
    · rw [hsp1, toUInt64_slotBytes]
      exact hfree _ (spans_off (by omega) hi)
    · rw [hsp1, toUInt64_slotBytes] at h2
      refine ⟨(h1.mono (by simp) fun _ h => h).trans ((h2.changed hfits (by decide)).mono (fun _ h => h) (by simp)), ?_⟩
      show k.Same _ (m2.mem.read _ 8)
      rw [h2.mem, read_write_eight, hvalue]
      exact ValueKind.same_refl k _
  cases src with
  | nowhere => cases dst <;> first | exact absurd rfl hne | exact hrises.elim
  | float r =>
    cases dst with
    | float r' => exact absurd (congrArg Location.float hrises) hne
    | _ => exact hrises.elim
  | int r =>
    cases dst with
    | nowhere => exact hrises.elim
    | float r' => exact hrises.elim
    | int r' =>
      show S.Does (Asm.mv (.x r') (.x r)) m E _
      refine does_mv (fun m' h' => ⟨(h'.changed rfl).mono (fun _ h => h) (by simp), ?_⟩) (hkeeps rfl)
      show k.Same (m.get (.x r)) (m'.get (.x r'))
      rw [h'.value]
      exact ValueKind.same_refl k _
    | stack slot => exact stored (o := .x r) hfits hfree (changed_refl ..) hsp rfl
  | stack slot =>
    cases dst with
    | nowhere => exact hrises.elim
    | float r' => exact hrises.elim
    | int r' =>
      have loaded {o : Op} {n : Nat} (hf : o.info.format = .load) (hw : o.width = some n)
          (hsame : k.Same (m.at base (.stack slot)) (o.extend (m.mem.read (base + UInt64.ofNat (4 * slot)) n))) :
          S.Does (Asm.loadOff o (.x r') sp (slotBytes slot) t1) m E fun _ m' =>
            Changed base [.int r'] [t0, t1] m m' ∧ k.Same (m.at base (.stack slot)) (m'.at base (.int r')) := by
        refine does_loadOff hf hw (hkeeps rfl) (by decide) fun m' h' =>
          ⟨(h'.changed rfl).mono (fun _ h => h) (by simp), ?_⟩
        show k.Same _ (m'.get (.x r'))
        rw [h'.value, hsp, toUInt64_slotBytes]
        exact hsame
      show S.Does (Asm.loadOff (Plan.stackArgLoadOp k (.x r')) (.x r') sp (slotBytes slot) t1) m E _
      rw [Plan.stackArgLoadOp, if_neg (show ¬ (Reg.x r').isFloat = true from Bool.false_ne_true)]
      split
      case _ hk =>
        refine loaded rfl rfl (ValueKind.same_low (by simpa using hk) ?_)
        show (m.mem.read _ 8).toUInt32 = _
        rw [Ram.toUInt32_read]
        exact (toUInt32_sext _).symm
      case _ => exact loaded rfl rfl (ValueKind.same_refl k _)
    | stack slot' =>
      show S.Does (Asm.loadOff .ld t0 sp (slotBytes slot) t0 >>= fun _ =>
        Asm.storeOff .sd t0 sp (slotBytes slot') t1) m E _
      refine .bind (does_loadOff rfl rfl (by decide) (by decide) fun m1 h1 => ?_)
      refine stored (o := t0) hfits hfree (h1.scratch (by simp) (by simp))
        ((h1.rest _ (by decide) (by decide)).trans hsp) ?_
      rw [h1.value, hsp, toUInt64_slotBytes]
      rfl

end

/-! ## One handle -/

namespace Plan

open Asm

/-- The address of a handle, or null when it holds null. -/
def handleAddress (d : Reg) (off : Int64) : Asm Unit :=
  newLabel >>= fun isNull => (do
    ld t0 sp off
    let _ ← mv d zr
    branch .beq t0 zr isNull
    addi d sp off) >>= fun _ => Asm.bind isNull >>= fun _ => pure ()

/-- An outgoing argument is stored when its place is on the stack. -/
def storeOutgoing (d : Reg) : Location → Asm Unit
  | .stack slot => storeOff .sd d sp (slotBytes slot) t0
  | _ => pure ()

theorem passHandle_eq (a : Argument) : passHandle a = (match a.handle with
    | none => pure ()
    | some off => do
      handleAddress (if a.dst.isReg then a.dst.reg else t1) off
      storeOutgoing (if a.dst.isReg then a.dst.reg else t1) a.dst) := by
  unfold passHandle handleAddress
  cases a.handle with
  | none => rfl
  | some off =>
    dsimp only
    simp only [bind_assoc, pure_bind]
    cases a.dst <;> rfl

instance traced_handleAddress (d : Reg) (off : Int64) : (handleAddress d off).Traced := by
  unfold handleAddress
  infer_instance

instance traced_storeOutgoing (d : Reg) (l : Location) : (storeOutgoing d l).Traced := by
  unfold storeOutgoing
  split <;> infer_instance

end Plan

section
variable {S : Site} {m : Machine} {E : Exits} {Q : Unit → Machine → Prop} {base : UInt64}

theorem does_handleAddress {d : Reg} {off : Int64} (hk : Keeps d) (hne : d ≠ t0) (hstack : d ≠ sp) (hsp : m.get sp = base)
    (h : ∀ m', Put d [t0] (if m.mem.read (base + off.toUInt64) 8 = 0 then 0 else base + off.toUInt64) m m' → Q () m') :
    S.Does (Plan.handleAddress d off) m E Q := by
  unfold Plan.handleAddress
  refine .bind (does_newLabel fun isNull => Does.label fun hl => ?_)
  refine .bind (does_ld fun m1 h1 => .bind (does_mv (fun m2 h2 => ?_) hk))
  rw [hsp] at h1
  have hword : m2.get t0 = m.mem.read (base + off.toUInt64) 8 := (h2.other _ hne.symm).trans h1.value
  refine .bind (does_branch rfl hl (fun htaken pc => .inl ⟨rfl, fun _ => does_pure (h _ ?_)⟩) fun hnot pc =>
    does_addi (fun m3 h3 => does_pure (h _ ?_)) hk)
  · have hnull : m2.get t0 = 0 := of_decide_eq_true htaken
    rw [hword] at hnull
    rw [if_pos hnull]
    refine ⟨h2.value, fun r hr ht => ?_, h2.mem.trans h1.mem⟩
    rw [Machine.get_withPc, h2.other r hr, h1.other r (fun e => ht (List.mem_singleton.mpr e))]
  · have hsome : m2.get t0 ≠ 0 := fun e => of_decide_eq_false hnot (e.trans rfl)
    rw [hword] at hsome
    rw [if_neg hsome]
    refine ⟨?_, fun r hr ht => ?_, h3.mem.trans (h2.mem.trans h1.mem)⟩
    · rw [h3.value, Machine.get_withPc, h2.other _ hstack.symm, h1.other _, hsp]
    · rw [h3.other r hr, Machine.get_withPc, h2.other r hr,
        h1.other r (fun e => ht (List.mem_singleton.mpr e))]

end

/-! ## The order of the moves -/

section
variable {m : NativeMethod} {p : Plan} {P : Planned m p} {i : Nat} {l : Location} {a : Argument}

/-- Native places are no other registers. -/
theorem Sent.dst_ne (h : Sent P i l a) {r : Reg}
    (hr : r ∉ Convention.native.intArgs.map Reg.x ++ Convention.native.floatArgs.map Reg.f)
    (hnone : r ≠ .none) : a.dst.reg ≠ r := by
  refine Stub.given_ne (P.places h).2.1 (fun hmem => hr ?_) hnone
  have hsub : ∀ b, ∀ r ∈ (Planned.nativeSupply b).ints.map Reg.x ++ (Planned.nativeSupply b).floats.map Reg.f,
      r ∈ Convention.native.intArgs.map Reg.x ++ Convention.native.floatArgs.map Reg.f := by decide
  exact hsub _ r hmem

theorem Sent.dst_scratch (h : Sent P i l a) : a.dst.reg ∉ [t0, t1] := by
  simp only [List.mem_cons, List.not_mem_nil, or_false, not_or]
  exact ⟨h.dst_ne (by decide) (by decide), h.dst_ne (by decide) (by decide)⟩

theorem Sent.dst_keeps (h : Sent P i l a) (hreg : a.dst.isReg = true) : Keeps a.dst.reg := by
  refine ⟨h.dst_ne (by decide) (by decide), ?_⟩
  cases hdst : a.dst with
  | int r => exact nofun
  | float r => exact nofun
  | _ => rw [hdst] at hreg; cases hreg

/-- Native places on the stack are outgoing words of the frame. -/
theorem Sent.dst_slot (h : Sent P i l a) {slot : Nat} (hdst : a.dst = .stack slot) : 4 * slot + 8 ≤ 8 * P.first := by
  have hgiven := (P.places h).2.1
  have houtgoing := P.outgoing
  rw [hdst] at hgiven
  have hle : slot + 2 ≤ P.outSlots := hgiven.2
  omega

theorem Sent.dst_fits (h : Sent P i l a) {base : UInt64} (hbase : base.toNat + P.frame ≤ 2 ^ 64) : a.dst.Fits base := by
  have hlinkage := P.linkage
  have htemp := P.tempAbove.1
  cases hdst : a.dst with
  | stack slot =>
    have := h.dst_slot hdst
    show base.toNat + 4 * slot + 8 ≤ 2 ^ 64
    omega
  | _ => trivial

theorem Sent.dst_covers (h : Sent P i l a) {base x : UInt64} (hx : a.dst.Covers base x) :
    Spans base.toNat (8 * P.first) x := by
  cases hdst : a.dst with
  | stack slot =>
    rw [hdst] at hx
    have hslot := h.dst_slot hdst
    simp only [Covers] at hx
    omega
  | _ => rw [hdst] at hx; exact hx.elim

theorem Sent.dst_int (h : Sent P i l a) (href : a.kind.isReference = true) (r : Fin 32) : a.dst ≠ .float r := by
  intro hdst
  obtain ⟨j, prev, hrest⟩ := P.nativeRest
  have hsuits := (placed_assignFrom hrest).suits _ (mem_arrived h.kind h.dst h.real)
  rw [hdst] at hsuits
  have hneither (k : ValueKind) : k.isReference = true → k.isFloat = true → False := by cases k <;> exact nofun
  exact hneither a.kind href hsuits

/-- Places from below a frame of that many bytes up: the caller's, registers, outgoing words. -/
def rank (frame : Nat) : Location → Nat
  | .nowhere => 0
  | .stack slot => if frame / 4 ≤ slot then 0 else 100
  | .int r => 1 + r
  | .float _ => 50

/-- An argument that moves goes up. -/
theorem Sent.rises (h : Sent P i l a) (hne : a.src ≠ a.dst) : rank P.frame a.src < rank P.frame a.dst := by
  have hrises := (P.places h).2.2
  have hgiven := (P.places h).1
  have hlinkage := P.linkage
  have htemp := P.tempAbove.1
  have up {slot : Nat} (hdst : a.dst = .stack slot) : rank P.frame a.dst = 100 := by
    have := h.dst_slot hdst
    rw [hdst, rank, if_neg (by omega)]
  rw [h.src] at hne ⊢
  cases l with
  | nowhere => exact hgiven.elim
  | float r =>
    cases hdst : a.dst with
    | float r' => rw [hdst] at hrises hne; exact absurd (congrArg Location.float hrises) hne
    | _ => rw [hdst] at hrises; exact hrises.elim
  | int r =>
    cases hdst : a.dst with
    | int r' =>
      rw [hdst] at hrises hne
      have hle : r.val ≤ r'.val := hrises
      have hother : r.val ≠ r'.val := fun e => hne (congrArg Location.int (Fin.ext e))
      show 1 + r.val < 1 + r'.val
      omega
    | stack slot =>
      rw [← hdst, up hdst]
      show 1 + r.val < 100
      omega
    | _ => rw [hdst] at hrises; exact hrises.elim
  | stack slot =>
    have hlow : rank P.frame (lowered P.frame (.stack slot)) = 0 := by
      rw [lowered, rank, if_pos (by omega)]
    rw [hlow]
    cases hdst : a.dst with
    | int r' => exact Nat.lt_add_right _ Nat.one_pos
    | stack slot' =>
      rw [← hdst, up hdst]
      exact Nat.zero_lt_succ _
    | _ => rw [hdst] at hrises; exact hrises.elim

theorem rises_lowered {frame : Nat} {l d : Location} (h : Rises l d) : Rises (lowered frame l) d := by
  cases l <;> cases d <;> exact h

/-- How an argument is moved. -/
def Argument.move (a : Argument) : Move := ⟨a.src, a.dst, a.kind⟩

/-- The moves of a plan, in an order in which none overwrites what a later one reads. -/
structure Ordered (P : Planned m p) (moves : List Move) : Prop where
  sent : ∀ mv ∈ moves, ∃ i l a, Sent P i l a ∧ a.kind.isReference = false ∧ mv = a.move ∧ a.src ≠ a.dst
  all : ∀ i l a, Sent P i l a → a.kind.isReference = false → a.src ≠ a.dst → a.move ∈ moves
  apart : moves.Pairwise fun x y => y.dst.aliases x.dst = false
  safe : MoveSolver.Safe moves

theorem ordered (P : Planned m p) {moves : List Move} (h : p.orderedMoves = .ok moves) : Ordered P moves := by
  obtain ⟨scratch, hscratch, h⟩ := except_bind_eq_ok.mp h
  cases hscratch
  split at h
  case _ moves' hsolve =>
    cases h
    have hplain : p.plainMoves = (p.args.filter (!·.kind.isReference)).map Argument.move := rfl
    have hmem {mv : Move} : mv ∈ p.plainMoves ↔ ∃ a ∈ p.args, a.kind.isReference = false ∧ a.move = mv := by
      rw [hplain, List.mem_map]
      simp only [List.mem_filter, Bool.not_eq_true', and_assoc]
    have hreal {mv : Move} : mv ∈ realMoves p.plainMoves ↔ mv ∈ p.plainMoves ∧ mv.src ≠ mv.dst := by
      rw [realMoves, List.mem_filter, decide_eq_true_iff]
    obtain ⟨hperm, hsafe⟩ := solve_rising (rank P.frame) rfl hsolve fun mv hmv hne => by
      obtain ⟨a, ha, -, rfl⟩ := hmem.mp hmv
      obtain ⟨i, l, hsent⟩ := P.sent ha
      exact hsent.rises hne
    refine ⟨fun mv hmv => ?_, fun i l a hsent hplainKind hne => ?_, ?_, hsafe⟩
    · obtain ⟨hmv, hne⟩ := hreal.mp (hperm.subset hmv)
      obtain ⟨a, ha, href, rfl⟩ := hmem.mp hmv
      obtain ⟨i, l, hsent⟩ := P.sent ha
      exact ⟨i, l, a, hsent, href, rfl, hne⟩
    · exact hperm.symm.subset (hreal.mpr ⟨hmem.mpr ⟨a, hsent.mem, hplainKind, rfl⟩, hne⟩)
    · refine (hperm.pairwise_iff fun {x y} h => (aliases_comm ..).trans h).mpr ?_
      rw [realMoves, hplain]
      exact (List.pairwise_map.mpr (P.dst_apart.filter _)).filter _
  case _ => cases h

/-- Arguments have native places of their own. -/
theorem Planned.dst_other (P : Planned m p) {b : Argument} (ha : a ∈ p.args) (hb : b ∈ p.args) (hne : b ≠ a) :
    b.dst.aliases a.dst = false := by
  have : Std.Symm fun a b : Argument => b.dst.aliases a.dst = false := ⟨fun _ _ h => (aliases_comm ..).trans h⟩
  exact P.dst_apart.forall ha hb hne.symm

end

/-! ## All arguments -/

section
variable {m : NativeMethod} {p : Plan} {P : Planned m p} {m0 m1 m2 : Machine} {S : Site} {E : Exits}
  (hroom : WrapperRoom P.frame P.inSlots S.Free (m0.get sp) (m0.get thread))
include hroom

/-- The arguments that are no references have their values in their native places. -/
def Moved (P : Planned m p) (m0 m1 : Machine) : Prop :=
  ∀ i l a, Sent P i l a → a.kind.isReference = false →
    a.kind.Same (m0.at (m0.get sp) l) (m1.at (m0.get sp - UInt64.ofNat P.frame) a.dst)

theorem does_moveArguments (hready : Ready P m0 m1) {moves : List Move} (hmoves : Ordered P moves) :
    S.Does (moves.forM Plan.moveArgument) m1 E fun _ m2 =>
      Changed (m0.get sp - UInt64.ofNat P.frame) (moves.map (·.dst)) [t0, t1] m1 m2 ∧ Moved P m0 m2 := by
  have htop := (m0.get sp).toNat_lt
  have hbelow := hroom.below
  have hlinkage := P.linkage
  have htemp := P.tempAbove.1
  have hbase := P.toNat_base (m0.get sp) (by omega)
  have hplace {mv : Move} (hmv : mv ∈ moves) : mv.dst.Fits (m0.get sp - UInt64.ofNat P.frame) ∧
    mv.dst.reg ∉ [t0, t1] := by
    obtain ⟨i, l, a, hsent, -, rfl, -⟩ := hmoves.sent mv hmv
    exact ⟨hsent.dst_fits (by omega), hsent.dst_scratch⟩
  refine (Does.deliverInOrder (m0.get sp - UInt64.ofNat P.frame) [t0, t1] Move.dst
    (P := fun mv v => mv.kind.Same (m1.at (m0.get sp - UInt64.ofNat P.frame) mv.src) v)
    (fun mv hmv => (hplace hmv).1) (fun mv hmv => (hplace hmv).2) hmoves.apart
    fun done mv rest hsplit m' hchanged => ?_).imp
    (fun _ _ h => h) fun _ m2 ⟨hchanged, hvalues⟩ => ⟨hchanged, fun i l a hsent href => ?_⟩
  · have hin {mv' : Move} (hmv' : mv' ∈ done ++ [mv]) : mv' ∈ moves := by
      rw [hsplit, show done ++ mv :: rest = done ++ [mv] ++ rest by simp]
      exact List.mem_append_left _ hmv'
    obtain ⟨i, l, a, hsent, -, rfl, hne⟩ := hmoves.sent mv (hin (by simp))
    have hsp : m'.get sp = m0.get sp - UInt64.ofNat P.frame := by
      refine (hchanged.regs _ (by decide) fun l' hl' => ?_).trans hready.standing.sp
      obtain ⟨mv', hmv', rfl⟩ := List.mem_map.mp hl'
      obtain ⟨j, k, b, hsent', -, rfl, -⟩ := hmoves.sent mv' (hin (List.mem_append_left _ hmv'))
      exact hsent'.dst_ne (by decide) (by decide)
    -- those before have not written where this one comes from
    have hsource : m'.at (m0.get sp - UInt64.ofNat P.frame) a.src = m1.at (m0.get sp - UInt64.ofNat P.frame) a.src := by
      refine hchanged.at_eq (hsent.src_fits (by omega) hroom.above) ?_ fun l' hl' => ?_
      · simp only [List.mem_cons, List.not_mem_nil, or_false, not_or]
        exact ⟨hsent.src_ne (by decide) (by decide), hsent.src_ne (by decide) (by decide)⟩
      · obtain ⟨mv', hmv', rfl⟩ := List.mem_map.mp hl'
        obtain ⟨j, k, b, hsent', -, rfl, -⟩ := hmoves.sent mv' (hin (List.mem_append_left _ hmv'))
        have hsafe := hmoves.safe
        rw [hsplit, MoveSolver.Safe, List.pairwise_append] at hsafe
        have hapart : b.dst ≠ a.src := (hsafe.2.2 _ hmv' _ List.mem_cons_self).1
        show b.dst.aliases a.src = false
        cases hdst : b.dst with
        | nowhere => rfl
        | stack slot =>
          refine hsent.src_apart rfl fun slot' hslot => ?_
          cases hslot
          have := hsent'.dst_slot hdst
          omega
        | int r =>
          rw [hdst] at hapart
          cases hsrc : a.src with
          | int r' => exact decide_eq_false fun e => hapart (by rw [hsrc, e])
          | _ => rfl
        | float r =>
          rw [hdst] at hapart
          cases hsrc : a.src with
          | float r' => exact decide_eq_false fun e => hapart (by rw [hsrc, e])
          | _ => rfl
    have hrises : Rises a.src a.dst := hsent.src ▸ rises_lowered (P.places hsent).2.2
    refine (does_moveArgument hsp (show Rises a.move.src a.move.dst from hrises) hne hsent.dst_keeps
      (hsent.dst_fits (by omega)) fun x hx =>
      hroom.free x ?_).imp (fun _ _ h => h) fun _ m'' hone => ⟨hone.1, hsource ▸ hone.2⟩
    have := hsent.dst_covers hx
    omega
  · have hsource := hready.arrived.source hroom hsent
    by_cases hne : a.src = a.dst
    · -- who stays is not overwritten
      rw [← hsource, hne, hchanged.at_eq (hsent.dst_fits (by omega)) ?_ fun l' hl' => ?_]
      · exact ValueKind.same_refl ..
      · exact hsent.dst_scratch
      · obtain ⟨mv', hmv', rfl⟩ := List.mem_map.mp hl'
        obtain ⟨j, k, b, hsent', -, rfl, hne'⟩ := hmoves.sent mv' hmv'
        exact P.dst_other hsent.mem hsent'.mem fun e => hne' (e ▸ hne)
    · rw [← hsource]
      exact hvalues a.move (hmoves.all i l a hsent href hne)

omit hroom in
/-- The native place of a reference. -/
def handed (a : Argument) : Location := if a.kind.isReference then a.dst else .nowhere

omit hroom in
theorem handed_eq (a : Argument) : handed a = a.dst ∨ handed a = .nowhere := by
  unfold handed
  split
  · exact .inl rfl
  · exact .inr rfl

variable {a : Argument} {t : Target}

omit hroom in
theorem handed_apart {b : Argument} (h : b.dst.aliases a.dst = false) : (handed b).aliases (handed a) = false := by
  rcases handed_eq b with hb | hb <;> rcases handed_eq a with ha | ha <;> rw [ha, hb]
  · exact h
  · cases b.dst <;> rfl
  · rfl
  · rfl

omit hroom in
theorem handed_ne (P : Planned m p) (ha : a ∈ p.args) {r : Reg}
    (hr : r ∉ Convention.native.intArgs.map Reg.x ++ Convention.native.floatArgs.map Reg.f) (hnone : r ≠ .none) :
    (handed a).reg ≠ r := by
  obtain ⟨i, l, hsent⟩ := P.sent ha
  rcases handed_eq a with h | h <;> rw [h]
  · exact hsent.dst_ne hr hnone
  · exact hnone.symm

omit hroom in
theorem handed_covers (P : Planned m p) (ha : a ∈ p.args) {base x : UInt64} (hx : (handed a).Covers base x) :
    Spans base.toNat (8 * P.first) x := by
  obtain ⟨i, l, hsent⟩ := P.sent ha
  rcases handed_eq a with h | h <;> rw [h] at hx
  · exact hsent.dst_covers hx
  · exact hx.elim

omit hroom in
theorem does_passHandle {i : Nat} {l : Location} {base : UInt64} (hsent : Sent P i l a) (hsp : m1.get sp = base)
    (hend : base.toNat + P.frame ≤ 2 ^ 64) (hfree : ∀ x, a.dst.Covers base x → S.Free x) :
    S.Does (Plan.passHandle a) m1 E fun _ m' => Changed base [handed a] [t0, t1] m1 m' ∧ ∀ off, a.handle = some off →
      m'.at base (handed a) = if m1.mem.read (base + off.toUInt64) 8 = 0 then 0 else base + off.toUInt64 := by
  rw [Plan.passHandle_eq, handed, hsent.handle]
  by_cases href : a.kind.isReference = true
  · rw [if_pos href, if_pos href]
    dsimp only
    cases hdst : a.dst with
    | nowhere =>
      have := (P.places hsent).2.1
      rw [hdst] at this
      exact this.elim
    | float r => exact absurd hdst (hsent.dst_int href r)
    | int r =>
      have hk : Keeps (Reg.x r) := by
        have := hsent.dst_keeps (by rw [hdst]; rfl)
        rwa [hdst] at this
      have hne {s : Reg} (hs : s ∉ Convention.native.intArgs.map Reg.x ++ Convention.native.floatArgs.map Reg.f)
        (hnone : s ≠ .none) :
          Reg.x r ≠ s := by
        have := hsent.dst_ne hs hnone
        rwa [hdst] at this
      refine .bind (does_handleAddress hk (hne (by decide) (by decide)) (hne (by decide) (by decide)) hsp fun m' h' => ?_)
      refine does_pure ⟨(h'.changed rfl).mono (fun _ h => h) (by simp), fun off hoff => ?_⟩
      cases hoff
      exact h'.value
    | stack slot =>
      have hfits : base.toNat + 4 * slot + 8 ≤ 2 ^ 64 := by
        have := hsent.dst_fits hend
        rwa [hdst] at this
      rw [hdst] at hfree
      refine .bind (does_handleAddress (d := t1) (by decide) (by decide) (by decide) hsp fun m2 h2 => ?_)
      have hsp2 : m2.get sp = base := (h2.rest _ (by decide) (by decide)).trans hsp
      refine does_storeOff rfl rfl (by decide) (fun k hk => ?_) fun m3 h3 => ⟨?_, fun off hoff => ?_⟩
      · rw [hsp2, toUInt64_slotBytes]
        exact hfree _ (spans_off (by omega) hk)
      · rw [hsp2, toUInt64_slotBytes] at h3
        exact ((h2.scratch (by simp) (by simp)).mono (by simp) fun _ h => h).trans
          ((h3.changed hfits (by decide)).mono (fun _ h => h) (by simp))
      · rw [hsp2, toUInt64_slotBytes] at h3
        cases hoff
        show m3.mem.read _ 8 = _
        rw [h3.mem, read_write_eight]
        exact h2.value
  · rw [if_neg href, if_neg href]
    exact does_pure ⟨changed_refl .., nofun⟩

/-- The references are in their native places, as addresses of their handles or null. -/
def Handed (P : Planned m p) (m0 m1 : Machine) : Prop :=
  ∀ i l a, Sent P i l a → a.kind.isReference = true → m1.at (m0.get sp - UInt64.ofNat P.frame) a.dst =
    if m0.at (m0.get sp) l = 0 then 0 else P.word (m0.get sp) (handleWord P.first P.sig.expanded i)

theorem does_passHandles (hsp : m1.get sp = m0.get sp - UInt64.ofNat P.frame) (hhandled : Handled P m0 m1)
    (hmoved : Moved P m0 m1) :
    S.Does (p.args.forM Plan.passHandle) m1 E fun _ m2 =>
      Changed (m0.get sp - UInt64.ofNat P.frame) (p.args.map handed) [t0, t1] m1 m2 ∧ Moved P m0 m2 ∧ Handed P m0 m2 := by
  have htop := (m0.get sp).toNat_lt
  have hbelow := hroom.below
  have hlinkage := P.linkage
  have htemp := P.tempAbove.1
  have hsmall := P.small
  have hbase := P.toNat_base (m0.get sp) (by omega)
  refine (Does.deliver (m0.get sp - UInt64.ofNat P.frame) [t0, t1] handed
    (P := fun a v => ∀ off, a.handle = some off →
    v = if m1.mem.read (m0.get sp - UInt64.ofNat P.frame + off.toUInt64) 8 = 0 then 0
      else m0.get sp - UInt64.ofNat P.frame + off.toUInt64)
    (fun a ha => ?_) (fun a ha => ?_) (P.dst_apart.imp handed_apart) fun a ha m' hchanged => ?_).imp (fun _ _ h => h)
      fun _ m2 ⟨hchanged, hvalues⟩ => ⟨hchanged, fun i l a hsent href => ?_, fun i l a hsent href => ?_⟩
  · obtain ⟨i, l, hsent⟩ := P.sent ha
    rcases handed_eq a with h | h <;> rw [h]
    · exact hsent.dst_fits (by omega)
    · trivial
  · simp only [List.mem_cons, List.not_mem_nil, or_false, not_or]
    exact ⟨handed_ne P ha (by decide) (by decide), handed_ne P ha (by decide) (by decide)⟩
  · obtain ⟨i, l, hsent⟩ := P.sent ha
    have hsp' : m'.get sp = m0.get sp - UInt64.ofNat P.frame := by
      refine (hchanged.regs _ (by decide) fun l' hl' => ?_).trans hsp
      obtain ⟨b, hb, rfl⟩ := List.mem_map.mp hl'
      exact handed_ne P hb (by decide) (by decide)
    refine (does_passHandle hsent hsp' (by omega) fun x hx => hroom.free x ?_).imp (fun _ _ h => h)
      fun _ m'' ⟨hone, hvalue⟩ =>
      ⟨hone, fun off hoff => ?_⟩
    · have := hsent.dst_covers hx
      omega
    · -- the handles lie above the outgoing words
      have hword : m'.mem.read (m0.get sp - UInt64.ofNat P.frame + off.toUInt64) 8 =
          m1.mem.read (m0.get sp - UInt64.ofNat P.frame + off.toUInt64) 8 := by
        rw [hsent.handle] at hoff
        split at hoff
        case _ href =>
          cases hoff
          have hlt := P.handleWord_lt hsent href
          rw [Int64.toUInt64_ofNat']
          have haddr := P.toNat_word (m0.get sp) (by omega) (k := handleWord P.first P.sig.expanded i) (by omega)
          unfold Planned.word at haddr
          refine Ram.read_same (by omega) fun x hx => hchanged.mem x fun l' hl' hc => ?_
          obtain ⟨b, hb, rfl⟩ := List.mem_map.mp hl'
          have := handed_covers P hb hc
          omega
        case _ => cases hoff
      rw [hvalue off hoff, hword]
  · rw [hchanged.at_eq (hsent.dst_fits (by omega)) ?_ fun l' hl' => ?_]
    · exact hmoved i l a hsent href
    · exact hsent.dst_scratch
    · obtain ⟨b, hb, rfl⟩ := List.mem_map.mp hl'
      rcases handed_eq b with h | h
      · rw [h]
        refine P.dst_other hsent.mem hb fun e => ?_
        rw [e, handed, href] at h
        have := (P.places hsent).2.1
        rw [← h] at this
        exact this
      · rw [h]
        cases a.dst <;> rfl
  · have hvalue := hvalues a hsent.mem _ (hsent.handle.trans (if_pos href))
    rw [handed, if_pos href, Int64.toUInt64_ofNat'] at hvalue
    rw [hvalue]
    have := hhandled.args i l a hsent href
    unfold Planned.word at this ⊢
    rw [this]

omit hroom in
/-- What the frame keeps for the way back: the linkage, the handles and the lock. -/
structure Settled (P : Planned m p) (t : Target) (m0 m1 : Machine) : Prop where
  standing : Standing P m0 m1
  handled : Handled P m0 m1
  remembers : m.isSynchronized = true → Remembers P t m0 m1

/-- Only what lies above the outgoing words matters for the way back. -/
theorem Settled.keep (h : Settled P t m0 m1) (hr : ∀ r ∈ [sp, fp, thread], m2.get r = m1.get r)
    (hm : ∀ x, Spans ((m0.get sp).toNat - P.frame) P.frame x → ¬ Spans ((m0.get sp).toNat - P.frame) (8 * P.first) x →
      m2.mem x = m1.mem x) : Settled P t m0 m2 := by
  have htop := (m0.get sp).toNat_lt
  have hbelow := hroom.below
  have hlinkage := P.linkage
  have htemp := P.tempAbove
  refine ⟨h.standing.keep (by omega) hr fun x hx => hm x ?_ ?_, h.handled.keep (by omega) fun x hx =>
    ?_, fun hsync hfast => ?_⟩
  · omega
  · omega
  · rcases hx with hx | ⟨hstatic, hx⟩
    · exact hm x (by omega) (by omega)
    · have habove := P.klassAbove hstatic
      have := htemp.2.1 hstatic
      exact hm x (by omega) (by omega)
  · have hlock := P.lockAbove hsync
    have := htemp.2.2 hsync
    have haddr := P.toNat_word (m0.get sp) (by omega) (k := P.lock + 1) (by omega)
    rw [← h.remembers hsync hfast]
    exact Ram.read_same (by omega) fun x hx => hm x (by omega) (by omega)

/-- Writing to native places leaves the frame as it is. -/
theorem Settled.delivered (h : Settled P t m0 m1) {ls : List Location}
    (hc : Changed (m0.get sp - UInt64.ofNat P.frame) ls [t0, t1] m1 m2)
    (hls : ∀ l ∈ ls, (∀ r ∈ [sp, fp, thread], l.reg ≠ r) ∧
      ∀ x, l.Covers (m0.get sp - UInt64.ofNat P.frame) x →
      Spans (m0.get sp - UInt64.ofNat P.frame).toNat (8 * P.first) x) :
    Settled P t m0 m2 := by
  have hbelow := hroom.below
  have hbase := P.toNat_base (m0.get sp) (by omega)
  refine h.keep hroom (fun r hr => hc.regs r ?_ fun l hl => (hls l hl).1 r hr) fun x _ hout =>
    hc.mem x fun l hl hx => hout ?_
  · have : ∀ r ∈ [sp, fp, thread], r ∉ [t0, t1] := by decide
    exact this r hr
  · rw [← hbase]
    exact (hls l hl).2 x hx

omit hroom in
/-- The native function finds everything where it expects it. -/
structure Passed (P : Planned m p) (t : Target) (m0 m1 : Machine) : Prop where
  settled : Settled P t m0 m1
  moved : Moved P m0 m1
  handed : Handed P m0 m1
  environment : m1.get (.x 10) = m0.get thread + UInt64.ofNat 0x1c8
  klass : m.isStatic = true → m1.get (.x 11) = P.word (m0.get sp) P.klass

omit hroom in
/-- Registers of what comes before the arguments of the method. -/
def leadingRegs (isStatic : Bool) : List Reg := if isStatic then [.x 10, .x 11] else [.x 10]

omit hroom in
theorem Sent.dst_leading {i : Nat} {l : Location} (h : Sent P i l a) : a.dst.reg ∉ leadingRegs m.isStatic := by
  have hout : ∀ b, ∀ r ∈ leadingRegs b, r ∉ (Planned.nativeSupply b).ints.map Reg.x ++
    (Planned.nativeSupply b).floats.map Reg.f ∧
      r ≠ .none := by decide
  intro hmem
  obtain ⟨hr, hnone⟩ := hout _ _ hmem
  exact Stub.given_ne (P.places h).2.1 hr hnone rfl

theorem keep_places {rs : List Reg} {Mem : UInt64 → Prop} (ha : Alters rs Mem m1 m2)
    (hr : ∀ i l a, Sent P i l a → a.dst.reg ∉ rs) (hm : ∀ x, Spans ((m0.get sp).toNat - P.frame) P.frame x → ¬ Mem x) :
    (Moved P m0 m1 → Moved P m0 m2) ∧ (Handed P m0 m1 → Handed P m0 m2) := by
  have htop := (m0.get sp).toNat_lt
  have hbelow := hroom.below
  have hlinkage := P.linkage
  have htemp := P.tempAbove.1
  have hbase := P.toNat_base (m0.get sp) (by omega)
  have same {i : Nat} {l : Location} {a : Argument} (hsent : Sent P i l a) :
      m2.at (m0.get sp - UInt64.ofNat P.frame) a.dst = m1.at (m0.get sp - UInt64.ofNat P.frame) a.dst := by
    refine ha.at_eq (hsent.dst_fits (by omega)) (hr i l a hsent) fun x hx => hm x ?_
    have := hsent.dst_covers hx
    omega
  exact ⟨fun h i l a hsent href => by rw [same hsent]; exact h i l a hsent href,
    fun h i l a hsent href => by rw [same hsent]; exact h i l a hsent href⟩

/-- The environment and the class come before the arguments. -/
theorem does_passLeading {Q : Unit → Machine → Prop} (hs : Settled P t m0 m1) (hmoved : Moved P m0 m1)
    (hhanded : Handed P m0 m1) (h : ∀ m2, Passed P t m0 m2 → Q () m2) : S.Does p.passLeading m1 E Q := by
  have hkeep : ∀ r ∈ [sp, fp, thread], r ≠ .x 10 ∧ r ≠ .x 11 := by decide
  have henv {m2 : Machine} (h2 : Put (.x 10) [] (m1.get thread + threadLayout.jniEnvironment.toUInt64) m1 m2) :
      m2.get (.x 10) = m0.get thread + UInt64.ofNat 0x1c8 := by
    rw [h2.value, hs.standing.thread]
    rfl
  unfold Plan.passLeading
  rw [P.classHandle]
  cases hstatic : m.isStatic with
  | false =>
    rw [if_neg Bool.false_ne_true]
    dsimp only
    refine .bind (does_addi fun m2 h2 => does_pure ?_)
    have halters : Alters [.x 10] (fun _ => False) m1 m2 := h2.alters (by simp) (by simp)
    obtain ⟨hmoved', hhanded'⟩ := keep_places hroom halters (fun i l a hsent => by
      have := hsent.dst_leading
      rwa [hstatic] at this) fun _ _ h => h
    refine h m2 ⟨hs.keep hroom (fun r hr => halters.regs r ?_) fun x _ _ => halters.mem x id, hmoved' hmoved,
      hhanded' hhanded, henv h2, fun e => ?_⟩
    · rw [List.mem_singleton]
      exact (hkeep r hr).1
    · rw [hstatic] at e
      cases e
  | true =>
    rw [if_pos rfl]
    dsimp only
    refine .bind (does_addi fun m2 h2 => does_addi fun m3 h3 => ?_)
    have halters : Alters [.x 10, .x 11] (fun _ => False) m1 m3 :=
      (h2.alters (by simp) (by simp)).trans (h3.alters (by simp) (by simp))
    obtain ⟨hmoved', hhanded'⟩ := keep_places hroom halters (fun i l a hsent => by
      have := hsent.dst_leading
      rwa [hstatic] at this) fun _ _ h => h
    refine h m3 ⟨hs.keep hroom (fun r hr => halters.regs r ?_) fun x _ _ => halters.mem x id, hmoved' hmoved,
      hhanded' hhanded, (h3.other _).trans (henv h2), fun _ => ?_⟩
    · simp only [List.mem_cons, List.not_mem_nil, or_false, not_or]
      exact hkeep r hr
    · rw [h3.value, h2.other _, hs.standing.sp, Int64.toUInt64_ofNat']
      rfl

/-! ## From the frame to the call -/

theorem does_whenLocked (hhelp : m.isSynchronized = true →
    LockHelp m P.frame P.inSlots S.world S.target S.Free m0) (hstart : S.start % 2 = 0)
    (h1 : Ready P m0 m1) : S.DoesWhere (fun ss => ∀ s ∈ ss, S.Contains (p.slowPath s)) (p.whenLocked p.lock) m1 E
      fun _ m2 => Ready P m0 m2 ∧ (m.isSynchronized = true → Remembers P S.target m0 m2) := by
  unfold Plan.whenLocked
  rw [P.lockSlot]
  cases hsync : m.isSynchronized with
  | false =>
    rw [if_neg Bool.false_ne_true]
    exact doesWhere_pure fun _ => ⟨h1, nofun⟩
  | true =>
    rw [if_pos rfl]
    dsimp only
    refine DoesWhere.bind (G := fun s => S.Contains (p.slowPath s))
      (fun s => Asm.returns_pure fun hall => hall s (by simp)) ?_
    exact (does_lock hroom (hhelp hsync) hstart h1 hsync).imp (fun _ _ h => h) fun s m2 _ h2 =>
      doesWhere_pure fun _ => ⟨h2.1, fun _ => h2.2⟩

/-- The code before the call passes the arguments. -/
theorem does_towards (hhelp : m.isSynchronized = true → LockHelp m P.frame P.inSlots S.world S.target S.Free m0)
    (hstart : S.start % 2 = 0)
    (hs : Standing P m0 m1) (ha : Arrived P m0 m1) :
    S.DoesWhere (fun r => S.Binds r.1 ∧ ∀ s ∈ r.2.1, S.Contains (p.slowPath s)) p.towards m1 E
      fun _ m2 => Passed P S.target m0 m2 := by
  have hbelow := hroom.below
  have hend := hroom.threadEnd
  unfold Plan.towards
  refine Does.bindWhere (does_storeHandles hroom hs ha fun m2 h2 => ?_)
  refine Does.bindWhere (does_newLabel fun returnPc => ?_)
  -- the label of the return is bound behind the call
  refine DoesWhere.bind (G := fun _ => S.Binds returnPc) (fun _ => .after fun locked => .after fun moves =>
    .after fun _ =>
    .after fun _ => .after fun _ => .after fun _ => Asm.returns_pure And.left) ?_
  refine DoesWhere.knowing (r := ()) (fun _ _ _ _ _ => rfl) fun hl => does_recordFrame hroom hl h2 fun m3 h3 => ?_
  refine DoesWhere.bind (G := fun ss => ∀ s ∈ ss, S.Contains (p.slowPath s)) (fun locked => .after fun moves =>
    .after fun _ =>
    .after fun _ => .after fun _ => .after fun _ => Asm.returns_pure And.right) ?_
  refine (does_whenLocked hroom hhelp hstart h3).imp (fun _ _ h => h) fun locked m4 _ ⟨h4, hremembers⟩ => Does.anywhere ?_
  have settled : Settled P S.target m0 m4 := ⟨h4.standing, h4.handled, hremembers⟩
  refine .bind (does_lift fun moves hmoves => ?_)
  have hordered := ordered P hmoves
  refine .bind ((does_moveArguments hroom h4 hordered).imp (fun _ _ h => h) fun _ m5 ⟨hchanged5, hmoved5⟩ => ?_)
  have settled5 := settled.delivered hroom hchanged5 fun l hl => by
    obtain ⟨mv, hmv, rfl⟩ := List.mem_map.mp hl
    obtain ⟨i, k, a, hsent, -, rfl, -⟩ := hordered.sent mv hmv
    refine ⟨fun r hr => ?_, fun x hx => hsent.dst_covers hx⟩
    have hother : ∀ r ∈ [sp, fp, thread], r ∉ Convention.native.intArgs.map Reg.x ++
      Convention.native.floatArgs.map Reg.f ∧
        r ≠ .none := by decide
    exact hsent.dst_ne (hother r hr).1 (hother r hr).2
  refine .bind ((does_passHandles hroom settled5.standing.sp settled5.handled hmoved5).imp (fun _ _ h => h)
    fun _ m6 ⟨hchanged6, hmoved6, hhanded6⟩ => ?_)
  have settled6 := settled5.delivered hroom hchanged6 fun l hl => by
    obtain ⟨a, ha, rfl⟩ := List.mem_map.mp hl
    refine ⟨fun r hr => ?_, fun x hx => handed_covers P ha hx⟩
    have hother : ∀ r ∈ [sp, fp, thread], r ∉ Convention.native.intArgs.map Reg.x ++
      Convention.native.floatArgs.map Reg.f ∧
        r ≠ .none := by decide
    exact handed_ne P ha (hother r hr).1 (hother r hr).2
  refine .bind (does_passLeading hroom settled6 hmoved6 hhanded6 fun m7 h7 => ?_)
  refine .bind (does_storeThreadState h7.settled.standing.thread (by omega) (fun x hx => hroom.threadFree x ?_)
    fun m8 hstored => does_pure ?_)
  · omega
  have haddr : (m0.get thread + UInt64.ofNat 0x1a0).toNat = (m0.get thread).toNat + 0x1a0 := toNat_off (by omega)
  have h8 : Alters [t0] (OfThread (m0.get thread) 0x1a0 4) m7 m8 :=
    hstored.alters (by simp) (by omega) fun x hx => by rwa [haddr] at hx
  have hout {x : UInt64} (hx : Spans ((m0.get sp).toNat - P.frame) P.frame x) : ¬ OfThread (m0.get thread) 0x1a0 4 x := by
    have := hroom.threadApart
    omega
  have hplaces (i : Nat) (l : Location) (a : Argument) (hsent : Sent P i l a) : a.dst.reg ∉ [t0] := by
    rw [List.mem_singleton]
    exact hsent.dst_ne (by decide) (by decide)
  obtain ⟨hmoved, hhanded⟩ := keep_places hroom h8 hplaces fun x hx => hout hx
  refine ⟨h7.settled.keep hroom (fun r hr => h8.regs r ?_) fun x hx _ => h8.mem x (hout hx), hmoved h7.moved,
    hhanded h7.handed, (h8.regs _ (by decide)).trans h7.environment, fun hstatic =>
    (h8.regs _ (by decide)).trans (h7.klass hstatic)⟩
  have : ∀ r ∈ [sp, fp, thread], r ∉ [t0] := by decide
  exact this r hr

end

end NativeWrapper

end RiscvJit
