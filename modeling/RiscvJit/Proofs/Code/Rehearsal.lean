import RiscvJit.Proofs.Code.Finished
import RiscvJit.Stub.Interrupt

/-
  RiscvJit.Proofs.Code.Rehearsal — showing that code is generated without writing it.

  Work on an exhausted buffer drops its words and does everything else: operands are checked and
  labels are made, referred to and bound. So it is a rehearsal. `Asm.Rehearsed p x q n` says that work
  `x` that went through there goes through in a buffer that works and has room for `n` more
  instructions, and leaves it working. What the rehearsal does not show is asked for here: that there
  is room, that the code is short enough for every branch (`reaches_of_short`), and that no two maps
  are at one offset; `p` and `q` tell whether there is code since the last map, before and after.

  As a class it is found by the shape of the work, with the number of instructions. A piece of code
  whose rehearsal succeeds is generated (`Rehearsed.generate`).
-/

namespace RiscvJit

open Layout

variable {L : Layout}

theorem Layout.Sound.reaches_of_short (h : L.Sound) (hshort : L.pieces.length < 1024) : L.reaches = true := by
  rw [reaches_iff]
  intro k p hp
  have hk := (List.getElem?_eq_some_iff.mp hp).1
  have horigin := origin_le p k
  cases hd : p.label?.bind L.mark with
  | none =>
    rw [distance, hd]
    exact reaches_zero p
  | some m =>
    obtain ⟨l, -, hm⟩ := Option.bind_eq_some_iff.mp hd
    have hm := h.within l m hm
    have hgap : (gap m (p.origin k)).toInt = 4 * m - 4 * p.origin k := toInt_gap (by omega) (by omega)
    rw [distance, hd]
    show p.reaches (gap m (p.origin k)) = true
    cases p with
    | branch => rw [Piece.reaches, fitsSigned_iff, hgap]; omega
    | jump => rw [Piece.reaches, fitsSigned_iff, hgap]; omega
    | _ => rfl

/-- One assembler works, the other is exhausted, and they have the same labels. With `fresh`, there is
code since the last map. -/
structure Rehearses (fresh : Bool) (L : Layout) (a b : Assembler) : Prop where
  holds : Holds L a
  tracks : Tracks L b
  spent : b.buf.failed = true
  unplaced : a.buf.base = 0 ∧ b.buf.base = 0
  maps : ∀ m ∈ a.oopMaps.maps, ∃ k, m.offset = Int64.ofNat (4 * k) ∧ k ≤ L.pieces.length ∧
    (fresh = true → k < L.pieces.length)

theorem Rehearses.weaken {p q : Bool} {a b : Assembler} (h : Rehearses q L a b) (hle : p = true → q = true) :
    Rehearses p L a b where
  holds := h.holds
  tracks := h.tracks
  spent := h.spent
  unplaced := h.unplaced
  maps m hm := by
    obtain ⟨k, hk, hlen, hfresh⟩ := h.maps m hm
    exact ⟨k, hk, hlen, hfresh ∘ hle⟩

namespace Asm

/-- What went through on an exhausted buffer goes through where there is room for that many
instructions. -/
class Rehearsed {α : Type} (p : Bool) (x : Asm α) (q : outParam Bool) (n : outParam Nat) : Prop where
  real : ∀ {t L a b r b'}, Rehearses p L a b → x t b = .ok (r, b') → 4 * (L.pieces.length + n) ≤ a.buf.capacity →
    L.pieces.length + n < 1024 → ∃ L' a', x t a = .ok (r, a') ∧ Rehearses q L' a' b' ∧
      L'.pieces.length ≤ L.pieces.length + n ∧ a'.buf.capacity = a.buf.capacity

section
variable {α β : Type} {p q q' : Bool} {n m : Nat}

/-! ## Sequences, choices, repetitions -/

/-- Work that leaves both assemblers alone, with the same result. -/
theorem rehearsed_same {x : Asm α} (h : ∀ {t a b r b'}, a.buf.base = b.buf.base → x t b = .ok (r, b') →
    b' = b ∧ x t a = .ok (r, a)) : Rehearsed p x p 0 where
  real {t L a b r b'} hr hx _ _ := by
    obtain ⟨rfl, ha⟩ := h (hr.unplaced.1.trans hr.unplaced.2.symm) hx
    exact ⟨L, a, ha, hr, Nat.le_refl _, rfl⟩

instance rehearsed_pure (r : α) : Rehearsed p (pure r : Asm α) p 0 :=
  rehearsed_same fun _ h => by
    obtain ⟨rfl, rfl⟩ := pure_eq_ok.mp h
    exact ⟨rfl, rfl⟩

instance rehearsed_lift (e : Except Fault α) : Rehearsed p (liftM e : Asm α) p 0 :=
  rehearsed_same fun _ h => by
    obtain ⟨he, rfl⟩ := lift_eq_ok.mp h
    exact ⟨rfl, lift_ok he⟩

instance rehearsed_read : Rehearsed p (read : Asm Target) p 0 :=
  rehearsed_same fun _ h => by
    cases h
    exact ⟨rfl, rfl⟩

instance rehearsed_bind (x : Asm α) (f : α → Asm β) [hx : Rehearsed p x q n] [hf : ∀ r, Rehearsed q (f r) q' m] :
    Rehearsed p (x >>= f) q' (n + m) where
  real {t L a b s b'} hr h hroom hshort := by
    obtain ⟨r, b1, hb, hrest⟩ := bind_eq_ok.mp h
    obtain ⟨L1, a1, ha, hr1, hlen1, hcap1⟩ := hx.real hr hb (by omega) (by omega)
    obtain ⟨L', a', ha', hr', hlen', hcap'⟩ := (hf r).real hr1 hrest (by omega) (by omega)
    exact ⟨L', a', bind_eq_ok.mpr ⟨r, a1, ha, ha'⟩, hr', by omega, hcap'.trans hcap1⟩

instance rehearsed_seq (x : Asm α) (y : Asm β) [Rehearsed p x q n] [Rehearsed q y q' m] :
    Rehearsed p (x >>= fun _ => y) q' (n + m) :=
  rehearsed_bind x _

instance rehearsed_ite (c : Prop) [Decidable c] (x y : Asm α) [hx : Rehearsed p x q n] [hy : Rehearsed p y q' m] :
    Rehearsed p (if c then x else y) (q && q') (max n m) where
  real {t L a b r b'} hr h hroom hshort := by
    split at h
    case _ hc =>
      obtain ⟨L', a', ha, hr', hlen, hcap⟩ := hx.real hr h (by omega) (by omega)
      exact ⟨L', a', by rw [if_pos hc]; exact ha, hr'.weaken fun e => (Bool.and_eq_true_iff.mp e).1, by omega, hcap⟩
    case _ hc =>
      obtain ⟨L', a', ha, hr', hlen, hcap⟩ := hy.real hr h (by omega) (by omega)
      exact ⟨L', a', by rw [if_neg hc]; exact ha, hr'.weaken fun e => (Bool.and_eq_true_iff.mp e).2, by omega, hcap⟩

/-- Each round adds code, so what was so before is so afterwards, also if there is no round. -/
instance rehearsed_forM (xs : List β) (f : β → Asm Unit) [hf : ∀ x, Rehearsed false (f x) true n] :
    Rehearsed p (xs.forM f) p (xs.length * n) where
  real {t L a b r b'} hr h hroom hshort := by
    induction xs generalizing L a b with
    | nil =>
      obtain ⟨rfl, rfl⟩ := pure_eq_ok.mp (show (pure () : Asm Unit) t b = _ from h)
      exact ⟨L, a, rfl, hr, Nat.le_add_right _ _, rfl⟩
    | cons x xs ih =>
      obtain ⟨⟨⟩, b1, hb, hrest⟩ := bind_eq_ok.mp (show (f x >>= fun _ => xs.forM f) t b = _ from h)
      have hmul : (x :: xs).length * n = xs.length * n + n := Nat.succ_mul ..
      rw [hmul] at hroom hshort ⊢
      obtain ⟨L1, a1, ha, hr1, hlen1, hcap1⟩ := (hf x).real (hr.weaken nofun) hb (by omega) (by omega)
      obtain ⟨L', a', ha', hr', hlen', hcap'⟩ := ih (hr1.weaken fun _ => rfl) hrest (by omega) (by omega)
      exact ⟨L', a', bind_eq_ok.mpr ⟨(), a1, ha, ha'⟩, hr', by omega, hcap'.trans hcap1⟩

end

end Asm

/-- The number of instructions of a call, at most. -/
def Call.size : Call → Nat
  | .plain .. | .branch .. | .jal .. => 1
  | .bcond .. | .la .. => 2
  | .newLabel | .bind _ => 0

theorem Layout.length_after (L : Layout) (c : Call) :
    ∃ n ≤ c.size, (L.after c).pieces.length = L.pieces.length + n ∧ (0 < c.size → 0 < n) := by
  have hwrite (ps : List Piece) : (L.write ps).pieces.length = L.pieces.length + ps.length := List.length_append
  cases c with
  | bcond o rs1 rs2 l =>
    rw [after]
    split
    · exact ⟨1, Nat.le_succ 1, hwrite _, fun _ => Nat.one_pos⟩
    · exact ⟨2, Nat.le_refl 2, hwrite _, fun _ => Nat.two_pos⟩
  | la rd l => exact ⟨2, Nat.le_refl 2, hwrite _, fun _ => Nat.two_pos⟩
  | newLabel => exact ⟨0, Nat.le_refl 0, rfl, id⟩
  | bind l => exact ⟨0, Nat.le_refl _, rfl, id⟩
  | _ => exact ⟨1, Nat.le_refl _, hwrite _, fun _ => Nat.one_pos⟩

theorem holds_of_short {a : Assembler} (h : Settles L a) (hsound : L.Sound) (hroom : 4 * L.pieces.length ≤ a.buf.capacity)
    (hshort : L.pieces.length < 1024) : Holds L a := by
  unfold Settles fault? at h
  rwa [if_neg (by omega), if_pos (hsound.reaches_of_short hshort)] at h

namespace Asm

section
variable {p : Bool}

/-- A call that went through was a legal one, and a legal call goes through everywhere. -/
theorem rehearsed_call (c : Call) (hc : c.Proper) : Rehearsed p c.run (p || decide (0 < c.size)) c.size where
  real {t L a b r b'} hr h hroom hshort := by
    have hlegal := hr.tracks.legal hc h
    obtain ⟨k, hk, hlen, hpos⟩ := L.length_after c
    obtain ⟨a', ha, hcap, hsettles, -⟩ := Call.run_holds (t := t) hr.holds hlegal
    obtain ⟨b1, hb, hbuf, htracks⟩ := Call.run_failed (t := t) hr.tracks hr.spent hlegal
    rw [hb] at h
    cases h
    have hkept := Call.codeOnly c t a () a' ha
    have hholds : Holds (L.after c) a' :=
      holds_of_short hsettles (sound_after hr.holds.sound hlegal) (by omega) (by omega)
    refine ⟨L.after c, a', ha, ⟨hholds, htracks, ?_, ⟨?_, ?_⟩, fun m hm => ?_⟩, by omega, hcap⟩
    · rw [hbuf]
      exact hr.spent
    · rw [hkept.base]
      exact hr.unplaced.1
    · rw [hbuf]
      exact hr.unplaced.2
    · rw [hkept.maps] at hm
      obtain ⟨j, hj, hle, hfresh⟩ := hr.maps m hm
      refine ⟨j, hj, by omega, fun h => ?_⟩
      rcases Bool.or_eq_true_iff.mp h with h | h
      · have := hfresh h
        omega
      · have := hpos (of_decide_eq_true h)
        omega

instance rehearsed_emit (o : Op) (rd rs1 rs2 : Reg) (imm : Int64) (aqrl : UInt32) :
    Rehearsed p (emit o rd rs1 rs2 imm aqrl) true 1 := by
  have h := rehearsed_call (p := p) (.plain o rd rs1 rs2 imm aqrl) trivial
  rwa [show (p || decide (0 < (Call.plain o rd rs1 rs2 imm aqrl).size)) = true from Bool.or_true p] at h

instance rehearsed_jal (rd : Reg) (l : Label) : Rehearsed p (jal rd l) true 1 := by
  have h := rehearsed_call (p := p) (.jal rd l) trivial
  rwa [show (p || decide (0 < (Call.jal rd l).size)) = true from Bool.or_true p] at h

variable (l : Label)

instance rehearsed_la (rd : Reg) : Rehearsed p (la rd l) true 2 := by
  have h := rehearsed_call (p := p) (.la rd l) trivial
  rwa [show (p || decide (0 < (Call.la rd l).size)) = true from Bool.or_true p] at h

theorem rehearsed_branch {o : Op} (ho : o.info.format = .branch) (rs1 rs2 : Reg) (l : Label) :
    Rehearsed p (branch o rs1 rs2 l) true 1 := by
  have h := rehearsed_call (p := p) (.branch o rs1 rs2 l) ho
  rwa [show (p || decide (0 < (Call.branch o rs1 rs2 l).size)) = true from Bool.or_true p] at h

instance rehearsed_beq (rs1 rs2 : Reg) : Rehearsed p (branch .beq rs1 rs2 l) true 1 := rehearsed_branch rfl ..
instance rehearsed_bne (rs1 rs2 : Reg) : Rehearsed p (branch .bne rs1 rs2 l) true 1 := rehearsed_branch rfl ..

instance rehearsed_bindLabel : Rehearsed p (Asm.bind l) p 0 := by
  have h := rehearsed_call (p := p) (.bind l) trivial
  rwa [show (p || decide (0 < (Call.bind l).size)) = p from Bool.or_false p] at h

instance rehearsed_newLabel : Rehearsed p newLabel p 0 where
  real {t L a b r b'} hr h hroom hshort := by
    cases h
    have hsize : a.labels.size = b.labels.size := by
      have ha := congrArg List.length hr.holds.tracks
      have hb := congrArg List.length hr.tracks
      simp only [List.length_map, Array.length_toList] at ha hb
      omega
    refine ⟨L.fresh, { a with labels := a.labels.push {} }, ?_, ?_, Nat.le_refl _, rfl⟩
    · show Except.ok (a.labels.size + 1, _) = _
      rw [hsize]
    · exact ⟨hr.holds.newLabel, hr.tracks.newLabel, hr.spent, hr.unplaced, hr.maps⟩

instance rehearsed_markEntry (name : String) : Rehearsed p (markEntry name) p 0 where
  real {t L a b r b'} hr h _ _ := by
    cases h
    exact ⟨L, a.markEntry name, rfl, ⟨⟨hr.holds.spells, hr.holds.labels, hr.holds.sound, hr.holds.reaches⟩,
      hr.tracks, hr.spent, hr.unplaced, hr.maps⟩, Nat.le_refl _, rfl⟩

/-- A map needs code since the one before. -/
instance rehearsed_addOopMap (m : OopMap) : Rehearsed true (addOopMap m) false 0 where
  real {t L a b r b'} hr h _ _ := by
    have hfind : a.oopMaps.find? (Int64.ofNat a.buf.offset) = none := by
      refine Array.find?_eq_none.mpr fun m' hm' heq => ?_
      obtain ⟨k, hk, -, hlt⟩ := hr.maps m' hm'
      have hlt := hlt rfl
      have hroom := hr.holds.room
      have hlim := hr.holds.spells.limit
      have hoff : k = L.pieces.length := by
        refine offset_injective (by omega) (by omega) ?_
        rw [← hk, ← hr.holds.offset]
        exact eq_of_beq heq
      omega
    have hb : b' = b := by
      rcases addOopMap_cases h with ⟨-, rfl⟩ | ⟨hw, -⟩
      · rfl
      · rw [hr.spent] at hw
        cases hw
    subst hb
    refine ⟨L, { a with oopMaps := ⟨a.oopMaps.maps.push (m.placed (Int64.ofNat a.buf.offset))⟩ }, ?_,
      ⟨⟨hr.holds.spells, hr.holds.labels, hr.holds.sound, hr.holds.reaches⟩, hr.tracks, hr.spent,
        hr.unplaced, fun m' hm' => ?_⟩,
      Nat.le_refl _, rfl⟩
    · refine bind_eq_ok.mpr ⟨false, a, ?_, ?_⟩
      · rw [← hr.holds.spells.working]
        rfl
      · rw [if_neg Bool.false_ne_true]
        refine change_eq_ok.mpr ?_
        rw [OopMapSet.add, hfind]
        rfl
    · rcases Array.mem_push.mp hm' with hm' | rfl
      · obtain ⟨k, hk, hle, -⟩ := hr.maps m' hm'
        exact ⟨k, hk, hle, nofun⟩
      · exact ⟨L.pieces.length, by rw [hr.holds.offset]; rfl, Nat.le_refl _, nofun⟩

end

/-! ## Sequences -/

section
variable {p : Bool}

variable {tmp : Reg} (o : Op) (rd rs1 : Reg) (imm : Int64) (base : Reg) (off : Int64) (e : RuntimeEntry)

instance rehearsed_ri : Rehearsed p (ri o rd rs1 imm) true 1 :=
  rehearsed_bind (liftM (checkImm12 (o.name ++ " immediate") imm)) fun _ => emit o rd rs1 .none imm 0

instance rehearsed_load : Rehearsed p (load o rd base off) true 1 :=
  rehearsed_bind (liftM (checkImm12 (o.name ++ " offset") off)) fun _ => emit o rd base .none off 0

instance rehearsed_store (src base : Reg) (off : Int64) : Rehearsed p (store o src base off) true 1 :=
  rehearsed_bind (liftM (checkImm12 (o.name ++ " offset") off)) fun _ => emit o .none base src off 0

instance rehearsed_jalr : Rehearsed p (jalr rd base off) true 1 :=
  rehearsed_bind (liftM (checkImm12 "jalr offset" off)) fun _ => emit .jalr rd base .none off 0

instance rehearsed_constStep (s : ConstStep) : Rehearsed p (constStep rd s) true 1 := by
  cases s <;> (unfold constStep; infer_instance)

instance rehearsed_li : Rehearsed p (li rd imm) p ((constSteps (rd = .zr) constRounds imm).length * 1) :=
  rehearsed_forM _ (constStep rd)

instance rehearsed_mv (rs : Reg) : Rehearsed p (mv rd rs) (p && (true && true)) 1 :=
  rehearsed_ite (rd = rs) (pure ()) (if rd.isFloat then rr .fsgnjD rd rs rs else addi rd rs 0)

instance rehearsed_movptrWithOffset (addr : UInt64) : Rehearsed p (movptrWithOffset rd addr) true 5 := by
  unfold movptrWithOffset
  dsimp only
  infer_instance

/-- Where the code will be is not known, so every call is a far one. -/
theorem farCall_unplaced {target : UInt64} {link : Reg} {t : Target} {a : Assembler} (h : a.buf.base = 0) :
    farCall target link tmp t a = (movptrWithOffset tmp target >>= fun lo => jalr link tmp lo) t a := by
  show (if (decide (a.buf.base ≠ 0) && _) = true then _ else if (decide (a.buf.base ≠ 0) && _) = true
    then _ else _ : Asm Unit) t a = _
  rw [decide_eq_false (not_not_intro h), Bool.false_and, Bool.false_and]
  rfl

instance rehearsed_farCall (target : UInt64) (link : Reg) : Rehearsed p (farCall target link tmp) true 6 where
  real {t L a b r b'} hr h hroom hshort := by
    have hfar : Rehearsed p (movptrWithOffset tmp target >>= fun lo => jalr link tmp lo) true 6 := inferInstance
    rw [farCall_unplaced hr.unplaced.1]
    rw [farCall_unplaced hr.unplaced.2] at h
    exact hfar.real hr h hroom hshort

instance rehearsed_entryAddress : Rehearsed p (entryAddress e) p 0 :=
  rehearsed_bind read fun t => liftM (t.runtime.address e)

instance rehearsed_rtCall : Rehearsed p (rtCall e) true 6 :=
  rehearsed_bind (entryAddress e) fun target => farCall target .ra .t0

instance rehearsed_rtJump : Rehearsed p (rtJump e) true 6 :=
  rehearsed_bind (entryAddress e) fun target => farCall target .zr .t0

instance rehearsed_enter : Rehearsed p enter true 4 := by
  unfold enter
  infer_instance

instance rehearsed_setLastJavaFrame (lastSp lastFp : Reg) (pc : Label) :
    Rehearsed p (setLastJavaFrame lastSp lastFp pc tmp) true 5 := by
  unfold setLastJavaFrame
  infer_instance

instance rehearsed_resetLastJavaFrame (clearFp : Bool) : Rehearsed p (resetLastJavaFrame clearFp) true 3 := by
  unfold resetLastJavaFrame
  infer_instance

instance rehearsed_saveLiveRegisters : Rehearsed p saveLiveRegisters true 65 := by
  unfold saveLiveRegisters
  infer_instance

instance rehearsed_popLinkage : Rehearsed p popLinkage true 4 := by
  unfold popLinkage
  infer_instance

instance rehearsed_restoreLiveRegisters : Rehearsed p restoreLiveRegisters true 64 := by
  unfold restoreLiveRegisters
  infer_instance

instance rehearsed_restoreResultRegisters : Rehearsed p restoreResultRegisters true 6 := by
  unfold restoreResultRegisters
  infer_instance

end

end Asm

/-! ## Generating code -/

/-- An assembler that has no room. -/
def Assembler.exhausted : Assembler := { buf := { name := "", base := 0, capacity := 0, failure := CodeBuffer.codeOverflow } }

theorem generate_of_rehearsal {α : Type} {t : Target} {x : Asm α} {name : String} {capacity frameSize : Int64}
    {q : Bool} {n : Nat}
    [h : x.Rehearsed true q n] (hrun : (x t .exhausted).toBool = true) (hroom : 4 * (n : Int) ≤ capacity.toInt)
    (hlimit : capacity.toInt ≤ CodeBuffer.capacityLimit) (hshort : n < 1024) :
    ∃ blob r, Asm.generate t name 0 capacity frameSize x = .ok (blob, r) ∧ blob.code.length ≤ 4 * n := by
  cases hfailed : x t .exhausted with
  | error e =>
    rw [hfailed] at hrun
    cases hrun
  | ok p =>
    obtain ⟨r, b'⟩ := p
    have hpos : 0 ≤ capacity.toInt := by omega
    have hmade : CodeBuffer.create name 0 capacity = .ok { name, base := 0, capacity := capacity.toNatClampNeg } := by
      rw [CodeBuffer.create, if_neg]
      rw [Bool.or_eq_true_iff, decide_eq_true_eq, decide_eq_true_eq, Int64.lt_iff_toInt_lt,
        show (0 : Int64).toInt = 0 from rfl]
      omega
    have hcap : (capacity.toNatClampNeg : Int) = capacity.toInt := Int.toNat_of_nonneg hpos
    have hstart : Rehearses true {} { buf := { name, base := 0, capacity := capacity.toNatClampNeg } } .exhausted :=
      ⟨holds_create hmade, rfl, rfl, ⟨rfl, rfl⟩, nofun⟩
    obtain ⟨L', a', ha, hr, hlen, -⟩ := h.real hstart hfailed (by show 4 * (0 + n) ≤ capacity.toNatClampNeg; omega)
      (by show 0 + n < 1024; omega)
    have hlength : a'.buf.bytes.toList.length = 4 * L'.pieces.length := hr.holds.offset
    have hfinish : ∃ blob, a'.finish frameSize = .ok blob ∧ blob.code = a'.buf.bytes.toList := by
      rw [Assembler.finish, hr.holds.spells.working]
      exact ⟨_, rfl, rfl⟩
    obtain ⟨blob, hblob, hcode⟩ := hfinish
    refine ⟨blob, r, ?_, ?_⟩
    · rw [Asm.generate, Assembler.start, hmade, except_bind_eq_ok]
      refine ⟨_, ofFault_eq_ok.mpr rfl, except_bind_eq_ok.mpr ⟨(r, a'), ofFault_eq_ok.mpr ha, ?_⟩⟩
      exact except_bind_eq_ok.mpr ⟨blob, ofFailure_eq_ok.mpr hblob, rfl⟩
    · rw [hcode, hlength]
      have : L'.pieces.length ≤ 0 + n := hlen
      omega

end RiscvJit
