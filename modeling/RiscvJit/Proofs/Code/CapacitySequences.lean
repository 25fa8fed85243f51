import RiscvJit.Proofs.Code.Capacity

/-
  RiscvJit.Proofs.Code.CapacitySequences — sequences of instructions in a smaller buffer.

  All but one of the sequences are made of single instructions, labels and jumps and scale with
  them. A call of a known address looks at its own position (`farCallAt`): in a buffer that failed
  it may take another form than in the larger one, but any form writes instructions only, and the
  one thing that can stop there is the width of the address (`scales_farCall`).
-/

namespace RiscvJit

open Assembler (Lost Persists)

namespace Asm

/-! ## Calls of known addresses -/

section
variable {far : UInt64 → Prop} {a b b' : Assembler} {t : Target} {rd : Reg} {link tmp : Fin 32} {target : UInt64}

/-- Words at the end change no label. -/
theorem lost_emitted (hl : Lost a b) (hp : Persists b b') (hlabels : b'.labels = b.labels) : Lost a b' :=
  ⟨hl.failed, hl.labels.trans (congrArg _ (congrArg _ hlabels.symm)), hl.inStub.trans hp.inStub.symm,
    hl.base.trans hp.base.symm⟩

/-- A call of a known address from a known position. -/
def farCallAt (target : UInt64) (link tmp : Reg) (known : Bool) (rel : Int64) : Asm Unit := do
  if known && fitsSigned 21 rel then jalOffset link rel
  else if known && fitsSigned 20 (high12 rel >>> 12) then
    auipc tmp (high12 rel >>> 12)
    jalr link tmp (low12 rel)
  else
    let lo ← movptrWithOffset tmp target
    jalr link tmp lo

theorem farCall_eq {link tmp : Reg} : farCall target link tmp t a =
    farCallAt target link tmp (a.buf.base ≠ 0) (target - a.buf.pc).toInt64 t a := rfl

instance scales_farCallAt (target : UInt64) (link tmp : Reg) (known : Bool) (rel : Int64) :
    Scales far (farCallAt target link tmp known rel) := by
  unfold farCallAt movptrWithOffset auipc jalr lui addi slli shiftI ri
  infer_instance

theorem ri_failed {o : Op} {rd rs : Reg} {imm : Int64} (hc : checkClasses o rd rs .none = .ok ())
    (hi : isImm12 imm = true) (hf : a.buf.failed = true) : ri o rd rs imm t a = .ok ((), a) := by
  have hcheck : checkImm12 (o.name ++ " immediate") imm = .ok () := check_eq_ok.mpr hi
  unfold ri
  rw [bind_ok (lift_ok hcheck), emit_failed hc hf]

theorem jalr_failed {off : Int64} (hi : isImm12 off = true) (hf : a.buf.failed = true) :
    jalr (.x link) (.x tmp) off t a = .ok ((), a) := by
  have hcheck : checkImm12 "jalr offset" off = .ok () := check_eq_ok.mpr hi
  unfold jalr
  rw [bind_ok (lift_ok hcheck), emit_failed rfl hf]

theorem constStep_failed {s : ConstStep} (hs : s.Fits) (hf : a.buf.failed = true) :
    constStep (.x tmp) s t a = .ok ((), a) := by
  cases s with
  | lui imm => exact emit_failed rfl hf
  | start imm => exact ri_failed rfl hs hf
  | addiw imm => exact ri_failed rfl hs hf
  | slli n => exact emit_failed rfl hf
  | addi imm => exact ri_failed rfl hs hf

theorem movptrWithOffset_failed (hlt : target.toNat < 2 ^ 47) (hf : a.buf.failed = true) :
    movptrWithOffset (.x tmp) target t a = .ok (target.toInt64 &&& 0x3f, a) := by
  have hcheck (what : Unit → String) : check (target >>> 47 == 0) what = .ok () := by
    refine check_eq_ok.mpr (beq_iff_eq.mpr (UInt64.toNat_inj.mp ?_))
    rw [UInt64.toNat_shiftRight]
    exact Nat.shiftRight_eq_zero _ _ (by simpa using hlt)
  have step {s : ConstStep} (hs : s ∈ addressSteps target) : constStep (.x tmp) s t a = .ok ((), a) :=
    constStep_failed (addressSteps_fit hlt s hs) hf
  have hlui : lui (.x tmp) (upper20 (high12 (target.toInt64 >>> 17))) t a = .ok ((), a) :=
    step (s := .lui _) (by simp [addressSteps])
  have hfirst : addi (.x tmp) (.x tmp) (low12 (target.toInt64 >>> 17)) t a = .ok ((), a) :=
    step (s := .addi _) (by simp [addressSteps])
  have hshift : slli (.x tmp) (.x tmp) 11 t a = .ok ((), a) := step (s := .slli _) (by simp [addressSteps])
  have hsecond : addi (.x tmp) (.x tmp) (target.toInt64 >>> 6 &&& 0x7ff) t a = .ok ((), a) :=
    step (s := .addi _) (by simp [addressSteps])
  have hshift' : slli (.x tmp) (.x tmp) 6 t a = .ok ((), a) := step (s := .slli _) (by simp [addressSteps])
  unfold movptrWithOffset
  rw [bind_ok (lift_ok (hcheck _)), bind_ok hlui, bind_ok hfirst, bind_ok hshift, bind_ok hsecond, bind_ok hshift']
  rfl

theorem movptrWithOffset_wide (hwide : 2 ^ 47 ≤ target.toNat) :
    movptrWithOffset rd target t a = .error (addressTooWide target) := by
  have hcheck (what : Unit → String) : check (target >>> 47 == 0) what = .error (.precondition (what ())) := by
    rw [check, if_neg]
    intro h
    have hzero := congrArg UInt64.toNat (beq_iff_eq.mp h)
    rw [UInt64.toNat_shiftRight, show UInt64.toNat 47 % 64 = 47 from rfl, Nat.shiftRight_eq_div_pow] at hzero
    have := Nat.div_pos hwide (by decide)
    simp at hzero
    omega
  unfold movptrWithOffset
  rw [hcheck]
  rfl

/-- In a buffer that failed, a call of a known address does nothing, unless the address is too wide. -/
theorem farCallAt_failed {known : Bool} (rel : Int64) (hlt : known = false → target.toNat < 2 ^ 47)
    (hf : a.buf.failed = true) : farCallAt target (.x link) (.x tmp) known rel t a = .ok ((), a) ∨
      known = true ∧ 2 ^ 47 ≤ target.toNat ∧
        farCallAt target (.x link) (.x tmp) known rel t a = .error (addressTooWide target) := by
  unfold farCallAt
  split
  · refine .inl ?_
    unfold jalOffset
    split
    · exact emit_failed rfl hf
    · show Except.ok ((), { a with buf := a.buf.fail branchOutOfRange }) = _
      rw [(appends_fail _).stuck _ hf]
  · split
    · refine .inl ?_
      rw [bind_ok (show auipc (.x tmp) _ t a = .ok ((), a) from emit_failed rfl hf), jalr_failed (isImm12_low12 _) hf]
    · by_cases hwide : 2 ^ 47 ≤ target.toNat
      · refine .inr ⟨?_, hwide, ?_⟩
        · cases known with
          | true => rfl
          | false => exact absurd (hlt rfl) (Nat.not_lt.mpr hwide)
        · show (movptrWithOffset (.x tmp) target t a >>= _) = _
          rw [movptrWithOffset_wide hwide]
          rfl
      · have hlt := Nat.lt_of_not_le hwide
        refine .inl ?_
        rw [bind_ok (movptrWithOffset_failed hlt hf), jalr_failed ?_ hf]
        have hlow : (target.toInt64 &&& 0x3f).toInt = target.toInt64.toInt % 64 :=
          toInt_and_ones (k := 6) (by decide) (by rw [toInt_of_lt (by omega)]; omega)
        rw [isImm12, fitsSigned_iff, hlow]
        simp only [Nat.reduceSub, Int.reducePow]
        omega

/-- The work binds no label and refers to none. -/
class LeavesLabels {α : Type} (x : Asm α) : Prop where
  labels : ∀ {t a r a'}, x t a = .ok (r, a') → a'.labels = a.labels

variable (α : Type)

instance leavesLabels_bind {β : Type} (x : Asm α) (f : α → Asm β) [hx : LeavesLabels x] [hf : ∀ r, LeavesLabels (f r)] :
    LeavesLabels (x >>= f) where
  labels h := by
    obtain ⟨r, b, hr, hs⟩ := bind_eq_ok.mp h
    exact ((hf r).labels hs).trans (hx.labels hr)

instance leavesLabels_seq {β : Type} (x : Asm α) (y : Asm β) [LeavesLabels x] [LeavesLabels y] :
    LeavesLabels (x >>= fun _ => y) := leavesLabels_bind α x _

instance leavesLabels_ite (c : Prop) [Decidable c] (x y : Asm α) [hx : LeavesLabels x] [hy : LeavesLabels y] :
    LeavesLabels (if c then x else y) := by
  split
  · exact hx
  · exact hy

instance leavesLabels_lift (e : Except Fault α) : LeavesLabels (liftM e : Asm α) where
  labels h := by rw [(lift_eq_ok.mp h).2]

instance leavesLabels_pure (r : α) : LeavesLabels (pure r : Asm α) where
  labels h := by rw [(pure_eq_ok.mp h).2]

instance leavesLabels_modifyBuf (f : CodeBuffer → CodeBuffer) : LeavesLabels (modifyBuf f) where
  labels h := by
    cases h
    rfl

instance leavesLabels_farCallAt (target : UInt64) (link tmp : Reg) (known : Bool) (rel : Int64) :
    LeavesLabels (farCallAt target link tmp known rel) := by
  unfold farCallAt jalOffset movptrWithOffset auipc jalr lui addi slli shiftI ri emit
  infer_instance

theorem persists_farCall {link tmp : Reg} (h : farCall target link tmp t a = .ok ((), b)) : Persists a b := by
  have hat : Scales (fun _ => True) (farCallAt target link tmp (a.buf.base ≠ 0) (target - a.buf.pc).toInt64) :=
    inferInstance
  exact hat.persists (farCall_eq.symm.trans h)

theorem scales_farCall (hfar : far target) : Scales far (farCall target (.x link) (.x tmp)) where
  persists := persists_farCall
  scales {t main stubs a b r b'} hall hs h hw := by
    rw [farCall_eq] at h
    have hat : Scales far (farCallAt target (.x link) (.x tmp) (b.buf.base ≠ 0) (target - b.buf.pc).toInt64) :=
      inferInstance
    cases hs with
    | same hfits => exact hat.scales hall (.same hfits) h hw
    | lost hl =>
      rw [farCall_eq, hl.base]
      have hlt : decide (b.buf.base ≠ 0) = false → target.toNat < 2 ^ 47 := by
        intro hzero
        rw [hzero] at h
        obtain ⟨lo, b1, hmov, -⟩ := bind_eq_ok.mp (show (movptrWithOffset (.x tmp) target >>= fun lo =>
          jalr (.x link) (.x tmp) lo) t b = _ from h)
        exact (movptr_eq_ok hmov).1
      rcases farCallAt_failed (t := t.resized main stubs) (target - a.buf.pc).toInt64 hlt hl.failed
        with hdone | ⟨hbase, hwide, hstop⟩
      · exact .inr ⟨a, hdone, .lost (lost_emitted hl (hat.persists h) ((leavesLabels_farCallAt ..).labels h))⟩
      · exact .inl ⟨target, hfar, hwide, by rw [hl.base]; simpa using hbase, hstop⟩

/-! ## Runtime routines -/

theorem entryAddress_eq {e : RuntimeEntry} : entryAddress e t a = (liftM (t.runtime.address e) : Asm UInt64) t a := rfl

/-- The address of a routine does not depend on the sizes of buffers, and it is one of the far ones. -/
theorem scales_entry (e : RuntimeEntry) (link tmp : Fin 32) :
    Scales far (entryAddress e >>= fun target => farCall target (.x link) (.x tmp)) where
  persists h := by
    obtain ⟨target, b, hentry, hcall⟩ := bind_eq_ok.mp h
    obtain ⟨-, rfl⟩ := lift_eq_ok.mp (entryAddress_eq.symm.trans hentry)
    exact persists_farCall hcall
  scales {t main stubs a b r b'} hall hs h hw := by
    obtain ⟨target, b1, hentry, hcall⟩ := bind_eq_ok.mp h
    obtain ⟨haddr, rfl⟩ := lift_eq_ok.mp (entryAddress_eq.symm.trans hentry)
    have hfar : far target := by
      unfold RuntimeEntries.address at haddr
      split at haddr
      · cases haddr
      · cases haddr
        exact hall e
    rw [bind_ok ((entryAddress_eq (t := t.resized main stubs)).trans (lift_ok haddr))]
    exact (scales_farCall hfar).scales hall hs hcall hw

end

/-! ## Sequences -/

section
variable {far : UInt64 → Prop}

theorem scales_call (c : Call) (hc : c.Proper) : Scales far c.run := by
  cases c with
  | plain o rd rs1 rs2 imm aqrl => exact scales_emit ..
  | branch o rs1 rs2 l => exact scales_branch ..
  | bcond o rs1 rs2 l => exact scales_bcond hc ..
  | jal rd l => exact scales_jal ..
  | la rd l => exact scales_la ..
  | newLabel => exact scales_bind newLabel fun _ => pure ()
  | bind l => exact scales_bindLabel l

theorem closed_scales : Closed true (Scales far) where
  pure := scales_pure
  lift e := scales_lift e
  bind hx hf := @scales_bind _ _ _ _ _ hx hf
  opts := scales_opts
  newLabel := scales_newLabel
  call := scales_call
  routine := scales_entry
  barrier pred succ _ := scales_fence pred succ

instance (priority := low) scales_of_composed {α : Type} (x : Asm α) [hx : Composed true x] : Scales far x :=
  hx.has closed_scales

end

/-! ## Stubs -/

section
variable {a b b' : Assembler} {t z : Target} {c : Nat} {name : String} {size : Int64} {ok : Bool}

/-- The buffer after a stub was opened. -/
def opened (b : Assembler) (name : String) : Assembler :=
  { b with buf := { b.buf with
      mainEnd := some (b.buf.mainEnd.getD b.buf.offset)
      inStub := true
      stubs := b.buf.stubs.push { name, start := b.buf.offset } } }

/-- The buffer after a stub was closed. -/
def closed (b : Assembler) : Assembler :=
  { b with buf := { b.buf with
      inStub := false
      stubs := b.buf.stubs.modify (b.buf.stubs.size - 1) fun s => { s with stop := b.buf.offset } } }

theorem startStub_failed (hf : a.buf.failed = true) (hin : a.buf.inStub = false) :
    startStub name size t a = .ok (false, a) := by
  have hstart : a.buf.startStub name size = .ok (false, a.buf) := by
    rw [CodeBuffer.startStub, hin, hf]
    rfl
  unfold startStub
  rw [bind_ok get_ok, hstart]
  rfl

theorem startStub_room (hw : b.buf.failed = false) (hin : b.buf.inStub = false) (hroom : size.toInt ≤ b.buf.remaining) :
    startStub name size t b = .ok (true, opened b name) := by
  have hstart : b.buf.startStub name size = .ok (true, (opened b name).buf) := by
    rw [CodeBuffer.startStub, hin, hw, if_neg (by decide), if_neg (by decide), if_neg (Int.not_lt.mpr hroom)]
    rfl
  unfold startStub
  rw [bind_ok get_ok, hstart]
  rfl

theorem startStub_overflow (hw : b.buf.failed = false) (hin : b.buf.inStub = false)
    (hroom : (b.buf.remaining : Int) < size.toInt) :
    startStub name size t b = .ok (false, { b with buf := { b.buf with failure := CodeBuffer.stubOverflow } }) := by
  have hstart : b.buf.startStub name size = .ok (false, { b.buf with failure := CodeBuffer.stubOverflow }) := by
    rw [CodeBuffer.startStub, hin, hw, if_neg (by decide), if_neg (by decide), if_pos hroom]
    simp only [hin]
  unfold startStub
  rw [bind_ok get_ok, hstart]
  rfl

/-- A stub was opened, or the buffer has failed. -/
theorem startStub_eq_ok (h : startStub name size t b = .ok (ok, b')) : b.buf.inStub = false ∧
    (ok = true ∧ b.buf.failed = false ∧ size.toInt ≤ b.buf.remaining ∧ b' = opened b name ∨
      ok = false ∧ Persists b b' ∧ b'.buf.failed = true) := by
  obtain ⟨buf, hstart, rfl⟩ := startStub_eq h
  obtain ⟨hin, ⟨rfl, hw, rfl⟩ | ⟨rfl, -, -, rfl⟩ | ⟨rfl, hw, hroom, rfl⟩⟩ := CodeBuffer.startStub_cases hstart
  · exact ⟨hin, .inr ⟨rfl, Assembler.persists_refl _, hw⟩⟩
  · exact ⟨hin, .inr ⟨rfl, ⟨fun _ => rfl, rfl, rfl⟩, rfl⟩⟩
  · exact ⟨hin, .inl ⟨rfl, hw, Int.not_lt.mp hroom, rfl⟩⟩

/-- In a smaller buffer the stub is opened just so, or there is no room for it. -/
theorem startStub_same (hfits : b.Fits c) (hw : b.buf.failed = false) (hin : b.buf.inStub = false) :
    startStub name size z (b.cropped c) = .ok (true, (opened b name).cropped c) ∧ (opened b name).Fits c ∨
      ∃ a, startStub name size z (b.cropped c) = .ok (false, a) ∧ a.buf.failed = true ∧ a.buf.inStub = false := by
  by_cases hroom : size.toInt ≤ (b.cropped c).buf.remaining
  · exact .inl ⟨startStub_room hw hin hroom, hfits.le, hfits.small, hfits.offset, hfits.written⟩
  · exact .inr ⟨_, startStub_overflow hw hin (Int.not_le.mp hroom), rfl, hin⟩

theorem endStub_ok (hin : b.buf.inStub = true) : endStub t b = .ok ((), closed b) := by
  refine change_ok ?_
  rw [CodeBuffer.endStub, hin]
  rfl

end

end Asm

/-! ## Outcomes -/

/-- In a smaller buffer the outcome is the same or a bailout, unless a far address that is too wide
for a register stops the work on code whose own address is known. -/
def Shrinks {α : Type} (far : UInt64 → Prop) (base : UInt64) (r : α) (x : Except Stop α) : Prop :=
  x = .ok r ∨ (∃ unit reason, x = .error (.failure (.bailout unit reason))) ∨
    ∃ addr, far addr ∧ 2 ^ 47 ≤ addr.toNat ∧ base ≠ 0 ∧ x = .error (.fault (addressTooWide addr))

section
variable {name : String} {base : UInt64} {size less : Int64} {a b : Assembler} {frame : Int64}

theorem start_cropped (h : Assembler.start name base size = .ok b) (hpos : 0 < less) (hle : less ≤ size) :
    Assembler.start name base less = .ok (b.cropped less.toNatClampNeg) ∧ b.Fits less.toNatClampNeg ∧
      b.buf.inStub = false ∧ b.buf.base = base := by
  have hpos := Int64.lt_iff_toInt_lt.mp hpos
  have hle := Int64.le_iff_toInt_le.mp hle
  rw [Int64.toInt_zero] at hpos
  unfold Assembler.start CodeBuffer.create at h ⊢
  split at h
  · cases h
  case _ hlimit =>
    cases h
    simp only [Bool.or_eq_true, decide_eq_true_eq, not_or, Int64.lt_iff_toInt_lt, Int64.toInt_zero, Int.not_lt] at hlimit
    obtain ⟨-, hlimit⟩ := hlimit
    have hlimit : size.toInt ≤ 2 ^ 48 := hlimit
    have hless : (decide (less < 0) || decide (CodeBuffer.capacityLimit < less.toInt)) = false := by
      simp only [Bool.or_eq_false_iff, decide_eq_false_iff_not, Int64.lt_iff_toInt_lt, Int64.toInt_zero]
      exact ⟨by omega, by show ¬ (2 ^ 48 : Int) < _; omega⟩
    rw [hless]
    refine ⟨rfl, ⟨?_, ?_, Nat.zero_le _, fun s hs => ?_⟩, rfl, rfl⟩
    · show less.toInt.toNat ≤ size.toInt.toNat
      omega
    · show size.toInt.toNat < 2 ^ 62
      omega
    · cases hs

theorem finish_failed (hf : a.buf.failed = true) : a.finish frame = .error (.bailout a.buf.name a.buf.failure) := by
  rw [Assembler.finish, if_pos hf]

theorem working_of_finish {blob : CodeBlob} (h : b.finish frame = .ok blob) : b.buf.failed = false := by
  cases hf : b.buf.failed with
  | false => rfl
  | true =>
    rw [finish_failed hf] at h
    cases h

end

end RiscvJit
