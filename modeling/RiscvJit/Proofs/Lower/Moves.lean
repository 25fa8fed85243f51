import RiscvJit.Lower.Compile
import RiscvJit.Proofs.Lower.Agreement

/-
  RiscvJit.Proofs.Lower.Moves — values find their way to registers and slots.

  `Lowered is s s'` says that lowering appended instructions and did nothing else. Instructions
  realize a change of the activation when they take every machine that agrees with it before to
  one that agrees with it after (`Realizes`).

    - an operand's value is put into a register of its own, into the zero register or into a
      scratch register (`srcReg_provides`);
    - a register's value is stored to a slot (`slot_realizes`);
    - a move realizes its assignment (`move_realizes`).
-/

namespace RiscvJit

open Machine (Keeps)
open Location
open Lower

/-! ## Lowering one statement at a time -/

namespace Lower

variable {α β : Type} {t : Target} {s s' : Lowering}

theorem bind_eq_ok {x : Lower α} {f : α → Lower β} {r : β} :
    (x >>= f) t s = .ok (r, s') ↔ ∃ q s1, x t s = .ok (q, s1) ∧ f q t s1 = .ok (r, s') := by
  show (x t s >>= fun p => f p.1 t p.2) = _ ↔ _
  cases x t s with
  | error e =>
    refine ⟨fun h => ?_, fun ⟨q, s1, h, _⟩ => ?_⟩
    · cases h
    · cases h
  | ok p =>
    refine ⟨fun h => ⟨p.1, p.2, rfl, h⟩, fun ⟨q, s1, h, h'⟩ => ?_⟩
    cases h
    exact h'

variable {r : α}

theorem pure_eq_ok {q : α} : (pure r : Lower α) t s = .ok (q, s') ↔ q = r ∧ s' = s := by
  refine ⟨fun h => ?_, fun ⟨h, h'⟩ => ?_⟩
  · cases h
    exact ⟨rfl, rfl⟩
  · rw [h, h']
    rfl

theorem lift_eq_ok {e : Except Fault α} : (liftM e : Lower α) t s = .ok (r, s') ↔ e = .ok r ∧ s' = s := by
  cases e with
  | error f =>
    refine ⟨fun h => ?_, fun ⟨h, _⟩ => ?_⟩
    · cases h
    · cases h
  | ok q =>
    refine ⟨fun h => ?_, fun ⟨h, h'⟩ => ?_⟩
    · cases h
      exact ⟨rfl, rfl⟩
    · cases h
      rw [h']
      rfl

/-- A check or a look at an operand comes first. -/
theorem lift_bind_eq_ok {e : Except Fault α} {f : α → Lower β} {r : β} :
    ((liftM e : Lower α) >>= f) t s = .ok (r, s') ↔ ∃ q, e = .ok q ∧ f q t s = .ok (r, s') := by
  rw [bind_eq_ok]
  refine ⟨fun ⟨q, s1, he, hf⟩ => ?_, fun ⟨q, he, hf⟩ => ⟨q, s, lift_eq_ok.mpr ⟨he, rfl⟩, hf⟩⟩
  obtain ⟨hq, rfl⟩ := lift_eq_ok.mp he
  exact ⟨q, hq, hf⟩

theorem asm_eq_ok {x : Asm α} :
    (liftM x : Lower α) t s = .ok (r, s') ↔ ∃ a, x t s.asm = .ok (r, a) ∧ s' = { s with asm := a } := by
  simp only [liftM, monadLift, MonadLift.monadLift]
  cases x t s.asm with
  | error e => simp
  | ok p =>
    constructor
    · intro h
      cases h
      exact ⟨_, rfl, rfl⟩
    · rintro ⟨a, h, rfl⟩
      cases h
      rfl

theorem get_ok : (get : Lower Lowering) t s = .ok (s, s) := rfl

end Lower

/-- Lowering appended instructions and did nothing else. -/
structure Lowered (is : List Inst) (s s' : Lowering) : Prop where
  wrote : Wrote is s.asm s'.asm
  same : s' = { s with asm := s'.asm }

section
variable {is js : List Inst} {s s1 s' : Lowering} {t : Target}

theorem lowered_nil (s : Lowering) : Lowered [] s s := ⟨wrote_nil s.asm, rfl⟩

theorem Lowered.append (h : Lowered is s s1) (h' : Lowered js s1 s') : Lowered (is ++ js) s s' := by
  refine ⟨h.wrote.append h'.wrote, ?_⟩
  rw [h'.same, h.same]

theorem lowered_of_asm {x : Asm Unit} {P : List Inst → Prop} (h : (liftM x : Lower Unit) t s = .ok ((), s'))
    (hx : ∀ {a'}, x t s.asm = .ok ((), a') → ∃ is, Wrote is s.asm a' ∧ P is) : ∃ is, Lowered is s s' ∧ P is := by
  obtain ⟨a, ha, rfl⟩ := asm_eq_ok.mp h
  obtain ⟨is, hw, hp⟩ := hx ha
  exact ⟨is, ⟨hw, rfl⟩, hp⟩

end

/-- On machines that agree with an activation, the instructions do what `next` does on it. -/
def Realizes (frame : Int64) (is : List Inst) (next : Activation → Option Activation) : Prop :=
  ∀ (F : StackFrame) (M : Machine), F.Fits frame → ∀ s s' m, Agrees F M s m → next s = some s' →
    ∃ m', Runs F.Contains is m m' ∧ Agrees F M s' m'

/-! ## Operands that may be named -/

section
variable {op : Opcode} {what : String} {k : ValueKind} {r hi : Reg}

theorem allowed_register (h : checkOperand op what (.register k r hi) = .ok ()) :
    r = .zr ∨ r.isReserved = false := by
  rw [checkOperand] at h
  have := check_eq_ok.mp h
  simpa using this

theorem keeps_of_free {r : Reg} (hint : r.isInt = true) (hr : r.isReserved = false) : Keeps r := by
  refine ⟨Reg.ne_of_free hr rfl, ?_⟩
  rintro rfl
  cases hint

theorem keeps_scratch {r : Reg} (h : r ∈ scratchRegs) : Keeps r := by
  rcases List.mem_cons.mp h with rfl | h
  · decide
  · rw [List.mem_singleton.mp h]
    decide

end

/-! ## Constants and slots -/

section
variable {F : StackFrame} {M : Machine} {s s' : Lowering} {t : Target} {k : ValueKind} {frame : Int64}

variable {is : List Inst} {o src : Operand} {scratch r : Reg} {val : Machine → UInt64} {σ : Activation} {bits : UInt64}
  {n : Nat} {v : UInt64} {dst : Operand}

theorem toUInt64_longOfBits (hv : σ.read (.constant k bits) = some v) : (Operand.longOfBits k bits).toUInt64 = v := by
  cases k <;> cases hv <;> rfl

theorem constToReg_puts {rd : Reg} (hk : k = .int ∨ k = .long) (hrd : Keeps rd)
    (h : constToReg (.constant k bits) rd t s = .ok ((), s')) :
    ∃ is, Lowered is s s' ∧ Puts is rd [] fun _ => (Operand.longOfBits k bits).toUInt64 := by
  unfold constToReg at h
  obtain ⟨b, hb, h⟩ := lift_bind_eq_ok.mp h
  cases hb
  rcases hk with rfl | rfl <;> exact lowered_of_asm h (li_puts hrd)

/-- The width of a slot operand. -/
theorem stackLoadOp_facts (hk : k = .int ∨ k = .long) : (stackLoadOp k).info.format = .load ∧
    (stackLoadOp k).width = some k.size := by
  rcases hk with rfl | rfl <;> exact ⟨rfl, rfl⟩

theorem stackStoreOp_facts (hk : k = .int ∨ k = .long) : (stackStoreOp k).info.format = .store ∧
    (stackStoreOp k).width = some k.size := by
  rcases hk with rfl | rfl <;> exact ⟨rfl, rfl⟩

/-- A load from a slot gives the operand's value. -/
theorem Agrees.loaded {m : Machine} (h : Agrees F M σ m) (hF : F.Fits frame) (ho : (Operand.stack k n).Integral frame)
    (hv : σ.read (.stack k n) = some v) :
    (stackLoadOp k).extend (m.mem.read (m.get .sp + (slotBytes n).toUInt64) k.size) = v := by
  rw [StackFrame.Fits] at hF
  obtain ⟨hk, hn⟩ := ho
  rcases hk with rfl | rfl
  · cases hv
    have hn : (4 * n + 4 : Int) ≤ frame.toInt - 16 := hn
    show sext (m.mem.read _ 4).toUInt32 = _
    rw [h.int (by omega)]
  · cases hv
    have hn : (4 * n + 8 : Int) ≤ frame.toInt - 16 := hn
    exact h.long (by omega)

/-- A load from a slot into a register that is free for it. -/
theorem loadSlot_puts {rd tmp : Reg} (hk : k = .int ∨ k = .long) (hrd : Keeps rd) (htmp : Keeps tmp)
    (h : (liftM (Asm.loadOff (stackLoadOp k) rd .sp (slotBytes n) tmp) : Lower Unit) t s = .ok ((), s')) :
    ∃ is, Lowered is s s' ∧ Puts is rd [tmp] fun m => (stackLoadOp k).extend
      (m.mem.read (m.get .sp + (slotBytes n).toUInt64) k.size) := by
  obtain ⟨hf, hw⟩ := stackLoadOp_facts hk
  exact lowered_of_asm h (loadOff_puts hf hw hrd htmp)

/-- The instructions store a register to a slot. -/
def SlotStored (frame : Int64) (is : List Inst) (k : ValueKind) (n : Nat) (r : Reg) : Prop :=
  ∀ (F : StackFrame) (M : Machine), F.Fits frame → ∀ σ σ' m, Agrees F M σ m →
    σ.write (m.get r) (.stack k n) = some σ' → ∃ m', Runs F.Contains is m m' ∧ Agrees F M σ' m'

theorem slot_realizes (ho : (Operand.stack k n).Integral frame)
    (h : (liftM (Asm.storeOff (stackStoreOp k) r .sp (slotBytes n) .t0) : Lower Unit) t s = .ok ((), s')) :
    ∃ is, Lowered is s s' ∧ SlotStored frame is k n r := by
  obtain ⟨hk, hn⟩ := ho
  obtain ⟨hf, hw⟩ := stackStoreOp_facts hk
  obtain ⟨is, hl, hs⟩ := lowered_of_asm h (storeOff_stores hf hw (keeps_scratch (by decide)))
  refine ⟨is, hl, fun F M hF σ σ' m hagree hwrite => ?_⟩
  rw [StackFrame.Fits] at hF
  have hsize : 4 * n + k.size ≤ F.size - 16 := by
    have := F.room
    omega
  have haddr : m.get .sp + (slotBytes n).toUInt64 = F.base + UInt64.ofNat (4 * n) := by
    rw [hagree.sp, toUInt64_slotBytes]
  have hstore := hs F.Contains m
  simp only [haddr] at hstore
  obtain ⟨m', hruns, hmem, hrest⟩ := hstore (F.contains_at (by omega))
  have hregs : ∀ q, q ∉ scratchRegs → m'.get q = m.get q := fun q hq =>
    hrest q fun hmem => hq (by rw [List.mem_singleton.mp hmem]; decide)
  refine ⟨m', hruns, ?_⟩
  rcases hk with rfl | rfl
  · cases hwrite
    exact hagree.storeInt hsize hmem hregs
  · cases hwrite
    exact hagree.storeLong hsize hmem hregs

/-! ## Operands as sources -/

theorem read_register {hi : Reg} (hv : σ.read (.register k r hi) = some v) : σ.reg r = v := by
  cases k <;> first | cases hv; done | skip
  · rw [Activation.read] at hv
    split at hv <;> cases hv
    rfl
  · cases hv
    rfl

/-- A source register holds its operand's value, and only the scratch register was changed. -/
def Provides (frame : Int64) (is : List Inst) (o : Operand) (scratch r : Reg) : Prop :=
  ∀ (F : StackFrame) (M : Machine), F.Fits frame → ∀ σ m v, Agrees F M σ m → σ.read o = some v → ∃ m',
    Runs F.Contains is m m' ∧ Agrees F M σ m' ∧ m'.get r = v ∧ ∀ q, q ≠ scratch → m'.get q = m.get q

/-- Code that puts the value into the scratch register provides it there. -/
theorem Puts.provides (h : Puts is scratch [scratch] val) (hs : scratch ∈ scratchRegs)
    (hval : ∀ (F : StackFrame) (M : Machine), F.Fits frame → ∀ σ m v, Agrees F M σ m → σ.read o = some v → val m = v) :
    Provides frame is o scratch scratch := by
  intro F M hF σ m v hagree hv
  obtain ⟨m', hruns, hput⟩ := h F.Contains m
  refine ⟨m', hruns, hagree.scratch hs (fun r hr => List.mem_singleton.mp hr ▸ hs) hput, ?_, fun q hq => ?_⟩
  · rw [hput.value]
    exact hval F M hF σ m v hagree hv
  · exact hput.rest q hq (by simpa using hq)

theorem provides_self (hval : ∀ (F : StackFrame) (M : Machine) σ m v, Agrees F M σ m → σ.read o = some v → m.get r = v) :
    Provides frame [] o scratch r :=
  fun F M _ σ m v hagree hv => ⟨m, .nil m, hagree, hval F M σ m v hagree hv, fun _ _ => rfl⟩

/-- A register that a source may be in. -/
def SourceIn (scratch r : Reg) : Prop := r.isInt = true ∧ (r = scratch ∨ r = .zr ∨ r.isReserved = false)

theorem srcReg_provides {op : Opcode} {what : String} (hs : scratch ∈ scratchRegs) (ho : o.Integral frame)
    (hallowed : checkOperand op what o = .ok ()) (h : srcReg o scratch t s = .ok (r, s')) :
    ∃ is, Lowered is s s' ∧ SourceIn scratch r ∧ Provides frame is o scratch r := by
  have hscratch : SourceIn scratch scratch := by
    refine ⟨?_, .inl rfl⟩
    rcases List.mem_cons.mp hs with rfl | hs
    · rfl
    · rw [List.mem_singleton.mp hs]
      rfl
  unfold srcReg at h
  cases o with
  | register k lo hi =>
    obtain ⟨rfl, rfl⟩ := pure_eq_ok.mp h
    have hr := allowed_register hallowed
    refine ⟨[], lowered_nil s', ⟨ho.2, .inr hr⟩, provides_self fun F M σ m v hagree hv => ?_⟩
    rw [hagree.reg ho.2 hr, read_register hv]
  | constant k bits =>
    dsimp only at h
    by_cases hz : bits = 0
    · rw [if_pos hz] at h
      obtain ⟨rfl, rfl⟩ := pure_eq_ok.mp h
      refine ⟨[], lowered_nil s', ⟨rfl, .inr (.inl rfl)⟩, provides_self fun F M σ m v hagree hv => ?_⟩
      rw [← toUInt64_longOfBits hv, hz]
      rcases ho with rfl | rfl <;> rfl
    · rw [if_neg hz] at h
      obtain ⟨_, s1, hconst, hret⟩ := bind_eq_ok.mp h
      obtain ⟨rfl, rfl⟩ := pure_eq_ok.mp hret
      obtain ⟨is, hl, hp⟩ := constToReg_puts ho (keeps_scratch hs) hconst
      exact ⟨is, hl, hscratch, (hp.weaken (by simp)).provides hs fun F M _ σ m v _ hv => toUInt64_longOfBits hv⟩
  | stack k n =>
    obtain ⟨_, s1, hload, hret⟩ := bind_eq_ok.mp h
    obtain ⟨rfl, rfl⟩ := pure_eq_ok.mp hret
    obtain ⟨is, hl, hp⟩ := loadSlot_puts ho.1 (keeps_scratch hs) (keeps_scratch hs) hload
    exact ⟨is, hl, hscratch, hp.provides hs fun F M hF σ m v hagree hv => hagree.loaded hF ho hv⟩
  | absent => exact ho.elim
  | floatRegister k r => exact ho.elim
  | memory k a => exact ho.elim

/-! ## Moves -/

/-- What a move does. -/
def assign (src dst : Operand) (σ : Activation) : Option Activation := (σ.read src).bind fun v => σ.write v dst

theorem assign_eq_some {σ' : Activation} (h : assign src dst σ = some σ') :
    ∃ v, σ.read src = some v ∧ σ.write v dst = some σ' := Option.bind_eq_some_iff.mp h

/-- Code that puts a value into a result register. -/
theorem Puts.writes {hi : Reg} {tmps : List Reg} (h : Puts is r tmps val) (hint : r.isInt = true)
    (hr : r.isReserved = false) (htmps : ∀ q ∈ tmps, q = r ∨ q ∈ scratchRegs) {σ' : Activation} {m : Machine}
    (hagree : Agrees F M σ m) (hwrite : σ.write (val m) (.register k r hi) = some σ') :
    ∃ m', Runs F.Contains is m m' ∧ Agrees F M σ' m' := by
  obtain ⟨m', hruns, hput⟩ := h F.Contains m
  cases r with
  | x n =>
    cases hwrite
    exact ⟨m', hruns, hagree.put hr htmps hput⟩
  | f n => cases hint
  | none => cases hint

theorem Puts.realizes {hi : Reg} {tmps : List Reg} {next : Activation → Option UInt64} (h : Puts is r tmps val)
    (hint : r.isInt = true) (hr : r.isReserved = false) (htmps : ∀ q ∈ tmps, q = r ∨ q ∈ scratchRegs)
    (hval : ∀ (F : StackFrame) (M : Machine), F.Fits frame → ∀ σ m v, Agrees F M σ m → next σ = some v → val m = v) :
    Realizes frame is fun σ => (next σ).bind fun v => σ.write v (.register k r hi) := by
  intro F M hF σ σ' m hagree hσ
  obtain ⟨v, hv, hwrite⟩ := Option.bind_eq_some_iff.mp hσ
  rw [← hval F M hF σ m v hagree hv] at hwrite
  exact h.writes hint hr htmps hagree hwrite

/-- A source's value goes from its register to a slot. -/
theorem Provides.stores {js : List Inst} (h : Provides frame is src scratch r) (h' : SlotStored frame js k n r) :
    Realizes frame (is ++ js) (assign src (.stack k n)) := by
  intro F M hF σ σ' m hagree hσ
  obtain ⟨v, hv, hwrite⟩ := assign_eq_some hσ
  obtain ⟨m1, hruns, hagree1, hval, -⟩ := h F M hF σ m v hagree hv
  rw [← hval] at hwrite
  obtain ⟨m', hruns', hagree'⟩ := h' F M hF σ σ' m1 hagree1 hwrite
  exact ⟨m', hruns.append hruns', hagree'⟩

/-- A result that may be written. -/
def Operand.Free : Operand → Prop
  | .register _ r _ => r.isReserved = false
  | _ => True

theorem moveFromReg_realizes {hi : Reg} (hr : r = .zr ∨ r.isReserved = false)
    (ho : (Operand.register k r hi).Integral frame) (hd : dst.Integral frame) (hfree : dst.Free)
    (h : moveFromReg (.register k r hi) r dst t s = .ok ((), s')) :
    ∃ is, Lowered is s s' ∧ Realizes frame is (assign (.register k r hi) dst) := by
  have hval (F : StackFrame) (M : Machine) (σ : Activation) (m : Machine) (v : UInt64) (hagree : Agrees F M σ m)
      (hv : σ.read (.register k r hi) = some v) : m.get r = v := by
    rw [hagree.reg ho.2 hr, read_register hv]
  unfold moveFromReg at h
  cases dst with
  | register k' rd hi' =>
    obtain ⟨is, hl, hp⟩ := lowered_of_asm h (mv_puts (keeps_of_free hd.2 hfree)
      (by cases rd <;> first | rfl | cases hd.2))
    exact ⟨is, hl, hp.realizes hd.2 hfree (by simp) fun F M _ => hval F M⟩
  | stack k' n =>
    obtain ⟨is, hl, hslot⟩ := slot_realizes hd h
    have hprovides : Provides frame [] (.register k r hi) .t0 r := provides_self hval
    exact ⟨is, hl, hprovides.stores hslot⟩
  | absent => exact hd.elim
  | floatRegister k r => exact hd.elim
  | constant k bits => cases h
  | memory k a => exact hd.elim

theorem moveFromStack_realizes (ho : (Operand.stack k n).Integral frame) (hd : dst.Integral frame) (hfree : dst.Free)
    (hkind : dst.kind = k) (h : moveFromStack (.stack k n) k n dst t s = .ok ((), s')) :
    ∃ is, Lowered is s s' ∧ Realizes frame is (assign (.stack k n) dst) := by
  unfold moveFromStack at h
  cases dst with
  | register k' rd hi =>
    have hkeeps := keeps_of_free hd.2 hfree
    obtain ⟨is, hl, hp⟩ := loadSlot_puts ho.1 hkeeps hkeeps h
    exact ⟨is, hl, hp.realizes hd.2 hfree (by simp) fun F M hF σ m v hagree hv => hagree.loaded hF ho hv⟩
  | stack k' n' =>
    obtain rfl : k' = k := hkind
    obtain ⟨_, s1, hload, hstore⟩ := bind_eq_ok.mp h
    have hscratch : Reg.t1 ∈ scratchRegs := by decide
    have eload : (if k'.is64 then Op.ld else .lw) = stackLoadOp k' := by rcases ho.1 with rfl | rfl <;> rfl
    have estore : (if k'.is64 then Op.sd else .sw) = stackStoreOp k' := by rcases ho.1 with rfl | rfl <;> rfl
    rw [eload] at hload
    rw [estore] at hstore
    obtain ⟨is, hl, hp⟩ := loadSlot_puts ho.1 (keeps_scratch hscratch) (keeps_scratch hscratch) hload
    obtain ⟨js, hl', hslot⟩ := slot_realizes hd hstore
    have hprovides : Provides frame is (.stack k' n) .t1 .t1 :=
      hp.provides hscratch fun F M hF σ m v hagree hv => hagree.loaded hF ho hv
    exact ⟨is ++ js, hl.append hl', hprovides.stores hslot⟩
  | absent => exact hd.elim
  | floatRegister k r => exact hd.elim
  | constant k bits => cases h
  | memory k a => exact hd.elim

theorem moveFromConst_realizes (ho : (Operand.constant k bits).Integral frame) (hd : dst.Integral frame)
    (hfree : dst.Free)
    (h : moveFromConst (.constant k bits) bits dst t s = .ok ((), s')) :
    ∃ is, Lowered is s s' ∧ Realizes frame is (assign (.constant k bits) dst) := by
  unfold moveFromConst at h
  cases dst with
  | register k' rd hi =>
    obtain ⟨is, hl, hp⟩ := constToReg_puts ho (keeps_of_free hd.2 hfree) h
    exact ⟨is, hl, hp.realizes hd.2 hfree (by simp) fun F M _ σ m v _ hv => toUInt64_longOfBits hv⟩
  | stack k' n =>
    dsimp only at h
    by_cases hz : bits = 0
    · rw [if_pos hz] at h
      obtain ⟨is, hl, hslot⟩ := slot_realizes hd h
      have hprovides : Provides frame [] (.constant k bits) .t0 .zr := by
        refine provides_self fun F M σ m v _ hv => ?_
        rw [← toUInt64_longOfBits hv, hz]
        rcases ho with rfl | rfl <;> rfl
      exact ⟨is, hl, hprovides.stores hslot⟩
    · rw [if_neg hz] at h
      obtain ⟨_, s1, hconst, hstore⟩ := bind_eq_ok.mp h
      have hscratch : Reg.t1 ∈ scratchRegs := by decide
      obtain ⟨is, hl, hp⟩ := constToReg_puts ho (keeps_scratch hscratch) hconst
      obtain ⟨js, hl', hslot⟩ := slot_realizes hd hstore
      have hprovides : Provides frame is (.constant k bits) .t1 .t1 :=
        (hp.weaken (by simp)).provides hscratch fun F M _ σ m v _ hv => toUInt64_longOfBits hv
      exact ⟨is ++ js, hl.append hl', hprovides.stores hslot⟩
  | absent => exact hd.elim
  | floatRegister k r => exact hd.elim
  | constant k bits => cases h
  | memory k a => exact hd.elim

theorem move_realizes {op : Opcode} {what : String} (ho : src.Integral frame)
    (hallowed : checkOperand op what src = .ok ()) (hd : dst.Integral frame) (hfree : dst.Free)
    (hkind : src.kind = dst.kind) (h : move src dst t s = .ok ((), s')) :
    ∃ is, Lowered is s s' ∧ Realizes frame is (assign src dst) := by
  unfold move at h
  cases src with
  | register k r hi => exact moveFromReg_realizes (allowed_register hallowed) ho hd hfree h
  | stack k n => exact moveFromStack_realizes ho hd hfree hkind.symm h
  | constant k bits => exact moveFromConst_realizes ho hd hfree h
  | absent => exact ho.elim
  | floatRegister k r => exact ho.elim
  | memory k a => exact ho.elim

end

end RiscvJit
