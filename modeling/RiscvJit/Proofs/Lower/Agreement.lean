import RiscvJit.Proofs.Code.Straight

/-
  RiscvJit.Proofs.Lower.Agreement — what a method of integers does, and machines that do it.

  An activation is a method in execution: the instruction that is next, the registers, and the
  32-bit slots of its stack. An int in a register is held sign-extended, and an int register
  is only read when it holds one; a long takes two slots, the low half in the first. Arithmetic
  wraps around, shifts take their counts modulo the width, and `be` and `ae` compare without
  sign.

  `Instruction.Integral` is the fragment: moves, arithmetic, shifts and jumps on operands of kind
  int or long that live in integer registers, in constants, or in slots below the saved
  registers of the frame.
-/

namespace RiscvJit

open Ram

/-! ## Values -/

/-- Two halves of a long. -/
def joinHalves (lo hi : UInt32) : UInt64 := lo.toUInt64 ||| hi.toUInt64 <<< 32

namespace Opcode

/-- The result of an operation on two ints. -/
def onInts : Opcode → UInt32 → UInt32 → Option UInt32
  | add, a, b => some (a + b)
  | sub, a, b => some (a - b)
  | mul, a, b => some (a * b)
  | and, a, b => some (a &&& b)
  | or, a, b => some (a ||| b)
  | xor, a, b => some (a ^^^ b)
  | shl, a, n => some (a <<< (n &&& 31))
  | shr, a, n => some (a.toInt32 >>> (n &&& 31).toInt32).toUInt32
  | ushr, a, n => some (a >>> (n &&& 31))
  | _, _, _ => none

/-- The result of an operation on two longs, or on a long and a count. -/
def onLongs : Opcode → UInt64 → UInt64 → Option UInt64
  | add, a, b => some (a + b)
  | sub, a, b => some (a - b)
  | mul, a, b => some (a * b)
  | and, a, b => some (a &&& b)
  | or, a, b => some (a ||| b)
  | xor, a, b => some (a ^^^ b)
  | shl, a, n => some (a <<< (n &&& 63))
  | shr, a, n => some (a.toInt64 >>> (n &&& 63).toInt64).toUInt64
  | ushr, a, n => some (a >>> (n &&& 63))
  | _, _, _ => none

/-- The result of an operation on values of a kind, ints sign-extended. -/
def result? (op : Opcode) (k : ValueKind) (a b : UInt64) : Option UInt64 :=
  match k with
  | .int => (op.onInts a.toUInt32 b.toUInt32).map sext
  | .long => op.onLongs a b
  | _ => none

end Opcode

/-- The number that a value of a kind stands for. -/
def signedOf (k : ValueKind) (v : UInt64) : Int := if k = .int then v.toUInt32.toInt32.toInt else v.toInt64.toInt

/-- The number that a value of a kind stands for without sign. -/
def unsignedOf (k : ValueKind) (v : UInt64) : Nat := if k = .int then v.toUInt32.toNat else v.toNat

/-- Two values of a kind compare as the condition says. -/
def Condition.holds? (c : Condition) (k : ValueKind) (a b : UInt64) : Option Bool :=
  match c with
  | .eq => some (signedOf k a = signedOf k b)
  | .ne => some (signedOf k a ≠ signedOf k b)
  | .lt => some (signedOf k a < signedOf k b)
  | .le => some (signedOf k a ≤ signedOf k b)
  | .gt => some (signedOf k b < signedOf k a)
  | .ge => some (signedOf k b ≤ signedOf k a)
  | .be => some (unsignedOf k a ≤ unsignedOf k b)
  | .ae => some (unsignedOf k b ≤ unsignedOf k a)
  | .always | .unknown _ => none

/-- The kind in which two values are compared: a long against an int widens the int. -/
def comparedAs (k k' : ValueKind) : ValueKind := if k = .int ∧ k' = .int then .int else .long

/-! ## Activations -/

/-- A method in execution. -/
structure Activation where
  /-- Index of the instruction that is next. -/
  next : Nat
  regs : Fin 32 → UInt64
  slots : Nat → UInt32

namespace Activation

/-- What a register holds. -/
def reg (s : Activation) : Reg → UInt64
  | .x n => if n = 0 then 0 else s.regs n
  | _ => 0

/-- The value of an operand. An int register that holds no int has none. -/
def read (s : Activation) : Operand → Option UInt64
  | .register .int r _ => if sext (s.reg r).toUInt32 = s.reg r then some (s.reg r) else none
  | .register .long r _ => some (s.reg r)
  | .constant .int bits => some (sext bits.toUInt32)
  | .constant .long bits => some bits
  | .stack .int n => some (sext (s.slots n))
  | .stack .long n => some (joinHalves (s.slots n) (s.slots (n + 1)))
  | _ => none

/-- A register receives a value. -/
def setReg (s : Activation) (n : Fin 32) (v : UInt64) : Activation :=
  { s with regs := fun k => if k = n then v else s.regs k }

/-- A slot receives a word. -/
def setSlot (s : Activation) (n : Nat) (w : UInt32) : Activation :=
  { s with slots := fun k => if k = n then w else s.slots k }

/-- An operand receives a value. -/
def write (s : Activation) (v : UInt64) : Operand → Option Activation
  | .register _ (.x n) _ => some (s.setReg n v)
  | .stack .int n => some (s.setSlot n v.toUInt32)
  | .stack .long n => some ((s.setSlot n v.toUInt32).setSlot (n + 1) (v >>> 32).toUInt32)
  | _ => none

/-- The instruction after this one is next. -/
def advance (s : Activation) : Activation := { s with next := s.next + 1 }

/-- What an instruction that assigns its result computes. -/
def value (s : Activation) (i : Instruction) : Option UInt64 := do
  let left ← i.inputs[0]?
  let a ← s.read left
  match i.op with
  | .move => some a
  | .neg => Opcode.sub.result? left.kind 0 a
  | op =>
    let b ← s.read (← i.inputs[1]?)
    op.result? left.kind a b

/-- Whether a conditional jump is taken. -/
def decides (s : Activation) (i : Instruction) : Option Bool :=
  if i.cond = .always then some true
  else do
    let left ← i.inputs[0]?
    let right ← i.inputs[1]?
    i.cond.holds? (comparedAs left.kind right.kind) (← s.read left) (← s.read right)

end Activation

/-! ## Execution -/

/-- How far an execution has come. -/
inductive Standing where
  | running (s : Activation)
  /-- The method was left, with its result if it has one. -/
  | returned (result : Option UInt64)

namespace Program

/-- The place where a label is bound. -/
def place? (p : Program) (l : LabelId) : Option Nat :=
  p.code.toList.findIdx? fun i => i.op = .label ∧ i.label = l

/-- Go on at a label. -/
def jump? (p : Program) (l : LabelId) (s : Activation) : Option Standing :=
  (p.place? l).map fun n => .running { s with next := n }

/-- Execute the next instruction. -/
def step? (p : Program) (s : Activation) : Option Standing := do
  let i ← p.code[s.next]?
  match i.op with
  | .label | .nop => some (.running s.advance)
  | .branch => p.jump? i.target s
  | .cmpBranch => if ← s.decides i then p.jump? i.target s else some (.running s.advance)
  | .ret =>
    match i.inputs[0]? with
    | none => some (.returned none)
    | some o => return .returned (some (← s.read o))
  | _ =>
    let s' ← s.write (← s.value i) i.result
    return .running s'.advance

/-- Execute that many instructions. -/
def run? (p : Program) (s : Activation) : Nat → Option Standing
  | 0 => some (.running s)
  | n + 1 => match p.run? s n with
    | some (.running s') => p.step? s'
    | _ => none

end Program

/-! ## The fragment -/

/-- An operand of kind int or long: an integer register, a constant, or a slot of the frame below
the saved registers. -/
def Operand.Integral (frame : Int64) : Operand → Prop
  | .register k r _ => (k = .int ∨ k = .long) ∧ r.isInt = true
  | .constant k _ => k = .int ∨ k = .long
  | .stack k n => (k = .int ∨ k = .long) ∧ (4 * n + k.size : Int) ≤ frame.toInt - 16
  | _ => False

/-- An instruction on ints and longs. -/
def Instruction.Integral (frame : Int64) (i : Instruction) : Prop :=
  match i.op with
  | .label | .nop | .branch => True
  | .move | .neg =>
    i.result.Integral frame ∧ ∀ o, i.inputs[0]? = some o → o.Integral frame ∧ o.kind = i.result.kind
  | .add | .sub | .mul | .and | .or | .xor =>
    i.result.Integral frame ∧ ∀ n < 2, ∀ o, i.inputs[n]? = some o → o.Integral frame ∧ o.kind = i.result.kind
  | .shl | .shr | .ushr =>
    i.result.Integral frame ∧ (∀ o, i.inputs[0]? = some o → o.Integral frame ∧ o.kind = i.result.kind) ∧
      ∀ o, i.inputs[1]? = some o → o.Integral frame ∧ o.kind = .int
  | .cmpBranch => i.cond = .always ∨ ∀ n < 2, ∀ o, i.inputs[n]? = some o → o.Integral frame
  | .ret => ∀ o, i.inputs[0]? = some o → o.Integral frame
  | _ => False

/-- A program on ints and longs. -/
def Program.Integral (p : Program) : Prop := ∀ i ∈ p.code.toList, i.Integral p.frameSize

/-! ## Agreement

`Agrees F M s m`: the machine `m`, which entered the method as `M`, holds the activation `s` in
the frame `F`. Registers that operands may name have the activation's values, the slots of the
frame its words, the stack pointer is at the bottom of the frame, the caller's return address
and frame pointer are saved at its top, and nothing outside the frame was changed.

  - what an operand stands for is found in the machine (`Agrees.reg`, `Agrees.int`,
    `Agrees.long`);
  - code that puts a value into a register keeps the agreement (`Agrees.put`), also when it is
    a scratch register (`Agrees.scratch`);
  - so does code that stores to a slot (`Agrees.storeInt`, `Agrees.storeLong`). -/

/-- The frame of a method: its lowest address and its size. -/
structure StackFrame where
  base : UInt64
  size : Nat
  /-- There is room for the saved registers. -/
  room : 16 ≤ size
  small : size < 2 ^ 63

/-- The frame has the size that the program asks for. -/
def StackFrame.Fits (F : StackFrame) (frame : Int64) : Prop := (F.size : Int) = frame.toInt

/-- The address is one of the frame. -/
def StackFrame.Contains (F : StackFrame) (addr : UInt64) : Prop := (addr - F.base).toNat < F.size

/-- Bytes at an offset of the frame are bytes of the frame. -/
theorem StackFrame.contains_at (F : StackFrame) {x n : Nat} (h : x + n ≤ F.size) :
    ∀ i < n, F.Contains (F.base + UInt64.ofNat x + UInt64.ofNat i) := by
  intro i hi
  have hsmall := F.small
  have e : F.base + UInt64.ofNat x + UInt64.ofNat i - F.base = UInt64.ofNat (x + i) := by
    rw [UInt64.add_assoc, ← UInt64.ofNat_add, add_sub_self]
  rw [StackFrame.Contains, e, UInt64.toNat_ofNat', Nat.mod_eq_of_lt (by omega)]
  omega

theorem StackFrame.write_outside (F : StackFrame) {x n : Nat} (h : x + n ≤ F.size) (mem : Ram) (v : UInt64)
    {addr : UInt64} (ha : ¬ F.Contains addr) : mem.write (F.base + UInt64.ofNat x) n v addr = mem addr := by
  refine Ram.write_outside mem v (Nat.le_of_not_lt fun hlt => ha ?_)
  have := F.contains_at h _ hlt
  rwa [UInt64.ofNat_toNat, UInt64.add_comm, UInt64.sub_add_cancel] at this

/-- The machine holds the activation. -/
structure Agrees (F : StackFrame) (M : Machine) (s : Activation) (m : Machine) : Prop where
  regs : ∀ n, (Reg.x n).isReserved = false → m.get (.x n) = s.regs n
  sp : m.get .sp = F.base
  slots : ∀ n, 4 * n + 4 ≤ F.size - 16 → (m.mem.read (F.base + UInt64.ofNat (4 * n)) 4).toUInt32 = s.slots n
  ra : m.mem.read (F.base + UInt64.ofNat (F.size - 8)) 8 = M.get .ra
  fp : m.mem.read (F.base + UInt64.ofNat (F.size - 16)) 8 = M.get .fp
  outside : ∀ addr, ¬ F.Contains addr → m.mem addr = M.mem addr

/-- The two registers that sequences may change. -/
def scratchRegs : List Reg := [.t0, .t1]

theorem not_scratch {r : Reg} (h : r.isReserved = false) : r ∉ scratchRegs := Reg.not_mem_of_free h (by decide)

/-! ## Slots in memory -/

variable (mem : Ram) (addr v : UInt64)

theorem toUInt32_read_write : ((mem.write addr 4 v).read addr 4).toUInt32 = v.toUInt32 := by
  apply UInt32.toNat_inj.mp
  rw [UInt64.toNat_toUInt32, UInt64.toNat_toUInt32, read_write mem addr v (by decide)]
  omega

theorem read_write_eight : (mem.write addr 8 v).read addr 8 = v := by
  apply UInt64.toNat_inj.mp
  rw [read_write mem addr v (by decide)]
  exact Nat.mod_eq_of_lt v.toNat_lt

theorem toUInt32_read_low : ((mem.write addr 8 v).read addr 4).toUInt32 = v.toUInt32 := by
  apply UInt32.toNat_inj.mp
  rw [UInt64.toNat_toUInt32, UInt64.toNat_toUInt32, toNat_read _ 4 addr v (by decide) fun i hi =>
    write_inside mem addr v (by omega) (by decide)]
  omega

theorem toUInt32_read_high : ((mem.write addr 8 v).read (addr + 4) 4).toUInt32 = (v >>> 32).toUInt32 := by
  have h := toNat_read_eight (mem.write addr 8 v) addr
  rw [read_write_eight] at h
  have hlo := toNat_read_lt (mem.write addr 8 v) (n := 4) addr (by decide)
  apply UInt32.toNat_inj.mp
  rw [UInt64.toNat_toUInt32, UInt64.toNat_toUInt32, UInt64.toNat_shiftRight, show UInt64.toNat 32 % 64 = 32 from rfl,
    Nat.shiftRight_eq_div_pow]
  omega

theorem read_eight_halves : mem.read addr 8 = joinHalves (mem.read addr 4).toUInt32 (mem.read (addr + 4) 4).toUInt32 := by
  have hlo := toNat_read_lt mem (n := 4) addr (by decide)
  have hhi := toNat_read_lt mem (n := 4) (addr + 4) (by decide)
  apply UInt64.toNat_inj.mp
  rw [toNat_read_eight, joinHalves, UInt64.toNat_or, UInt64.toNat_shiftLeft, UInt32.toNat_toUInt64,
    UInt32.toNat_toUInt64, UInt64.toNat_toUInt32, UInt64.toNat_toUInt32, show UInt64.toNat 32 % 64 = 32 from rfl,
    Nat.shiftLeft_eq, Nat.mod_eq_of_lt hlo, Nat.mod_eq_of_lt hhi, Nat.mod_eq_of_lt (by omega), Nat.or_comm, Nat.mul_comm,
    ← Nat.two_pow_add_eq_or_of_lt hlo]
  omega

theorem slot_next (base : UInt64) (n : Nat) :
    base + UInt64.ofNat (4 * n) + 4 = base + UInt64.ofNat (4 * (n + 1)) := by
  rw [UInt64.add_assoc, show 4 * (n + 1) = 4 * n + 4 by omega, UInt64.ofNat_add]
  rfl

theorem toUInt64_slotBytes (n : Nat) : (Location.slotBytes n).toUInt64 = UInt64.ofNat (4 * n) := by
  rw [Location.slotBytes, Int64.toUInt64_mul, Int64.toUInt64_ofNat', Nat.mul_comm, UInt64.ofNat_mul]
  rfl

/-! ## Reading -/

section
variable {F : StackFrame} {M m m' : Machine} {s : Activation}

theorem Agrees.reg (h : Agrees F M s m) {r : Reg} (hint : r.isInt = true) (hr : r = .zr ∨ r.isReserved = false) :
    m.get r = s.reg r := by
  cases r with
  | x n =>
    rcases hr with hz | hr
    · cases hz
      rfl
    · have hn : n ≠ 0 := by rintro rfl; exact absurd hr (by decide)
      rw [h.regs n hr, Activation.reg, if_neg hn]
  | f n => cases hint
  | none => cases hint

variable {n : Nat} {v : UInt64}

theorem Agrees.int (h : Agrees F M s m) (hn : 4 * n + 4 ≤ F.size - 16) :
    (m.mem.read (m.get .sp + (Location.slotBytes n).toUInt64) 4).toUInt32 = s.slots n := by
  rw [h.sp, toUInt64_slotBytes, h.slots n hn]

theorem Agrees.long (h : Agrees F M s m) (hn : 4 * n + 8 ≤ F.size - 16) :
    m.mem.read (m.get .sp + (Location.slotBytes n).toUInt64) 8 = joinHalves (s.slots n) (s.slots (n + 1)) := by
  rw [h.sp, toUInt64_slotBytes, read_eight_halves, slot_next, h.slots n (by omega), h.slots (n + 1) (by omega)]

/-! ## Keeping the agreement -/

/-- Where the machine stands does not matter. -/
theorem Agrees.withPc (h : Agrees F M s m) (pc : UInt64) : Agrees F M s { m with pc } where
  regs n hn := (Machine.get_withPc m pc _).trans (h.regs n hn)
  sp := (Machine.get_withPc m pc _).trans h.sp
  slots := h.slots
  ra := h.ra
  fp := h.fp
  outside := h.outside

/-- Nor does which instruction is next. -/
theorem Agrees.withNext (h : Agrees F M s m) (next : Nat) : Agrees F M { s with next } m :=
  ⟨h.regs, h.sp, h.slots, h.ra, h.fp, h.outside⟩

/-- The activation's own registers and memory are as they were. -/
theorem Agrees.scratch (h : Agrees F M s m) {r : Reg} {tmps : List Reg} (hr : r ∈ scratchRegs)
    (htmps : ∀ r ∈ tmps, r ∈ scratchRegs) (hput : Put r tmps v m m') : Agrees F M s m' := by
  have keep {q : Reg} (hq : q ∉ scratchRegs) : m'.get q = m.get q :=
    hput.rest q (fun e => hq (e ▸ hr)) fun hmem => hq (htmps q hmem)
  refine ⟨fun n hn => ?_, ?_, ?_, ?_, ?_, ?_⟩
  · rw [keep (not_scratch hn)]
    exact h.regs n hn
  · rw [keep (by decide)]
    exact h.sp
  · rw [hput.mem]; exact h.slots
  · rw [hput.mem]; exact h.ra
  · rw [hput.mem]; exact h.fp
  · rw [hput.mem]; exact h.outside

theorem Agrees.put (h : Agrees F M s m) {n : Fin 32} {tmps : List Reg} (hn : (Reg.x n).isReserved = false)
    (htmps : ∀ r ∈ tmps, r = .x n ∨ r ∈ scratchRegs) (hput : Put (.x n) tmps v m m') : Agrees F M (s.setReg n v) m' := by
  have keep {q : Reg} (hq : q ∉ scratchRegs) (hne : q ≠ .x n) : m'.get q = m.get q := by
    refine hput.rest q hne fun hmem => ?_
    rcases htmps q hmem with e | hs
    · exact hne e
    · exact hq hs
  refine ⟨fun k hk => ?_, ?_, ?_, ?_, ?_, ?_⟩
  · show m'.get (.x k) = if k = n then v else s.regs k
    by_cases e : k = n
    · rw [if_pos e, e]
      exact hput.value
    · rw [if_neg e, keep (not_scratch hk) (fun h => e (Reg.x.inj h))]
      exact h.regs k hk
  · rw [keep (by decide) (by rintro e; rw [← e] at hn; exact absurd hn (by decide))]
    exact h.sp
  · rw [hput.mem]; exact h.slots
  · rw [hput.mem]; exact h.ra
  · rw [hput.mem]; exact h.fp
  · rw [hput.mem]; exact h.outside

/-- A store below the saved registers. -/
theorem Agrees.store (h : Agrees F M s m) {s' : Activation} {x : Nat} (hx : x + n ≤ F.size - 16)
    (hmem : m'.mem = m.mem.write (F.base + UInt64.ofNat x) n v) (hregs : ∀ r, r ∉ scratchRegs → m'.get r = m.get r)
    (hsame : s'.regs = s.regs) (hslots : ∀ k, 4 * k + 4 ≤ F.size - 16 →
      (m'.mem.read (F.base + UInt64.ofNat (4 * k)) 4).toUInt32 = s'.slots k) : Agrees F M s' m' := by
  have hroom := F.room
  have hsmall := F.small
  refine ⟨fun k hk => ?_, ?_, hslots, ?_, ?_, ?_⟩
  · rw [hregs _ (not_scratch hk), hsame]
    exact h.regs k hk
  · rw [hregs _ (by decide)]
    exact h.sp
  · rw [hmem, read_write_apart _ _ _ (by omega)]
    exact h.ra
  · rw [hmem, read_write_apart _ _ _ (by omega)]
    exact h.fp
  · intro addr haddr
    rw [hmem, F.write_outside (by omega) _ _ haddr]
    exact h.outside addr haddr

theorem Agrees.storeInt (h : Agrees F M s m) (hn : 4 * n + 4 ≤ F.size - 16)
    (hmem : m'.mem = m.mem.write (F.base + UInt64.ofNat (4 * n)) 4 v)
    (hregs : ∀ r, r ∉ scratchRegs → m'.get r = m.get r) :
    Agrees F M (s.setSlot n v.toUInt32) m' := by
  refine h.store hn hmem hregs rfl fun k hk => ?_
  have hsmall := F.small
  show _ = if k = n then v.toUInt32 else s.slots k
  by_cases e : k = n
  · rw [if_pos e, e, hmem, toUInt32_read_write]
  · rw [if_neg e, hmem, read_write_apart _ _ _ (by omega)]
    exact h.slots k hk

theorem Agrees.storeLong (h : Agrees F M s m) (hn : 4 * n + 8 ≤ F.size - 16)
    (hmem : m'.mem = m.mem.write (F.base + UInt64.ofNat (4 * n)) 8 v)
    (hregs : ∀ r, r ∉ scratchRegs → m'.get r = m.get r) :
    Agrees F M ((s.setSlot n v.toUInt32).setSlot (n + 1) (v >>> 32).toUInt32) m' := by
  refine h.store hn hmem hregs rfl fun k hk => ?_
  have hsmall := F.small
  show _ = if k = n + 1 then (v >>> 32).toUInt32 else if k = n then v.toUInt32 else s.slots k
  by_cases e : k = n + 1
  · rw [if_pos e, e, hmem, ← slot_next, toUInt32_read_high]
  · rw [if_neg e]
    by_cases e' : k = n
    · rw [if_pos e', e', hmem, toUInt32_read_low]
    · rw [if_neg e', hmem, read_write_apart _ _ _ (by omega)]
      exact h.slots k hk

end

end RiscvJit
