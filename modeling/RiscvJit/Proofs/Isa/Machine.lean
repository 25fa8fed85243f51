import RiscvJit.Code.Buffer
import RiscvJit.Isa.Encode

/-
  RiscvJit.Proofs.Isa.Machine — what the instructions do.

  A machine has two files of registers, a program counter and bytes of memory. `Machine.step`
  fetches the word at the program counter, decodes it and executes it. Instructions of one
  format share a rule; they differ in what they compute (`Op.compute`), when they branch
  (`Op.taken`) and how wide they access memory (`Op.width`). Of the float instructions those that
  move bits are modelled, with doubles for signs, and those that compare (`FloatFormat.compare`);
  arithmetic and conversions are outside the model and have no step, nor have calls of the
  environment.

  Facts about memory:
    - a range of bytes reads back what was written to it (`read_write`);
    - bytes outside a written range are as before (`write_outside`);
    - the word at an address depends on its bytes only (`toNat_read`).
-/

namespace RiscvJit

open CodeBuffer

/-- A 32-bit word as a 64-bit register holds it. -/
def sext (w : UInt32) : UInt64 := w.toInt32.toInt64.toUInt64

/-- A 32-bit word as a float register holds it. -/
def boxed (w : UInt64) : UInt64 := 0xffffffff00000000 ||| w

/-! ## How floats compare -/

/-- What two floats are to each other. -/
inductive FloatOrder where
  | less
  | equal
  | greater
  /-- One of them is not a number. -/
  | unordered
  deriving DecidableEq, Repr

/-- A format of floats: the sign stands above the magnitude. -/
structure FloatFormat where
  magnitudeBits : Nat
  /-- The greatest magnitude that is one of a number. -/
  infinity : Nat

namespace FloatFormat

def single : FloatFormat := ⟨31, 0x7f800000⟩
def double : FloatFormat := ⟨63, 0x7ff0000000000000⟩

variable (F : FloatFormat)

def magnitude (v : UInt64) : Nat := v.toNat % 2 ^ F.magnitudeBits

/-- The bits are no number. -/
def isNaN (v : UInt64) : Bool := F.infinity < F.magnitude v

/-- Numbers in the order of the floats. Both zeros are one. -/
def rank (v : UInt64) : Int := if v.toNat / 2 ^ F.magnitudeBits % 2 = 1 then -F.magnitude v else F.magnitude v

/-- What the first float is to the second. -/
def compare (a b : UInt64) : FloatOrder :=
  if F.isNaN a || F.isNaN b then .unordered
  else if F.rank a < F.rank b then .less
  else if F.rank a = F.rank b then .equal
  else .greater

end FloatFormat

/-- The single in a float register. What is not in its box counts as no number. -/
def unboxed (v : UInt64) : UInt64 := if v >>> 32 = 0xffffffff then v &&& 0xffffffff else 0x7fc00000

/-- What the single in one register is to that in another. -/
def compareSingles (a b : UInt64) : FloatOrder := FloatFormat.single.compare (unboxed a) (unboxed b)

/-- What the double in one register is to that in another. -/
def compareDoubles (a b : UInt64) : FloatOrder := FloatFormat.double.compare a b

/-! ## What an instruction computes -/

namespace Op

/-- The result of an integer instruction; the second operand is a register or the immediate. -/
def compute (o : Op) (a b : UInt64) : Option UInt64 :=
  match o with
  | add | addi => some (a + b)
  | sub => some (a - b)
  | slt | slti => some (if a.toInt64 < b.toInt64 then 1 else 0)
  | sltu | sltiu => some (if a < b then 1 else 0)
  | xor | xori => some (a ^^^ b)
  | or | ori => some (a ||| b)
  | and | andi => some (a &&& b)
  | sll | slli => some (a <<< (b &&& 63))
  | srl | srli => some (a >>> (b &&& 63))
  | sra | srai => some (a.toInt64 >>> (b &&& 63).toInt64).toUInt64
  | addw | addiw => some (sext (a + b).toUInt32)
  | subw => some (sext (a - b).toUInt32)
  | sllw | slliw => some (sext (a.toUInt32 <<< (b.toUInt32 &&& 31)))
  | srlw | srliw => some (sext (a.toUInt32 >>> (b.toUInt32 &&& 31)))
  | sraw | sraiw => some (sext (a.toUInt32.toInt32 >>> (b.toUInt32 &&& 31).toInt32).toUInt32)
  | mul => some (a * b)
  | mulh => some (Int64.ofInt (a.toInt64.toInt * b.toInt64.toInt / 2 ^ 64)).toUInt64
  | mulhu => some (UInt64.ofNat (a.toNat * b.toNat / 2 ^ 64))
  | mulw => some (sext (a.toUInt32 * b.toUInt32))
  -- a division by zero gives all ones, a remainder by zero the dividend
  | div => some (if b = 0 then -1 else (a.toInt64 / b.toInt64).toUInt64)
  | divu => some (if b = 0 then -1 else a / b)
  | rem => some (if b = 0 then a else (a.toInt64 % b.toInt64).toUInt64)
  | remu => some (if b = 0 then a else a % b)
  | divw => some (if b.toUInt32 = 0 then -1 else sext (a.toUInt32.toInt32 / b.toUInt32.toInt32).toUInt32)
  | divuw => some (if b.toUInt32 = 0 then -1 else sext (a.toUInt32 / b.toUInt32))
  | remw =>
    some (if b.toUInt32 = 0 then sext a.toUInt32 else sext (a.toUInt32.toInt32 % b.toUInt32.toInt32).toUInt32)
  | remuw => some (if b.toUInt32 = 0 then sext a.toUInt32 else sext (a.toUInt32 % b.toUInt32))
  | _ => none

/-- The branch is taken. -/
def taken (o : Op) (a b : UInt64) : Bool :=
  match o with
  | beq => a = b
  | bne => a ≠ b
  | blt => a.toInt64 < b.toInt64
  | bge => b.toInt64 ≤ a.toInt64
  | bltu => a < b
  | bgeu => b ≤ a
  | _ => false

/-- How many bytes an access to memory takes. -/
def width : Op → Option Nat
  | lb | lbu | sb => some 1
  | lh | lhu | sh => some 2
  | lw | lwu | sw | flw | fsw | lrW | scW | amoswapW | amoaddW => some 4
  | ld | sd | fld | fsd | lrD | scD | amoswapD | amoaddD => some 8
  | _ => none

/-- What a register receives of the bytes that were read, or of the raw bits of another. -/
def extend (o : Op) (v : UInt64) : UInt64 :=
  match o with
  | lb => v.toUInt8.toInt8.toInt64.toUInt64
  | lh => v.toUInt16.toInt16.toInt64.toUInt64
  | lw | lrW | amoswapW | amoaddW | fmvXW => sext v.toUInt32
  | flw => boxed v
  | fmvWX => boxed (v &&& 0xffffffff)
  | _ => v

/-- The bits of a double with the sign of another, or with the opposite one. -/
def injectSign (o : Op) (a b : UInt64) : Option UInt64 :=
  match o with
  | fsgnjD => some (a &&& 0x7fffffffffffffff ||| b &&& 0x8000000000000000)
  | fsgnjnD => some (a &&& 0x7fffffffffffffff ||| ~~~b &&& 0x8000000000000000)
  | _ => none

/-- One if a float is to another as the instruction asks, or else zero. -/
def predicate (o : Op) (a b : UInt64) : Option UInt64 :=
  match o with
  | feqS => some (if compareSingles a b = .equal then 1 else 0)
  | fltS => some (if compareSingles a b = .less then 1 else 0)
  | fleS => some (if compareSingles a b = .less ∨ compareSingles a b = .equal then 1 else 0)
  | feqD => some (if compareDoubles a b = .equal then 1 else 0)
  | fltD => some (if compareDoubles a b = .less then 1 else 0)
  | fleD => some (if compareDoubles a b = .less ∨ compareDoubles a b = .equal then 1 else 0)
  | _ => none

end Op

/-! ## Memory -/

/-- Bytes by address. -/
abbrev Ram := UInt64 → UInt8

namespace Ram

/-- The little-endian number in `n` bytes. -/
def read (mem : Ram) (addr : UInt64) : Nat → UInt64
  | 0 => 0
  | n + 1 => (mem addr).toUInt64 ||| read mem (addr + 1) n <<< 8

/-- Memory with a little-endian number in `n` bytes. -/
def write (mem : Ram) (addr : UInt64) (n : Nat) (v : UInt64) : Ram := fun a =>
  if (a - addr).toNat < n then byteAt v (a - addr).toNat else mem a

end Ram

/-! ## Machines -/

/-- The state of a machine. -/
structure Machine where
  x : Fin 32 → UInt64
  f : Fin 32 → UInt64
  pc : UInt64
  mem : Ram
  /-- The address that the last reserving load reserved. -/
  reserved : Option UInt64 := none

namespace Machine

/-- What a register holds; register zero of the integer file is always zero. -/
def get (m : Machine) : Reg → UInt64
  | .x n => if n = 0 then 0 else m.x n
  | .f n => m.f n
  | .none => 0

/-- The machine with a value in a register. -/
def set (m : Machine) (r : Reg) (v : UInt64) : Machine :=
  match r with
  | .x n => if n = 0 then m else { m with x := fun k => if k = n then v else m.x k }
  | .f n => { m with f := fun k => if k = n then v else m.f k }
  | .none => m

/-- The machine one instruction further on. -/
def next (m : Machine) : Machine := { m with pc := m.pc + 4 }

/-- A conditional store succeeds when its address is reserved; the reservation is used up. -/
def storeConditional (m : Machine) (rd : Reg) (addr : UInt64) (n : Nat) (v : UInt64) : Machine :=
  let m' := if m.reserved = some addr then { m with mem := m.mem.write addr n v }.set rd 0 else m.set rd 1
  { m' with reserved := none }

/-- Execute an instruction. -/
def exec (m : Machine) (i : Inst) : Option Machine :=
  let a := m.get i.rs1
  let b := m.get i.rs2
  let imm := i.imm.toUInt64
  match i.op.info.format with
  | .r => (i.op.compute a b).map (m.next.set i.rd)
  | .i | .shift64 | .shift32 => (i.op.compute a imm).map (m.next.set i.rd)
  | .load => i.op.width.map fun n => m.next.set i.rd (i.op.extend (m.mem.read (a + imm) n))
  | .store => i.op.width.map fun n => { m.next with mem := m.mem.write (a + imm) n b }
  | .branch => some (if i.op.taken a b then { m with pc := m.pc + imm } else m.next)
  | .upper => some (m.next.set i.rd (if i.op = .auipc then m.pc + imm <<< 12 else imm <<< 12))
  | .jump => some { m.set i.rd (m.pc + 4) with pc := m.pc + imm }
  | .jumpReg => some { m.set i.rd (m.pc + 4) with pc := (a + imm) &&& ~~~1 }
  | .fence => some m.next
  | .system => if i.op = .fenceI then some m.next else none
  | .reserve =>
    i.op.width.map fun n => { m.next.set i.rd (i.op.extend (m.mem.read a n)) with reserved := some a }
  | .atomic =>
    i.op.width.map fun n =>
      let old := m.mem.read a n
      match i.op with
      | .scW | .scD => m.next.storeConditional i.rd a n b
      | .amoaddW | .amoaddD => { m.next with mem := m.mem.write a n (old + b) }.set i.rd (i.op.extend old)
      | _ => { m.next with mem := m.mem.write a n b }.set i.rd (i.op.extend old)
  | .floatMove => some (m.next.set i.rd (i.op.extend a))
  | .floatFixed => ((i.op.injectSign a b).or (i.op.predicate a b)).map (m.next.set i.rd)
  | .floatArith | .floatConvert => none

/-- The word at the program counter. -/
def fetch (m : Machine) : UInt32 := (m.mem.read m.pc 4).toUInt32

/-- Execute the instruction at the program counter. -/
def step (m : Machine) : Option Machine := (decode m.fetch).bind m.exec

/-- Execute that many instructions. -/
def steps : Nat → Machine → Option Machine
  | 0, m => some m
  | n + 1, m => m.step.bind (steps n)

/-- The bytes stand in memory from an address on. -/
def Loaded (m : Machine) (base : UInt64) (bytes : Array UInt8) : Prop :=
  ∀ i (h : i < bytes.size), m.mem (base + UInt64.ofNat i) = bytes[i]

end Machine

/-! ## Reading and writing memory -/

theorem toNat_byteAt (v : UInt64) {i : Nat} (h : i < 8) :
    (byteAt v i).toNat = v.toNat / 2 ^ (8 * i) % 2 ^ 8 := by
  rw [byteAt, UInt64.toNat_toUInt8, UInt64.toNat_shiftRight, UInt64.toNat_ofNat',
    Nat.mod_eq_of_lt (a := 8 * i) (by omega), Nat.mod_eq_of_lt (a := 8 * i) (by omega),
    Nat.shiftRight_eq_div_pow]

theorem byteAt_shift (v : UInt64) {i : Nat} (h : i + 1 < 8) :
    byteAt (v >>> 8) i = byteAt v (i + 1) := by
  apply UInt8.toNat_inj.mp
  have e : (v >>> 8).toNat = v.toNat / 2 ^ 8 := by
    rw [UInt64.toNat_shiftRight, show UInt64.toNat 8 % 64 = 8 from rfl, Nat.shiftRight_eq_div_pow]
  rw [toNat_byteAt _ (by omega), toNat_byteAt _ h, e, Nat.div_div_eq_div_mul, ← Nat.pow_add]
  congr 3
  omega

theorem add_ofNat_succ (a : UInt64) (i : Nat) : a + UInt64.ofNat (i + 1) = a + 1 + UInt64.ofNat i := by
  rw [UInt64.add_assoc, UInt64.add_comm 1, UInt64.ofNat_add]
  rfl

namespace Ram

variable (mem : Ram) (addr v : UInt64) {n : Nat}

theorem toNat_read_succ (hn : n < 8) (hb : (mem.read (addr + 1) n).toNat < 2 ^ (8 * n)) :
    (mem.read addr (n + 1)).toNat = (mem addr).toNat + (mem.read (addr + 1) n).toNat * 2 ^ 8 := by
  have h8 : (2 : Nat) ^ (8 * n) ≤ 2 ^ 56 := Nat.pow_le_pow_right (by decide) (by omega)
  have hm := (mem addr).toNat_lt
  rw [read, UInt64.toNat_or, UInt64.toNat_shiftLeft, show UInt64.toNat 8 % 64 = 8 from rfl, UInt8.toNat_toUInt64,
    Nat.shiftLeft_eq, Nat.mod_eq_of_lt (by omega), Nat.or_comm, Nat.mul_comm,
    ← Nat.two_pow_add_eq_or_of_lt (show (mem addr).toNat < 2 ^ 8 by omega)]
  omega

/-- Bytes that are those of a number read as it. -/
theorem toNat_read : ∀ (n : Nat) (addr v : UInt64), n ≤ 8 →
    (∀ i < n, mem (addr + UInt64.ofNat i) = byteAt v i) →
    (mem.read addr n).toNat = v.toNat % 2 ^ (8 * n) := by
  intro n
  induction n with
  | zero => intro addr v _ _; simp [read, Nat.mod_one]
  | succ n ih =>
    intro addr v hn hbytes
    have first : (mem addr).toNat = v.toNat % 2 ^ 8 := by
      have := hbytes 0 (by omega)
      rw [show addr + UInt64.ofNat 0 = addr from UInt64.add_zero addr] at this
      rw [this, toNat_byteAt _ (by omega), Nat.mul_zero, Nat.pow_zero, Nat.div_one]
    have rest := ih (addr + 1) (v >>> 8) (by omega) fun i hi => by
      rw [← add_ofNat_succ, hbytes (i + 1) (by omega), byteAt_shift _ (by omega)]
    have hshift : (v >>> 8).toNat = v.toNat / 2 ^ 8 := by
      rw [UInt64.toNat_shiftRight, show UInt64.toNat 8 % 64 = 8 from rfl, Nat.shiftRight_eq_div_pow]
    rw [toNat_read_succ mem addr (by omega) (by rw [rest]; exact Nat.mod_lt _ (Nat.two_pow_pos _)), first, rest,
      hshift, show 8 * (n + 1) = 8 + 8 * n by omega, Nat.pow_add, Nat.mod_mul, Nat.mul_comm]

theorem read_congr {mem mem' : Ram} : ∀ {n : Nat} {addr : UInt64},
    (∀ i < n, mem (addr + UInt64.ofNat i) = mem' (addr + UInt64.ofNat i)) → mem.read addr n = mem'.read addr n := by
  intro n
  induction n with
  | zero => intro _ _; rfl
  | succ n ih =>
    intro addr h
    have first := h 0 (by omega)
    rw [show addr + UInt64.ofNat 0 = addr from UInt64.add_zero addr] at first
    rw [read, read, first, ih fun i hi => by rw [← add_ofNat_succ]; exact h (i + 1) (by omega)]

theorem add_sub_self (a b : UInt64) : a + b - a = b := by
  rw [UInt64.add_comm, UInt64.add_sub_cancel]

theorem write_outside {addr a : UInt64} (h : n ≤ (a - addr).toNat) :
    mem.write addr n v a = mem a := if_neg (by omega)

theorem write_inside {i : Nat} (hi : i < n) (hn : n ≤ 8) :
    mem.write addr n v (addr + UInt64.ofNat i) = byteAt v i := by
  have e : (addr + UInt64.ofNat i - addr).toNat = i := by
    rw [add_sub_self, UInt64.toNat_ofNat', Nat.mod_eq_of_lt (by omega)]
  rw [write, e, if_pos hi]

/-- What was written is read back, as far as the bytes go. -/
theorem read_write (hn : n ≤ 8) : ((mem.write addr n v).read addr n).toNat = v.toNat % 2 ^ (8 * n) :=
  toNat_read _ n addr v hn fun _ hi => write_inside mem addr v hi hn

/-- Bytes of a range are not those of another. -/
theorem read_write_apart (base v : UInt64) {x k y : Nat}
    (h : (x + k ≤ y ∨ y + n ≤ x) ∧ x + k ≤ 2 ^ 64 ∧ y + n ≤ 2 ^ 64) :
    (mem.write (base + UInt64.ofNat y) n v).read (base + UInt64.ofNat x) k = mem.read (base + UInt64.ofNat x) k := by
  refine read_congr fun i hi => write_outside mem v ?_
  have e : base + UInt64.ofNat x + UInt64.ofNat i - (base + UInt64.ofNat y) =
      UInt64.ofNat (x + i) - UInt64.ofNat y := by
    rw [UInt64.add_assoc, ← UInt64.ofNat_add, UInt64.sub_eq_add_neg, UInt64.neg_add, UInt64.sub_eq_add_neg,
      UInt64.add_comm base, UInt64.add_assoc, ← UInt64.add_assoc base, UInt64.add_right_neg, UInt64.zero_add,
      ← UInt64.sub_eq_add_neg]
  rw [e, UInt64.toNat_sub, UInt64.toNat_ofNat', UInt64.toNat_ofNat']
  omega

theorem toNat_read_lt : ∀ {n : Nat} (addr : UInt64), n ≤ 8 → (mem.read addr n).toNat < 2 ^ (8 * n) := by
  intro n
  induction n with
  | zero => intro _ _; exact Nat.zero_lt_one
  | succ n ih =>
    intro addr hn
    have hrest := ih (addr + 1) (by omega)
    have hm := (mem addr).toNat_lt
    rw [toNat_read_succ mem addr (by omega) hrest, show 8 * (n + 1) = 8 * n + 8 by omega, Nat.pow_add]
    omega

/-- A long is read as its two halves. -/
theorem toNat_read_eight : (mem.read addr 8).toNat =
    (mem.read addr 4).toNat + (mem.read (addr + 4) 4).toNat * 2 ^ 32 := by
  have one {n : Nat} (addr : UInt64) (hn : n < 8) := toNat_read_succ mem addr hn (toNat_read_lt mem _ (by omega))
  have next (k : UInt64) : addr + k + 1 = addr + (k + 1) := UInt64.add_assoc addr k 1
  rw [one addr (n := 7) (by decide), one (n := 6) _ (by decide), one (n := 5) _ (by decide), one (n := 4) _ (by decide),
    one addr (n := 3) (by decide), one (n := 2) _ (by decide), one (n := 1) _ (by decide), one (n := 0) _ (by decide)]
  rw [next 1, next (1 + 1), next (1 + 1 + 1), show (1 : UInt64) + 1 + 1 + 1 = 4 from rfl, read]
  simp only [UInt64.toNat_zero]
  omega

end Ram

/-! ## Registers -/

/-- A register that is not reserved is none that is. -/
theorem Reg.ne_of_free {r q : Reg} (h : r.isReserved = false) (hq : q.isReserved = true) : r ≠ q := by
  rintro rfl
  cases h.symm.trans hq

theorem Reg.not_mem_of_free {r : Reg} {rs : List Reg} (h : r.isReserved = false) (hrs : ∀ q ∈ rs, q.isReserved = true) :
    r ∉ rs := fun hmem => Reg.ne_of_free h (hrs r hmem) rfl

namespace Machine

/-- A register that keeps what is written to it. -/
def Keeps (r : Reg) : Prop := r ≠ .x 0 ∧ r ≠ .none

instance (r : Reg) : Decidable (Keeps r) := inferInstanceAs (Decidable (_ ∧ _))

theorem keeps_x {n : Fin 32} (h : Reg.x n ≠ .x 0) : Keeps (.x n) := ⟨h, Reg.noConfusion⟩

variable (m : Machine) (r : Reg) (v : UInt64)

theorem get_set {r : Reg} (h : Keeps r) (v : UInt64) (s : Reg) : (m.set r v).get s = if s = r then v else m.get s := by
  cases r with
  | none => exact absurd rfl h.2
  | x n =>
    have hn : n ≠ 0 := fun e => h.1 (by rw [e])
    cases s with
    | x k =>
      by_cases hk : k = n
      · subst hk; simp [set, get, hn]
      · simp [set, get, hn, hk]
    | f k => simp [set, get, hn]
    | none => simp [get]
  | f n =>
    cases s with
    | x k => simp [set, get]
    | f k => by_cases hk : k = n <;> simp [set, get, hk]
    | none => simp [get]

theorem set_zero : m.set (.x 0) v = m := rfl

@[simp] theorem set_pc : (m.set r v).pc = m.pc := by
  cases r with
  | x n => by_cases hn : n = 0 <;> simp [set, hn]
  | f n => rfl
  | none => rfl

@[simp] theorem set_mem : (m.set r v).mem = m.mem := by
  cases r with
  | x n => by_cases hn : n = 0 <;> simp [set, hn]
  | f n => rfl
  | none => rfl

@[simp] theorem get_withPc (a : UInt64) (r : Reg) : ({ m with pc := a } : Machine).get r = m.get r := by
  cases r <;> rfl

@[simp] theorem get_withMem (mem : Ram) (r : Reg) : ({ m with mem } : Machine).get r = m.get r := by
  cases r <;> rfl

@[simp] theorem next_pc : m.next.pc = m.pc + 4 := rfl
@[simp] theorem next_mem : m.next.mem = m.mem := rfl
@[simp] theorem get_next : m.next.get r = m.get r := get_withPc m _ r

/-! ## Runs -/

theorem steps_add (i j : Nat) (m : Machine) : m.steps (i + j) = (m.steps i).bind (steps j) := by
  induction i generalizing m with
  | zero => rw [Nat.zero_add]; rfl
  | succ i ih =>
    rw [Nat.add_right_comm]
    show m.step.bind (steps (i + j)) = (m.step.bind (steps i)).bind (steps j)
    cases m.step with
    | none => rfl
    | some m' => exact ih m'

theorem steps_one : m.steps 1 = m.step := by
  show m.step.bind some = m.step
  exact Option.bind_fun_some _

theorem step_of_decode {m : Machine} {i : Inst} (h : decode m.fetch = some i) : m.step = m.exec i := by
  rw [step, h]
  rfl

/-- Code in memory is fetched word by word. -/
theorem fetch_of_bytes {m : Machine} {w : UInt32}
    (h : ∀ i < 4, m.mem (m.pc + UInt64.ofNat i) = byteAt w.toUInt64 i) : m.fetch = w := by
  apply UInt32.toNat_inj.mp
  rw [fetch, UInt64.toNat_toUInt32, Ram.toNat_read m.mem 4 m.pc w.toUInt64 (by decide) h, UInt32.toNat_toUInt64]
  have := w.toNat_lt
  omega

end Machine

end RiscvJit
