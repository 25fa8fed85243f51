import RiscvJit.Proofs.Code.Outcomes

/-
  RiscvJit.Proofs.Code.ConstantCode — the code that puts a constant or an address into a register.

  The steps of a constant come in rounds, and no bound on the rounds is needed to say which: `Rounds n imm ss`
  is the recursion itself, with the number of its rounds. Three rounds are enough for any constant
  (`rounds_constSteps`), each takes two instructions at most, and so does what they leave.

  Code stands in memory word by word (`Ram.Carries`). Straight-line code that stands at the program counter is
  run from end to end, as long as it does not write over itself (`Runs.steps`). So the code of a constant puts
  it into its register from any state (`Materializes`), and changes nothing else.
-/

namespace RiscvJit

open Machine (Keeps)
open Reg (zr)
open Asm

/-! ## Rounds -/

/-- The rounds that split a constant: each takes away the low twelve bits and the zeros above them, until what
is left is the sign extension of a word. -/
inductive Rounds (toZero : Bool) : Nat → Int64 → List ConstStep → Prop
  | word {imm : Int64} (h : isInt32 imm = true) : Rounds toZero 0 imm (constSteps32 toZero imm)
  | round {n : Nat} {imm : Int64} {ss : List ConstStep} (h : ¬ isInt32 imm = true) :
      Rounds toZero n (high12 imm >>> Int64.ofNat (zerosOf imm)) ss →
      Rounds toZero (n + 1) imm (ss ++ .slli (Int64.ofNat (zerosOf imm)) :: lowStep imm)

section
variable {toZero : Bool} {imm : Int64} {n : Nat} {ss : List ConstStep}

theorem length_constSteps32 (toZero : Bool) (imm : Int64) : (constSteps32 toZero imm).length ≤ 2 := by
  unfold constSteps32
  dsimp only
  split
  · exact Nat.le_succ 1
  · split <;> simp

theorem length_lowStep (imm : Int64) : (lowStep imm).length ≤ 1 := by
  unfold lowStep
  split <;> simp

theorem Rounds.length (h : Rounds toZero n imm ss) : ss.length ≤ 2 + 2 * n := by
  induction h with
  | word => exact length_constSteps32 ..
  | @round n imm ss _ _ ih =>
    have := length_lowStep imm
    rw [List.length_append, List.length_cons]
    omega

/-- Twelve bits fewer take one round less. -/
theorem rounds_of_abs {m : Nat} (hb : imm.toInt.natAbs ≤ 2 ^ (12 * m + 27)) {fuel : Nat} (hm : m < fuel) :
    ∃ n ≤ m, Rounds toZero n imm (constSteps toZero fuel imm) := by
  induction m generalizing imm fuel with
  | zero =>
    obtain ⟨fuel, rfl⟩ := Nat.exists_eq_succ_of_ne_zero (Nat.ne_of_gt hm)
    have hint : isInt32 imm = true := by
      rw [isInt32_iff]
      simp only [Int.reducePow]
      omega
    rw [constSteps, if_pos hint]
    exact ⟨0, Nat.le_refl 0, .word hint⟩
  | succ m ih =>
    obtain ⟨fuel, rfl⟩ := Nat.exists_eq_succ_of_ne_zero (Nat.ne_of_gt (Nat.zero_lt_of_lt hm))
    by_cases hint : isInt32 imm = true
    · rw [constSteps, if_pos hint]
      exact ⟨0, Nat.zero_le _, .word hint⟩
    · obtain ⟨n, hn, hrounds⟩ := ih (abs_rest hint (n := 12 * m + 27) hb) (Nat.lt_of_succ_lt_succ hm)
      rw [constSteps_succ hint]
      exact ⟨n + 1, Nat.succ_le_succ hn, .round hint hrounds⟩

/-- Three rounds are enough for any constant. -/
theorem rounds_constSteps (toZero : Bool) (imm : Int64) :
    ∃ n ≤ 3, Rounds toZero n imm (constSteps toZero constRounds imm) := by
  refine rounds_of_abs ?_ (by decide)
  have := imm.toInt_lt
  have := imm.le_toInt
  simp only [Nat.reduceMul, Nat.reduceAdd, Nat.reducePow]
  omega

theorem length_constSteps (toZero : Bool) (imm : Int64) : (constSteps toZero constRounds imm).length ≤ 8 := by
  obtain ⟨n, hn, hrounds⟩ := rounds_constSteps toZero imm
  have := hrounds.length
  omega

end

/-! ## Code in memory -/

/-- The words of the instructions stand in memory from an address on. -/
def Ram.Carries (mem : Ram) (addr : UInt64) (is : List Inst) : Prop :=
  ∀ (j : Nat) (i : Inst), is[j]? = some i → (mem.read (addr + UInt64.ofNat (4 * j)) 4).toUInt32 = i.word

section
variable {F : UInt64 → Prop} {mem mem' : Ram} {addr : UInt64} {i : Inst} {is : List Inst} {m m' : Machine}

theorem Ram.Carries.head (h : mem.Carries addr (i :: is)) : (mem.read addr 4).toUInt32 = i.word := by
  simpa using h 0 i rfl

theorem Ram.Carries.tail (h : mem.Carries addr (i :: is)) : mem.Carries (addr + 4) is := by
  intro j i' hi'
  have := h (j + 1) i' hi'
  rwa [Nat.mul_add, Nat.add_comm, UInt64.ofNat_add, ← UInt64.add_assoc] at this

theorem Ram.Carries.congr (h : mem.Carries addr is)
    (hsame : ∀ k < 4 * is.length, mem' (addr + UInt64.ofNat k) = mem (addr + UInt64.ofNat k)) : mem'.Carries addr is := by
  intro j i' hi'
  rw [← h j i' hi']
  refine congrArg UInt64.toUInt32 (Ram.read_congr fun k hk => ?_)
  have hj := (List.getElem?_eq_some_iff.mp hi').1
  rw [UInt64.add_assoc, ← UInt64.ofNat_add]
  exact hsame _ (by omega)

/-- Code that does not write over itself is run from its start to its end. -/
theorem Runs.steps (h : Runs F is m m') (hdecodes : ∀ i ∈ is, decode i.word = some i) (hcode : m.mem.Carries m.pc is)
    (hclear : ∀ k < 4 * is.length, ¬ F (m.pc + UInt64.ofNat k)) : m.steps is.length = some m' := by
  induction h with
  | nil m => rfl
  | @cons i is m m1 m' hexec hpc hmem _ ih =>
    have hstep : m.step = some m1 := by
      refine (Machine.step_of_decode ?_).trans hexec
      rw [Machine.fetch, hcode.head]
      exact hdecodes i List.mem_cons_self
    have hrest : ∀ k < 4 * is.length, ¬ F (m1.pc + UInt64.ofNat k) := fun k hk => by
      rw [hpc, UInt64.add_assoc]
      have := hclear (4 + k) (by rw [List.length_cons]; omega)
      rwa [UInt64.ofNat_add] at this
    show m.step.bind (Machine.steps is.length) = some m'
    rw [hstep]
    refine ih (fun i hi => hdecodes i (List.mem_cons_of_mem _ hi)) ?_ hrest
    have htail := hcode.tail
    rw [← hpc] at htail
    exact htail.congr fun k hk => hmem _ (hrest k hk)

end

/-- From any state the code, once it is in memory, puts the value into the register and goes on behind itself; it
changes no other register and no memory. -/
def Materializes (is : List Inst) (rd : Reg) (v : UInt64) : Prop :=
  ∀ m : Machine, m.mem.Carries m.pc is →
    ∃ m', m.steps is.length = some m' ∧ Put rd [] v m m' ∧ m'.pc = m.pc + UInt64.ofNat (4 * is.length)

theorem Puts.materializes {is : List Inst} {rd : Reg} {v : UInt64} (h : Puts is rd [] fun _ => v)
    (hdecodes : ∀ i ∈ is, decode i.word = some i) : Materializes is rd v := by
  intro m hcode
  obtain ⟨m', hruns, hput⟩ := h (fun _ => False) m
  exact ⟨m', hruns.steps hdecodes hcode fun _ _ => id, hput, hruns.pc⟩

/-! ## Constants and addresses -/

section
variable {t : Target} {a : Assembler} {rd : Reg}

/-- Every step takes one instruction. -/
theorem constSteps_write {ss : List ConstStep} (hint : rd.isInt = true) (hk : Keeps rd) (hs : ∀ s ∈ ss, s.Fits) :
    ∃ is a', ss.forM (constStep rd) t a = .ok ((), a') ∧ Wrote is a a' ∧ is.length = ss.length ∧
      Puts is rd [] fun m => (perform (m.get rd).toInt64 ss).toUInt64 := by
  induction ss generalizing a with
  | nil => exact ⟨[], a, rfl, wrote_nil a, rfl, puts_nil rd⟩
  | cons s ss ih =>
    have hfits := hs s List.mem_cons_self
    obtain ⟨_, b, hstep, -⟩ := passes_constStep hint hfits t a
    obtain ⟨i, hwrote, hsets⟩ := constStep_sets hfits hstep
    obtain ⟨is, a', hrest, hwrote', hlength, hputs⟩ := ih (a := b) fun s' hs' => hs s' (List.mem_cons_of_mem _ hs')
    refine ⟨i :: is, a', bind_eq_ok.mpr ⟨(), b, hstep, hrest⟩, hwrote.append hwrote', congrArg (· + 1) hlength, ?_⟩
    exact (puts_one hk hsets).puts hputs (.inl rfl) fun m m1 hput => by rw [hput.value]; rfl

theorem keeps_of_integer (hint : rd.isInt = true) (hne : rd ≠ zr) : Keeps rd :=
  ⟨hne, fun e => by rw [e] at hint; cases hint⟩

/-- The code of a constant puts that constant. -/
theorem li_writes (hint : rd.isInt = true) (hne : rd ≠ zr) (imm : Int64) :
    ∃ is a', li rd imm t a = .ok ((), a') ∧ Wrote is a a' ∧ is.length ≤ 8 ∧ Materializes is rd imm.toUInt64 := by
  obtain ⟨is, a', hli, hwrote, hlength, hputs⟩ :=
    constSteps_write (t := t) (a := a) hint (keeps_of_integer hint hne) (@fits_rounds imm (rd = zr) constRounds)
  simp only [perform_constSteps] at hputs
  exact ⟨is, a', hli, hwrote, hlength ▸ length_constSteps .., hputs.materializes hwrote.decodes⟩

variable {addr : UInt64}

/-- The low six bits of an address are what the code leaves out. -/
theorem sub_low_bits (addr : UInt64) : addr - (addr.toInt64 &&& 0x3f).toUInt64 = addr &&& ~~~0x3f := by
  have hlow : (addr.toInt64 &&& 0x3f).toUInt64 = addr &&& 0x3f := rfl
  rw [hlow, ← UInt64.toBitVec_inj]
  have hsplit : addr.toBitVec = (addr.toBitVec &&& ~~~0x3f#64) + (addr.toBitVec &&& 0x3f#64) := by
    rw [BitVec.add_eq_or_of_and_eq_zero]
    · rw [← BitVec.and_or_distrib_left]
      exact BitVec.and_allOnes.symm
    · rw [BitVec.and_assoc, ← BitVec.and_assoc (~~~0x3f#64), BitVec.and_comm (~~~0x3f#64), BitVec.and_assoc]
      simp
  show addr.toBitVec - (addr.toBitVec &&& 0x3f#64) = addr.toBitVec &&& ~~~0x3f#64
  rw [BitVec.sub_eq_iff_eq_add]
  exact hsplit

/-- The steps of an address are those of a constant, behind a check. -/
theorem movptrWithOffset_steps (h : addr.toNat < 2 ^ 47) {a' : Assembler}
    (hsteps : (addressSteps addr).forM (constStep rd) t a = .ok ((), a')) :
    movptrWithOffset rd addr t a = .ok (addr.toInt64 &&& 0x3f, a') := by
  obtain ⟨_, a1, h1, hsteps⟩ := bind_eq_ok.mp hsteps
  obtain ⟨_, a2, h2, hsteps⟩ := bind_eq_ok.mp hsteps
  obtain ⟨_, a3, h3, hsteps⟩ := bind_eq_ok.mp hsteps
  obtain ⟨_, a4, h4, hsteps⟩ := bind_eq_ok.mp hsteps
  obtain ⟨_, a5, h5, hend⟩ := bind_eq_ok.mp hsteps
  obtain ⟨-, rfl⟩ := pure_eq_ok.mp hend
  refine bind_eq_ok.mpr ⟨(), a, lift_eq_ok.mpr ⟨check_eq_ok.mpr (pointer_fits h), rfl⟩, ?_⟩
  exact bind_eq_ok.mpr ⟨_, _, h1, bind_eq_ok.mpr ⟨_, _, h2, bind_eq_ok.mpr ⟨_, _, h3,
    bind_eq_ok.mpr ⟨_, _, h4, bind_eq_ok.mpr ⟨_, _, h5, rfl⟩⟩⟩⟩⟩

section
variable (hint : rd.isInt = true) (hne : rd ≠ zr)
include hint hne

theorem address_writes (h : addr.toNat < 2 ^ 47) :
    ∃ is a', movptrWithOffset rd addr t a = .ok (addr.toInt64 &&& 0x3f, a') ∧ Wrote is a a' ∧ is.length = 5 ∧
      Puts is rd [] fun _ => addr &&& ~~~0x3f := by
  obtain ⟨is, a', hsteps, hwrote, hlength, hputs⟩ :=
    constSteps_write (t := t) (a := a) hint (keeps_of_integer hint hne) (addressSteps_fit h)
  refine ⟨is, a', movptrWithOffset_steps h hsteps, hwrote, hlength, ?_⟩
  have hvalue (m : Machine) : (perform (m.get rd).toInt64 (addressSteps addr)).toUInt64 = addr &&& ~~~0x3f := by
    have hsum := congrArg Int64.toUInt64 (perform_addressSteps h (m.get rd).toInt64)
    rw [Int64.toUInt64_add, UInt64.toUInt64_toInt64] at hsum
    rw [← sub_low_bits]
    exact (UInt64.sub_eq_iff_eq_add.mpr hsum.symm).symm
  simp only [hvalue] at hputs
  exact hputs

/-- The code of an address but for its low six bits. -/
theorem movptrWithOffset_writes (h : addr.toNat < 2 ^ 47) :
    ∃ is a', movptrWithOffset rd addr t a = .ok (addr.toInt64 &&& 0x3f, a') ∧ Wrote is a a' ∧ is.length = 5 ∧
      Materializes is rd (addr &&& ~~~0x3f) := by
  obtain ⟨is, a', hok, hwrote, hlength, hputs⟩ := address_writes hint hne h
  exact ⟨is, a', hok, hwrote, hlength, hputs.materializes hwrote.decodes⟩

/-- The code of an address that can be patched in place. -/
theorem movptr_writes (h : addr.toNat < 2 ^ 47) :
    ∃ is a', movptr rd addr t a = .ok ((), a') ∧ Wrote is a a' ∧ is.length = 6 ∧ Materializes is rd addr := by
  have hk := keeps_of_integer hint hne
  obtain ⟨is, b, hok, hwrote, hlength, hputs⟩ := address_writes (t := t) (a := a) hint hne h
  obtain ⟨_, a', hadd, -⟩ := passes_addi hint hint (short_pointerEnd h).fits t b
  obtain ⟨i, hwrote', hsets⟩ := ri_sets (f := fun x y => x + y) rfl (fun _ _ => rfl) hadd
  have hall : Puts (is ++ [i]) rd [] fun _ => addr := hputs.puts (puts_one hk hsets) (.inl rfl) fun m m1 hput => by
    rw [hput.value, ← sub_low_bits, UInt64.sub_add_cancel]
  have hwrote := hwrote.append hwrote'
  exact ⟨is ++ [i], a', bind_eq_ok.mpr ⟨_, b, hok, hadd⟩, hwrote, by rw [List.length_append, hlength]; rfl,
    hall.materializes hwrote.decodes⟩

end

/-- Every constant is split in at most three rounds, and its code, of at most eight instructions, puts it into any
integer register but zr. An address below 2^47 takes six instructions, and five without its low six bits. -/
theorem constants_materialize (hint : rd.isInt = true) (hne : rd ≠ zr) :
    (∀ imm : Int64, (∃ n ≤ 3, Rounds (rd = zr) n imm (constSteps (rd = zr) constRounds imm)) ∧
      ∃ is a', li rd imm t a = .ok ((), a') ∧ Wrote is a a' ∧ is.length ≤ 8 ∧ Materializes is rd imm.toUInt64) ∧
    ∀ addr : UInt64, addr.toNat < 2 ^ 47 →
      (∃ is a', movptr rd addr t a = .ok ((), a') ∧ Wrote is a a' ∧ is.length = 6 ∧ Materializes is rd addr) ∧
      ∃ is a', movptrWithOffset rd addr t a = .ok (addr.toInt64 &&& 0x3f, a') ∧ Wrote is a a' ∧ is.length = 5 ∧
        Materializes is rd (addr &&& ~~~0x3f) :=
  ⟨fun imm => ⟨rounds_constSteps _ imm, li_writes hint hne imm⟩,
    fun _ h => ⟨movptr_writes hint hne h, movptrWithOffset_writes hint hne h⟩⟩

end

/-- In t0, the largest signed constant and the last address below 2^47. -/
theorem largest_constants_materialize :
    let t : Target := ⟨{}, .synthetic 0x20000⟩
    let a : Assembler := { buf := { name := "constants", base := 0, capacity := 64 } }
    Reg.t0.isInt = true ∧ Reg.t0 ≠ zr ∧ UInt64.toNat 0x7fffffffffff < 2 ^ 47 ∧
      (∃ is a', li Reg.t0 0x7fffffffffffffff t a = .ok ((), a') ∧ Wrote is a a' ∧ is.length ≤ 8 ∧
        Materializes is Reg.t0 0x7fffffffffffffff) ∧
      ∃ is a', movptr Reg.t0 0x7fffffffffff t a = .ok ((), a') ∧ Wrote is a a' ∧ is.length = 6 ∧
        Materializes is Reg.t0 0x7fffffffffff := by
  intro t a
  obtain ⟨hli, hptr⟩ := constants_materialize (t := t) (a := a) (rfl : Reg.t0.isInt = true) (by decide)
  exact ⟨rfl, by decide, by decide, (hli 0x7fffffffffffffff).2, (hptr 0x7fffffffffff (by decide)).1⟩

end RiscvJit
