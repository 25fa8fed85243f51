import RiscvJit.Proofs.Isa.Machine
import RiscvJit.Proofs.Isa.RoundTrip
import RiscvJit.Proofs.Isa.Signed

/-
  RiscvJit.Proofs.Code.Constants — the steps that build a constant build that constant.

  A step acts on the value of a register (`ConstStep.apply`). Each round of `constSteps` takes
  the signed low twelve bits away and shifts the rest down by as many zeros as it ends in, so
  that twelve bits fewer remain (`abs_rest`); what is left after four rounds fits 32 bits. Then

    - the steps of `constSteps` lead from any value to the constant (`perform_constSteps`);
    - their immediates fit their instructions (`fits_rounds`).
-/

namespace RiscvJit

/-! ## Low and high bits -/

variable (v : Int64) {n : Nat}

theorem toInt_low12 : (low12 v).toInt = v.toInt.bmod 4096 := by
  rw [low12, toInt_shiftRight _ (rfl : (52 : Int64) = Int64.ofNat 52) (by decide),
    toInt_shiftLeft _ (rfl : (52 : Int64) = Int64.ofNat 52) (by decide), Int.bmod_def, Int.bmod_def]
  simp only [Int.reducePow, Nat.reducePow]
  omega

theorem toInt_high12 : (high12 v).toInt = (v.toInt - v.toInt.bmod 4096).bmod (2 ^ 64) := by
  rw [high12, Int64.toInt_sub, toInt_low12]

theorem isImm12_low12 : isImm12 (low12 v) = true := by
  rw [isImm12, fitsSigned_iff, toInt_low12, Int.bmod_def]
  simp only [Nat.reduceSub, Int.reducePow]
  omega

theorem high12_add_low12 : high12 v + low12 v = v := Int64.sub_add_cancel v (low12 v)

theorem dvd_high12 : (4096 : Int) ∣ (high12 v).toInt := by
  rw [toInt_high12, Int.bmod_def, Int.bmod_def]
  simp only [Nat.reducePow]
  omega

theorem isInt32_iff : isInt32 v = true ↔ -(2 ^ 31) ≤ v.toInt ∧ v.toInt < 2 ^ 31 := by
  rw [isInt32, decide_eq_true_eq, ← Int64.toInt_inj, Int32.toInt_toInt64, Int64.toInt_toInt32, Int.bmod_def]
  simp only [Nat.reducePow, Int.reducePow]
  omega

theorem bmod_of_isInt32 {v : Int64} (h : isInt32 v = true) : v.toInt.bmod (2 ^ 32) = v.toInt := by
  obtain ⟨h1, h2⟩ := (isInt32_iff v).mp h
  exact Int.bmod_eq_of_le h1 h2

/-- Taking a number modulo another brings it no further from zero. -/
theorem natAbs_bmod_le (x : Int) (hn : 0 < n) : (x.bmod n).natAbs ≤ x.natAbs := by
  by_cases hx : -((n : Int) / 2) ≤ x ∧ x < (n + 1) / 2
  · exact Nat.le_of_eq (congrArg _ (Int.bmod_eq_of_le hx.1 hx.2))
  · have h1 := Int.le_bmod (x := x) hn
    have h2 := Int.bmod_lt (x := x) hn
    omega

/-- The upper part of a number is not much further from zero than the number. -/
theorem abs_high12 : (high12 v).toInt.natAbs ≤ v.toInt.natAbs + 2048 := by
  have h1 := Int.le_bmod (x := v.toInt) (m := 4096) (by decide)
  have h2 := Int.bmod_lt (x := v.toInt) (m := 4096) (by decide)
  rw [toInt_high12]
  refine Nat.le_trans (natAbs_bmod_le _ (by decide)) ?_
  generalize v.toInt.bmod 4096 = r at h1 h2
  omega

/-! ## Zeros at the low end -/

theorem trailingZeros_le (n : Nat) (v : UInt64) : trailingZeros n v ≤ n := by
  induction n generalizing v with
  | zero => exact Nat.le_refl 0
  | succ n ih =>
    rw [trailingZeros]
    have := ih (v >>> 1)
    split <;> omega

theorem and_one_eq_one (v : UInt64) : v &&& 1 = 1 ↔ v.toNat % 2 = 1 := by
  rw [← UInt64.toNat_inj, UInt64.toNat_and, show UInt64.toNat 1 = 1 from rfl, Nat.and_one_is_mod]

theorem toNat_half (v : UInt64) : (v >>> 1).toNat = v.toNat / 2 := by
  rw [UInt64.toNat_shiftRight, show UInt64.toNat 1 % 64 = 1 from rfl, Nat.shiftRight_eq_div_pow]

theorem pow_trailingZeros_dvd (n : Nat) (v : UInt64) : 2 ^ trailingZeros n v ∣ v.toNat := by
  induction n generalizing v with
  | zero => exact Nat.one_dvd _
  | succ n ih =>
    rw [trailingZeros]
    by_cases hodd : v &&& 1 = 1
    · rw [if_pos hodd]
      exact Nat.one_dvd _
    · rw [if_neg hodd, Nat.pow_add]
      have heven : v.toNat = 2 * (v.toNat / 2) := by
        rw [and_one_eq_one] at hodd
        omega
      rw [heven, ← toNat_half]
      exact Nat.mul_dvd_mul (Nat.dvd_refl 2) (ih _)

theorem le_trailingZeros {j : Nat} {v : UInt64} (hj : j ≤ n) (h : 2 ^ j ∣ v.toNat) : j ≤ trailingZeros n v := by
  induction n generalizing v j with
  | zero => omega
  | succ n ih =>
    cases j with
    | zero => exact Nat.zero_le _
    | succ j =>
      obtain ⟨c, hc⟩ := h
      have hhalf : v.toNat / 2 = 2 ^ j * c := by
        rw [hc, Nat.pow_succ, Nat.mul_right_comm, Nat.mul_div_cancel _ (by decide)]
      have heven : ¬ v &&& 1 = 1 := by
        rw [and_one_eq_one, hc, Nat.pow_succ, Nat.mul_right_comm, Nat.mul_mod_left]
        decide
      rw [trailingZeros, if_neg heven]
      have := ih (v := v >>> 1) (Nat.le_of_succ_le_succ hj) (by rw [toNat_half, hhalf]; exact Nat.dvd_mul_right _ _)
      omega

theorem trailingZeros_lt {v : UInt64} (h : v ≠ 0) : trailingZeros 64 v < 64 := by
  refine Nat.lt_of_le_of_ne (trailingZeros_le 64 v) fun e => ?_
  have hd := pow_trailingZeros_dvd 64 v
  rw [e] at hd
  have hz := Nat.eq_zero_of_dvd_of_lt hd v.toNat_lt
  exact h (UInt64.toNat_inj.mp hz)

/-! ## Steps -/

/-- What a step makes of the value in the register. -/
def ConstStep.apply (v : Int64) : ConstStep → Int64
  | .lui imm => imm <<< 12
  | .start imm => imm.toInt32.toInt64
  | .addiw imm => (v + imm).toInt32.toInt64
  | .slli n => v <<< n
  | .addi imm => v + imm

/-- The immediate of the step fits its instruction. -/
def ConstStep.Fits : ConstStep → Prop
  | .lui imm => fitsSigned 20 imm = true
  | .start imm | .addiw imm | .addi imm => isImm12 imm = true
  | .slli n => 0 ≤ n.toInt ∧ n.toInt < 64

/-- What the steps make of the value in the register. -/
def perform (v : Int64) (steps : List ConstStep) : Int64 := steps.foldl ConstStep.apply v

theorem perform_append (ss ss' : List ConstStep) :
    perform v (ss ++ ss') = perform (perform v ss) ss' := List.foldl_append

theorem perform_cons (s : ConstStep) (ss : List ConstStep) :
    perform v (s :: ss) = perform (s.apply v) ss := rfl

section
variable {imm : Int64}

variable (toZero : Bool) (v : Int64)

theorem toInt_upper20 : (upper20 v).toInt = v.toInt.bmod (2 ^ 32) / 4096 := by
  rw [upper20, toInt_shiftRight _ (rfl : (12 : Int64) = Int64.ofNat 12) (by decide), Int32.toInt_toInt64,
    Int64.toInt_toInt32]
  rfl

theorem fits_upper20 : fitsSigned 20 (upper20 v) = true := by
  rw [fitsSigned_iff, toInt_upper20, Int.bmod_def]
  simp only [Nat.reduceSub, Int.reducePow, Nat.reducePow]
  omega

/-- Shifted up again, the upper bits of the low word are the low word. -/
theorem toInt_upper20_shift : (upper20 (high12 v) <<< 12).toInt = (high12 v).toInt.bmod (2 ^ 32) := by
  have hd := dvd_high12 v
  rw [toInt_shiftLeft _ (rfl : (12 : Int64) = Int64.ofNat 12) (by decide), toInt_upper20, Int.bmod_def, Int.bmod_def]
  simp only [Int.reducePow, Nat.reducePow]
  omega

theorem perform_constSteps32 (h : isInt32 imm = true) (toZero : Bool) (v : Int64) :
    perform v (constSteps32 toZero imm) = imm := by
  have hword := bmod_of_isInt32 h
  have hsum := high12_add_low12 imm
  by_cases hz : high12 imm = 0
  · -- the low twelve bits are the whole constant
    rw [hz, Int64.zero_add] at hsum
    rw [constSteps32, if_pos hz]
    show (low12 imm).toInt32.toInt64 = imm
    rw [hsum, ← Int64.toInt_inj, Int32.toInt_toInt64, Int64.toInt_toInt32, hword]
  · rw [constSteps32, if_neg hz]
    have hup := toInt_upper20_shift imm
    by_cases hl : (decide (low12 imm = 0) && !toZero) = true
    · have hlow : low12 imm = 0 := by simpa using (Bool.and_eq_true_iff.mp hl).1
      rw [hlow, Int64.add_zero] at hsum
      rw [if_pos hl]
      show upper20 (high12 imm) <<< 12 = imm
      rw [← Int64.toInt_inj, hup, hsum, hword]
    · rw [if_neg hl]
      show (upper20 (high12 imm) <<< 12 + low12 imm).toInt32.toInt64 = imm
      rw [← Int64.toInt_inj, Int32.toInt_toInt64, Int64.toInt_toInt32, Int64.toInt_add, hup,
        Int.bmod_bmod_of_dvd (by decide), Int.bmod_add_bmod, ← Int.bmod_bmod_of_dvd (m := 2 ^ 64) (by decide),
        ← Int64.toInt_add, hsum, hword]

theorem fits_constSteps32 : ∀ s ∈ constSteps32 toZero imm, s.Fits := by
  intro s hs
  rw [constSteps32] at hs
  split at hs
  · rw [List.mem_singleton.mp hs]
    exact isImm12_low12 imm
  · rcases List.mem_cons.mp hs with rfl | hs
    · exact fits_upper20 _
    · split at hs
      · cases hs
      · rw [List.mem_singleton.mp hs]
        exact isImm12_low12 imm

/-! ## Rounds -/

theorem high12_ne_zero (h : ¬ isInt32 imm = true) : (high12 imm).toUInt64 ≠ 0 := by
  intro e
  have hz : (high12 imm).toInt = 0 := congrArg (fun v : UInt64 => v.toInt64.toInt) e
  rw [toInt_high12, Int.bmod_def, Int.bmod_def] at hz
  rw [isInt32_iff] at h
  simp only [Int.reducePow, Nat.reducePow] at h hz
  have := imm.toInt_lt
  have := imm.le_toInt
  omega

theorem toInt_emod_toNat : v.toInt % 2 ^ 64 = v.toUInt64.toNat := by
  have h : v.toInt = (v.toUInt64.toNat : Int).bmod (2 ^ 64) := by
    rw [← Int64.toInt_toBitVec, BitVec.toInt_eq_toNat_bmod]
    rfl
  have := v.toUInt64.toNat_lt
  rw [h, Int.bmod_def]
  simp only [Nat.reducePow, Int.reducePow]
  omega

theorem pow_dvd_toInt {v : Int64} {k : Nat} (hk : k ≤ 64) : (2 : Int) ^ k ∣ v.toInt ↔ 2 ^ k ∣ v.toUInt64.toNat := by
  have h64 : (2 : Int) ^ k ∣ 2 ^ 64 := by exact_mod_cast Nat.pow_dvd_pow 2 hk
  rw [Int.dvd_iff_emod_eq_zero, ← Int.emod_emod_of_dvd _ h64, toInt_emod_toNat, ← Int.dvd_iff_emod_eq_zero]
  norm_cast

/-- The number of zeros that a round shifts away. -/
def zerosOf (imm : Int64) : Nat := trailingZeros 64 (high12 imm).toUInt64

theorem zerosOf_lt (h : ¬ isInt32 imm = true) : zerosOf imm < 64 := trailingZeros_lt (high12_ne_zero h)

theorem le_zerosOf (imm : Int64) : 12 ≤ zerosOf imm := by
  refine le_trailingZeros (by decide) ((pow_dvd_toInt (by decide)).mp ?_)
  exact dvd_high12 imm

theorem toInt_rest (h : ¬ isInt32 imm = true) :
    (high12 imm >>> Int64.ofNat (zerosOf imm)).toInt * 2 ^ zerosOf imm = (high12 imm).toInt := by
  rw [toInt_shiftRight _ rfl (zerosOf_lt h)]
  have hd : (2 : Int) ^ zerosOf imm ∣ (high12 imm).toInt :=
    (pow_dvd_toInt (Nat.le_of_lt (zerosOf_lt h))).mpr (pow_trailingZeros_dvd 64 _)
  exact Int.ediv_mul_cancel hd

theorem rest_shift (h : ¬ isInt32 imm = true) :
    high12 imm >>> Int64.ofNat (zerosOf imm) <<< Int64.ofNat (zerosOf imm) = high12 imm := by
  rw [← Int64.toInt_inj, toInt_shiftLeft _ rfl (zerosOf_lt h), toInt_rest h]
  exact Int64.toInt_bmod_size _

/-- A round takes twelve bits away. -/
theorem abs_rest {n : Nat} (h : ¬ isInt32 imm = true) (hb : imm.toInt.natAbs ≤ 2 ^ (n + 12)) :
    (high12 imm >>> Int64.ofNat (zerosOf imm)).toInt.natAbs ≤ 2 ^ n := by
  have hrest := congrArg Int.natAbs (toInt_rest h)
  have hhigh := abs_high12 imm
  rw [Int.natAbs_mul, Int.natAbs_pow] at hrest
  have hpow : 4096 ≤ 2 ^ zerosOf imm := Nat.pow_le_pow_right (by decide : 0 < 2) (le_zerosOf imm)
  have hle := Nat.mul_le_mul_left (high12 imm >>> Int64.ofNat (zerosOf imm)).toInt.natAbs hpow
  rw [Nat.pow_add] at hb
  rw [show Int.natAbs 2 = 2 from rfl] at hrest
  omega

/-- The last step of a round. -/
def lowStep (imm : Int64) : List ConstStep := if low12 imm = 0 then [] else [.addi (low12 imm)]

theorem perform_lowStep (imm : Int64) : perform (high12 imm) (lowStep imm) = imm := by
  have hsum := high12_add_low12 imm
  by_cases hl : low12 imm = 0
  · rw [lowStep, if_pos hl]
    rw [hl, Int64.add_zero] at hsum
    exact hsum
  · rw [lowStep, if_neg hl]
    exact hsum

theorem constSteps_succ {toZero : Bool} {n : Nat} (h : ¬ isInt32 imm = true) :
    constSteps toZero (n + 1) imm = constSteps toZero n (high12 imm >>> Int64.ofNat (zerosOf imm)) ++
      .slli (Int64.ofNat (zerosOf imm)) :: lowStep imm := by
  rw [constSteps, if_neg h]
  rfl

/-- The steps lead from any value to the constant. -/
theorem perform_rounds (n : Nat) (v : Int64) (hb : imm.toInt.natAbs ≤ 2 ^ (12 * n + 27)) :
    perform v (constSteps toZero (n + 1) imm) = imm := by
  induction n generalizing imm v with
  | zero =>
    have hint : isInt32 imm = true := by
      rw [isInt32_iff]
      simp only [Int.reducePow]
      omega
    rw [constSteps, if_pos hint]
    exact perform_constSteps32 hint toZero v
  | succ n ih =>
    by_cases hint : isInt32 imm = true
    · rw [constSteps, if_pos hint]
      exact perform_constSteps32 hint toZero v
    · have hrest := ih v (abs_rest hint (n := 12 * n + 27) hb)
      rw [constSteps_succ hint, perform_append, hrest, perform_cons, ConstStep.apply, rest_shift hint]
      exact perform_lowStep imm

theorem fits_rounds (n : Nat) : ∀ s ∈ constSteps toZero n imm, s.Fits := by
  induction n generalizing imm with
  | zero => intro s hs; cases hs
  | succ n ih =>
    intro s hs
    by_cases hint : isInt32 imm = true
    · rw [constSteps, if_pos hint] at hs
      exact fits_constSteps32 toZero s hs
    · rw [constSteps_succ hint] at hs
      rcases List.mem_append.mp hs with hs | hs
      · exact ih s hs
      · rcases List.mem_cons.mp hs with rfl | hs
        · have hz := zerosOf_lt hint
          have e : (Int64.ofNat (zerosOf imm)).toInt = zerosOf imm := Int64.toInt_ofNat_of_lt (by omega)
          show 0 ≤ (Int64.ofNat (zerosOf imm)).toInt ∧ (Int64.ofNat (zerosOf imm)).toInt < 64
          omega
        · rw [lowStep] at hs
          split at hs
          · cases hs
          · rw [List.mem_singleton.mp hs]
            exact isImm12_low12 imm

end

theorem perform_constSteps (toZero : Bool) (v imm : Int64) : perform v (constSteps toZero constRounds imm) = imm := by
  refine perform_rounds toZero 7 v ?_
  have := imm.toInt_lt
  have := imm.le_toInt
  simp only [Nat.reduceMul, Nat.reduceAdd, Nat.reducePow]
  omega

/-! ## Steps on registers -/

theorem toInt32_toUInt64 (v : UInt64) : v.toUInt32.toInt32 = v.toInt64.toInt32 := by
  rw [← Int32.toBitVec_inj, Int64.toBitVec_toInt32, BitVec.signExtend_eq_setWidth_of_le _ (by decide)]
  rfl

/-- A register that holds the sign extension of its own low word. -/
theorem sext_toUInt32 (v : UInt64) : sext v.toUInt32 = v.toInt64.toInt32.toInt64.toUInt64 := by
  rw [sext, toInt32_toUInt64]

theorem toUInt64_shiftLeft (hn : n < 64) : (v <<< Int64.ofNat n).toUInt64 = v.toUInt64 <<< UInt64.ofNat n := by
  rw [← UInt64.toBitVec_inj]
  show v.toBitVec <<< (BitVec.ofNat 64 n).smod 64 = v.toBitVec <<< (BitVec.ofNat 64 n % 64)
  rw [smod_of_lt hn]
  congr 1
  rw [← BitVec.toNat_inj, BitVec.toNat_umod, BitVec.toNat_ofNat, Nat.mod_eq_of_lt (a := n) (by omega)]
  exact (Nat.mod_eq_of_lt hn).symm

end RiscvJit
