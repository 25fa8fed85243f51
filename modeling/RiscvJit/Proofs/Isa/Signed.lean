import RiscvJit.Code.Sequence

/-
  RiscvJit.Proofs.Isa.Signed — signed words as numbers.

  A shift of a signed word by a constant is a product or a quotient of numbers
  (`toInt_shiftLeft`, `toInt_shiftRight`). A distance is its high part times 4096 plus its low
  part, and the low part fits twelve bits; so is a constant (`high12_add_low12`). Rounding up to
  a power of two is the quotient, rounded up, times that power (`toInt_alignUp`). A positive word is a
  power of two exactly if it shares no bit with the word below it (`and_pred_eq_zero_iff`).
-/

namespace RiscvJit

variable {n k : Nat}

theorem smod_of_lt (h : n < 64) : (BitVec.ofNat 64 n).smod 64 = BitVec.ofNat 64 n := by
  have all : ∀ n < 64, (BitVec.ofNat 64 n).smod 64 = BitVec.ofNat 64 n := by decide +kernel
  exact all n h

theorem toInt_shiftRight (v : Int64) {k : Int64} (hk : k = Int64.ofNat n) (hn : n < 64) :
    (v >>> k).toInt = v.toInt / 2 ^ n := by
  subst hk
  have e : (v >>> Int64.ofNat n).toBitVec = v.toBitVec.sshiftRight n := by
    show v.toBitVec.sshiftRight' ((BitVec.ofNat 64 n).smod 64) = _
    rw [smod_of_lt hn, BitVec.sshiftRight_eq', BitVec.toNat_ofNat, Nat.mod_eq_of_lt (by omega)]
  rw [← Int64.toInt_toBitVec, e, BitVec.toInt_sshiftRight, Int64.toInt_toBitVec, Int.shiftRight_eq_div_pow]
  norm_cast

theorem toInt_shiftLeft (v : Int64) {k : Int64} (hk : k = Int64.ofNat n) (hn : n < 64) :
    (v <<< k).toInt = (v.toInt * 2 ^ n).bmod (2 ^ 64) := by
  subst hk
  have e : (v <<< Int64.ofNat n).toBitVec = v.toBitVec <<< n := by
    show v.toBitVec <<< (BitVec.ofNat 64 n).smod 64 = _
    rw [smod_of_lt hn, BitVec.shiftLeft_eq', BitVec.toNat_ofNat, Nat.mod_eq_of_lt (by omega)]
  rw [← Int64.toInt_toBitVec, e, BitVec.toInt_shiftLeft, ← Int64.toInt_toBitVec v, BitVec.toInt_eq_toNat_bmod]
  rw [Nat.shiftLeft_eq, Int.natCast_mul, Int.natCast_pow, Int.bmod_mul_bmod]
  rfl

/-! ## Distances in two parts -/

section
variable {d : Int64} (h : -(2 ^ 62) ≤ d.toInt) (h' : d.toInt < 2 ^ 62)
include h h'

theorem toInt_highPart : (Assembler.highPart d).toInt = (d.toInt + 2048) / 4096 := by
  rw [Assembler.highPart, toInt_shiftRight _ (rfl : (12 : Int64) = Int64.ofNat 12) (by decide), Int64.toInt_add,
    show (0x800 : Int64).toInt = 2048 from rfl, show (2 : Int) ^ 12 = 4096 from rfl, Int.bmod_eq_of_le] <;> omega

theorem toInt_lowPart : (Assembler.lowPart d).toInt = d.toInt - (d.toInt + 2048) / 4096 * 4096 := by
  have e := toInt_highPart h h'
  rw [Assembler.lowPart, Int64.toInt_sub, toInt_shiftLeft _ (rfl : (12 : Int64) = Int64.ofNat 12) (by decide), e,
    show (2 : Int) ^ 12 = 4096 from rfl, Int.sub_bmod_bmod, Int.bmod_eq_of_le] <;> omega

end

/-! ## Rounding -/

/-- A word that is a number in range, taken as a word, is that number. -/
theorem toInt_of_eq {x : Int64} {v : Int} (h : x = Int64.ofInt v) (lo : -2 ^ 63 ≤ v) (hi : v < 2 ^ 63) :
    x.toInt = v := by
  rw [h, Int64.toInt_ofInt_of_le (by omega) (by omega)]

theorem and_not_mask (x : BitVec 64) (k : Nat) :
    x &&& ~~~(BitVec.ofNat 64 (2 ^ k - 1)) = x - (x &&& BitVec.ofNat 64 (2 ^ k - 1)) := by
  have e : (x &&& ~~~(BitVec.ofNat 64 (2 ^ k - 1))) + (x &&& BitVec.ofNat 64 (2 ^ k - 1)) = x := by
    rw [BitVec.add_eq_or_of_and_eq_zero]
    · ext i hi; simp; grind
    · ext i hi; simp; grind
  rw [BitVec.eq_sub_iff_add_eq, e]

/-- Clearing the low bits of a word rounds it down. -/
theorem toNat_and_not_low (x : BitVec 64) (hk : k < 64) :
    (x &&& ~~~(BitVec.ofNat 64 (2 ^ k - 1))).toNat = x.toNat / 2 ^ k * 2 ^ k := by
  have hp : (2 ^ k : Nat) < 2 ^ 64 := Nat.pow_lt_pow_right (by decide) hk
  have low : (x &&& BitVec.ofNat 64 (2 ^ k - 1)).toNat = x.toNat % 2 ^ k := by
    rw [BitVec.toNat_and, BitVec.toNat_ofNat, Nat.mod_eq_of_lt (by omega), Nat.and_two_pow_sub_one_eq_mod]
  have le : x &&& BitVec.ofNat 64 (2 ^ k - 1) ≤ x := by
    rw [BitVec.le_def, low]
    exact Nat.mod_le ..
  have := Nat.div_add_mod x.toNat (2 ^ k)
  rw [and_not_mask, BitVec.toNat_sub_of_le le, low, Nat.mul_comm]
  omega

/-- Clearing the low bits of a number that is not negative rounds it down. -/
theorem toInt_and_not_low {m : Int64} (hk : k < 63) (h0 : 0 ≤ m.toInt) :
    (m &&& ~~~(Int64.ofNat (2 ^ k - 1))).toInt = m.toInt / 2 ^ k * 2 ^ k := by
  have hm : m.toInt = (m.toBitVec.toNat : Int) := by
    rw [← Int64.toInt_toBitVec] at h0 ⊢
    rw [BitVec.toInt_eq_toNat_of_msb]
    rw [BitVec.msb_eq_toInt]
    simpa using h0
  have lt : m.toBitVec.toNat < 2 ^ 63 := by
    have := m.toInt_lt
    omega
  have e : (m &&& ~~~(Int64.ofNat (2 ^ k - 1))).toBitVec = m.toBitVec &&& ~~~(BitVec.ofNat 64 (2 ^ k - 1)) := rfl
  have down := toNat_and_not_low m.toBitVec (k := k) (by omega)
  have small := Nat.div_mul_le_self m.toBitVec.toNat (2 ^ k)
  rw [← Int64.toInt_toBitVec, e, BitVec.toInt_eq_toNat_of_lt (by omega), down, hm]
  norm_cast

theorem toInt_alignUp {n : Int64} (hk : k < 63) (h0 : 0 ≤ n.toInt) (h : n.toInt + 2 ^ k ≤ 2 ^ 63) :
    (alignUp n (Int64.ofNat (2 ^ k))).toInt = (n.toInt + (2 ^ k - 1)) / 2 ^ k * 2 ^ k := by
  have h1 : (1 : Nat) ≤ 2 ^ k := Nat.one_le_two_pow
  have cast : ((2 ^ k : Nat) : Int) = 2 ^ k := by norm_cast
  have mask : Int64.ofNat (2 ^ k) - 1 = Int64.ofNat (2 ^ k - 1) := by
    have e : Int64.ofNat (2 ^ k) = Int64.ofNat (2 ^ k - 1) + 1 := by
      rw [show (1 : Int64) = Int64.ofNat 1 from rfl, ← Int64.ofNat_add, Nat.sub_add_cancel h1]
    rw [e]
    grind
  have e : (n + Int64.ofNat (2 ^ k) - 1).toInt = n.toInt + (2 ^ k - 1) := by
    refine toInt_of_eq ?_ (by omega) (by omega)
    rw [← cast, Int64.ofInt_add, Int64.ofInt_sub, Int64.ofInt_toInt, Int64.ofInt_eq_ofNat]
    grind
  rw [alignUp, mask, toInt_and_not_low (by omega) (by omega), e]

theorem alignUp_ofNat (hk : k < 63) (h : n + 2 ^ k ≤ 2 ^ 63) :
    alignUp (Int64.ofNat n) (Int64.ofNat (2 ^ k)) = Int64.ofNat ((n + (2 ^ k - 1)) / 2 ^ k * 2 ^ k) := by
  have hpos : (1 : Nat) ≤ 2 ^ k := Nat.one_le_two_pow
  have hn : (Int64.ofNat n).toInt = n := Int64.toInt_ofNat_of_lt (by omega)
  have hup : (n + (2 ^ k - 1)) / 2 ^ k * 2 ^ k ≤ n + (2 ^ k - 1) := Nat.div_mul_le_self ..
  have hmask : ((2 ^ k - 1 : Nat) : Int) = 2 ^ k - 1 := by
    rw [Int.ofNat_sub hpos]
    norm_cast
  apply Int64.toInt_inj.mp
  rw [toInt_alignUp hk (by omega) (by rw [hn]; norm_cast), hn, Int64.toInt_ofNat_of_lt (by omega)]
  push_cast
  rw [hmask]

theorem toInt_add_small {a n : Int64} (ha : 0 ≤ a.toInt) (hn : 0 ≤ n.toInt) (h : a.toInt + n.toInt < 2 ^ 63) :
    (a + n).toInt = a.toInt + n.toInt := by
  rw [Int64.toInt_add, Int.bmod_eq_of_le] <;> omega

theorem toInt_sub_small {a n : Int64} (ha : 0 ≤ a.toInt) (hn : 0 ≤ n.toInt) : (a - n).toInt = a.toInt - n.toInt := by
  have := a.toInt_lt
  have := n.toInt_lt
  rw [Int64.toInt_sub, Int.bmod_eq_of_le] <;> omega

/-! ## Powers of two -/

/-- A number that shares no bit with the one below it is a power of two. -/
theorem two_pow_of_and_pred (hn : 0 < n) (h : n &&& (n - 1) = 0) : ∃ k, n = 2 ^ k := by
  refine ⟨n.log2, Classical.byContradiction fun hne => ?_⟩
  have hle : 2 ^ n.log2 ≤ n := Nat.log2_self_le (by omega)
  have hlt : n < 2 ^ (n.log2 + 1) := Nat.lt_log2_self
  -- otherwise both have the highest bit
  have hbit := congrArg (Nat.testBit · n.log2) h
  simp only [Nat.testBit_and, Nat.zero_testBit] at hbit
  rw [Nat.testBit_of_two_pow_le_and_two_pow_add_one_gt hle hlt,
    Nat.testBit_of_two_pow_le_and_two_pow_add_one_gt (by omega : 2 ^ n.log2 ≤ n - 1) (by omega)] at hbit
  cases hbit

/-- A power of two among the signed words, as a word. -/
theorem eq_ofNat_of_toInt {n : Int64} (h : n.toInt = 2 ^ k) : k < 63 ∧ n = Int64.ofNat (2 ^ k) := by
  have hcast : ((2 ^ k : Nat) : Int) = 2 ^ k := by norm_cast
  constructor
  · have hlt : 2 ^ k < 2 ^ 63 := by
      have := n.toInt_lt
      omega
    exact (Nat.pow_lt_pow_iff_right (by decide)).mp hlt
  · rw [← Int64.ofInt_toInt n, h, ← hcast]
    rfl

/-- A positive word shares no bit with the word below it exactly if it is a power of two. -/
theorem and_pred_eq_zero_iff {n : Int64} (hn : 0 < n.toInt) : n &&& (n - 1) = 0 ↔ ∃ k : Nat, n.toInt = 2 ^ k := by
  have hrange := n.toInt_lt
  obtain ⟨m, hm⟩ := Int.eq_ofNat_of_zero_le (Int.le_of_lt hn)
  have hword : n = Int64.ofNat m := by
    rw [← Int64.ofInt_toInt n, hm]
    rfl
  have hsmall : m < UInt64.size := by
    show m < 2 ^ 64
    omega
  have hpred : (UInt64.ofNat m - 1).toNat = m - 1 := by
    rw [UInt64.toNat_sub_of_le _ _ (UInt64.le_iff_toNat_le.mpr
      (by rw [UInt64.toNat_ofNat_of_lt' hsmall]; show 1 ≤ m; omega)),
      UInt64.toNat_ofNat_of_lt' hsmall]
    rfl
  have hand : (n &&& (n - 1)).toUInt64.toNat = m &&& (m - 1) := by
    rw [hword, Int64.toUInt64_and, Int64.toUInt64_sub, UInt64.toNat_and,
      show (Int64.ofNat m).toUInt64 = UInt64.ofNat m from rfl, show Int64.toUInt64 1 = 1 from rfl, hpred,
      UInt64.toNat_ofNat_of_lt' hsmall]
  constructor
  · intro h
    rw [h] at hand
    obtain ⟨k, rfl⟩ := two_pow_of_and_pred (by omega) hand.symm
    exact ⟨k, by rw [hm]; norm_cast⟩
  · rintro ⟨k, hk⟩
    have hmk : m = 2 ^ k := by
      have : (m : Int) = ((2 ^ k : Nat) : Int) := by rw [← hm, hk]; norm_cast
      omega
    rw [hmk, Nat.and_two_pow_sub_one_eq_mod, Nat.mod_self] at hand
    have hzero : (n &&& (n - 1)).toUInt64 = 0 := UInt64.toNat_inj.mp hand
    rw [← Int64.toInt64_toUInt64 (n &&& (n - 1)), hzero]
    rfl

/-- An even address has its lowest bit clear. -/
theorem and_not_one {x : UInt64} (h : x % 2 = 0) : x &&& ~~~1 = x := by
  have heven : x.toNat % 2 = 0 := by
    rw [← UInt64.toNat_ofNat_of_lt (n := 2) (by decide), ← UInt64.toNat_mod]
    exact congrArg UInt64.toNat h
  have hlow : x.toBitVec.getLsbD 0 = false := by
    rw [BitVec.getLsbD, Nat.testBit_zero, UInt64.toNat_toBitVec, heven]
    rfl
  apply UInt64.toBitVec_inj.mp
  rw [UInt64.toBitVec_and, UInt64.toBitVec_not, UInt64.toBitVec_one]
  apply BitVec.eq_of_getLsbD_eq
  intro i hi
  rw [BitVec.getLsbD_and, BitVec.getLsbD_not, BitVec.getLsbD_one]
  by_cases h0 : i = 0
  · rw [h0, hlow]
    rfl
  · simp [h0, hi]

end RiscvJit
