import RiscvJit.Proofs.Isa.Table

/-
  RiscvJit.Proofs.Isa.RoundTrip — encoding and decoding undo each other.

  `Inst.word` is the machine word of an instruction and `Inst.fields` says, format by format,
  what stands in its fields (`split_word`). An instruction is `Proper` when its operands are
  those its format has and lie in their ranges. Then

    - a proper instruction is what its word decodes to (`decode_word`);
    - a word that decodes is the word of what it decodes to, the fence apart, which ignores the
      bits of its registers (`word_of_decode`).
-/

namespace RiscvJit

open Op

/-! ## Registers and immediates -/

theorem regField_lt (r : Reg) : (regField r).toNat < 2 ^ 5 := by
  cases r with
  | x n => have := n.isLt; simp [regField]; omega
  | f n => have := n.isLt; simp [regField]; omega
  | none => decide

theorem regOfField_of_admits {c : RegClass} {r : Reg} {bits : UInt32} (h : c.admits r = true)
    (hb : c ≠ .none → bits.toNat = (regField r).toNat) : regOfField c bits = r := by
  cases c with
  | none => cases r <;> simp_all [RegClass.admits, regOfField]
  | int =>
    cases r with
    | x n =>
      have hn := n.isLt
      rw [regOfField, hb nofun, regField, UInt32.toNat_ofNat', Nat.mod_eq_of_lt (by omega)]
      simp
    | f n => cases h
    | none => cases h
  | float =>
    cases r with
    | x n => cases h
    | f n =>
      have hn := n.isLt
      rw [regOfField, hb nofun, regField, UInt32.toNat_ofNat', Nat.mod_eq_of_lt (by omega)]
      simp
    | none => cases h

theorem toNat_regField_regOfField {c : RegClass} (h : c ≠ .none) (bits : UInt32) :
    (regField (regOfField c bits)).toNat = bits.toNat % 2 ^ 5 := by
  cases c with
  | none => exact absurd rfl h
  | int => simp [regOfField, regField]; omega
  | float => simp [regOfField, regField]; omega

theorem toInt_lowWord (v : Int64) : ((lowWord v).toNat : Int) = v.toInt % 2 ^ 32 := by
  have h : v.toInt =
      if 2 * v.toUInt64.toNat < 2 ^ 64 then (v.toUInt64.toNat : Int) else v.toUInt64.toNat - 2 ^ 64 := by
    rw [← Int64.toInt_toBitVec, BitVec.toInt_eq_toNat_cond]
    rfl
  rw [lowWord, UInt64.toNat_toUInt32]
  split at h <;> omega

theorem fitsSigned_iff (n : Nat) (v : Int64) :
    fitsSigned n v = true ↔ -(2 ^ (n - 1) : Int) ≤ v.toInt ∧ v.toInt < 2 ^ (n - 1) := by
  simp [fitsSigned]

variable {n : Nat} {v : UInt32} {imm : Int64} {i : Inst} {f7 : Nat}

theorem signExtend_of_fits (hn : 0 < n) (h : fitsSigned n imm = true) (hv : (v.toNat : Int) % 2 ^ n = imm.toInt % 2 ^ n) :
    signExtend n v = imm := by
  obtain ⟨m, rfl⟩ : ∃ m, n = m + 1 := ⟨n - 1, by omega⟩
  rw [fitsSigned_iff] at h
  have hp : (2 : Int) ^ (m + 1) = 2 * 2 ^ m := by rw [Int.pow_succ, Int.mul_comm]
  have e : Int.bmod v.toNat (2 ^ (m + 1)) = imm.toInt := by
    have hc : ((2 ^ (m + 1) : Nat) : Int) = 2 ^ (m + 1) := by simp
    rw [Int.bmod_def, hc, hv, ← hc, ← Int.bmod_def, Int.bmod_eq_of_le] <;> rw [hc, hp] <;>
      simp only [Nat.add_sub_cancel] at h <;> omega
  rw [signExtend, e, Int64.ofInt_toInt]

/-- An immediate of `n` bits is found again from the low `n` bits of its word. -/
theorem signExtend_of_low (hn : 0 < n) (hw : n ≤ 32) (h : fitsSigned n imm = true)
    (hv : v.toNat % 2 ^ n = (lowWord imm).toNat % 2 ^ n) : signExtend n v = imm := by
  refine signExtend_of_fits hn h ?_
  have h32 : ((2 ^ n : Nat) : Int) ∣ 2 ^ 32 := by exact_mod_cast Nat.pow_dvd_pow 2 hw
  have e : ((v.toNat % 2 ^ n : Nat) : Int) = ((lowWord imm).toNat % 2 ^ n : Nat) := congrArg _ hv
  rw [Int.natCast_emod, Int.natCast_emod, toInt_lowWord, Int.emod_emod_of_dvd _ h32] at e
  exact_mod_cast e

theorem lowWord_even (h : imm.toInt % 2 = 0) : (lowWord imm).toNat % 2 = 0 := by
  have e := toInt_lowWord imm
  omega

/-- The word of a small immediate is the immediate. -/
theorem toNat_lowWord (h : 0 ≤ imm.toInt) (hn : imm.toInt < 2 ^ 32) : ((lowWord imm).toNat : Int) = imm.toInt := by
  rw [toInt_lowWord, Int.emod_eq_of_lt h hn]

theorem bmod_emod_of_dvd (x : Int) {m : Nat} (h : (n : Int) ∣ m) : Int.bmod x m % n = x % n := by
  rw [← Int.emod_emod_of_dvd _ h, Int.bmod_emod, Int.emod_emod_of_dvd _ h]

theorem lowWord_signExtend (hn : n ≤ 32) (v : UInt32) : (lowWord (signExtend n v)).toNat % 2 ^ n = v.toNat % 2 ^ n := by
  have h32 : ((2 ^ n : Nat) : Int) ∣ 2 ^ 32 := by exact_mod_cast Nat.pow_dvd_pow 2 hn
  have h64 : ((2 ^ n : Nat) : Int) ∣ Int64.size := by exact_mod_cast Nat.pow_dvd_pow 2 (show n ≤ 64 by omega)
  have e : ((lowWord (signExtend n v)).toNat : Int) % (2 ^ n : Nat) = v.toNat % (2 ^ n : Nat) := by
    rw [toInt_lowWord, Int.emod_emod_of_dvd _ h32, signExtend, Int64.toInt_ofInt, bmod_emod_of_dvd _ h64,
      Int.bmod_emod]
  exact_mod_cast e

theorem toNat_lowWord_ofNat (h : n < 2 ^ 32) : (lowWord (Int64.ofNat n)).toNat = n := by
  have := toInt_lowWord (Int64.ofNat n)
  rw [Int64.toInt_ofNat_of_lt (by omega)] at this
  omega

theorem ofNat_eq_of_toInt {v : Int64} (h : (n : Int) = v.toInt) : Int64.ofNat n = v := by
  rw [← Int64.ofInt_eq_ofNat, h, Int64.ofInt_toInt]

/-! ## Instructions as words -/

namespace Inst

/-- What stands in the place of the immediate: it, or the rounding mode. -/
def operand (i : Inst) : Int64 := if i.op.info.format.rounds then Int64.ofNat i.rm.toNat else i.imm

/-- The machine word of an instruction. -/
def word (i : Inst) : UInt32 := i.op.encode i.rd i.rs1 i.rs2 i.operand i.aqrl

/-- An instruction that a word can stand for: the registers are of the files of its row, the
immediate fits, and what its format does not hold is absent or zero. -/
structure Proper (i : Inst) : Prop where
  op : i.op ≠ .invalid
  rd : i.op.info.rd.admits i.rd = true
  rs1 : i.op.info.rs1.admits i.rs1 = true
  rs2 : i.op.info.rs2.admits i.rs2 = true
  imm : i.op.info.format.admits i.imm = true
  noImm : i.op.info.format.hasImm = false → i.imm = 0
  aqrl : i.aqrl < 4
  noAqrl : i.op.info.format.orders = false → i.aqrl = 0
  rm : i.rm < 8
  noRm : i.op.info.format.rounds = false → i.rm = 0

end Inst

/-- The fields of the word of an instruction above its opcode. -/
structure Fields where
  rd : Nat
  funct3 : Nat
  rs1 : Nat
  rs2 : Nat
  funct7 : Nat

def Inst.fields (i : Inst) : Fields :=
  let f3 := i.op.info.funct3.toNat
  let f7 := i.op.info.funct7.toNat
  let d := (regField i.rd).toNat
  let s1 := (regField i.rs1).toNat
  let s2 := (regField i.rs2).toNat
  let v := (lowWord i.imm).toNat
  match i.op.info.format with
  | .r | .floatFixed => ⟨d, f3, s1, s2, f7⟩
  | .i | .load | .jumpReg => ⟨d, f3, s1, v % 2 ^ 5, v / 2 ^ 5 % 2 ^ 7⟩
  | .store => ⟨v % 2 ^ 5, f3, s1, s2, v / 2 ^ 5 % 2 ^ 7⟩
  | .branch => ⟨v / 2 % 2 ^ 4 * 2 + v / 2 ^ 11 % 2, f3, s1, s2, v / 2 ^ 12 % 2 * 2 ^ 6 + v / 2 ^ 5 % 2 ^ 6⟩
  | .upper => ⟨d, v % 2 ^ 3, v / 2 ^ 3 % 2 ^ 5, v / 2 ^ 8 % 2 ^ 5, v / 2 ^ 13 % 2 ^ 7⟩
  | .jump =>
    ⟨d, v / 2 ^ 12 % 2 ^ 3, v / 2 ^ 15 % 2 ^ 5, v / 2 % 2 ^ 4 * 2 + v / 2 ^ 11 % 2,
      v / 2 ^ 20 % 2 * 2 ^ 6 + v / 2 ^ 5 % 2 ^ 6⟩
  | .shift64 => ⟨d, f3, s1, v % 2 ^ 5, f7 + v / 2 ^ 5 % 2⟩
  | .shift32 => ⟨d, f3, s1, v % 2 ^ 5, f7⟩
  | .fence => ⟨0, f3, 0, v % 2 ^ 5, v / 2 ^ 5 % 2 ^ 3⟩
  | .system => ⟨0, f3, 0, f7 % 2 ^ 5, f7 / 2 ^ 5⟩
  | .atomic => ⟨d, f3, s1, s2, f7 + i.aqrl.toNat⟩
  | .reserve => ⟨d, f3, s1, 0, f7 + i.aqrl.toNat⟩
  | .floatArith => ⟨d, i.rm.toNat, s1, s2, f7⟩
  | .floatConvert => ⟨d, i.rm.toNat, s1, i.op.info.fixed.toNat, f7⟩
  | .floatMove => ⟨d, f3, s1, i.op.info.fixed.toNat, f7⟩

theorem toNat_ordered {f7 aqrl : UInt32} (h : f7.toNat % 4 = 0) (ha : aqrl.toNat < 4) :
    (f7 ||| aqrl).toNat = f7.toNat + aqrl.toNat := by
  have := mul_two_pow_or (f7.toNat / 4) (k := 2) ha
  rw [UInt32.toNat_or]
  have e : f7.toNat / 4 * 2 ^ 2 = f7.toNat := by omega
  rwa [e] at this

theorem toNat_rounding (hf : i.op.info.format.rounds = true) (h : i.rm.toNat < 8) :
    (lowWord i.operand &&& 7).toNat = i.rm.toNat := by
  rw [Inst.operand, if_pos hf, toNat_low _ 7 3 rfl, toNat_lowWord_ofNat (by omega)]
  omega

theorem toNat_shamt64 {f7 : UInt32} (h7 : f7.toNat < 2 ^ 7) (h : f7.toNat % 2 = 0) :
    (f7 <<< 5 ||| v &&& 0x3f).toNat = f7.toNat * 2 ^ 5 + v.toNat % 2 ^ 6 := by
  have e := mul_two_pow_or (f7.toNat / 2) (k := 6) (Nat.mod_lt v.toNat (Nat.two_pow_pos 6))
  rw [UInt32.toNat_or, UInt32.toNat_shiftLeft, toNat_low v 0x3f 6 rfl, Nat.shiftLeft_eq]
  have e5 : f7.toNat * 2 ^ (UInt32.toNat 5 % 32) % 2 ^ 32 = f7.toNat / 2 * 2 ^ 6 := by
    rw [show UInt32.toNat 5 % 32 = 5 from rfl]
    omega
  rw [e5, e]
  omega

/-- The word of an instruction, field by field. -/
theorem split_word (hop : i.op ≠ .invalid) (haq : i.aqrl.toNat < 4) (hrm : i.rm.toNat < 8) :
    Split i.word i.op.info.opcode.toNat i.fields.rd i.fields.funct3 i.fields.rs1 i.fields.rs2 i.fields.funct7 := by
  have hr := info_regular _ (mem_named _ hop)
  obtain ⟨ho, h3, h7, hx⟩ := OpInfo.regular_bounds hr
  obtain ⟨room6, room4⟩ := OpInfo.regular_room hr
  have hd := regField_lt i.rd
  have h1 := regField_lt i.rs1
  have h2 := regField_lt i.rs2
  have zero : (0 : UInt32).toNat < 2 ^ 5 := by decide
  have operand : i.op.info.format.rounds = false → i.operand = i.imm := fun hn => if_neg (by rw [hn]; nofun)
  cases hf : i.op.info.format <;> simp only [Inst.word, Op.encode, Inst.fields, hf]
  case r | floatFixed => exact split_encodeR ho h3 h7 hd h1 h2
  case i | load | jumpReg => rw [operand (by rw [hf]; rfl)]; exact split_encodeI _ ho h3 hd h1
  case store => rw [operand (by rw [hf]; rfl)]; exact split_encodeS ho h3 h1 h2
  case branch => rw [operand (by rw [hf]; rfl)]; exact split_encodeB ho h3 h1 h2
  case upper => rw [operand (by rw [hf]; rfl)]; exact split_encodeU ho hd
  case jump => rw [operand (by rw [hf]; rfl)]; exact split_encodeJ ho hd
  case shift64 =>
    rw [operand (by rw [hf]; rfl)]
    have hs := split_encodeI (i.op.info.funct7 <<< 5 ||| lowWord i.imm &&& 0x3f) ho h3 hd h1
    have even := room6 hf
    rw [toNat_shamt64 h7 even] at hs
    exact hs.congr rfl rfl rfl rfl (by omega) (by omega)
  case shift32 =>
    rw [operand (by rw [hf]; rfl)]
    have hs := split_encodeI (i.op.info.funct7 <<< 5 ||| lowWord i.imm &&& 0x1f) ho h3 hd h1
    rw [(toNat_field ⟨rfl, h7⟩ 5 5 (low_field (lowWord i.imm) 0x1f 5 rfl) (by decide)).1] at hs
    exact hs.congr rfl rfl rfl rfl (by omega) (by omega)
  case fence =>
    rw [operand (by rw [hf]; rfl)]
    have hs := split_encodeI (lowWord i.imm &&& 0xff) ho h3 zero zero
    rw [toNat_low (lowWord i.imm) 0xff 8 rfl] at hs
    exact hs.congr rfl rfl rfl rfl (by omega) (by omega)
  case system =>
    have hs := split_encodeI i.op.info.funct7 ho h3 zero zero
    rwa [Nat.mod_eq_of_lt (show i.op.info.funct7.toNat / 2 ^ 5 < 2 ^ 7 by omega)] at hs
  case atomic =>
    have e := toNat_ordered (room4 (by rw [hf]; rfl)) haq
    rw [← e]
    exact split_encodeR ho h3 (by have := room4 (by rw [hf]; rfl); omega) hd h1 h2
  case reserve =>
    have e := toNat_ordered (room4 (by rw [hf]; rfl)) haq
    rw [← e]
    exact split_encodeR ho h3 (by have := room4 (by rw [hf]; rfl); omega) hd h1 zero
  case floatArith =>
    have e := toNat_rounding (by rw [hf]; rfl) hrm
    rw [← e]
    exact split_encodeR ho (by omega) h7 hd h1 h2
  case floatConvert =>
    have e := toNat_rounding (by rw [hf]; rfl) hrm
    rw [← e]
    exact split_encodeR ho (by omega) h7 hd h1 hx
  case floatMove => exact split_encodeR ho h3 h7 hd h1 hx

/-! ## From instructions to words and back -/

theorem Inst.eq_of_fields {j : Inst} (hop : i.op = j.op) (hrd : i.rd = j.rd) (hrs1 : i.rs1 = j.rs1) (hrs2 : i.rs2 = j.rs2)
    (himm : i.imm = j.imm) (haqrl : i.aqrl = j.aqrl) (hrm : i.rm = j.rm) : i = j := by
  cases i; cases j; simp_all

/-- The operands of a word with known fields, one fact for each operand that its format has. -/
theorem operandsOf_eq {w : UInt32} {opcode d f3 s1 s2 : Nat} (h : i.Proper) (hs : Split w opcode d f3 s1 s2 f7)
    (hd : i.op.info.format.hasRd = true → d = (regField i.rd).toNat)
    (h1 : i.op.info.format.hasRs1 = true → s1 = (regField i.rs1).toNat)
    (h2 : i.op.info.format.hasRs2 = true → s2 = (regField i.rs2).toNat) (himm : immediateOf i.op.info.format w = i.imm)
    (haq : i.op.info.format.orders = true → f7 % 2 ^ 2 = i.aqrl.toNat)
    (hrm : i.op.info.format.rounds = true → f3 = i.rm.toNat) : i.op.operandsOf w = i := by
  obtain ⟨crd, crs1, crs2⟩ := OpInfo.regular_classes (info_regular _ (mem_named _ h.op))
  have erd : regOfField i.op.info.rd (w >>> 7 &&& 0x1f) = i.rd := regOfField_of_admits h.rd fun c => by
    rw [toNat_slice w 7 0x1f 7 5 rfl (by decide) rfl, hs.rd_eq, hd (crd.mp c)]
  have ers1 : regOfField i.op.info.rs1 (w >>> 15 &&& 0x1f) = i.rs1 := regOfField_of_admits h.rs1 fun c => by
    rw [toNat_slice w 15 0x1f 15 5 rfl (by decide) rfl, hs.rs1_eq, h1 (crs1.mp c)]
  have ers2 : regOfField i.op.info.rs2 (w >>> 20 &&& 0x1f) = i.rs2 := regOfField_of_admits h.rs2 fun c => by
    rw [toNat_slice w 20 0x1f 20 5 rfl (by decide) rfl, hs.rs2_eq, h2 (crs2.mp c)]
  have eaq : (i.op.operandsOf w).aqrl = i.aqrl := by
    have e : i.op.info.format.orders = true → w >>> 25 &&& 3 = i.aqrl := fun ho => UInt32.toNat_inj.mp (by
      rw [toNat_slice w 25 3 25 2 rfl (by decide) rfl, hs.funct7_eq, haq ho])
    have z := h.noAqrl
    simp only [operandsOf]
    cases hf : i.op.info.format <;> simp_all [Format.orders]
  have erm : (i.op.operandsOf w).rm = i.rm := by
    have e : i.op.info.format.rounds = true → w >>> 12 &&& 7 = i.rm := fun ho => UInt32.toNat_inj.mp (by
      rw [toNat_slice w 12 7 12 3 rfl (by decide) rfl, hs.funct3_eq, hrm ho])
    have z := h.noRm
    simp only [operandsOf]
    cases hf : i.op.info.format <;> simp_all [Format.rounds]
  exact Inst.eq_of_fields rfl erd ers1 ers2 himm eaq erm

theorem fixes_fields (hop : i.op ≠ .invalid) (haq : i.aqrl.toNat < 4) :
    i.op.info.Fixes i.op.info.opcode.toNat i.fields.rd i.fields.funct3 i.fields.rs1 i.fields.rs2 i.fields.funct7 := by
  have hr := info_regular _ (mem_named _ hop)
  obtain ⟨room6, room4⟩ := OpInfo.regular_room hr
  cases hf : i.op.info.format <;> simp only [OpInfo.Fixes, Inst.fields, hf, and_self, true_and]
  case shift64 => have := room6 hf; omega
  case atomic => have := room4 (by rw [hf]; rfl); omega
  case reserve => have := room4 (by rw [hf]; rfl); omega

/-- The low part of a number, put together from two fields. -/
theorem two_fields (v i j : Nat) : (v / 2 ^ i % 2 ^ j * 2 ^ i + v % 2 ^ i) % 2 ^ (i + j) = v % 2 ^ (i + j) := by
  have e : v / 2 ^ i % 2 ^ j * 2 ^ i + v % 2 ^ i = v % 2 ^ (i + j) := by rw [mod_pow_add, Nat.add_comm, Nat.mul_comm]
  rw [e, Nat.mod_mod]

/-- A shift amount of six bits: its top bit stands above five others, beside an even code. -/
theorem six_bits {v : Nat} (hv : v < 64) (even : f7 % 2 = 0) :
    ((f7 + v / 2 ^ 5 % 2) * 2 ^ 5 + v % 2 ^ 5) % 2 ^ 6 = v := by omega

/-- The two fields of the upper part of a word that hold a shift amount of six bits. -/
theorem six_fields {s2 : Nat} (h : s2 < 2 ^ 5) :
    (f7 * 2 ^ 5 + s2) % 2 ^ 6 % 2 ^ 5 = s2 ∧ (f7 * 2 ^ 5 + s2) % 2 ^ 6 / 2 ^ 5 % 2 = f7 % 2 := by
  constructor <;> omega

theorem immediateOf_word (h : i.Proper) : immediateOf i.op.info.format i.word = i.imm := by
  have himm := h.imm
  have hs := split_word h.op h.aqrl h.rm
  cases hf : i.op.info.format <;>
    simp only [hf, Format.admits, Bool.and_eq_true, beq_iff_eq, decide_eq_true_eq] at himm <;>
    simp only [Inst.fields, hf] at hs
  case i | load | jumpReg =>
    refine signExtend_of_low (by decide) (by decide) himm ?_
    rw [toNat_high _ 20 20 rfl (by decide), hs.upper_eq, two_fields _ 5 7]
  case store =>
    refine signExtend_of_low (by decide) (by decide) himm ?_
    rw [toNat_storeOffset hs, two_fields _ 5 7]
  case branch =>
    refine signExtend_of_low (by decide) (by decide) himm.1 ?_
    have e := branch_pieces (n := (lowWord i.imm).toNat) rfl rfl
    rw [lowWord_even himm.2, Nat.add_zero] at e
    rw [toNat_branchOffset hs, e, Nat.mod_mod_of_dvd _ (by decide)]
  case upper =>
    refine signExtend_of_low (by decide) (by decide) himm ?_
    rw [toNat_upperOffset hs, upper_sum, Nat.mod_mod_of_dvd _ (by decide)]
  case jump =>
    refine signExtend_of_low (by decide) (by decide) himm.1 ?_
    have e := jump_pieces (n := (lowWord i.imm).toNat) rfl rfl rfl rfl
    rw [lowWord_even himm.2, Nat.add_zero] at e
    rw [toNat_jumpOffset hs, e, Nat.mod_mod_of_dvd _ (by decide)]
  case shift64 =>
    have even := (OpInfo.regular_room (info_regular _ (mem_named _ h.op))).1 hf
    have e := toNat_lowWord himm.1 (Int.lt_trans himm.2 (by decide))
    have hv : (lowWord i.imm).toNat < 64 := by omega
    refine ofNat_eq_of_toInt ?_
    rw [toNat_slice _ 20 0x3f 20 6 rfl (by decide) rfl, hs.upper_eq, six_bits hv even, e]
  case shift32 =>
    have e := toNat_lowWord himm.1 (Int.lt_trans himm.2 (by decide))
    have hv : (lowWord i.imm).toNat < 32 := by omega
    refine ofNat_eq_of_toInt ?_
    rw [toNat_slice _ 20 0x1f 20 5 rfl (by decide) rfl, hs.upper_eq, Nat.mul_comm, Nat.mul_add_mod, Nat.mod_mod,
      Nat.mod_eq_of_lt hv, e]
  case fence =>
    have e := toNat_lowWord himm.1 (Int.lt_trans himm.2 (by decide))
    have hv : (lowWord i.imm).toNat < 2 ^ 8 := by omega
    refine ofNat_eq_of_toInt ?_
    rw [toNat_slice _ 20 0xff 20 8 rfl (by decide) rfl, hs.upper_eq, two_fields _ 5 3, Nat.mod_eq_of_lt hv, e]
  all_goals exact (h.noImm (by rw [hf]; rfl)).symm

/-- Decoding the word of an instruction gives the instruction back. -/
theorem decode_word (h : i.Proper) : decode i.word = some i := by
  have hn := mem_named _ h.op
  have hs := split_word h.op h.aqrl h.rm
  have hfix := (matchesWord_iff_fixes (info_regular _ hn) hs).mpr (fixes_fields h.op h.aqrl)
  rw [decode_of_matches hn hfix, operandsOf_eq h hs ?_ ?_ ?_ (immediateOf_word h) ?_ ?_]
  · cases hf : i.op.info.format <;> simp [Inst.fields, hf, Format.hasRd]
  · cases hf : i.op.info.format <;> simp [Inst.fields, hf, Format.hasRs1]
  · cases hf : i.op.info.format <;> simp [Inst.fields, hf, Format.hasRs2]
  · intro ho
    have := (OpInfo.regular_room (info_regular _ hn)).2 ho
    have := UInt32.lt_iff_toNat_lt.mp h.aqrl
    cases hf : i.op.info.format <;> simp_all [Inst.fields, Format.orders]
    · omega
    · omega
  · cases hf : i.op.info.format <;> simp [Inst.fields, hf, Format.rounds]

/-! ## From words to instructions and back -/

section
variable {o : Op} {w : UInt32} {opcode d f3 s1 s2 f7 : Nat}

theorem toNat_aqrl_operandsOf (hs : Split w opcode d f3 s1 s2 f7) :
    (o.operandsOf w).aqrl.toNat = if o.info.format.orders then f7 % 2 ^ 2 else 0 := by
  have e : (w >>> 25 &&& 3).toNat = f7 % 2 ^ 2 := by
    rw [toNat_slice w 25 3 25 2 rfl (by decide) rfl, hs.funct7_eq]
  simp only [operandsOf]
  cases o.info.format <;> first | exact e | rfl

theorem toNat_rm_operandsOf (hs : Split w opcode d f3 s1 s2 f7) :
    (o.operandsOf w).rm.toNat = if o.info.format.rounds then f3 else 0 := by
  have e : (w >>> 12 &&& 7).toNat = f3 := by
    rw [toNat_slice w 12 7 12 3 rfl (by decide) rfl, hs.funct3_eq]
  simp only [operandsOf]
  cases o.info.format <;> first | exact e | rfl

/-- A word with the identifying bits of an instruction other than the fence has the fields of
the instruction read from it. -/
theorem fields_operandsOf (ho : o ∈ named) (hne : o.info.format ≠ .fence) (hs : Split w opcode d f3 s1 s2 f7)
    (hf : o.info.Fixes opcode d f3 s1 s2 f7) : (o.operandsOf w).fields = ⟨d, f3, s1, s2, f7⟩ := by
  have hr := info_regular _ ho
  obtain ⟨room6, room4⟩ := OpInfo.regular_room hr
  obtain ⟨crd, crs1, crs2⟩ := OpInfo.regular_classes hr
  have hd : o.info.format.hasRd = true → (regField (o.operandsOf w).rd).toNat = d := by
    intro h
    rw [operandsOf, toNat_regField_regOfField (crd.mpr h), toNat_slice w 7 0x1f 7 5 rfl (by decide) rfl,
      hs.rd_eq, Nat.mod_eq_of_lt hs.rd_lt]
  have h1 : o.info.format.hasRs1 = true → (regField (o.operandsOf w).rs1).toNat = s1 := by
    intro h
    rw [operandsOf, toNat_regField_regOfField (crs1.mpr h), toNat_slice w 15 0x1f 15 5 rfl (by decide) rfl,
      hs.rs1_eq, Nat.mod_eq_of_lt hs.rs1_lt]
  have h2 : o.info.format.hasRs2 = true → (regField (o.operandsOf w).rs2).toNat = s2 := by
    intro h
    rw [operandsOf, toNat_regField_regOfField (crs2.mpr h), toNat_slice w 20 0x1f 20 5 rfl (by decide) rfl,
      hs.rs2_eq, Nat.mod_eq_of_lt hs.rs2_lt]
  have haq := toNat_aqrl_operandsOf (o := o) hs
  have hrm := toNat_rm_operandsOf (o := o) hs
  have himm : (o.operandsOf w).imm = immediateOf o.info.format w := rfl
  have b0 := hs.rd_lt
  have b2 := hs.funct3_lt
  have b3 := hs.rs1_lt
  have b4 := hs.rs2_lt
  have b5 := hs.funct7_lt
  have hop : (o.operandsOf w).op = o := rfl
  simp only [Inst.fields, hop, himm]
  cases ht : o.info.format <;>
    simp only [ht, OpInfo.Fixes, Format.hasRd, Format.hasRs1, Format.hasRs2, Format.orders, Format.rounds, if_true,
      forall_const] at hf hd h1 h2 haq hrm
  case fence => exact absurd ht hne
  all_goals simp only [Fields.mk.injEq]
  case r | floatFixed => exact ⟨hd, hf.2.1.symm, h1, h2, hf.2.2.symm⟩
  case i | load | jumpReg =>
    have e := lowWord_signExtend (n := 12) (by decide) (w >>> 20)
    rw [toNat_high _ 20 20 rfl (by decide), hs.upper_eq, Nat.mod_eq_of_lt (place_lt b5 b4 (by decide))] at e
    obtain ⟨e7, e2⟩ := piece 7 e b4
    exact ⟨hd, hf.2.symm, h1, e2, e7⟩
  case store =>
    have e := lowWord_signExtend (n := 12) (by decide) ((w >>> 25) <<< 5 ||| w >>> 7 &&& 0x1f)
    rw [toNat_storeOffset hs, Nat.mod_eq_of_lt (place_lt b5 b0 (by decide))] at e
    obtain ⟨e7, ed⟩ := piece 7 e b0
    exact ⟨ed, hf.2.symm, h1, h2, e7⟩
  case branch =>
    have e := lowWord_signExtend (n := 13) (by decide) ((w >>> 31) <<< 12 ||| (w >>> 7 &&& 1) <<< 11 |||
      (w >>> 25 &&& 0x3f) <<< 5 ||| (w >>> 8 &&& 0xf) <<< 1)
    rw [toNat_branchOffset hs, Nat.mod_eq_of_lt (branch_lt b0 b5)] at e
    obtain ⟨ed, e7⟩ := branch_fields b0 e
    exact ⟨ed, hf.2.symm, h1, h2, e7⟩
  case upper =>
    have e := lowWord_signExtend (n := 20) (by decide) (w >>> 12)
    rw [toNat_upperOffset hs, Nat.mod_eq_of_lt (place_lt b5 (place_lt b4 (place_lt b3 b2 (Nat.le_refl _)) (by decide))
      (by decide))] at e
    obtain ⟨e3, e1, e2, e7⟩ := upper_fields b2 b3 b4 e
    exact ⟨hd, e3, e1, e2, e7⟩
  case jump =>
    have e := lowWord_signExtend (n := 21) (by decide) ((w >>> 31) <<< 20 ||| (w >>> 12 &&& 0xff) <<< 12 |||
      (w >>> 20 &&& 1) <<< 11 ||| (w >>> 21 &&& 0x3ff) <<< 1)
    rw [toNat_jumpOffset hs, Nat.mod_eq_of_lt (jump_lt b2 b3 b4 b5)] at e
    obtain ⟨e3, e1, e2, e7⟩ := jump_fields b2 b3 b4 e
    exact ⟨hd, e3, e1, e2, e7⟩
  case shift64 =>
    have even := room6 ht
    simp only [immediateOf]
    rw [toNat_lowWord_ofNat (UInt32.toNat_lt _), toNat_slice _ 20 0x3f 20 6 rfl (by decide) rfl, hs.upper_eq]
    obtain ⟨e2, e7⟩ := @six_fields f7 _ b4
    rw [e2, e7, ← hf.2.2]
    exact ⟨hd, hf.2.1.symm, h1, rfl, Nat.div_add_mod' f7 2⟩
  case shift32 =>
    simp only [immediateOf]
    rw [toNat_lowWord_ofNat (UInt32.toNat_lt _), toNat_slice _ 20 0x1f 20 5 rfl (by decide) rfl, hs.upper_eq,
      Nat.mod_mod, (parts b4).2]
    exact ⟨hd, hf.2.1.symm, h1, rfl, hf.2.2.symm⟩
  case system => exact ⟨hf.2.1.symm, hf.2.2.1.symm, hf.2.2.2.1.symm, hf.2.2.2.2.1.symm, hf.2.2.2.2.2.symm⟩
  case atomic =>
    rw [haq, ← hf.2.2]
    exact ⟨hd, hf.2.1.symm, h1, h2, Nat.div_add_mod' f7 (2 ^ 2)⟩
  case reserve =>
    rw [haq, ← hf.2.2.2]
    exact ⟨hd, hf.2.1.symm, h1, hf.2.2.1.symm, Nat.div_add_mod' f7 (2 ^ 2)⟩
  case floatArith => exact ⟨hd, hrm, h1, h2, hf.2.symm⟩
  case floatConvert => exact ⟨hd, hrm, h1, hf.2.1.symm, hf.2.2.symm⟩
  case floatMove => exact ⟨hd, hf.2.1.symm, h1, hf.2.2.1.symm, hf.2.2.2.symm⟩

/-- Encoding what a word decodes to gives the word back; a fence has bits that it ignores. -/
theorem word_of_decode {i : Inst} (h : decode w = some i) (hne : i.op ≠ .fence) : i.word = w := by
  obtain ⟨hn, hm, hi⟩ := matches_of_decode h
  have hs := Split.self w
  have hfix := (matchesWord_iff_fixes (info_regular _ hn) hs).mp hm
  have hfmt : i.op.info.format ≠ .fence := by
    have only : ∀ o ∈ named, o ≠ .fence → o.info.format ≠ .fence := by decide
    exact only _ hn hne
  have hop : i.op ≠ .invalid := by rintro e; rw [e] at hn; revert hn; decide
  have haq := toNat_aqrl_operandsOf (o := i.op) hs
  have hrm := toNat_rm_operandsOf (o := i.op) hs
  rw [← hi] at haq hrm
  have hw := split_word hop (by split at haq <;> omega) (by split at hrm <;> omega)
  have e := fields_operandsOf hn hfmt hs hfix
  rw [← hi] at e
  rw [e, ← hfix.1] at hw
  exact hw.unique hs

end

/-! ## Both ways -/

/-- The operands as decoding tells them: zero where the format has none. -/
def Op.instOf (o : Op) (rd rs1 rs2 : Reg) (imm : Int64) (aqrl rm : UInt32) : Inst :=
  { op := o, rd, rs1, rs2
    imm := if o.info.format.hasImm then imm else 0
    aqrl := if o.info.format.orders then aqrl else 0
    rm := if o.info.format.rounds then rm else 0 }

theorem Op.word_instOf (o : Op) (rd rs1 rs2 : Reg) (imm : Int64) (aqrl rm : UInt32) :
    (o.instOf rd rs1 rs2 imm aqrl rm).word =
      o.encode rd rs1 rs2 (if o.info.format.rounds then Int64.ofNat rm.toNat else imm) aqrl := by
  cases hf : o.info.format <;>
    simp [Inst.word, Inst.operand, instOf, encode, hf, Format.hasImm, Format.orders, Format.rounds]

theorem Op.proper_instOf {o : Op} (ho : o ≠ .invalid) {rd rs1 rs2 : Reg} {aqrl rm : UInt32}
    (hd : o.info.rd.admits rd = true) (h1 : o.info.rs1.admits rs1 = true) (h2 : o.info.rs2.admits rs2 = true)
    (hi : o.info.format.admits imm = true) (ha : aqrl < 4) (hm : rm < 8) : (o.instOf rd rs1 rs2 imm aqrl rm).Proper := by
  refine ⟨ho, hd, h1, h2, ?_, ?_, ?_, ?_, ?_, ?_⟩
  · cases hf : o.info.format <;> simp_all [instOf, Format.hasImm, Format.admits]
  · exact fun h => if_neg (Bool.eq_false_iff.mp h)
  · simp only [instOf]; split
    · exact ha
    · decide
  · exact fun h => if_neg (Bool.eq_false_iff.mp h)
  · simp only [instOf]; split
    · exact hm
    · decide
  · exact fun h => if_neg (Bool.eq_false_iff.mp h)

/-- The word of an instruction without ordering bits or rounding mode. -/
theorem Op.decode_encode {o : Op} (ho : o ≠ .invalid) {rd rs1 rs2 : Reg} {imm : Int64}
    (hd : o.info.rd.admits rd = true) (h1 : o.info.rs1.admits rs1 = true) (h2 : o.info.rs2.admits rs2 = true)
    (hi : o.info.format.admits imm = true) (hr : o.info.format.rounds = false) :
    decode (o.encode rd rs1 rs2 imm 0) = some (o.instOf rd rs1 rs2 imm 0 0) := by
  have h := decode_word (proper_instOf ho hd h1 h2 hi (show (0 : UInt32) < 4 by decide)
    (show (0 : UInt32) < 8 by decide))
  rwa [word_instOf, hr, if_neg (by decide)] at h

/-- Encoding and decoding are inverse over the whole table: the word of an instruction with operands
of its format decodes to that instruction and those operands, and a word that decodes to anything
but a fence is the encoding of what it decodes to. -/
theorem encode_decode_inverse :
    (∀ (o : Op) (rd rs1 rs2 : Reg) (imm : Int64) (aqrl rm : UInt32), o ≠ .invalid →
      o.info.rd.admits rd = true → o.info.rs1.admits rs1 = true → o.info.rs2.admits rs2 = true →
      o.info.format.admits imm = true → aqrl < 4 → rm < 8 →
      decode (o.encode rd rs1 rs2 (if o.info.format.rounds then Int64.ofNat rm.toNat else imm) aqrl) =
        some (o.instOf rd rs1 rs2 imm aqrl rm)) ∧
    (∀ (w : UInt32) (i : Inst), decode w = some i → i.op ≠ .fence → i.word = w) := by
  constructor
  · intro o rd rs1 rs2 imm aqrl rm ho hd h1 h2 hi ha hm
    rw [← Op.word_instOf]
    exact decode_word (Op.proper_instOf ho hd h1 h2 hi ha hm)
  · intro w i h hne
    exact word_of_decode h hne

/-- The farthest branch back and an ordered store-conditional, there and back. -/
theorem encode_decode_inverse_at_extremes :
    decode (Op.encode .bgeu .none (.x 31) (.x 1) (-4096) 0) =
        some { op := .bgeu, rd := .none, rs1 := .x 31, rs2 := .x 1, imm := -4096 } ∧
      Inst.word { op := .scD, rd := .x 5, rs1 := .x 6, rs2 := .x 7, aqrl := 3 } = 0x1e7332af := by
  constructor
  · exact encode_decode_inverse.1 .bgeu .none (.x 31) (.x 1) (-4096) 0 0 nofun rfl rfl rfl (by decide) (by decide)
      (by decide)
  · exact encode_decode_inverse.2 0x1e7332af _ (by decide +kernel) nofun

end RiscvJit
