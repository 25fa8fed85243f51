import RiscvJit.Isa.Encode

/-
  RiscvJit.Proofs.Isa.Fields — machine words as sums of fields.

  A field is a position and a width. `spread w fs` keeps of the number `w` the bits of the
  fields `fs` and nothing else; when the fields lie apart this is a mask (`and_spread`). A word is
  the sum of six fields (`Split.self`) and no other word has the same six (`Split.unique`). Every
  layout of the encoder says which operand stands in which field (`split_encodeR`,
  `split_encodeI`, ...), and every number the decoder gathers is a sum of fields
  (`toNat_storeOffset`, `toNat_branchOffset`, ...). So what an instruction encodes to and decodes
  from is arithmetic.
-/

namespace RiscvJit

/-! ## Fields of numbers -/

/-- The bits of the fields, each a position and a width, in their places. -/
def spread (w : Nat) : List (Nat × Nat) → Nat
  | [] => 0
  | (k, n) :: rest => w / 2 ^ k % 2 ^ n * 2 ^ k + spread w rest

/-- All bits of the fields. -/
def ones : List (Nat × Nat) → Nat
  | [] => 0
  | (k, n) :: rest => (2 ^ n - 1) * 2 ^ k + ones rest

/-- The fields come from the top down, below `top`, and do not overlap. -/
def apart (top : Nat) : List (Nat × Nat) → Bool
  | [] => true
  | (k, n) :: rest => k + n ≤ top && apart k rest

variable {a b v k : Nat} {opcode funct3 rs1 rs2 : UInt32} {d f3 s1 s2 f7 : Nat} (w : UInt32) (n : Nat)

theorem mul_two_pow_or (a : Nat) (hb : b < 2 ^ k) : a * 2 ^ k ||| b = a * 2 ^ k + b := by
  rw [Nat.mul_comm, Nat.two_pow_add_eq_or_of_lt hb]

theorem and_field (w k n : Nat) : w &&& ((2 ^ n - 1) * 2 ^ k) = w / 2 ^ k % 2 ^ n * 2 ^ k := by
  apply Nat.eq_of_testBit_eq
  intro i
  simp only [Nat.testBit_and, Nat.testBit_mul_two_pow, Nat.testBit_two_pow_sub_one,
    Nat.testBit_mod_two_pow, Nat.testBit_div_two_pow]
  by_cases h : k ≤ i
  · rw [Nat.sub_add_cancel h]
    simp [h, Bool.and_comm]
  · simp [h]

theorem place_lt {n t : Nat} (ha : a < 2 ^ n) (hb : b < 2 ^ k) (h : k + n ≤ t) : a * 2 ^ k + b < 2 ^ t := by
  have h1 : (a + 1) * 2 ^ k ≤ 2 ^ n * 2 ^ k := Nat.mul_le_mul_right _ ha
  have h2 : 2 ^ n * 2 ^ k ≤ 2 ^ t := by
    rw [← Nat.pow_add]; exact Nat.pow_le_pow_right (by decide) (by omega)
  rw [Nat.add_mul] at h1
  omega

/-- A field of two parts, read part by part. -/
theorem parts (hb : b < 2 ^ k) : (a * 2 ^ k + b) / 2 ^ k = a ∧ (a * 2 ^ k + b) % 2 ^ k = b := by
  have hk := Nat.two_pow_pos k
  rw [Nat.mul_comm, Nat.mul_add_div hk, Nat.mul_add_mod, Nat.div_eq_of_lt hb, Nat.mod_eq_of_lt hb]
  exact ⟨rfl, rfl⟩

/-- Sums of a field and lower bits are equal when the parts are. -/
theorem place_inj {c v' : Nat} (hv : v < 2 ^ k) (hv' : v' < 2 ^ k) : a * 2 ^ k + v = c * 2 ^ k + v' ↔ a = c ∧ v = v' := by
  constructor
  · intro h
    obtain ⟨p, q⟩ := parts (a := a) hv
    obtain ⟨p', q'⟩ := parts (a := c) hv'
    rw [h] at p q
    exact ⟨p.symm.trans p', q.symm.trans q'⟩
  · rintro ⟨rfl, rfl⟩
    rfl

theorem mod_pow_add (i j : Nat) : n % 2 ^ (i + j) = n % 2 ^ i + 2 ^ i * (n / 2 ^ i % 2 ^ j) := by
  rw [Nat.pow_add, Nat.mod_mul]

theorem spread_lt (w : Nat) : ∀ (fs : List (Nat × Nat)) (top : Nat), apart top fs → spread w fs < 2 ^ top := by
  intro fs
  induction fs with
  | nil => intro top _; exact Nat.two_pow_pos _
  | cons f rest ih =>
    obtain ⟨k, n⟩ := f
    intro top h
    simp only [apart, Bool.and_eq_true, decide_eq_true_eq] at h
    exact place_lt (Nat.mod_lt _ (Nat.two_pow_pos _)) (ih k h.2) h.1

theorem ones_lt : ∀ (fs : List (Nat × Nat)) (top : Nat), apart top fs → ones fs < 2 ^ top := by
  intro fs
  induction fs with
  | nil => intro top _; exact Nat.two_pow_pos _
  | cons f rest ih =>
    obtain ⟨k, n⟩ := f
    intro top h
    simp only [apart, Bool.and_eq_true, decide_eq_true_eq] at h
    exact place_lt (by have := Nat.two_pow_pos n; omega) (ih k h.2) h.1

/-- Masking with the bits of fields that lie apart keeps these fields. -/
theorem and_spread (w : Nat) :
    ∀ (fs : List (Nat × Nat)) (top : Nat), apart top fs → w &&& ones fs = spread w fs := by
  intro fs
  induction fs with
  | nil => intro _ _; simp [ones, spread]
  | cons f rest ih =>
    obtain ⟨k, n⟩ := f
    intro top h
    simp only [apart, Bool.and_eq_true, decide_eq_true_eq] at h
    simp only [ones, spread]
    rw [← mul_two_pow_or _ (ones_lt rest k h.2), Nat.and_or_distrib_left, and_field, ih k h.2,
      mul_two_pow_or _ (spread_lt w rest k h.2)]

/-! ## Words -/

/-- A field on top of lower bits whose value is known. -/
theorem toNat_place {a b : UInt32} (hb : b.toNat = v) (k : UInt32) (n : Nat) (hk : k.toNat = n) (hn : n < 32)
    (ha : a.toNat * 2 ^ n < 2 ^ 32) (hv : v < 2 ^ n) : (a <<< k ||| b).toNat = a.toNat * 2 ^ n + v := by
  subst hb
  rw [UInt32.toNat_or, UInt32.toNat_shiftLeft, hk, Nat.mod_eq_of_lt hn, Nat.shiftLeft_eq,
    Nat.mod_eq_of_lt ha, mul_two_pow_or _ hv]

/-- A field of `l` bits on top of lower bits: what the word is, and how many bits it has. -/
theorem toNat_field {a b : UInt32} {u m l : Nat} (ha : a.toNat = u ∧ u < 2 ^ l) (k : UInt32) (n : Nat)
    (hb : b.toNat = v ∧ v < 2 ^ m) (h : k.toNat = n ∧ m ≤ n ∧ n + l ≤ 32 ∧ n < 32) :
    (a <<< k ||| b).toNat = u * 2 ^ n + v ∧ u * 2 ^ n + v < 2 ^ (n + l) := by
  obtain ⟨rfl, ha⟩ := ha
  obtain ⟨hk, hm, hl, hn⟩ := h
  have hv : v < 2 ^ n := Nat.lt_of_lt_of_le hb.2 (Nat.pow_le_pow_right (by decide) hm)
  have top := place_lt ha hv (Nat.le_refl (n + l))
  have fits : 2 ^ (n + l) ≤ 2 ^ 32 := Nat.pow_le_pow_right (by decide) hl
  exact ⟨toNat_place hb.1 k n hk hn (by omega) hv, top⟩

theorem toNat_slice (k m : UInt32) (i n : Nat) (hk : k.toNat = i) (hi : i < 32) (hm : m.toNat = 2 ^ n - 1) :
    (w >>> k &&& m).toNat = w.toNat / 2 ^ i % 2 ^ n := by
  rw [UInt32.toNat_and, UInt32.toNat_shiftRight, hk, hm, Nat.mod_eq_of_lt hi, Nat.shiftRight_eq_div_pow,
    Nat.and_two_pow_sub_one_eq_mod]

theorem slice_field (k m : UInt32) (i n : Nat) (h : k.toNat = i ∧ i < 32 ∧ m.toNat = 2 ^ n - 1) :
    (w >>> k &&& m).toNat = w.toNat / 2 ^ i % 2 ^ n ∧ w.toNat / 2 ^ i % 2 ^ n < 2 ^ n :=
  ⟨toNat_slice w k m i n h.1 h.2.1 h.2.2, Nat.mod_lt _ (Nat.two_pow_pos n)⟩

theorem toNat_low (m : UInt32) (n : Nat) (hm : m.toNat = 2 ^ n - 1) : (w &&& m).toNat = w.toNat % 2 ^ n := by
  rw [UInt32.toNat_and, hm, Nat.and_two_pow_sub_one_eq_mod]

/-- The low bits of a word, and how many they are. -/
theorem low_field (m : UInt32) (n : Nat) (hm : m.toNat = 2 ^ n - 1) :
    (w &&& m).toNat = w.toNat % 2 ^ n ∧ w.toNat % 2 ^ n < 2 ^ n :=
  ⟨toNat_low w m n hm, Nat.mod_lt _ (Nat.two_pow_pos n)⟩

theorem toNat_high (k : UInt32) (i : Nat) (hk : k.toNat = i) (hi : i < 32) : (w >>> k).toNat = w.toNat / 2 ^ i := by
  rw [UInt32.toNat_shiftRight, hk, Nat.mod_eq_of_lt hi, Nat.shiftRight_eq_div_pow]

/-! ## The six fields of a word -/

/-- The word is made of these six fields, named by what most layouts keep in them. -/
structure Split (w : UInt32) (opcode rd funct3 rs1 rs2 funct7 : Nat) : Prop where
  sum : w.toNat = funct7 * 2 ^ 25 + (rs2 * 2 ^ 20 + (rs1 * 2 ^ 15 + (funct3 * 2 ^ 12 + (rd * 2 ^ 7 + opcode))))
  opcode_lt : opcode < 2 ^ 7
  rd_lt : rd < 2 ^ 5
  funct3_lt : funct3 < 2 ^ 3
  rs1_lt : rs1 < 2 ^ 5
  rs2_lt : rs2 < 2 ^ 5
  funct7_lt : funct7 < 2 ^ 7

namespace Split

variable {w w' : UInt32} {opcode rd funct3 rs1 rs2 funct7 : Nat}

/-- Every word is made of the fields it has. -/
theorem self (w : UInt32) :
    Split w (w.toNat % 2 ^ 7) (w.toNat / 2 ^ 7 % 2 ^ 5) (w.toNat / 2 ^ 12 % 2 ^ 3) (w.toNat / 2 ^ 15 % 2 ^ 5)
      (w.toNat / 2 ^ 20 % 2 ^ 5) (w.toNat / 2 ^ 25) := by
  refine ⟨?_, Nat.mod_lt _ (by decide), Nat.mod_lt _ (by decide), Nat.mod_lt _ (by decide), Nat.mod_lt _ (by decide),
    Nat.mod_lt _ (by decide), Nat.div_lt_of_lt_mul w.toNat_lt⟩
  omega

theorem unique (h : Split w opcode rd funct3 rs1 rs2 funct7) (h' : Split w' opcode rd funct3 rs1 rs2 funct7) :
    w = w' := UInt32.toNat_inj.mp (h.sum.trans h'.sum.symm)

theorem opcode_eq (h : Split w opcode rd funct3 rs1 rs2 funct7) : w.toNat % 2 ^ 7 = opcode := by
  have := h.sum; have := h.opcode_lt; omega

theorem rd_eq (h : Split w opcode rd funct3 rs1 rs2 funct7) : w.toNat / 2 ^ 7 % 2 ^ 5 = rd := by
  have := h.sum; have := h.opcode_lt; have := h.rd_lt; omega

theorem funct3_eq (h : Split w opcode rd funct3 rs1 rs2 funct7) : w.toNat / 2 ^ 12 % 2 ^ 3 = funct3 := by
  have := h.sum; have := h.opcode_lt; have := h.rd_lt; have := h.funct3_lt; omega

theorem rs1_eq (h : Split w opcode rd funct3 rs1 rs2 funct7) : w.toNat / 2 ^ 15 % 2 ^ 5 = rs1 := by
  have := h.sum; have := h.opcode_lt; have := h.rd_lt; have := h.funct3_lt; have := h.rs1_lt; omega

theorem upper_eq (h : Split w opcode rd funct3 rs1 rs2 funct7) : w.toNat / 2 ^ 20 = funct7 * 2 ^ 5 + rs2 := by
  have := h.sum; have := h.opcode_lt; have := h.rd_lt; have := h.funct3_lt; have := h.rs1_lt; omega

theorem rs2_eq (h : Split w opcode rd funct3 rs1 rs2 funct7) : w.toNat / 2 ^ 20 % 2 ^ 5 = rs2 := by
  have := h.upper_eq; have := h.rs2_lt; omega

theorem funct7_eq (h : Split w opcode rd funct3 rs1 rs2 funct7) : w.toNat / 2 ^ 25 = funct7 := by
  have := h.upper_eq; have := h.rs2_lt; omega

theorem congr {opcode' rd' funct3' rs1' rs2' funct7' : Nat} (h : Split w opcode rd funct3 rs1 rs2 funct7)
    (ho : opcode = opcode') (hd : rd = rd') (h3 : funct3 = funct3') (h1 : rs1 = rs1') (h2 : rs2 = rs2')
    (h7 : funct7 = funct7') : Split w opcode' rd' funct3' rs1' rs2' funct7' := by
  subst ho hd h3 h1 h2 h7
  exact h

end Split

/-! ## Layouts -/

/-- The lower half that most layouts share, and its width. -/
theorem toNat_lower {opcode funct3 rd rs1 : UInt32} (ho : opcode.toNat < 2 ^ 7) (h3 : funct3.toNat < 2 ^ 3)
    (hd : rd.toNat < 2 ^ 5) (h1 : rs1.toNat < 2 ^ 5) :
    (rs1 <<< 15 ||| (funct3 <<< 12 ||| (rd <<< 7 ||| opcode))).toNat =
      rs1.toNat * 2 ^ 15 + (funct3.toNat * 2 ^ 12 + (rd.toNat * 2 ^ 7 + opcode.toNat)) ∧
    rs1.toNat * 2 ^ 15 + (funct3.toNat * 2 ^ 12 + (rd.toNat * 2 ^ 7 + opcode.toNat)) < 2 ^ 20 := by
  have e1 := toNat_field ⟨rfl, hd⟩ 7 7 ⟨rfl, ho⟩ (by decide)
  have e2 := toNat_field ⟨rfl, h3⟩ 12 12 e1 (by decide)
  exact toNat_field ⟨rfl, h1⟩ 15 15 e2 (by decide)

theorem split_encodeR {funct7 rd : UInt32} (ho : opcode.toNat < 2 ^ 7) (h3 : funct3.toNat < 2 ^ 3)
    (h7 : funct7.toNat < 2 ^ 7) (hd : rd.toNat < 2 ^ 5) (h1 : rs1.toNat < 2 ^ 5) (h2 : rs2.toNat < 2 ^ 5) :
    Split (encodeR opcode funct3 funct7 rd rs1 rs2) opcode.toNat rd.toNat funct3.toNat rs1.toNat rs2.toNat
      funct7.toNat := by
  refine ⟨?_, ho, hd, h3, h1, h2, h7⟩
  have e2 := toNat_field ⟨rfl, h2⟩ 20 20 (toNat_lower ho h3 hd h1) (by decide)
  simp only [encodeR, UInt32.or_assoc]
  exact (toNat_field ⟨rfl, h7⟩ 25 25 e2 (by decide)).1

/-- A field of the upper seven and the next five bits. -/
theorem upper_field (x y low : Nat) : (x + 2 ^ 5 * y) * 2 ^ 20 + low = y * 2 ^ 25 + (x * 2 ^ 20 + low) := by omega

theorem split_encodeI {opcode funct3 rd rs1 : UInt32} (imm : UInt32) (ho : opcode.toNat < 2 ^ 7)
    (h3 : funct3.toNat < 2 ^ 3) (hd : rd.toNat < 2 ^ 5) (h1 : rs1.toNat < 2 ^ 5) :
    Split (encodeI opcode funct3 rd rs1 imm) opcode.toNat rd.toNat funct3.toNat rs1.toNat (imm.toNat % 2 ^ 5)
      (imm.toNat / 2 ^ 5 % 2 ^ 7) := by
  refine ⟨?_, ho, hd, h3, h1, Nat.mod_lt _ (by decide), Nat.mod_lt _ (by decide)⟩
  have e := toNat_field (low_field imm 0xfff 12 rfl) 20 20 (toNat_lower ho h3 hd h1) (by decide)
  simp only [encodeI, UInt32.or_assoc]
  rw [e.1, mod_pow_add imm.toNat 5 7, upper_field]

theorem split_encodeS {imm : UInt32} (ho : opcode.toNat < 2 ^ 7) (h3 : funct3.toNat < 2 ^ 3) (h1 : rs1.toNat < 2 ^ 5)
    (h2 : rs2.toNat < 2 ^ 5) :
    Split (encodeS opcode funct3 rs1 rs2 imm) opcode.toNat (imm.toNat % 2 ^ 5) funct3.toNat rs1.toNat rs2.toNat
      (imm.toNat / 2 ^ 5 % 2 ^ 7) := by
  refine ⟨?_, ho, Nat.mod_lt _ (by decide), h3, h1, h2, Nat.mod_lt _ (by decide)⟩
  have low : (imm &&& 0xfff &&& 0x1f).toNat = imm.toNat % 2 ^ 5 := by
    rw [toNat_low _ 0x1f 5 rfl, toNat_low imm 0xfff 12 rfl, Nat.mod_mod_of_dvd _ (by decide)]
  have high : ((imm &&& 0xfff) >>> 5).toNat = imm.toNat / 2 ^ 5 % 2 ^ 7 := by
    rw [toNat_high _ 5 5 rfl (by decide), toNat_low imm 0xfff 12 rfl]
    omega
  have e1 := @toNat_lower _ _ (imm &&& 0xfff &&& 0x1f) _ ho h3 (by rw [low]; exact Nat.mod_lt _ (by decide)) h1
  rw [low] at e1
  have e2 := toNat_field ⟨rfl, h2⟩ 20 20 e1 (by decide)
  simp only [encodeS, UInt32.or_assoc]
  exact (toNat_field ⟨high, Nat.mod_lt _ (by decide)⟩ 25 25 e2 (by decide)).1

/-- Twenty bits, as the four fields that they fill at the top of a word. -/
theorem upper_sum :
    n / 2 ^ 13 % 2 ^ 7 * 2 ^ 13 + (n / 2 ^ 8 % 2 ^ 5 * 2 ^ 8 + (n / 2 ^ 3 % 2 ^ 5 * 2 ^ 3 + n % 2 ^ 3)) = n % 2 ^ 20 := by
  rw [mod_pow_add n 13 7, mod_pow_add n 8 5, mod_pow_add n 3 5]
  generalize n % 2 ^ 3 = a, n / 2 ^ 3 % 2 ^ 5 = b, n / 2 ^ 8 % 2 ^ 5 = c, n / 2 ^ 13 % 2 ^ 7 = d
  omega

theorem split_encodeU {opcode rd imm : UInt32} (ho : opcode.toNat < 2 ^ 7) (hd : rd.toNat < 2 ^ 5) :
    Split (encodeU opcode rd imm) opcode.toNat rd.toNat (imm.toNat % 2 ^ 3) (imm.toNat / 2 ^ 3 % 2 ^ 5)
      (imm.toNat / 2 ^ 8 % 2 ^ 5) (imm.toNat / 2 ^ 13 % 2 ^ 7) := by
  refine ⟨?_, ho, hd, Nat.mod_lt _ (by decide), Nat.mod_lt _ (by decide), Nat.mod_lt _ (by decide),
    Nat.mod_lt _ (by decide)⟩
  have e1 := toNat_field ⟨rfl, hd⟩ 7 7 ⟨rfl, ho⟩ (by decide)
  have e2 := toNat_field (low_field imm 0xfffff 20 rfl) 12 12 e1 (by decide)
  simp only [encodeU, UInt32.or_assoc]
  rw [e2.1, ← upper_sum]
  clear e1 e2
  generalize imm.toNat % 2 ^ 3 = a, imm.toNat / 2 ^ 3 % 2 ^ 5 = b, imm.toNat / 2 ^ 8 % 2 ^ 5 = c,
    imm.toNat / 2 ^ 13 % 2 ^ 7 = d
  omega

/-- The parts of a branch, from the top bit down. -/
theorem or_branch_parts (a b c d e f g h : UInt32) :
    (a ||| b ||| c ||| d) ||| e ||| f ||| g ||| h = a ||| (b ||| (e ||| (f ||| (g ||| (c ||| (d ||| h)))))) := by
  ac_rfl

theorem toNat_encodeB (off : UInt32) (ho : opcode.toNat < 2 ^ 7) (h3 : funct3.toNat < 2 ^ 3) (h1 : rs1.toNat < 2 ^ 5)
    (h2 : rs2.toNat < 2 ^ 5) :
    (encodeB opcode funct3 rs1 rs2 off).toNat =
      off.toNat / 2 ^ 12 % 2 * 2 ^ 31 + (off.toNat / 2 ^ 5 % 2 ^ 6 * 2 ^ 25 + (rs2.toNat * 2 ^ 20 +
        (rs1.toNat * 2 ^ 15 + (funct3.toNat * 2 ^ 12 + (off.toNat / 2 % 2 ^ 4 * 2 ^ 8 +
          (off.toNat / 2 ^ 11 % 2 * 2 ^ 7 + opcode.toNat)))))) := by
  have e1 := toNat_field (slice_field off 11 1 11 1 (by decide)) 7 7 ⟨rfl, ho⟩ (by decide)
  have e2 := toNat_field (slice_field off 1 0xf 1 4 (by decide)) 8 8 e1 (by decide)
  have e3 := toNat_field ⟨rfl, h3⟩ 12 12 e2 (by decide)
  have e4 := toNat_field ⟨rfl, h1⟩ 15 15 e3 (by decide)
  have e5 := toNat_field ⟨rfl, h2⟩ 20 20 e4 (by decide)
  have e6 := toNat_field (slice_field off 5 0x3f 5 6 (by decide)) 25 25 e5 (by decide)
  have e7 := toNat_field (slice_field off 12 1 12 1 (by decide)) 31 31 e6 (by decide)
  rw [encodeB, branchBits, or_branch_parts]
  exact e7.1

theorem split_encodeB {opcode funct3 rs1 rs2 off : UInt32} (ho : opcode.toNat < 2 ^ 7)
    (h3 : funct3.toNat < 2 ^ 3) (h1 : rs1.toNat < 2 ^ 5) (h2 : rs2.toNat < 2 ^ 5) :
    Split (encodeB opcode funct3 rs1 rs2 off) opcode.toNat (off.toNat / 2 % 2 ^ 4 * 2 + off.toNat / 2 ^ 11 % 2)
      funct3.toNat rs1.toNat rs2.toNat (off.toNat / 2 ^ 12 % 2 * 2 ^ 6 + off.toNat / 2 ^ 5 % 2 ^ 6) := by
  have b4 : off.toNat / 2 % 2 ^ 4 < 2 ^ 4 := Nat.mod_lt _ (by decide)
  have b1 : off.toNat / 2 ^ 11 % 2 < 2 ^ 1 := Nat.mod_lt _ (by decide)
  have b6 : off.toNat / 2 ^ 5 % 2 ^ 6 < 2 ^ 6 := Nat.mod_lt _ (by decide)
  have top : off.toNat / 2 ^ 12 % 2 < 2 ^ 1 := Nat.mod_lt _ (by decide)
  refine ⟨?_, ho, place_lt b4 b1 (by decide), h3, h1, h2, place_lt top b6 (by decide)⟩
  rw [toNat_encodeB off ho h3 h1 h2]
  generalize off.toNat / 2 % 2 ^ 4 = a, off.toNat / 2 ^ 11 % 2 = b, off.toNat / 2 ^ 12 % 2 = c,
    off.toNat / 2 ^ 5 % 2 ^ 6 = d
  clear b4 b1 b6 top
  omega

theorem toNat_encodeJ {rd : UInt32} (off : UInt32) (ho : opcode.toNat < 2 ^ 7) (hd : rd.toNat < 2 ^ 5) :
    (encodeJ opcode rd off).toNat =
      off.toNat / 2 ^ 20 % 2 * 2 ^ 31 + (off.toNat / 2 % 2 ^ 10 * 2 ^ 21 + (off.toNat / 2 ^ 11 % 2 * 2 ^ 20 +
        (off.toNat / 2 ^ 12 % 2 ^ 8 * 2 ^ 12 + (rd.toNat * 2 ^ 7 + opcode.toNat)))) := by
  have e1 := toNat_field ⟨rfl, hd⟩ 7 7 ⟨rfl, ho⟩ (by decide)
  have e2 := toNat_field (slice_field off 12 0xff 12 8 (by decide)) 12 12 e1 (by decide)
  have e3 := toNat_field (slice_field off 11 1 11 1 (by decide)) 20 20 e2 (by decide)
  have e4 := toNat_field (slice_field off 1 0x3ff 1 10 (by decide)) 21 21 e3 (by decide)
  have e5 := toNat_field (slice_field off 20 1 20 1 (by decide)) 31 31 e4 (by decide)
  simp only [encodeJ, jumpBits, UInt32.or_assoc]
  exact e5.1

theorem split_encodeJ {opcode rd off : UInt32} (ho : opcode.toNat < 2 ^ 7) (hd : rd.toNat < 2 ^ 5) :
    Split (encodeJ opcode rd off) opcode.toNat rd.toNat (off.toNat / 2 ^ 12 % 2 ^ 3) (off.toNat / 2 ^ 15 % 2 ^ 5)
      (off.toNat / 2 % 2 ^ 4 * 2 + off.toNat / 2 ^ 11 % 2)
      (off.toNat / 2 ^ 20 % 2 * 2 ^ 6 + off.toNat / 2 ^ 5 % 2 ^ 6) := by
  -- two pieces of the offset lie across a boundary of the six fields
  have p2 : off.toNat / 2 % 2 ^ 10 = off.toNat / 2 % 2 ^ 4 + 2 ^ 4 * (off.toNat / 2 ^ 5 % 2 ^ 6) := by
    rw [mod_pow_add (off.toNat / 2) 4 6, Nat.div_div_eq_div_mul]
  have p4 : off.toNat / 2 ^ 12 % 2 ^ 8 = off.toNat / 2 ^ 12 % 2 ^ 3 + 2 ^ 3 * (off.toNat / 2 ^ 15 % 2 ^ 5) := by
    rw [mod_pow_add (off.toNat / 2 ^ 12) 3 5, Nat.div_div_eq_div_mul]
  have b4 : off.toNat / 2 % 2 ^ 4 < 2 ^ 4 := Nat.mod_lt _ (by decide)
  have b1 : off.toNat / 2 ^ 11 % 2 < 2 ^ 1 := Nat.mod_lt _ (by decide)
  have b6 : off.toNat / 2 ^ 5 % 2 ^ 6 < 2 ^ 6 := Nat.mod_lt _ (by decide)
  have top : off.toNat / 2 ^ 20 % 2 < 2 ^ 1 := Nat.mod_lt _ (by decide)
  refine ⟨?_, ho, hd, Nat.mod_lt _ (by decide), Nat.mod_lt _ (by decide), place_lt b4 b1 (by decide),
    place_lt top b6 (by decide)⟩
  rw [toNat_encodeJ off ho hd, p2, p4]
  clear p2 p4 b4 b1 b6 top
  generalize off.toNat / 2 % 2 ^ 4 = a, off.toNat / 2 ^ 5 % 2 ^ 6 = b, off.toNat / 2 ^ 11 % 2 = c,
    off.toNat / 2 ^ 12 % 2 ^ 3 = d, off.toNat / 2 ^ 15 % 2 ^ 5 = e, off.toNat / 2 ^ 20 % 2 = f
  omega

/-! ## Scattered offsets -/

/-- The pieces of the offset of a branch, from the top down. -/
theorem branch_sum :
    n % 2 ^ 13 = n % 2 + (n / 2 ^ 12 % 2 * 2 ^ 12 + (n / 2 ^ 11 % 2 * 2 ^ 11 +
      (n / 2 ^ 5 % 2 ^ 6 * 2 ^ 5 + n / 2 % 2 ^ 4 * 2))) := by
  rw [mod_pow_add n 12 1, mod_pow_add n 11 1, mod_pow_add n 5 6, mod_pow_add n 1 4]
  simp only [Nat.pow_one]
  generalize n % 2 = a, n / 2 % 2 ^ 4 = b, n / 2 ^ 5 % 2 ^ 6 = c, n / 2 ^ 11 % 2 = d, n / 2 ^ 12 % 2 = e
  omega

/-- The two fields of a branch hold its offset, given in pieces. -/
theorem branch_pieces {n : Nat} (hd : d = n / 2 % 2 ^ 4 * 2 + n / 2 ^ 11 % 2)
    (h7 : f7 = n / 2 ^ 12 % 2 * 2 ^ 6 + n / 2 ^ 5 % 2 ^ 6) :
    f7 / 2 ^ 6 * 2 ^ 12 + (d % 2 * 2 ^ 11 + (f7 % 2 ^ 6 * 2 ^ 5 + d / 2 * 2)) + n % 2 = n % 2 ^ 13 := by
  subst hd h7
  obtain ⟨q2, q3⟩ := parts (a := n / 2 ^ 12 % 2) (Nat.mod_lt (n / 2 ^ 5) (Nat.two_pow_pos 6))
  obtain ⟨q0, q1⟩ := parts (a := n / 2 % 2 ^ 4) (k := 1) (Nat.mod_lt (n / 2 ^ 11) (Nat.two_pow_pos 1))
  simp only [Nat.pow_one] at q0 q1
  rw [q0, q1, q2, q3, branch_sum, Nat.add_comm]

/-- The pieces of the offset of a jump, from the top down. -/
theorem jump_sum :
    n % 2 ^ 21 = n % 2 + (n / 2 ^ 20 % 2 * 2 ^ 20 + ((n / 2 ^ 15 % 2 ^ 5 * 2 ^ 3 + n / 2 ^ 12 % 2 ^ 3) * 2 ^ 12 +
      (n / 2 ^ 11 % 2 * 2 ^ 11 + (n / 2 ^ 5 % 2 ^ 6 * 2 ^ 4 + n / 2 % 2 ^ 4) * 2))) := by
  rw [mod_pow_add n 20 1, mod_pow_add n 15 5, mod_pow_add n 12 3, mod_pow_add n 11 1, mod_pow_add n 5 6,
    mod_pow_add n 1 4]
  simp only [Nat.pow_one]
  generalize n % 2 = a, n / 2 % 2 ^ 4 = b, n / 2 ^ 5 % 2 ^ 6 = c, n / 2 ^ 11 % 2 = d, n / 2 ^ 12 % 2 ^ 3 = e,
    n / 2 ^ 15 % 2 ^ 5 = f, n / 2 ^ 20 % 2 = g
  omega

theorem jump_pieces {n : Nat} (h3 : f3 = n / 2 ^ 12 % 2 ^ 3) (h1 : s1 = n / 2 ^ 15 % 2 ^ 5)
    (h2 : s2 = n / 2 % 2 ^ 4 * 2 + n / 2 ^ 11 % 2) (h7 : f7 = n / 2 ^ 20 % 2 * 2 ^ 6 + n / 2 ^ 5 % 2 ^ 6) :
    f7 / 2 ^ 6 * 2 ^ 20 + ((s1 * 2 ^ 3 + f3) * 2 ^ 12 + (s2 % 2 * 2 ^ 11 + (f7 % 2 ^ 6 * 2 ^ 4 + s2 / 2) * 2)) +
      n % 2 = n % 2 ^ 21 := by
  subst h3 h1 h2 h7
  obtain ⟨q2, q3⟩ := parts (a := n / 2 ^ 20 % 2) (Nat.mod_lt (n / 2 ^ 5) (Nat.two_pow_pos 6))
  obtain ⟨q0, q1⟩ := parts (a := n / 2 % 2 ^ 4) (k := 1) (Nat.mod_lt (n / 2 ^ 11) (Nat.two_pow_pos 1))
  simp only [Nat.pow_one] at q0 q1
  rw [q0, q1, q2, q3, jump_sum, Nat.add_comm]

/-- A field on top of a known low part is found by its position. -/
theorem piece {n : Nat} (l : Nat) (h : n % 2 ^ (k + l) = a * 2 ^ k + v) (hv : v < 2 ^ k) :
    n / 2 ^ k % 2 ^ l = a ∧ n % 2 ^ k = v := by
  have hn : n % 2 ^ (k + l) = n / 2 ^ k % 2 ^ l * 2 ^ k + n % 2 ^ k := by
    rw [mod_pow_add, Nat.add_comm, Nat.mul_comm]
  have low : n % 2 ^ k < 2 ^ k := Nat.mod_lt _ (Nat.two_pow_pos k)
  obtain ⟨p, q⟩ := parts (a := n / 2 ^ k % 2 ^ l) low
  obtain ⟨p', q'⟩ := parts (a := a) hv
  rw [← hn, h] at p q
  exact ⟨p.symm.trans p', q.symm.trans q'⟩

theorem branch_digits {n c e : Nat} (hb : b < 2) (hc : c < 2 ^ 6) (he : e < 2 ^ 4)
    (h : n % 2 ^ 13 = a * 2 ^ 12 + (b * 2 ^ 11 + (c * 2 ^ 5 + e * 2))) :
    n / 2 % 2 ^ 4 = e ∧ n / 2 ^ 5 % 2 ^ 6 = c ∧ n / 2 ^ 11 % 2 = b ∧ n / 2 ^ 12 % 2 = a := by
  have b1 : e * 2 < 2 ^ 5 := by omega
  have b2 : c * 2 ^ 5 + e * 2 < 2 ^ 11 := place_lt hc b1 (by decide)
  obtain ⟨ha, h⟩ := piece 1 h (place_lt (n := 1) hb b2 (by decide))
  obtain ⟨hb, h⟩ := piece 1 h b2
  obtain ⟨hc, h⟩ := piece 6 h b1
  exact ⟨(piece (k := 1) (v := 0) 4 h (by decide)).1, hc, hb, ha⟩

theorem branch_lt (hd : d < 2 ^ 5) (h7 : f7 < 2 ^ 7) :
    f7 / 2 ^ 6 * 2 ^ 12 + (d % 2 * 2 ^ 11 + (f7 % 2 ^ 6 * 2 ^ 5 + d / 2 * 2)) < 2 ^ 13 := by
  have b1 : d / 2 * 2 < 2 ^ 5 := Nat.lt_of_le_of_lt (Nat.div_mul_le_self d 2) hd
  have b2 := place_lt (t := 11) (Nat.mod_lt f7 (Nat.two_pow_pos 6)) b1 (by decide)
  have b3 := place_lt (t := 12) (Nat.mod_lt d (Nat.two_pow_pos 1)) b2 (by decide)
  exact place_lt (n := 1) (Nat.div_lt_of_lt_mul h7) b3 (by decide)

theorem branch_fields {n : Nat} (hd : d < 2 ^ 5)
    (h : n % 2 ^ 13 = f7 / 2 ^ 6 * 2 ^ 12 + (d % 2 * 2 ^ 11 + (f7 % 2 ^ 6 * 2 ^ 5 + d / 2 * 2))) :
    n / 2 % 2 ^ 4 * 2 + n / 2 ^ 11 % 2 = d ∧ n / 2 ^ 12 % 2 * 2 ^ 6 + n / 2 ^ 5 % 2 ^ 6 = f7 := by
  obtain ⟨q1, q2, q3, q4⟩ := branch_digits (Nat.mod_lt _ (by decide)) (Nat.mod_lt _ (by decide))
    (Nat.div_lt_of_lt_mul hd) h
  rw [q1, q2, q3, q4]
  exact ⟨Nat.div_add_mod' d 2, Nat.div_add_mod' f7 (2 ^ 6)⟩

theorem jump_digits {n c e f : Nat} (hb : b < 2 ^ 5) (hc : c < 2 ^ 3) (hd : d < 2) (he : e < 2 ^ 6) (hf : f < 2 ^ 4)
    (h : n % 2 ^ 21 = a * 2 ^ 20 + ((b * 2 ^ 3 + c) * 2 ^ 12 + (d * 2 ^ 11 + (e * 2 ^ 4 + f) * 2))) :
    n / 2 % 2 ^ 4 = f ∧ n / 2 ^ 5 % 2 ^ 6 = e ∧ n / 2 ^ 11 % 2 = d ∧ n / 2 ^ 12 % 2 ^ 3 = c ∧
      n / 2 ^ 15 % 2 ^ 5 = b ∧ n / 2 ^ 20 % 2 = a := by
  -- two pieces of the offset are made of two fields each
  have hbc : b * 2 ^ 3 + c < 2 ^ 8 := place_lt hb hc (by decide)
  have hef : e * 2 ^ 4 + f < 2 ^ 10 := place_lt he hf (by decide)
  have b1 : (e * 2 ^ 4 + f) * 2 < 2 ^ 11 := Nat.mul_lt_mul_of_pos_right hef (by decide)
  have b2 : d * 2 ^ 11 + (e * 2 ^ 4 + f) * 2 < 2 ^ 12 := place_lt (n := 1) hd b1 (by decide)
  obtain ⟨ha, h⟩ := piece 1 h (place_lt hbc b2 (by decide))
  obtain ⟨hbc, h⟩ := piece 8 h b2
  obtain ⟨hd, h⟩ := piece 1 h b1
  obtain ⟨hef, -⟩ := piece (k := 1) (v := 0) 10 h (by decide)
  obtain ⟨hb, hc⟩ := piece 5 hbc hc
  obtain ⟨he, hf⟩ := piece 6 hef hf
  rw [Nat.div_div_eq_div_mul] at hb he
  exact ⟨hf, he, hd, hc, hb, ha⟩

theorem jump_lt (h3 : f3 < 2 ^ 3) (h1 : s1 < 2 ^ 5) (h2 : s2 < 2 ^ 5) (h7 : f7 < 2 ^ 7) :
    f7 / 2 ^ 6 * 2 ^ 20 + ((s1 * 2 ^ 3 + f3) * 2 ^ 12 + (s2 % 2 * 2 ^ 11 + (f7 % 2 ^ 6 * 2 ^ 4 + s2 / 2) * 2)) <
      2 ^ 21 := by
  have b1 := place_lt (t := 10) (Nat.mod_lt f7 (Nat.two_pow_pos 6)) (show s2 / 2 < 2 ^ 4 from Nat.div_lt_of_lt_mul h2)
    (by decide)
  have b2 : (f7 % 2 ^ 6 * 2 ^ 4 + s2 / 2) * 2 < 2 ^ 11 := Nat.mul_lt_mul_of_pos_right b1 (by decide)
  have b3 := place_lt (t := 12) (Nat.mod_lt s2 (Nat.two_pow_pos 1)) b2 (by decide)
  have b4 := place_lt (t := 20) (place_lt (t := 8) h1 h3 (by decide)) b3 (by decide)
  exact place_lt (n := 1) (Nat.div_lt_of_lt_mul h7) b4 (by decide)

theorem jump_fields {n : Nat} (h3 : f3 < 2 ^ 3) (h1 : s1 < 2 ^ 5) (h2 : s2 < 2 ^ 5)
    (h : n % 2 ^ 21 = f7 / 2 ^ 6 * 2 ^ 20 + ((s1 * 2 ^ 3 + f3) * 2 ^ 12 + (s2 % 2 * 2 ^ 11 +
      (f7 % 2 ^ 6 * 2 ^ 4 + s2 / 2) * 2))) :
    n / 2 ^ 12 % 2 ^ 3 = f3 ∧ n / 2 ^ 15 % 2 ^ 5 = s1 ∧ n / 2 % 2 ^ 4 * 2 + n / 2 ^ 11 % 2 = s2 ∧
      n / 2 ^ 20 % 2 * 2 ^ 6 + n / 2 ^ 5 % 2 ^ 6 = f7 := by
  obtain ⟨q1, q2, q3, q4, q5, q6⟩ := jump_digits h1 h3 (Nat.mod_lt _ (by decide)) (Nat.mod_lt _ (by decide))
    (Nat.div_lt_of_lt_mul h2) h
  rw [q1, q2, q3, q4, q5, q6]
  exact ⟨rfl, rfl, Nat.div_add_mod' s2 2, Nat.div_add_mod' f7 (2 ^ 6)⟩

theorem upper_fields {n : Nat} (h3 : f3 < 2 ^ 3) (h1 : s1 < 2 ^ 5) (h2 : s2 < 2 ^ 5)
    (h : n % 2 ^ 20 = f7 * 2 ^ 13 + (s2 * 2 ^ 8 + (s1 * 2 ^ 3 + f3))) :
    n % 2 ^ 3 = f3 ∧ n / 2 ^ 3 % 2 ^ 5 = s1 ∧ n / 2 ^ 8 % 2 ^ 5 = s2 ∧ n / 2 ^ 13 % 2 ^ 7 = f7 := by
  have b1 : s1 * 2 ^ 3 + f3 < 2 ^ 8 := place_lt h1 h3 (by decide)
  obtain ⟨q7, h⟩ := piece 7 h (place_lt h2 b1 (by decide))
  obtain ⟨q2, h⟩ := piece 5 h b1
  obtain ⟨q1, q3⟩ := piece 5 h h3
  exact ⟨q3, q1, q2, q7⟩

section
variable {w : UInt32} {opcode d f3 s1 s2 f7 : Nat}

theorem toNat_storeOffset (hs : Split w opcode d f3 s1 s2 f7) :
    ((w >>> 25) <<< 5 ||| w >>> 7 &&& 0x1f).toNat = f7 * 2 ^ 5 + d := by
  have e7 := toNat_slice w 7 0x1f 7 5 rfl (by decide) rfl
  have e25 := toNat_high w 25 25 rfl (by decide)
  rw [hs.rd_eq] at e7
  rw [hs.funct7_eq] at e25
  exact (toNat_field ⟨e25, hs.funct7_lt⟩ 5 5 ⟨e7, hs.rd_lt⟩ (by decide)).1

theorem toNat_branchOffset (hs : Split w opcode d f3 s1 s2 f7) :
    ((w >>> 31) <<< 12 ||| (w >>> 7 &&& 1) <<< 11 ||| (w >>> 25 &&& 0x3f) <<< 5 ||| (w >>> 8 &&& 0xf) <<< 1).toNat =
      f7 / 2 ^ 6 * 2 ^ 12 + (d % 2 * 2 ^ 11 + (f7 % 2 ^ 6 * 2 ^ 5 + d / 2 * 2)) := by
  have s1 : (w >>> 31).toNat = f7 / 2 ^ 6 := by
    rw [toNat_high w 31 31 rfl (by decide), ← hs.funct7_eq, Nat.div_div_eq_div_mul]
  have s2 : (w >>> 7 &&& 1).toNat = d % 2 := by
    rw [toNat_slice w 7 1 7 1 rfl (by decide) rfl, ← hs.rd_eq, Nat.mod_mod_of_dvd _ (by decide)]
  have s3 : (w >>> 25 &&& 0x3f).toNat = f7 % 2 ^ 6 := by
    rw [toNat_slice w 25 0x3f 25 6 rfl (by decide) rfl, hs.funct7_eq]
  have s4 : (w >>> 8 &&& 0xf).toNat = d / 2 := by
    rw [toNat_slice w 8 0xf 8 4 rfl (by decide) rfl, ← hs.rd_eq]
    exact (Nat.div_div_eq_div_mul w.toNat (2 ^ 7) 2 ▸ Nat.mod_mul_right_div_self (w.toNat / 2 ^ 7) 2 (2 ^ 4)).symm
  have e1 := toNat_field (l := 4) ⟨s4, Nat.div_lt_of_lt_mul hs.rd_lt⟩ 1 1 (m := 0) ⟨UInt32.toNat_zero, by decide⟩
    (by decide)
  have e2 := toNat_field (l := 6) ⟨s3, Nat.mod_lt _ (by decide)⟩ 5 5 e1 (by decide)
  have e3 := toNat_field (l := 1) ⟨s2, Nat.mod_lt _ (by decide)⟩ 11 11 e2 (by decide)
  have e4 := toNat_field (l := 1) ⟨s1, Nat.div_lt_of_lt_mul hs.funct7_lt⟩ 12 12 e3 (by decide)
  rw [UInt32.or_zero] at e4
  rw [UInt32.or_assoc, UInt32.or_assoc, e4.1]
  rfl

theorem toNat_upperOffset (hs : Split w opcode d f3 s1 s2 f7) :
    (w >>> 12).toNat = f7 * 2 ^ 13 + (s2 * 2 ^ 8 + (s1 * 2 ^ 3 + f3)) := by
  rw [toNat_high _ 12 12 rfl (by decide), hs.sum]
  have := hs.opcode_lt
  have := hs.rd_lt
  clear hs
  omega

theorem toNat_jumpOffset (hs : Split w opcode d f3 s1 s2 f7) :
    ((w >>> 31) <<< 20 ||| (w >>> 12 &&& 0xff) <<< 12 ||| (w >>> 20 &&& 1) <<< 11 |||
      (w >>> 21 &&& 0x3ff) <<< 1).toNat =
      f7 / 2 ^ 6 * 2 ^ 20 + ((s1 * 2 ^ 3 + f3) * 2 ^ 12 + (s2 % 2 * 2 ^ 11 + (f7 % 2 ^ 6 * 2 ^ 4 + s2 / 2) * 2)) := by
  have low : s1 * 2 ^ 3 + f3 < 2 ^ 8 := place_lt hs.rs1_lt hs.funct3_lt (by decide)
  have p1 : (w >>> 31).toNat = f7 / 2 ^ 6 := by
    rw [toNat_high w 31 31 rfl (by decide), ← hs.funct7_eq, Nat.div_div_eq_div_mul]
  have p2 : (w >>> 12 &&& 0xff).toNat = s1 * 2 ^ 3 + f3 := by
    have e : f7 * 2 ^ 13 + (s2 * 2 ^ 8 + (s1 * 2 ^ 3 + f3)) = (f7 * 2 ^ 5 + s2) * 2 ^ 8 + (s1 * 2 ^ 3 + f3) := by omega
    rw [toNat_low (w >>> 12) 0xff 8 rfl, toNat_upperOffset hs, e]
    exact (parts low).2
  have p3 : (w >>> 20 &&& 1).toNat = s2 % 2 := by
    rw [toNat_slice w 20 1 20 1 rfl (by decide) rfl, ← hs.rs2_eq, Nat.mod_mod_of_dvd _ (by decide)]
  have p4 : (w >>> 21 &&& 0x3ff).toNat = f7 % 2 ^ 6 * 2 ^ 4 + s2 / 2 := by
    have e : w.toNat / 2 ^ 21 = w.toNat / 2 ^ 20 / 2 := (Nat.div_div_eq_div_mul w.toNat (2 ^ 20) 2).symm
    have b2 := hs.rs2_lt
    rw [toNat_slice w 21 0x3ff 21 10 rfl (by decide) rfl, e, hs.upper_eq]
    clear e hs low p1 p2 p3
    omega
  have e1 := toNat_field (l := 10) ⟨p4, place_lt (Nat.mod_lt _ (by decide)) (Nat.div_lt_of_lt_mul hs.rs2_lt) (by decide)⟩
    1 1 (m := 0) ⟨UInt32.toNat_zero, by decide⟩
    (by decide)
  have e2 := toNat_field (l := 1) ⟨p3, Nat.mod_lt _ (by decide)⟩ 11 11 e1 (by decide)
  have e3 := toNat_field ⟨p2, low⟩ 12 12 e2 (by decide)
  have e4 := toNat_field (l := 1) ⟨p1, Nat.div_lt_of_lt_mul hs.funct7_lt⟩ 20 20 e3 (by decide)
  rw [UInt32.or_zero] at e4
  rw [UInt32.or_assoc, UInt32.or_assoc, e4.1]
  rfl

end

end RiscvJit
