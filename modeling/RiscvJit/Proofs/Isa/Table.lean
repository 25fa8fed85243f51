import RiscvJit.Proofs.Isa.Fields

/-
  RiscvJit.Proofs.Isa.Table — the instruction table is unambiguous.

  A format says which operands an instruction has and which fields of its word are fixed. Every
  row of the table keeps to its format (`Op.info_regular`). Two rows always differ in a bit that
  identifies both (`Op.named_apart`), so a word carries the identifying bits of at most one
  instruction (`Op.matchesWord_unique`) and the first match of the decoder is the only one
  (`decode_of_matches`). In terms of the six fields of a word, carrying the identifying bits is
  an equation for each fixed field (`Op.matchesWord_iff_fixes`).
-/

namespace RiscvJit

/-! ## What a format holds -/

namespace Format

/-- The format has a destination register. -/
def hasRd : Format → Bool
  | .store | .branch | .fence | .system => false
  | _ => true

/-- The format has a first source register. -/
def hasRs1 : Format → Bool
  | .upper | .jump | .fence | .system => false
  | _ => true

/-- The format has a second source register. -/
def hasRs2 : Format → Bool
  | .r | .store | .branch | .atomic | .floatArith | .floatFixed => true
  | _ => false

/-- The format has an immediate. -/
def hasImm : Format → Bool
  | .i | .load | .store | .branch | .upper | .jump | .jumpReg | .shift64 | .shift32 | .fence => true
  | _ => false

/-- The format has ordering bits. -/
def orders : Format → Bool
  | .atomic | .reserve => true
  | _ => false

/-- The format has a rounding mode. -/
def rounds : Format → Bool
  | .floatArith | .floatConvert => true
  | _ => false

/-- The immediate is one that the format can hold; any, when it holds none. -/
def admits (f : Format) (v : Int64) : Bool :=
  match f with
  | .i | .load | .store | .jumpReg => fitsSigned 12 v
  | .branch => fitsSigned 13 v && v.toInt % 2 == 0
  | .jump => fitsSigned 21 v && v.toInt % 2 == 0
  | .upper => fitsSigned 20 v
  | .shift64 => 0 ≤ v.toInt && v.toInt < 64
  | .shift32 => 0 ≤ v.toInt && v.toInt < 32
  | .fence => 0 ≤ v.toInt && v.toInt < 256
  | _ => true

/-- The fields, from the top down, by which an instruction of the format is recognised. -/
def fixedFields : Format → List (Nat × Nat)
  | .upper | .jump => [(0, 7)]
  | .i | .load | .store | .branch | .jumpReg | .fence => [(12, 3), (0, 7)]
  | .r | .floatFixed | .shift32 => [(25, 7), (12, 3), (0, 7)]
  | .shift64 => [(26, 6), (12, 3), (0, 7)]
  | .system => [(0, 32)]
  | .atomic => [(27, 5), (12, 3), (0, 7)]
  | .reserve => [(27, 5), (20, 5), (12, 3), (0, 7)]
  | .floatArith => [(25, 7), (0, 7)]
  | .floatConvert => [(20, 12), (0, 7)]
  | .floatMove => [(20, 12), (12, 3), (0, 7)]

end Format

/-- The register is one of the file; the absent one when there is no operand. -/
def RegClass.admits : RegClass → Reg → Bool
  | .none, .none => true
  | .int, .x _ => true
  | .float, .f _ => true
  | _, _ => false

/-! ## The table -/

/-- The fixed parts of a row fit their fields and leave the operands room, and there is a
register file exactly for the operands that the format has. -/
def OpInfo.regular (i : OpInfo) : Bool :=
  i.opcode.toNat < 2 ^ 7 && i.funct3.toNat < 2 ^ 3 && i.funct7.toNat < 2 ^ 7 && i.fixed.toNat < 2 ^ 5 &&
  (i.rd != .none) == i.format.hasRd && (i.rs1 != .none) == i.format.hasRs1 &&
  (i.rs2 != .none) == i.format.hasRs2 &&
  match i.format with
  | .shift64 => i.funct7.toNat % 2 == 0
  | .atomic | .reserve => i.funct7.toNat % 4 == 0
  | _ => true

namespace Op

variable (o : Op)

theorem mem_named (h : o ≠ .invalid) : o ∈ named := by
  refine List.mem_of_getElem? (i := o.ctorIdx - 1) ?_
  cases o <;> first | exact absurd rfl h | rfl

theorem info_regular : ∀ o ∈ named, o.info.regular := by decide +kernel

/-- Two instructions of the table differ in a bit that identifies both. -/
theorem named_apart : named.Pairwise fun o o' => (o.pattern ^^^ o'.pattern) &&& (o.mask &&& o'.mask) ≠ 0 := by
  decide +kernel

theorem toNat_mask : o.mask.toNat = ones o.info.format.fixedFields := by
  unfold mask
  cases o.info.format <;> rfl

theorem apart_fixedFields (f : Format) : apart 32 f.fixedFields := by cases f <;> rfl

theorem matchesWord_iff (w : UInt32) :
    o.matchesWord w = true ↔ spread w.toNat o.info.format.fixedFields = o.pattern.toNat := by
  rw [matchesWord, beq_iff_eq, ← UInt32.toNat_inj, UInt32.toNat_and, toNat_mask,
    and_spread _ _ _ (apart_fixedFields _)]

/-- A word carries the identifying bits of at most one instruction. -/
theorem matchesWord_unique {o o' : Op} (ho : o ∈ named) (ho' : o' ∈ named) {w : UInt32}
    (h : o.matchesWord w = true) (h' : o'.matchesWord w = true) : o = o' := by
  by_cases e : o = o'
  · exact e
  simp only [matchesWord, beq_iff_eq] at h h'
  -- both patterns are the word's own bits, so they agree wherever both masks look
  have clash : (o.pattern ^^^ o'.pattern) &&& (o.mask &&& o'.mask) = 0 := by
    rw [← h, ← h']
    apply UInt32.toBitVec_inj.mp
    simp only [UInt32.toBitVec_and, UInt32.toBitVec_xor, UInt32.toBitVec_ofNat]
    ext i hi
    simp
    cases o.mask.toBitVec[i] <;> cases o'.mask.toBitVec[i] <;> simp
  rcases List.pairwise_iff_getElem.mp named_apart with hp
  obtain ⟨i, hi, rfl⟩ := List.getElem_of_mem ho
  obtain ⟨j, hj, rfl⟩ := List.getElem_of_mem ho'
  rcases Nat.lt_trichotomy i j with lt | eq | gt
  · exact absurd clash (hp i j hi hj lt)
  · subst eq; exact absurd rfl e
  · refine absurd ?_ (hp j i hj hi gt)
    rw [UInt32.xor_comm, UInt32.and_comm (named[j]).mask]
    exact clash

end Op

theorem decode_of_matches {o : Op} (ho : o ∈ Op.named) {w : UInt32} (h : o.matchesWord w = true) :
    decode w = some (o.operandsOf w) := by
  cases hf : Op.named.find? (·.matchesWord w) with
  | none => exact absurd h (List.find?_eq_none.mp hf o ho)
  | some o' =>
    have hm' : o'.matchesWord w = true := by simpa using List.find?_some hf
    rw [decode, hf, Op.matchesWord_unique ho (List.mem_of_find?_eq_some hf) h hm']
    rfl

theorem matches_of_decode {w : UInt32} {i : Inst} (h : decode w = some i) :
    i.op ∈ Op.named ∧ i.op.matchesWord w = true ∧ i = i.op.operandsOf w := by
  obtain ⟨o, ho, rfl⟩ := Option.map_eq_some_iff.mp h
  exact ⟨List.mem_of_find?_eq_some ho, by simpa [Op.operandsOf] using List.find?_some ho, rfl⟩

/-! ## The fixed fields -/

variable {i : OpInfo}

/-- What `OpInfo.regular` says of the fixed fields. -/
theorem OpInfo.regular_bounds (h : i.regular = true) :
    i.opcode.toNat < 2 ^ 7 ∧ i.funct3.toNat < 2 ^ 3 ∧ i.funct7.toNat < 2 ^ 7 ∧ i.fixed.toNat < 2 ^ 5 := by
  simp only [regular, Bool.and_eq_true, decide_eq_true_eq] at h
  exact ⟨h.1.1.1.1.1.1.1, h.1.1.1.1.1.1.2, h.1.1.1.1.1.2, h.1.1.1.1.2⟩

/-- A register file is given exactly for the operands of the format. -/
theorem OpInfo.regular_classes (h : i.regular = true) :
    (i.rd ≠ .none ↔ i.format.hasRd = true) ∧ (i.rs1 ≠ .none ↔ i.format.hasRs1 = true) ∧
      (i.rs2 ≠ .none ↔ i.format.hasRs2 = true) := by
  simp only [regular, Bool.and_eq_true, decide_eq_true_eq, beq_iff_eq] at h
  simp [← h.1.1.1.2, ← h.1.1.2, ← h.1.2]

/-- The fixed bits of shifts and atomics leave room for the operand beside them. -/
theorem OpInfo.regular_room (h : i.regular = true) :
    (i.format = .shift64 → i.funct7.toNat % 2 = 0) ∧ (i.format.orders = true → i.funct7.toNat % 4 = 0) := by
  simp only [regular, Bool.and_eq_true] at h
  constructor
  · intro hf
    simpa [hf] using h.2
  · intro ho
    cases hf : i.format <;> simp_all [Format.orders]

/-- A field of twelve bits at the top, as the two fields that it fills. -/
theorem shared_boundary (n : Nat) : n * 2 ^ 20 = n / 2 ^ 5 * 2 ^ 25 + n % 2 ^ 5 * 2 ^ 20 := by omega

theorem Op.toNat_pattern {o : Op} (h : o.info.regular = true) :
    o.pattern.toNat =
      match o.info.format with
      | .upper | .jump => o.info.opcode.toNat
      | .i | .load | .store | .branch | .jumpReg | .fence => o.info.funct3.toNat * 2 ^ 12 + o.info.opcode.toNat
      | .r | .floatFixed | .shift32 | .shift64 | .atomic | .reserve =>
        o.info.funct7.toNat * 2 ^ 25 + (o.info.funct3.toNat * 2 ^ 12 + o.info.opcode.toNat)
      | .system => o.info.funct7.toNat * 2 ^ 20 + (o.info.funct3.toNat * 2 ^ 12 + o.info.opcode.toNat)
      | .floatArith => o.info.funct7.toNat * 2 ^ 25 + o.info.opcode.toNat
      | .floatConvert =>
        o.info.funct7.toNat * 2 ^ 25 + (o.info.fixed.toNat * 2 ^ 20 + o.info.opcode.toNat)
      | .floatMove =>
        o.info.funct7.toNat * 2 ^ 25 + (o.info.fixed.toNat * 2 ^ 20 + (o.info.funct3.toNat * 2 ^ 12 +
          o.info.opcode.toNat)) := by
  obtain ⟨ho, h3, h7, hx⟩ := OpInfo.regular_bounds h
  have e : o.info.opcode.toNat = _ ∧ _ := ⟨rfl, ho⟩
  have e3 := toNat_field ⟨rfl, h3⟩ 12 12 e (by decide)
  have e73 := toNat_field ⟨rfl, h7⟩ 25 25 e3 (by decide)
  have e7 := toNat_field ⟨rfl, h7⟩ 25 25 e (by decide)
  have ex := toNat_field ⟨rfl, hx⟩ 20 20 e (by decide)
  have e7x := toNat_field ⟨rfl, h7⟩ 25 25 ex (by decide)
  have ex3 := toNat_field ⟨rfl, hx⟩ 20 20 e3 (by decide)
  have e7x3 := toNat_field ⟨rfl, h7⟩ 25 25 ex3 (by decide)
  have es := (split_encodeI o.info.funct7 ho h3 (show (0 : UInt32).toNat < 2 ^ 5 by decide)
    (show (0 : UInt32).toNat < 2 ^ 5 by decide)).sum
  simp only [UInt32.toNat_zero] at es
  cases hf : o.info.format with
  | upper | jump => simp only [pattern, hf]
  | i | load | store | branch | jumpReg | fence => simp only [pattern, hf]; exact e3.1
  | r | floatFixed | shift32 | shift64 | atomic | reserve =>
    simp only [pattern, hf, UInt32.or_assoc]; exact e73.1
  | system =>
    simp only [pattern, hf]
    have top : o.info.funct7.toNat / 2 ^ 5 < 2 ^ 7 := Nat.lt_of_le_of_lt (Nat.div_le_self _ _) h7
    rw [es, Nat.mod_eq_of_lt top, shared_boundary o.info.funct7.toNat, Nat.add_assoc, Nat.zero_mul, Nat.zero_add,
      Nat.zero_add]
  | floatArith => simp only [pattern, hf]; exact e7.1
  | floatConvert => simp only [pattern, hf, UInt32.or_assoc]; exact e7x.1
  | floatMove => simp only [pattern, hf, UInt32.or_assoc]; exact e7x3.1

/-- The fields by which a word is recognised as the instruction of the row. -/
def OpInfo.Fixes (i : OpInfo) (opcode rd funct3 rs1 rs2 funct7 : Nat) : Prop :=
  opcode = i.opcode.toNat ∧
  match i.format with
  | .upper | .jump => True
  | .i | .load | .store | .branch | .jumpReg | .fence => funct3 = i.funct3.toNat
  | .r | .floatFixed | .shift32 => funct3 = i.funct3.toNat ∧ funct7 = i.funct7.toNat
  | .shift64 => funct3 = i.funct3.toNat ∧ funct7 / 2 * 2 = i.funct7.toNat
  | .system =>
    rd = 0 ∧ funct3 = i.funct3.toNat ∧ rs1 = 0 ∧ rs2 = i.funct7.toNat % 2 ^ 5 ∧ funct7 = i.funct7.toNat / 2 ^ 5
  | .atomic => funct3 = i.funct3.toNat ∧ funct7 / 4 * 4 = i.funct7.toNat
  | .reserve => funct3 = i.funct3.toNat ∧ rs2 = 0 ∧ funct7 / 4 * 4 = i.funct7.toNat
  | .floatArith => funct7 = i.funct7.toNat
  | .floatConvert => rs2 = i.fixed.toNat ∧ funct7 = i.funct7.toNat
  | .floatMove => funct3 = i.funct3.toNat ∧ rs2 = i.fixed.toNat ∧ funct7 = i.funct7.toNat

/-- A field of which only the bits from `k` on are fixed. -/
theorem fixed_upper {n m k : Nat} (hm : m % 2 ^ k = 0) : n / 2 ^ k = m / 2 ^ k ↔ n / 2 ^ k * 2 ^ k = m := by
  have e : m / 2 ^ k * 2 ^ k = m := Nat.div_mul_cancel (Nat.dvd_of_mod_eq_zero hm)
  constructor
  · intro h
    rw [h, e]
  · intro h
    rw [← h, Nat.mul_div_cancel _ (Nat.two_pow_pos k)]

theorem shifted {m k : Nat} (hm : m % 2 ^ k = 0) (n : Nat) : m * 2 ^ n = m / 2 ^ k * 2 ^ (n + k) := by
  rw [Nat.add_comm, Nat.pow_add, ← Nat.mul_assoc, Nat.div_mul_cancel (Nat.dvd_of_mod_eq_zero hm)]

section
variable {w : UInt32} {opcode d f3 s1 s2 f7 : Nat}

/-- A word is the sum of six fields in one way only. -/
theorem Split.sum_eq_iff (hs : Split w opcode d f3 s1 s2 f7) {opcode' r f3' n s2' u : Nat} (ho : opcode' < 2 ^ 7)
    (hd : r < 2 ^ 5) (h3 : f3' < 2 ^ 3) (h1 : n < 2 ^ 5) (h2 : s2' < 2 ^ 5) :
    w.toNat = u * 2 ^ 25 + (s2' * 2 ^ 20 + (n * 2 ^ 15 + (f3' * 2 ^ 12 + (r * 2 ^ 7 + opcode')))) ↔
      f7 = u ∧ s2 = s2' ∧ s1 = n ∧ f3 = f3' ∧ d = r ∧ opcode = opcode' := by
  have e1 := place_lt (t := 12) hs.rd_lt hs.opcode_lt (by decide)
  have e2 := place_lt (t := 15) hs.funct3_lt e1 (by decide)
  have e3 := place_lt (t := 20) hs.rs1_lt e2 (by decide)
  have e4 := place_lt (t := 25) hs.rs2_lt e3 (by decide)
  have e1' := place_lt (t := 12) hd ho (by decide)
  have e2' := place_lt (t := 15) h3 e1' (by decide)
  have e3' := place_lt (t := 20) h1 e2' (by decide)
  have e4' := place_lt (t := 25) h2 e3' (by decide)
  rw [hs.sum, place_inj e4 e4', place_inj e3 e3', place_inj e2 e2', place_inj e1 e1', place_inj hs.opcode_lt ho]

theorem Op.matchesWord_iff_fixes {o : Op} (hr : o.info.regular = true) (hs : Split w opcode d f3 s1 s2 f7) :
    o.matchesWord w = true ↔ o.info.Fixes opcode d f3 s1 s2 f7 := by
  obtain ⟨ho, h3, h7, hx⟩ := OpInfo.regular_bounds hr
  obtain ⟨room6, room4⟩ := OpInfo.regular_room hr
  have hp := Op.toNat_pattern hr
  have e26 : w.toNat / 2 ^ 26 = f7 / 2 := by rw [← hs.funct7_eq, Nat.div_div_eq_div_mul]
  have e27 : w.toNat / 2 ^ 27 = f7 / 4 := by rw [← hs.funct7_eq, Nat.div_div_eq_div_mul]
  have e32 : w.toNat % 2 ^ 32 = w.toNat := Nat.mod_eq_of_lt w.toNat_lt
  have f7_eq : f7 % 2 ^ 7 = f7 := Nat.mod_eq_of_lt hs.funct7_lt
  have half_eq : f7 / 2 % 2 ^ 6 = f7 / 2 := Nat.mod_eq_of_lt (Nat.div_lt_of_lt_mul hs.funct7_lt)
  have quarter_eq : f7 / 4 % 2 ^ 5 = f7 / 4 := Nat.mod_eq_of_lt (Nat.div_lt_of_lt_mul hs.funct7_lt)
  have s2_eq : (f7 * 2 ^ 5 + s2) % 2 ^ 5 = s2 := (parts hs.rs2_lt).2
  have upper_eq : (f7 * 2 ^ 5 + s2) % 2 ^ 12 = f7 * 2 ^ 5 + s2 :=
    Nat.mod_eq_of_lt (place_lt hs.funct7_lt hs.rs2_lt (by decide))
  -- the opcode, the function code above it, and a field above both
  have low {x : Nat} (h : x < 2 ^ 7) : x < 2 ^ 12 := Nat.lt_of_lt_of_le h (by decide)
  have short {x : Nat} (h : x < 2 ^ 7) : x < 2 ^ 15 := Nat.lt_of_lt_of_le h (by decide)
  have mid {a x : Nat} (ha : a < 2 ^ 3) (h : x < 2 ^ 7) : a * 2 ^ 12 + x < 2 ^ 15 := place_lt ha (low h) (by decide)
  have wide {v k : Nat} (h : v < 2 ^ 15) (hk : 15 ≤ k) : v < 2 ^ k :=
    Nat.lt_of_lt_of_le h (Nat.pow_le_pow_right (by decide) hk)
  have two := place_inj (a := f3) (c := o.info.funct3.toNat) (low hs.opcode_lt) (low ho)
  have three {u u' : Nat} (k : Nat) (hk : 15 ≤ k) :=
    place_inj (a := u) (c := u') (wide (mid hs.funct3_lt hs.opcode_lt) hk) (wide (mid h3 ho) hk)
  have twelve (a b c : Nat) : (a * 2 ^ 5 + b) * 2 ^ 20 + c = a * 2 ^ 25 + (b * 2 ^ 20 + c) := by
    rw [Nat.add_mul, Nat.mul_assoc, Nat.add_assoc]
  have rev {a b c : Prop} : a ∧ b ∧ c ↔ c ∧ b ∧ a := by constructor <;> rintro ⟨x, y, z⟩ <;> exact ⟨z, y, x⟩
  rw [matchesWord_iff, OpInfo.Fixes]
  cases hf : o.info.format <;> simp only [hf] at hp <;>
    simp only [hp, and_true, Format.fixedFields, spread, Nat.pow_zero, Nat.div_one, Nat.mul_one, Nat.add_zero,
      hs.funct3_eq, hs.opcode_eq, hs.upper_eq, hs.funct7_eq, e26, e27, e32, f7_eq, half_eq, quarter_eq, s2_eq, upper_eq]
  case i | load | store | branch | jumpReg | fence => rw [two, and_comm]
  case r | shift32 | floatFixed => rw [three 25 (by decide), two, rev]
  case shift64 =>
    have even := room6 hf
    have half : f7 / 2 = o.info.funct7.toNat / 2 ↔ f7 / 2 * 2 = o.info.funct7.toNat := fixed_upper (k := 1) even
    rw [shifted (k := 1) even 25, three 26 (by decide), two, rev, ← half]
  case system =>
    have h := hs.sum_eq_iff (r := 0) (n := 0) (u := o.info.funct7.toNat / 2 ^ 5) ho (by decide) h3 (by decide)
      (Nat.mod_lt o.info.funct7.toNat (Nat.two_pow_pos 5))
    rw [Nat.zero_mul, Nat.zero_add, Nat.zero_add, ← Nat.add_assoc, ← shared_boundary] at h
    rw [h]
    constructor <;> rintro ⟨a, b, c, d, e, f⟩ <;> exact ⟨f, e, d, c, b, a⟩
  case atomic =>
    have even := room4 (by rw [hf]; rfl)
    have quarter : f7 / 4 = o.info.funct7.toNat / 4 ↔ f7 / 4 * 4 = o.info.funct7.toNat := fixed_upper (k := 2) even
    rw [shifted (k := 2) even 25, three 27 (by decide), two, rev, ← quarter]
  case reserve =>
    have even := room4 (by rw [hf]; rfl)
    have quarter : f7 / 4 = o.info.funct7.toNat / 4 ↔ f7 / 4 * 4 = o.info.funct7.toNat := fixed_upper (k := 2) even
    have b := mid hs.funct3_lt hs.opcode_lt
    have b' := mid h3 ho
    have below := place_inj (a := s2) (c := 0) (wide (k := 20) b (by decide)) (wide b' (by decide))
    rw [Nat.zero_mul, Nat.zero_add] at below
    rw [shifted (k := 2) even 25, place_inj (place_lt hs.rs2_lt (wide b (by decide)) (by decide)) (wide b' (by decide)),
      below, two, ← quarter]
    constructor <;> rintro ⟨a, b, c, d⟩ <;> exact ⟨d, c, b, a⟩
  case floatArith => rw [place_inj (wide (short hs.opcode_lt) (by decide)) (wide (short ho) (by decide)), and_comm]
  case floatConvert =>
    rw [← twelve, place_inj (wide (short hs.opcode_lt) (by decide)) (wide (short ho) (by decide)), place_inj hs.rs2_lt hx,
      and_assoc, rev]
  case floatMove =>
    rw [← twelve, three 20 (by decide), two, place_inj hs.rs2_lt hx, and_assoc]
    constructor <;> rintro ⟨a, b, c, d⟩ <;> exact ⟨d, c, b, a⟩

end

end RiscvJit
