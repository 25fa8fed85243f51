import RiscvJit.Value.OperandParser

/-
  RiscvJit.Proofs.Value.OperandTexts — operands that are written and read again.

  Many texts denote one operand: there are blanks, signs, leading zeros, underscores and other bases.
  What they denote is an operand that its constructor returned (`Denoted`, `denoted_parse`), so no
  constructor is ever asked for what it refuses. The written form is one of these texts, and reading
  it gives the operand back (`parse_text`): numbers are read as they are written
  (`Text.natural?_digits`, `Text.natural?_hex`, `Text.integer?_ofInt`), and the first character tells
  a slot, an address, a register and a constant apart. Floating-point constants are left out, since
  their text is rounded.
-/

namespace RiscvJit

/-! ## Numbers -/

namespace Text

variable {b n : Nat}

theorem digitChar_facts {d : Nat} (h : d < 16) : digitValue? (digitChar d) = some d ∧
    digitChar d ∈ "0123456789abcdef".toList ∧ (digitChar d = '0' → d = 0) := by
  have hall : ∀ d < 16, digitValue? (digitChar d) = some d ∧ digitChar d ∈ "0123456789abcdef".toList ∧
      (digitChar d = '0' → d = 0) := by decide
  exact hall d h

theorem digits_of_lt (h : n < b) : digits b n = [digitChar n] := by
  rw [digits, dif_neg (by omega)]

theorem digits_of_le (hb : 2 ≤ b) (h : b ≤ n) : digits b n = digits b (n / b) ++ [digitChar (n % b)] := by
  rw [digits, dif_pos ⟨hb, h⟩]

/-- A number is written with digits of its base. -/
theorem digit_of_mem_digits (hb : 2 ≤ b) : ∀ c ∈ digits b n, ∃ d < b, digitChar d = c := by
  induction n using Nat.strongRecOn with
  | ind n ih =>
    intro c hc
    by_cases hn : n < b
    · rw [digits_of_lt hn] at hc
      exact ⟨n, hn, (List.mem_singleton.mp hc).symm⟩
    · rw [digits_of_le hb (by omega)] at hc
      rcases List.mem_append.mp hc with hc | hc
      · exact ih (n / b) (Nat.div_lt_self (by omega) (by omega)) c hc
      · exact ⟨n % b, Nat.mod_lt _ (by omega), (List.mem_singleton.mp hc).symm⟩

theorem letter_of_mem_digits (hb : 2 ≤ b) (hbase : b ≤ 16) {c : Char} (hc : c ∈ digits b n) :
    c ∈ "0123456789abcdef".toList := by
  obtain ⟨d, hd, rfl⟩ := digit_of_mem_digits hb c hc
  exact (digitChar_facts (by omega)).2.1

/-- A number starts with a digit, and with a zero only if it is zero. -/
theorem digits_cons (hb : 2 ≤ b) (hbase : b ≤ 16) : ∃ c rest, digits b n = c :: rest ∧ (c = '0' → n = 0) := by
  induction n using Nat.strongRecOn with
  | ind n ih =>
    by_cases hn : n < b
    · exact ⟨digitChar n, [], digits_of_lt hn, (digitChar_facts (by omega)).2.2⟩
    · obtain ⟨c, rest, hdigits, hzero⟩ := ih (n / b) (Nat.div_lt_self (by omega) (by omega))
      refine ⟨c, rest ++ [digitChar (n % b)], by rw [digits_of_le hb (by omega), hdigits]; rfl, fun hc => ?_⟩
      have : 1 ≤ n / b := (Nat.one_le_div_iff (by omega)).mpr (by omega)
      have := hzero hc
      omega

variable {limit : Nat} {underscores : Bool} {base : Option Nat} {bits : Nat}

theorem digitsValue_append (xs ys : List Char) (acc : Nat) :
    digitsValue b limit underscores acc (xs ++ ys) =
      (digitsValue b limit underscores acc xs).bind fun v => digitsValue b limit underscores v ys := by
  induction xs generalizing acc with
  | nil => rfl
  | cons c xs ih =>
    rw [List.cons_append, digitsValue, digitsValue]
    split
    · exact ih acc
    · split
      · rfl
      · split
        · rfl
        · split
          · rfl
          · exact ih _

theorem digitsValue_digit {d acc : Nat} (hbase : b ≤ 16) (hd : d < b) (hlimit : acc * b + d < limit) :
    digitsValue b limit underscores acc [digitChar d] = .ok (acc * b + d) := by
  obtain ⟨hvalue, hmem, -⟩ := digitChar_facts (d := d) (by omega)
  have hunderscore : digitChar d ≠ '_' := by
    intro h
    rw [h] at hmem
    revert hmem
    decide
  rw [digitsValue, if_neg (by simp [hunderscore]), hvalue]
  simp only [Nat.not_le.mpr hd, Nat.not_le.mpr hlimit, if_false, digitsValue]

/-- Digits are worth the number that was written. -/
theorem digitsValue_digits (hb : 2 ≤ b) (hbase : b ≤ 16) (h : n < limit) :
    digitsValue b limit underscores 0 (digits b n) = .ok n := by
  induction n using Nat.strongRecOn with
  | ind n ih =>
    by_cases hn : n < b
    · rw [digits_of_lt hn]
      have hdigit : digitsValue b limit underscores 0 [digitChar n] = .ok (0 * b + n) :=
        digitsValue_digit hbase hn (by omega)
      simpa using hdigit
    · have hdiv : n / b < n := Nat.div_lt_self (by omega) (by omega)
      have hsum : n / b * b + n % b = n := by
        rw [Nat.mul_comm]
        exact Nat.div_add_mod n b
      have hlast : digitsValue b limit underscores (n / b) [digitChar (n % b)] = .ok (n / b * b + n % b) :=
        digitsValue_digit hbase (Nat.mod_lt n (by omega)) (by omega)
      rw [digits_of_le hb (by omega), digitsValue_append, ih (n / b) hdiv (by omega)]
      exact hlast.trans (congrArg _ hsum)

theorem not_mem_digits {c : Char} (hb : 2 ≤ b) (hbase : b ≤ 16) (hc : c ∉ "0123456789abcdef".toList) : c ∉ digits b n :=
  fun h => hc (letter_of_mem_digits hb hbase h)

theorem isEmpty_digits (hb : 2 ≤ b) (hbase : b ≤ 16) : (digits b n).isEmpty = false := by
  obtain ⟨c, rest, hdigits, -⟩ := digits_cons (n := n) hb hbase
  rw [hdigits]
  rfl

theorem announcedBase_digits : announcedBase (digits 10 n) = (10, digits 10 n) ∨ n = 0 := by
  obtain ⟨c, rest, hdigits, hzero⟩ := digits_cons (b := 10) (n := n) (by decide) (by decide)
  by_cases hc : c = '0'
  · exact .inr (hzero hc)
  · left
    rw [hdigits]
    unfold announcedBase
    split
    · simp_all
    · simp_all
    · rfl

/-- A decimal number is read as it is written, whether the base is given or not. -/
theorem natural?_digits (hbase : base = none ∨ base = some 10) (h : n < 2 ^ bits) :
    natural? base bits (digits 10 n) = .ok n := by
  have hplain : (digits 10 n).contains '_' = false := by
    rw [List.contains_eq_mem, decide_eq_false_iff_not]
    exact not_mem_digits (by decide) (by decide) (by decide)
  have hvalue (underscores : Bool) : digitsValue 10 (2 ^ bits) underscores 0 (digits 10 n) = .ok n :=
    digitsValue_digits (by decide) (by decide) h
  unfold natural?
  rw [isEmpty_digits (by decide) (by decide)]
  rcases hbase with rfl | rfl
  · rcases announcedBase_digits (n := n) with hannounced | rfl
    · simp only [hannounced, hvalue, hplain]
      rfl
    · rw [digits_of_lt (by decide)]
      rfl
  · simp only [hvalue, hplain]
    rfl

/-- A number with its mark is read as it is written. -/
theorem natural?_hex (h : n < 2 ^ bits) : natural? none bits (hex n).toList = .ok n := by
  obtain ⟨c, rest, hdigits, -⟩ := digits_cons (b := 16) (n := n) (by decide) (by decide)
  have htext : (hex n).toList = '0' :: 'x' :: digits 16 n := by
    simp [hex, hexDigits]
  have hannounced : announcedBase ('0' :: 'x' :: digits 16 n) = (16, digits 16 n) := by
    rw [hdigits]
    rfl
  have hplain : ('0' :: 'x' :: digits 16 n).contains '_' = false := by
    have := not_mem_digits (b := 16) (n := n) (c := '_') (by decide) (by decide) (by decide)
    simpa using this
  have hvalue : digitsValue 16 (2 ^ bits) true 0 (digits 16 n) = .ok n := digitsValue_digits (by decide) (by decide) h
  rw [htext]
  unfold natural?
  simp only [hannounced, hvalue, hplain, Option.isNone_none]
  rfl

/-- A number with a sign in front is read as it is written. -/
theorem integer?_signed (hbase : base = none ∨ base = some 10) (h : n < 2 ^ bits) (sign : Char)
    (hsign : sign = '+' ∨ sign = '-') : integer? base bits (sign :: digits 10 n) =
      if sign = '-' then if n ≤ 2 ^ (bits - 1) then .ok (-(n : Int)) else .error .outOfRange
      else if n < 2 ^ (bits - 1) then .ok (n : Int) else .error .outOfRange := by
  have hcond : (decide (sign = '+') || decide (sign = '-')) = true := by
    rcases hsign with rfl | rfl <;> rfl
  unfold integer?
  simp only [hcond, if_true, natural?_digits hbase h]

theorem toList_ofInt_neg : (ofInt (-((n + 1 : Nat) : Int))).toList = '-' :: digits 10 (n + 1) := by
  show (ofInt (Int.negSucc n)).toList = _
  simp [ofInt, ofNat]

/-- A whole number is read as it is written. -/
theorem integer?_ofInt (hbits : 0 < bits) (hbase : base = none ∨ base = some 10) {i : Int}
    (hlow : -(2 ^ (bits - 1) : Nat) ≤ i) (hhigh : i < (2 ^ (bits - 1) : Nat)) :
    integer? base bits (ofInt i).toList = .ok i := by
  have hpow : 2 ^ (bits - 1) < 2 ^ bits := Nat.pow_lt_pow_right (by decide) (by omega)
  cases i with
  | ofNat m =>
    obtain ⟨c, rest, hdigits, -⟩ := digits_cons (b := 10) (n := m) (by decide) (by decide)
    have hmem : c ∈ "0123456789abcdef".toList :=
      letter_of_mem_digits (by decide) (by decide) (hdigits ▸ List.mem_cons_self)
    have hplus : c ≠ '+' := by
      rintro rfl
      revert hmem
      decide
    have hminus : c ≠ '-' := by
      rintro rfl
      revert hmem
      decide
    have hsmall : m < 2 ^ (bits - 1) := by
      have : ((m : Nat) : Int) < (2 ^ (bits - 1) : Nat) := hhigh
      omega
    have hread : natural? base bits (c :: rest) = .ok m := hdigits ▸ natural?_digits hbase (by omega)
    show integer? base bits (ofNat m).toList = _
    rw [ofNat, String.toList_ofList, hdigits]
    unfold integer?
    simp only [hplus, hminus, decide_false, Bool.or_self, Bool.false_eq_true, if_false, hread, hsmall, if_true]
    rfl
  | negSucc m =>
    have hsmall : m + 1 ≤ 2 ^ (bits - 1) := by omega
    rw [show Int.negSucc m = -((m + 1 : Nat) : Int) from rfl, toList_ofInt_neg,
      integer?_signed hbase (by omega) '-' (.inr rfl), if_pos rfl, if_pos hsmall]

/-- A displacement is read as it is written. -/
theorem integer?_ofSigned (hbits : 0 < bits) {i : Int} (hlow : -(2 ^ (bits - 1) : Nat) ≤ i)
    (hhigh : i < (2 ^ (bits - 1) : Nat)) : integer? none bits (ofSigned i).toList = .ok i := by
  unfold ofSigned
  split
  · exact integer?_ofInt hbits (.inl rfl) hlow hhigh
  · obtain ⟨m, rfl⟩ := Int.eq_ofNat_of_zero_le (a := i) (by omega)
    have hpow : 2 ^ (bits - 1) < 2 ^ bits := Nat.pow_lt_pow_right (by decide) (by omega)
    have hsmall : m < 2 ^ (bits - 1) := by omega
    have htext : ("+" ++ ofInt (m : Int)).toList = '+' :: digits 10 m := by
      simp [ofInt, ofNat]
    rw [htext, integer?_signed (.inl rfl) (by omega) '+' (.inl rfl), if_neg (by decide), if_pos hsmall]

end Text

namespace Operand

open Text

/-! ## What texts denote -/

/-- What a text can denote: an operand that its constructor returned, of a kind that can be written. -/
inductive Denoted : Operand → Prop
  | register {k : ValueKind} {n : Int} {r : Reg} {o : Operand} (hk : k ∈ writtenKinds) (hr : Reg.int n = .ok r)
    (h : ofInt r k = .ok o) :
      Denoted o
  | floatRegister {k : ValueKind} {n : Int} {r : Reg} {o : Operand} (hk : k ∈ writtenKinds) (hr : Reg.float n = .ok r)
      (h : ofFloat r k = .ok o) : Denoted o
  | stack {k : ValueKind} {slot : Int64} {o : Operand} (hk : k ∈ writtenKinds) (hslot : 4 * slot.toInt < 2 ^ 63)
      (h : ofStack slot k = .ok o) : Denoted o
  | memory {k : ValueKind} {n : Int} {base : Reg} (hk : k ∈ writtenKinds) (hbase : Reg.int n = .ok base ∨
    Reg.float n = .ok base)
      (disp : Int64) : Denoted (.memory k (.ofBase base disp))
  | int (v : Int32) : Denoted (intConst v)
  | long (v : Int64) : Denoted (longConst v)
  | word {k : ValueKind} (hk : k ∈ [.object, .address, .metadata]) (bits : UInt64) : Denoted (.constant k bits)
  | real {k : ValueKind} (hk : k ∈ [.float, .double]) (bits : UInt64) : Denoted (.constant k bits)

/-- A floating-point constant. -/
def isReal : Operand → Bool
  | .constant k _ => k.isFloat
  | _ => false

section
variable {k : ValueKind} {o : Operand} {r : Reg} {s value : List Char}

theorem denoted_parseReg (h : parseReg s = .ok r) : ∃ n : Int, Reg.int n = .ok r ∨ Reg.float n = .ok r := by
  unfold parseReg at h
  split at h
  case h_2 => cases h
  split at h
  case h_2 => cases h
  case h_1 n _ =>
    split at h
    case isFalse => cases h
    case isTrue hn =>
      have hrange : 0 ≤ n ∧ n < 32 := by omega
      split at h
      · cases h
        exact ⟨n, .inl (by rw [Reg.int, dif_pos hrange])⟩
      · split at h
        · cases h
          exact ⟨n, .inr (by rw [Reg.float, dif_pos hrange])⟩
        · cases h

variable {n : Int}

theorem reg_int (h : Reg.int n = .ok r) : ∃ i, r = .x i := by
  unfold Reg.int at h
  split at h
  · cases h
    exact ⟨_, rfl⟩
  · cases h

theorem reg_float (h : Reg.float n = .ok r) : ∃ i, r = .f i := by
  unfold Reg.float at h
  split at h
  · cases h
    exact ⟨_, rfl⟩
  · cases h

theorem denoted_parseRegister (hk : k ∈ writtenKinds) (h : parseRegister k value = .ok o) : Denoted o := by
  unfold parseRegister at h
  cases hr : parseReg value with
  | error e =>
    rw [hr] at h
    cases h
  | ok r =>
    obtain ⟨n, hn⟩ := denoted_parseReg hr
    simp only [hr] at h
    by_cases hfile : r.isFloat = k.isFloat
    case neg =>
      rw [if_pos (by simpa using hfile)] at h
      cases h
    rw [if_neg (by simpa using hfile)] at h
    rcases hn with hn | hn
    · obtain ⟨i, rfl⟩ := reg_int hn
      have hfloat : k.isFloat = false := hfile.symm
      cases h
      exact .register hk hn (by rw [ofInt, hfloat]; rfl)
    · obtain ⟨i, rfl⟩ := reg_float hn
      have hfloat : k.isFloat = true := hfile.symm
      cases h
      exact .floatRegister hk hn (by rw [ofFloat, hfloat]; rfl)

/-- A decimal number fits a word. -/
theorem decimal?_lt (h : decimal? s = .ok n) : n < 2 ^ 63 := by
  unfold decimal? integer? at h
  split at h
  · cases h
  · dsimp only at h
    split at h
    · cases h
    case _ m _ =>
      split at h
      · split at h
        · cases h
          omega
        · cases h
      · split at h
        · cases h
          omega
        · cases h

theorem denoted_parseStack (hk : k ∈ writtenKinds) (h : parseStack k value s = .ok o) : Denoted o := by
  unfold parseStack at h
  cases hoff : decimal? s with
  | error e =>
    rw [hoff] at h
    cases h
  | ok off =>
    have hlt := decimal?_lt hoff
    simp only [hoff] at h
    split at h
    · cases h
    case isFalse hok =>
      simp only [Bool.or_eq_true, decide_eq_true_eq, bne_iff_ne, not_or, Decidable.not_not] at hok
      cases h
      have hint : (Int64.ofNat (off.toNat / 4)).toInt = (off.toNat / 4 : Nat) := Int64.toInt_ofNat_of_lt (by omega)
      have hslot : 4 * (Int64.ofNat (off.toNat / 4)).toInt < 2 ^ 63 := by
        rw [hint]
        omega
      refine .stack hk hslot ?_
      have hneg : ¬ Int64.ofNat (off.toNat / 4) < 0 := by
        rw [Int64.lt_iff_toInt_lt, hint]
        show ¬ ((off.toNat / 4 : Nat) : Int) < 0
        omega
      rw [ofStack, if_neg hneg, Int64.toNatClampNeg, hint]
      rfl

theorem denoted_parseAddress {a : Address} (hk : k ∈ writtenKinds) (h : parseAddress s = .ok a) :
    Denoted (.memory k a) := by
  unfold parseAddress at h
  dsimp only at h
  split at h
  · cases hr : parseReg s with
    | error e =>
      rw [hr] at h
      cases h
    | ok r =>
      rw [hr] at h
      cases h
      obtain ⟨n, hn⟩ := denoted_parseReg hr
      exact .memory hk hn 0
  · split at h
    · cases h
    case _ r hr =>
      obtain ⟨n, hn⟩ := denoted_parseReg hr
      split at h
      · cases h
        exact .memory hk hn _
      · cases h

theorem denoted_parseConstant (h : parseConstant k s = .ok o) : Denoted o := by
  unfold parseConstant at h
  cases k with
  | int =>
    simp only at h
    split at h <;> cases h
    exact .int _
  | long =>
    simp only at h
    split at h <;> cases h
    exact .long _
  | float | double =>
    simp only at h
    split at h <;> cases h
    exact .real (by decide) _
  | object | address | metadata =>
    simp only at h
    split at h <;> cases h
    exact .word (by decide) _
  | _ => cases h

theorem denoted_parseValue (hk : k ∈ writtenKinds) (h : parseValue k value = .ok o) : Denoted o := by
  unfold parseValue at h
  split at h
  · exact denoted_parseStack hk h
  · split at h
    case _ inner _ =>
      cases ha : parseAddress inner with
      | error e =>
        rw [ha] at h
        cases h
      | ok a =>
        rw [ha] at h
        cases h
        exact denoted_parseAddress hk ha
    · split at h
      · exact denoted_parseRegister hk h
      · exact denoted_parseConstant h

theorem denoted_parse {text : String} (h : parse text = .ok o) : Denoted o := by
  unfold parse at h
  dsimp only at h
  split at h
  · cases h
  · split at h
    · cases h
    case _ k hfind =>
      split at h
      · cases h
      · exact denoted_parseValue (List.mem_of_find?_eq_some hfind) h

end

/-! ## Reading what is written -/

section
variable {k : ValueKind}

/-- Characters of written values. -/
def valueLetters : List Char := "0123456789abcdefkstx[]+-".toList

theorem trim_plain {s : List Char} (h : ∀ c ∈ s, isBlank c = false) : trim s = s := by
  have hdrop {t : List Char} (ht : ∀ c ∈ t, isBlank c = false) : t.dropWhile isBlank = t := by
    cases t with
    | nil => rfl
    | cons c t => rw [List.dropWhile_cons, ht c List.mem_cons_self, if_neg Bool.false_ne_true]
  rw [trim, hdrop h, hdrop (fun c hc => h c (List.mem_reverse.mp hc)), List.reverse_reverse]

/-- A kind and a value are told apart by the colon. -/
theorem parse_written {value : List Char} {o : Operand} {text : String} (hk : k ∈ writtenKinds)
    (htext : text.toList = k.name.toList ++ ':' :: value) (hplain : ∀ c ∈ value, c ∈ valueLetters)
    (h : parseValue k value = .ok o) : parse text = .ok o := by
  have hname : ∀ c ∈ k.name.toList, c ≠ ':' ∧ isBlank c = false := by
    have hall : ∀ k ∈ writtenKinds, k.name.toList.all (fun c => c ≠ ':' ∧ isBlank c = false) = true := by decide
    simpa using hall k hk
  have hfind : ∀ k ∈ writtenKinds, writtenKinds.find? (·.name.toList == k.name.toList) = some k := by decide
  have hblank : valueLetters.all (!isBlank ·) = true := by decide
  have hbefore : text.toList.takeWhile (· ≠ ':') = k.name.toList := by
    rw [htext, List.takeWhile_append_of_pos fun c hc => by simpa using (hname c hc).1]
    simp
  have hafter : text.toList.dropWhile (· ≠ ':') = ':' :: value := by
    rw [htext, List.dropWhile_append_of_pos fun c hc => by simpa using (hname c hc).1]
    simp
  have hne : value ≠ [] := by
    rintro rfl
    cases k <;> cases h
  unfold parse
  simp only [hafter, hbefore, trim_plain fun c hc => (hname c hc).2,
    trim_plain fun c hc => by simpa using List.all_eq_true.mp hblank c (hplain c hc), hfind k hk]
  rw [if_neg (by simpa using hne)]
  exact h

theorem between?_append (opening : String) (closing : Char) (inner : List Char) :
    between? opening closing (opening.toList ++ (inner ++ [closing])) = some inner := by
  have hpre : opening.toList.isPrefixOf (opening.toList ++ (inner ++ [closing])) = true :=
    List.isPrefixOf_iff_prefix.mpr (List.prefix_append _ _)
  have hlast : (opening.toList ++ (inner ++ [closing])).getLast? = some closing := by
    rw [← List.append_assoc, List.getLast?_concat]
  simp only [between?, hpre, hlast, beq_self_eq_true, Bool.and_self, if_true, List.drop_left, List.dropLast_concat]

/-- What starts with another character than the slots and addresses do is neither. -/
theorem parseValue_cons {c : Char} {rest : List Char} (hs : c ≠ 's') (hb : c ≠ '[') : parseValue k (c :: rest) =
    if c = 'x' ∨ c = 'f' then parseRegister k (c :: rest) else parseConstant k (c :: rest) := by
  have hslot : between? "stack[" ']' (c :: rest) = none := by
    have : "stack[".toList.isPrefixOf (c :: rest) = false := by
      show ('s' == c && _) = false
      rw [beq_eq_false_iff_ne.mpr hs.symm, Bool.false_and]
    simp only [between?, this, Bool.false_and, Bool.false_eq_true, if_false]
  have haddr : between? "[" ']' (c :: rest) = none := by
    have : "[".toList.isPrefixOf (c :: rest) = false := by
      show ('[' == c && _) = false
      rw [beq_eq_false_iff_ne.mpr hb.symm, Bool.false_and]
    simp only [between?, this, Bool.false_and, Bool.false_eq_true, if_false]
  simp only [parseValue, hslot, haddr, List.head?_cons, Option.some.injEq, Bool.or_eq_true, decide_eq_true_eq]

/-! ## Letters -/

theorem letters_digits {b n : Nat} (hb : 2 ≤ b) (hbase : b ≤ 16) : ∀ c ∈ digits b n, c ∈ valueLetters := by
  have hall : "0123456789abcdef".toList ⊆ valueLetters := by decide
  exact fun c hc => hall (letter_of_mem_digits hb hbase hc)

variable {r : Reg} (i : Int)

theorem letters_ofInt : ∀ c ∈ (Text.ofInt i).toList, c ∈ valueLetters := by
  cases i with
  | ofNat m =>
    intro c hc
    exact letters_digits (b := 10) (n := m) (by decide) (by decide) c (by simpa [Text.ofInt, ofNat] using hc)
  | negSucc m =>
    intro c hc
    rw [show Int.negSucc m = -((m + 1 : Nat) : Int) from rfl, toList_ofInt_neg] at hc
    rcases List.mem_cons.mp hc with rfl | hc
    · decide
    · exact letters_digits (by decide) (by decide) c hc

theorem ofSigned_cons : ∃ sign rest, (ofSigned i).toList = sign :: rest ∧ (sign = '+' ∨ sign = '-') ∧
    ∀ c ∈ sign :: rest, c ∈ valueLetters := by
  unfold ofSigned
  split
  case isTrue h =>
    obtain ⟨m, rfl⟩ : ∃ m : Nat, i = -((m + 1 : Nat) : Int) := ⟨(-i - 1).toNat, by omega⟩
    refine ⟨'-', digits 10 (m + 1), toList_ofInt_neg, .inr rfl, ?_⟩
    rw [← toList_ofInt_neg]
    exact letters_ofInt _
  case isFalse h =>
    refine ⟨'+', (Text.ofInt i).toList, by simp, .inl rfl, List.forall_mem_cons.mpr ⟨by decide, letters_ofInt i⟩⟩

/-- A register is written by its file and its number. -/
theorem toList_name (h : r.isValid = true) : ∃ c, ∃ n : Fin 32, (c = 'x' ∧ r = .x n ∨ c = 'f' ∧ r = .f n) ∧
    r.name.toList = c :: digits 10 n := by
  cases r with
  | x n => exact ⟨'x', n, .inl ⟨rfl, rfl⟩, by simp [Reg.name, ofNat]⟩
  | f n => exact ⟨'f', n, .inr ⟨rfl, rfl⟩, by simp [Reg.name, ofNat]⟩
  | none => cases h

theorem letters_name (h : r.isValid = true) : ∀ c ∈ r.name.toList, c ∈ "0123456789abcdefx".toList := by
  obtain ⟨c, n, hc, hname⟩ := toList_name h
  have hall : "0123456789abcdef".toList ⊆ "0123456789abcdefx".toList := by decide
  rw [hname]
  refine List.forall_mem_cons.mpr ⟨?_, fun d hd => hall (letter_of_mem_digits (by decide) (by decide) hd)⟩
  rcases hc with ⟨rfl, -⟩ | ⟨rfl, -⟩ <;> decide

theorem parseReg_name (h : r.isValid = true) : parseReg r.name.toList = .ok r := by
  obtain ⟨c, n, hc, hname⟩ := toList_name h
  obtain ⟨d, rest, hdigits, -⟩ := digits_cons (b := 10) (n := n) (by decide) (by decide)
  have hread : decimal? (d :: rest) = .ok (n : Int) := by
    have htext : (Text.ofInt ((n : Nat) : Int)).toList = d :: rest := by
      rw [← hdigits]
      simp [Text.ofInt, ofNat]
    rw [← htext]
    exact integer?_ofInt (by decide) (.inr rfl) (by omega) (by omega)
  have hrange : (0 : Int) ≤ (n : Nat) ∧ ((n : Nat) : Int) ≤ 31 := by omega
  rw [hname, hdigits]
  simp only [parseReg, hread, hrange, and_self, dif_pos, Int.toNat_natCast, Fin.eta]
  rcases hc with ⟨rfl, rfl⟩ | ⟨rfl, rfl⟩ <;> rfl

/-! ## Values -/

theorem parseRegister_name (h : r.isValid = true) (hfile : r.isFloat = k.isFloat) :
    parseValue k r.name.toList = .ok (if r.isFloat then .floatRegister k r else .register k r r) := by
  have hread := parseReg_name h
  obtain ⟨c, n, hc, hname⟩ := toList_name h
  have hfirst : c = 'x' ∨ c = 'f' := hc.imp And.left And.left
  rw [hname] at hread ⊢
  rw [parseValue_cons (by rcases hfirst with rfl | rfl <;> decide) (by rcases hfirst with rfl | rfl <;> decide),
    if_pos hfirst, parseRegister, hread]
  simp only [hfile, bne_self_eq_false, Bool.false_eq_true, if_false]
  split <;> rfl

theorem parseStack_text {slot : Nat} (hslot : 4 * slot < 2 ^ 63) :
    parseValue k ("stack[".toList ++ ((Text.ofInt (Location.slotBytes slot).toInt).toList ++ [']'])) = .ok
    (.stack k slot) := by
  have hbytes : (Location.slotBytes slot).toInt = ((4 * slot : Nat) : Int) := by
    have hfour : Location.slotBytes slot = Int64.ofNat (slot * 4) := (Int64.ofNat_mul slot 4).symm
    rw [hfour, Int64.toInt_ofNat_of_lt (by omega), Nat.mul_comm]
  have hread : decimal? (Text.ofInt ((4 * slot : Nat) : Int)).toList = .ok ((4 * slot : Nat) : Int) :=
    integer?_ofInt (by decide) (.inr rfl) (by omega) (by omega)
  have hrange : (decide (((4 * slot : Nat) : Int) < 0) || ((4 * slot : Nat) : Int) % 4 != 0) = false := by
    rw [Bool.or_eq_false_iff, decide_eq_false_iff_not, bne_eq_false_iff_eq]
    omega
  rw [parseValue, between?_append]
  simp only [parseStack, hbytes, hread, hrange, Bool.false_eq_true, if_false, Int.toNat_natCast]
  rw [Nat.mul_div_cancel_left slot (by decide)]

theorem parseAddress_text (h : r.isValid = true) (disp : Int64) :
    parseValue k ("[".toList ++ ((r.name.toList ++ (ofSigned disp.toInt).toList) ++ [']'])) = .ok
    (.memory k (.ofBase r disp)) := by
  obtain ⟨sign, rest, hdisp, hsign, -⟩ := ofSigned_cons disp.toInt
  have hname : ∀ c ∈ r.name.toList, (!(decide (c = '+') || decide (c = '-'))) = true := by
    have hall : "0123456789abcdefx".toList.all (fun c => !(decide (c = '+') || decide (c = '-'))) = true := by decide
    exact fun c hc => List.all_eq_true.mp hall c (letters_name h c hc)
  have hstop : (!(decide (sign = '+') || decide (sign = '-'))) = false := by
    rcases hsign with rfl | rfl <;> rfl
  have hbase : (r.name.toList ++ sign :: rest).takeWhile (fun c => !(decide (c = '+') || decide (c = '-'))) =
    r.name.toList := by
    rw [List.takeWhile_append_of_pos hname, List.takeWhile_cons, hstop]
    simp
  have hafter : (r.name.toList ++ sign :: rest).dropWhile (fun c => !(decide (c = '+') || decide (c = '-'))) =
    sign :: rest := by
    rw [List.dropWhile_append_of_pos hname, List.dropWhile_cons, hstop]
    rfl
  have hread : integer? none 64 (sign :: rest) = .ok disp.toInt := by
    rw [← hdisp]
    exact integer?_ofSigned (by decide) disp.le_toInt disp.toInt_lt
  have haddress : parseAddress (r.name.toList ++ sign :: rest) = .ok (.ofBase r disp) := by
    simp only [parseAddress, hbase, hafter, parseReg_name h, hread, Int64.ofInt_toInt]
  have hslot : between? "stack[" ']' ("[".toList ++
    ((r.name.toList ++ (ofSigned disp.toInt).toList) ++ [']'])) = none := rfl
  rw [parseValue, hslot, between?_append, hdisp]
  simp only [haddress]
  rfl

/-- A value that starts as numbers do is a constant. -/
theorem parseValue_constant {c : Char} {rest : List Char} (hc : c ∈ "-0123456789".toList) :
    parseValue k (c :: rest) = parseConstant k (c :: rest) := by
  have hall : "-0123456789".toList.all (fun c => c ≠ 's' ∧ c ≠ '[' ∧ ¬ (c = 'x' ∨ c = 'f')) = true := by decide
  obtain ⟨hs, hb, hreg⟩ := of_decide_eq_true (List.all_eq_true.mp hall c hc)
  rw [parseValue_cons hs hb, if_neg hreg]

theorem parseValue_ofInt : parseValue k (Text.ofInt i).toList = parseConstant k (Text.ofInt i).toList := by
  cases i with
  | ofNat m =>
    obtain ⟨c, rest, hdigits, -⟩ := digits_cons (b := 10) (n := m) (by decide) (by decide)
    have htext : (Text.ofInt (Int.ofNat m)).toList = c :: rest := by
      rw [← hdigits]
      simp [Text.ofInt, ofNat]
    obtain ⟨d, hd, rfl⟩ := digit_of_mem_digits (b := 10) (by decide) c (hdigits ▸ List.mem_cons_self)
    have hall : ∀ d < 10, digitChar d ∈ "-0123456789".toList := by decide
    rw [htext]
    exact parseValue_constant (hall d hd)
  | negSucc m =>
    rw [show Int.negSucc m = -((m + 1 : Nat) : Int) from rfl, toList_ofInt_neg]
    exact parseValue_constant (by decide)

theorem parseValue_hex (n : Nat) : parseValue k (hex n).toList = parseConstant k (hex n).toList := by
  have htext : (hex n).toList = '0' :: 'x' :: digits 16 n := by
    simp [hex, hexDigits]
  rw [htext]
  exact parseValue_constant (by decide)

/-- What a text denotes is read from its written form again. -/
theorem parse_text {o : Operand} (h : Denoted o) (hreal : o.isReal = false) : parse o.text = .ok o := by
  have hsub : "0123456789abcdefx".toList ⊆ valueLetters := by decide
  have hregs {r : Reg} (hr : r.isValid = true) : ∀ c ∈ r.name.toList, c ∈ valueLetters :=
    fun c hc => hsub (letters_name hr c hc)
  cases h with
  | @register k n r o hk hr h =>
    obtain ⟨i, rfl⟩ := reg_int hr
    unfold ofInt at h
    split at h
    case isTrue => cases h
    case isFalse hfile =>
      cases h
      have hfloat : (Reg.x i).isFloat = k.isFloat := by simpa [Reg.isInt, Reg.isFloat] using hfile
      refine parse_written hk ?_ (hregs (r := .x i) rfl) (parseRegister_name rfl hfloat)
      simp [text]
  | @floatRegister k n r o hk hr h =>
    obtain ⟨i, rfl⟩ := reg_float hr
    unfold ofFloat at h
    split at h
    case isTrue => cases h
    case isFalse hfile =>
      cases h
      have hfloat : (Reg.f i).isFloat = k.isFloat := by simpa [Reg.isInt, Reg.isFloat] using hfile
      refine parse_written hk ?_ (hregs (r := .f i) rfl) (parseRegister_name rfl hfloat)
      simp [text]
  | @stack k slot o hk hslot h =>
    unfold ofStack at h
    split at h
    case isTrue => cases h
    case isFalse hneg =>
      cases h
      rw [Int64.lt_iff_toInt_lt, show (0 : Int64).toInt = 0 from rfl] at hneg
      have hsmall : 4 * slot.toNatClampNeg < 2 ^ 63 := by
        rw [Int64.toNatClampNeg]
        omega
      refine parse_written hk (by simp [text]) ?_ (parseStack_text hsmall)
      intro c hc
      rcases List.mem_append.mp hc with hc | hc
      · have hall : "stack[".toList ⊆ valueLetters := by decide
        exact hall hc
      · rcases List.mem_append.mp hc with hc | hc
        · exact letters_ofInt _ c hc
        · rw [List.mem_singleton.mp hc]
          decide
  | @memory k n base hk hbase disp =>
    have hvalid : base.isValid = true := by
      rcases hbase with hbase | hbase
      · obtain ⟨i, rfl⟩ := reg_int hbase
        rfl
      · obtain ⟨i, rfl⟩ := reg_float hbase
        rfl
    refine parse_written hk ?_ ?_ (parseAddress_text hvalid disp)
    · simp [text, Address.text, Address.hasIndex, Address.ofBase]
    · obtain ⟨sign, rest, hdisp, -, hletters⟩ := ofSigned_cons disp.toInt
      rw [hdisp]
      intro c hc
      rcases List.mem_append.mp hc with hc | hc
      · rw [List.mem_singleton.mp hc]
        decide
      · rcases List.mem_append.mp hc with hc | hc
        · rcases List.mem_append.mp hc with hc | hc
          · exact hregs hvalid c hc
          · exact hletters c hc
        · rw [List.mem_singleton.mp hc]
          decide
  | int v =>
    have hvalue : intOfBits v.toUInt32.toUInt64 = v := by simp [intOfBits]
    have hread : parseConstant .int (Text.ofInt v.toInt).toList = .ok (intConst v) := by
      simp only [parseConstant, integer?_ofInt (show 0 < 32 by decide) (.inl rfl) v.le_toInt
        v.toInt_lt, Int32.ofInt_toInt]
    refine parse_written (k := .int) (by decide) ?_ (letters_ofInt v.toInt) ?_
    · simp [text, intConst, constantText, hvalue]
    · rw [parseValue_ofInt, hread]
  | long v =>
    have hvalue : v.toUInt64.toInt64 = v := by simp
    have hread : parseConstant .long (Text.ofInt v.toInt).toList = .ok (longConst v) := by
      simp only [parseConstant, integer?_ofInt (show 0 < 64 by decide) (.inl rfl) v.le_toInt
        v.toInt_lt, Int64.ofInt_toInt]
    refine parse_written (k := .long) (by decide) ?_ (letters_ofInt v.toInt) ?_
    · simp [text, longConst, constantText, hvalue]
    · rw [parseValue_ofInt, hread]
  | @word k hk bits =>
    have hmem : k ∈ writtenKinds := by
      have hall : ∀ k ∈ [ValueKind.object, .address, .metadata], k ∈ writtenKinds := by decide
      exact hall k hk
    have hkinds : k = .object ∨ k = .address ∨ k = .metadata := by simpa using hk
    have hwritten : constantText k bits = hex bits.toNat := by
      rcases hkinds with rfl | rfl | rfl <;> rfl
    have hread : parseConstant k (hex bits.toNat).toList = .ok (.constant k bits) := by
      have hnatural : natural? none 64 (hex bits.toNat).toList = .ok bits.toNat := natural?_hex bits.toNat_lt
      rcases hkinds with rfl | rfl | rfl <;> simp only [parseConstant, hnatural, UInt64.ofNat_toNat]
    have hletters : ∀ c ∈ (hex bits.toNat).toList, c ∈ valueLetters := by
      have hmark : "0x".toList ⊆ valueLetters := by decide
      intro c hc
      rcases List.mem_append.mp (String.toList_append ▸ hc) with hc | hc
      · exact hmark hc
      · exact letters_digits (b := 16) (n := bits.toNat) (by decide) (by decide) c (by simpa [hexDigits] using hc)
    refine parse_written hmem ?_ hletters ?_
    · simp [text, hwritten]
    · rw [parseValue_hex, hread]
  | @real k hk bits =>
    have hall : ∀ k ∈ [ValueKind.float, .double], k.isFloat = true := by decide
    exact absurd (hall k hk) (by simpa [isReal] using hreal)

end

/-- For every text: what it denotes is an operand that its constructor returned, or it is refused. Floating-point constants apart,
the written form of the operand denotes the operand itself, and so two texts denote the same operand exactly if their
operands are written alike. -/
theorem operand_texts_go_round (s : String) :
    ((∃ o, parse s = .ok o ∧ Denoted o) ∨ ∃ e, parse s = .error e) ∧
    (∀ o, parse s = .ok o → o.isReal = false → parse o.text = .ok o) ∧
    ∀ s' o o', parse s = .ok o → parse s' = .ok o' → o.isReal = false → o'.isReal = false →
    (o = o' ↔ o.text = o'.text) := by
  refine ⟨?_, fun o h hreal => parse_text (denoted_parse h) hreal, fun s' o o' h h' hreal hreal' =>
    ⟨congrArg text, fun htext => ?_⟩⟩
  · cases h : parse s with
    | error e => exact .inr ⟨e, rfl⟩
    | ok o => exact .inl ⟨o, rfl, denoted_parse h⟩
  · have hread := parse_text (denoted_parse h) hreal
    rw [htext, parse_text (denoted_parse h') hreal'] at hread
    exact (Except.ok.inj hread).symm

/-- The text `" long : [x011-0b1_0] "` goes round, and means what `"long:[x11-2]"` means. -/
theorem spaced_address_goes_round :
    parse " long : [x011-0b1_0] " = .ok (.memory .long (.ofBase (.x 11) (-2))) ∧
      parse (text (.memory .long (.ofBase (.x 11) (-2)))) = .ok (.memory .long (.ofBase (.x 11) (-2))) := by
  have h : parse " long : [x011-0b1_0] " = .ok (.memory .long (.ofBase (.x 11) (-2))) := rfl
  exact ⟨h, (operand_texts_go_round _).2.1 _ h rfl⟩

end Operand

end RiscvJit
