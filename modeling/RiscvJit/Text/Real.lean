import RiscvJit.Text.Decimal

/-
  RiscvJit.Text.Real — reading floating-point numbers.

  A literal is a decimal or hexadecimal fraction with an optional exponent (a power of ten
  after `e`, of two after `p`, which hexadecimal literals must have), or one of the words
  `inf`, `infinity` and `nan` in any case; `nan` takes no sign. Underscores separate digits
  as in whole numbers. The value is rounded once, to the nearest number of the format, a
  tie to the even one; a value beyond the largest number is out of range.
-/

namespace RiscvJit.Text

/-! ## Rounding -/

/-- `num / den` rounded to a natural, a tie to the even neighbour. -/
def roundHalfEven (num den : Nat) : Nat :=
  let below := num / den
  let rest := 2 * (num % den)
  if rest < den then below
  else if den < rest then below + 1
  else below + below % 2

/-- The exponent `e` with `2^e ≤ num / den < 2^(e+1)`, for positive arguments. -/
def binaryExponent (num den : Nat) : Int :=
  let e : Int := (Nat.log2 num : Int) - (Nat.log2 den : Int)
  if den * 2 ^ e.toNat ≤ num * 2 ^ (-e).toNat then e else e - 1

/-- Raw bits (without sign) of the number nearest to `num / den`. -/
def BinaryFormat.nearest (f : BinaryFormat) (num den : Nat) : Except NumberError Nat :=
  if num = 0 then .ok 0
  else
    let q := max (binaryExponent num den - f.fractionBits) f.leastPower
    let m := roundHalfEven (num * 2 ^ (-q).toNat) (den * 2 ^ q.toNat)
    let bits := (q - f.leastPower).toNat * 2 ^ f.fractionBits + m
    if f.topExponent * 2 ^ f.fractionBits ≤ bits then .error .outOfRange else .ok bits

/-! ## The grammar -/

/-- A fraction taken apart: its digits as one number and how many stand after the point. -/
structure Fraction where
  mantissa : Nat
  places : Nat
  sawDigit : Bool
  sawPoint : Bool

/-- Read digits, underscores and at most one point. -/
def readFraction (base : Nat) : Fraction → List Char → Fraction × List Char
  | acc, [] => (acc, [])
  | acc, c :: rest =>
    if c = '_' then readFraction base acc rest
    else if c = '.' then
      if acc.sawPoint then (acc, c :: rest) else readFraction base { acc with sawPoint := true } rest
    else match digitValue? c with
      | some d =>
        if d < base then
          readFraction base
            { acc with
              mantissa := acc.mantissa * base + d
              places := if acc.sawPoint then acc.places + 1 else acc.places
              sawDigit := true } rest
        else (acc, c :: rest)
      | none => (acc, c :: rest)

/-- Exponents are read up to this size; larger ones are out of any format's reach. -/
def exponentCap : Nat := 10000

def readExponent : Nat → List Char → Nat × List Char
  | acc, [] => (acc, [])
  | acc, c :: rest =>
    if c = '_' then readExponent acc rest
    else if '0' ≤ c && c ≤ '9' then
      readExponent (if acc < exponentCap then acc * 10 + (c.toNat - 48) else acc) rest
    else (acc, c :: rest)

/-- The exponent after its mark: a sign, then at least one digit. -/
def signedExponent? (text : List Char) : Option (Int × List Char) :=
  let negative := text.head? = some '-'
  match dropSign text with
  | [] => none
  | c :: rest =>
    if '0' ≤ c && c ≤ '9' then
      let (e, rest') := readExponent 0 (c :: rest)
      some (if negative then -(e : Int) else (e : Int), rest')
    else none

/-- A fraction and its exponent, nothing left over, as numerator and denominator. -/
def ratio? (text : List Char) : Option (Nat × Nat) :=
  let body := dropSign text
  let (base, body) := match body with
    | '0' :: m :: d :: rest => if lower m = 'x' then (16, d :: rest) else (10, body)
    | _ => (10, body)
  let (fraction, rest) := readFraction base ⟨0, 0, false, false⟩ body
  if !fraction.sawDigit then none
  else if text.contains '_' && !underscoresOk text then none
  else
    let scaled (e : Int) : Option (Nat × Nat) :=
      if base = 16 then
        let e := e - 4 * (fraction.places : Int)
        some (fraction.mantissa * 2 ^ e.toNat, 2 ^ (-e).toNat)
      else
        let e := e - (fraction.places : Int)
        some (fraction.mantissa * 10 ^ e.toNat, 10 ^ (-e).toNat)
    match rest with
    | [] => if base = 16 then none else scaled 0
    | c :: rest =>
      if lower c = (if base = 16 then 'p' else 'e') then
        match signedExponent? rest with
        | some (e, []) => scaled e
        | _ => none
      else none

/-- The word is one of the names of infinity, in any case. -/
def namesInfinity (text : List Char) : Bool :=
  let w := text.map lower
  w == "inf".toList || w == "infinity".toList

/-- The bits of the NaN that the word `nan` stands for. -/
def BinaryFormat.quietNaN (f : BinaryFormat) : Nat :=
  let quiet := f.topExponent * 2 ^ f.fractionBits + 2 ^ (f.fractionBits - 1)
  if f = .double then quiet + 1 else quiet

/-- Read a number of the format: its raw bits, sign included. -/
def BinaryFormat.parse (f : BinaryFormat) (text : List Char) : Except NumberError Nat :=
  let sign := if text.head? = some '-' then 2 ^ (f.fractionBits + f.exponentBits) else 0
  if text.map lower = "nan".toList then .ok f.quietNaN
  else if namesInfinity (dropSign text) then .ok (sign + f.topExponent * 2 ^ f.fractionBits)
  else match ratio? text with
    | none => .error .malformed
    | some (num, den) => (f.nearest num den).map (sign + ·)

end RiscvJit.Text
