import RiscvJit.Text.Integer

/-
  RiscvJit.Text.Decimal — the decimal text of a binary floating-point number.

  A finite number is m · 2^q. The reals that round to it form an interval around it, whose
  ends belong to it when m is even. The text uses the fewest decimal digits that name a
  real of that interval; among the decimals of that length it takes the one nearest to the
  number itself. Exponents from -4 to 5 are written positionally, the others as `d.ddde±XX`
  with at least two digits of exponent.

  Everything is computed on naturals: the number and the ends of its interval are numerators
  over one common denominator.
-/

namespace RiscvJit.Text

/-- A binary interchange format: how many bits hold the fraction and the exponent. -/
structure BinaryFormat where
  fractionBits : Nat
  exponentBits : Nat
  deriving DecidableEq, Repr

def BinaryFormat.single : BinaryFormat := ⟨23, 8⟩

def BinaryFormat.double : BinaryFormat := ⟨52, 11⟩

def BinaryFormat.topExponent (f : BinaryFormat) : Nat := 2 ^ f.exponentBits - 1

/-- The power of two that the lowest fraction bit of the smallest numbers stands for. -/
def BinaryFormat.leastPower (f : BinaryFormat) : Int :=
  2 - (2 ^ (f.exponentBits - 1) : Nat) - (f.fractionBits : Int)

/-- A number taken apart. -/
inductive FloatClass where
  | nan
  | infinite (negative : Bool)
  /-- The number ± m · 2^q; `narrow` when the next smaller number is only half as far away. -/
  | finite (negative : Bool) (m : Nat) (q : Int) (narrow : Bool)
  deriving DecidableEq, Repr

def BinaryFormat.classify (f : BinaryFormat) (bits : Nat) : FloatClass :=
  let fraction := bits % 2 ^ f.fractionBits
  let field := bits / 2 ^ f.fractionBits % 2 ^ f.exponentBits
  let negative := bits / 2 ^ (f.fractionBits + f.exponentBits) % 2 = 1
  if field = f.topExponent then
    if fraction = 0 then .infinite negative else .nan
  else if field = 0 then .finite negative fraction f.leastPower false
  else .finite negative (2 ^ f.fractionBits + fraction) (f.leastPower + (field - 1 : Nat))
    (fraction = 0 && field > 1)

/-! ## Shortest digits -/

/-- How many decimal digits stand before the point of `num / den` (negative: zeros after it). -/
def pointPosition (num den : Nat) : Int :=
  if den ≤ num then ((digits 10 (num / den)).length : Nat)
  else 1 - ((digits 10 ((den + num - 1) / num - 1)).length : Nat)

/-- The interval of reals around `value / den` that round to it. -/
structure RoundingInterval where
  low : Nat
  value : Nat
  high : Nat
  den : Nat
  closed : Bool

/-- The decimal `d · 10^k` lies in the interval. -/
def RoundingInterval.holds (iv : RoundingInterval) (d : Nat) (k : Int) : Bool :=
  let num := d * 10 ^ k.toNat * iv.den
  let scale := 10 ^ (-k).toNat
  if iv.closed then iv.low * scale ≤ num && num ≤ iv.high * scale
  else iv.low * scale < num && num < iv.high * scale

/-- Of the two neighbours of the number on the grid of `10^k`, the nearest one inside. -/
def RoundingInterval.neighbour? (iv : RoundingInterval) (k : Int) : Option Nat :=
  let num := iv.value * 10 ^ (-k).toNat
  let den := iv.den * 10 ^ k.toNat
  let below := num / den
  let above := below + 1
  match iv.holds below k, iv.holds above k with
  | true, true =>
    let rest := 2 * (num % den)
    if rest < den then some below
    else if den < rest then some above
    else if below % 2 = 0 then some below else some above
  | true, false => some below
  | false, true => some above
  | false, false => none

/-- The first grid with a hit, starting at `count` digits and trying at most `fuel` grids. -/
def RoundingInterval.search (iv : RoundingInterval) (point : Int) : Nat → Nat → Nat × Int
  | 0, count => (iv.value * 10 ^ ((count : Int) - point).toNat / (iv.den * 10 ^ (point - count).toNat),
      point - count)
  | fuel + 1, count =>
    match iv.neighbour? (point - count) with
    | some d => (d, point - count)
    | none => iv.search point fuel (count + 1)

/-- The interval of `m · 2^q`. -/
def roundingInterval (m : Nat) (q : Int) (narrow : Bool) : RoundingInterval :=
  let scale := 2 ^ (q - 2).toNat
  { low := (4 * m - (if narrow then 1 else 2)) * scale
    value := 4 * m * scale
    high := (4 * m + 2) * scale
    den := 2 ^ (2 - q).toNat
    closed := m % 2 = 0 }

/-- Drop trailing zeros of a list of digits written in reverse. -/
def dropZeros : List Char → List Char
  | '0' :: rest => dropZeros rest
  | ds => ds

/-- Shortest digits of `m · 2^q` and the position of the point among them: `(ds, p)` is the
number `0.ds · 10^p`. -/
def shortest (m : Nat) (q : Int) (narrow : Bool) : List Char × Int :=
  if m = 0 then ([], 0)
  else
    let iv := roundingInterval m q narrow
    let point := pointPosition iv.value iv.den
    let (d, k) := iv.search point 20 1
    let ds := digits 10 d
    ((dropZeros ds.reverse).reverse, ds.length + k)

/-! ## Layout -/

/-- Exponents written positionally are at least the first and below the second. -/
def positionalExponents : Int × Int := (-4, 6)

/-- Positional layout of `0.ds · 10^point`. -/
def positional (ds : List Char) (point : Int) : List Char :=
  if point ≤ 0 then
    if ds.isEmpty then ['0'] else ['0', '.'] ++ List.replicate (-point).toNat '0' ++ ds
  else
    let n := point.toNat
    let whole := ds.take n ++ List.replicate (n - ds.length) '0'
    if ds.length ≤ n then whole else whole ++ ['.'] ++ ds.drop n

/-- Layout with an exponent of at least two digits. -/
def scientific (ds : List Char) (exponent : Int) : List Char :=
  let front := match ds with
    | [] => ['0']
    | [d] => [d]
    | d :: rest => d :: '.' :: rest
  let sign := if exponent < 0 then '-' else '+'
  let e := digits 10 exponent.natAbs
  front ++ ['e', sign] ++ List.replicate (2 - e.length) '0' ++ e

/-- The text of a floating-point number given by its raw bits. -/
def BinaryFormat.text (f : BinaryFormat) (bits : Nat) : String :=
  match f.classify bits with
  | .nan => "NaN"
  | .infinite true => "-Inf"
  | .infinite false => "+Inf"
  | .finite negative m q narrow =>
    let (ds, point) := shortest m q narrow
    let exponent := point - 1
    let body :=
      if exponent < positionalExponents.1 || positionalExponents.2 ≤ exponent then scientific ds exponent
      else positional ds point
    String.ofList (if negative then '-' :: body else body)

end RiscvJit.Text
