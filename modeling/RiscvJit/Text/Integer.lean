/-
  RiscvJit.Text.Integer — whole numbers, written and read.

  Every number the library writes goes through the functions here: plain decimal, decimal
  with an explicit sign, hexadecimal with and without its `0x` mark, and fixed-width
  columns filled from the left or the right.
-/

namespace RiscvJit.Text

-- A power is the one of the core library, also where an algebraic one is in scope.
attribute [instance (10001), default_instance (10001)] instPowNat

/-- The digit of value `d < 36`, in lower case. -/
def digitChar (d : Nat) : Char :=
  if d < 10 then Char.ofNat (48 + d) else Char.ofNat (87 + d)

/-- Digits of `n` in `base`, most significant first; zero is one digit. -/
def digits (base : Nat) (n : Nat) : List Char :=
  if h : 2 ≤ base ∧ base ≤ n then
    have : n / base < n := Nat.div_lt_self (by omega) (by omega)
    digits base (n / base) ++ [digitChar (n % base)]
  else [digitChar n]
termination_by n

/-- Decimal text of a natural number. -/
def ofNat (n : Nat) : String := String.ofList (digits 10 n)

/-- Decimal text, with a minus sign for numbers below zero. -/
def ofInt (n : Int) : String :=
  match n with
  | .ofNat m => ofNat m
  | .negSucc m => "-" ++ ofNat (m + 1)

/-- Decimal text that always starts with a sign. -/
def ofSigned (n : Int) : String :=
  if n < 0 then ofInt n else "+" ++ ofInt n

def hexDigits (n : Nat) : String := String.ofList (digits 16 n)

/-- Hexadecimal with the `0x` mark. -/
def hex (n : Nat) : String := "0x" ++ hexDigits n

/-- `n` copies of a character. -/
def rep (c : Char) (n : Nat) : String := String.ofList (List.replicate n c)

def padLeft (fill : Char) (width : Nat) (s : String) : String :=
  rep fill (width - s.length) ++ s

def padRight (width : Nat) (s : String) : String :=
  s ++ rep ' ' (width - s.length)

/-- Exactly `width` hexadecimal digits (more when the number needs them). -/
def hexPad (width : Nat) (n : Nat) : String := padLeft '0' width (hexDigits n)

/-- A machine word: eight hexadecimal digits. -/
def word (w : UInt32) : String := hexPad 8 w.toNat

def hexBytes (bytes : List UInt8) : String :=
  String.join (bytes.map fun b => hexPad 2 b.toNat)

/-- The items separated by `sep`. -/
def join (sep : String) (items : List String) : String := sep.intercalate items

/-- The words `true` and `false`. -/
def ofBool (b : Bool) : String := if b then "true" else "false"

end RiscvJit.Text

/-! ## Reading whole numbers

Two readers share one grammar. `natural?` reads an unsigned number of at most 64 bits,
`integer?` an optionally signed one. With `base = none` the number may say its base
itself: `0x`, `0o`, `0b`, or a leading `0` for octal; and only then may underscores stand
between digits (one may follow the mark of the base). With `base = some 10` neither
marks nor underscores are allowed.

A text is `malformed` when it is no number and `outOfRange` when the number does not fit
the width; of the two, the one that shows first from the left is reported. -/

namespace RiscvJit.Text

/-- Why a text is not taken as a number. -/
inductive NumberError where
  | malformed
  | outOfRange
  deriving DecidableEq, Repr

def NumberError.reason : NumberError → String
  | .malformed => "invalid syntax"
  | .outOfRange => "value out of range"

def lower (c : Char) : Char :=
  if 'A' ≤ c && c ≤ 'Z' then Char.ofNat (c.toNat + 32) else c

/-- The value of a digit of any base up to 36. -/
def digitValue? (c : Char) : Option Nat :=
  if '0' ≤ c && c ≤ '9' then some (c.toNat - 48)
  else if 'a' ≤ lower c && lower c ≤ 'z' then some ((lower c).toNat - 87)
  else none

/-! ## Underscores -/

/-- What the last character was, for placing underscores. -/
inductive Seen where
  | start
  | digit
  | underscore
  | other
  deriving DecidableEq, Repr

def underscoresPlaced (hexadecimal : Bool) : Seen → List Char → Bool
  | seen, [] => seen != .underscore
  | seen, c :: rest =>
    if ('0' ≤ c && c ≤ '9') || (hexadecimal && 'a' ≤ lower c && lower c ≤ 'f') then
      underscoresPlaced hexadecimal .digit rest
    else if c = '_' then
      if seen = .digit then underscoresPlaced hexadecimal .underscore rest else false
    else if seen = .underscore then false
    else underscoresPlaced hexadecimal .other rest

def dropSign : List Char → List Char
  | '+' :: rest => rest
  | '-' :: rest => rest
  | text => text

/-- Underscores of a literal stand between digits or right after the mark of the base. -/
def underscoresOk (text : List Char) : Bool :=
  match dropSign text with
  | '0' :: m :: rest =>
    if lower m = 'x' then underscoresPlaced true .digit rest
    else if lower m = 'b' || lower m = 'o' then underscoresPlaced false .digit rest
    else underscoresPlaced false .start ('0' :: m :: rest)
  | body => underscoresPlaced false .start body

/-! ## Naturals -/

def announcedBase : List Char → Nat × List Char
  | '0' :: m :: d :: rest =>
    if lower m = 'b' then (2, d :: rest)
    else if lower m = 'o' then (8, d :: rest)
    else if lower m = 'x' then (16, d :: rest)
    else (8, m :: d :: rest)
  | '0' :: rest => (8, rest)
  | text => (10, text)

/-- The value of a run of digits, below `limit`; underscores are skipped when allowed. The
first character that makes the number too large, or is no digit, decides. -/
def digitsValue (base limit : Nat) (underscores : Bool) : Nat → List Char → Except NumberError Nat
  | acc, [] => .ok acc
  | acc, c :: rest =>
    if c = '_' && underscores then digitsValue base limit underscores acc rest
    else match digitValue? c with
      | none => .error .malformed
      | some d =>
        if base ≤ d then .error .malformed
        else if limit ≤ acc * base + d then .error .outOfRange
        else digitsValue base limit underscores (acc * base + d) rest

/-- An unsigned number of at most `bits` bits. -/
def natural? (base : Option Nat) (bits : Nat) (text : List Char) : Except NumberError Nat :=
  if text.isEmpty then .error .malformed
  else
    let (radix, body) := match base with
      | some b => (b, text)
      | none => announcedBase text
    match digitsValue radix (2 ^ bits) base.isNone 0 body with
    | .error e => .error e
    | .ok n =>
      if base.isNone && text.contains '_' && !underscoresOk text then .error .malformed
      else .ok n

/-- A signed number of at most `bits` bits. -/
def integer? (base : Option Nat) (bits : Nat) (text : List Char) : Except NumberError Int :=
  match text with
  | [] => .error .malformed
  | c :: rest =>
    let negative := c = '-'
    let body := if c = '+' || c = '-' then rest else text
    match natural? base bits body with
    | .error e => .error e
    | .ok n =>
      if negative then
        if n ≤ 2 ^ (bits - 1) then .ok (-(n : Int)) else .error .outOfRange
      else if n < 2 ^ (bits - 1) then .ok (n : Int)
      else .error .outOfRange

/-- The bytes that pairs of hexadecimal digits stand for. -/
def bytesOfHex : List Char → List UInt8
  | a :: b :: rest => UInt8.ofNat ((digitValue? a).getD 0 * 16 + (digitValue? b).getD 0) :: bytesOfHex rest
  | _ => []

def decimal? (text : List Char) : Except NumberError Int := integer? (some 10) 64 text

end RiscvJit.Text
