import RiscvJit.Text.Real
import RiscvJit.Yaml.Cursor

/-
  RiscvJit.Yaml.Meaning — what a scalar stands for.

  A quoted scalar is text. A plain one may be null, a truth value, an integer, a
  floating-point number or a point in time, and is text otherwise. Integers may have the mark
  of a base and underscores anywhere; a number with a point, an exponent or too many digits is
  a floating-point number. A tag of YAML asks for one of these meanings, and a scalar that
  does not have it is refused; other tags leave the text as it is.
-/

namespace RiscvJit.Yaml

open Text

/-- What a scalar stands for. -/
inductive Meaning where
  | null
  | truth (b : Bool)
  | int (n : Int)
  | float (bits : Nat)
  | time
  | text (s : String)
  deriving DecidableEq, Repr

def Meaning.tag : Meaning → String
  | .null => "!!null"
  | .truth _ => "!!bool"
  | .int _ => "!!int"
  | .float _ => "!!float"
  | .time => "!!timestamp"
  | .text _ => "!!str"

/-! ## Points in time -/

/-- A number of one or two digits and what follows it. -/
def shortNumber? : List Char → Option (Nat × List Char)
  | c :: d :: rest =>
    if c.isDigit then
      if d.isDigit then some ((c.toNat - 48) * 10 + (d.toNat - 48), rest) else some (c.toNat - 48, d :: rest)
    else none
  | [c] => if c.isDigit then some (c.toNat - 48, []) else none
  | [] => none

def daysIn (year month : Nat) : Nat :=
  if month = 2 then if year % 4 = 0 && (year % 100 ≠ 0 || year % 400 = 0) then 29 else 28
  else if month = 4 || month = 6 || month = 9 || month = 11 then 30
  else 31

/-- A number of one or two digits below a limit, after a mark. -/
def markedNumber? (mark : Char) (limit : Nat) : List Char → Option (Nat × List Char)
  | [] => none
  | c :: rest => if c = mark then (shortNumber? rest).filter (·.1 < limit) else none

/-- What may follow the seconds: digits after a point. -/
def dropFraction : List Char → List Char
  | '.' :: d :: rest => if d.isDigit then rest.dropWhile Char.isDigit else '.' :: d :: rest
  | ',' :: d :: rest => if d.isDigit then rest.dropWhile Char.isDigit else ',' :: d :: rest
  | text => text

def twoDigits (a b : Char) : Nat := (a.toNat - 48) * 10 + (b.toNat - 48)

/-- The offset of a time zone: at most 24 hours and at most 60 minutes. -/
def isZone : List Char → Bool
  | ['Z'] => true
  | [s, a, b, ':', c, d] =>
    (s = '+' || s = '-') && [a, b, c, d].all Char.isDigit && twoDigits a b ≤ 24 && twoDigits c d ≤ 60
  | _ => false

/-- The text is a point in time: a date, or a date and a time of day. -/
def isTime (text : List Char) : Bool :=
  let year := text.takeWhile Char.isDigit
  year.length = 4 && (do
    let y := year.foldl (fun n c => n * 10 + (c.toNat - 48)) 0
    let (month, rest) ← markedNumber? '-' 13 (text.drop 4)
    let (day, rest) ← markedNumber? '-' 32 rest
    if month = 0 || day = 0 || daysIn y month < day then none
    match rest with
    | [] => some true
    | sep :: rest => do
      let rest := if sep = ' ' then rest.dropWhile (· = ' ') else rest
      let (_, rest) ← (shortNumber? rest).filter (·.1 < 24)
      let (_, rest) ← markedNumber? ':' 60 rest
      let (_, rest) ← markedNumber? ':' 60 rest
      let rest := dropFraction rest
      some (if sep = ' ' then rest.isEmpty else (sep = 'T' || sep = 't') && isZone rest)) = some true

/-! ## Numbers -/

/-- The text has the form of a decimal fraction with an optional exponent. -/
def isDecimal (text : List Char) : Bool :=
  let body := dropSign text
  let whole := body.takeWhile Char.isDigit
  let rest := body.drop whole.length
  let (digits, rest) := match rest with
    | '.' :: r => (whole.length + (r.takeWhile Char.isDigit).length, r.dropWhile Char.isDigit)
    | r => (whole.length, r)
  0 < digits && match rest with
    | [] => true
    | e :: r => (e = 'e' || e = 'E') && !(dropSign r).isEmpty && (dropSign r).all Char.isDigit

/-- An integer with the digits of a base after a mark. -/
def markedInt? (mark : String) (base : Nat) (text : List Char) : Option Int :=
  let m := mark.toList
  if m.isPrefixOf text then
    let body := text.drop m.length
    match integer? (some base) 64 body, natural? (some base) 64 body with
    | .ok n, _ => some n
    | _, .ok n => some n
    | _, _ => none
  else if ('-' :: m).isPrefixOf text then
    (integer? (some base) 64 ('-' :: text.drop (m.length + 1))).toOption
  else none

/-- The number that a text starting with a digit or a sign stands for. -/
def number? (text : List Char) : Option Meaning :=
  let digits := text.filter (· ≠ '_')
  match integer? none 64 digits, natural? none 64 digits with
  | .ok n, _ => some (.int n)
  | _, .ok n => some (.int n)
  | _, _ =>
    let float := if isDecimal digits then (BinaryFormat.double.parse digits).toOption else none
    (float.map Meaning.float).orElse fun _ =>
      ((markedInt? "0b" 2 digits).orElse fun _ => markedInt? "0o" 8 digits).map Meaning.int

def word? (s : String) : Option Meaning :=
  let double := BinaryFormat.double
  let infinity := double.topExponent * 2 ^ double.fractionBits
  if ["", "~", "null", "Null", "NULL"].contains s then some .null
  else if ["true", "True", "TRUE"].contains s then some (.truth true)
  else if ["false", "False", "FALSE"].contains s then some (.truth false)
  else if [".nan", ".NaN", ".NAN"].contains s then some (.float double.quietNaN)
  else if [".inf", ".Inf", ".INF", "+.inf", "+.Inf", "+.INF"].contains s then some (.float infinity)
  else if ["-.inf", "-.Inf", "-.INF"].contains s then some (.float (2 ^ 63 + infinity))
  else none

/-- What a plain scalar stands for; it may be a point in time only if this is asked for. -/
def meaningOf (mayBeTime : Bool) (s : String) : Meaning :=
  match word? s with
  | some m => m
  | none =>
    let text := s.toList
    match text with
    | c :: _ =>
      if c = '.' then ((BinaryFormat.double.parse text).toOption.map Meaning.float).getD (.text s)
      else if c.isDigit || c = '+' || c = '-' then
        if mayBeTime && isTime text then .time else (number? text).getD (.text s)
      else .text s
    | [] => .null

/-- What a plain scalar without a tag stands for. -/
def plainMeaning (s : String) : Meaning := meaningOf true s

/-! ## Tags -/

def base64Digit? (c : Char) : Option Nat :=
  if c.isUpper then some (c.toNat - 65)
  else if c.isLower then some (c.toNat - 97 + 26)
  else if c.isDigit then some (c.toNat - 48 + 52)
  else if c = '+' then some 62
  else if c = '/' then some 63
  else none

/-- The bytes that a text in base 64 stands for; padding is written, line breaks do not
count. -/
def base64Bytes? : List Char → Option (List UInt8)
  | [] => some []
  | [a, b, '=', '='] => do
    let n := (← base64Digit? a) * 64 + (← base64Digit? b)
    return [UInt8.ofNat (n / 16)]
  | [a, b, c, '='] => do
    let n := ((← base64Digit? a) * 64 + (← base64Digit? b)) * 64 + (← base64Digit? c)
    return [UInt8.ofNat (n / 1024), UInt8.ofNat (n / 4)]
  | a :: b :: c :: d :: rest => do
    let n := (((← base64Digit? a) * 64 + (← base64Digit? b)) * 64 + (← base64Digit? c)) * 64 + (← base64Digit? d)
    return UInt8.ofNat (n / 65536) :: UInt8.ofNat (n / 256) :: UInt8.ofNat n :: (← base64Bytes? rest)
  | _ => none

/-- Bytes as text; where they are none, bytes that are no ASCII character are lost. -/
def textOrLoss (bytes : List UInt8) : String :=
  (String.fromUTF8? (ByteArray.mk bytes.toArray)).getD
    (String.ofList (bytes.map fun b => if b < 0x80 then Char.ofNat b.toNat else Char.ofNat 0xfffd))

def meaningTags : List String := ["!!bool", "!!int", "!!float", "!!null", "!!timestamp"]

/-- An integer as the nearest floating-point number. -/
def floatOfInt? (n : Int) : Option Nat :=
  if n < 2 ^ 63 then (BinaryFormat.double.parse (ofInt n).toList).toOption else none

def meaningAs (tag text : String) : Work Meaning :=
  let m := meaningOf (tag = "!!timestamp") text
  let refusal : Work Meaning := .error ⟨0, "cannot decode " ++ m.tag ++ " \x60" ++ text ++ "\x60 as a " ++ tag⟩
  if m.tag = tag then .ok m
  else match m with
    | .int n =>
      match if tag = "!!float" then floatOfInt? n else none with
      | some bits => .ok (.float bits)
      | none => refusal
    | _ => refusal

def meaning (tag text : String) : Work Meaning :=
  if meaningTags.contains tag then meaningAs tag text
  else if tag = "!!binary" then
    match base64Bytes? (text.toList.filter fun c => c ≠ '\n' && c ≠ '\r') with
    | some bytes => .ok (.text (textOrLoss bytes))
    | none => .error ⟨0, "!!binary value contains invalid base64 data"⟩
  else .ok (.text text)

/-! ## Whole numbers from floating-point ones -/

/-- The integer part of a finite number, towards zero. -/
def wholePart (negative : Bool) (m : Nat) (q : Int) : Int :=
  let n : Nat := if 0 ≤ q then m * 2 ^ q.toNat else m / 2 ^ (-q).toNat
  if negative then -(n : Int) else n

/-- The least 64-bit integer, which also stands for numbers that are out of range. -/
def leastInt : Int := -2 ^ 63

/-- A floating-point number as a 64-bit integer; one that is too large is none. -/
def floatToInt? (bits : Nat) : Option Int :=
  match BinaryFormat.double.classify bits with
  | .nan => none
  | .infinite negative => if negative then some leastInt else none
  | .finite negative m q _ =>
    let n := wholePart negative m q
    if 2 ^ 63 < n then none else if n < 2 ^ 63 && leastInt ≤ n then some n else some leastInt

/-- A floating-point number as an unsigned 64-bit integer. Negative numbers wrap around. -/
def floatToNat? (bits : Nat) : Option Nat :=
  match BinaryFormat.double.classify bits with
  | .nan => none
  | .infinite negative => if negative then some (2 ^ 63) else none
  | .finite negative m q _ =>
    let n := wholePart negative m q
    if 2 ^ 64 < n then none
    else if n < leastInt then some (2 ^ 63)
    else some (n % 2 ^ 64).toNat

end RiscvJit.Yaml
