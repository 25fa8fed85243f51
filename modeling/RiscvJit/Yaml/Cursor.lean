import RiscvJit.Text.Integer

/-
  RiscvJit.Yaml.Cursor — places in a YAML text.

  A cursor is what is left of the text together with where that starts. Lines and columns are
  counted from zero, and columns count characters.

  A text is taken in pieces of 512 bytes, and a piece with a forbidden character cannot be
  taken. What comes before that piece can still be read, so an error in the readable part is
  met first: `require` says how many characters a step looks at, and complains when some of
  them lie in a piece that cannot be taken.
-/

namespace RiscvJit.Yaml

/-- A text that is not YAML. -/
structure SyntaxError where
  /-- The line it is reported at; zero when it is not known. -/
  line : Nat
  problem : String
  deriving DecidableEq, Repr

def SyntaxError.message (e : SyntaxError) : String :=
  "yaml: " ++ (if e.line = 0 then "" else "line " ++ Text.ofNat e.line ++ ": ") ++ e.problem

abbrev Work := Except SyntaxError

/-! ## Characters -/

def isSpace (c : Char) : Bool := c = ' ' || c = '\t'

def isBreak (c : Char) : Bool :=
  c = '\n' || c = '\r' || c.toNat = 0x85 || c.toNat = 0x2028 || c.toNat = 0x2029

/-- A character of names: an ASCII letter or digit, an underscore or a dash. -/
def isName (c : Char) : Bool := c.isAlphanum || c = '_' || c = '-'

/-- The text stops here, at a space or at the end of a line. -/
def stopsAt : List Char → Bool
  | [] => true
  | c :: _ => isSpace c || isBreak c

def endsLine : List Char → Bool
  | [] => true
  | c :: _ => isBreak c

def isAllowed (c : Char) : Bool :=
  let n := c.toNat
  n = 9 || n = 10 || n = 13 || (0x20 ≤ n && n ≤ 0x7e) || n = 0x85 || (0xa0 ≤ n && n ≤ 0xd7ff) ||
    (0xe000 ≤ n && n ≤ 0xfffd) || 0x10000 ≤ n

def isOrderMark (c : Char) : Bool := c.toNat = 0xfeff

def hexValue? (digits : List Char) : Option Nat :=
  digits.foldlM (fun acc c => (Text.digitValue? c).bind fun d => if d < 16 then some (acc * 16 + d) else none) 0

/-! ## Cursors -/

/-- What is left of the text, and where it starts. -/
structure Cursor where
  rest : List Char
  index : Nat := 0
  line : Nat := 0
  column : Nat := 0
  /-- Behind what is left comes a piece that cannot be taken. -/
  isCut : Bool := false
  deriving Repr

namespace Cursor

/-- The cursor after some characters of the same line. -/
def skip (c : Cursor) (n : Nat) : Cursor :=
  { c with rest := c.rest.drop n, index := c.index + n, column := c.column + n }

/-- The cursor after one character of the same line. -/
def next (c : Cursor) : Cursor := c.skip 1

/-- The cursor at the start of the next line; two characters may form one break. -/
def nextLine (c : Cursor) : Cursor :=
  let n := match c.rest with
    | '\r' :: '\n' :: _ => 2
    | _ => 1
  { c with rest := c.rest.drop n, index := c.index + n, line := c.line + 1, column := 0 }

def skipSpaces (c : Cursor) : Cursor := c.skip (c.rest.takeWhile isSpace).length

def skipLine (c : Cursor) : Cursor := c.skip (c.rest.takeWhile (!isBreak ·)).length

def breakText (c : Cursor) : List Char :=
  match c.rest with
  | b :: _ => if b.toNat = 0x2028 || b.toNat = 0x2029 then [b] else ['\n']
  | [] => []

def isAt (c : Cursor) (ch : Char) : Bool := c.rest.head? = some ch

def atDocumentMark (c : Cursor) : Bool :=
  c.column = 0 && match c.rest with
    | '-' :: '-' :: '-' :: r => stopsAt r
    | '.' :: '.' :: '.' :: r => stopsAt r
    | _ => false

/-- The next `n` characters, as far as the text goes, can be taken. -/
def require (c : Cursor) (n : Nat) : Work Unit :=
  if c.isCut && (c.rest.drop (n - 1)).isEmpty then .error ⟨0, "control characters are not allowed"⟩ else .ok ()

/-- An error met here while reading something that started on an earlier line. An error on
the first line is reported without its line. -/
def fail {α : Type} (c : Cursor) (contextLine : Nat) (problem : String) : Work α := do
  c.require 1
  let line := if contextLine ≠ 0 then contextLine else c.line
  .error ⟨if line = 0 then 0 else line + 1, problem⟩

/-- An error about the place itself. -/
def refuse {α : Type} (c : Cursor) (problem : String) : Work α := c.fail c.line problem

end Cursor

/-! ## Pieces -/

def pieceSize : Nat := 512

/-- The number of characters before the first piece with a forbidden character. A piece
starts at the byte `start` and at the character `first`, and takes whole characters. -/
def readable? (start first : Nat) : (offset count : Nat) → List Char → Option Nat
  | _, _, [] => none
  | offset, count, c :: rest =>
    let stop := offset + c.utf8Size
    if start + pieceSize < stop then
      if isAllowed c then readable? offset count stop (count + 1) rest else some count
    else if isAllowed c then readable? start first stop (count + 1) rest
    else some first

def firstPiece : Nat → List Char → Nat
  | _, [] => 0
  | offset, c :: rest =>
    let stop := offset + c.utf8Size
    if pieceSize < stop then 0 else firstPiece stop rest + 1

/-- A text to read. -/
structure Source where
  start : Cursor
  /-- The number of characters in which every line loses its first one. A second mark of byte
  order at the start has this effect. -/
  marked : Nat := 0

/-- A text to read; a mark of byte order at its start does not count. -/
def Source.ofText (text : String) : Source :=
  let all := text.toList
  let chars := if all.head?.any isOrderMark then all.drop 1 else all
  let offset := if all.head?.any isOrderMark then 3 else 0
  let marked := if chars.head?.any isOrderMark then firstPiece offset chars else 0
  match readable? 0 0 offset 0 chars with
  | none => { start := { rest := chars }, marked }
  | some n => { start := { rest := chars.take n, isCut := true }, marked }

end RiscvJit.Yaml
