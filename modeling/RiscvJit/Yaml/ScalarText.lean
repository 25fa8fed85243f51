import RiscvJit.Yaml.Cursor

/-
  RiscvJit.Yaml.ScalarText — the text of plain, quoted and block scalars.

  A scalar may go over several lines. Inside plain and quoted scalars one line break stands
  for a space and further breaks stand for themselves; blanks around breaks are lost. A block
  scalar keeps its lines below an indentation that its header or its first line gives, and
  the folded style joins lines by spaces where neither of them starts with a blank.
-/

namespace RiscvJit.Yaml

/-- Blanks and breaks inside a scalar, each list built from its end. -/
structure Gap where
  blanks : List Char := []
  first : Option (List Char) := none
  /-- The other breaks. -/
  more : List Char := []

/-- What a gap stands for, put behind a text; both are built from their ends. Blanks stay, one
break is a space, and more breaks stay but for the first one. -/
def Gap.behind (g : Gap) (rev : List Char) : List Char :=
  match g.first with
  | none => g.blanks ++ rev
  | some ['\n'] => if g.more.isEmpty then ' ' :: rev else g.more ++ rev
  | some b => g.more ++ (b ++ rev)

/-- Read blanks and breaks. `least` is the column that tabs may not stand before. -/
def readGap (least : Option Nat) (startLine : Nat) : Nat → Cursor → Gap → Work (Cursor × Gap)
  | 0, c, g => .ok (c, g)
  | fuel + 1, c, g => do
    c.require 1
    match c.rest with
    | [] => return (c, g)
    | ch :: _ =>
      if isSpace ch then
        if g.first.isSome then
          if ch = '\t' && least.any (c.column < ·) then
            c.fail startLine "found a tab character that violates indentation"
          else readGap least startLine fuel c.next g
        else readGap least startLine fuel c.next { g with blanks := ch :: g.blanks }
      else if isBreak ch then
        if g.first.isSome then
          readGap least startLine fuel c.nextLine { g with more := c.breakText ++ g.more }
        else readGap least startLine fuel c.nextLine { g with blanks := [], first := some c.breakText }
      else return (c, g)

/-! ## Plain scalars -/

/-- The number of characters before a plain scalar has to stop on this line. -/
def plainRun (inFlow : Bool) : List Char → Nat
  | [] => 0
  | c :: rest =>
    if isSpace c || isBreak c then 0
    else if c = ':' && stopsAt rest then 0
    else if inFlow && (c = ',' || c = '?' || c = '[' || c = ']' || c = '\x7b' || c = '\x7d') then 0
    else plainRun inFlow rest + 1

structure ScalarText where
  text : List Char
  /-- A line break came last. -/
  isBroken : Bool
  /-- What follows. -/
  cursor : Cursor

/-- Read a plain scalar at least `least` columns deep, after the text `rev`, which is built
from its end, and the gap `g`. The gap only counts when more text follows. -/
def readPlain (inFlow : Bool) (startLine least : Nat) :
    Nat → Cursor → List Char → Gap → Work ScalarText
  | 0, c, rev, g => .ok ⟨rev.reverse, g.first.isSome, c⟩
  | fuel + 1, c, rev, g => do
    c.require 4
    if c.atDocumentMark || c.isAt '#' then return ⟨rev.reverse, g.first.isSome, c⟩
    let n := plainRun inFlow c.rest
    let rev := if n = 0 then rev else (c.rest.take n).reverse ++ g.behind rev
    let g := if n = 0 then g else {}
    let c := c.skip n
    c.require 2
    if c.rest.isEmpty || !stopsAt c.rest then return ⟨rev.reverse, g.first.isSome, c⟩
    let (c, g) ← readGap (some least) startLine (fuel + 1) c g
    if !inFlow && c.column < least then return ⟨rev.reverse, g.first.isSome, c⟩
    readPlain inFlow startLine least fuel c rev g

/-! ## Quoted scalars -/

def escaped? (c : Char) : Option Nat :=
  match c with
  | '0' => some 0
  | 'a' => some 7
  | 'b' => some 8
  | 't' => some 9
  | '\t' => some 9
  | 'n' => some 10
  | 'v' => some 11
  | 'f' => some 12
  | 'r' => some 13
  | 'e' => some 27
  | ' ' => some 0x20
  | '"' => some 0x22
  | '\'' => some 0x27
  | '\\' => some 0x5c
  | 'N' => some 0x85
  | '_' => some 0xa0
  | 'L' => some 0x2028
  | 'P' => some 0x2029
  | _ => none

/-- The number of hexadecimal digits that an escape is followed by. -/
def hexLength? (c : Char) : Option Nat :=
  match c with
  | 'x' => some 2
  | 'u' => some 4
  | 'U' => some 8
  | _ => none

def readEscape (startLine : Nat) (c : Cursor) : Work (Char × Cursor) :=
  match c.rest.drop 1 with
  | [] => c.fail startLine "found unknown escape character"
  | e :: rest =>
    match escaped? e, hexLength? e with
    | some n, _ => .ok (Char.ofNat n, c.skip 2)
    | none, some len => do
      let c := c.skip 2
      c.require len
      let digits := rest.take len
      match if digits.length = len then hexValue? digits else none with
      | none => c.fail startLine "did not find expected hexdecimal number"
      | some n =>
        if (0xd800 ≤ n && n ≤ 0xdfff) || 0x10ffff < n then
          c.fail startLine "found invalid Unicode character escape code"
        else return (Char.ofNat n, c.skip len)
    | none, none => c.fail startLine "found unknown escape character"

/-- Read quoted characters up to a blank, a break or the closing quote. The text is built from
its end. An escaped break also ends them, and is marked as such. -/
def readQuotedRun (quote : Char) (startLine : Nat) :
    Nat → Cursor → List Char → Work (List Char × Bool × Cursor)
  | 0, c, rev => .ok (rev, false, c)
  | fuel + 1, c, rev =>
    match c.rest with
    | [] => .ok (rev, false, c)
    | ch :: rest => do
      if isSpace ch || isBreak ch then return (rev, false, c)
      if ch = quote then
        if quote = '\'' && rest.head? = some '\'' then
          (c.skip 2).require 2
          readQuotedRun quote startLine fuel (c.skip 2) ('\'' :: rev)
        else return (rev, false, c)
      else if quote = '"' && ch = '\\' then
        if rest.head?.any isBreak then
          c.require 3
          return (rev, true, c.next.nextLine)
        else
          let (e, c) ← readEscape startLine c
          c.require 2
          readQuotedRun quote startLine fuel c (e :: rev)
      else
        c.next.require 2
        readQuotedRun quote startLine fuel c.next (ch :: rev)

/-- Read a quoted scalar up to its closing quote. The text is built from its end. -/
def readQuoted (quote : Char) (startLine : Nat) : Nat → Cursor → List Char → Work (List Char × Cursor)
  | 0, c, _ => c.fail startLine "found unexpected end of stream"
  | fuel + 1, c, rev => do
    c.require 4
    if c.atDocumentMark then c.fail startLine "found unexpected document indicator"
    if c.rest.isEmpty then c.fail startLine "found unexpected end of stream"
    let (rev, isEscaped, c) ← readQuotedRun quote startLine (fuel + 1) c rev
    c.require 1
    if c.isAt quote then return (rev.reverse, c.next)
    -- An escaped break is dropped together with the blanks of the next line.
    let (c, g) ← readGap none startLine (fuel + 1) c { first := if isEscaped then some [] else none }
    readQuoted quote startLine fuel c (g.behind rev)

/-! ## Block scalars -/

/-- What happens to the breaks at the end of a block scalar. -/
inductive Chomping where
  | clip
  | strip
  | keep
  deriving DecidableEq, Repr

def chomping? (c : Cursor) : Option Chomping :=
  if c.isAt '+' then some .keep else if c.isAt '-' then some .strip else none

/-- Read the digit of an indentation, if there is one. -/
def readIncrement (startLine : Nat) (c : Cursor) : Work (Nat × Cursor) :=
  match c.rest with
  | d :: _ =>
    if d = '0' then c.fail startLine "found an indentation indicator equal to 0"
    else if d.isDigit then .ok (d.toNat - 48, c.next)
    else .ok (0, c)
  | [] => .ok (0, c)

/-- Read the rest of the first line of a block scalar: the way of chomping and the additional
indentation, in either order. -/
def readBlockHeader (startLine : Nat) (c : Cursor) : Work (Chomping × Nat × Cursor) := do
  let (chomping, increment, c) ← match chomping? c with
    | some ch => do
      let (n, c) ← readIncrement startLine c.next
      pure (ch, n, c)
    | none => do
      let (n, c) ← readIncrement startLine c
      pure <| match if n = 0 then none else chomping? c with
        | some ch => (ch, n, c.next)
        | none => (Chomping.clip, n, c)
  let c := c.skipSpaces
  let c := if c.isAt '#' then c.skipLine else c
  c.require 1
  if !endsLine c.rest then c.fail startLine "did not find expected comment or line break"
  return (chomping, increment, if c.rest.isEmpty then c else c.nextLine)

/-- Read indentation and empty lines: the cursor behind them, the deepest column that was
reached, and the breaks from their end. An indentation of zero is not known yet. -/
def readBlockBreaks (startLine indent : Nat) : Nat → Cursor → Nat → List Char → Work (Cursor × Nat × List Char)
  | 0, c, deepest, breaks => .ok (c, deepest, breaks)
  | fuel + 1, c, deepest, breaks => do
    let spaces := (c.rest.takeWhile (· = ' ')).length
    let c := c.skip (if indent = 0 then spaces else min spaces (indent - c.column))
    c.require 1
    let deepest := max deepest c.column
    if (indent = 0 || c.column < indent) && c.isAt '\t' then
      c.fail startLine "found a tab character where an indentation space is expected"
    if c.rest.head?.any isBreak then
      readBlockBreaks startLine indent fuel c.nextLine deepest (c.breakText ++ breaks)
    else return (c, deepest, breaks)

/-- What a block scalar consists of so far, each list built from its end. -/
structure BlockText where
  rev : List Char := []
  last : List Char := []
  empty : List Char := []
  isBlank : Bool := false

def readBlockLines (isLiteral : Bool) (startLine indent : Nat) : Nat → Cursor → BlockText → Work (BlockText × Cursor)
  | 0, c, b => .ok (b, c)
  | fuel + 1, c, b =>
    match c.rest with
    | [] => .ok (b, c)
    | ch :: _ =>
      if c.column ≠ indent then .ok (b, c)
      else do
        let isBlank := isSpace ch
        let isFolded := !isLiteral && !b.isBlank && !isBlank && b.last = ['\n']
        let joint := if isFolded then (if b.empty.isEmpty then [' '] else []) else b.last
        let words := c.rest.takeWhile (!isBreak ·)
        let c := c.skip words.length
        c.require 2
        let rev := words.reverse ++ (b.empty ++ (joint ++ b.rev))
        let last := c.breakText
        let c := if c.rest.isEmpty then c else c.nextLine
        let (c, _, empty) ← readBlockBreaks startLine indent (fuel + 1) c 0 []
        readBlockLines isLiteral startLine indent fuel c ⟨rev, last, empty, isBlank⟩

/-- Read a block scalar inside a collection of some indentation; the cursor stands at its
sign. -/
def readBlock (fuel : Nat) (isLiteral : Bool) (outer : Option Nat) (c : Cursor) : Work (List Char × Cursor) := do
  let startLine := c.line
  let (chomping, increment, c) ← readBlockHeader startLine c.next
  let given := if increment = 0 then 0 else outer.getD 0 + increment
  let (c, deepest, empty) ← readBlockBreaks startLine given fuel c 0 []
  let least := match outer with
    | some i => i + 1
    | none => 0
  let indent := if given = 0 then max (max deepest least) 1 else given
  let (b, c) ← readBlockLines isLiteral startLine indent fuel c { empty }
  let tail := match chomping with
    | .strip => []
    | .clip => b.last
    | .keep => b.empty ++ b.last
  return ((tail ++ b.rev).reverse, c)

end RiscvJit.Yaml
