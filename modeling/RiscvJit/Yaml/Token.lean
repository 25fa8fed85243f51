import RiscvJit.Yaml.Property
import RiscvJit.Yaml.ScalarText

/-
  RiscvJit.Yaml.Token — the tokens of a YAML text.

  Indentation becomes tokens of its own. A block collection starts where a line is indented
  deeper than the collection around it, and ends where a line is indented less. Whether a
  scalar is the key of a mapping shows only at the `:` behind it, so every place where a key
  could start is remembered, and the tokens that open the key are put in there later.

  Tokens are read when they are asked for. Two tokens behind the next one are always read
  too, and the next one is kept back as long as it may turn out to be a key. This decides
  which of two errors in a text is met.
-/

namespace RiscvJit.Yaml

/-! ## Tokens -/

inductive ScalarStyle where
  | plain
  /-- In quotes, or as a block. -/
  | marked
  deriving DecidableEq, Repr

inductive TokenKind where
  | streamStart
  | streamEnd
  | directive (d : Directive)
  | documentStart
  | documentEnd
  | blockSequence
  | blockMapping
  | blockEnd
  | flowSequence
  | flowSequenceEnd
  | flowMapping
  | flowMappingEnd
  /-- The `-` before an item of a block sequence. -/
  | item
  /-- The `,` of flow collections. -/
  | comma
  | key
  | value
  | reference (name : String)
  | anchor (name : String)
  | tag (handle suffix : String)
  | scalar (style : ScalarStyle) (text : String)
  deriving DecidableEq, Repr

/-- A token and the line it starts on. -/
structure Token where
  kind : TokenKind
  line : Nat
  deriving DecidableEq, Repr

/-! ## Scanning -/

structure KeyPlace where
  /-- The number of the token that would be the key. -/
  number : Nat
  index : Nat
  line : Nat
  column : Nat
  /-- A key has to stand here. -/
  isRequired : Bool := false
  /-- The place can still become a key. -/
  isPossible : Bool := true
  deriving Repr

structure Scan where
  cursor : Cursor
  /-- Enough steps to read the whole text. -/
  fuel : Nat
  /-- The number of characters in which every line loses its first one. -/
  marked : Nat := 0
  queue : List Token := []
  taken : Nat := 0
  /-- How many flow collections are open. -/
  depth : Nat := 0
  /-- The columns of the open block collections, the innermost first. -/
  indents : List Nat := []
  keyAllowed : Bool := true
  /-- The last place for a key in each open flow collection, the innermost first, and outside
  of them. -/
  places : List KeyPlace := [{ number := 0, index := 0, line := 0, column := 0, isPossible := false }]
  /-- For tokens that may be keys, the number of flow collections around them. -/
  keyDepths : List (Nat × Nat) := []

namespace Scan

/-- How deep collections may be nested. -/
def depthLimit : Nat := 10000

def tooDeep {α : Type} (s : Scan) (line : Nat) : Work α :=
  s.cursor.fail line ("exceeded max depth of " ++ Text.ofNat depthLimit)

def nextNumber (s : Scan) : Nat := s.taken + s.queue.length

def pushAt (s : Scan) (line : Nat) (kind : TokenKind) : Scan := { s with queue := s.queue ++ [⟨kind, line⟩] }

def push (s : Scan) (kind : TokenKind) : Scan := s.pushAt s.cursor.line kind

/-- Put a token in before the one of a number; behind all others if that one was taken. -/
def insert (s : Scan) (number : Nat) (t : Token) : Scan :=
  if number < s.taken then { s with queue := s.queue ++ [t] }
  else { s with queue := s.queue.insertIdx (number - s.taken) t }

def isDeeper (s : Scan) (column : Nat) : Bool :=
  match s.indents with
  | [] => true
  | i :: _ => i < column

def openBlock (s : Scan) (column number line : Nat) (kind : TokenKind) : Work Scan :=
  if s.depth = 0 && s.isDeeper column then do
    let s := { s with indents := column :: s.indents }
    if depthLimit < s.indents.length then s.tooDeep ((s.places.head?.map KeyPlace.line).getD 0)
    return s.insert number ⟨kind, line⟩
  else .ok s

/-- Close the block collections in `indents` that are deeper than a column. -/
def closeFrom (column : Option Nat) (line : Nat) : List Nat → Scan → Scan
  | [], s => { s with indents := [] }
  | i :: rest, s =>
    if column.all (· < i) then closeFrom column line rest (s.pushAt line .blockEnd)
    else { s with indents := i :: rest }

/-- Close the block collections that are deeper than a column, or all of them. -/
def closeBlocks (s : Scan) (column : Option Nat) (line : Nat) : Scan :=
  if s.depth = 0 then closeFrom column line s.indents s else s

/-! ## Places for keys -/

def missingColon {α : Type} (s : Scan) (p : KeyPlace) : Work α :=
  s.cursor.fail p.line "could not find expected ':'"

/-- A place can become a key on its own line and not too far on. Elsewhere a required key is
missing. -/
def isUsable (s : Scan) (p : KeyPlace) : Work Bool :=
  if !p.isPossible then .ok false
  else if p.line < s.cursor.line || p.index + 1024 < s.cursor.index then
    if p.isRequired then s.missingColon p else .ok false
  else .ok true

def setPlace (s : Scan) (p : KeyPlace) : Scan := { s with places := p :: s.places.drop 1 }

/-- A token is no longer held back as a key. -/
def release (s : Scan) (number : Nat) : Scan :=
  { s with keyDepths := s.keyDepths.filter (·.1 ≠ number) }

def dropPlace (s : Scan) : Work Scan :=
  match s.places with
  | p :: _ =>
    if p.isPossible then
      if p.isRequired then s.missingColon p
      else .ok ((s.setPlace { p with isPossible := false }).release p.number)
    else .ok s
  | [] => .ok s

/-- Remember the cursor as a place for a key, if one may start here. -/
def savePlace (s : Scan) : Work Scan :=
  if s.keyAllowed then do
    let c := s.cursor
    let isRequired := s.depth = 0 && s.indents.head? = some c.column
    let p : KeyPlace := { number := s.nextNumber, index := c.index, line := c.line, column := c.column, isRequired }
    let s := (← s.dropPlace).setPlace p
    -- What was said of tokens that were taken no longer counts.
    let waiting := s.keyDepths.filter fun k => k.1 ≠ p.number && s.taken ≤ k.1
    return { s with keyDepths := (p.number, s.depth) :: waiting }
  else .ok s

/-! ## Between tokens -/

/-- A blank or one of the common line breaks. -/
def isGap (c : Char) : Bool := isSpace c || c = '\n' || c = '\r'

/-- Move past a comment and past all comments that follow it on lines of their own. -/
def skipComments : Nat → Cursor → Cursor
  | 0, c => c
  | fuel + 1, c =>
    let c := c.skipLine
    let gap := (c.rest.take 512).takeWhile isGap
    match c.rest.drop gap.length with
    | '#' :: _ =>
      if gap.length < 512 then
        -- Everything up to the next comment consists of blanks and breaks.
        skipComments fuel (overGap gap.length c)
      else c
    | _ => c
where
  /-- The cursor behind a number of blanks and breaks. -/
  overGap : Nat → Cursor → Cursor
    | 0, c => c
    | n + 1, c =>
      match c.rest with
      | '\r' :: '\n' :: _ => overGap (n - 1) c.nextLine
      | ch :: _ => overGap n (if isBreak ch then c.nextLine else c.next)
      | [] => c

/-- Move past blanks, comments and line breaks to the next token. -/
def toNextToken : Nat → Scan → Work Scan
  | 0, s => .ok s
  | fuel + 1, s => do
    s.cursor.require 1
    let c := if s.cursor.column = 0 && s.cursor.index < s.marked then s.cursor.next else s.cursor
    let isBlank (ch : Char) : Bool := ch = ' ' || (ch = '\t' && (0 < s.depth || !s.keyAllowed))
    let c := c.skip (c.rest.takeWhile isBlank).length
    c.require 1
    let c := if c.isAt '#' then skipComments s.fuel c else c
    c.require 1
    if c.rest.head?.any isBreak then
      toNextToken fuel { s with cursor := c.nextLine, keyAllowed := s.keyAllowed || s.depth = 0 }
    else return { s with cursor := c }

/-- Move past a comment on the line of the token that was just read. -/
def skipLineComment (s : Scan) : Work Scan := do
  let blanks := (s.cursor.rest.take 512).takeWhile isSpace
  let c := s.cursor.skip blanks.length
  c.require 1
  if blanks.length < 512 && c.isAt '#' then return { s with cursor := c.skipLine }
  return s

/-! ## Single tokens -/

def mark (s : Scan) (kind : TokenKind) : Scan :=
  let s := s.push kind
  { s with cursor := s.cursor.next }

/-- The end of the text, which counts as a line of its own. -/
def streamEnd (s : Scan) : Work Scan := do
  let c := s.cursor
  let s := if c.column = 0 then s else { s with cursor := { c with line := c.line + 1, column := 0 } }
  let s ← (s.closeBlocks none s.cursor.line).dropPlace
  return { s with keyAllowed := false }.push .streamEnd

def directive (s : Scan) : Work Scan := do
  let s ← (s.closeBlocks none s.cursor.line).dropPlace
  let (d, cursor) ← readDirective s.fuel s.cursor
  return { s.push (.directive d) with cursor, keyAllowed := false }

def documentMark (s : Scan) : Work Scan := do
  let s ← (s.closeBlocks none s.cursor.line).dropPlace
  let s := s.push (if s.cursor.isAt '-' then .documentStart else .documentEnd)
  return { s with keyAllowed := false, cursor := s.cursor.skip 3 }

def flowStart (s : Scan) (kind : TokenKind) : Work Scan := do
  let s ← s.savePlace
  let c := s.cursor
  let p : KeyPlace :=
    { number := s.nextNumber, index := c.index, line := c.line, column := c.column, isPossible := false }
  let s := { s with places := p :: s.places, depth := s.depth + 1, keyAllowed := true }
  if depthLimit < s.depth then s.tooDeep c.line
  return s.mark kind

def flowEnd (s : Scan) (kind : TokenKind) : Work Scan := do
  let s ← s.dropPlace
  let s := if s.depth = 0 then s else
    let s := match s.places with
      | p :: _ => s.release p.number
      | [] => s
    { s with depth := s.depth - 1, places := s.places.drop 1 }
  return { s with keyAllowed := false }.mark kind

def comma (s : Scan) : Work Scan := do
  let s ← s.dropPlace
  return { s with keyAllowed := true }.mark .comma

/-- The `-` before an item. -/
def item (s : Scan) : Work Scan := do
  if s.depth = 0 && !s.keyAllowed then
    s.cursor.refuse "block sequence entries are not allowed in this context"
  let s ← s.openBlock s.cursor.column s.nextNumber s.cursor.line .blockSequence
  let s ← s.dropPlace
  return { s with keyAllowed := true }.mark .item

/-- The `?` before a key. -/
def explicitKey (s : Scan) : Work Scan := do
  if s.depth = 0 && !s.keyAllowed then
    s.cursor.refuse "mapping keys are not allowed in this context"
  let s ← s.openBlock s.cursor.column s.nextNumber s.cursor.line .blockMapping
  let s ← s.dropPlace
  return { s with keyAllowed := s.depth = 0 }.mark .key

/-- A `:` behind a key that started at a place. -/
def valueOf (s : Scan) (p : KeyPlace) : Work Scan := do
  let s := s.insert p.number ⟨.key, p.line⟩
  let s ← s.openBlock p.column p.number p.line .blockMapping
  let s := (s.setPlace { p with isPossible := false }).release p.number
  return { s with keyAllowed := false }.mark .value

/-- A `:` without a key before it. -/
def bareValue (s : Scan) : Work Scan := do
  if s.depth = 0 && !s.keyAllowed then
    s.cursor.refuse "mapping values are not allowed in this context"
  let s ← s.openBlock s.cursor.column s.nextNumber s.cursor.line .blockMapping
  return { s with keyAllowed := s.depth = 0 }.mark .value

/-- The `:` before a value: what stood at the last place for a key is the key. -/
def value (s : Scan) : Work Scan := do
  match s.places with
  | p :: _ =>
    if ← s.isUsable p then s.valueOf p
    else (s.setPlace { p with isPossible := false }).bareValue
  | [] => s.bareValue

def named (s : Scan) (kind : String → TokenKind) : Work Scan := do
  let s ← s.savePlace
  let (name, cursor) ← readAnchor s.cursor
  return { s.push (kind name) with cursor, keyAllowed := false }

def tag (s : Scan) : Work Scan := do
  let s ← s.savePlace
  let (handle, suffix, cursor) ← readTag s.fuel s.cursor
  return { s.push (.tag handle suffix) with cursor, keyAllowed := false }

def block (s : Scan) (isLiteral : Bool) : Work Scan := do
  let s ← s.dropPlace
  let (text, cursor) ← readBlock s.fuel isLiteral s.indents.head? s.cursor
  return { s.push (.scalar .marked (String.ofList text)) with cursor, keyAllowed := true }

def quoted (s : Scan) (quote : Char) : Work Scan := do
  let s ← s.savePlace
  let (text, cursor) ← readQuoted quote s.cursor.line s.fuel s.cursor.next []
  return { s.push (.scalar .marked (String.ofList text)) with cursor, keyAllowed := false }

/-- A plain scalar: the state behind it, and whether a line break came last. -/
def plain (s : Scan) : Work (Scan × Bool) := do
  let s ← s.savePlace
  let least := match s.indents with
    | [] => 0
    | i :: _ => i + 1
  let r ← readPlain (0 < s.depth) s.cursor.line least s.fuel s.cursor [] {}
  return ({ s.push (.scalar .plain (String.ofList r.text)) with cursor := r.cursor, keyAllowed := r.isBroken },
    r.isBroken)

/-- Characters that no plain scalar starts with. -/
def isIndicator (c : Char) : Bool := "-?:,[]\x7b\x7d#&*!|>'\"%@".toList.contains c || c.toNat = 0x60

def startsPlain (s : Scan) (c : Char) (rest : List Char) : Bool :=
  !(isIndicator c || isSpace c || isBreak c) || (c = '-' && !(rest.head?.any isSpace)) ||
    (s.depth = 0 && (c = '?' || c = ':') && !stopsAt rest)

/-- The token at the cursor, which is neither the end nor a mark between documents. Comments
behind it belong to it, unless it is the mark of an item or ends with a break. -/
def token (s : Scan) (c : Char) (rest : List Char) : Work Scan := do
  let isFree := 0 < s.depth || stopsAt rest
  if c = '[' then (← s.flowStart .flowSequence).skipLineComment
  else if c = '\x7b' then (← s.flowStart .flowMapping).skipLineComment
  else if c = ']' then (← s.flowEnd .flowSequenceEnd).skipLineComment
  else if c = '\x7d' then (← s.flowEnd .flowMappingEnd).skipLineComment
  else if c = ',' then (← s.comma).skipLineComment
  else if c = '-' && stopsAt rest then s.item
  else if c = '?' && isFree then (← s.explicitKey).skipLineComment
  else if c = ':' && isFree then (← s.value).skipLineComment
  else if c = '*' then (← s.named .reference).skipLineComment
  else if c = '&' then (← s.named .anchor).skipLineComment
  else if c = '!' then (← s.tag).skipLineComment
  else if (c = '|' || c = '>') && s.depth = 0 then s.block (c = '|')
  else if c = '\'' || c = '"' then (← s.quoted c).skipLineComment
  else if s.startsPlain c rest then
    let (s, isBroken) ← s.plain
    if isBroken then return s else s.skipLineComment
  else s.cursor.refuse "found character that cannot start any token"

/-- Read the next token, with the tokens that indentation makes before it. -/
def fetch (s : Scan) : Work Scan := do
  let line := s.cursor.line
  let s ← s.toNextToken s.fuel
  let s := s.closeBlocks (some s.cursor.column) line
  s.cursor.require 4
  match s.cursor.rest with
  | [] => s.streamEnd
  | c :: rest =>
    if s.cursor.column = 0 && c = '%' then s.directive
    else if s.cursor.atDocumentMark then s.documentMark
    else s.token c rest

/-- The next token may turn out to be a key. -/
def isHeldBack (s : Scan) : Work Bool :=
  match s.keyDepths.lookup s.taken with
  | none => .ok false
  | some d =>
    match s.places[s.depth - d]? with
    | some p => s.isUsable p
    | none => .ok false

/-- Read tokens until the next one can be taken. -/
def fill : Nat → Scan → Work Scan
  | 0, s => .ok s
  | fuel + 1, s => do
    if 2 < s.queue.length && !(← s.isHeldBack) then return s
    fill fuel (← s.fetch)

/-- The next token, and the state that has it in its queue. -/
def peek (s : Scan) : Work (Token × Scan) := do
  let s ← s.fill (s.fuel + 4)
  return (s.queue.headD ⟨.streamEnd, s.cursor.line⟩, s)

/-- The state behind the next token. -/
def skip (s : Scan) : Scan := { s with queue := s.queue.drop 1, taken := s.taken + 1 }

def ofText (text : String) : Scan :=
  let source := Source.ofText text
  { cursor := source.start, fuel := text.length + 2, marked := source.marked, queue := [⟨.streamStart, 0⟩] }

end Scan

end RiscvJit.Yaml
