import RiscvJit.Yaml.Cursor

/-
  RiscvJit.Yaml.Property — anchors, tags and directives.

  A node may have a name, its anchor, and a tag. A tag is written with a handle such as `!!`,
  which stands for the start of the tag, and a suffix; directives at the head of a document
  say what the handles stand for.
-/

namespace RiscvJit.Yaml

/-- Characters that may come right behind the name of an anchor. -/
def endsAnchor (text : List Char) : Bool :=
  stopsAt text || text.head?.any fun c => "?:,]\x7d%@".toList.contains c || c.toNat = 0x60

def readAnchor (c : Cursor) : Work (String × Cursor) := do
  let name := c.next.rest.takeWhile isName
  let after := c.next.skip name.length
  after.require 1
  if name.isEmpty || !endsAnchor after.rest then
    after.fail c.line "did not find expected alphabetic or numeric character"
  return (String.ofList name, after)

/-! ## Tags -/

def isTagSign (c : Char) : Bool := ";/?:@&=+$,.!~*'()[]%".toList.contains c

/-- The number of bytes of a character that starts with a byte; zero when none does. -/
def widthOf (octet : Nat) : Nat :=
  if octet < 0x80 then 1
  else if 0xc0 ≤ octet && octet < 0xe0 then 2
  else if 0xe0 ≤ octet && octet < 0xf0 then 3
  else if 0xf0 ≤ octet && octet < 0xf8 then 4
  else 0

/-- Read one byte written as a percent sign and two hexadecimal digits. -/
def readOctet (startLine : Nat) (c : Cursor) : Work (Nat × Cursor) := do
  c.require 3
  match c.rest with
  | '%' :: a :: b :: _ =>
    match hexValue? [a, b] with
    | some n => return (n, c.skip 3)
    | none => c.fail startLine "did not find URI escaped octet"
  | _ => c.fail startLine "did not find URI escaped octet"

/-- Read the bytes of a character behind its first one. -/
def readTrailing (startLine : Nat) : Nat → Cursor → List UInt8 → Work (List UInt8 × Cursor)
  | 0, c, bytes => .ok (bytes, c)
  | n + 1, c, bytes => do
    let (octet, after) ← readOctet startLine c
    if octet / 0x40 ≠ 2 then c.fail startLine "found an incorrect trailing UTF-8 octet"
    readTrailing startLine n after (bytes ++ [UInt8.ofNat octet])

def readEscapedBytes (startLine : Nat) (c : Cursor) : Work (List UInt8 × Cursor) := do
  let (octet, after) ← readOctet startLine c
  if widthOf octet = 0 then c.fail startLine "found an incorrect leading UTF-8 octet"
  readTrailing startLine (widthOf octet - 1) after [UInt8.ofNat octet]

def readTagBytes (startLine : Nat) : Nat → Cursor → List UInt8 → Work (List UInt8 × Cursor)
  | 0, c, bytes => .ok (bytes, c)
  | fuel + 1, c, bytes => do
    c.require 1
    match c.rest with
    | [] => return (bytes, c)
    | ch :: _ =>
      if ch = '%' then
        let (more, c) ← readEscapedBytes startLine c
        readTagBytes startLine fuel c (bytes ++ more)
      else if isName ch || isTagSign ch then
        readTagBytes startLine fuel c.next (bytes ++ [UInt8.ofNat ch.toNat])
      else return (bytes, c)

def textOfBytes (bytes : List UInt8) : String :=
  (String.fromUTF8? (ByteArray.mk bytes.toArray)).getD ""

/-- Read a tag, or what is left of one behind `head`. -/
def readTagText (fuel startLine : Nat) (head : String) (c : Cursor) : Work (String × Cursor) := do
  let (bytes, after) ← readTagBytes startLine fuel c []
  if head = "" && after.index = c.index then c.fail startLine "did not find expected tag URI"
  return (String.ofList (head.toList.drop 1) ++ textOfBytes bytes, after)

/-- Read a handle: an exclamation mark, and perhaps a name and another mark. In a directive
a name needs the other mark. -/
def readHandle (startLine : Nat) (isDirective : Bool) (c : Cursor) : Work (String × Cursor) := do
  if !c.isAt '!' then c.fail startLine "did not find expected '!'"
  let name := c.next.rest.takeWhile isName
  let after := c.next.skip name.length
  after.require 1
  if after.isAt '!' then return (String.ofList ('!' :: name ++ ['!']), after.next)
  if isDirective && !name.isEmpty then after.fail startLine "did not find expected '!'"
  return (String.ofList ('!' :: name), after)

/-- Read a tag as its handle and suffix; without a handle the suffix is the whole tag. -/
def readTag (fuel : Nat) (c : Cursor) : Work (String × String × Cursor) := do
  c.require 2
  let startLine := c.line
  let (handle, suffix, after) ←
    if c.next.isAt '<' then do
      let (suffix, after) ← readTagText fuel startLine "" (c.skip 2)
      if !after.isAt '>' then after.fail startLine "did not find the expected '>'"
      pure ("", suffix, after.next)
    else do
      let (handle, after) ← readHandle startLine false c
      if 1 < handle.length && handle.toList.getLast? = some '!' then
        let (suffix, after) ← readTagText fuel startLine "" after
        pure (handle, suffix, after)
      else
        let (suffix, after) ← readTagText fuel startLine handle after
        pure (if suffix = "" then ("", handle, after) else ("!", suffix, after))
  after.require 1
  if !stopsAt after.rest then after.fail startLine "did not find expected whitespace or line break"
  return (handle, suffix, after)

/-! ## Directives -/

/-- A directive at the head of a document. -/
inductive Directive where
  | version (major minor : Nat)
  | tag (handle start : String)
  deriving DecidableEq, Repr

/-- Read a number of a version, which has at most two digits. -/
def readVersionNumber (startLine : Nat) (c : Cursor) : Work (Nat × Cursor) := do
  let digits := c.rest.takeWhile Char.isDigit
  let after := c.skip digits.length
  after.require 1
  if 2 < digits.length then after.fail startLine "found extremely long version number"
  if digits.isEmpty then after.fail startLine "did not find expected version number"
  return (digits.foldl (fun n d => n * 10 + (d.toNat - 48)) 0, after)

def readVersion (startLine : Nat) (c : Cursor) : Work (Directive × Cursor) := do
  let (major, c) ← readVersionNumber startLine c.skipSpaces
  if !c.isAt '.' then c.fail startLine "did not find expected digit or '.' character"
  let (minor, c) ← readVersionNumber startLine c.next
  return (.version major minor, c)

def readTagDirective (fuel startLine : Nat) (c : Cursor) : Work (Directive × Cursor) := do
  let (handle, c) ← readHandle startLine true c.skipSpaces
  c.require 1
  if !c.rest.head?.any isSpace then c.fail startLine "did not find expected whitespace"
  let (start, c) ← readTagText fuel startLine "" c.skipSpaces
  if !stopsAt c.rest then c.fail startLine "did not find expected whitespace or line break"
  return (.tag handle start, c)

/-- Read a directive with its line; the cursor stands at the percent sign. -/
def readDirective (fuel : Nat) (c : Cursor) : Work (Directive × Cursor) := do
  let startLine := c.line
  let name := String.ofList (c.next.rest.takeWhile isName)
  let c := c.next.skip name.length
  c.require 1
  if name = "" then c.fail startLine "could not find expected directive name"
  if !stopsAt c.rest then c.fail startLine "found unexpected non-alphabetical character"
  let (directive, c) ←
    if name = "YAML" then readVersion startLine c
    else if name = "TAG" then readTagDirective fuel startLine c
    else c.fail startLine "found unknown directive name"
  let c := c.skipSpaces
  let c := if c.isAt '#' then c.skipLine else c
  c.require 1
  if !endsLine c.rest then c.fail startLine "did not find expected comment or line break"
  return (directive, if c.rest.isEmpty then c else c.nextLine)

end RiscvJit.Yaml
