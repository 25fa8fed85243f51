import RiscvJit.Cache.Stubs

/-
  RiscvJit.Cli.Files — the files that a run may read, and what a command prints.

  A run works in a directory of files, some of them perhaps in directories below it. A path
  is followed step by step from there: `.` and doubled slashes stay, `..` goes back, and a
  name goes to a file or a directory of that name. Outside of the directory nothing is known
  but that the directories around it exist.
-/

namespace RiscvJit

abbrev Path := List String

/-- Why a path gives no text. -/
inductive FileProblem where
  | missing
  /-- A step of the path goes on from a file. -/
  | notDirectory
  /-- The path can be opened but not read. -/
  | directory
  | nameTooLong
  | invalidName
  | other (text : String)
  deriving DecidableEq, Repr

def FileProblem.message (path : String) : FileProblem → String
  | missing => "open " ++ path ++ ": no such file or directory"
  | notDirectory => "open " ++ path ++ ": not a directory"
  | directory => "read " ++ path ++ ": is a directory"
  | nameTooLong => "open " ++ path ++ ": file name too long"
  | invalidName => "open " ++ path ++ ": invalid argument"
  | other text => text

/-- The content of the file at a path, or why there is none. -/
abbrev Files := String → Except FileProblem String

namespace Files

/-- Where following a path has come to. -/
inductive Spot where
  /-- A directory at or below the one of the run. -/
  | below (path : Path)
  | around
  | file (content : String)
  deriving DecidableEq, Repr

def steps (name : String) : Path := (name.splitOn "/").filter fun s => s ≠ "" && s ≠ "."

/-- The longest name of a file, and the length that a path stays below, in bytes. -/
def nameLimit : Nat := 255
def pathLimit : Nat := 4096

def descend (files : List (Path × String)) (dir : Path) (name : String) : Except FileProblem Spot :=
  let path := dir ++ [name]
  match files.lookup path with
  | some content => .ok (.file content)
  | none =>
    if files.any fun f => path.isPrefixOf f.1 then .ok (.below path)
    else if nameLimit < name.utf8ByteSize then .error .nameTooLong
    else .error .missing

def step (files : List (Path × String)) (spot : Spot) (name : String) : Except FileProblem Spot :=
  match spot with
  | .file _ => .error .notDirectory
  | .around => if name = "" || name = "." || name = ".." then .ok .around else .error .missing
  | .below dir =>
    if name = "" || name = "." then .ok spot
    else if name = ".." then .ok (if dir.isEmpty then .around else .below dir.dropLast)
    else descend files dir name

def ofList (files : List (String × String)) : Files := fun path =>
  let files := files.map fun f => (steps f.1, f.2)
  if path = "" then .error .missing
  else if path.toList.contains (Char.ofNat 0) then .error .invalidName
  else if pathLimit ≤ path.utf8ByteSize then .error .nameTooLong
  else
    let start : Spot := if path.toList.head? = some '/' then .around else .below []
    match (path.splitOn "/").foldlM (step files) start with
    | .error e => .error e
    | .ok (.file content) => .ok content
    | .ok _ => .error .directory

end Files

/-! ## Output

Headers, entry points and comments are painted when colors are wanted. A painted header
or entry includes the end of its line; a painted comment does not. -/

/-- Colors of the output. -/
inductive Paint where
  | header
  | entry
  | comment
  | error
  deriving DecidableEq, Repr

namespace Paint

def code : Paint → String
  | header => "36;1"
  | entry => "33"
  | comment => "32"
  | error => "31"

def apply (p : Paint) (colored : Bool) (text : String) : String :=
  if colored then "\x1b[" ++ p.code ++ "m" ++ text ++ "\x1b[0m" else text

end Paint

/-- The work of one command: the stubs, and what was printed so far. -/
structure Session where
  colored : Bool
  dialect : Dialect
  stubs : Stubs
  printed : String := ""

namespace Session

/-- Work of a command; what was printed before it failed is kept. -/
abbrev Work := ExceptT Stop (StateM Session)

def print (text : String) : Work Unit := modify fun s => { s with printed := s.printed ++ text }

def header (text : String) : Work Unit := do print (Paint.header.apply (← get).colored (text ++ "\n"))

def onStubs {α : Type} (w : Stubs.Work α) : Work α := do
  let s ← get
  let (r, stubs) := w.run s.stubs
  set { s with stubs }
  ExceptT.mk (pure r)

def answer {α : Type} (x : Except Stop α) : Work α := ExceptT.mk (pure x)

def refuse {α : Type} (text : String) : Work α := throw (.failure (.refused text))

def inside {α : Type} (context : String) (w : Work α) : Work α :=
  tryCatch w fun e =>
    match e with
    | .failure f => throw (.failure (.within context f))
    | e => throw e

def listingLine (colored : Bool) (line : String) : String :=
  (if ";;".toList.isPrefixOf line.toList then Paint.comment.apply colored line else line) ++ "\n"

def listingLines (text : String) : List String :=
  let lines := text.splitOn "\n"
  if 1 < lines.length && lines.getLast? = some "" then lines.dropLast else lines

/-- Print a blob: what it is called, where it is entered, and its code. -/
def printBlob (b : CodeBlob) : Work Unit := do
  let s ← get
  header (b.name ++ " at " ++ Text.hex b.base.toNat ++ ", " ++ Text.ofNat b.size ++ " bytes")
  unless b.frameSize = 0 do print ("  frame size " ++ Text.ofInt b.frameSize.toInt ++ "\n")
  unless b.oopMaps.maps.isEmpty do print ("  " ++ Text.ofNat b.oopMaps.maps.size ++ " oop maps\n")
  b.sortedEntries.forM fun (name, off) =>
    print (Paint.entry.apply s.colored ("  entry " ++ Text.padRight 20 name ++ " " ++
      Text.hex (b.base + off.toUInt64).toNat ++ "\n"))
  print (String.join ((listingLines (b.listing s.dialect)).map (listingLine s.colored)))

end Session

end RiscvJit
