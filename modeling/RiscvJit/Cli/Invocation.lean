import RiscvJit.Cli.Flags

/-
  RiscvJit.Cli.Invocation — what a command line asks for.

  The first word that is no flag names the command. The flags that all commands share may
  stand before it as well as after it. A word that names no command is refused, with the
  commands that look like it.
-/

namespace RiscvJit

inductive Command where
  | adapters
  | wrapper
  | deopt
  | conventions
  | lir
  deriving DecidableEq, Repr

namespace Command

def all : List Command := [adapters, wrapper, deopt, conventions, lir]

def name : Command → String
  | adapters => "adapters"
  | wrapper => "wrapper"
  | deopt => "deopt"
  | conventions => "conventions"
  | lir => "lir"

def shared : List FlagSpec :=
  [⟨"config", .text, some 'c'⟩, ⟨"syntax", .text, none⟩, ⟨"no-color", .truth, none⟩,
   ⟨"base", .number, none⟩, ⟨"runtime-base", .number, none⟩]

def help : FlagSpec := ⟨"help", .truth, some 'h'⟩

def own : Command → List FlagSpec
  | adapters => [⟨"file", .text, some 'f'⟩, ⟨"static", .truth, none⟩]
  | wrapper =>
    [⟨"file", .text, some 'f'⟩, ⟨"static", .truth, none⟩, ⟨"synchronized", .truth, none⟩,
     ⟨"entry", .number, none⟩, ⟨"mirror", .number, none⟩]
  | deopt => [⟨"all", .truth, some 'a'⟩]
  | conventions =>
    [⟨"file", .text, some 'f'⟩, ⟨"static", .truth, none⟩, ⟨"native", .truth, none⟩,
     ⟨"incoming", .truth, none⟩]
  | lir => [⟨"print-lir", .truth, none⟩]

def flags (c : Command) : List FlagSpec := c.own ++ shared ++ [help]

def checkArgs (c : Command) (args : List String) : Except Failure Unit :=
  match c with
  | deopt =>
    match args with
    | [] => .ok ()
    | a :: _ => .error (.refused ("unknown command " ++ Text.quote a ++ " for \"c1gen deopt\""))
  | lir =>
    if args.isEmpty then .error (.refused "requires at least 1 arg(s), only received 0") else .ok ()
  | wrapper =>
    if args.length = 0 || args.length = 2 then .ok ()
    else .error (.refused ("expected a name and a descriptor, got " ++ Text.ofNat args.length ++ " arguments"))
  | _ => .ok ()

end Command

/-! ## Commands that look alike -/

/-- One row of the distances between the start of a word and the starts of another. -/
def distanceRow (c : UInt8) : Nat → List Nat → List UInt8 → List Nat
  | left, diagonal :: above :: row, d :: rest =>
    let n := if c = d then diagonal else min (min above left) diagonal + 1
    n :: distanceRow c n (above :: row) rest
  | _, _, _ => []

/-- The number of edits of single bytes between two words. -/
def editDistance (a b : List UInt8) : Nat :=
  let first := List.range (b.length + 1)
  let last := a.foldl (fun (row, i) c => ((i + 1) :: distanceRow c (i + 1) row b, i + 1)) (first, 0)
  last.1.getLastD 0

def loweredBytes (word : String) : List UInt8 :=
  (String.ofList (word.toList.map Text.lower)).toUTF8.data.toList

def looksLike (word name : String) : Bool :=
  let w := loweredBytes word
  let n := loweredBytes name
  editDistance w n ≤ 2 || w.isPrefixOf n

def furtherWords : List String := ["completion"]

def unknownCommand (word : String) : Failure :=
  let like := (Command.all.map Command.name ++ furtherWords).filter (looksLike word)
  let hint := if like.isEmpty then "" else
    "\n\nDid you mean this?\n" ++ String.join (like.map fun n => "\t" ++ n ++ "\n")
  .refused ("unknown command " ++ Text.quote word ++ " for \"c1gen\"" ++ hint)

/-! ## Reading a command line -/

/-- What a command line asks for. -/
inductive Invocation where
  | command (c : Command) (flags : FlagReading)
  /-- No command was named, or an explanation was asked for. -/
  | explain (flags : FlagReading)
  | unknown (failure : Failure)

def explainWords : List String := ["help", "completion"]

def Invocation.parse (args : List String) : Invocation :=
  match plainWords Command.shared args with
  | [] => .explain (readFlags (Command.shared ++ [Command.help]) args)
  | word :: _ =>
    match Command.all.find? (·.name == word) with
    | some c =>
      let flags := readFlags c.flags (args.erase word)
      if flags.failure.isNone && flags.truth "help" then .explain flags else .command c flags
    | none =>
      if explainWords.contains word then .explain (readFlags (Command.shared ++ [Command.help]) (args.erase word))
      else .unknown (unknownCommand word)

end RiscvJit
