import RiscvJit.Fault
import RiscvJit.Text.Quoted

/-
  RiscvJit.Cli.Flags — flags on a command line.

  Flags and other arguments mix freely. A flag is written `--name value`, `--name=value` or,
  if it has a letter, `-n value`, `-nvalue` or `-n=value`; letters of flags that take no value
  may be run together. A truth flag takes a value only after `=`. Two dashes end the flags.
  Letters that start with `test.` are left to others.
  Reading stops at the first flag that is wrong, and what was assigned before is kept.
-/

namespace RiscvJit

inductive FlagKind where
  | truth
  | text
  | number
  deriving DecidableEq, Repr

structure FlagSpec where
  name : String
  kind : FlagKind
  letter : Option Char := none
  deriving DecidableEq, Repr

inductive FlagValue where
  | truth (b : Bool)
  | text (s : String)
  | number (n : UInt64)
  deriving DecidableEq, Repr

/-- What a command line was read as. -/
structure FlagReading where
  /-- Flags and their values in the order they were given. -/
  assigned : List (String × FlagValue) := []
  /-- The other arguments. -/
  args : List String := []
  /-- The flag that was wrong. -/
  failure : Option Failure := none
  deriving Repr

namespace FlagSpec

def title (f : FlagSpec) : String :=
  match f.letter with
  | some c => "-" ++ String.ofList [c] ++ ", --" ++ f.name
  | none => "--" ++ f.name

def truth? (s : String) : Option Bool :=
  if ["1", "t", "T", "TRUE", "true", "True"].contains s then some true
  else if ["0", "f", "F", "FALSE", "false", "False"].contains s then some false
  else none

def refuse (f : FlagSpec) (value function reason : String) : Failure :=
  .refused ("invalid argument " ++ Text.quote value ++ " for " ++ Text.quote f.title ++ " flag: strconv." ++
    function ++ ": parsing " ++ Text.quote value ++ ": " ++ reason)

def parse (f : FlagSpec) (value : String) : Except Failure FlagValue :=
  match f.kind with
  | .text => .ok (.text value)
  | .truth =>
    match truth? value with
    | some b => .ok (.truth b)
    | none => .error (f.refuse value "ParseBool" "invalid syntax")
  | .number =>
    match Text.natural? none 64 value.toList with
    | .ok n => .ok (.number (UInt64.ofNat n))
    | .error e => .error (f.refuse value "ParseUint" e.reason)

def wantsNext (f : FlagSpec) : Bool := f.kind ≠ .truth

end FlagSpec

namespace FlagReading

/-- Record a flag, or why it is wrong. A truth flag with a wrong value counts as switched off. -/
def assign (r : FlagReading) (f : FlagSpec) (value : String) : FlagReading :=
  match f.parse value with
  | .ok v => { r with assigned := r.assigned ++ [(f.name, v)] }
  | .error e =>
    { r with
      assigned := if f.kind = .truth then r.assigned ++ [(f.name, .truth false)] else r.assigned
      failure := some e }

def fail (r : FlagReading) (what : String) : FlagReading := { r with failure := some (.refused what) }

def value? (r : FlagReading) (name : String) : Option FlagValue := (r.assigned.reverse).lookup name

def truth (r : FlagReading) (name : String) : Bool := r.value? name = some (.truth true)

def text (r : FlagReading) (name : String) (default : String) : String :=
  match r.value? name with
  | some (.text s) => s
  | _ => default

def number (r : FlagReading) (name : String) (default : UInt64) : UInt64 :=
  match r.value? name with
  | some (.number n) => n
  | _ => default

end FlagReading

def firstByte (c : Char) : UInt8 := (String.ofList [c]).toUTF8.data.toList.headD 0

def splitEquals (text : List Char) : String × Option String :=
  let name := String.ofList (text.takeWhile (· ≠ '='))
  match text.dropWhile (· ≠ '=') with
  | _ :: v => (name, some (String.ofList v))
  | [] => (name, none)

/-- A long flag: the reading, and how many of the following arguments it took. -/
def readLong (specs : List FlagSpec) (r : FlagReading) (word : String) (body : List Char)
    (next : Option String) : FlagReading × Nat :=
  if body.head? = some '-' || body.head? = some '=' then (r.fail ("bad flag syntax: " ++ word), 0)
  else
    let (name, given) := splitEquals body
    match specs.find? (·.name == name) with
    | none => (r.fail ("unknown flag: --" ++ name), 0)
    | some f =>
      match given, f.wantsNext, next with
      | some v, _, _ => (r.assign f v, 0)
      | none, false, _ => (r.assign f "true", 0)
      | none, true, some v => (r.assign f v, 1)
      | none, true, none => (r.fail ("flag needs an argument: " ++ word), 0)

/-- A run of letters: the reading, and how many of the following arguments it took. -/
def readLetters (specs : List FlagSpec) (next : Option String) : FlagReading → List Char → FlagReading × Nat
  | r, [] => (r, 0)
  | r, c :: rest =>
    let shown := String.ofList (c :: rest)
    if "test.".toList.isPrefixOf (c :: rest) then (r, 0)
    else match specs.find? (·.letter == some c) with
    | none => (r.fail ("unknown shorthand flag: " ++ Text.quoteByte (firstByte c) ++ " in -" ++ shown), 0)
    | some f =>
      match rest with
      | '=' :: v :: more => (r.assign f (String.ofList (v :: more)), 0)
      | _ =>
        if !f.wantsNext then
          let r := r.assign f "true"
          if r.failure.isSome then (r, 0) else readLetters specs next r rest
        else if !rest.isEmpty then (r.assign f (String.ofList rest), 0)
        else match next with
          | some v => (r.assign f v, 1)
          | none => (r.fail ("flag needs an argument: " ++ Text.quoteByte (firstByte c) ++ " in -" ++ shown), 0)

/-- Read a command line; every argument gives one step of fuel. -/
def readFlagsFrom (specs : List FlagSpec) : Nat → FlagReading → List String → FlagReading
  | 0, r, _ => r
  | _, r, [] => r
  | fuel + 1, r, word :: rest =>
    let go (out : FlagReading × Nat) : FlagReading :=
      if out.1.failure.isSome then out.1 else readFlagsFrom specs fuel out.1 (rest.drop out.2)
    match word.toList with
    | ['-', '-'] => { r with args := r.args ++ rest }
    | '-' :: '-' :: body => go (readLong specs r word body rest.head?)
    | '-' :: c :: letters => go (readLetters specs rest.head? r (c :: letters))
    | _ => readFlagsFrom specs fuel { r with args := r.args ++ [word] } rest

def readFlags (specs : List FlagSpec) (args : List String) : FlagReading :=
  readFlagsFrom specs args.length {} args

/-! ## Words that are no flags -/

/-- The word is a flag that takes its value from the next argument. A flag that is not known
counts as one. -/
def takesNext (specs : List FlagSpec) (word : List Char) : Bool :=
  !word.contains '=' && match word with
    | '-' :: '-' :: name => !(specs.any fun f => f.name.toList = name && !f.wantsNext)
    | ['-', c] => c.toNat < 128 && !(specs.any fun f => f.letter = some c && !f.wantsNext)
    | _ => false

/-- The arguments that are neither flags nor their values. -/
def plainWords (specs : List FlagSpec) : List String → List String
  | [] => []
  | word :: rest =>
    if word = "--" then []
    else if takesNext specs word.toList then
      match rest with
      | [] => []
      | _ :: more => plainWords specs more
    else if word ≠ "" && word.toList.head? ≠ some '-' then word :: plainWords specs rest
    else plainWords specs rest

end RiscvJit
