import RiscvJit.Text.Quoted

/-
  RiscvJit.Log — what is told about the work besides its results.

  An entry has a level, a message and fields. It is written as one line of `key=value`
  pairs: the level, the message, then the fields by key. A value is quoted unless it is made
  only of letters, digits and a few marks. A reader chooses the least severe level that is
  shown.
-/

namespace RiscvJit

/-- How severe an entry is, the most severe first. -/
inductive LogLevel where
  | panic
  | fatal
  | error
  | warning
  | info
  | debug
  | trace
  deriving DecidableEq, Repr, Inhabited

namespace LogLevel

def all : List LogLevel := [panic, fatal, error, warning, info, debug, trace]

def name : LogLevel → String
  | panic => "panic"
  | fatal => "fatal"
  | error => "error"
  | warning => "warning"
  | info => "info"
  | debug => "debug"
  | trace => "trace"

/-- How far down the list a level stands. -/
def rank : LogLevel → Nat
  | panic => 0
  | fatal => 1
  | error => 2
  | warning => 3
  | info => 4
  | debug => 5
  | trace => 6

/-- Lower case as far as the names of levels need it: of the characters outside ASCII only
the dotted capital I has a lower case within ASCII that occurs in a level. -/
def lowered (c : Char) : Char := if c.toNat = 0x130 then 'i' else Text.lower c

/-- The level of a name in any case; `warn` stands for `warning`. -/
def ofName? (s : String) : Option LogLevel :=
  let s := String.ofList (s.toList.map lowered)
  if s = "warn" then some warning else all.find? (·.name == s)

end LogLevel

/-- Something told. -/
structure LogEntry where
  level : LogLevel
  message : String
  fields : List (String × String) := []
  deriving DecidableEq, Repr, Inhabited

namespace LogEntry

def isPlain (c : Char) : Bool :=
  c.isAlphanum || c = '-' || c = '.' || c = '_' || c = '/' || c = '@' || c = '^' || c = '+'

def value (s : String) : String := if s.toList.all isPlain then s else Text.quote s

def pair (key v : String) : String := key ++ "=" ++ value v

def line (e : LogEntry) : String :=
  let fields := e.fields.mergeSort fun a b => !decide (b.1 < a.1)
  Text.join " " (pair "level" e.level.name :: pair "msg" e.message :: fields.map fun (k, v) => pair k v)

def shownAt (e : LogEntry) (level : LogLevel) : Bool := e.level.rank ≤ level.rank

end LogEntry

end RiscvJit
