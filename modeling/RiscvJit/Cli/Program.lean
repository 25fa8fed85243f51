import RiscvJit.Cli.Commands
import RiscvJit.Config

/-
  RiscvJit.Cli.Program — the command line program.

  A run reads its command line, loads the configuration, prepares a code cache with the
  runtime blobs and then does what the command asks for. It ends with everything printed, the
  log lines that the configured level shows, and an exit code; a failure is the last line
  on the error stream.
-/

namespace RiscvJit.Cli

/-- What a run leaves behind. -/
structure Outcome where
  exitCode : Nat
  stdout : String
  stderr : String
  deriving DecidableEq, Repr

/-- What a run can see of the world. -/
structure World where
  env : String → Option String
  files : Files
  colored : Bool

def failed (colored : Bool) (stdout log : String) (f : Failure) : Outcome :=
  ⟨1, stdout, log ++ Paint.error.apply colored ("error: " ++ f.message ++ "\n")⟩

/-- The addresses where the code cache and the runtime entries start unless flags say so. -/
def defaultBase : UInt64 := 0x100000
def defaultRuntimeBase : UInt64 := 0x700000

/-- The listing syntax that was asked for. -/
def dialectOf (flags : FlagReading) : Except Failure Dialect :=
  match flags.text "syntax" "gnu" with
  | "gnu" => .ok .gnu
  | "go" => .ok .plan9
  | other => .error (.refused ("invalid syntax " ++ Text.quote other ++ ", expected gnu or go"))

def configOf (w : World) (flags : FlagReading) : Except Failure Config :=
  let path := flags.text "config" ""
  match Config.load (if path = "" then none else some ((w.files path).mapError (·.message path))) w.env with
  | (_, some e) => .error e
  | (c, none) => .ok c

def stubsOf (c : Config) (flags : FlagReading) : Except Stop Stubs := do
  let base := flags.number "base" defaultBase
  let size := c.codeCacheSize.value
  let runtime := RuntimeEntries.synthetic (flags.number "runtime-base" defaultRuntimeBase)
  let target ← Stop.ofFailure (Target.make c.options (some runtime))
  let memory ← Memory.reserve base size
  let cache ← Stop.ofFailure (CodeCache.create base size (some (.memory memory)))
  return { target, cache }

def readyEntry (c : Command) (base : UInt64) : LogEntry :=
  ⟨.debug, "code cache ready", [("command", c.name), ("base", Text.hex base.toNat)]⟩

/-- Prepare the runtime blobs and do what the command asks for. -/
def work (w : World) (c : Command) (flags : FlagReading) : Session.Work Unit := do
  Session.onStubs Stubs.generateShared
  Session.onStubs (Stubs.tell [readyEntry c (← get).stubs.cache.base])
  c.run w.files flags

def logText (level : LogLevel) (entries : List LogEntry) : String :=
  String.join ((entries.filter (·.shownAt level)).map fun e => e.line ++ "\n")

def runCommand (w : World) (c : Command) (flags : FlagReading) : Except Fault Outcome :=
  let colored := w.colored && !flags.truth "no-color"
  match c.checkArgs flags.args, dialectOf flags with
  | .error f, _ => .ok (failed colored "" "" f)
  | .ok _, .error f => .ok (failed colored "" "" f)
  | .ok _, .ok dialect =>
    let colored := colored && (w.env "NO_COLOR").isNone
    match configOf w flags with
    | .error f => .ok (failed colored "" "" f)
    | .ok config =>
      match stubsOf config flags with
      | .error (.fault f) => .error f
      | .error (.failure f) => .ok (failed colored "" "" f)
      | .ok stubs =>
        let (r, s) := (work w c flags).run { colored, dialect, stubs }
        let log := logText config.level s.stubs.log
        match r with
        | .ok _ => .ok ⟨0, s.printed, log⟩
        | .error (.failure f) => .ok (failed colored s.printed log f)
        | .error (.fault f) => .error f

def run (w : World) (args : List String) : Except Fault Outcome :=
  match Invocation.parse args with
  | .unknown f => .ok (failed w.colored "" "" f)
  | .explain flags =>
    match flags.failure with
    | some f => .ok (failed (w.colored && !flags.truth "no-color") "" "" f)
    | none => .ok ⟨0, "", ""⟩
  | .command c flags =>
    match flags.failure with
    | some f => .ok (failed (w.colored && !flags.truth "no-color") "" "" f)
    | none => runCommand w c flags

/-- The files that a run may read. -/
def paths (args : List String) : List String :=
  match Invocation.parse args with
  | .command c flags =>
    [flags.text "config" "", flags.text "file" ""] ++ (if c = .lir then flags.args else [])
  | _ => []

end RiscvJit.Cli
