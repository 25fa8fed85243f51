import RiscvJit.Cli.Program

/-
  RiscvJit.Main — the program on the command line.

  It gathers what a run may look at, the variables of the configuration and the files that
  the command line names, and then prints what the run leaves behind.
-/

namespace RiscvJit.Cli

def readFile (path : String) : IO (Except FileProblem String) := do
  try
    return .ok (← IO.FS.readFile path)
  catch e =>
    match e with
    | .noFileOrDirectory .. => return .error .missing
    | .inappropriateType .. => return .error .directory
    | e => return .error (.other (toString e))

def variableNames : List String := "NO_COLOR" :: Config.knobs.map (·.variableName)

/-- What a run with these arguments can see. -/
def gather (args : List String) : IO World := do
  let env ← variableNames.filterMapM fun n => do return (← IO.getEnv n).map fun v => (n, v)
  let files ← (paths args).mapM fun p => do return (p, ← readFile p)
  let term ← IO.getEnv "TERM"
  return {
    env := fun n => env.lookup n
    files := fun p => (files.lookup p).getD (.error .missing)
    colored := (← (← IO.getStdout).isTty) && term ≠ some "dumb" }

end RiscvJit.Cli

def main (args : List String) : IO UInt32 := do
  match RiscvJit.Cli.run (← RiscvJit.Cli.gather args) args with
  | .ok o => do
    IO.print o.stdout
    IO.eprint o.stderr
    return UInt32.ofNat o.exitCode
  | .error f => do
    IO.eprintln f.message
    return 2
