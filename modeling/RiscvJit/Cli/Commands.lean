import RiscvJit.Cli.Files
import RiscvJit.Cli.Invocation
import RiscvJit.Lir.ProgramFile

/-
  RiscvJit.Cli.Commands — what the commands do.

  Each command generates into a code cache of its own and prints the result: adapters of
  methods, wrappers of native methods, the runtime blobs, where calling conventions pass
  arguments, and methods given as low-level programs.

  A method has a descriptor and may have a name. Those of the command line come first and
  those of a file after them. A list with an empty place is a fault, like any access to
  something absent.
-/

namespace RiscvJit

/-! ## Methods -/

structure MethodSpec where
  name : String := ""
  descriptor : String := ""
  isStatic : Bool := false
  isSynchronized : Bool := false
  /-- The address of the native function of native methods. -/
  entry : UInt64 := 0
  classObject : UInt64 := 0
  deriving DecidableEq, Repr, Inhabited

namespace MethodSpec

def text (m : MethodSpec) : String := (if m.isStatic then "static " else "") ++ m.name ++ m.descriptor

def signature (m : MethodSpec) : Except Failure Signature := Descriptor.parse m.descriptor m.isStatic

def resolved (m : MethodSpec) : Except Failure (MethodSpec × Signature) := return (m, ← m.signature)

def shape : Yaml.Shape MethodSpec := .record "main.methodSpec" {} [
  .of "name" .text fun v m => { m with name := v },
  .of "descriptor" .text fun v m => { m with descriptor := v },
  .of "static" .truth fun v m => { m with isStatic := v },
  .of "synchronized" .truth fun v m => { m with isSynchronized := v },
  .of "entry" .natural fun v m => { m with entry := v },
  .of "mirror" .natural fun v m => { m with classObject := v }]

def fileShape : Yaml.Shape (List (Option MethodSpec)) := .record "main.methodsFile" [] [
  .of "methods" (.list "[]*main.methodSpec" shape.orNull) fun v _ => v]

/-- The methods of a file. A directory can be opened, and is only refused when it is read. -/
def ofFile (path : String) (content : Except FileProblem String) :
    Except Stop (List (MethodSpec × Signature)) :=
  match content with
  | .error .directory =>
    let e : Yaml.SyntaxError := ⟨0, "input error: " ++ FileProblem.directory.message path⟩
    .error (.failure (.within ("parsing " ++ path) (.refused e.message)))
  | .error e => .error (.failure (.within "reading methods" (.refused (e.message path))))
  | .ok text =>
    match Yaml.decode fileShape [] text with
    | .error e => .error (.failure (.within ("parsing " ++ path) (.refused e.message)))
    | .ok specs => specs.mapM fun m =>
      match m with
      | none => .error (.fault .trap)
      | some m => m.resolved.mapError fun e => .failure (.within path e)

end MethodSpec

/-! ## Commands -/

namespace Command

open Session (Work print header answer refuse inside onStubs printBlob)

/-- The methods of the arguments and of the file that `--file` names. -/
def methods (files : Files) (flags : FlagReading) (given : List MethodSpec) :
    Except Stop (List (MethodSpec × Signature)) := do
  let first ← Stop.ofFailure (given.mapM MethodSpec.resolved)
  let path := flags.text "file" ""
  let more ← if path = "" then pure [] else MethodSpec.ofFile path (files path)
  return first ++ more

/-- The methods whose descriptors are arguments, and those of the file. -/
def describedMethods (files : Files) (flags : FlagReading) : Except Stop (List (MethodSpec × Signature)) := do
  let isStatic := flags.truth "static"
  let ms ← methods files flags (flags.args.map fun d => { descriptor := d, isStatic })
  if ms.isEmpty then throw (.failure (.refused "no method descriptor given"))
  return ms

/-! ## Adapters -/

/-- Generate the adapters of all methods; the first failure counts, after all were tried. -/
def allAdapters : List (MethodSpec × Signature) → Work (Except Stop (List CodeBlob))
  | [] => return .ok []
  | (m, sig) :: rest => do
    let r ← tryCatch (Except.ok <$> inside m.text (onStubs (Stubs.adaptersFor sig))) fun e =>
      match e with
      | .failure f => return .error (Stop.failure f)
      | .fault f => throw (.fault f)
    let more ← allAdapters rest
    return do return (← r) :: (← more)

/-- Print adapters; those that were printed before are only named by the method they were
printed for. -/
def printAdapters : List ((MethodSpec × Signature) × CodeBlob) → List (String × MethodSpec) → Work Unit
  | [], _ => return
  | ((m, sig), blob) :: rest, seen => do
    let fingerprint ← answer (Stop.ofFault sig.fingerprint)
    header (m.text ++ ", fingerprint " ++ fingerprint)
    match seen.lookup fingerprint with
    | some first => do
      print ("  shares the adapters of " ++ first.text ++ "\n")
      printAdapters rest seen
    | none => do
      printBlob blob
      printAdapters rest ((fingerprint, m) :: seen)

def runAdapters (files : Files) (flags : FlagReading) : Work Unit := do
  let ms ← answer (describedMethods files flags)
  let blobs ← answer (← allAdapters ms)
  printAdapters (ms.zip blobs) []
  print (Text.ofNat ms.length ++ " methods, " ++ Text.ofNat (← get).stubs.adapters.length ++ " adapters\n")

/-! ## Wrappers -/

/-- The address of native functions that have none. -/
def defaultEntry : UInt64 := 0x602000

def runWrapperOf (m : MethodSpec) (sig : Signature) : Work Unit := do
  if m.name = "" then refuse ("native method " ++ m.text ++ " has no name")
  let entry := if m.entry = 0 then defaultEntry else m.entry
  unless m.isStatic || (sig.args.head?.any (·.isReference)) do
    refuse (m.text ++ ": instance method without receiver")
  let w ← inside m.text (onStubs (Stubs.wrapperFor
    { name := m.name, sig := some sig, isStatic := m.isStatic, isSynchronized := m.isSynchronized
      entry, classObject := m.classObject }))
  header (m.text ++ ", native signature " ++ (← answer (Stop.ofFault w.nativeSig.text)))
  print w.layout.text
  printBlob w.blob

def runWrapper (files : Files) (flags : FlagReading) : Work Unit := do
  let given : List MethodSpec := match flags.args with
    | [name, descriptor] =>
      [{ name, descriptor, isStatic := flags.truth "static", isSynchronized := flags.truth "synchronized"
         entry := flags.number "entry" defaultEntry, classObject := flags.number "mirror" 0 }]
    | _ => []
  let ms ← answer (methods files flags given)
  if ms.isEmpty then refuse "no native method given"
  ms.forM fun (m, sig) => runWrapperOf m sig

/-! ## Runtime blobs -/

/-- The runtime blobs in the order they are printed. -/
def blobNames : List String :=
  ["deopt_blob", "safepoint_handler_blob", "slow_subtype_check", "resolve_static_call", "resolve_virtual_call"]

def runDeopt (flags : FlagReading) : Work Unit := do
  let names := if flags.truth "all" then blobNames else blobNames.take 1
  names.forM fun name => do
    match (← get).stubs.shared.lookup name with
    | some blob => printBlob blob
    | none => refuse (name ++ " was not generated")

/-! ## Conventions -/

def argumentLine (c : Convention) (d : Direction) (i : Nat) (k : ValueKind) (l : Location) : String :=
  let start := "  " ++ Text.padLeft ' ' 2 (Text.ofNat i) ++ " " ++ Text.padRight 10 k.name ++ " "
  match l with
  | .stack slot =>
    let base := if d = .incoming then "fp" else "sp"
    start ++ Text.padRight 12 l.name ++ " " ++ base ++ Text.ofSigned (c.stackByteOffset slot d).toInt ++ "\n"
  | l => start ++ l.name ++ "\n"

def runConventions (files : Files) (flags : FlagReading) : Work Unit := do
  let ms ← answer (describedMethods files flags)
  let c := if flags.truth "native" then Convention.native else Convention.managed
  let d : Direction := if flags.truth "incoming" then .incoming else .outgoing
  ms.forM fun (m, sig) => do
    header (m.text ++ ", " ++ c.name ++ " convention, " ++ d.name)
    let (locs, slots) ← answer (Stop.ofFault (c.locate sig.expanded))
    print (String.join ((sig.expanded.zip locs).mapIdx fun i (k, l) => argumentLine c d i k l))
    print ("  result " ++ (c.resultLocation sig.ret).name ++ ", " ++ Text.ofNat slots ++ " stack slots\n")

/-! ## Programs -/

/-- Compile and print the program of one file. -/
def runLirOf (files : Files) (showText : Bool) (path : String) : Work Unit := do
  let text ← match files path with
    | .ok text => pure text
    | .error e => throw (.failure (.within "reading program" (.refused (e.message path))))
  let p ← answer (Stop.ofFailure (Program.parse text))
  if showText then print p.text
  let m ← inside path (onStubs (Stubs.compile p))
  printBlob m.blob
  m.sites.forM fun site =>
    print ("  debug site " ++ Text.hex (m.blob.base + site.offset.toUInt64).toNat ++ "\n")

def runLir (files : Files) (flags : FlagReading) : Work Unit :=
  flags.args.forM (runLirOf files (flags.truth "print-lir"))

def run (c : Command) (files : Files) (flags : FlagReading) : Work Unit :=
  match c with
  | adapters => runAdapters files flags
  | wrapper => runWrapper files flags
  | deopt => runDeopt flags
  | conventions => runConventions files flags
  | lir => runLir files flags

end Command

end RiscvJit
