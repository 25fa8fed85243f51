import RiscvJit.Cache.CodeCache
import RiscvJit.Lower.Compile
import RiscvJit.Stub.Deopt
import RiscvJit.Stub.NativeWrapper
import RiscvJit.Stub.SubtypeScan

/-
  RiscvJit.Cache.Stubs — code that compiled methods share.

  A stub is generated when it is first asked for and kept under a key: adapters under the
  fingerprint of their signature, wrappers under the method, the runtime blobs under their
  names. A generation that fails keeps nothing, so the next request tries again. Once the
  runtime blobs are in place, the runtime entries of the target point at them.
-/

namespace RiscvJit

/-! ## Stubs by key -/

/-- Stubs that were generated, by key. -/
abbrev StubTable (α : Type) := List (String × α)

namespace StubTable

/-- The stub kept under a key, or a new one that is then kept. -/
def getOrCreate {α : Type} (stubs : StubTable α) (c : CodeCache) (key : String) (size : Int64)
    (make : UInt64 → Except Stop α) (blobOf : α → CodeBlob) (note : α → List LogEntry) :
    CodeCache.Generation α × StubTable α :=
  match stubs.lookup key with
  | some a => (⟨.ok a, c, []⟩, stubs)
  | none =>
    let g := c.generate size make blobOf note
    match g.result with
    | .ok a => (g, (key, a) :: stubs)
    | .error _ => (g, stubs)

end StubTable

/-! ## The stubs of a target -/

/-- A target, its code cache and the stubs in it. -/
structure Stubs where
  target : Target
  cache : CodeCache
  adapters : StubTable CodeBlob := []
  wrappers : StubTable NativeWrapper := []
  shared : StubTable CodeBlob := []
  /-- What was told so far, the oldest first. -/
  log : List LogEntry := []

namespace Stubs

/-- Work on the stubs; what it did before it ended without result is kept. -/
abbrev Work := ExceptT Stop (StateM Stubs)

def answer {α : Type} (x : Except Stop α) : Work α := ExceptT.mk (pure x)

def tell (entries : List LogEntry) : Work Unit := modify fun s => { s with log := s.log ++ entries }

def take {α : Type} (g : CodeCache.Generation α) : Work α := do
  modify fun s => { s with cache := g.cache }
  tell g.log
  answer g.result

def adaptersFor (sig : Signature) : Work CodeBlob := do
  let key ← answer (Stop.ofFault sig.fingerprint)
  let s ← get
  let note (_ : CodeBlob) : List LogEntry :=
    [⟨.debug, "adapters generated", [("component", "adapters"), ("signature", key)]⟩]
  let (g, adapters) := s.adapters.getOrCreate s.cache key s.target.opts.stubBufferSize
    (Stub.adapters s.target sig) id note
  set { s with adapters }
  take g

/-- The key of a native method: its name, its signature and whether it is static. -/
def wrapperKey (m : NativeMethod) : Except Fault String := do
  let sig ← match m.sig with
    | none => pure "<nil>"
    | some s => s.text
  return m.name ++ sig ++ " static=" ++ Text.ofBool m.isStatic

def wrapperFor (m : NativeMethod) : Work NativeWrapper := do
  let key ← answer (Stop.ofFault (wrapperKey m))
  let s ← get
  let note (w : NativeWrapper) : List LogEntry :=
    [⟨.debug, "native wrapper generated",
      [("component", "wrapper"), ("method", m.name), ("signature", w.nativeSig.text.toOption.getD "")]⟩]
  let (g, wrappers) := s.wrappers.getOrCreate s.cache key s.target.opts.codeBufferSize
    (NativeWrapper.generate s.target m) NativeWrapper.blob note
  set { s with wrappers }
  take g

/-- Compile a method into the cache; a broken precondition is an ordinary negative answer. -/
def compile (p : Program) : Work CompiledMethod := do
  let s ← get
  take (s.cache.generate s.target.opts.codeBufferSize
    (fun base => Stop.answerPreconditions (p.compile s.target base)) CompiledMethod.blob fun _ => [])

/-! ## Runtime blobs -/

/-- A runtime blob, and the runtime entry that compiled code reaches it through. -/
structure SharedBlob where
  name : String
  /-- The runtime entry and the entry point of the blob that it leads to, if not its start. -/
  entry : Option (RuntimeEntry × Option String)
  make : Target → UInt64 → Except Stop CodeBlob

/-- The runtime blobs in the order they are generated. -/
def sharedBlobs : List SharedBlob :=
  [⟨"slow_subtype_check", some (.slowSubtypeCheck, none), Stub.subtypeScan⟩,
   ⟨"safepoint_handler_blob", some (.safepointHandler, none), Stub.safepointHandler⟩,
   ⟨"deopt_blob", some (.deoptBlobUnpack, some EntryPoint.deopt), Stub.deopt⟩,
   ⟨"resolve_static_call", none, fun t => Stub.resolver t "resolve_static_call" .resolveStaticCall⟩,
   ⟨"resolve_virtual_call", none, fun t => Stub.resolver t "resolve_virtual_call" .resolveVirtualCall⟩]

def generating (name : String) : Stop → Stop
  | .failure f => .failure (.within ("generating " ++ name) f)
  | s => s

def sharedFor (b : SharedBlob) : Work CodeBlob := do
  let s ← get
  let (g, shared) := s.shared.getOrCreate s.cache b.name s.target.opts.stubBufferSize (b.make s.target) id fun _ => []
  set { s with shared }
  tryCatch (take g) fun e => throw (generating b.name e)

/-- All runtime blobs; the first failure is kept while the others are still generated. -/
def sharedAll : List SharedBlob → Work (Except Stop (List (SharedBlob × CodeBlob)))
  | [] => return .ok []
  | b :: rest => do
    let r ← tryCatch (Except.ok <$> sharedFor b) fun e =>
      match e with
      | .failure f => return .error (Stop.failure f)
      | .fault f => throw (.fault f)
    let more ← sharedAll rest
    return do return (b, ← r) :: (← more)

def linkShared (b : SharedBlob) (blob : CodeBlob) (rt : RuntimeEntries) : Except Fault RuntimeEntries :=
  match b.entry with
  | none => return rt
  | some (e, none) => return rt.set e blob.base
  | some (e, some point) => return rt.set e (← blob.entryAddress point)

/-- Generate the runtime blobs and point the runtime entries at them. -/
def generateShared : Work Unit := do
  let blobs ← answer (← sharedAll sharedBlobs)
  let s ← get
  let runtime ← answer (Stop.ofFault
    (blobs.foldlM (fun rt (b, blob) => linkShared b blob rt) s.target.runtime))
  set { s with target := { s.target with runtime } }

end Stubs

end RiscvJit
