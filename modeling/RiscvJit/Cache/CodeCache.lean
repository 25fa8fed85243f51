import RiscvJit.Cache.Memory
import RiscvJit.Code.Blob
import RiscvJit.Log

/-
  RiscvJit.Cache.CodeCache — the addresses that generated code is installed at.

  A generator has to know the address of its code before it starts, so installing has two
  phases: `reserve` hands out a region that is large enough for the worst case, and `commit`
  installs the finished code and gives back what it did not use. When generation fails,
  `release` gives the whole region back. Space is handed out in increasing order; what is
  given back at the top is free again, and anything else is counted as wasted.

  `generate` is the whole sequence, with the entries it leaves in the log.
-/

namespace RiscvJit

open Text

/-- A reserved address range. -/
structure Region where
  base : UInt64
  size : Int64
  deriving DecidableEq, Repr, Inhabited

def Region.stop (r : Region) : UInt64 := r.base + r.size.toUInt64

/-- Code in place. -/
structure Installed where
  name : String
  region : Region
  /-- The size of the code itself. -/
  used : Int64
  deriving DecidableEq, Repr, Inhabited

/-- The address lies in the code. -/
def Installed.contains (i : Installed) (pc : UInt64) : Bool :=
  i.region.base ≤ pc && pc < i.region.base + i.used.toUInt64

/-- The addresses from `base` on, handed out in increasing order. -/
structure CodeCache where
  base : UInt64
  size : Int64
  installer : Installer
  /-- The offset of the first byte that is not handed out. -/
  top : Int64 := 0
  /-- Bytes given back that cannot be handed out again. -/
  wasted : Int64 := 0
  /-- Regions handed out and not yet committed or released, by base. -/
  pending : List Region := []
  installed : List Installed := []
  deriving Repr

namespace CodeCache

/-- Every region starts at a multiple of this. -/
def entryAlignment : Int64 := 64

def roundUp (n : Int64) : Int64 := (n + entryAlignment - 1) &&& ~~~(entryAlignment - 1)

/-- A cache of `size` bytes at `base`. -/
def create (base : UInt64) (size : Int64) (installer : Option Installer) : Except Failure CodeCache :=
  if base % entryAlignment.toUInt64 ≠ 0 then
    .error (.refused ("code cache base " ++ hex base.toNat ++ " is not aligned to " ++
      ofInt entryAlignment.toInt))
  else if size ≤ 0 then .error (.refused ("invalid code cache size " ++ ofInt size.toInt))
  else match installer with
    | none => .error (.refused "code cache needs an installer")
    | some installer => .ok { base, size, installer }

def withoutPending (c : CodeCache) (base : UInt64) : List Region := c.pending.filter (·.base ≠ base)

/-- Hand out a region of at least `size` bytes. -/
def reserve (c : CodeCache) (size : Int64) : Except Stop (Region × CodeCache) :=
  if size ≤ 0 then
    .error (.fault (.defect ("reservation of " ++ ofInt size.toInt ++ " bytes")))
  else
    let size := roundUp size
    if c.size - c.top < size then
      .error (.failure (.within ("reserving " ++ ofInt size.toInt ++ " bytes") .cacheFull))
    else
      let r : Region := ⟨c.base + c.top.toUInt64, size⟩
      .ok (r, { c with top := c.top + size, pending := r :: c.withoutPending r.base })

/-- Take a region back: it is free again when it ends at the top, and wasted otherwise. -/
def giveBack (c : CodeCache) (r : Region) : CodeCache :=
  if r.size = 0 then c
  else if r.stop = c.base + c.top.toUInt64 then { c with top := c.top - r.size }
  else { c with wasted := c.wasted + r.size }

/-- Keep installed code ordered by address; later code at one address comes last. -/
def insertInstalled (i : Installed) (l : List Installed) : List Installed :=
  l.takeWhile (·.region.base ≤ i.region.base) ++ i :: l.dropWhile (·.region.base ≤ i.region.base)

def checkFit (c : CodeCache) (r : Region) (blob : CodeBlob) : Except Stop Unit := do
  let size := Int64.ofNat blob.size
  unless c.pending.contains r do
    throw (.fault (.defect ("commit of " ++ blob.name ++ " to unreserved region " ++ hex r.base.toNat)))
  if blob.base ≠ r.base then
    throw (.failure (.refused (blob.name ++ " was generated for " ++ hex blob.base.toNat ++
      ", not for region " ++ hex r.base.toNat)))
  if r.size < size then
    throw (.failure (.refused (blob.name ++ " takes " ++ ofInt size.toInt ++ " bytes, region " ++
      hex r.base.toNat ++ " holds " ++ ofInt r.size.toInt)))

/-- Account for a blob that is in place: the rest of its region is given back. -/
def settle (c : CodeCache) (r : Region) (blob : CodeBlob) : Installed × CodeCache :=
  let kept := roundUp (Int64.ofNat blob.size)
  let i : Installed := ⟨blob.name, ⟨r.base, kept⟩, Int64.ofNat blob.size⟩
  let c := { c with pending := c.withoutPending r.base }
  let c := c.giveBack ⟨r.base + kept.toUInt64, r.size - kept⟩
  (i, { c with installed := insertInstalled i c.installed })

def installing (name : String) : Stop → Stop
  | .failure f => .failure (.within ("installing " ++ name) f)
  | s => s

/-- Install a blob that was generated for a region, and give back the rest of the region. -/
def commit (c : CodeCache) (r : Region) (blob : CodeBlob) : Except Stop (Installed × CodeCache) := do
  c.checkFit r blob
  let installer ← (c.installer.install r.base blob.code).mapError (installing blob.name)
  return { c with installer }.settle r blob

/-- Give back a region whose generation failed. -/
def release (c : CodeCache) (r : Region) : Except Fault CodeCache :=
  if c.pending.contains r then .ok ({ c with pending := c.withoutPending r.base }.giveBack r)
  else .error (.defect ("release of unreserved region " ++ hex r.base.toNat))

def lookup? (c : CodeCache) (pc : UInt64) : Option Installed :=
  ((c.installed.takeWhile (·.region.base ≤ pc)).getLast?).filter (·.contains pc)

/-- How full a cache is. -/
structure Stats where
  capacity : Int64
  reserved : Int64
  wasted : Int64
  pending : Nat
  blobs : Nat
  deriving DecidableEq, Repr

def stats (c : CodeCache) : Stats := ⟨c.size, c.top, c.wasted, c.pending.length, c.installed.length⟩

/-! ## Generating -/

/-- The outcome of generating into a cache: the cache afterwards, also when there is no
result, and what was told on the way. -/
structure Generation (α : Type) where
  result : Except Stop α
  cache : CodeCache
  log : List LogEntry := []

def fullEntry (c : CodeCache) (size : Int64) : LogEntry where
  level := .warning
  message := "code cache is full"
  fields := [("component", "codecache"), ("size", ofInt (roundUp size).toInt),
    ("used", ofInt c.top.toInt), ("capacity", ofInt c.size.toInt)]

def installedEntry (blob : CodeBlob) : LogEntry where
  level := .debug
  message := "installed"
  fields := [("component", "codecache"), ("method", blob.name), ("size", ofNat blob.size)]

def generatedEntry (blob : CodeBlob) : LogEntry where
  level := .debug
  message := "generated"
  fields := [("component", "c1"), ("method", blob.name), ("size", ofNat blob.size)]

/-- What is told about a generation that failed. -/
def abandonedEntries : Stop → List LogEntry
  | .failure (.bailout unit reason) =>
    [⟨.debug, "bailout", [("component", "c1"), ("method", unit), ("reason", reason)]⟩]
  | _ => []

/-- End a generation without a result: its region is given back. -/
def giveUp {α : Type} (c : CodeCache) (r : Region) (why : Stop) (log : List LogEntry) : Generation α :=
  match c.release r with
  | .ok c => ⟨.error why, c, log⟩
  | .error f => ⟨.error (.fault f), c, log⟩

/-- Generate code for a fresh region and install it. `note` says what else is told about a
finished piece of code before it is installed. -/
def generate {α : Type} (c : CodeCache) (size : Int64) (make : UInt64 → Except Stop α)
    (blobOf : α → CodeBlob) (note : α → List LogEntry) : Generation α :=
  match c.reserve size with
  | .error (.failure e) => ⟨.error (.failure e), c, [c.fullEntry size]⟩
  | .error s => ⟨.error s, c, []⟩
  | .ok (r, c) =>
    match make r.base with
    | .error s => c.giveUp r s (abandonedEntries s)
    | .ok a =>
      let log := generatedEntry (blobOf a) :: note a
      match c.commit r (blobOf a) with
      | .error s => c.giveUp r s log
      | .ok (_, c) => ⟨.ok a, c, log ++ [installedEntry (blobOf a)]⟩

end CodeCache

end RiscvJit
