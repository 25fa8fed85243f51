import RiscvJit.Text.Quoted
import RiscvJit.Yaml.Node

/-
  RiscvJit.Yaml.Record — YAML documents as records.

  Reading goes by the type that is wanted. What does not fit is noted with its line and
  reading goes on, so that one run reports every complaint. A null leaves its place as it
  was. A record only takes the keys it knows, each of them once.

  The key `<<` merges other mappings into a record: they give the fields that the mapping
  itself does not have, and of two of them the first one counts.
-/

namespace RiscvJit.Yaml

/-- Why a text gives no record. -/
inductive Refusal where
  | noDocument
  | malformed (e : SyntaxError)
  | mismatch (complaints : List String)
  deriving DecidableEq, Repr

def Refusal.message : Refusal → String
  | .noDocument => "EOF"
  | .malformed e => e.message
  | .mismatch complaints => "yaml: unmarshal errors:\n  " ++ Text.join "\n  " complaints

/-- The state of reading a document. -/
structure Progress where
  anchored : Array Node
  complaints : List String := []
  /-- The numbers of the aliases that are being read. -/
  active : List Nat := []
  /-- How many nodes were read, and how many of them inside of an alias. -/
  reads : Nat := 1
  aliasReads : Nat := 0

abbrev Reading := StateT Progress Work

def giveUp {α : Type} (problem : String) : Reading α := throw ⟨0, problem⟩

def complain (line : Nat) (what : String) : Reading Unit :=
  modify fun p => { p with complaints := p.complaints ++ ["line " ++ Text.ofNat line ++ ": " ++ what] }

/-! ## Complaints -/

/-- The first bytes of a text; a character that is cut is lost byte by byte. -/
def cutBytes : Nat → List Char → List Char
  | _, [] => []
  | n, c :: rest =>
    if n = 0 then []
    else if c.utf8Size ≤ n then c :: cutBytes (n - c.utf8Size) rest
    else List.replicate n (Char.ofNat 0xfffd)

/-- A scalar as it is shown in a complaint. -/
def excerpt (s : String) : String :=
  let shown := if 10 < s.utf8ByteSize then String.ofList (cutBytes 7 s.toList) ++ "..." else s
  " \x60" ++ shown ++ "\x60"

/-- The tag of a node and the text that is shown with it. -/
def shown (tag text : String) : String :=
  if tag = "!!seq" || tag = "!!map" then tag else tag ++ excerpt text

def misfit (n : Node) (type : String) : Reading Unit :=
  let what := match n with
    | .scalar _ tag s => shown tag s
    | .sequence _ tag _ => shown tag ""
    | .mapping _ tag _ => shown tag ""
    | .reference .. => ""
  complain n.line ("cannot unmarshal " ++ what ++ " into " ++ type)

def keyText : Node → String
  | .scalar _ _ s => s
  | .reference _ name _ _ => name
  | _ => ""

def sameKey (a b : Node) : Bool :=
  match a, b with
  | .scalar _ _ s, .scalar _ _ t => s == t
  | .reference _ s _ _, .reference _ t _ _ => s == t
  | .sequence .., .sequence .. => true
  | .mapping .., .mapping .. => true
  | _, _ => false

/-- Complain about keys that occur again. -/
def checkKeys : List Node → Reading Bool
  | [] => return true
  | k :: rest => do
    let again := rest.filter (sameKey k)
    again.forM fun d => complain d.line ("mapping key " ++ Text.quote (keyText d) ++
      " already defined at line " ++ Text.ofNat k.line)
    return (← checkKeys rest) && again.isEmpty

/-! ## Nodes and aliases -/

/-- How many of a number of reads may be inside of aliases: 99 of 100 in small documents, and
fewer in large ones. -/
def aliasReadsAllowed (reads aliasReads : Nat) : Bool :=
  let low := 400000
  let high := 4000000
  if reads ≤ low then aliasReads * 100 ≤ 99 * reads
  else if high ≤ reads then aliasReads * 10 ≤ reads
  else aliasReads * 100 * (high - low) ≤ (99 * (high - low) - 89 * (reads - low)) * reads

def countRead : Reading Unit := do
  let p ← get
  let p := { p with
    reads := p.reads + 1
    aliasReads := if p.active.isEmpty then p.aliasReads else p.aliasReads + 1 }
  if 100 < p.aliasReads && 1000 < p.reads && !aliasReadsAllowed p.reads p.aliasReads then
    giveUp "document contains excessive aliasing"
  set p

def anchoredNode (anchor : Nat) : Reading Node := return (← get).anchored.getD anchor (Node.absent 0)

/-- Read a node, or the one that an alias stands for. An alias that comes to itself again has
no end. -/
def visit {α : Type} (n : Node) (read : Node → Reading α) : Reading α := do
  countRead
  match n with
  | .reference _ name number anchor => do
    let active := (← get).active
    if active.contains number then giveUp ("anchor '" ++ name ++ "' value contains itself")
    modify fun p => { p with active := number :: active }
    countRead
    let a ← read (← anchoredNode anchor)
    modify fun p => { p with active }
    return a
  | n => read n

/-! ## Shapes -/

/-- How nodes are read as values of a type; a null, or a node that does not fit, gives none. -/
structure Shape (α : Type) where
  /-- What the type is called in complaints. -/
  name : String
  readNode : Node → Reading (Option α)

def Shape.read {α : Type} (shape : Shape α) (n : Node) : Reading (Option α) := visit n shape.readNode

def refuseMapping (n : Node) (entries : List (Node × Node)) (type : String) : Reading Unit := do
  if ← checkKeys (entries.map (·.1)) then misfit n type

/-- A scalar that is read by its meaning; a null gives none. -/
def readMeaning {α : Type} (n : Node) (tag text type : String) (f : Meaning → Option α) : Reading (Option α) := do
  let m ← meaning tag text
  if m = .null then return none
  match f m with
  | some a => return some a
  | none =>
    misfit n type
    return none

def Shape.ofScalar {α : Type} (name : String) (f : Meaning → String → Option α) : Shape α where
  name
  readNode n := do
    match n with
    | .scalar _ tag s => readMeaning n tag s name (f · s)
    | .mapping _ _ entries =>
      refuseMapping n entries name
      return none
    | n =>
      misfit n name
      return none

/-- Text: what a text stands for, and otherwise the scalar as written. -/
def Shape.text : Shape String := .ofScalar "string" fun m s =>
  match m with
  | .text t => some t
  | _ => some s

/-- Words that stand for a truth value where one is wanted. -/
def truthWord? (s : String) : Option Bool :=
  if ["y", "Y", "yes", "Yes", "YES", "on", "On", "ON"].contains s then some true
  else if ["n", "N", "no", "No", "NO", "off", "Off", "OFF"].contains s then some false
  else none

def Shape.truth : Shape Bool := .ofScalar "bool" fun m _ =>
  match m with
  | .truth b => some b
  | .text s => truthWord? s
  | _ => none

/-- A signed integer of 64 bits. -/
def Shape.int (name : String) : Shape Int64 := .ofScalar name fun m _ =>
  match m with
  | .int n => if n < 2 ^ 63 then some (Int64.ofInt n) else none
  | .float bits => (floatToInt? bits).map Int64.ofInt
  | _ => none

/-- An unsigned integer of 64 bits. -/
def Shape.natural : Shape UInt64 := .ofScalar "uint64" fun m _ =>
  match m with
  | .int n => if 0 ≤ n then some (UInt64.ofInt n) else none
  | .float bits => (floatToNat? bits).map UInt64.ofNat
  | _ => none

def Shape.list {α : Type} (name : String) (item : Shape α) : Shape (List α) where
  name
  readNode n := do
    match n with
    | .sequence _ _ items => return some ((← items.mapM item.read).filterMap id)
    | .scalar _ tag s => readMeaning n tag s name fun _ => none
    | .mapping _ _ entries =>
      refuseMapping n entries name
      return none
    | .reference .. => return none

def Shape.orNull {α : Type} (shape : Shape α) : Shape (Option α) where
  name := shape.name
  readNode n := do
    match n with
    | .scalar _ tag s =>
      if (← meaning tag s) = .null then return some none else return (← shape.readNode n).map some
    | n => return (← shape.readNode n).map some

/-! ## Records -/

/-- A key of a record and how its value is stored. -/
structure Field (ρ : Type) where
  key : String
  store : Node → ρ → Reading ρ

def Field.of {ρ α : Type} (key : String) (shape : Shape α) (put : α → ρ → ρ) : Field ρ where
  key
  store n r := do
    match ← shape.read n with
    | some a => return put a r
    | none => return r

/-- A record that is being read. -/
structure Partial (ρ : Type) where
  value : ρ
  /-- The keys that no merged mapping gives any more; none while nothing is merged. -/
  closed : Option (List String)
  /-- The keys that this mapping gave. -/
  given : List String := []

/-- The key of an entry that merges other mappings. -/
def isMerge : Node → Bool
  | .scalar _ tag s => s = "<<" && tag = "!!merge"
  | _ => false

def storeEntry {ρ : Type} (name : String) (fields : List (Field ρ)) (r : Partial ρ) (entry : Node × Node) :
    Reading (Partial ρ) := do
  if isMerge entry.1 then return r
  match ← Shape.text.read entry.1 with
  | none => return r
  | some key =>
    if r.closed.any (·.contains key) then return r
    let r := { r with closed := r.closed.map (key :: ·) }
    match fields.find? (·.key == key) with
    | some f =>
      if r.given.contains key then
        complain entry.1.line ("field " ++ key ++ " already set in type " ++ name)
        return r
      else return { r with value := ← f.store entry.2 r.value, given := key :: r.given }
    | none =>
      complain entry.1.line ("field " ++ key ++ " not found in type " ++ name)
      return r

def ownKeys (entries : List (Node × Node)) : Reading (List String) := do
  let keys ← entries.mapM fun e => visit e.1 fun n => do
    match n with
    | .scalar _ tag s =>
      match ← meaning tag s with
      | .text t => return some t
      | _ => return none
    | _ => return none
  return keys.filterMap id

def refuseMerge {α : Type} : Reading α := giveUp "map merge requires map or sequence of maps as the value"

def isMapping (n : Node) : Reading Bool := do
  match n with
  | .mapping .. => return true
  | .reference _ _ _ anchor =>
    match ← anchoredNode anchor with
    | .mapping .. => return true
    | _ => return false
  | _ => return false

mutual

/-- Store the entries of a mapping and of the mappings that it merges. -/
def storeMapping {ρ : Type} (name : String) (fields : List (Field ρ)) :
    Nat → List (Node × Node) → Partial ρ → Reading (Partial ρ)
  | 0, _, r => return r
  | fuel + 1, entries, r => do
    if ← checkKeys (entries.map (·.1)) then
      let r ← entries.foldlM (storeEntry name fields) { r with given := [] }
      match entries.find? (isMerge ·.1) with
      | none => return r
      | some (_, source) =>
        let closed ← match r.closed with
          | some keys => pure keys
          | none => ownKeys entries
        let sources := match source with
          | .sequence _ _ items => items
          | n => [n]
        mergeAll name fields fuel sources { r with closed := some closed }
    else return r

def mergeAll {ρ : Type} (name : String) (fields : List (Field ρ)) :
    Nat → List Node → Partial ρ → Reading (Partial ρ)
  | 0, _, r => return r
  | _, [], r => return r
  | fuel + 1, n :: rest, r => do
    if !(← isMapping n) then refuseMerge
    let r ← visit n fun m =>
      match m with
      | .mapping _ _ entries => storeMapping name fields fuel entries r
      | _ => return r
    mergeAll name fields fuel rest r

end

/-- The number of nodes that are reached when aliases are followed once. -/
def mergeFuel (entries : Nat) (anchored : Nat) : Nat := (entries + anchored + 2) * (anchored + 2) + 10000

def Shape.record {ρ : Type} (name : String) (empty : ρ) (fields : List (Field ρ)) : Shape ρ where
  name
  readNode n := do
    match n with
    | .mapping _ _ entries =>
      let fuel := mergeFuel entries.length (← get).anchored.size
      let r ← storeMapping name fields fuel entries { value := empty, closed := none }
      return some r.value
    | .scalar _ tag s => readMeaning n tag s name fun _ => none
    | n =>
      misfit n name
      return none

/-- The first document of a text as a value; a null stands for the default. -/
def decode {α : Type} (shape : Shape α) (default : α) (text : String) : Except Refusal α :=
  match Node.parse text with
  | .error e => .error (.malformed e)
  | .ok none => .error .noDocument
  | .ok (some d) =>
    match (shape.read d.root).run { anchored := d.anchored } with
    | .error e => .error (.malformed e)
    | .ok (r, p) => if p.complaints.isEmpty then .ok (r.getD default) else .error (.mismatch p.complaints)

end RiscvJit.Yaml
