import RiscvJit.Yaml.Meaning
import RiscvJit.Yaml.Token

/-
  RiscvJit.Yaml.Node — the tree of a YAML document.

  A node is a scalar, a sequence, a mapping or an alias, and knows the line it starts on and
  its tag. A missing key, value or item is an empty plain scalar. Only the first document of
  a text is read; a text without any document has no node.

  An alias stands for the node that had its anchor last. Nodes with anchors are numbered, so
  that an alias can stand inside the node that it names.
-/

namespace RiscvJit.Yaml

/-- A node; lines are counted from one. -/
inductive Node where
  | scalar (line : Nat) (tag text : String)
  | sequence (line : Nat) (tag : String) (items : List Node)
  | mapping (line : Nat) (tag : String) (entries : List (Node × Node))
  /-- An alias. It has a number of its own, and so has the node that it stands for. -/
  | reference (line : Nat) (name : String) (number anchor : Nat)
  deriving Repr, Inhabited

/-- The document of a text, and the nodes that have anchors by their numbers. -/
structure Document where
  root : Node
  anchored : Array Node
  deriving Repr

namespace Node

def line : Node → Nat
  | scalar line .. => line
  | sequence line .. => line
  | mapping line .. => line
  | reference line .. => line

/-- Reading of nodes: the tokens, what handles stand for, and the anchors. -/
structure Reader where
  scan : Scan
  handles : List (String × String) := []
  anchors : List (String × Nat) := []
  anchored : Array Node := #[]
  aliases : Nat := 0

abbrev Read := StateT Reader Work

def peek : Read Token := do
  let r ← get
  let (t, scan) ← r.scan.peek
  set { r with scan }
  return t

def skip : Read Unit := modify fun r => { r with scan := r.scan.skip }

def refuse {α : Type} (start line : Nat) (problem : String) : Read α :=
  throw ⟨if start ≠ 0 then start else line, problem⟩

def upcoming (kinds : List TokenKind) : Read Bool := return kinds.contains (← peek).kind

/-! ## Properties of nodes -/

/-- The anchor and the tag of a node, and the line they start on. -/
structure Properties where
  line : Nat
  anchor : Option String := none
  tag : Option String := none

def fullTag (startLine tagLine : Nat) (handle suffix : String) : Read String := do
  if handle = "" then return suffix
  let full := (((← get).handles.lookup handle).map (· ++ suffix)).getD ""
  if full = "" then refuse startLine tagLine "found undefined tag handle"
  return full

/-- Read the anchor and the tag before a node, in either order. The tag is looked up once the
token behind both has been seen. -/
def properties : Read Properties := do
  let first ← peek
  match first.kind with
  | .anchor name => do
    skip
    let t ← peek
    match t.kind with
    | .tag handle suffix => do
      skip
      let _ ← peek
      return ⟨first.line, some name, some (← fullTag first.line t.line handle suffix)⟩
    | _ => return ⟨first.line, some name, none⟩
  | .tag handle suffix => do
    skip
    let t ← peek
    match t.kind with
    | .anchor name => do
      skip
      let _ ← peek
      return ⟨first.line, some name, some (← fullTag first.line first.line handle suffix)⟩
    | _ => return ⟨first.line, none, some (← fullTag first.line first.line handle suffix)⟩
  | _ => return ⟨first.line, none, none⟩

def shortTag (tag : String) : String :=
  let start := "tag:yaml.org,2002:".toList
  if start.isPrefixOf tag.toList then "!!" ++ String.ofList (tag.toList.drop start.length) else tag

/-- The tag of a node: the one that is written, unless it leaves the choice open. -/
def Properties.tagOr (p : Properties) (default : String) : String :=
  match p.tag with
  | none => default
  | some tag => if tag = "" || tag = "!" then default else shortTag tag

def scalarTag (style : ScalarStyle) (text : String) : String :=
  match style with
  | .marked => "!!str"
  | .plain => if text = "<<" then "!!merge" else (plainMeaning text).tag

def scalarOf (p : Properties) (style : ScalarStyle) (text : String) : Node :=
  .scalar (p.line + 1) (p.tagOr (scalarTag style text)) text

/-- What stands where nothing is written. -/
def absent (line : Nat) : Node := scalarOf { line } .plain ""

/-- Give a node that starts now the number of its anchor. -/
def register (p : Properties) : Read (Option Nat) := do
  match p.anchor with
  | none => return none
  | some name =>
    let r ← get
    let number := r.anchored.size
    set { r with anchors := (name, number) :: r.anchors, anchored := r.anchored.push (absent 0) }
    return some number

def keep (number : Option Nat) (n : Node) : Read Node := do
  match number with
  | none => return n
  | some i =>
    modify fun r => { r with anchored := r.anchored.setIfInBounds i n }
    return n

def aliasOf (line : Nat) (name : String) : Read Node := do
  let r ← get
  match r.anchors.lookup name with
  | none => throw ⟨0, "unknown anchor '" ++ name ++ "' referenced"⟩
  | some anchor =>
    set { r with aliases := r.aliases + 1 }
    return .reference (line + 1) name r.aliases anchor

/-! ## Nodes -/

mutual

/-- Read a node. In a block, collections may be indented; as a value, a sequence may start
at the column of its key. -/
def read : Nat → (block : Bool) → (asValue : Bool) → Read Node
  | 0, _, _ => throw ⟨0, "unknown problem parsing YAML content"⟩
  | fuel + 1, block, asValue => do
    let first ← peek
    match first.kind with
    | .reference name => do
      skip
      aliasOf first.line name
    | _ => do
      let p ← properties
      let t ← peek
      match t.kind with
      | .scalar style text => do
        skip
        let n ← register p
        keep n (scalarOf p style text)
      | .flowSequence => do
        let n ← register p
        skip
        keep n (.sequence (p.line + 1) (p.tagOr "!!seq") (← flowItems fuel t.line true))
      | .flowMapping => do
        let n ← register p
        skip
        keep n (.mapping (p.line + 1) (p.tagOr "!!map") (← flowEntries fuel t.line true))
      | kind =>
        if asValue && kind = .item then
          let n ← register p
          keep n (.sequence (p.line + 1) (p.tagOr "!!seq") (← looseItems fuel))
        else if block && kind = .blockSequence then do
          let n ← register p
          skip
          keep n (.sequence (p.line + 1) (p.tagOr "!!seq") (← blockItems fuel t.line))
        else if block && kind = .blockMapping then do
          let n ← register p
          skip
          keep n (.mapping (p.line + 1) (p.tagOr "!!map") (← blockEntries fuel t.line))
        else if p.anchor.isSome || p.tag.any (· ≠ "") then
          let n ← register p
          keep n (scalarOf p .plain "")
        else refuse p.line t.line "did not find expected node content"

def blockItems : Nat → Nat → Read (List Node)
  | 0, _ => return []
  | fuel + 1, start => do
    let t ← peek
    match t.kind with
    | .item => do
      skip
      let n ← if ← upcoming [.item, .blockEnd] then pure (absent t.line) else read fuel true false
      return n :: (← blockItems fuel start)
    | .blockEnd => do
      skip
      return []
    | _ => refuse start t.line "did not find expected '-' indicator"

/-- The items of a sequence at the column of its key. -/
def looseItems : Nat → Read (List Node)
  | 0 => return []
  | fuel + 1 => do
    let t ← peek
    match t.kind with
    | .item => do
      skip
      let n ← if ← upcoming [.item, .key, .value, .blockEnd] then pure (absent t.line) else read fuel true false
      return n :: (← looseItems fuel)
    | _ => return []

def blockEntries : Nat → Nat → Read (List (Node × Node))
  | 0, _ => return []
  | fuel + 1, start => do
    let t ← peek
    match t.kind with
    | .key => do
      skip
      let k ← if ← upcoming [.key, .value, .blockEnd] then pure (absent t.line) else read fuel true true
      let v ← blockValue fuel
      return (k, v) :: (← blockEntries fuel start)
    | .blockEnd => do
      skip
      return []
    | _ => refuse start t.line "did not find expected key"

def blockValue : Nat → Read Node
  | 0 => return absent 0
  | fuel + 1 => do
    let t ← peek
    if t.kind = .value then
      skip
      if ← upcoming [.key, .value, .blockEnd] then return absent t.line else read fuel true true
    else return absent t.line

/-- The items of a flow sequence; an item may be a mapping of one entry. -/
def flowItems : Nat → Nat → Bool → Read (List Node)
  | 0, _, _ => return []
  | fuel + 1, start, first => do
    if ← upcoming [.flowSequenceEnd] then
      skip
      return []
    unless first do
      let t ← peek
      if t.kind = .comma then skip else refuse start t.line "did not find expected ',' or ']'"
    let t ← peek
    match t.kind with
    | .flowSequenceEnd => do
      skip
      return []
    | .key => do
      skip
      let (k, v) ← flowPair fuel
      return .mapping (t.line + 1) "!!map" [(k, v)] :: (← flowItems fuel start false)
    | _ => do
      let n ← read fuel false false
      return n :: (← flowItems fuel start false)

/-- The entry of a mapping that is an item of a flow sequence. Without a key, the token that
shows this is taken as well. -/
def flowPair : Nat → Read (Node × Node)
  | 0 => return (absent 0, absent 0)
  | fuel + 1 => do
    let t ← peek
    let k ← if [.value, .comma, .flowSequenceEnd].contains t.kind then do
        skip
        pure (absent t.line)
      else read fuel false false
    return (k, ← flowValue fuel [.comma, .flowSequenceEnd])

/-- The entries of a flow mapping; a key may stand alone. -/
def flowEntries : Nat → Nat → Bool → Read (List (Node × Node))
  | 0, _, _ => return []
  | fuel + 1, start, first => do
    if ← upcoming [.flowMappingEnd] then
      skip
      return []
    unless first do
      let t ← peek
      if t.kind = .comma then skip else refuse start t.line "did not find expected ',' or '\x7d'"
    let t ← peek
    match t.kind with
    | .flowMappingEnd => do
      skip
      return []
    | .key => do
      skip
      let t ← peek
      let k ← if [.value, .comma, .flowMappingEnd].contains t.kind then pure (absent t.line) else read fuel false false
      let v ← flowValue fuel [.comma, .flowMappingEnd]
      return (k, v) :: (← flowEntries fuel start false)
    | _ => do
      let k ← read fuel false false
      return (k, absent (← peek).line) :: (← flowEntries fuel start false)

def flowValue : Nat → List TokenKind → Read Node
  | 0, _ => return absent 0
  | fuel + 1, stops => do
    let t ← peek
    if t.kind = .value then
      skip
      if ← upcoming stops then return absent (← peek).line else read fuel false false
    else return absent t.line

end

/-! ## Documents -/

/-- What handles stand for where no directive says so. -/
def defaultHandles : List (String × String) := [("!", "!"), ("!!", "tag:yaml.org,2002:")]

/-- Read directives; `hasVersion` tells that one of them gave a version. -/
def directives : Nat → (hasVersion : Bool) → Read Unit
  | 0, _ => return ()
  | fuel + 1, hasVersion => do
    let t ← peek
    match t.kind with
    | .directive (.version major minor) => do
      if hasVersion then refuse 0 t.line "found duplicate %YAML directive"
      if major ≠ 1 || minor ≠ 1 then refuse 0 t.line "found incompatible YAML document"
      skip
      directives fuel true
    | .directive (.tag handle start) => do
      if ((← get).handles.lookup handle).isSome then refuse 0 t.line "found duplicate %TAG directive"
      modify fun r => { r with handles := r.handles ++ [(handle, start)] }
      skip
      directives fuel hasVersion
    | _ => return ()

def addDefaultHandles : Read Unit :=
  modify fun r => { r with handles := r.handles ++ defaultHandles.filter fun h => (r.handles.lookup h.1).isNone }

def endsDocument : TokenKind → Bool
  | .directive _ => true
  | .documentStart => true
  | .documentEnd => true
  | .streamEnd => true
  | _ => false

/-- The content of a document that starts with a mark or with directives. -/
def explicitContent (fuel : Nat) : Read Node := do
  directives fuel false
  addDefaultHandles
  let t ← peek
  if t.kind ≠ .documentStart then refuse 0 t.line "did not find expected <document start>"
  skip
  let t ← peek
  if endsDocument t.kind then return absent t.line else read fuel true false

/-- The first document. The token behind it is looked at, too. -/
def document (fuel : Nat) : Read (Option Node) := do
  let _ ← peek
  skip
  let t ← peek
  if t.kind = .streamEnd then return none
  let isExplicit := match t.kind with
    | .directive _ => true
    | .documentStart => true
    | _ => false
  let n ← if isExplicit then explicitContent fuel else do
    addDefaultHandles
    read fuel true false
  let _ ← peek
  return some n

def parse (text : String) : Work (Option Document) := do
  let (root, r) ← (document (4 * text.length + 16)).run { scan := .ofText text }
  return root.map fun n => ⟨n, r.anchored⟩

end Node

end RiscvJit.Yaml
