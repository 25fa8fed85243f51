import RiscvJit.Log
import RiscvJit.Target.Options
import RiscvJit.Yaml.Record

/-
  RiscvJit.Config — the settings of the code generator and where they come from.

  Settings come in layers: the defaults, then a file, then the environment. Every setting
  knows whether a layer has set it, and a layer only replaces what it sets. `refusal?` names
  the first reason why a configuration cannot be used.
-/

namespace RiscvJit

/-- A value, and whether a layer has set it. -/
structure Setting (α : Type) where
  value : α
  isSet : Bool := false
  deriving DecidableEq, Repr

namespace Setting

def given {α : Type} (value : α) : Setting α := ⟨value, true⟩

def above {α : Type} (upper lower : Setting α) : Setting α := if upper.isSet then upper else lower

end Setting

/-- All settings. Nothing is set in the empty configuration. -/
structure Config where
  useCompressedOops : Setting Bool := ⟨false, false⟩
  compressedOopShift : Setting Int64 := ⟨0, false⟩
  compressedOopBase : Setting Int64 := ⟨0, false⟩
  useCompressedClassPointers : Setting Bool := ⟨false, false⟩
  compressedKlassShift : Setting Int64 := ⟨0, false⟩
  compressedKlassBase : Setting Int64 := ⟨0, false⟩
  useTlab : Setting Bool := ⟨false, false⟩
  useFastLocking : Setting Bool := ⟨false, false⟩
  typeProfileWidth : Setting Int64 := ⟨0, false⟩
  profileTypes : Setting Bool := ⟨false, false⟩
  pageSize : Setting Int64 := ⟨0, false⟩
  codeBufferSize : Setting Int64 := ⟨0, false⟩
  stubBufferSize : Setting Int64 := ⟨0, false⟩
  codeCacheSize : Setting Int64 := ⟨0, false⟩
  logLevel : Setting String := ⟨"", false⟩
  deriving DecidableEq, Repr

namespace Config

/-- The defaults, none of them set by a layer. -/
def defaults : Config where
  useCompressedOops := ⟨true, false⟩
  compressedOopShift := ⟨3, false⟩
  useCompressedClassPointers := ⟨true, false⟩
  useTlab := ⟨true, false⟩
  useFastLocking := ⟨true, false⟩
  typeProfileWidth := ⟨2, false⟩
  profileTypes := ⟨true, false⟩
  pageSize := ⟨4096, false⟩
  codeBufferSize := ⟨64 * 1024, false⟩
  stubBufferSize := ⟨4 * 1024, false⟩
  codeCacheSize := ⟨48 * 1024 * 1024, false⟩
  logLevel := ⟨"info", false⟩

/-! ## Settings by name -/

/-- Where a setting lives in a configuration. -/
structure Place (α : Type) where
  get : Config → Setting α
  put : Setting α → Config → Config

/-- The place of a setting, by the type of its value. -/
inductive AnyPlace where
  | flag (p : Place Bool)
  | int (p : Place Int64)
  | text (p : Place String)

/-- A setting: its key in files, its variable in the environment, and its name in reports
about the environment. -/
structure Knob where
  key : String
  variableName : String
  title : String
  place : AnyPlace

/-- All settings, in the order in which they are looked up. -/
def knobs : List Knob :=
  [⟨"useCompressedOops", "C1_USE_COMPRESSED_OOPS", "UseCompressedOops",
      .flag ⟨useCompressedOops, fun v c => { c with useCompressedOops := v }⟩⟩,
   ⟨"compressedOopShift", "C1_COMPRESSED_OOP_SHIFT", "CompressedOopShift",
      .int ⟨compressedOopShift, fun v c => { c with compressedOopShift := v }⟩⟩,
   ⟨"compressedOopBase", "C1_COMPRESSED_OOP_BASE", "CompressedOopBase",
      .int ⟨compressedOopBase, fun v c => { c with compressedOopBase := v }⟩⟩,
   ⟨"useCompressedClassPointers", "C1_USE_COMPRESSED_CLASS_POINTERS", "UseCompressedClassPointers",
      .flag ⟨useCompressedClassPointers, fun v c => { c with useCompressedClassPointers := v }⟩⟩,
   ⟨"compressedKlassShift", "C1_COMPRESSED_KLASS_SHIFT", "CompressedKlassShift",
      .int ⟨compressedKlassShift, fun v c => { c with compressedKlassShift := v }⟩⟩,
   ⟨"compressedKlassBase", "C1_COMPRESSED_KLASS_BASE", "CompressedKlassBase",
      .int ⟨compressedKlassBase, fun v c => { c with compressedKlassBase := v }⟩⟩,
   ⟨"useTLAB", "C1_USE_TLAB", "UseTLAB", .flag ⟨useTlab, fun v c => { c with useTlab := v }⟩⟩,
   ⟨"useFastLocking", "C1_USE_FAST_LOCKING", "UseFastLocking",
      .flag ⟨useFastLocking, fun v c => { c with useFastLocking := v }⟩⟩,
   ⟨"typeProfileWidth", "C1_TYPE_PROFILE_WIDTH", "TypeProfileWidth",
      .int ⟨typeProfileWidth, fun v c => { c with typeProfileWidth := v }⟩⟩,
   ⟨"profileTypes", "C1_PROFILE_TYPES", "ProfileTypes",
      .flag ⟨profileTypes, fun v c => { c with profileTypes := v }⟩⟩,
   ⟨"pageSize", "C1_PAGE_SIZE", "PageSize", .int ⟨pageSize, fun v c => { c with pageSize := v }⟩⟩,
   ⟨"codeBufferSize", "C1_CODE_BUFFER_SIZE", "CodeBufferSize",
      .int ⟨codeBufferSize, fun v c => { c with codeBufferSize := v }⟩⟩,
   ⟨"stubBufferSize", "C1_STUB_BUFFER_SIZE", "StubBufferSize",
      .int ⟨stubBufferSize, fun v c => { c with stubBufferSize := v }⟩⟩,
   ⟨"codeCacheSize", "C1_CODE_CACHE_SIZE", "CodeCacheSize",
      .int ⟨codeCacheSize, fun v c => { c with codeCacheSize := v }⟩⟩,
   ⟨"logLevel", "C1_LOG_LEVEL", "LogLevel", .text ⟨logLevel, fun v c => { c with logLevel := v }⟩⟩]

/-- A configuration under a layer: what the layer sets is taken from it. -/
def apply (c layer : Config) : Config where
  useCompressedOops := layer.useCompressedOops.above c.useCompressedOops
  compressedOopShift := layer.compressedOopShift.above c.compressedOopShift
  compressedOopBase := layer.compressedOopBase.above c.compressedOopBase
  useCompressedClassPointers := layer.useCompressedClassPointers.above c.useCompressedClassPointers
  compressedKlassShift := layer.compressedKlassShift.above c.compressedKlassShift
  compressedKlassBase := layer.compressedKlassBase.above c.compressedKlassBase
  useTlab := layer.useTlab.above c.useTlab
  useFastLocking := layer.useFastLocking.above c.useFastLocking
  typeProfileWidth := layer.typeProfileWidth.above c.typeProfileWidth
  profileTypes := layer.profileTypes.above c.profileTypes
  pageSize := layer.pageSize.above c.pageSize
  codeBufferSize := layer.codeBufferSize.above c.codeBufferSize
  stubBufferSize := layer.stubBufferSize.above c.stubBufferSize
  codeCacheSize := layer.codeCacheSize.above c.codeCacheSize
  logLevel := layer.logLevel.above c.logLevel

/-! ## The file layer -/

def Knob.field (k : Knob) : Yaml.Field Config :=
  match k.place with
  | .flag p => .of k.key .truth fun v => p.put (.given v)
  | .int p => .of k.key (.int "int64") fun v => p.put (.given v)
  | .text p => .of k.key .text fun v => p.put (.given v)

def fileShape : Yaml.Shape Config := .record "config.fileConfig" {} (knobs.map Knob.field)

/-- The layer of a file; a file without content sets nothing. -/
def ofYaml (text : String) : Except Failure Config :=
  match Yaml.decode fileShape {} text with
  | .ok c => .ok c
  | .error .noDocument => .ok {}
  | .error e => .error (.within "parsing config" (.refused e.message))

/-! ## The environment layer -/

/-- A variable whose value is not understood. -/
def Knob.refuse (k : Knob) (value type details : String) : Failure :=
  .refused ("reading environment: envconfig.Process: assigning " ++ k.variableName ++ " to " ++ k.title ++
    ": converting '" ++ value ++ "' to type " ++ type ++ ". details: " ++ details)

/-- Set a setting from the value of its variable. An empty value sets nothing, and neither
does the word null for a number or a truth value. -/
def Knob.assign (k : Knob) (value : String) (c : Config) : Except Failure Config :=
  match k.place with
  | .text p => .ok (if value = "" then c else p.put (.given value) c)
  | .flag p =>
    if value = "" || value = "null" then .ok c
    else if value = "true" then .ok (p.put (.given true) c)
    else if value = "false" then .ok (p.put (.given false) c)
    else .error (k.refuse value "null.Bool" ("invalid input:" ++ value))
  | .int p =>
    if value = "" || value = "null" then .ok c
    else match Text.decimal? value.toList with
      | .ok n => .ok (p.put (.given (Int64.ofInt n)) c)
      | .error e =>
        .error (k.refuse value "null.Int" ("strconv.ParseInt: parsing " ++ Text.quote value ++ ": " ++ e.reason))

def ofEnv (env : String → Option String) : Except Failure Config :=
  knobs.foldlM (fun c k =>
    match env k.variableName with
    | some value => k.assign value c
    | none => .ok c) {}

/-! ## Using a configuration -/

/-- The settings that generated code depends on. -/
def options (c : Config) : Options where
  compressedOops := c.useCompressedOops.value
  oopShift := UInt8.ofInt c.compressedOopShift.value.toInt
  oopBase := c.compressedOopBase.value.toUInt64
  compressedClassPointers := c.useCompressedClassPointers.value
  klassShift := UInt8.ofInt c.compressedKlassShift.value.toInt
  klassBase := c.compressedKlassBase.value.toUInt64
  useTlab := c.useTlab.value
  useFastLocking := c.useFastLocking.value
  typeProfileWidth := c.typeProfileWidth.value
  profileTypes := c.profileTypes.value
  pageSize := c.pageSize.value
  codeBufferSize := c.codeBufferSize.value
  stubBufferSize := c.stubBufferSize.value

/-- The first reason why the configuration cannot be used. -/
def refusal? (c : Config) : Option String :=
  if c.codeCacheSize.value < c.codeBufferSize.value + c.stubBufferSize.value then
    some ("code cache size " ++ Text.ofInt c.codeCacheSize.value.toInt ++ " cannot hold a single generation unit")
  else if (LogLevel.ofName? c.logLevel.value).isNone then
    some ("invalid log level: not a valid logrus Level: " ++ Text.quote c.logLevel.value)
  else c.options.refusal?

def level (c : Config) : LogLevel := (LogLevel.ofName? c.logLevel.value).getD .info

/-- The defaults under the file, if there is one, under the environment. When a layer cannot
be read, or the result cannot be used, the configuration so far comes with the failure. -/
def load (file : Option (Except String String)) (env : String → Option String) : Config × Option Failure :=
  let fromFile : Except Failure Config := match file with
    | none => .ok {}
    | some (.error e) => .error (.within "reading config" (.refused e))
    | some (.ok text) => ofYaml text
  match fromFile with
  | .error e => (defaults, some e)
  | .ok layer =>
    let c := defaults.apply layer
    match ofEnv env with
    | .error e => (c, some e)
    | .ok layer =>
      let c := c.apply layer
      (c, c.refusal?.map .refused)

end Config

end RiscvJit
