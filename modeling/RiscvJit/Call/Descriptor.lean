import RiscvJit.Text.Quoted
import RiscvJit.Value.Kind

/-
  RiscvJit.Call.Descriptor — signatures, and the descriptors they are read from.

  Arguments are kinds in call order; the receiver of an instance method is the first one.
  `expanded` puts a void after every long and double, which is the list that calling
  conventions work on. `fingerprint` names the shape of a method's adapters: kinds that
  adapters move alike are folded together, and the result does not count.
-/

namespace RiscvJit

/-- Argument kinds and result kind of a call. -/
structure Signature where
  args : List ValueKind
  ret : ValueKind
  deriving DecidableEq, Repr, Inhabited

namespace Signature

/-- A signature of the given kinds, of which arguments may not be void or absent. -/
def make (ret : ValueKind) (args : List ValueKind) : Except Fault Signature :=
  match args.find? fun k => k = .void || k = .none with
  | some k => .error (.defect (k.name ++ " is not an argument kind"))
  | none => .ok ⟨args, ret⟩

/-- A kind as the conventions see it: double words are followed by a void. -/
def expandKind (k : ValueKind) : List ValueKind :=
  if k.isDoubleWord then [k, .void] else [k]

/-- The argument list with the void halves written out. -/
def expanded (s : Signature) : List ValueKind := s.args.flatMap expandKind

/-- The number of logical slots the arguments take. -/
def parameterSlots (s : Signature) : Nat := s.args.foldl (fun n k => n + k.slots) 0

/-- Kinds that adapters move alike have one representative. -/
def foldKind (k : ValueKind) : ValueKind :=
  if k.isSubword then .int else if k = .array then .object else k

def letters : List ValueKind → Except Fault (List Char)
  | [] => .ok []
  | k :: rest =>
    match k.letter with
    | .error e => .error e
    | .ok c => (letters rest).map (c :: ·)

def fingerprint (s : Signature) : Except Fault String :=
  (letters (s.args.map foldKind)).map String.ofList

/-- How a signature is written: classes and arrays by their letter alone. -/
def text (s : Signature) : Except Fault String :=
  match letters s.args with
  | .error e => .error e
  | .ok args => s.ret.letter.map fun r => String.ofList ('(' :: args ++ [')', r])

end Signature

/-! ## Descriptors

A descriptor is a byte string: an opening parenthesis, field types, a closing parenthesis,
and a field type or `V` for the result. A field type is one letter, a class name between
`L` and `;`, or an array of a field type. Errors carry the byte position they were met at. -/

/-- Why a byte string is no descriptor. -/
inductive DescriptorError where
  | noOpening
  | noClosing
  | unexpectedEnd
  | unterminatedClass (pos : Nat)
  | unexpectedByte (b : UInt8) (pos : Nat)
  | trailing
  deriving DecidableEq, Repr

namespace DescriptorError

/-- What is wrong, without the descriptor itself. -/
def reason : DescriptorError → String
  | noOpening => "missing '('"
  | noClosing => "missing ')'"
  | unexpectedEnd => "unexpected end"
  | unterminatedClass pos => "unterminated class name at " ++ Text.ofNat pos
  | unexpectedByte b pos => "unexpected " ++ Text.quoteByte b ++ " at " ++ Text.ofNat pos
  | trailing => "trailing characters"

/-- The wording of a refusal of the descriptor `desc`. -/
def message (desc : String) (e : DescriptorError) : String :=
  "invalid descriptor " ++ Text.quote desc ++ ": " ++ e.reason

end DescriptorError

namespace Descriptor

def primitive? (b : UInt8) : Option ValueKind :=
  match Char.ofNat b.toNat with
  | 'Z' => some .boolean
  | 'C' => some .char
  | 'F' => some .float
  | 'D' => some .double
  | 'B' => some .byte
  | 'S' => some .short
  | 'I' => some .int
  | 'J' => some .long
  | _ => none

def byteOf (c : Char) : UInt8 := UInt8.ofNat c.toNat

def skipClass : List UInt8 → Nat → Option (List UInt8 × Nat)
  | [], _ => none
  | b :: rest, pos => if b = byteOf ';' then some (rest, pos + 1) else skipClass rest (pos + 1)

/-- One field type at the head of the bytes: its kind, what follows, and where that starts.
Brackets before a field type make an array of it. -/
def fieldType : List UInt8 → Nat → Except DescriptorError (ValueKind × List UInt8 × Nat)
  | [], _ => .error .unexpectedEnd
  | b :: rest, pos =>
    if b = byteOf '[' then
      (fieldType rest (pos + 1)).map fun (_, rest', pos') => (.array, rest', pos')
    else if b = byteOf 'L' then
      match skipClass rest (pos + 1) with
      | some (rest', pos') => .ok (.object, rest', pos')
      | none => .error (.unterminatedClass pos)
    else match primitive? b with
      | some k => .ok (k, rest, pos + 1)
      | none => .error (.unexpectedByte b pos)

theorem skipClass_length {bytes : List UInt8} {pos : Nat} {r : List UInt8 × Nat}
    (h : skipClass bytes pos = some r) : r.1.length < bytes.length := by
  induction bytes generalizing pos with
  | nil => simp [skipClass] at h
  | cons b rest ih =>
    simp only [skipClass] at h
    split at h
    · cases h; simp
    · have := ih h; simp only [List.length_cons]; omega

theorem fieldType_length {bytes : List UInt8} {pos : Nat} {r : ValueKind × List UInt8 × Nat}
    (h : fieldType bytes pos = .ok r) : r.2.1.length < bytes.length := by
  induction bytes generalizing pos r with
  | nil => simp [fieldType] at h
  | cons b rest ih =>
    simp only [fieldType] at h
    split at h
    · cases hf : fieldType rest (pos + 1) with
      | error e => rw [hf] at h; simp [Except.map] at h
      | ok v =>
        rw [hf] at h
        cases h
        have := ih hf
        simp only [List.length_cons]
        exact Nat.lt_succ_of_lt this
    · split at h
      · split at h
        · rename_i hs
          cases h
          have := skipClass_length hs
          simp only [List.length_cons]
          simp at this
          omega
        · cases h
      · split at h
        · cases h; simp
        · cases h

/-- Field types up to the closing parenthesis, which is taken too. -/
def arguments (bytes : List UInt8) (pos : Nat) :
    Except DescriptorError (List ValueKind × List UInt8 × Nat) :=
  match hb : bytes with
  | [] => .error .noClosing
  | b :: rest =>
    if b = byteOf ')' then .ok ([], rest, pos + 1)
    else
      match h : fieldType bytes pos with
      | .error e => .error e
      | .ok (k, rest', pos') =>
        have : rest'.length < rest.length + 1 := by
          have := fieldType_length h
          simpa [hb] using this
        (arguments rest' pos').map fun (ks, r) => (k :: ks, r)
termination_by bytes.length

/-- The result type, which may be `V`. -/
def result (bytes : List UInt8) (pos : Nat) :
    Except DescriptorError (ValueKind × List UInt8 × Nat) :=
  match bytes with
  | b :: rest => if b = byteOf 'V' then .ok (.void, rest, pos + 1) else fieldType bytes pos
  | [] => fieldType bytes pos

/-- Read a descriptor; instance methods get a receiver in front. -/
def parseBytes (bytes : List UInt8) (isStatic : Bool) : Except DescriptorError Signature :=
  match bytes with
  | [] => .error .noOpening
  | b :: rest =>
    if b ≠ byteOf '(' then .error .noOpening
    else
      match arguments rest 1 with
      | .error e => .error e
      | .ok (args, rest', pos) =>
        match result rest' pos with
        | .error e => .error e
        | .ok (ret, rest'', _) =>
          if rest''.isEmpty then .ok ⟨if isStatic then args else .object :: args, ret⟩
          else .error .trailing

def parse (desc : String) (isStatic : Bool) : Except Failure Signature :=
  match parseBytes desc.toUTF8.toList isStatic with
  | .ok s => .ok s
  | .error e => .error (.refused (e.message desc))

end Descriptor

end RiscvJit
