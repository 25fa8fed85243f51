import RiscvJit.Call.Descriptor

/-
  RiscvJit.Proofs.Call.Grammar — which byte strings are descriptors.

  The grammar is told apart from the reader. A field type that is no array is a letter or a class
  name (`Element`), brackets in front make an array of it (`FieldType`), and a descriptor has field
  types between parentheses and then its result (`Describes`).

  The reader takes one field type at a time from the head of the bytes and goes on behind it. Each
  of its parts takes exactly what the grammar says, and leaves the rest (`skipClass_eq_some`,
  `fieldType_eq_ok`, `arguments_eq_ok`, `result_eq_ok`). Nothing is known about the rest, so a class
  name may hold parentheses, and no part looks further than it has to. Together: the reader accepts
  the descriptors, with the kinds of their field types, and refuses everything else
  (`descriptors_are_read_exactly`).
-/

namespace RiscvJit

namespace Descriptor

/-! ## The grammar -/

/-- The letters of field types that are neither classes nor arrays. -/
def letters : List (Char × ValueKind) :=
  [('B', .byte), ('C', .char), ('D', .double), ('F', .float), ('I', .int), ('J', .long), ('S', .short), ('Z', .boolean)]

/-- A field type that is no array, and the kind of its values. -/
inductive Element : List UInt8 → ValueKind → Prop
  | letter {c : Char} {k : ValueKind} (h : (c, k) ∈ letters) : Element [byteOf c] k
  | named {name : List UInt8} (h : byteOf ';' ∉ name) : Element (byteOf 'L' :: (name ++ [byteOf ';'])) .object

/-- A field type, and the kind of its values. -/
inductive FieldType : List UInt8 → ValueKind → Prop
  | element {bytes : List UInt8} {k : ValueKind} (h : Element bytes k) : FieldType bytes k
  | array {bytes : List UInt8} {k : ValueKind} (more : Nat) (h : Element bytes k) :
      FieldType (List.replicate (more + 1) (byteOf '[') ++ bytes) .array

/-- Field types one after the other, and their kinds in order. -/
inductive FieldTypes : List UInt8 → List ValueKind → Prop
  | nil : FieldTypes [] []
  | cons {first rest : List UInt8} {k : ValueKind} {ks : List ValueKind} (h : FieldType first k)
    (hs : FieldTypes rest ks) :
      FieldTypes (first ++ rest) (k :: ks)

/-- What may stand for the result. -/
inductive ResultType : List UInt8 → ValueKind → Prop
  | void : ResultType [byteOf 'V'] .void
  | field {bytes : List UInt8} {k : ValueKind} (h : FieldType bytes k) : ResultType bytes k

/-- A descriptor of arguments and a result of these kinds. -/
inductive Describes : List UInt8 → List ValueKind → ValueKind → Prop
  | mk {fields last : List UInt8} {ks : List ValueKind} {ret : ValueKind} (hs : FieldTypes fields ks)
    (h : ResultType last ret) :
      Describes (byteOf '(' :: (fields ++ byteOf ')' :: last)) ks ret

/-! ## One field type -/

section
variable {bytes rest : List UInt8} {pos pos' : Nat} {k : ValueKind} {b : UInt8}

theorem byteOf_ofNat (b : UInt8) : byteOf (Char.ofNat b.toNat) = b := by
  have hb : b.toNat < 256 := b.toNat_lt
  have hvalid : b.toNat.isValidChar := .inl (by omega)
  have hcode : (Char.ofNat b.toNat).toNat = b.toNat := by
    rw [Char.ofNat, dif_pos hvalid]
    rfl
  rw [byteOf, hcode, UInt8.ofNat_toNat]

theorem primitive?_eq_some : primitive? b = some k ↔ ∃ c, (c, k) ∈ letters ∧ b = byteOf c := by
  constructor
  · intro h
    refine ⟨Char.ofNat b.toNat, ?_, (byteOf_ofNat b).symm⟩
    unfold primitive? at h
    split at h
    case h_9 => cases h
    all_goals
      cases h
      simp_all [letters]
  · rintro ⟨c, hc, rfl⟩
    have hall : ∀ p ∈ letters, primitive? (byteOf p.1) = some p.2 := by decide
    exact hall (c, k) hc

theorem ne_of_letter {c : Char} (h : (c, k) ∈ letters) : ∀ d ∈ ['[', 'L', ')', 'V'], byteOf c ≠ byteOf d := by
  have hall : ∀ p ∈ letters, ['[', 'L', ')', 'V'].all (fun d => byteOf p.1 ≠ byteOf d) = true := by decide
  simpa using hall (c, k) h

/-- A class name is skipped up to its first semicolon. -/
theorem skipClass_eq_some : skipClass bytes pos = some (rest, pos') ↔
    ∃ name, byteOf ';' ∉ name ∧ bytes = name ++ byteOf ';' :: rest ∧ pos' = pos + name.length + 1 := by
  induction bytes generalizing pos with
  | nil => simp [skipClass]
  | cons b bytes ih =>
    by_cases hb : b = byteOf ';'
    · subst hb
      rw [skipClass, if_pos rfl]
      constructor
      · intro h
        cases h
        exact ⟨[], List.not_mem_nil, rfl, rfl⟩
      · rintro ⟨name, hname, hbytes, rfl⟩
        cases name with
        | nil => cases hbytes; rfl
        | cons d name =>
          cases hbytes
          exact absurd List.mem_cons_self hname
    · rw [skipClass, if_neg hb, ih]
      constructor
      · rintro ⟨name, hname, rfl, rfl⟩
        refine ⟨b :: name, ?_, rfl, by simp only [List.length_cons]; omega⟩
        rintro (_ | ⟨_, hmem⟩)
        · exact hb rfl
        · exact hname hmem
      · rintro ⟨name, hname, hbytes, rfl⟩
        cases name with
        | nil =>
          cases hbytes
          exact absurd rfl hb
        | cons d name =>
          cases hbytes
          exact ⟨name, fun h => hname (List.mem_cons_of_mem _ h), rfl, by simp only [List.length_cons]; omega⟩

/-- One more bracket makes an array of a field type, also of an array. -/
theorem FieldType.bracket (h : FieldType bytes k) : FieldType (byteOf '[' :: bytes) .array := by
  cases h with
  | element h => exact .array 0 h
  | array more h => exact .array (more + 1) h

theorem fieldType_cons (b : UInt8) (rest : List UInt8) (pos : Nat) : fieldType (b :: rest) pos =
    if b = byteOf '[' then (fieldType rest (pos + 1)).map fun (_, rest', pos') => (.array, rest', pos')
    else if b = byteOf 'L' then
      match skipClass rest (pos + 1) with
      | some (rest', pos') => .ok (.object, rest', pos')
      | none => .error (.unterminatedClass pos)
    else match primitive? b with
      | some k => .ok (k, rest, pos + 1)
      | none => .error (.unexpectedByte b pos) := rfl

theorem fieldType_element (h : Element bytes k) (rest : List UInt8) (pos : Nat) :
    fieldType (bytes ++ rest) pos = .ok (k, rest, pos + bytes.length) := by
  cases h with
  | @letter c _ h =>
    have hbracket : byteOf c ≠ byteOf '[' := ne_of_letter h _ (by decide)
    have hclass : byteOf c ≠ byteOf 'L' := ne_of_letter h _ (by decide)
    show fieldType (byteOf c :: rest) pos = _
    rw [fieldType_cons, if_neg hbracket, if_neg hclass, primitive?_eq_some.2 ⟨c, h, rfl⟩]
    rfl
  | @named name h =>
    have hskip : skipClass (name ++ byteOf ';' :: rest) (pos + 1) = some (rest, pos + 1 + name.length + 1) :=
      skipClass_eq_some.2 ⟨name, h, rfl, rfl⟩
    rw [List.cons_append, List.append_assoc, fieldType, if_neg (by decide), if_pos rfl]
    show (match skipClass (name ++ byteOf ';' :: rest) (pos + 1) with
      | some (rest', pos') => _
      | none => _) = _
    rw [hskip]
    simp only [List.length_cons, List.length_append, List.length_nil]
    congr 3
    omega

theorem fieldType_array (h : Element bytes k) (rest : List UInt8) (more pos : Nat) :
    fieldType (List.replicate (more + 1) (byteOf '[') ++ bytes ++ rest) pos = .ok (.array, rest,
    pos + (more + 1) + bytes.length) := by
  induction more generalizing pos with
  | zero =>
    show fieldType (byteOf '[' :: (bytes ++ rest)) pos = _
    rw [fieldType_cons, if_pos rfl, fieldType_element h]
    rfl
  | succ more ih =>
    show fieldType (byteOf '[' :: (List.replicate (more + 1) (byteOf '[') ++ bytes ++ rest)) pos = _
    rw [fieldType_cons, if_pos rfl, ih, show pos + 1 + (more + 1) = pos + (more + 1 + 1) by omega]
    rfl

/-- The head of the bytes is read as a field type when it is one, and nothing more is taken. -/
theorem fieldType_eq_ok : fieldType bytes pos = .ok (k, rest, pos') ↔
    ∃ part, FieldType part k ∧ bytes = part ++ rest ∧ pos' = pos + part.length := by
  constructor
  · intro h
    induction bytes generalizing pos k with
    | nil => cases h
    | cons b bytes ih =>
      by_cases hbracket : b = byteOf '['
      · subst hbracket
        rw [fieldType_cons, if_pos rfl] at h
        cases hfield : fieldType bytes (pos + 1) with
        | error e => rw [hfield] at h; cases h
        | ok r =>
          rw [hfield] at h
          cases h
          obtain ⟨part, hpart, rfl, hpos⟩ := ih hfield
          exact ⟨_, hpart.bracket, rfl, by rw [hpos, List.length_cons]; omega⟩
      by_cases hclass : b = byteOf 'L'
      · subst hclass
        rw [fieldType_cons, if_neg hbracket, if_pos rfl] at h
        cases hskip : skipClass bytes (pos + 1) with
        | none => rw [hskip] at h; cases h
        | some r =>
          obtain ⟨after, pos1⟩ := r
          rw [hskip] at h
          cases h
          obtain ⟨name, hname, rfl, rfl⟩ := skipClass_eq_some.1 hskip
          exact ⟨_, .element (.named hname), by simp, by simp only [List.length_cons, List.length_append, List.length_nil]; omega⟩
      · rw [fieldType_cons, if_neg hbracket, if_neg hclass] at h
        cases hletter : primitive? b with
        | none => rw [hletter] at h; cases h
        | some k' =>
          rw [hletter] at h
          cases h
          obtain ⟨c, hc, rfl⟩ := primitive?_eq_some.1 hletter
          exact ⟨[byteOf c], .element (.letter hc), rfl, rfl⟩
  · rintro ⟨part, hpart, rfl, rfl⟩
    cases hpart with
    | element h => exact fieldType_element h rest pos
    | array more h =>
      rw [fieldType_array h, List.length_append, List.length_replicate, Nat.add_assoc]

/-- A field type starts with a byte that neither ends the arguments nor stands for no result. -/
theorem FieldType.starts (h : FieldType bytes k) : ∃ b tail, bytes = b :: tail ∧ b ≠ byteOf ')' ∧ b ≠ byteOf 'V' := by
  cases h with
  | element h =>
    cases h with
    | letter h => exact ⟨_, [], rfl, ne_of_letter h _ (by decide), ne_of_letter h _ (by decide)⟩
    | named h => exact ⟨_, _, rfl, by decide, by decide⟩
  | array more h => exact ⟨byteOf '[', List.replicate more (byteOf '[') ++ _, rfl, by decide, by decide⟩

end

/-! ## Descriptors -/

section
variable {bytes rest : List UInt8} {pos pos' : Nat} {k ret : ValueKind} {ks : List ValueKind}

theorem arguments_nil (pos : Nat) : arguments [] pos = .error .noClosing := by
  rw [arguments]

theorem arguments_byte (b : UInt8) (bytes : List UInt8) (pos : Nat) : arguments (b :: bytes) pos =
    if b = byteOf ')' then .ok ([], bytes, pos + 1)
    else (fieldType (b :: bytes) pos).bind fun r => (arguments r.2.1 r.2.2).map fun (ks, q) => (r.1 :: ks, q) := by
  rw [arguments]
  split
  · rfl
  · split
    case _ herror => simp only [herror, Except.bind]
    case _ hok => simp only [hok, Except.bind]

theorem arguments_cons {b : UInt8} (hb : b ≠ byteOf ')') (h : fieldType (b :: bytes) pos = .ok (k, rest, pos')) :
    arguments (b :: bytes) pos = (arguments rest pos').map fun (ks, r) => (k :: ks, r) := by
  rw [arguments_byte, if_neg hb, h]
  rfl

theorem arguments_eq_ok : arguments bytes pos = .ok (ks, rest, pos') ↔
    ∃ fields, FieldTypes fields ks ∧ bytes = fields ++ byteOf ')' :: rest ∧ pos' = pos + fields.length + 1 := by
  constructor
  · intro h
    -- each field type leaves fewer bytes
    induction hn : bytes.length using Nat.strongRecOn generalizing bytes pos ks with
    | ind n ih =>
      cases bytes with
      | nil =>
        rw [arguments_nil] at h
        cases h
      | cons b tail =>
        by_cases hb : b = byteOf ')'
        · subst hb
          rw [arguments_byte, if_pos rfl] at h
          cases h
          exact ⟨[], .nil, rfl, rfl⟩
        cases hfield : fieldType (b :: tail) pos with
        | error e =>
          rw [arguments_byte, if_neg hb, hfield] at h
          cases h
        | ok r =>
          obtain ⟨k, after, pos1⟩ := r
          rw [arguments_cons hb hfield] at h
          cases hargs : arguments after pos1 with
          | error e =>
            rw [hargs] at h
            cases h
          | ok r =>
            obtain ⟨ks', rest', pos2⟩ := r
            rw [hargs] at h
            cases h
            obtain ⟨first, hfirst, hbytes, rfl⟩ := fieldType_eq_ok.1 hfield
            obtain ⟨fields, hfields, rfl, rfl⟩ := ih _ (hn ▸ fieldType_length hfield) hargs rfl
            refine ⟨first ++ fields, .cons hfirst hfields, ?_, ?_⟩
            · rw [hbytes, List.append_assoc]
            · rw [List.length_append]
              omega
  · rintro ⟨fields, hfields, rfl, rfl⟩
    induction hfields generalizing pos with
    | nil =>
      rw [List.nil_append, arguments_byte, if_pos rfl]
      rfl
    | @cons first fields k ks hfirst hfields ih =>
      have hfield : fieldType (first ++ (fields ++ byteOf ')' :: rest)) pos = .ok (k, fields ++
        byteOf ')' :: rest, pos + first.length) :=
        fieldType_eq_ok.2 ⟨first, hfirst, rfl, rfl⟩
      obtain ⟨b, tail, rfl, hb, -⟩ := hfirst.starts
      rw [List.cons_append] at hfield
      rw [List.append_assoc, List.cons_append, arguments_cons hb hfield, ih, List.length_append, Nat.add_assoc pos]
      rfl

theorem result_eq_ok : result bytes pos = .ok (ret, rest, pos') ↔
    ∃ last, ResultType last ret ∧ bytes = last ++ rest ∧ pos' = pos + last.length := by
  have hfield : fieldType bytes pos = .ok (ret, rest, pos') → ∃ last, ResultType last ret ∧
    bytes = last ++ rest ∧ pos' = pos + last.length := by
    intro h
    obtain ⟨last, hlast, hbytes, hpos⟩ := fieldType_eq_ok.1 h
    exact ⟨last, .field hlast, hbytes, hpos⟩
  constructor
  · intro h
    cases bytes with
    | nil => exact hfield h
    | cons b tail =>
      by_cases hb : b = byteOf 'V'
      · subst hb
        rw [result, if_pos rfl] at h
        cases h
        exact ⟨[byteOf 'V'], .void, rfl, rfl⟩
      · rw [result, if_neg hb] at h
        exact hfield h
  · rintro ⟨last, hlast, rfl, rfl⟩
    cases hlast with
    | void => rfl
    | field h =>
      obtain ⟨b, tail, rfl, -, hb⟩ := h.starts
      show (if b = byteOf 'V' then _ else fieldType (b :: (tail ++ rest)) pos) = _
      rw [if_neg hb]
      exact fieldType_eq_ok.2 ⟨b :: tail, h, rfl, rfl⟩

/-- What is read is a descriptor, and every descriptor is read: its arguments, after a receiver unless the method is static,
and its result. -/
theorem parseBytes_eq_ok {isStatic : Bool} {sig : Signature} : parseBytes bytes isStatic = .ok sig ↔
    ∃ ks, Describes bytes ks sig.ret ∧ sig.args = (if isStatic then ks else .object :: ks) := by
  constructor
  · intro h
    cases bytes with
    | nil => cases h
    | cons b tail =>
      by_cases hb : b = byteOf '('
      case neg =>
        rw [parseBytes, if_pos hb] at h
        cases h
      subst hb
      rw [parseBytes, if_neg (fun h => h rfl)] at h
      cases hargs : arguments tail 1 with
      | error e =>
        rw [hargs] at h
        cases h
      | ok r =>
        obtain ⟨ks, rest, pos⟩ := r
        simp only [hargs] at h
        cases hresult : result rest pos with
        | error e =>
          simp only [hresult] at h
          cases h
        | ok r =>
          obtain ⟨ret, rest', pos'⟩ := r
          simp only [hresult] at h
          by_cases hend : rest'.isEmpty = true
          case neg =>
            rw [if_neg hend] at h
            cases h
          rw [if_pos hend] at h
          cases h
          obtain ⟨fields, hfields, rfl, -⟩ := arguments_eq_ok.1 hargs
          obtain ⟨last, hlast, rfl, -⟩ := result_eq_ok.1 hresult
          rw [List.isEmpty_iff.mp hend, List.append_nil]
          exact ⟨ks, .mk hfields hlast, rfl⟩
  · rintro ⟨ks, hdesc, hsig⟩
    obtain ⟨args, ret⟩ := sig
    obtain rfl : args = _ := hsig
    cases hdesc with
    | @mk fields last ks ret hfields hlast =>
      have hargs : arguments (fields ++ byteOf ')' :: last) 1 = .ok (ks, last, 1 + fields.length + 1) :=
        arguments_eq_ok.2 ⟨fields, hfields, rfl, rfl⟩
      have hresult : result last (1 + fields.length + 1) = .ok (ret, [], 1 + fields.length + 1 + last.length) :=
        result_eq_ok.2 ⟨last, hlast, (List.append_nil last).symm, rfl⟩
      rw [parseBytes, if_neg (fun h => h rfl), hargs]
      simp only [hresult, List.isEmpty_nil, if_true]

end

/-! ## Refusals -/

/-- Where an error points to a byte, that byte is there. -/
def Points (bytes : List UInt8) : DescriptorError → Prop
  | .unterminatedClass pos => bytes[pos]? = some (byteOf 'L')
  | .unexpectedByte b pos => bytes[pos]? = some b
  | _ => True

section
variable {bytes front : List UInt8} {e : DescriptorError}

theorem fieldType_points (h : fieldType bytes front.length = .error e) : Points (front ++ bytes) e := by
  induction bytes generalizing front with
  | nil =>
    cases h
    trivial
  | cons b bytes ih =>
    by_cases hbracket : b = byteOf '['
    · rw [fieldType_cons, if_pos hbracket] at h
      cases hfield : fieldType bytes (front.length + 1) with
      | ok r =>
        rw [hfield] at h
        cases h
      | error e' =>
        rw [hfield] at h
        cases h
        have hrest := @ih (front ++ [b]) (by rwa [List.length_append])
        rwa [List.append_assoc] at hrest
    by_cases hclass : b = byteOf 'L'
    · rw [fieldType_cons, if_neg hbracket, if_pos hclass] at h
      split at h
      · cases h
      · cases h
        simp [Points, hclass]
    · rw [fieldType_cons, if_neg hbracket, if_neg hclass] at h
      split at h
      · cases h
      · cases h
        simp [Points]

theorem arguments_points {pos : Nat} (hpos : pos = front.length) (h : arguments bytes pos = .error e) :
    Points (front ++ bytes) e := by
  induction hn : bytes.length using Nat.strongRecOn generalizing bytes pos front with
  | ind n ih =>
    cases bytes with
    | nil =>
      rw [arguments_nil] at h
      cases h
      trivial
    | cons b tail =>
      by_cases hb : b = byteOf ')'
      · rw [arguments_byte, if_pos hb] at h
        cases h
      cases hfield : fieldType (b :: tail) pos with
      | error e' =>
        rw [arguments_byte, if_neg hb, hfield] at h
        cases h
        exact fieldType_points (hpos ▸ hfield)
      | ok r =>
        obtain ⟨k, after, pos1⟩ := r
        rw [arguments_cons hb hfield] at h
        cases hargs : arguments after pos1 with
        | ok r =>
          rw [hargs] at h
          cases h
        | error e' =>
          rw [hargs] at h
          cases h
          have hlt := fieldType_length hfield
          obtain ⟨first, -, hbytes, rfl⟩ := fieldType_eq_ok.1 hfield
          have hfront : pos + first.length = (front ++ first).length := by rw [hpos, List.length_append]
          have hrest := ih _ (hn ▸ hlt) hfront hargs rfl
          rwa [List.append_assoc, ← hbytes] at hrest

theorem parseBytes_points {isStatic : Bool} (h : parseBytes bytes isStatic = .error e) : Points bytes e := by
  unfold parseBytes at h
  split at h
  · cases h
    trivial
  case _ b tail =>
    split at h
    · cases h
      trivial
    · split at h
      case _ hargs =>
        cases h
        exact arguments_points (show 1 = [b].length from rfl) hargs
      case _ ks rest pos hargs =>
        obtain ⟨fields, -, rfl, hpos⟩ := arguments_eq_ok.1 hargs
        split at h
        case _ hresult =>
          cases h
          have hfront : pos = (b :: (fields ++ [byteOf ')'])).length := by
            simp only [List.length_cons, List.length_append, List.length_nil, hpos]
            omega
          have hfield : fieldType rest (b :: (fields ++ [byteOf ')'])).length = .error e := by
            rw [← hfront]
            unfold result at hresult
            split at hresult
            · split at hresult
              · cases hresult
              · exact hresult
            · exact hresult
          have hrest := fieldType_points hfield
          simpa using hrest
        · split at h
          · cases h
          · cases h
            trivial

end

end Descriptor

open Descriptor

/-- For every byte string and either kind of method: the reader succeeds exactly on descriptors, with the kinds of the field types
in order, after a receiver unless the method is static, and the kind of the result. Every other string is refused, by an
error that points at nothing outside of it; a text is read as its bytes. -/
theorem descriptors_are_read_exactly (bytes : List UInt8) (isStatic : Bool) :
    (∀ sig, parseBytes bytes isStatic = .ok sig ↔
      ∃ ks ret, Describes bytes ks ret ∧ sig = ⟨if isStatic then ks else .object :: ks, ret⟩) ∧
    ((¬ ∃ ks ret, Describes bytes ks ret) → ∃ e, parseBytes bytes isStatic = .error e ∧ Points bytes e) ∧
    ∀ desc : String, desc.toUTF8.toList = bytes →
      parse desc isStatic = (parseBytes bytes isStatic).mapError fun e => .refused (e.message desc) := by
  have hread (sig : Signature) : parseBytes bytes isStatic = .ok sig ↔
      ∃ ks ret, Describes bytes ks ret ∧ sig = ⟨if isStatic then ks else .object :: ks, ret⟩ := by
    rw [parseBytes_eq_ok]
    constructor
    · rintro ⟨ks, hdesc, hargs⟩
      exact ⟨ks, sig.ret, hdesc, by rw [← hargs]⟩
    · rintro ⟨ks, ret, hdesc, rfl⟩
      exact ⟨ks, hdesc, rfl⟩
  refine ⟨hread, fun hnone => ?_, ?_⟩
  · cases h : parseBytes bytes isStatic with
    | error e => exact ⟨e, rfl, parseBytes_points h⟩
    | ok sig =>
      obtain ⟨ks, ret, hdesc, -⟩ := (hread sig).mp h
      exact absurd ⟨ks, ret, hdesc⟩ hnone
  · rintro desc rfl
    unfold parse
    cases parseBytes desc.toUTF8.toList isStatic <;> rfl

/-- The name of a class may hold anything but a semicolon, also what ends the arguments. -/
theorem brackets_in_class_names : parseBytes ("(L);[[La[;I)V".toList.map byteOf) true = .ok
    ⟨[.object, .array, .int], .void⟩ := by
  have hfields : FieldTypes ("L);[[La[;I".toList.map byteOf) [.object, .array, .int] :=
    .cons (.element (.named (show byteOf ';' ∉ [byteOf ')'] by decide)))
      (.cons (.array 1 (.named (show byteOf ';' ∉ "a[".toList.map byteOf by decide)))
        (.cons (.element (.letter (c := 'I') (k := .int) (by decide))) .nil))
  exact ((descriptors_are_read_exactly _ true).1 _).mpr ⟨_, _, .mk hfields .void, rfl⟩

end RiscvJit
