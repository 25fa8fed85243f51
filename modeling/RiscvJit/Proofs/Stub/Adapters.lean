import RiscvJit.Proofs.Code.Naming
import RiscvJit.Proofs.Stub.Sequences

/-
  RiscvJit.Proofs.Stub.Adapters — what signatures with one fingerprint have in common.

  A fingerprint folds the kinds below int into int and arrays into objects, leaves out the result
  and writes the rest as letters. Letters tell kinds apart (`letters_inj`), so one fingerprint
  means one list of folded arguments (`fingerprint_eq`). The calling conventions do not see the
  folding: folded arguments have the places of the arguments themselves (`locate_foldKind`).
-/

namespace RiscvJit

/-! ## Letters -/

namespace ValueKind

theorem letter?_inj {k k' : ValueKind} {c : Char} (h : k.letter? = some c) (h' : k'.letter? = some c) : k = k' := by
  cases k <;> cases h <;> cases k' <;> first | rfl | simp [letter?] at h'

/-- The letters of kinds are none of the signs that a signature is written with. -/
theorem letter?_ne {k : ValueKind} {c : Char} (h : k.letter? = some c) : c ≠ '(' ∧ c ≠ '>' := by
  cases k <;> cases h <;> decide

end ValueKind

namespace Signature

open ValueKind

variable {k : ValueKind} {ks ks' : List ValueKind} {cs : List Char} {e : Fault}

theorem letters_cons_eq_ok :
    letters (k :: ks) = .ok cs ↔ ∃ c cs', k.letter? = some c ∧ letters ks = .ok cs' ∧ cs = c :: cs' := by
  rw [letters, letter]
  cases k.letter? with
  | none => simp
  | some c => cases letters ks <;> simp [Except.map, eq_comm]

theorem map_eq_error {ε α β : Type} {x : Except ε α} {f : α → β} {e : ε} : x.map f = .error e ↔ x = .error e := by
  cases x <;> simp [Except.map]

theorem letters_inj (h : letters ks = .ok cs) (h' : letters ks' = .ok cs) : ks = ks' := by
  induction ks generalizing ks' cs with
  | nil =>
    cases h
    cases ks' with
    | nil => rfl
    | cons k' ks' =>
      obtain ⟨_, _, _, _, h⟩ := letters_cons_eq_ok.1 h'
      cases h
  | cons k ks ih =>
    obtain ⟨c, cs, hc, hcs, rfl⟩ := letters_cons_eq_ok.1 h
    cases ks' with
    | nil => cases h'
    | cons k' ks' =>
      obtain ⟨c', cs', hc', hcs', h⟩ := letters_cons_eq_ok.1 h'
      cases h
      rw [letter?_inj hc hc', ih hcs hcs']

theorem letter?_of_mem_letters (h : letters ks = .ok cs) {c : Char} (hc : c ∈ cs) :
    ∃ k : ValueKind, k.letter? = some c := by
  induction ks generalizing cs with
  | nil => cases h; cases hc
  | cons k ks ih =>
    obtain ⟨d, ds, hd, hds, rfl⟩ := letters_cons_eq_ok.1 h
    rcases List.mem_cons.mp hc with rfl | hc
    · exact ⟨k, hd⟩
    · exact ih hds hc

/-! ## Folded kinds -/

@[simp] theorem isDoubleWord_foldKind (k : ValueKind) : (foldKind k).isDoubleWord = k.isDoubleWord := by
  cases k <;> rfl

@[simp] theorem isFloat_foldKind (k : ValueKind) : (foldKind k).isFloat = k.isFloat := by
  cases k <;> rfl

@[simp] theorem isIntLike_foldKind (k : ValueKind) : (foldKind k).isIntLike = k.isIntLike := by
  cases k <;> rfl

@[simp] theorem foldKind_eq_void (k : ValueKind) : foldKind k = .void ↔ k = .void := by
  cases k <;> simp [foldKind, isSubword]

@[simp] theorem foldKind_eq_float (k : ValueKind) : foldKind k = .float ↔ k = .float := by
  cases k <;> simp [foldKind, isSubword]

theorem letter_foldKind (k : ValueKind) : (foldKind k).letter = k.letter ∨
    ∃ c c', (foldKind k).letter = .ok c ∧ k.letter = .ok c' := by
  cases k <;> simp [foldKind, isSubword, letter, letter?]

theorem letters_foldKind_eq_error : letters (ks.map foldKind) = .error e ↔ letters ks = .error e := by
  induction ks with
  | nil => rfl
  | cons k ks ih =>
    rw [List.map_cons, letters, letters]
    rcases letter_foldKind k with h | ⟨c, c', h, h'⟩
    · rw [h]
      cases k.letter with
      | error e' => rfl
      | ok c => simp only [map_eq_error, ih]
    · rw [h, h']
      simp only [map_eq_error, ih]

theorem letters_foldKind_eq_ok (h : letters (ks.map foldKind) = .ok cs) : ∃ cs', letters ks = .ok cs' := by
  cases hks : letters ks with
  | error e => rw [letters_foldKind_eq_error.2 hks] at h; cases h
  | ok cs' => exact ⟨cs', rfl⟩

variable {s : Signature}

/-- One fingerprint is either one list of folded kinds or one kind without a letter. -/
theorem fingerprint_eq {s' : Signature} (h : s.fingerprint = s'.fingerprint) :
    (∃ e, letters s.args = .error e ∧ letters s'.args = .error e) ∨
      (s.args.map foldKind = s'.args.map foldKind ∧
        (∃ cs, letters s.args = .ok cs) ∧ ∃ cs, letters s'.args = .ok cs) := by
  unfold fingerprint at h
  cases hs : letters (s.args.map foldKind) with
  | error e =>
    rw [hs] at h
    exact .inl ⟨e, letters_foldKind_eq_error.1 hs, letters_foldKind_eq_error.1 (map_eq_error.1 h.symm)⟩
  | ok cs =>
    cases hs' : letters (s'.args.map foldKind) with
    | error e => rw [hs, hs'] at h; cases h
    | ok cs' =>
      rw [hs, hs'] at h
      have hcs : cs = cs' := String.ofList_inj.mp (Except.ok.inj h)
      exact .inr ⟨letters_inj hs (hcs ▸ hs'), letters_foldKind_eq_ok hs, letters_foldKind_eq_ok hs'⟩

theorem text_eq_error (h : letters s.args = .error e) : s.text = .error e := by
  rw [text, h]

theorem text_eq_ok {t : String} : s.text = .ok t ↔
    ∃ cs r, letters s.args = .ok cs ∧ s.ret.letter? = some r ∧ t = String.ofList ('(' :: cs ++ [')', r]) := by
  unfold text letter
  cases letters s.args with
  | error e => simp
  | ok cs => cases s.ret.letter? <;> simp [Except.map, eq_comm]

/-- The letters of arguments are what follows the last bracket. -/
theorem takeWhile_letters (h : letters ks = .ok cs) (n : List Char) :
    (n ++ '(' :: cs).reverse.takeWhile (fun c => decide (c ≠ '(')) = cs.reverse := by
  have hplain : ∀ c ∈ cs.reverse, decide (c ≠ '(') = true := by
    intro c hc
    obtain ⟨k, hk⟩ := letter?_of_mem_letters h (List.mem_reverse.mp hc)
    exact decide_eq_true (letter?_ne hk).1
  rw [List.reverse_append, List.reverse_cons, List.append_assoc, List.takeWhile_append_of_pos hplain]
  simp

/-- What stands before the text of a signature can be told from the text of both. -/
theorem append_text_inj {s' : Signature} {t t' n n' : String} (hs : s.text = .ok t) (hs' : s'.text = .ok t')
    (h : n ++ t = n' ++ t') : n = n' ∧ s = s' := by
  obtain ⟨cs, r, hcs, hr, rfl⟩ := text_eq_ok.1 hs
  obtain ⟨cs', r', hcs', hr', rfl⟩ := text_eq_ok.1 hs'
  have hlist : (n.toList ++ '(' :: cs) ++ [')', r] = (n'.toList ++ '(' :: cs') ++ [')', r'] := by
    simpa using congrArg String.toList h
  obtain ⟨hfront, hlast⟩ := List.append_inj' hlist rfl
  -- The name may hold brackets too, so the letters are read from the end.
  have hcs_eq : cs = cs' := by
    rw [← List.reverse_inj, ← takeWhile_letters hcs n.toList, hfront, takeWhile_letters hcs' n'.toList]
  subst hcs_eq
  have hname : n = n' := String.toList_inj.mp (List.append_cancel_right hfront)
  have hargs : s.args = s'.args := letters_inj hcs hcs'
  have hret : s.ret = s'.ret := letter?_inj hr (by simpa [hr'] using hlast.symm)
  cases s
  cases s'
  simp_all

theorem expandKind_foldKind (k : ValueKind) : expandKind (foldKind k) = (expandKind k).map foldKind := by
  simp only [expandKind, isDoubleWord_foldKind]
  split <;> rfl

theorem expanded_foldKind (s : Signature) :
    s.expanded.map foldKind = (s.args.map foldKind).flatMap expandKind := by
  simp only [expanded, List.map_flatMap, List.flatMap_map, expandKind_foldKind]

end Signature

open Signature

/-! ## Places -/

namespace Convention

variable (c : Convention)

/-- The rules on neighbours only ask which kinds are void, take two slots or are never folded. -/
theorem admits_foldKind (i : Nat) (prev : Option ValueKind) (k : ValueKind) (next : Option ValueKind) :
    c.admits i (prev.map foldKind) (foldKind k) (next.map foldKind) = c.admits i prev k next := by
  have hprev : ((prev.map foldKind).map ValueKind.isDoubleWord) = prev.map ValueKind.isDoubleWord := by
    cases prev <;> simp
  have hnext : next.map foldKind = some .void ↔ next = some .void := by
    cases next <;> simp
  cases k <;> simp [admits, foldKind, ValueKind.isSubword, ValueKind.isDoubleWord, hprev, hnext]

theorem assignFrom_foldKind (i : Nat) (prev : Option ValueKind) (s : Supply) (kinds : List ValueKind) :
    c.assignFrom i (prev.map foldKind) s (kinds.map foldKind) = c.assignFrom i prev s kinds := by
  induction kinds generalizing i prev s with
  | nil => rfl
  | cons k kinds ih =>
    rw [List.map_cons, assignFrom, assignFrom, List.head?_map, admits_foldKind]
    simp only [foldKind_eq_void, assign, isFloat_foldKind]
    cases c.admits i prev k kinds.head? with
    | error e => rfl
    | ok u => simp only; rw [← ih (i + 1) (some k)]; rfl

/-- Kinds that are folded together have the same places. -/
theorem locate_foldKind (kinds : List ValueKind) : c.locate (kinds.map foldKind) = c.locate kinds :=
  c.assignFrom_foldKind 0 none c.supply kinds

end Convention

end RiscvJit

/-! ## Adapters

Kinds that are folded together are moved by the same instructions (`adaptersBody_foldKind`). The
full signature is only part of the name of the code, and the code does not depend on its name
(`nameFree_adaptersBody`). So signatures with one fingerprint have adapters that are `Alike`
(`adapters_alike`), unless a result has no letter: then there is no name, and no code. -/

namespace RiscvJit

open Signature
open Reg (sp t0 t1 thread method esp)
open Assembler
open Stop

/-! ## Instructions -/

namespace Stub

open Asm

/-- The argument with its kind folded. -/
def AdapterArg.folded (a : AdapterArg) : AdapterArg := { a with kind := foldKind a.kind }

variable (t : Target) (base : UInt64) (name : String) (kinds : List ValueKind) (locs : List Location)

theorem adapterArgs_foldKind : adapterArgs (kinds.map foldKind) locs = (adapterArgs kinds locs).map
    AdapterArg.folded := by
  induction kinds generalizing locs with
  | nil => rfl
  | cons k kinds ih =>
    cases locs with
    | nil => rfl
    | cons l locs =>
      simp only [List.map_cons, adapterArgs, foldKind_eq_void, ih, List.length_map, interpreterArgOffset,
        isDoubleWord_foldKind]
      split <;> rfl

theorem loadArg_folded (a : AdapterArg) : loadArg a.folded = loadArg a := by
  simp only [loadArg, AdapterArg.folded, interpreterLoadOp, isIntLike_foldKind, foldKind_eq_float]

theorem storeArg_folded (extra : Int64) (a : AdapterArg) : storeArg extra a.folded = storeArg extra a := by
  simp only [storeArg, AdapterArg.folded, foldKind_eq_float]

theorem forM_folded {f : AdapterArg → Asm Unit} (hf : ∀ a, f a.folded = f a) (args : List AdapterArg) :
    (args.map AdapterArg.folded).forM f = args.forM f := by
  induction args with
  | nil => rfl
  | cons a args ih =>
    show (f a.folded >>= fun _ => (args.map AdapterArg.folded).forM f) = _
    rw [hf, ih]
    rfl

/-- Kinds that are folded together are moved by the same instructions. -/
theorem adaptersBody_foldKind (stackSlots : Nat) :
    adaptersBody (kinds.map foldKind) locs stackSlots = adaptersBody kinds locs stackSlots := by
  simp only [adaptersBody, i2c, c2i, adapterArgs_foldKind, forM_folded loadArg_folded,
    forM_folded (storeArg_folded _), List.length_map]

/-! ## Names -/

theorem nameFree_adaptersBody (stackSlots : Nat) : NameFree (adaptersBody kinds locs stackSlots) := by
  have hcomposed {x : Asm Unit} (hx : Composed false x) : NameFree x := hx.has closed_nameFree
  exact (nameFree_markEntry _).bind fun _ => (hcomposed inferInstance).bind fun _ => nameFree_newLabel.bind fun _ =>
    (nameFree_markEntry _).bind fun _ => (hcomposed inferInstance).bind fun _ =>
      (nameFree_markEntry _).bind fun _ => hcomposed inferInstance

/-! ## Adapters -/

/-- The outcomes of two generations are the same but for the names of the code. -/
inductive Alike : Except Stop CodeBlob → Except Stop CodeBlob → Prop where
  | code {b b' : CodeBlob} (code : b.code = b'.code) (entries : b.entries = b'.entries) : Alike (.ok b) (.ok b')
  | bailout (unit unit' reason : String) :
    Alike (.error (.failure (.bailout unit reason))) (.error (.failure (.bailout unit' reason)))
  | fault (f : Fault) : Alike (.error (.fault f)) (.error (.fault f))

theorem finish_alike (a : Assembler) (n : String) (frameSize : Int64) :
    Alike (ofFailure (a.finish frameSize)) (ofFailure ((a.named n).finish frameSize)) := by
  unfold finish
  rw [show (a.named n).buf.failed = a.buf.failed from rfl]
  split
  · exact .bailout ..
  · exact .code rfl rfl

/-- The adapters of expanded kinds, under a name. -/
def assembled (t : Target) (base : UInt64) (name : String) (kinds : List ValueKind) : Except Stop CodeBlob := do
  let asm ← ofFault (start name base t.opts.stubBufferSize)
  let (locs, slots) ← ofFault (Convention.managed.locate kinds)
  let (_, asm) ← ofFault (adaptersBody kinds locs slots t asm)
  ofFailure (asm.finish 0)

theorem adapters_eq (sig : Signature) (base : UInt64) :
    adapters t sig base = ofFault sig.text >>= fun text => assembled t base ("adapters" ++ text) sig.expanded :=
  rfl

theorem assembled_foldKind : assembled t base name (kinds.map foldKind) = assembled t base name kinds := by
  simp only [assembled, Convention.locate_foldKind, adaptersBody_foldKind]

theorem start_named (name' : String) (base : UInt64) (capacity : Int64) :
    start name' base capacity = (start name base capacity).map (·.named name') := by
  unfold start CodeBuffer.create
  split <;> rfl

theorem assembled_alike (name' : String) (kinds : List ValueKind) :
    Alike (assembled t base name kinds) (assembled t base name' kinds) := by
  unfold assembled
  rw [start_named name name']
  cases start name base t.opts.stubBufferSize with
  | error e => exact .fault e
  | ok a =>
    cases Convention.managed.locate kinds with
    | error e => exact .fault e
    | ok p =>
      show Alike (ofFault (adaptersBody kinds p.1 p.2 t a) >>= _)
        (ofFault (adaptersBody kinds p.1 p.2 t (a.named name')) >>= _)
      rw [nameFree_adaptersBody kinds p.1 p.2 t a name']
      cases adaptersBody kinds p.1 p.2 t a with
      | error e => exact .fault e
      | ok q => exact finish_alike q.2 name' 0

/-- Signatures with one fingerprint have the same adapters, when their results have letters. -/
theorem adapters_alike {sig sig' : Signature} (h : sig.fingerprint = sig'.fingerprint) (hret : sig.ret.letter?.isSome)
    (hret' : sig'.ret.letter?.isSome) : Alike (adapters t sig base) (adapters t sig' base) := by
  rw [adapters_eq, adapters_eq]
  -- A kind without a letter stops both before there is any code.
  rcases fingerprint_eq h with ⟨e, hargs, hargs'⟩ | ⟨hfold, ⟨cs, hargs⟩, cs', hargs'⟩
  · rw [text_eq_error hargs, text_eq_error hargs']
    exact .fault e
  · obtain ⟨r, hr⟩ := Option.isSome_iff_exists.mp hret
    obtain ⟨r', hr'⟩ := Option.isSome_iff_exists.mp hret'
    rw [text_eq_ok.2 ⟨cs, r, hargs, hr, rfl⟩, text_eq_ok.2 ⟨cs', r', hargs', hr', rfl⟩]
    show Alike (assembled t base _ sig.expanded) (assembled t base _ sig'.expanded)
    rw [← assembled_foldKind, ← assembled_foldKind t base _ sig'.expanded, expanded_foldKind, expanded_foldKind, hfold]
    exact assembled_alike t base _ _ _

/-- There are only adapters of signatures whose result has a letter. -/
theorem letter_of_adapters {t : Target} {sig : Signature} {base : UInt64} {blob : CodeBlob}
    (h : adapters t sig base = .ok blob) : sig.ret.letter?.isSome := by
  rw [adapters_eq] at h
  cases htext : sig.text with
  | error e => rw [htext] at h; cases h
  | ok text =>
    obtain ⟨cs, r, -, hr, -⟩ := text_eq_ok.1 htext
    rw [hr, Option.isSome_some]

end Stub

end RiscvJit
