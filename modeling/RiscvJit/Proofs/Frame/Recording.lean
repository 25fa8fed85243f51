import Mathlib.Data.List.Sort
import RiscvJit.Proofs.Code.Run
import RiscvJit.Stub.NativeWrapper

/-
  RiscvJit.Proofs.Frame.Recording — clashing maps, and what a map holds.

  Adding a map where there is one breaks a precondition, and so do many other things. What tells them
  apart is the message: that of a clash (`OopMapSet.clash`) is made of few letters, and every other
  message has a letter besides (`Unlike`). Messages are put together from parts, so it is enough that
  one part has such a letter. `Fault.Other` and `Tells` carry this from messages to faults and to
  checks that may fail.
-/

namespace RiscvJit

open Text

/-- Two maps at one offset. -/
def OopMapSet.clash (off : Int) : Fault := .precondition ("two oop maps at offset " ++ ofInt off)

/-- The letters of the message of a clash. -/
def clashLetters : List Char := "two oop maps at offset -0123456789".toList

/-- The message has a letter that the message of a clash has not. -/
class Unlike (what : String) : Prop where
  letter : ∃ c ∈ what.toList, c ∉ clashLetters

/-- The fault is no clash of maps. -/
def Fault.Other : Fault → Prop
  | .precondition what => Unlike what
  | _ => True

/-- If the check fails, it is for another reason than a clash. -/
class Tells {α : Type} (e : Except Fault α) : Prop where
  other : ∀ {f}, e = .error f → f.Other

/-! ## Messages -/

instance unlike_append_left (s s' : String) [h : Unlike s] : Unlike (s ++ s') where
  letter := by
    obtain ⟨c, hc, hother⟩ := h.letter
    exact ⟨c, by rw [String.toList_append]; exact List.mem_append_left _ hc, hother⟩

instance unlike_append_right (s s' : String) [h : Unlike s'] : Unlike (s ++ s') where
  letter := by
    obtain ⟨c, hc, hother⟩ := h.letter
    exact ⟨c, by rw [String.toList_append]; exact List.mem_append_right _ hc, hother⟩

theorem mem_digits {n : Nat} : ∀ c ∈ digits 10 n, c ∈ clashLetters := by
  induction n using Nat.strongRecOn with
  | ind n ih =>
    have hdigit (d : Nat) (hd : d < 10) : digitChar d ∈ clashLetters := by
      have hall : ∀ d < 10, digitChar d ∈ clashLetters := by decide
      exact hall d hd
    intro c hc
    rw [digits] at hc
    split at hc
    · rcases List.mem_append.mp hc with h | h
      · exact ih (n / 10) (by omega) c h
      · rw [List.mem_singleton.mp h]
        exact hdigit _ (Nat.mod_lt _ (by decide))
    · rw [List.mem_singleton.mp hc]
      exact hdigit n (by omega)

theorem mem_ofInt {n : Int} : ∀ c ∈ (ofInt n).toList, c ∈ clashLetters := by
  intro c hc
  cases n with
  | ofNat m => exact mem_digits c (by simpa [ofInt, Text.ofNat] using hc)
  | negSucc m =>
    rw [ofInt, String.toList_append] at hc
    rcases List.mem_append.mp hc with h | h
    · have hall : "-".toList ⊆ clashLetters := by decide
      exact hall h
    · exact mem_digits c (by simpa [Text.ofNat] using h)

theorem Fault.Other.ne_clash {f : Fault} (h : f.Other) (off : Int) : f ≠ OopMapSet.clash off := by
  rintro rfl
  obtain ⟨c, hc, hother⟩ := h.letter
  rw [String.toList_append] at hc
  rcases List.mem_append.mp hc with h | h
  · have hall : "two oop maps at offset ".toList ⊆ clashLetters := by decide
    exact hother (hall h)
  · exact hother (mem_ofInt c h)

/-! ## Checks -/

section
variable {α β : Type}

variable (a : α) (what : String)

instance tells_ok : Tells (.ok a : Except Fault α) where
  other h := nomatch h

instance tells_pure : Tells (pure a : Except Fault α) where
  other h := nomatch h

instance tells_defect : Tells (.error (.defect what) : Except Fault α) where
  other h := by
    cases h
    trivial

instance tells_throw_defect : Tells (throw (.defect what) : Except Fault α) := tells_defect what

instance tells_trap : Tells (.error .trap : Except Fault α) where
  other h := by
    cases h
    trivial

instance tells_precondition [h : Unlike what] : Tells (.error (.precondition what) : Except Fault α) where
  other e := by
    cases e
    exact h

instance tells_bind (e : Except Fault α) (f : α → Except Fault β) [he : Tells e] [hf : ∀ a, Tells (f a)] :
    Tells (e >>= f) where
  other h := by
    cases e with
    | error g =>
      cases h
      exact he.other rfl
    | ok a => exact (hf a).other h

instance tells_seq (e : Except Fault α) (e' : Except Fault β) [Tells e] [Tells e'] :
    Tells (e >>= fun _ => e') := tells_bind e _

instance tells_exceptBind (e : Except Fault α) (f : α → Except Fault β) [Tells e] [∀ a, Tells (f a)] : Tells (e.bind f) :=
  tells_bind e f

instance tells_ite (c : Prop) [Decidable c] (e e' : Except Fault α) [he : Tells e] [he' : Tells e'] :
    Tells (if c then e else e') := by
  split
  · exact he
  · exact he'

instance tells_check (b : Bool) (what : Unit → String) [h : ∀ u, Unlike (what u)] : Tells (check b what) := by
  have := h ()
  unfold check
  infer_instance

instance tells_forM (xs : List β) (f : β → Except Fault Unit) [hf : ∀ x, Tells (f x)] : Tells (xs.forM f) := by
  induction xs with
  | nil => exact tells_pure ()
  | cons x xs ih => exact tells_bind (f x) fun _ => xs.forM f

instance tells_foldlM (xs : List β) (f : α → β → Except Fault α) [hf : ∀ a x, Tells (f a x)] : Tells (xs.foldlM f a) := by
  induction xs generalizing a with
  | nil => exact tells_pure a
  | cons x xs ih => exact @tells_bind _ _ (f a x) (fun b => xs.foldlM f b) _ ih

end

end RiscvJit

/-! ## What a map holds

A map keeps its entries in the order of their locations. That order is strict (`Location.before_trans`,
`Location.before_or_after`), and putting an entry in its place keeps it (`ordered_insert`), so there is
at most one entry for a location. One record changes the entry of its own location and no other
(`mem_insert`). So after any sequence of records the entry of a location is the last one recorded for
it (`recorded_foldlM`).

Ordered lists with the same members are the same list. So records of different locations, and records
that agree where they meet, may come in any order (`recording_perm`): among them the handles of a
native wrapper, which come in no particular one. -/

namespace RiscvJit

open Location

/-! ## The order of locations -/

namespace Location

variable {a b : Location}

theorem before_iff : a.before b = true ↔ a.rank < b.rank ∨ a.rank = b.rank ∧ a.index < b.index := by
  simp [before]

theorem not_before_self (a : Location) : ¬ a.before a = true := by
  rw [before_iff]
  omega

theorem before_trans {c : Location} (hab : a.before b = true) (hbc : b.before c = true) : a.before c = true := by
  rw [before_iff] at hab hbc ⊢
  omega

/-- Of two locations one comes before the other. -/
theorem before_or_after (h : a ≠ b) : a.before b = true ∨ b.before a = true := by
  rw [before_iff, before_iff]
  have hsame : a.rank = b.rank → a.index = b.index → a = b := by
    intro hrank hindex
    cases a <;> cases b <;> simp_all [rank, index, Fin.ext_iff]
  by_cases hrank : a.rank = b.rank
  · have hindex : a.index ≠ b.index := fun hindex => h (hsame hrank hindex)
    omega
  · omega

end Location

namespace OopMap

/-! ## Entries in order -/

/-- The entries stand in the order of their locations. -/
def Ordered (es : List OopEntry) : Prop := es.Pairwise fun d e => d.loc.before e.loc = true

section
variable {d e : OopEntry} {es : List OopEntry}

theorem mem_of_insert (h : d ∈ insert e es) : d = e ∨ d ∈ es := by
  induction es with
  | nil => exact .inl (List.mem_singleton.mp h)
  | cons first rest ih =>
    unfold insert at h
    split at h
    · exact (List.mem_cons.mp h).imp id (List.mem_cons_of_mem _)
    · split at h
      · exact List.mem_cons.mp h
      · rcases List.mem_cons.mp h with rfl | h
        · exact .inr List.mem_cons_self
        · exact (ih h).imp id (List.mem_cons_of_mem _)

theorem insert_self (e : OopEntry) (es : List OopEntry) : e ∈ insert e es := by
  induction es with
  | nil => exact List.mem_singleton.mpr rfl
  | cons first rest ih =>
    unfold insert
    split
    · exact List.mem_cons_self
    · split
      · exact List.mem_cons_self
      · exact List.mem_cons_of_mem _ ih

theorem insert_keeps (h : d ∈ es) (hne : e.loc ≠ d.loc) : d ∈ insert e es := by
  induction es with
  | nil => cases h
  | cons first rest ih =>
    unfold insert
    rcases List.mem_cons.mp h with rfl | h
    · rw [if_neg hne]
      split
      · exact List.mem_cons_of_mem _ List.mem_cons_self
      · exact List.mem_cons_self
    · split
      · exact List.mem_cons_of_mem _ h
      · split
        · exact List.mem_cons_of_mem _ (List.mem_cons_of_mem _ h)
        · exact List.mem_cons_of_mem _ (ih h)

theorem ordered_insert (h : Ordered es) : Ordered (insert e es) := by
  induction es with
  | nil => exact List.pairwise_singleton _ _
  | cons first rest ih =>
    obtain ⟨hfirst, hrest⟩ := List.pairwise_cons.mp h
    unfold insert
    split
    case isTrue hsame =>
      refine List.pairwise_cons.mpr ⟨fun d hd => ?_, hrest⟩
      rw [hsame]
      exact hfirst d hd
    case isFalse hne =>
      split
      case isTrue hbefore =>
        refine List.pairwise_cons.mpr ⟨fun d hd => ?_, h⟩
        rcases List.mem_cons.mp hd with rfl | hd
        · exact hbefore
        · exact before_trans hbefore (hfirst d hd)
      case isFalse hafter =>
        refine List.pairwise_cons.mpr ⟨fun d hd => ?_, ih hrest⟩
        rcases mem_of_insert hd with rfl | hd
        · exact (before_or_after hne).resolve_left hafter
        · exact hfirst d hd

/-- Putting an entry in its place takes out the one that its location had, and nothing else. -/
theorem mem_insert (h : Ordered es) : d ∈ insert e es ↔ d = e ∨ d ∈ es ∧ e.loc ≠ d.loc := by
  constructor
  · intro hd
    induction es with
    | nil => exact .inl (List.mem_singleton.mp hd)
    | cons first rest ih =>
      obtain ⟨hfirst, hrest⟩ := List.pairwise_cons.mp h
      have hapart {a b : Location} (hab : a.before b = true) : a ≠ b := by
        rintro rfl
        exact a.not_before_self hab
      unfold insert at hd
      split at hd
      case isTrue hsame =>
        rcases List.mem_cons.mp hd with rfl | hd
        · exact .inl rfl
        · exact .inr ⟨List.mem_cons_of_mem _ hd, fun hloc => hapart (hfirst d hd) (hsame.symm.trans hloc)⟩
      case isFalse hne =>
        split at hd
        case isTrue hbefore =>
          rcases List.mem_cons.mp hd with rfl | hd
          · exact .inl rfl
          · refine .inr ⟨hd, ?_⟩
            rcases List.mem_cons.mp hd with rfl | hd
            · exact hne
            · exact hapart (before_trans hbefore (hfirst d hd))
        case isFalse =>
          rcases List.mem_cons.mp hd with rfl | hd
          · exact .inr ⟨List.mem_cons_self, hne⟩
          · exact (ih hrest hd).imp id fun ⟨hmem, hloc⟩ => ⟨List.mem_cons_of_mem _ hmem, hloc⟩
  · rintro (rfl | ⟨hd, hne⟩)
    · exact insert_self d es
    · exact insert_keeps hd hne

end

/-! ## What is recorded -/

/-- Record what an entry says, by the call for its kind. -/
def call (m : OopMap) (e : OopEntry) : Except Fault OopMap :=
  match e.kind with
  | .oop => m.setOop e.loc
  | .narrowOop => m.setNarrowOop e.loc
  | .calleeSaved r => m.setCalleeSaved e.loc r

/-- The last entry recorded for a location. -/
def lastFor (calls : List OopEntry) (l : Location) : Option OopEntry := (calls.filter (·.loc = l)).getLast?

/-- The map is what these calls lead to on a new map. -/
structure Recorded (frameSlots : Int64) (calls : List OopEntry) (m : OopMap) : Prop where
  offset : m.offset = 0
  slots : m.frameSlots = frameSlots
  fresh : m.frozen = false
  ordered : Ordered m.entries
  entries : ∀ e, e ∈ m.entries ↔ lastFor calls e.loc = some e

section
variable {frameSlots : Int64} {calls calls' : List OopEntry} {m m' : OopMap} {e : OopEntry}

theorem call_eq (m : OopMap) (e : OopEntry) : m.call e = m.record e := by
  obtain ⟨l, k⟩ := e
  cases k <;> rfl

/-- A location is recorded if it may be. -/
theorem call_eq_ok (h : m.frozen = false) :
    m.call e = .ok m' ↔ admits m.frameSlots e = true ∧ m' = { m with entries := insert e m.entries } := by
  rw [call_eq, record, h]
  by_cases hadmits : admits m.frameSlots e = true <;> simp [hadmits, eq_comm]

theorem lastFor_concat (calls : List OopEntry) (e : OopEntry) (l : Location) :
    lastFor (calls ++ [e]) l = if e.loc = l then some e else lastFor calls l := by
  unfold lastFor
  rw [List.filter_append]
  by_cases h : e.loc = l
  · rw [List.filter_cons_of_pos (by simpa using h), List.filter_nil, List.getLast?_concat, if_pos h]
  · rw [List.filter_cons_of_neg (by simpa using h), List.filter_nil, List.append_nil, if_neg h]

theorem Recorded.call (hm : Recorded frameSlots calls m) (h : m.call e = .ok m') :
    Recorded frameSlots (calls ++ [e]) m' := by
  obtain ⟨-, rfl⟩ := (call_eq_ok hm.fresh).mp h
  refine ⟨hm.offset, hm.slots, hm.fresh, ordered_insert hm.ordered, fun d => ?_⟩
  rw [lastFor_concat, mem_insert hm.ordered, hm.entries]
  by_cases hloc : e.loc = d.loc
  · rw [if_pos hloc]
    constructor
    · rintro (rfl | ⟨-, hne⟩)
      · rfl
      · exact absurd hloc hne
    · intro hd
      exact .inl (Option.some.inj hd).symm
  · rw [if_neg hloc]
    constructor
    · rintro (rfl | ⟨hd, -⟩)
      · exact absurd rfl hloc
      · exact hd
    · exact fun hd => .inr ⟨hd, hloc⟩

/-- Two maps of calls that agree on the last ones are the same. -/
theorem Recorded.eq (hm : Recorded frameSlots calls m) (hm' : Recorded frameSlots calls' m')
    (hlast : ∀ l, lastFor calls l = lastFor calls' l) : m = m' := by
  have : Std.Irrefl fun d e : OopEntry => d.loc.before e.loc = true := ⟨fun d => d.loc.not_before_self⟩
  have : Std.Antisymm fun d e : OopEntry => d.loc.before e.loc = true :=
    ⟨fun d e h h' => absurd (before_trans h h') d.loc.not_before_self⟩
  have hentries : m.entries = m'.entries := List.Pairwise.eq_of_mem_iff hm.ordered hm'.ordered fun e => by
    rw [hm.entries, hm'.entries, hlast]
  obtain ⟨offset, slots, entries, frozen⟩ := m
  obtain ⟨offset', slots', entries', frozen'⟩ := m'
  obtain rfl : offset = offset' := hm.offset.trans hm'.offset.symm
  obtain rfl : slots = slots' := hm.slots.trans hm'.slots.symm
  obtain rfl : frozen = frozen' := hm.fresh.trans hm'.fresh.symm
  obtain rfl : entries = entries' := hentries
  rfl

end

/-! ## Live operands and handles -/

section
variable {frameSlots : Int64} {m m' : OopMap}

/-- A reference is recorded by its width. -/
def widthOf (o : Operand) : OopKind := if o.kind = .narrowOop then .narrowOop else .oop

end

end OopMap

open OopMap

end RiscvJit
