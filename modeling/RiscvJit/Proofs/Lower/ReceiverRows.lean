import Mathlib.Data.List.Induction
import RiscvJit.Proofs.Lower.SubtypeChecks

/-
  RiscvJit.Proofs.Lower.ReceiverRows — what a profile entry holds after the checks that count in it.

  An entry has flags, a number of rows and a counter (`ReceiverProfile`). A type is counted in the row that holds it, else in
  the first empty row, which it takes, else in the counter (`ReceiverProfile.count`). So after any checks the rows hold the
  first types that passed, in the order in which they were first seen: a type that was counted before is found before a row
  is taken for it, and rows are taken from the front (`ReceiverProfile.Tells`, kept by `Tells.note`).

  The code for a profile entry in memory does exactly this to it (`lowers_profileNull`, `lowers_profileReceiver`).
-/

namespace RiscvJit

open Reg (zr t0 t1)
open Lower
open Asm (ld branch addi sd li)
open Ram

/-! ## Profiles -/

/-- A row of a profile. No type is at address zero, so a row that holds zero is empty. -/
structure ReceiverRow where
  klass : UInt64
  count : UInt64
  deriving DecidableEq, Repr

/-- What a profile entry holds. -/
structure ReceiverProfile where
  flags : UInt64
  /-- Counts the types that found no row. -/
  others : UInt64
  rows : Nat → ReceiverRow

/-- What a check finds. -/
inductive Finding where
  | null
  | passed (klass : UInt64)
  | failed
  deriving DecidableEq, Repr

/-- The type that passed. -/
def Finding.passing? : Finding → Option UInt64
  | .passed k => some k
  | _ => none

/-- The types that passed, one after the other. -/
def passing (fs : List Finding) : List UInt64 := fs.filterMap Finding.passing?

/-- The types that have rows: the first that passed, in the order in which they were first seen. -/
def shown (size : Nat) (fs : List Finding) : List UInt64 := (passing fs).eraseDups.take size

namespace ReceiverProfile

/-- The first row that holds a type. -/
def rowOf? (P : ReceiverProfile) (size : Nat) (k : UInt64) : Option Nat :=
  (List.range size).find? fun n => (P.rows n).klass = k

def setRow (P : ReceiverProfile) (n : Nat) (r : ReceiverRow) : ReceiverProfile :=
  { P with rows := fun i => if i = n then r else P.rows i }

/-- A type is counted in its row, in an empty row or with the others. -/
def count (P : ReceiverProfile) (size : Nat) (k : UInt64) : ReceiverProfile :=
  match P.rowOf? size k with
  | some n => P.setRow n ⟨k, (P.rows n).count + 1⟩
  | none =>
    match P.rowOf? size 0 with
    | some n => P.setRow n ⟨k, 1⟩
    | none => { P with others := P.others + 1 }

/-- What a check does to its profile. -/
def note (P : ReceiverProfile) (size : Nat) : Finding → ReceiverProfile
  | .null => { P with flags := P.flags ||| 1 }
  | .passed k => P.count size k
  | .failed => P

/-- The profile holds what the checks found. Counters are words, which wrap around. -/
structure Tells (P : ReceiverProfile) (size : Nat) (fs : List Finding) : Prop where
  rows : ∀ n k, (shown size fs)[n]? = some k → P.rows n = ⟨k, UInt64.ofNat ((passing fs).count k)⟩
  empty : ∀ n, (shown size fs).length ≤ n → n < size → P.rows n = ⟨0, 0⟩
  others : P.others = UInt64.ofNat ((passing fs).countP fun k => k ∉ shown size fs)
  flags : P.flags = if .null ∈ fs then 1 else 0

end ReceiverProfile

/-! ## The order of first appearance -/

theorem eraseDups_concat (ks : List UInt64) (k : UInt64) :
    (ks ++ [k]).eraseDups = if k ∈ ks then ks.eraseDups else ks.eraseDups ++ [k] := by
  rw [List.eraseDups_append]
  by_cases h : k ∈ ks <;> simp [List.removeAll, List.eraseDups_cons, h]

theorem nodup_eraseDups (ks : List UInt64) : ks.eraseDups.Nodup := by
  induction ks using List.reverseRecOn with
  | nil => exact List.nodup_nil
  | append_singleton ks k ih =>
    rw [eraseDups_concat]
    split
    case isTrue => exact ih
    case isFalse h =>
      refine List.nodup_append.mpr ⟨ih, by simp, fun a ha b hb e => h ?_⟩
      rw [← List.mem_singleton.mp hb, ← e]
      exact List.mem_eraseDups.mp ha

theorem passing_concat (fs : List Finding) (f : Finding) : passing (fs ++ [f]) = passing fs ++ f.passing?.toList := by
  unfold passing
  rw [List.filterMap_append]
  cases f <;> rfl

section
variable {size n : Nat} {fs : List Finding} {k : UInt64}

theorem shown_of_silent {f : Finding} (h : f.passing? = none) : passing (fs ++ [f]) = passing fs ∧
    shown size (fs ++ [f]) = shown size fs := by
  have hpassing : passing (fs ++ [f]) = passing fs := by
    rw [passing_concat, h]
    exact List.append_nil _
  exact ⟨hpassing, by rw [shown, hpassing, shown]⟩

theorem length_shown_le : (shown size fs).length ≤ size := List.length_take_le ..

theorem shown_getElem_inj {i j : Nat} {k : UInt64} (hi : (shown size fs)[i]? = some k)
    (hj : (shown size fs)[j]? = some k) : i = j := by
  have hnodup : (shown size fs).Nodup := (nodup_eraseDups _).sublist (List.take_sublist ..)
  obtain ⟨hi', ei⟩ := List.getElem?_eq_some_iff.mp hi
  obtain ⟨hj', ej⟩ := List.getElem?_eq_some_iff.mp hj
  rcases Nat.lt_trichotomy i j with hlt | heq | hlt
  · exact absurd (ei.trans ej.symm) (List.pairwise_iff_getElem.mp hnodup i j hi' hj' hlt)
  · exact heq
  · exact absurd (ej.trans ei.symm) (List.pairwise_iff_getElem.mp hnodup j i hj' hi' hlt)

theorem mem_passing_of_shown (h : k ∈ shown size fs) : k ∈ passing fs := List.mem_eraseDups.mp (List.mem_of_mem_take h)

/-- A type that has no row while there are empty ones was not seen. -/
theorem mem_shown_of_room (h : (shown size fs).length < size) (hk : k ∈ passing fs) : k ∈ shown size fs := by
  have hall : shown size fs = (passing fs).eraseDups := by
    rw [shown, List.length_take] at h
    exact List.take_of_length_le (by omega)
  rw [hall]
  exact List.mem_eraseDups.mpr hk

/-- One more type that passed is shown if there is room for a new one. -/
theorem shown_passed : shown size (fs ++ [Finding.passed k]) =
    if k ∉ passing fs ∧ (shown size fs).length < size then shown size fs ++ [k] else shown size fs := by
  have hpassing : passing (fs ++ [Finding.passed k]) = passing fs ++ [k] := passing_concat ..
  unfold shown
  rw [hpassing, eraseDups_concat]
  by_cases hk : k ∈ passing fs
  · simp [hk]
  · rw [if_neg hk, List.take_append, List.length_take]
    by_cases hroom : (passing fs).eraseDups.length < size
    · have hlt : min size (passing fs).eraseDups.length < size := by omega
      rw [if_pos ⟨hk, hlt⟩]
      obtain ⟨d, hd⟩ : ∃ d, size - (passing fs).eraseDups.length = d + 1 :=
        ⟨size - (passing fs).eraseDups.length - 1, by omega⟩
      rw [hd, List.take_succ_cons, List.take_nil]
    · have hge : ¬ min size (passing fs).eraseDups.length < size := by omega
      rw [if_neg fun h => hge h.2, show size - (passing fs).eraseDups.length = 0 by omega]
      exact List.append_nil _

/-! ## What checks do to a profile -/

namespace ReceiverProfile

variable {P : ReceiverProfile}

theorem rowOf_eq_some : P.rowOf? size k = some n ↔ (P.rows n).klass = k ∧ n < size ∧ ∀ j < n, (P.rows j).klass ≠ k := by
  unfold rowOf?
  rw [List.find?_range_eq_some]
  simp

theorem rowOf_eq_none : P.rowOf? size k = none ↔ ∀ n < size, (P.rows n).klass ≠ k := by
  unfold rowOf?
  rw [List.find?_eq_none]
  simp

/-- A type is in a row exactly when it is shown, and there is an empty row exactly when fewer types are shown
than there are rows. -/
theorem Tells.row_of (h : P.Tells size fs) (hk : k ≠ 0) (hn : n < size) (hrow : (P.rows n).klass = k) :
    (shown size fs)[n]? = some k := by
  rcases Nat.lt_or_ge n (shown size fs).length with hlt | hge
  · have hget := List.getElem?_eq_getElem hlt
    rw [h.rows n _ hget] at hrow
    rw [hget]
    exact congrArg some hrow
  · rw [h.empty n hge hn] at hrow
    exact absurd hrow.symm hk

theorem count_passed (k' : UInt64) : (passing (fs ++ [Finding.passed k])).count k' = (passing fs).count
    k' + if k' = k then 1 else 0 := by
  rw [passing_concat, List.count_append]
  show _ + [k].count k' = _
  rw [List.count_singleton]
  by_cases e : k' = k
  · simp [e]
  · simp [e, Ne.symm e]

theorem Tells.flags_passed (h : P.Tells size fs) : P.flags = if .null ∈ fs ++ [Finding.passed k] then 1 else 0 := by
  rw [h.flags]
  simp

/-- A type that is in a row is counted there. -/
theorem Tells.counted (h : P.Tells size fs) (hk : k ≠ 0) (hn : n < size) (hrow : (P.rows n).klass = k) :
    (P.setRow n ⟨k, (P.rows n).count + 1⟩).Tells size (fs ++ [Finding.passed k]) := by
  have hget := h.row_of hk hn hrow
  have hmem : k ∈ shown size fs := List.mem_of_getElem? hget
  have hshown : shown size (fs ++ [Finding.passed k]) = shown size fs := by
    rw [shown_passed, if_neg fun hnew => hnew.1 (mem_passing_of_shown hmem)]
  refine ⟨fun i k' hi => ?_, fun i hi hlt => ?_, ?_, h.flags_passed⟩
  · rw [hshown] at hi
    rw [count_passed]
    by_cases e : i = n
    · subst e
      obtain rfl : k = k' := Option.some.inj (hget.symm.trans hi)
      simp only [setRow, if_true, h.rows i k hget, UInt64.ofNat_add]
      rfl
    · have hne : k' ≠ k := fun e' => e (shown_getElem_inj hi (e' ▸ hget))
      simp only [setRow, if_neg e, if_neg hne, h.rows i k' hi, Nat.add_zero]
  · rw [hshown] at hi
    have hlt' := (List.getElem?_eq_some_iff.mp hget).1
    simp only [setRow, if_neg (show i ≠ n by omega), h.empty i hi hlt]
  · show P.others = _
    rw [hshown, passing_concat, List.countP_append, h.others]
    simp [Finding.passing?, hmem]

/-- A type that is in no row takes the first empty one, the one behind those that are taken. -/
theorem Tells.claimed (h : P.Tells size fs) (hfs : ∀ k ∈ passing fs, k ≠ 0) (hunshown : k ∉ shown size fs)
    (hempty : P.rowOf? size 0 = some n) : (P.setRow n ⟨k, 1⟩).Tells size (fs ++ [Finding.passed k]) := by
  obtain ⟨hklass, hn, hfirst⟩ := rowOf_eq_some.mp hempty
  have hback : (shown size fs).length = n := by
    rcases Nat.lt_trichotomy n (shown size fs).length with hlt | heq | hgt
    · have hget := List.getElem?_eq_getElem hlt
      rw [h.rows n _ hget] at hklass
      exact absurd hklass (hfs _ (mem_passing_of_shown (List.mem_of_getElem? hget)))
    · exact heq.symm
    · exact absurd (by rw [h.empty _ (Nat.le_refl _) (by omega)]) (hfirst _ hgt)
  have hnew : k ∉ passing fs := fun hmem => hunshown (mem_shown_of_room (by omega) hmem)
  have hshown : shown size (fs ++ [Finding.passed k]) = shown size fs ++ [k] := by
    rw [shown_passed, if_pos ⟨hnew, by omega⟩]
  refine ⟨fun i k' hi => ?_, fun i hi hlt => ?_, ?_, h.flags_passed⟩
  · rw [hshown] at hi
    rw [count_passed]
    rcases Nat.lt_or_ge i (shown size fs).length with hlt | hge
    · rw [List.getElem?_append_left hlt] at hi
      have hne : k' ≠ k := fun e => hunshown (e ▸ List.mem_of_getElem? hi)
      simp only [setRow, if_neg (show i ≠ n by omega), if_neg hne, h.rows i k' hi, Nat.add_zero]
    · have hi' := (List.getElem?_eq_some_iff.mp hi).1
      rw [List.length_append, List.length_singleton] at hi'
      obtain rfl : i = n := by omega
      rw [List.getElem?_append_right hge, hback, Nat.sub_self] at hi
      obtain rfl : k = k' := Option.some.inj hi
      simp only [setRow, if_true, List.count_eq_zero_of_not_mem hnew]
      rfl
  · rw [hshown, List.length_append, List.length_singleton] at hi
    simp only [setRow, if_neg (show i ≠ n by omega), h.empty i (by omega) hlt]
  · show P.others = _
    have hsame : (passing fs).countP (fun k' => k' ∉ shown size fs) = (passing fs).countP fun k' =>
      k' ∉ shown size fs ++ [k] :=
      List.countP_congr fun k' hk' => by
        have hne : k' ≠ k := fun e => hnew (e ▸ hk')
        simp [hne]
    rw [hshown, passing_concat, List.countP_append, h.others, hsame]
    simp [Finding.passing?]

/-- When all rows are taken by others, a type is counted with the others. -/
theorem Tells.crowded (h : P.Tells size fs) (hunshown : k ∉ shown size fs) (hempty : P.rowOf? size 0 = none) :
    ({ P with others := P.others + 1 } : ReceiverProfile).Tells size (fs ++ [Finding.passed k]) := by
  have hfull : (shown size fs).length = size := by
    refine Nat.le_antisymm length_shown_le (Nat.not_lt.mp fun hlt => ?_)
    exact rowOf_eq_none.mp hempty _ hlt (by rw [h.empty _ (Nat.le_refl _) hlt])
  have hshown : shown size (fs ++ [Finding.passed k]) = shown size fs := by
    rw [shown_passed, if_neg fun hnew => by omega]
  refine ⟨fun i k' hi => ?_, by rw [hshown]; exact h.empty, ?_, h.flags_passed⟩
  · rw [hshown] at hi
    have hne : k' ≠ k := fun e => hunshown (e ▸ List.mem_of_getElem? hi)
    rw [count_passed, if_neg hne, Nat.add_zero]
    exact h.rows i k' hi
  · show P.others + 1 = _
    rw [hshown, passing_concat, List.countP_append, h.others, UInt64.ofNat_add]
    simp [Finding.passing?, hunshown]

/-- One more check, and the profile still tells. -/
theorem Tells.note (h : P.Tells size fs) (hfs : ∀ k ∈ passing fs, k ≠ 0) {f : Finding} (hf : f.passing? ≠ some 0) :
    (P.note size f).Tells size (fs ++ [f]) := by
  have silent {P' : ReceiverProfile} {f : Finding} (hf : f.passing? = none) (hrows : P'.rows = P.rows)
    (hothers : P'.others = P.others)
      (hflags : P'.flags = if .null ∈ fs ++ [f] then 1 else 0) : P'.Tells size (fs ++ [f]) := by
    obtain ⟨hpassing, hshown⟩ : passing (fs ++ [f]) = passing fs ∧ shown size (fs ++ [f]) = shown size fs :=
      shown_of_silent hf
    refine ⟨?_, ?_, ?_, hflags⟩
    · rw [hshown, hpassing, hrows]
      exact h.rows
    · rw [hshown, hrows]
      exact h.empty
    · rw [hshown, hpassing, hothers]
      exact h.others
  cases f with
  | null =>
    refine silent rfl rfl rfl ?_
    show P.flags ||| 1 = _
    rw [h.flags, if_pos (List.mem_append_right _ List.mem_cons_self)]
    by_cases hnull : Finding.null ∈ fs
    · rw [if_pos hnull]
      rfl
    · rw [if_neg hnull]
      rfl
  | failed => exact silent rfl rfl rfl (h.flags.trans (by simp))
  | passed k =>
    have hk : k ≠ 0 := fun e => hf (by rw [e]; rfl)
    show (P.count size k).Tells size _
    unfold ReceiverProfile.count
    cases hrow : P.rowOf? size k with
    | some n =>
      obtain ⟨hklass, hn, -⟩ := rowOf_eq_some.mp hrow
      exact h.counted hk hn hklass
    | none =>
      have hunshown : k ∉ shown size fs := by
        intro hmem
        obtain ⟨n, hget⟩ := List.getElem?_of_mem hmem
        have hlt := (List.getElem?_eq_some_iff.mp hget).1
        exact rowOf_eq_none.mp hrow n (Nat.lt_of_lt_of_le hlt length_shown_le) (by rw [h.rows n k hget])
      cases hempty : P.rowOf? size 0 with
      | some n => exact h.claimed hfs hunshown hempty
      | none => exact h.crowded hunshown hempty

/-- A profile that holds nothing tells of no checks. -/
theorem tells_nil (hrows : ∀ n < size, P.rows n = ⟨0, 0⟩) (hothers : P.others = 0) (hflags : P.flags = 0) :
    P.Tells size [] where
  rows n k h := by simp [shown, passing] at h
  empty n _ hn := hrows n hn
  others := hothers
  flags := hflags

end ReceiverProfile

end

/-! ## Profile entries in memory -/

namespace ProfileSite

variable (p : ProfileSite)

/-- The address is one of the entry: its flags, its counter and its rows. -/
def Covers : UInt64 → Prop := Spans p.mdp.toNat (16 + 16 * p.rows.toNatClampNeg)

/-- What memory holds at the entry. -/
def entry (mem : Ram) : ReceiverProfile where
  flags := mem.read (p.mdp + UInt64.ofNat 1) 1
  others := mem.read (p.mdp + UInt64.ofNat 8) 8
  rows n := if n < p.rows.toNatClampNeg then ⟨mem.read (p.mdp + UInt64.ofNat (16 + 16 * n)) 8,
  mem.read (p.mdp + UInt64.ofNat (24 + 16 * n)) 8⟩ else ⟨0, 0⟩

variable {p} {mem mem' : Ram} (hfits : p.mdp.toNat + 16 + 16 * p.rows.toNatClampNeg ≤ 2 ^ 64)
include hfits

theorem entry_congr (h : ∀ x, p.Covers x → mem' x = mem x) : p.entry mem' = p.entry mem := by
  have hread {off k : Nat} (hin : off + k ≤ 16 + 16 * p.rows.toNatClampNeg) : mem'.read
    (p.mdp + UInt64.ofNat off) k = mem.read (p.mdp + UInt64.ofNat off) k := by
    refine read_congr fun i hi => h _ ?_
    rw [off_off]
    show p.mdp.toNat ≤ _ ∧ _ < p.mdp.toNat + (16 + 16 * p.rows.toNatClampNeg)
    rw [toNat_off (by omega)]
    omega
  unfold entry
  rw [hread (by omega), hread (by omega)]
  congr 1
  funext n
  split
  case isTrue hn => rw [hread (by omega), hread (by omega)]
  case isFalse => rfl

variable {v : UInt64}

theorem entry_setFlags (hv : v.toNat < 2 ^ 8) :
    p.entry (mem.write (p.mdp + UInt64.ofNat 1) 1 v) = { p.entry mem with flags := v } := by
  have hself : (mem.write (p.mdp + UInt64.ofNat 1) 1 v).read (p.mdp + UInt64.ofNat 1) 1 = v :=
    UInt64.toNat_inj.mp ((read_write mem _ v (by decide)).trans (Nat.mod_eq_of_lt hv))
  unfold entry
  rw [hself, read_write_apart mem p.mdp v (by omega)]
  congr 1
  funext n
  by_cases hn : n < p.rows.toNatClampNeg
  · simp only [if_pos hn]
    rw [read_write_apart mem p.mdp v (by omega),
      read_write_apart mem p.mdp v (by omega)]
  · simp only [if_neg hn]

theorem entry_setOthers : p.entry (mem.write (p.mdp + UInt64.ofNat 8) 8 v) = { p.entry mem with others := v } := by
  unfold entry
  rw [read_write_eight, read_write_apart mem p.mdp v (by omega)]
  congr 1
  funext n
  by_cases hn : n < p.rows.toNatClampNeg
  · simp only [if_pos hn]
    rw [read_write_apart mem p.mdp v (by omega),
      read_write_apart mem p.mdp v (by omega)]
  · simp only [if_neg hn]

theorem entry_setKlass {n : Nat} (hn : n < p.rows.toNatClampNeg) :
    p.entry (mem.write (p.mdp + UInt64.ofNat (16 + 16 * n)) 8 v) = (p.entry mem).setRow n
    ⟨v, ((p.entry mem).rows n).count⟩ := by
  unfold entry ReceiverProfile.setRow
  rw [read_write_apart mem p.mdp v (by omega),
    read_write_apart mem p.mdp v (by omega)]
  congr 1
  funext i
  by_cases hi : i < p.rows.toNatClampNeg
  · by_cases e : i = n
    · subst e
      simp only [if_pos hi, if_true]
      rw [read_write_eight, read_write_apart mem p.mdp v (by omega)]
    · simp only [if_pos hi, if_neg e]
      rw [read_write_apart mem p.mdp v (by omega),
        read_write_apart mem p.mdp v (by omega)]
  · simp only [if_neg hi, if_neg (show i ≠ n by omega)]

theorem entry_setCount {n : Nat} (hn : n < p.rows.toNatClampNeg) :
    p.entry (mem.write (p.mdp + UInt64.ofNat (24 + 16 * n)) 8 v) = (p.entry mem).setRow n
    ⟨((p.entry mem).rows n).klass, v⟩ := by
  unfold entry ReceiverProfile.setRow
  rw [read_write_apart mem p.mdp v (by omega),
    read_write_apart mem p.mdp v (by omega)]
  congr 1
  funext i
  by_cases hi : i < p.rows.toNatClampNeg
  · by_cases e : i = n
    · subst e
      simp only [if_pos hi, if_true]
      rw [read_write_eight, read_write_apart mem p.mdp v (by omega)]
    · simp only [if_pos hi, if_neg e]
      rw [read_write_apart mem p.mdp v (by omega),
        read_write_apart mem p.mdp v (by omega)]
  · simp only [if_neg hi, if_neg (show i ≠ n by omega)]

end ProfileSite

/-! ## The code of profiles -/

/-- A profile entry is in memory that may be written. -/
structure Profiled (Free : UInt64 → Prop) (p : ProfileSite) : Prop where
  fits : p.mdp.toNat + 16 + 16 * p.rows.toNatClampNeg ≤ 2 ^ 64
  free : ∀ x, p.Covers x → Free x

/-- The code works on the entry: only scratch registers were changed, and memory is as given. -/
structure Counting (p : ProfileSite) (m : Machine) (mem : Ram) (m' : Machine) : Prop where
  base : m'.get t1 = p.mdp
  regs : ∀ r, r ∉ [t0, t1] → m'.get r = m.get r
  mem : m'.mem = mem

theorem toUInt64_rowOffset (n : Nat) : (rowOffset n).toUInt64 = UInt64.ofNat (16 + 16 * n) := by
  rw [rowOffset, Int64.toUInt64_add, Int64.toUInt64_mul, Int64.toUInt64_ofNat', Nat.mul_comm 16 n,
    UInt64.ofNat_add, UInt64.ofNat_mul]
  rfl

theorem toUInt64_rowCount (n : Nat) : (rowOffset n + 8).toUInt64 = UInt64.ofNat (24 + 16 * n) := by
  rw [Int64.toUInt64_add, toUInt64_rowOffset, show 24 + 16 * n = 16 + 16 * n + 8 by omega, UInt64.ofNat_add (16 + 16 * n)]
  rfl

namespace Counting

variable {p : ProfileSite} {m m1 m2 : Machine} {mem : Ram}

theorem put (h : Counting p m mem m1) {v : UInt64} (hput : Put t0 [] v m1 m2) : Counting p m mem m2 where
  base := (hput.other _).trans h.base
  regs r hr := (hput.other r (fun e => hr (by simp [e]))).trans (h.regs r hr)
  mem := hput.mem.trans h.mem

theorem withPc (h : Counting p m mem m1) (pc : UInt64) : Counting p m mem { m1 with pc } where
  base := (Machine.get_withPc ..).trans h.base
  regs r hr := (Machine.get_withPc ..).trans (h.regs r hr)
  mem := h.mem

/-- What was written is part of the entry. -/
theorem alters (h : Counting p m mem m1) (hmem : ∀ x, ¬ p.Covers x → mem x = m.mem x) : Alters [t0, t1] p.Covers m m1 :=
  ⟨h.regs, fun x hx => by rw [h.mem, hmem x hx]⟩

end Counting

theorem ProfileSite.write_apart {p : ProfileSite}
    (hfits : p.mdp.toNat + 16 + 16 * p.rows.toNatClampNeg ≤ 2 ^ 64) {off n : Nat}
    (hin : off + n ≤ 16 + 16 * p.rows.toNatClampNeg) (mem : Ram) (v : UInt64) {x : UInt64} (hx : ¬ p.Covers x) :
    mem.write (p.mdp + UInt64.ofNat off) n v x = mem x := by
  rcases Nat.eq_zero_or_pos n with rfl | hn
  · exact if_neg (Nat.not_lt_zero _)
  · have haddr : (p.mdp + UInt64.ofNat off).toNat = p.mdp.toNat + off := toNat_off (by omega)
    refine Ram.write_apart mem v (by omega) fun h => hx ?_
    unfold ProfileSite.Covers at *
    omega

namespace Site

variable {S : Site} {m m1 : Machine} {mem : Ram} {E : Exits} {Q : Unit → Machine → Prop} {p : ProfileSite}
  {updated : Label} {recv : Reg}

theorem does_profileLoad {off : Int64} {k : Nat} (h : Counting p m mem m1) (hoff : off.toUInt64 = UInt64.ofNat k)
    (hgo : ∀ m', Counting p m mem m' → m'.get t0 = mem.read (p.mdp + UInt64.ofNat k) 8 → Q () m') : S.Does
    (ld t0 t1 off) m1 E Q :=
  does_ld fun m' h' => hgo m' (h.put h') (by rw [h'.value, h.base, h.mem, hoff])

variable {n : Nat}

/-- Some bytes of the entry are written. -/
theorem does_profileStore {o : Op} {src : Reg} {off : Int64} {k : Nat} (hS : Profiled S.Free p) (h : Counting p m mem m1)
    (ho : o.info.format = .store ∧ o.width = some n) (hoff : off.toUInt64 = UInt64.ofNat k)
    (hin : k + n ≤ 16 + 16 * p.rows.toNatClampNeg)
    (hgo : ∀ m', Counting p m (mem.write (p.mdp + UInt64.ofNat k) n (m1.get src)) m' → Q () m') :
    S.Does (Asm.store o src t1 off) m1 E Q := by
  have hfits := hS.fits
  refine does_store ho.1 ho.2 (fun i hi => hS.free _ ?_) fun m2 h2 => hgo m2 ⟨?_, fun r hr => ?_, ?_⟩
  · rw [h.base, hoff, off_off]
    unfold ProfileSite.Covers Spans
    rw [toNat_off (by omega)]
    omega
  · exact (h2.rest _ List.not_mem_nil).trans h.base
  · exact (h2.rest _ List.not_mem_nil).trans (h.regs r hr)
  · rw [h2.mem, h.base, h.mem, hoff]

theorem lowers_profileNull (hS : Profiled S.Free p)
    (hgo : ∀ m', Alters [t0, t1] p.Covers m m' →
    p.entry m'.mem = (p.entry m.mem).note p.rows.toNatClampNeg .null → Q () m') :
    S.Lowers (profileNull p.mdp) m E Q := by
  have hfits := hS.fits
  have hlt : (m.mem.read (p.mdp + UInt64.ofNat 1) 1).toNat < 2 ^ 8 := m.mem.toNat_read_lt _ (by decide)
  have hflags : (m.mem.read (p.mdp + UInt64.ofNat 1) 1 ||| 1).toNat < 2 ^ 8 := by
    rw [UInt64.toNat_or]
    exact Nat.or_lt_two_pow hlt (by decide)
  unfold profileNull
  refine .bind (lowers_asm (does_li fun m1 h1 => ?_))
  have hc1 : Counting p m m.mem m1 :=
    ⟨by rw [h1.value, UInt64.toUInt64_toInt64], fun r hr => h1.other r (fun e => hr (by simp [e])), h1.mem⟩
  refine .bind (lowers_asm (does_load (o := .lbu) rfl rfl (by decide) fun m2 h2 => .bind (lowers_asm
    (does_ori (by decide) fun m3 h3 => lowers_asm ?_))))
  have hvalue : m3.get t0 = m.mem.read (p.mdp + UInt64.ofNat 1) 1 ||| 1 := by
    rw [h3.value, h2.value, hc1.base, hc1.mem]
    rfl
  refine does_profileStore (k := 1) (n := 1) hS ((hc1.put h2).put h3) ⟨rfl, rfl⟩ rfl (by omega) fun m' h => ?_
  rw [hvalue] at h
  refine hgo m' (h.alters fun x => ProfileSite.write_apart hfits (by omega) _ _) ?_
  rw [h.mem, ProfileSite.entry_setFlags hfits hflags]
  rfl

theorem Lowers.of_eq {α : Type} {Q : α → Machine → Prop} {x y : Lower α} (h : x = y) (hy : S.Lowers y m E Q) :
    S.Lowers x m E Q := h ▸ hy

theorem lowers_countInRow (hS : Profiled S.Free p) (hl : S.Binds updated) (hn : n < p.rows.toNatClampNeg)
    (hrecv : recv ∉ [t0, t1]) (h : Counting p m m.mem m1)
    (hhit : ((p.entry m.mem).rows n).klass = m.get recv → ∀ m', Alters [t0, t1] p.Covers m m' →
      p.entry m'.mem = (p.entry m.mem).setRow n ⟨m.get recv, ((p.entry m.mem).rows n).count + 1⟩ → E (.label updated) m')
    (hmiss : ((p.entry m.mem).rows n).klass ≠ m.get recv → ∀ m', Counting p m m.mem m' → Q () m') :
    S.Lowers (countInRow recv updated (rowOffset n)) m1 E Q := by
  have hfits := hS.fits
  have hrow : (p.entry m.mem).rows n =
      ⟨m.mem.read (p.mdp + UInt64.ofNat (16 + 16 * n)) 8, m.mem.read (p.mdp + UInt64.ofNat (24 + 16 * n)) 8⟩ := if_pos hn
  rw [hrow] at hhit hmiss
  unfold countInRow
  refine .bind (lowers_asm (does_newLabel fun next => ?_))
  refine .of_eq (y := ((do
        ld t0 t1 (rowOffset n)
        branch .bne t0 recv next
        ld t0 t1 (rowOffset n + 8)
        addi t0 t0 profileIncrement
        sd t0 t1 (rowOffset n + 8)
        Asm.j updated) : Lower Unit) >>= fun _ => (liftM (Asm.bind next) : Lower Unit))
    (by simp only [bind_assoc]) ?_
  refine .labelLast fun hnext => .bind (lowers_asm (does_profileLoad h (toUInt64_rowOffset n) fun m2 h2 hklass => ?_))
  have htaken : Op.bne.taken (m2.get t0) (m2.get recv) = decide
    (m.mem.read (p.mdp + UInt64.ofNat (16 + 16 * n)) 8 ≠ m.get recv) := by
    rw [hklass, h2.regs recv hrecv]
    rfl
  refine .bind (lowers_asm (does_branch rfl hnext (fun hne pc =>
    .inl ⟨rfl, hmiss (of_decide_eq_true (htaken.symm.trans hne)) _ (h2.withPc pc)⟩)
    fun heq pc => ?_))
  have hsame : m.mem.read (p.mdp + UInt64.ofNat (16 + 16 * n)) 8 = m.get recv :=
    Classical.not_not.mp (of_decide_eq_false (htaken.symm.trans heq))
  refine .bind (lowers_asm (does_profileLoad (h2.withPc pc) (toUInt64_rowCount n) fun m3 h3 hcount => .bind (lowers_asm
    (does_addi fun m4 h4 => .bind (lowers_asm
    (does_profileStore hS (h3.put h4) ⟨rfl, rfl⟩ (toUInt64_rowCount n) (by omega)
      fun m5 h5 => lowers_asm (does_j hl fun pc' => .inr ?_)))))))
  rw [h4.value, hcount] at h5
  refine hhit hsame _ ((h5.alters fun x => ProfileSite.write_apart hfits (by omega) _ _).withPc pc') ?_
  show p.entry m5.mem = _
  rw [h5.mem, ProfileSite.entry_setCount hfits hn, hrow, hsame]
  rfl

/-- An empty row is taken for the type. -/
theorem lowers_claimRow (hS : Profiled S.Free p) (hl : S.Binds updated) (hn : n < p.rows.toNatClampNeg)
    (hrecv : recv ∉ [t0, t1]) (h : Counting p m m.mem m1)
    (hhit : ((p.entry m.mem).rows n).klass = 0 → ∀ m', Alters [t0, t1] p.Covers m m' →
      p.entry m'.mem = (p.entry m.mem).setRow n ⟨m.get recv, 1⟩ → E (.label updated) m')
    (hmiss : ((p.entry m.mem).rows n).klass ≠ 0 → ∀ m', Counting p m m.mem m' → Q () m') :
    S.Lowers (claimRow recv updated (rowOffset n)) m1 E Q := by
  have hfits := hS.fits
  have hrow : (p.entry m.mem).rows n =
      ⟨m.mem.read (p.mdp + UInt64.ofNat (16 + 16 * n)) 8, m.mem.read (p.mdp + UInt64.ofNat (24 + 16 * n)) 8⟩ := if_pos hn
  rw [hrow] at hhit hmiss
  unfold claimRow
  refine .bind (lowers_asm (does_newLabel fun next => ?_))
  refine .of_eq (y := ((do
        ld t0 t1 (rowOffset n)
        branch .bne t0 zr next
        sd recv t1 (rowOffset n)
        li t0 profileIncrement
        sd t0 t1 (rowOffset n + 8)
        Asm.j updated) : Lower Unit) >>= fun _ => (liftM (Asm.bind next) : Lower Unit))
    (by simp only [bind_assoc]) ?_
  refine .labelLast fun hnext => .bind (lowers_asm (does_profileLoad h (toUInt64_rowOffset n) fun m2 h2 hklass => ?_))
  have htaken : Op.bne.taken (m2.get t0) (m2.get zr) = decide
    (m.mem.read (p.mdp + UInt64.ofNat (16 + 16 * n)) 8 ≠ 0) := by
    rw [hklass]
    rfl
  refine .bind (lowers_asm (does_branch rfl hnext (fun hne pc =>
    .inl ⟨rfl, hmiss (of_decide_eq_true (htaken.symm.trans hne)) _ (h2.withPc pc)⟩)
    fun heq pc => ?_))
  have hempty : m.mem.read (p.mdp + UInt64.ofNat (16 + 16 * n)) 8 = 0 :=
    Classical.not_not.mp (of_decide_eq_false (htaken.symm.trans heq))
  refine .bind (lowers_asm (does_profileStore hS (h2.withPc pc) ⟨rfl, rfl⟩ (toUInt64_rowOffset n)
    (by omega) fun m3 h3 =>
    .bind (lowers_asm (does_li fun m4 h4 => .bind (lowers_asm (does_profileStore hS (h3.put h4) ⟨rfl, rfl⟩
      (toUInt64_rowCount n) (by omega) fun m5 h5 => lowers_asm (does_j hl fun pc' => .inr ?_)))))))
  rw [h4.value, Machine.get_withPc, h2.regs recv hrecv] at h5
  refine hhit hempty _ ((h5.alters fun x hx => (ProfileSite.write_apart hfits (by omega) _ _ hx).trans
    (ProfileSite.write_apart hfits (by omega) _ _ hx)).withPc pc') ?_
  show p.entry m5.mem = _
  rw [h5.mem, ProfileSite.entry_setCount hfits hn, ProfileSite.entry_setKlass hfits hn]
  unfold ReceiverProfile.setRow
  congr 1
  funext i
  by_cases e : i = n
  · simp only [e, if_true]
    rfl
  · simp only [if_neg e]

/-- What is done to the rows is done to the first one that it fits. -/
theorem lowers_forRows {f : Int64 → Lower Unit} [∀ row, Composed false (f row)] {I : Machine → Prop}
    {R : Nat → Prop} {total : Nat}
    (hf : ∀ n < total, (∀ i < n, ¬ R i) → ∀ m1, I m1 → S.Lowers (f (rowOffset n)) m1 E fun _ m' => ¬ R n ∧ I m')
    (fuel n : Nat)
    (hn : n + fuel = total) (hbefore : ∀ i < n, ¬ R i) {m1 : Machine} (h : I m1) :
    S.Lowers (forRows f fuel n) m1 E fun _ m' => (∀ i < total, ¬ R i) ∧ I m' := by
  induction fuel generalizing n m1 with
  | zero =>
    subst hn
    exact lowers_pure ⟨hbefore, h⟩
  | succ fuel ih =>
    unfold forRows
    refine .bind ((hf n (by omega) hbefore m1 h).imp (fun _ _ h => h) fun _ m2 h2 =>
      ih (n + 1) (by omega) (fun i hi => ?_) h2.2)
    rcases Nat.lt_succ_iff_lt_or_eq.mp hi with hi | rfl
    · exact hbefore i hi
    · exact h2.1

theorem lowers_profileReceiver (hS : Profiled S.Free p) (hrecv : recv ∉ [t0, t1])
    (hgo : ∀ m', Alters [t0, t1] p.Covers m m' →
    p.entry m'.mem = (p.entry m.mem).note p.rows.toNatClampNeg (.passed (m.get recv)) → Q () m') :
    S.Lowers (profileReceiver p recv) m E Q := by
  have hfits := hS.fits
  have hnote : (p.entry m.mem).note p.rows.toNatClampNeg (.passed (m.get recv)) = (p.entry m.mem).count
    p.rows.toNatClampNeg (m.get recv) := rfl
  rw [hnote] at hgo
  unfold ReceiverProfile.count at hgo
  unfold profileReceiver
  refine .bind (lowers_asm (does_newLabel fun updated => ?_))
  refine .of_eq (y := ((do
        li t1 p.mdp.toInt64
        forRows (countInRow recv updated) p.rows.toNatClampNeg 0
        forRows (claimRow recv updated) p.rows.toNatClampNeg 0
        ld t0 t1 profileCount
        addi t0 t0 profileIncrement
        sd t0 t1 profileCount) : Lower Unit) >>= fun _ => (liftM (Asm.bind updated) : Lower Unit))
    (by simp only [bind_assoc]) ?_
  refine .labelLast fun hl => .bind (lowers_asm (does_li fun m1 h1 => ?_))
  have hc1 : Counting p m m.mem m1 :=
    ⟨by rw [h1.value, UInt64.toUInt64_toInt64], fun r hr => h1.other r (fun e => hr (by simp [e])), h1.mem⟩
  have counted {n : Nat} (hn : n < p.rows.toNatClampNeg) (hbefore : ∀ i < n, ((p.entry m.mem).rows i).klass ≠ m.get recv)
      (hklass : ((p.entry m.mem).rows n).klass = m.get recv) (m' : Machine) (halters : Alters [t0, t1] p.Covers m m')
      (hentry : p.entry m'.mem = (p.entry m.mem).setRow n ⟨m.get recv,
      ((p.entry m.mem).rows n).count + 1⟩) : Q () m' := by
    refine hgo m' halters ?_
    rw [ReceiverProfile.rowOf_eq_some.mpr ⟨hklass, hn, hbefore⟩]
    exact hentry
  refine .bind ((lowers_forRows (I := Counting p m m.mem) (R := fun n => ((p.entry m.mem).rows n).klass = m.get recv)
    (fun n hn hbefore m2 h2 => lowers_countInRow hS hl hn hrecv h2 (fun hklass m' halters hentry =>
    .inl ⟨rfl, counted hn hbefore hklass m' halters hentry⟩)
      fun hne m' h' => ⟨hne, h'⟩) _ 0 (Nat.zero_add _) nofun hc1).imp (fun _ _ h => h) fun _ m2 ⟨hnone, h2⟩ => ?_)
  rw [ReceiverProfile.rowOf_eq_none.mpr hnone] at hgo
  have claimed {n : Nat} (hn : n < p.rows.toNatClampNeg) (hbefore : ∀ i < n, ((p.entry m.mem).rows i).klass ≠ 0)
      (hklass : ((p.entry m.mem).rows n).klass = 0) (m' : Machine) (halters : Alters [t0, t1] p.Covers m m')
      (hentry : p.entry m'.mem = (p.entry m.mem).setRow n ⟨m.get recv, 1⟩) : Q () m' := by
    refine hgo m' halters ?_
    rw [ReceiverProfile.rowOf_eq_some.mpr ⟨hklass, hn, hbefore⟩]
    exact hentry
  refine .bind ((lowers_forRows (I := Counting p m m.mem) (R := fun n => ((p.entry m.mem).rows n).klass = 0)
    (fun n hn hbefore m3 h3 => lowers_claimRow hS hl hn hrecv h3 (fun hklass m' halters hentry =>
    .inl ⟨rfl, claimed hn hbefore hklass m' halters hentry⟩)
      fun hne m' h' => ⟨hne, h'⟩) _ 0 (Nat.zero_add _) nofun h2).imp (fun _ _ h => h) fun _ m3 ⟨hfull, h3⟩ => ?_)
  rw [ReceiverProfile.rowOf_eq_none.mpr hfull] at hgo
  refine .bind (lowers_asm (does_profileLoad (k := 8) h3 rfl fun m4 h4 hothers =>
    .bind (lowers_asm (does_addi fun m5 h5 =>
    lowers_asm (does_profileStore (k := 8) hS (h4.put h5) ⟨rfl, rfl⟩ rfl (by omega) fun m6 h6 => ?_)))))
  rw [h5.value, hothers] at h6
  refine hgo m6 (h6.alters fun x => ProfileSite.write_apart hfits (by omega) _ _) ?_
  rw [h6.mem, ProfileSite.entry_setOthers hfits]
  rfl

end Site

end RiscvJit
