import RiscvJit.Call.Convention
import RiscvJit.Proofs.Code.Run

/-
  RiscvJit.Proofs.Call.Locations — arguments have places of their own.

  A convention assigns places from a supply of registers and stack slots. One assignment takes a
  place out of the supply (`took_assign`), so over a whole list of kinds:

    - every kind that is not void has a place that the convention gives (`Placed.given`), in the
      file of registers that suits it (`Placed.suits`);
    - no two of them overlap (`Placed.apart`);
    - a double word is followed by its void half (`Placed.paired`).

  The void halves have no place, so facts are about the kinds that are left (`arrived`).
-/

namespace RiscvJit

theorem Location.aliases_comm (a b : Location) : a.aliases b = b.aliases a := by
  cases a <;> cases b <;> simp only [Location.aliases, eq_comm, Bool.and_comm]

namespace Convention

/-! ## One place -/

/-- The supply still has the place, when `n` slots are used in the end. -/
def Supply.Gives (s : Supply) (n : Nat) : Location → Prop
  | .int r => r ∈ s.ints
  | .float r => r ∈ s.floats
  | .stack slot => s.slot ≤ slot ∧ slot + slotsPerWord ≤ n
  | .nowhere => False

/-- No register is there twice. -/
structure Supply.Sound (s : Supply) : Prop where
  ints : s.ints.Nodup
  floats : s.floats.Nodup

/-- The place is in the file of registers of the kind. -/
def Suits (c : Convention) (k : ValueKind) : Location → Prop
  | .int _ => k.isFloat = true → c.kind = .native
  | .float _ => k.isFloat = true
  | _ => True

/-- From one supply to the other a place was taken. -/
structure Supply.Took (s : Supply) (l : Location) (s' : Supply) (n : Nat) : Prop where
  slot : s.slot ≤ s'.slot
  few : s'.slot ≤ s.slot + slotsPerWord
  sound : s.Sound → s'.Sound
  given : s'.slot ≤ n → s.Gives n l
  rest : ∀ l', s'.Gives n l' → s.Gives n l'
  apart : s.Sound → ∀ l', s'.Gives n l' → l'.aliases l = false

section
variable (s : Supply) (n : Nat)

theorem took_onStack : s.Took s.onStack.1 s.onStack.2 n where
  slot := Nat.le_add_right ..
  few := Nat.le_refl _
  sound h := ⟨h.ints, h.floats⟩
  given h := ⟨Nat.le_refl _, h⟩
  rest l' h := by
    cases l' with
    | stack slot => exact ⟨Nat.le_trans (Nat.le_add_right ..) h.1, h.2⟩
    | _ => exact h
  apart _ l' h := by
    cases l' with
    | stack slot =>
      have hle : s.slot + slotsPerWord ≤ slot := h.1
      rw [Supply.onStack, Location.aliases, Bool.and_eq_false_iff, decide_eq_false_iff_not]
      exact .inl (by omega)
    | _ => rfl

theorem took_takeInt : s.Took s.takeInt.1 s.takeInt.2 n := by
  obtain ⟨ints, floats, slot⟩ := s
  cases ints with
  | nil => exact took_onStack _ n
  | cons r rest =>
    refine ⟨Nat.le_refl _, Nat.le_add_right .., fun h => ⟨h.ints.of_cons, h.floats⟩, fun _ =>
      List.mem_cons_self, fun l' h => ?_, fun hs l' h => ?_⟩
    · cases l' with
      | int r' => exact List.mem_cons_of_mem r h
      | _ => exact h
    · cases l' with
      | int r' =>
        have hne : r' ≠ r := fun e => (List.nodup_cons.mp hs.ints).1 (e ▸ h)
        simpa [Supply.takeInt, Location.aliases] using hne
      | _ => rfl

theorem took_takeFloat (kind : ConventionKind) : s.Took (s.takeFloat kind).1 (s.takeFloat kind).2 n := by
  obtain ⟨ints, floats, slot⟩ := s
  cases floats with
  | nil =>
    by_cases hk : kind = .native
    · simpa [Supply.takeFloat, hk] using took_takeInt ⟨ints, [], slot⟩ n
    · simpa [Supply.takeFloat, hk] using took_onStack ⟨ints, [], slot⟩ n
  | cons r rest =>
    refine ⟨Nat.le_refl _, Nat.le_add_right .., fun h => ⟨h.ints, h.floats.of_cons⟩, fun _ =>
      List.mem_cons_self, fun l' h => ?_, fun hs l' h => ?_⟩
    · cases l' with
      | float r' => exact List.mem_cons_of_mem r h
      | _ => exact h
    · cases l' with
      | float r' =>
        have hne : r' ≠ r := fun e => (List.nodup_cons.mp hs.floats).1 (e ▸ h)
        simpa [Supply.takeFloat, Location.aliases] using hne
      | _ => rfl

theorem took_assign (c : Convention) (k : ValueKind) : s.Took (c.assign s k).1 (c.assign s k).2 n := by
  unfold assign
  split
  · exact took_takeFloat s n c.kind
  · exact took_takeInt s n

theorem suits_assign (c : Convention) (k : ValueKind) : c.Suits k (c.assign s k).1 := by
  have int (hk : k.isFloat = true → c.kind = .native) : c.Suits k s.takeInt.1 := by
    unfold Supply.takeInt
    split
    · exact hk
    · trivial
  unfold assign
  split
  case _ hk =>
    unfold Supply.takeFloat
    split
    · exact hk
    · split
      · exact int fun _ => ‹_›
      · trivial
  case _ hk => exact int fun h => absurd h hk

end

/-! ## Places of a list -/

/-- The kinds that are not void, with their places. -/
def arrived (kinds : List ValueKind) (locs : List Location) : List (ValueKind × Location) :=
  (kinds.zip locs).filter (·.1 ≠ .void)

theorem arrived_void (kinds : List ValueKind) (l : Location) (locs : List Location) :
    arrived (.void :: kinds) (l :: locs) = arrived kinds locs := by
  simp [arrived]

variable {c : Convention} {i : Nat} {prev : Option ValueKind} {k : ValueKind} {kinds : List ValueKind}
  {locs : List Location} {n : Nat}

theorem arrived_cons (hk : k ≠ .void) (kinds : List ValueKind) (l : Location) (locs : List Location) :
    arrived (k :: kinds) (l :: locs) = (k, l) :: arrived kinds locs := by
  simp [arrived, hk]

/-- Every double word is followed by a void, and every void follows one. -/
def Paired : Option ValueKind → List ValueKind → Prop
  | _, [] => True
  | prev, k :: rest =>
    (k.isDoubleWord = true → rest.head? = some .void) ∧
      (k = .void → (prev.map ValueKind.isDoubleWord).getD false = true) ∧ Paired (some k) rest

/-- What assigning places to kinds achieves. -/
structure Placed (c : Convention) (prev : Option ValueKind) (s : Supply) (kinds : List ValueKind)
    (locs : List Location) (n : Nat) : Prop where
  length : locs.length = kinds.length
  slot : s.slot ≤ n
  few : n ≤ s.slot + slotsPerWord * kinds.length
  paired : Paired prev kinds
  given : ∀ p ∈ arrived kinds locs, s.Gives n p.2
  suits : ∀ p ∈ arrived kinds locs, c.Suits p.1 p.2
  apart : s.Sound → (arrived kinds locs).Pairwise fun p q => q.2.aliases p.2 = false

/-- The first place and the others. -/
theorem assignFrom_cons {s : Supply} (h : c.assignFrom i prev s (k :: kinds) = .ok (locs, n)) :
    ∃ rest, locs = (if k = .void then .nowhere else (c.assign s k).1) :: rest ∧
      c.assignFrom (i + 1) (some k) (if k = .void then s else (c.assign s k).2) kinds = .ok (rest, n) ∧
      c.admits i prev k kinds.head? = .ok () := by
  unfold assignFrom at h
  split at h
  · cases h
  case _ hadmits =>
    by_cases hk : k = .void
    · simp only [if_pos hk] at h ⊢
      obtain ⟨⟨rest, n'⟩, hrest, hlocs⟩ := except_map_ok h
      cases hlocs
      exact ⟨rest, rfl, hrest, hadmits⟩
    · simp only [if_neg hk] at h ⊢
      obtain ⟨⟨rest, n'⟩, hrest, hlocs⟩ := except_map_ok h
      cases hlocs
      exact ⟨rest, rfl, hrest, hadmits⟩

theorem double_of_admits {next : Option ValueKind} (h : c.admits i prev k next = .ok ()) (hk : k.isDoubleWord = true) :
    next = some .void := by
  cases k with
  | long | double =>
    by_cases hnext : next = some .void
    · exact hnext
    · simp [admits, ValueKind.isDoubleWord, hnext] at h
  | _ => cases hk

theorem void_of_admits {next : Option ValueKind} (h : c.admits i prev k next = .ok ()) (hk : k = .void) :
    (prev.map ValueKind.isDoubleWord).getD false = true := by
  subst hk
  by_cases hprev : (prev.map ValueKind.isDoubleWord).getD false = true
  · exact hprev
  · rw [admits, if_neg hprev] at h
    cases h

theorem placed_assignFrom {s : Supply} (h : c.assignFrom i prev s kinds = .ok (locs, n)) :
    Placed c prev s kinds locs n := by
  induction kinds generalizing i prev s locs with
  | nil =>
    cases h
    exact ⟨rfl, Nat.le_refl _, Nat.le_refl _, trivial, by simp [arrived], by simp [arrived], by simp [arrived]⟩
  | cons k kinds ih =>
    obtain ⟨rest, rfl, hrest, hadmits⟩ := assignFrom_cons h
    have hin := ih hrest
    have hpaired : Paired prev (k :: kinds) := ⟨double_of_admits hadmits, void_of_admits hadmits, hin.paired⟩
    by_cases hk : k = .void
    · subst hk
      refine ⟨congrArg _ hin.length, hin.slot, ?_, hpaired, ?_, ?_, ?_⟩ <;> try rw [arrived_void]
      · have hfew := hin.few
        rw [if_pos rfl] at hfew
        rw [List.length_cons, Nat.mul_add]
        omega
      · exact hin.given
      · exact hin.suits
      · exact hin.apart
    · rw [if_neg hk] at hin ⊢
      have htook := took_assign s n c k
      refine ⟨congrArg _ hin.length, Nat.le_trans htook.slot hin.slot, ?_,
        hpaired, ?_, ?_, ?_⟩ <;> try rw [arrived_cons hk]
      · have := hin.few
        have := htook.few
        rw [List.length_cons, Nat.mul_add]
        omega
      · rintro p (_ | ⟨_, hp⟩)
        · exact htook.given hin.slot
        · exact htook.rest _ (hin.given p hp)
      · rintro p (_ | ⟨_, hp⟩)
        · exact suits_assign s c k
        · exact hin.suits p hp
      · intro hs
        exact .cons (fun q hq => htook.apart hs _ (hin.given q hq)) (hin.apart (htook.sound hs))

theorem placed_locate (h : c.locate kinds = .ok (locs, n)) : Placed c none c.supply kinds locs n := placed_assignFrom h

theorem sound_managed : managed.supply.Sound := ⟨by decide, by decide⟩

theorem sound_native : native.supply.Sound := ⟨by decide, by decide⟩

end Convention

end RiscvJit
