import RiscvJit.Proofs.Call.Locations

/-
  RiscvJit.Proofs.Call.Arrangement — which place each argument has.

  Three counters run while places are assigned: integer registers, float registers and stack slots.
  Each is known from what went before: how many kinds asked for a float register (`floatsIn`), how many
  for an integer register (`intsIn`; in native calls also floats that came too late for a register of
  their own), and how many went to the stack. So the place of an argument is a function of the
  arguments before it (`placeBehind`): one assignment keeps the counters (`behind_assign`), and so does
  a whole list (`arranged_assignFrom`).

  Lists that a convention passes have their void halves where they belong (`Passed`), and then places
  are always found (`exists_assignFrom`).
-/

namespace RiscvJit

open Location

namespace Convention

variable {c : Convention}

/-! ## Lists that are passed -/

/-- Kinds that the convention passes, behind a given one: kinds with a name, a void exactly behind each long and double, and
no metadata in managed calls. -/
structure Passed (c : Convention) (prev : Option ValueKind) (kinds : List ValueKind) : Prop where
  named : ∀ k ∈ kinds, ∀ code, k ≠ .unknown code
  paired : Paired prev kinds
  metadata : c.kind = .managed → .metadata ∉ kinds

variable {i : Nat} {kinds : List ValueKind} {prev : Option ValueKind} {locs : List Location}

theorem admits_of_named {next : Option ValueKind} {k : ValueKind} (hnamed : ∀ code, k ≠ .unknown code)
    (hdouble : k.isDoubleWord = true → next = some .void)
    (hvoid : k = .void → (prev.map ValueKind.isDoubleWord).getD false = true)
    (hmetadata : k = .metadata → c.kind ≠ .managed) : c.admits i prev k next = .ok () := by
  cases k with
  | void => rw [admits, if_pos (hvoid rfl)]
  | unknown code => exact absurd rfl (hnamed code)
  | long | double => simp [admits, hdouble rfl]
  | metadata => simp [admits, ValueKind.isDoubleWord, hmetadata rfl]
  | _ => simp [admits, ValueKind.isDoubleWord]

theorem Passed.admits {k : ValueKind} (h : c.Passed prev (k :: kinds)) : c.admits i prev k kinds.head? = .ok () :=
  admits_of_named (h.named k List.mem_cons_self) h.paired.1 h.paired.2.1 fun hk hmanaged =>
  h.metadata hmanaged (hk ▸ List.mem_cons_self)

theorem Passed.tail {prev : Option ValueKind} {k : ValueKind} {kinds : List ValueKind} (h : c.Passed prev (k :: kinds)) :
    c.Passed (some k) kinds where
  named k' hk' := h.named k' (List.mem_cons_of_mem _ hk')
  paired := h.paired.2.2
  metadata hmanaged hmem := h.metadata hmanaged (List.mem_cons_of_mem _ hmem)

/-- Kinds that are passed find places, whatever is left of registers. -/
theorem exists_assignFrom (h : c.Passed prev kinds) (i : Nat) (s : Supply) :
    ∃ r, c.assignFrom i prev s kinds = .ok r := by
  induction kinds generalizing i prev s with
  | nil => exact ⟨_, rfl⟩
  | cons k kinds ih =>
    obtain ⟨⟨locs, n⟩, hrest⟩ := ih h.tail (i + 1) (if k = .void then (nowhere, s) else c.assign s k).2
    refine ⟨((if k = .void then (nowhere, s) else c.assign s k).1 :: locs, n), ?_⟩
    rw [assignFrom, h.admits]
    simp only [hrest]
    rfl

/-! ## Counters -/

/-- Kinds that ask for a float register. -/
def floatsIn (kinds : List ValueKind) : Nat := kinds.countP (·.isFloat)

/-- Kinds that ask for an integer register: in native calls also floats for which there is no float register. -/
def intsIn (c : Convention) (kinds : List ValueKind) : Nat :=
  kinds.countP (fun k => k ≠ .void && !k.isFloat) + if c.kind = .native then floatsIn kinds - c.floatArgs.length else 0

/-- The next integer register when so many were asked for, or the next stack slot. -/
def intPlace (c : Convention) (asked stacked : Nat) : Location :=
  match c.intArgs[asked]? with
  | some r => .int r
  | none => .stack (slotsPerWord * stacked)

/-- The place of an argument behind others, of which so many went to the stack. -/
def placeBehind (c : Convention) (before : List ValueKind) (stacked : Nat) (k : ValueKind) : Location :=
  if k = .void then .nowhere
  else if k.isFloat then
    match c.floatArgs[floatsIn before]? with
    | some r => .float r
    | none => if c.kind = .native then c.intPlace (c.intsIn before) stacked else .stack (slotsPerWord * stacked)
  else c.intPlace (c.intsIn before) stacked

/-- What is left behind these kinds, of which so many went to the stack. -/
structure Supply.Behind (c : Convention) (before : List ValueKind) (stacked : Nat) (s : Supply) : Prop where
  ints : s.ints = c.intArgs.drop (c.intsIn before)
  floats : s.floats = c.floatArgs.drop (floatsIn before)
  slot : s.slot = slotsPerWord * stacked

theorem drop_cases {α : Type} (xs : List α) (n : Nat) :
    (∃ x, xs[n]? = some x ∧ xs.drop n = x :: xs.drop (n + 1)) ∨
    (xs[n]? = none ∧ xs.drop n = [] ∧ xs.drop (n + 1) = []) := by
  by_cases h : n < xs.length
  · exact .inl ⟨xs[n], List.getElem?_eq_getElem h, List.drop_eq_getElem_cons h⟩
  · exact .inr ⟨List.getElem?_eq_none (by omega), List.drop_eq_nil_of_le (by omega), List.drop_eq_nil_of_le (by omega)⟩

/-- How many went to the stack when one more has this place. -/
def stackedWith (stacked : Nat) (l : Location) : Nat := stacked + if l.isStack then 1 else 0

section
variable {before : List ValueKind} {stacked : Nat} {s : Supply} {k : ValueKind}

theorem behind_void (h : s.Behind c before stacked) : s.Behind c (before ++ [ValueKind.void]) stacked where
  ints := by rw [h.ints]; simp [intsIn, floatsIn, ValueKind.isFloat]
  floats := by rw [h.floats]; simp [floatsIn, ValueKind.isFloat]
  slot := h.slot

theorem behind_onStack (h : s.Behind c before stacked)
    (hints : c.intArgs.drop (c.intsIn (before ++ [k])) = c.intArgs.drop (c.intsIn before))
    (hfloats : c.floatArgs.drop (floatsIn (before ++ [k])) = c.floatArgs.drop (floatsIn before)) :
    s.onStack.1 = .stack (slotsPerWord * stacked) ∧
    s.onStack.2.Behind c (before ++ [k]) (stackedWith stacked s.onStack.1) := by
  refine ⟨by rw [Supply.onStack, h.slot], ⟨?_, ?_, ?_⟩⟩
  · exact h.ints.trans hints.symm
  · exact h.floats.trans hfloats.symm
  · show s.slot + slotsPerWord = slotsPerWord * (stacked + 1)
    rw [h.slot, Nat.mul_succ]

theorem behind_takeInt (h : s.Behind c before stacked) (hints : c.intsIn (before ++ [k]) = c.intsIn before + 1)
    (hfloats : c.floatArgs.drop (floatsIn (before ++ [k])) = c.floatArgs.drop (floatsIn before)) :
    s.takeInt.1 = c.intPlace (c.intsIn before) stacked ∧
    s.takeInt.2.Behind c (before ++ [k]) (stackedWith stacked s.takeInt.1) := by
  rcases drop_cases c.intArgs (c.intsIn before) with ⟨r, hget, hdrop⟩ | ⟨hget, hdrop, hafter⟩
  · have hleft : s.ints = r :: c.intArgs.drop (c.intsIn before + 1) := h.ints.trans hdrop
    have htake : s.takeInt = (.int r, { s with ints := c.intArgs.drop (c.intsIn before + 1) }) := by
      rw [Supply.takeInt, hleft]
    rw [htake, intPlace, hget]
    exact ⟨rfl, ⟨by rw [hints], h.floats.trans hfloats.symm, h.slot⟩⟩
  · have htake : s.takeInt = s.onStack := by
      rw [Supply.takeInt, h.ints, hdrop]
    rw [htake, intPlace, hget]
    exact behind_onStack h (by rw [hints, hafter, hdrop]) hfloats

/-- One more argument has the place that the arguments before it leave for it. -/
theorem behind_assign (h : s.Behind c before stacked) (hk : k ≠ .void) :
    (c.assign s k).1 = c.placeBehind before stacked k ∧
    (c.assign s k).2.Behind c (before ++ [k]) (stackedWith stacked (c.assign s k).1) := by
  unfold assign placeBehind
  rw [if_neg hk]
  by_cases hfloat : k.isFloat = true
  case neg =>
    rw [if_neg hfloat, if_neg hfloat]
    have hfloat : k.isFloat = false := Bool.not_eq_true _ ▸ hfloat
    have hfloats : floatsIn (before ++ [k]) = floatsIn before := by simp [floatsIn, hfloat]
    refine behind_takeInt h ?_ (by rw [hfloats])
    have hcount : (before ++ [k]).countP (fun k => k ≠ .void && !k.isFloat) = before.countP
      (fun k => k ≠ .void && !k.isFloat) + 1 := by
      simp [hk, hfloat]
    rw [intsIn, intsIn, hfloats, hcount]
    omega
  rw [if_pos hfloat, if_pos hfloat]
  have hfloats : floatsIn (before ++ [k]) = floatsIn before + 1 := by simp [floatsIn, hfloat]
  have hints : c.intsIn (before ++ [k]) =
      before.countP (fun k => k ≠ .void && !k.isFloat) + if c.kind = .native then floatsIn
      before + 1 - c.floatArgs.length else 0 := by
    simp [intsIn, hfloats, hfloat]
  rcases drop_cases c.floatArgs (floatsIn before) with ⟨r, hget, hdrop⟩ | ⟨hget, hdrop, hafter⟩
  · have hlt : floatsIn before < c.floatArgs.length := (List.getElem?_eq_some_iff.mp hget).1
    have htake : s.takeFloat c.kind = (.float r, { s with floats := c.floatArgs.drop (floatsIn before + 1) }) := by
      rw [Supply.takeFloat, h.floats, hdrop]
    rw [htake, hget]
    refine ⟨rfl, ⟨h.ints.trans (congrArg c.intArgs.drop ?_), by rw [hfloats], h.slot⟩⟩
    rw [hints, intsIn, show floatsIn before - c.floatArgs.length =
      0 by omega, show floatsIn before + 1 - c.floatArgs.length = 0 by omega]
  · have hge : c.floatArgs.length ≤ floatsIn before := List.getElem?_eq_none_iff.mp hget
    have hnext : c.floatArgs.drop (floatsIn (before ++ [k])) = c.floatArgs.drop (floatsIn before) := by
      rw [hfloats, hafter, hdrop]
    by_cases hnative : c.kind = .native
    · have htake : s.takeFloat c.kind = s.takeInt := by
        rw [Supply.takeFloat, h.floats, hdrop]
        simp only [hnative, if_true]
      rw [htake, hget]
      simp only [hnative, if_true]
      refine behind_takeInt h ?_ hnext
      rw [hints, intsIn, if_pos hnative, if_pos hnative]
      omega
    · have htake : s.takeFloat c.kind = s.onStack := by
        rw [Supply.takeFloat, h.floats, hdrop]
        simp only [hnative, if_false]
      rw [htake, hget]
      simp only [hnative, if_false]
      refine behind_onStack h ?_ hnext
      rw [hints, intsIn, if_neg hnative, if_neg hnative]

end

/-! ## Whole lists -/

/-- Every kind of the list has the place that the kinds before it leave, and so many slots are used in the end. -/
theorem arranged_assignFrom {before : List ValueKind} {s : Supply} {stacked n : Nat} (hs : s.Behind c before stacked)
    (h : c.assignFrom i prev s kinds = .ok (locs, n)) :
    (∀ j k, kinds[j]? = some k → locs[j]? = some
    (c.placeBehind (before ++ kinds.take j) (stacked + (locs.take j).countP (·.isStack)) k)) ∧
      n = slotsPerWord * (stacked + locs.countP (·.isStack)) := by
  induction kinds generalizing before i prev s stacked locs with
  | nil =>
    cases h
    exact ⟨nofun, hs.slot⟩
  | cons k kinds ih =>
    obtain ⟨rest, rfl, hrest, -⟩ := assignFrom_cons h
    have hfirst : (if k = .void then .nowhere else (c.assign s k).1) = c.placeBehind before stacked k ∧
        (if k = .void then s else (c.assign s k).2).Behind c (before ++ [k])
          (stackedWith stacked (if k = .void then .nowhere else (c.assign s k).1)) := by
      by_cases hk : k = .void
      · subst hk
        exact ⟨rfl, behind_void hs⟩
      · rw [if_neg hk, if_neg hk]
        exact behind_assign hs hk
    obtain ⟨hplace, hbehind⟩ := hfirst
    obtain ⟨hall, hslots⟩ := ih hbehind hrest
    have hcount (ls : List Location) (l : Location) : stackedWith stacked l + ls.countP (·.isStack) =
        stacked + (l :: ls).countP (·.isStack) := by
      rw [List.countP_cons, stackedWith]
      omega
    refine ⟨fun j k' hk' => ?_, by rw [hslots, hcount]⟩
    cases j with
    | zero =>
      cases hk'
      rw [List.getElem?_cons_zero, hplace, List.take_zero, List.append_nil]
      rfl
    | succ j =>
      rw [List.getElem?_cons_succ] at hk' ⊢
      rw [hall j k' hk', List.take_succ_cons, List.take_succ_cons, hcount, List.append_assoc]
      rfl

/-- The places of a front do not depend on what follows it. -/
theorem assignFrom_append {front back : List ValueKind} {s : Supply} {locs' : List Location} {n n' : Nat}
    (h : c.assignFrom i prev s (front ++ back) = .ok (locs, n)) (h' : c.assignFrom i prev s front = .ok (locs', n')) :
    locs' = locs.take front.length := by
  induction front generalizing i prev s locs locs' with
  | nil =>
    cases h'
    rfl
  | cons k front ih =>
    obtain ⟨rest, rfl, hrest, -⟩ := assignFrom_cons h
    obtain ⟨rest', rfl, hrest', -⟩ := assignFrom_cons h'
    rw [ih hrest hrest', List.length_cons, List.take_succ_cons]

theorem apart_of_arrived (hlength : locs.length = kinds.length)
    (hvoid : ∀ j : Nat, kinds[j]? = some ValueKind.void → locs[j]? = some nowhere)
    (h : (arrived kinds locs).Pairwise fun p q => q.2.aliases p.2 = false) :
    locs.Pairwise fun l l' => l.aliases l' = false := by
  have hsecond : locs = (kinds.zip locs).map Prod.snd := by
    rw [List.map_snd_zip (by omega)]
  have hplace {p : ValueKind × Location} (hp : p ∈ kinds.zip locs) (hk : p.1 = .void) : p.2 = .nowhere := by
    obtain ⟨j, hj⟩ := List.mem_iff_getElem?.mp hp
    obtain ⟨hkind, hloc⟩ := List.getElem?_zip_eq_some.mp hj
    exact Option.some.inj (hloc.symm.trans (hvoid j (hk ▸ hkind)))
  have hnowhere (l : Location) : nowhere.aliases l = false ∧ l.aliases .nowhere = false := by
    cases l <;> exact ⟨rfl, rfl⟩
  rw [hsecond, List.pairwise_map]
  refine (List.pairwise_filter.mp h).imp_of_mem fun {p q} hp hq hapart => ?_
  by_cases hpk : p.1 = .void
  · rw [hplace hp hpk]
    exact (hnowhere q.2).1
  by_cases hqk : q.1 = .void
  · rw [hplace hq hqk]
    exact (hnowhere p.2).2
  · rw [aliases_comm]
    exact hapart (decide_eq_true hpk) (decide_eq_true hqk)

end Convention

open Convention

/-- For both conventions and every list that they pass: places are found for it, one for each kind. Void halves have no place,
and every other kind has the one that the kinds before it leave; no two places overlap, and every argument on the stack takes two
slots. A front that can be passed by itself has the same places by itself. Both sides of a call number the slots alike: the
callee finds them above its linkage. -/
theorem arguments_have_stable_places (c : Convention) (hc : c = managed ∨ c = native) (kinds : List ValueKind)
    (h : c.Passed none kinds) :
    ∃ locs n, c.locate kinds = .ok (locs, n) ∧ locs.length = kinds.length ∧
      (∀ j k, kinds[j]? = some k → locs[j]? = some (c.placeBehind (kinds.take j) ((locs.take j).countP (·.isStack)) k)) ∧
      locs.Pairwise (fun l l' => l.aliases l' = false ∧ l'.aliases l = false) ∧
      n = 2 * locs.countP (·.isStack) ∧
      (∀ m, c.Passed none (kinds.take m) → ∃ n', c.locate (kinds.take m) = .ok (locs.take m, n')) ∧
      ∀ slot, c.stackByteOffset slot .incoming = c.stackByteOffset slot .outgoing + 16 := by
  obtain ⟨⟨locs, n⟩, hlocs⟩ := exists_assignFrom h 0 c.supply
  have hstart : c.supply.Behind c [] 0 := ⟨by simp [supply, intsIn, floatsIn], by simp [supply, floatsIn], rfl⟩
  have hsound : c.supply.Sound := by
    rcases hc with rfl | rfl
    · exact sound_managed
    · exact sound_native
  obtain ⟨hplaces, hslots⟩ := arranged_assignFrom hstart hlocs
  have hplaces (j : Nat) (k : ValueKind) (hk : kinds[j]? = some k) :
      locs[j]? = some (c.placeBehind (kinds.take j) ((locs.take j).countP (·.isStack)) k) := by
    simpa using hplaces j k hk
  have hplaced := placed_assignFrom hlocs
  have hvoid (j : Nat) (hj : kinds[j]? = some .void) : locs[j]? = some .nowhere :=
    (hplaces j .void hj).trans (by rw [placeBehind, if_pos rfl])
  refine ⟨locs, n, hlocs, hplaced.length, hplaces,
    ?_, by simpa [slotsPerWord] using hslots, fun m hm => ?_, fun slot => ?_⟩
  · exact (apart_of_arrived hplaced.length hvoid (hplaced.apart hsound)).imp fun {l l'} hapart =>
      ⟨hapart, aliases_comm l' l ▸ hapart⟩
  · obtain ⟨⟨locs', n'⟩, hfront⟩ := exists_assignFrom hm 0 c.supply
    have hwhole : c.assignFrom 0 none c.supply (kinds.take m ++ kinds.drop m) = .ok (locs, n) := by
      rw [List.take_append_drop]
      exact hlocs
    refine ⟨n', hfront.trans ?_⟩
    rw [assignFrom_append hwhole hfront, List.length_take, ← hplaced.length, ← List.take_eq_take_min]
  · have hbias : c.incomingBias = 4 := by
      rcases hc with rfl | rfl <;> rfl
    show Int64.ofNat (slot + c.incomingBias) * stackSlotSize = Int64.ofNat slot * stackSlotSize + 16
    rw [hbias, Int64.ofNat_add, Int64.add_mul]
    rfl

/-- Nine floats, a long and seven ints. -/
def lateFloat : List ValueKind := List.replicate 9 ValueKind.float ++ [.long, .void] ++ List.replicate 7 .int

/-- The ninth float of a native call takes the first integer register, and so the last int goes to the stack. -/
theorem late_float_shifts_integers : native.Passed none lateFloat ∧
    ∃ places, native.locate lateFloat = .ok (places, 2) ∧ places[8]? = some (.int 10) ∧ places[9]? = some (.int 11) ∧
      places[17]? = some (.stack 0) ∧ places.Pairwise (fun l l' => l.aliases l' = false ∧ l'.aliases l = false) := by
  have hpassed : native.Passed none lateFloat := by
    refine ⟨fun k hk code => ?_, by simp [lateFloat, List.replicate, Paired, ValueKind.isDoubleWord], fun h => by cases h⟩
    rintro rfl
    simp [lateFloat] at hk
  have hlocate : ∃ places, native.locate lateFloat = .ok (places, 2) ∧ places[8]? = some (.int 10) ∧
    places[9]? = some (.int 11) ∧
      places[17]? = some (.stack 0) := ⟨_, rfl, rfl, rfl, rfl⟩
  obtain ⟨places, h, hlate, hlong, hlast⟩ := hlocate
  obtain ⟨locs, n, hlocs, -, -, hapart, -⟩ := arguments_have_stable_places native (.inr rfl) lateFloat hpassed
  rw [h] at hlocs
  cases hlocs
  exact ⟨hpassed, places, h, hlate, hlong, hlast, hapart⟩

end RiscvJit
