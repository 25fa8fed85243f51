import RiscvJit.Proofs.Call.Locations
import RiscvJit.Proofs.Call.ParallelMoves

/-
  RiscvJit.Proofs.Call.NativePlaces — from the places of managed code to those of native code.

  Both conventions hand out the same registers. The managed one starts one integer register later,
  and on the native side at least one register is taken before the arguments. So an argument stays
  in its register, goes to a later one or to the stack, or comes from the stack (`Rises`,
  `rises_assignFrom`).

  Moves along which a rank of locations goes up have no cycle. The solver writes such moves as they
  are, in an order in which none overwrites what a later one reads (`solve_rising`).
-/

namespace RiscvJit

namespace Convention

/-! ## Place by place -/

/-- How an argument gets from its managed to its native place. -/
def Rises : Location → Location → Prop
  | .int r, .int r' => r ≤ r'
  | .int _, .stack _ => True
  | .float r, .float r' => r = r'
  | .stack _, .int _ => True
  | .stack _, .stack _ => True
  | .nowhere, .nowhere => True
  | _, _ => False

/-- The native side has given away more integer registers than the managed side, and as many float registers. -/
structure Trails (managedLeft nativeLeft : Supply) : Prop where
  floats : nativeLeft.floats = managedLeft.floats
  ints : ∃ taken given, given < taken ∧ managedLeft.ints = managed.intArgs.drop given ∧
    nativeLeft.ints = native.intArgs.drop taken

section
variable {s n : Supply}

theorem rises_takeInt (h : Trails s n) : Rises s.takeInt.1 n.takeInt.1 ∧ Trails s.takeInt.2 n.takeInt.2 := by
  have later : ∀ i < 8, ∀ j < 8, i < j → managed.intArgs.getD i 0 ≤ native.intArgs.getD j 0 := by decide
  obtain ⟨hfloats, taken, given, hlt, hs, hn⟩ := h
  obtain ⟨sInts, sFloats, sSlot⟩ := s
  obtain ⟨nInts, nFloats, nSlot⟩ := n
  dsimp only at hfloats hs hn
  subst hs hn
  have nothing {c : Convention} (hc : c.intArgs.length = 8) {k : Nat} (hk : 8 ≤ k) : c.intArgs.drop k = [] :=
    List.drop_eq_nil_of_le (by omega)
  have something {c : Convention} (hc : c.intArgs.length = 8) {k : Nat} (hk : k < 8) :
      c.intArgs.drop k = c.intArgs.getD k 0 :: c.intArgs.drop (k + 1) := by
    rw [List.drop_eq_getElem_cons (by omega), List.getD_eq_getElem?_getD, List.getElem?_eq_getElem (by omega)]
    rfl
  by_cases hgiven : given < 8
  · rw [something (c := managed) rfl hgiven]
    by_cases htaken : taken < 8
    · rw [something (c := native) rfl htaken]
      exact ⟨later given hgiven taken htaken hlt, hfloats, taken + 1, given + 1, by omega, rfl, rfl⟩
    · rw [nothing (c := native) rfl (by omega)]
      exact ⟨trivial, hfloats, taken + 1, given + 1, by omega, rfl, (nothing (c := native) rfl (by omega)).symm⟩
  · rw [nothing (c := managed) rfl (by omega), nothing (c := native) rfl (by omega)]
    exact ⟨trivial, hfloats, taken, given, hlt, (nothing (c := managed) rfl (by omega)).symm,
      (nothing (c := native) rfl (by omega)).symm⟩

theorem rises_assign (h : Trails s n) (k : ValueKind) :
    Rises (managed.assign s k).1 (native.assign n k).1 ∧ Trails (managed.assign s k).2 (native.assign n k).2 := by
  unfold assign
  split
  · -- a float without a float register goes to the stack on the managed side only
    obtain ⟨sInts, sFloats, sSlot⟩ := s
    obtain ⟨nInts, nFloats, nSlot⟩ := n
    obtain rfl : nFloats = sFloats := h.floats
    cases nFloats with
    | cons r rest => exact ⟨rfl, rfl, h.ints⟩
    | nil =>
      obtain ⟨taken, given, hlt, hs, hn⟩ := h.ints
      show Rises (.stack sSlot) (Supply.takeInt ⟨nInts, [], nSlot⟩).1 ∧
        Trails ⟨sInts, [], sSlot + slotsPerWord⟩ (Supply.takeInt ⟨nInts, [], nSlot⟩).2
      cases nInts with
      | nil => exact ⟨trivial, rfl, taken, given, hlt, hs, hn⟩
      | cons r rest =>
        refine ⟨trivial, rfl, taken + 1, given, by omega, hs, ?_⟩
        have := congrArg List.tail hn
        rwa [List.tail_drop] at this
  · exact rises_takeInt h

end

/-! ## Place after place -/

/-- Arguments rise from their managed to their native places. -/
theorem rises_assignFrom {kinds : List ValueKind} {i j : Nat} {prev prev' : Option ValueKind} {s n : Supply}
    {locs locs' : List Location} {u v : Nat} (h : managed.assignFrom i prev s kinds = .ok (locs, u))
    (h' : native.assignFrom j prev' n kinds = .ok (locs', v)) (ht : Trails s n) :
    ∀ (x : Nat) (l l' : Location), locs[x]? = some l → locs'[x]? = some l' → Rises l l' := by
  induction kinds generalizing i j prev prev' s n locs locs' with
  | nil =>
    cases h
    exact fun _ _ _ hl => nomatch hl
  | cons k kinds ih =>
    obtain ⟨rest, rfl, hrest, -⟩ := assignFrom_cons h
    obtain ⟨rest', rfl, hrest', -⟩ := assignFrom_cons h'
    by_cases hk : k = .void
    · simp only [if_pos hk] at hrest hrest' ⊢
      rintro (_ | x) l l' hl hl'
      · cases hl
        cases hl'
        trivial
      · exact ih hrest hrest' ht x l l' hl hl'
    · simp only [if_neg hk] at hrest hrest' ⊢
      obtain ⟨hfirst, hnext⟩ := rises_assign ht k
      rintro (_ | x) l l' hl hl'
      · cases hl
        cases hl'
        exact hfirst
      · exact ih hrest hrest' hnext x l l' hl hl'

end Convention

/-! ## Moves that rise -/

namespace MoveSolver

variable {rank : Location → Nat} {ms out : List Move} {scratch : Location}

/-- What a location holds in the end came from one of at most its rank. -/
theorem rank_perform (h : ∀ m ∈ ms, rank m.src ≤ rank m.dst) (l : Location) : rank (perform ms id l) ≤ rank l := by
  induction ms using List.reverseRecOn generalizing l with
  | nil => exact Nat.le_refl _
  | append_singleton ms m ih =>
    have hms (m' : Move) (hm' : m' ∈ ms) := h m' (List.mem_append_left _ hm')
    have hm := h m (List.mem_append_right _ List.mem_cons_self)
    rw [perform_append]
    show rank (if l = m.dst then perform ms id m.src else perform ms id l) ≤ rank l
    split
    case _ hl =>
      rw [hl]
      exact Nat.le_trans (ih hms m.src) hm
    case _ => exact ih hms l

theorem acyclic_of_rising (h : ∀ m ∈ ms, rank m.src < rank m.dst) (m : Move) :
    ¬ Relation.TransGen (Overwrites ms) m m := by
  have falls {a b : Move} (hab : Relation.TransGen (Overwrites ms) a b) : rank b.dst < rank a.dst := by
    induction hab with
    | single hab =>
      rw [hab.2.2]
      exact h a hab.1
    | tail _ hbc ih =>
      rw [hbc.2.2]
      exact Nat.lt_trans (h _ hbc.1) ih
  exact fun hm => Nat.lt_irrefl _ (falls hm)

/-- What no later move writes stays. -/
theorem perform_kept {α : Type} (σ : Location → α) {l : Location} (h : ∀ m ∈ ms, m.dst ≠ l) : perform ms σ l = σ l := by
  induction ms generalizing σ with
  | nil => rfl
  | cons m ms ih =>
    show perform ms (step σ m) l = σ l
    rw [ih (step σ m) fun m' hm' => h m' (List.mem_cons_of_mem _ hm'), step, if_neg (h m List.mem_cons_self).symm]

/-- Moves that rise and have the effect of moves at once are in a safe order. -/
theorem safe_of_rising (hdst : out.Pairwise fun a b => a.dst ≠ b.dst) (h : ∀ m ∈ out, rank m.src < rank m.dst)
    (hout : ∀ m ∈ out, perform out id m.dst = m.src) : Safe out := by
  -- along the list: the moves in front of the rest are `pre`
  have rest_safe (rest pre : List Move) (hsplit : out = pre ++ rest) : Safe rest := by
    induction rest generalizing pre with
    | nil => exact .nil
    | cons a rest ih =>
      refine .cons (fun b hb => ?_) (ih (pre ++ [a]) (by rw [hsplit, List.append_assoc]; rfl))
      have hapart := (List.pairwise_append.mp (hsplit ▸ hdst)).2.1
      obtain ⟨ha, hrest⟩ := List.pairwise_cons.mp hapart
      refine ⟨fun hread => ?_, ha b hb⟩
      obtain ⟨mid, post, rfl⟩ := List.append_of_mem hb
      have hmid (m : Move) (hm : m ∈ mid) : m.dst ≠ b.src := by
        rw [← hread]
        exact (ha m (List.mem_append_left _ hm)).symm
      have hpost (m : Move) (hm : m ∈ post) : m.dst ≠ b.dst :=
        ((List.pairwise_cons.mp (List.pairwise_append.mp hrest).2.1).1 m hm).symm
      have hin {m : Move} (hm : m ∈ pre ++ a :: (mid ++ b :: post)) : m ∈ out := hsplit ▸ hm
      -- what `b` reads is what `a` read, which would have to come from where `a` writes
      have hsame : perform pre id a.src = a.dst := by
        have hb := hout b (hin (by simp))
        rw [hsplit, perform_append] at hb
        change perform (mid ++ b :: post) (step (perform pre id) a) b.dst = b.src at hb
        rw [perform_append] at hb
        change perform post (step (perform mid (step (perform pre id) a)) b) b.dst = b.src at hb
        rwa [perform_kept _ hpost, step, if_pos rfl, perform_kept _ hmid, ← hread, step, if_pos rfl] at hb
      have hle : rank (perform pre id a.src) ≤ rank a.src :=
        rank_perform (fun m hm => Nat.le_of_lt (h m (hin (List.mem_append_left _ hm)))) a.src
      rw [hsame] at hle
      exact absurd (h a (hin (by simp))) (Nat.not_lt_of_le hle)
  exact rest_safe out [] rfl

/-- The solver writes moves that rise as they are, in a safe order. -/
theorem solve_rising (rank : Location → Nat) {moves : List Move} (hv : scratch.isValid = true)
    (hsolve : ((solve moves scratch).run {}).1 = .ok out) (h : ∀ m ∈ moves, m.src ≠ m.dst → rank m.src < rank m.dst) :
    out.Perm (realMoves moves) ∧ Safe out := by
  have hrise (m : Move) (hm : m ∈ realMoves moves) : rank m.src < rank m.dst :=
    h m (List.mem_filter.mp hm).1 (real_of_mem hm)
  rcases run_graph moves scratch (s := {}) Arena.sound_empty with ⟨e, t, hrun, -⟩ | ⟨t, hrun, hlink, hent, hone⟩
  · rw [run_solve_error hrun] at hsolve
    cases hsolve
  · rw [run_solve_ok hrun] at hsolve
    cases hsolve
    have hfit := fit_of_enters hv (fun m => real_of_mem) hent hone
    obtain ⟨-, hord⟩ := ordered_writeAll hfit hlink
    obtain ⟨hperm, hfree⟩ := hord.acyclic fun m _ => acyclic_of_rising hrise m
    refine ⟨hperm, safe_of_rising ((hperm.pairwise_iff fun h => h.symm).mpr hent.2)
      (fun m hm => hrise m (hperm.subset hm)) fun m hm => ?_⟩
    rw [hord.performs id m.dst (hfree m hm).2, together]
    cases hfind : (realMoves moves).find? (·.dst = m.dst) with
    | none =>
      have := List.find?_eq_none.mp hfind m (hperm.subset hm)
      simp at this
    | some m' =>
      -- destinations are distinct, so the move that is found is the move itself
      obtain ⟨i, hi, rfl⟩ := exists_moveAt (hperm.subset hm)
      obtain ⟨j, hj, rfl⟩ := exists_moveAt (List.mem_of_find?_eq_some hfind)
      rw [hfit.dst j hj i hi (by simpa using List.find?_some hfind)]
      rfl

end MoveSolver

end RiscvJit
