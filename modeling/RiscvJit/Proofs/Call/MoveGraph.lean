import RiscvJit.Proofs.Arena
import RiscvJit.Call.Moves

/-
  RiscvJit.Proofs.Call.MoveGraph — the graph of a set of moves.

  Moves of a location to itself count for nothing; the others are `realMoves`. The solver refuses
  them exactly when one touches the scratch location, two have one destination, or two read a
  location that one of them writes (`Refused`). Otherwise every real move has its node, and two
  nodes are linked exactly when the second overwrites what the first reads (`Linked`).

  The graph is built in two passes, each a loop over one step: `Entered` is what the first pass
  keeps, `Linked ms k` what the second has established after `k` moves. `run_graph` puts both
  together.
-/

namespace RiscvJit.MoveSolver

/-- The moves that copy something to another place. -/
def realMoves (moves : List Move) : List Move := moves.filter fun m => m.src ≠ m.dst

/-- Two moves at different places of the list are so related, the earlier one first. -/
def Two (R : Move → Move → Prop) (ms : List Move) : Prop := ∃ a b, [a, b].Sublist ms ∧ R a b

/-- Why a set of moves cannot be ordered. -/
def Refused (moves : List Move) (scratch : Location) : Prop :=
  (∃ m ∈ realMoves moves, m.src.aliases scratch = true ∨ m.dst.aliases scratch = true) ∨
  Two (fun a b => a.dst = b.dst) (realMoves moves) ∨
  Two (fun a b => a.src = b.src ∧ ∃ c ∈ realMoves moves, c.dst = a.src) (realMoves moves)

/-- Move `j` of the list overwrites what move `i` reads. -/
def Follows (ms : List Move) (i j : Nat) : Prop := ∃ a b, ms[i]? = some a ∧ ms[j]? = some b ∧ b.dst = a.src

variable {ms : List Move} {i k : Nat} {s : MoveSolver}

theorem not_two_iff {R : Move → Move → Prop} : ¬ Two R ms ↔ ms.Pairwise fun a b => ¬ R a b := by
  rw [List.pairwise_iff_forall_sublist]
  constructor
  · intro h a b hs hr
    exact h ⟨a, b, hs, hr⟩
  · rintro h ⟨a, b, hs, hr⟩
    exact h hs hr

/-! ## Runs -/

theorem run_bind {α β : Type} (x : Solve α) (f : α → Solve β) (s : MoveSolver) :
    (x >>= f).run s = match x.run s with
      | (.ok a, t) => (f a).run t
      | (.error e, t) => (.error e, t) := by
  rw [ExceptT.run_bind]
  show StateT.bind x.run _ s = _
  unfold StateT.bind
  show (match x.run s with | (a, t) => _) = _
  rcases x.run s with ⟨r | a, t⟩ <;> rfl

section
variable {α β : Type} {x : Solve α} {f : α → Solve β} {g : α → Solve Unit} {s t : MoveSolver} {a : α} {e : MoveError}

theorem run_bind_ok (h : x.run s = (.ok a, t)) : (x >>= f).run s = (f a).run t := by rw [run_bind, h]

theorem run_bind_error (h : x.run s = (.error e, t)) : (x >>= f).run s = (.error e, t) := by rw [run_bind, h]

theorem run_get (s : MoveSolver) : (get : Solve MoveSolver).run s = (.ok s, s) := rfl

theorem run_forM_ok {as : List α} (h : (g a).run s = (.ok (), t)) : ((a :: as).forM g).run s = (as.forM g).run t := by
  rw [List.forM_eq_forM, List.forM_cons]
  exact run_bind_ok h

theorem run_forM_error {as : List α} (h : (g a).run s = (.error e, t)) :
    ((a :: as).forM g).run s = (.error e, t) := by
  rw [List.forM_eq_forM, List.forM_cons]
  exact run_bind_error h

end

/-- The solver with one more move in its graph. -/
def entered (m : Move) (s : MoveSolver) : MoveSolver :=
  { (s.append ⟨m, none, none, false⟩).2 with killers := (m.dst, s.nodes.count) :: s.killers }

theorem run_enter (scratch : Location) (m : Move) (s : MoveSolver) :
    (enter scratch m).run s =
      if m.src = m.dst then (.ok (), s)
      else if m.src.aliases scratch || m.dst.aliases scratch then (.error (.usesScratch m scratch), s)
      else if (s.killers.lookup m.dst).isSome then (.error (.sameTarget m.dst), s)
      else (.ok (), entered m s) := by
  unfold enter
  split
  · rfl
  split
  · rfl
  dsimp only
  rw [run_bind_ok (run_get s)]
  split
  · rfl
  · rfl

/-- The solver with move `i` linked to move `k`. -/
def linked (i k : Nat) (s : MoveSolver) : MoveSolver :=
  (s.update i fun n => { n with next := some k }).update k fun n => { n with prev := some i }

theorem run_link (i : Nat) (s : MoveSolver) :
    (link i).run s = match s.killers.lookup (s.nodes.get i).move.src with
      | none => (.ok (), s)
      | some k =>
        if k = i then (.ok (), s)
        else if (s.nodes.get i).next.isSome || (s.nodes.get k).prev.isSome then
          (.error (.sharedSource (s.nodes.get i).move.src), s)
        else (.ok (), linked i k s) := by
  unfold link
  rw [run_bind_ok (run_get s)]
  dsimp only
  cases s.killers.lookup (s.nodes.get i).move.src with
  | none => rfl
  | some k =>
    dsimp only
    split
    · rfl
    split
    · rfl
    · rfl

/-! ## First pass: every real move has its node -/

/-- The graph holds these moves, without links, and knows who writes what. -/
structure Entered (ms : List Move) (s : MoveSolver) : Prop where
  sound : s.nodes.Sound
  count : s.nodes.count = ms.length
  node : ∀ i m, ms[i]? = some m → s.nodes.get i = ⟨m, none, none, false⟩
  killer : ∀ l i, s.killers.lookup l = some i ↔ ∃ m, ms[i]? = some m ∧ m.dst = l
  out : s.out = #[]

theorem entered_clear (h : s.nodes.Sound) : Entered [] s.clear :=
  ⟨h.reset, rfl, by simp, by simp [clear], rfl⟩

theorem getElem?_snoc_iff {α : Type} {ms : List α} {m n : α} :
    (ms ++ [m])[i]? = some n ↔ ms[i]? = some n ∨ (i = ms.length ∧ n = m) := by
  rcases Nat.lt_trichotomy i ms.length with h | rfl | h
  · rw [List.getElem?_append_left h]
    exact ⟨.inl, fun h' => h'.elim id fun e => absurd e.1 (by omega)⟩
  · simp [eq_comm]
  · have e1 : (ms ++ [m])[i]? = none := List.getElem?_eq_none (by simp; omega)
    have e2 : ms[i]? = none := List.getElem?_eq_none (by omega)
    rw [e1, e2]
    simp [show i ≠ ms.length by omega]

theorem entered_step (h : Entered ms s) (m : Move) (hnew : s.killers.lookup m.dst = none) :
    Entered (ms ++ [m]) (entered m s) := by
  have hlt : ms.length < s.nodes.grow.count := by rw [Arena.count_grow, h.count]; omega
  have hget := Arena.get_modify h.sound.grow hlt (fun _ => ⟨m, none, none, false⟩)
  refine ⟨h.sound.grow.modify _ _, ?_, ?_, ?_, h.out⟩
  · simp [entered, append, h.count]
  · intro i n hi
    simp only [entered, append, h.count, hget]
    rcases getElem?_snoc_iff.mp hi with hi | ⟨rfl, rfl⟩
    · have hlt := (List.getElem?_eq_some_iff.mp hi).1
      rw [if_neg (by omega), Arena.get_grow h.sound (by rw [h.count]; exact hlt), h.node i n hi]
    · rw [if_pos rfl]
  · intro l i
    simp only [entered, append, h.count, List.lookup_cons, getElem?_snoc_iff]
    by_cases e : l = m.dst
    · subst e
      simp only [beq_self_eq_true, Option.some.injEq]
      constructor
      · rintro rfl
        exact ⟨m, .inr ⟨rfl, rfl⟩, rfl⟩
      · rintro ⟨n, hi | ⟨rfl, -⟩, hd⟩
        · rw [(h.killer _ _).mpr ⟨n, hi, hd⟩] at hnew
          cases hnew
        · rfl
    · rw [beq_false_of_ne e]
      simp only [h.killer]
      constructor
      · rintro ⟨n, hi, hd⟩
        exact ⟨n, .inl hi, hd⟩
      · rintro ⟨n, hi | ⟨-, rfl⟩, hd⟩
        · exact ⟨n, hi, hd⟩
        · exact absurd hd.symm e

/-- No move touches the scratch location and no two have one destination. -/
def Enters (scratch : Location) (ms : List Move) : Prop :=
  (∀ m ∈ ms, m.src.aliases scratch = false ∧ m.dst.aliases scratch = false) ∧ ms.Pairwise fun a b => a.dst ≠ b.dst

theorem run_enters (scratch : Location) (moves : List Move) : ∀ (ms : List Move) (s : MoveSolver), Entered ms s →
    Enters scratch ms →
    (∃ e t, (moves.forM (enter scratch)).run s = (.error e, t) ∧ t.nodes.Sound ∧
      ¬ Enters scratch (ms ++ realMoves moves)) ∨
    (∃ t, (moves.forM (enter scratch)).run s = (.ok (), t) ∧ Entered (ms ++ realMoves moves) t ∧
      Enters scratch (ms ++ realMoves moves)) := by
  induction moves with
  | nil =>
    intro ms s h hok
    exact .inr ⟨s, rfl, by simpa [realMoves] using h, by simpa [realMoves] using hok⟩
  | cons m moves ih =>
    intro ms s h hok
    have hrun := run_enter scratch m s
    by_cases hsame : m.src = m.dst
    · rw [if_pos hsame] at hrun
      have e : realMoves (m :: moves) = realMoves moves := by simp [realMoves, hsame]
      rw [run_forM_ok hrun, e]
      exact ih ms s h hok
    have e : realMoves (m :: moves) = m :: realMoves moves := by simp [realMoves, hsame]
    have eapp : ms ++ m :: realMoves moves = (ms ++ [m]) ++ realMoves moves := by simp
    rw [if_neg hsame] at hrun
    rw [e]
    by_cases halias : (m.src.aliases scratch || m.dst.aliases scratch) = true
    · rw [if_pos halias] at hrun
      refine .inl ⟨_, _, run_forM_error hrun, h.sound, ?_⟩
      rintro ⟨hfree, -⟩
      have := hfree m (by simp)
      simp [this.1, this.2] at halias
    rw [if_neg halias] at hrun
    cases hk : s.killers.lookup m.dst with
    | some i =>
      rw [hk, Option.isSome_some, if_pos rfl] at hrun
      refine .inl ⟨_, _, run_forM_error hrun, h.sound, ?_⟩
      rintro ⟨-, hdst⟩
      obtain ⟨n, hn, hd⟩ := (h.killer _ _).mp hk
      exact (List.pairwise_append.mp hdst).2.2 n (List.mem_of_getElem? hn) m (by simp) hd
    | none =>
      rw [hk, Option.isSome_none, if_neg nofun] at hrun
      rw [run_forM_ok hrun, eapp]
      refine ih (ms ++ [m]) _ (entered_step h m hk) ⟨?_, ?_⟩
      · intro n hn
        rcases List.mem_append.mp hn with hn | hn
        · exact hok.1 n hn
        · obtain rfl := List.mem_singleton.mp hn
          simpa using halias
      · refine List.pairwise_append.mpr ⟨hok.2, List.pairwise_singleton _ _, ?_⟩
        intro n hn b hb hd
        obtain rfl := List.mem_singleton.mp hb
        obtain ⟨i, hi⟩ := List.getElem?_of_mem hn
        rw [(h.killer _ i).mpr ⟨n, hi, hd⟩] at hk
        cases hk

/-! ## Second pass: the links -/

/-- The graph holds these moves, and the first `k` are linked to those that overwrite what they
read. -/
structure Linked (ms : List Move) (k : Nat) (s : MoveSolver) : Prop where
  sound : s.nodes.Sound
  count : s.nodes.count = ms.length
  move : ∀ i m, ms[i]? = some m → (s.nodes.get i).move = m ∧ (s.nodes.get i).done = false
  next : ∀ i < ms.length, ∀ j, (s.nodes.get i).next = some j ↔ i < k ∧ Follows ms i j
  prev : ∀ j < ms.length, ∀ i, (s.nodes.get j).prev = some i ↔ i < k ∧ Follows ms i j
  killer : ∀ l i, s.killers.lookup l = some i ↔ ∃ m, ms[i]? = some m ∧ m.dst = l
  out : s.out = #[]

/-- No two of the first `k` moves read what one move overwrites. -/
def ReadOnce (ms : List Move) (k : Nat) : Prop := ∀ i < k, ∀ i' < k, ∀ j, Follows ms i j → Follows ms i' j → i = i'

theorem Follows.lt {j : Nat} (h : Follows ms i j) : i < ms.length ∧ j < ms.length := by
  obtain ⟨a, b, ha, hb, -⟩ := h
  exact ⟨(List.getElem?_eq_some_iff.mp ha).1, (List.getElem?_eq_some_iff.mp hb).1⟩

theorem linked_zero (h : Entered ms s) : Linked ms 0 s := by
  have node : ∀ i < ms.length, ∃ m, s.nodes.get i = ⟨m, none, none, false⟩ := fun i hi =>
    ⟨ms[i], h.node i _ (List.getElem?_eq_getElem hi)⟩
  refine ⟨h.sound, h.count, ?_, ?_, ?_, h.killer, h.out⟩
  · intro i m hi
    rw [h.node i m hi]
    exact ⟨rfl, rfl⟩
  · intro i hi j
    obtain ⟨m, e⟩ := node i hi
    simp [e]
  · intro j hj i
    obtain ⟨m, e⟩ := node j hj
    simp [e]

theorem linked_skip (h : Linked ms k s) (hno : ∀ j, ¬ Follows ms k j) : Linked ms (k + 1) s := by
  have eq : ∀ i j, (i < k + 1 ∧ Follows ms i j) ↔ (i < k ∧ Follows ms i j) := by
    intro i j
    constructor
    · rintro ⟨hi, hf⟩
      by_cases e : i = k
      · exact absurd (e ▸ hf) (hno j)
      · exact ⟨by omega, hf⟩
    · rintro ⟨hi, hf⟩
      exact ⟨by omega, hf⟩
  exact ⟨h.sound, h.count, h.move, fun i hi j => (h.next i hi j).trans (eq i j).symm,
    fun j hj i => (h.prev j hj i).trans (eq i j).symm, h.killer, h.out⟩

/-- A node after move `i` was linked to move `k`. -/
theorem get_linked (h : s.nodes.Sound) (hi : i < s.nodes.count) (hk : k < s.nodes.count) (j : Nat) :
    (linked i k s).nodes.get j =
      { s.nodes.get j with
        next := if j = i then some k else (s.nodes.get j).next
        prev := if j = k then some i else (s.nodes.get j).prev } := by
  have hk' : k < (s.nodes.modify i fun n => { n with next := some k }).count := by rwa [Arena.count_modify]
  simp only [linked, update]
  rw [Arena.get_modify (h.modify _ _) hk', Arena.get_modify h hi, Arena.get_modify h hi]
  by_cases e : j = k
  · subst e
    by_cases e' : j = i
    · subst e'
      simp
    · simp [e']
  · by_cases e' : j = i
    · subst e'
      simp [e]
    · simp [e, e']

theorem follows_iff_killer (h : Linked ms k s) {m : Move} (hi : ms[i]? = some m) (j : Nat) :
    Follows ms i j ↔ s.killers.lookup m.src = some j := by
  rw [h.killer]
  constructor
  · rintro ⟨a, b, ha, hb, e⟩
    obtain rfl : m = a := Option.some.inj (hi.symm.trans ha)
    exact ⟨b, hb, e⟩
  · rintro ⟨b, hb, e⟩
    exact ⟨m, b, hi, hb, e⟩

theorem linked_step {j : Nat} (h : Linked ms k s) (hf : Follows ms k j) (hone : ∀ i < k, ¬ Follows ms i j) :
    Linked ms (k + 1) (linked k j s) := by
  obtain ⟨hk, hj⟩ := hf.lt
  have hget := get_linked h.sound (h.count ▸ hk) (h.count ▸ hj)
  have only : ∀ j', Follows ms k j' → j' = j := by
    intro j' hf'
    have hm := List.getElem?_eq_getElem hk
    exact Option.some.inj (((follows_iff_killer h hm j').mp hf').symm.trans ((follows_iff_killer h hm j).mp hf))
  refine ⟨(h.sound.modify _ _).modify _ _, ?_, ?_, ?_, ?_, h.killer, h.out⟩
  · simp [linked, update, h.count]
  · intro i m hi
    rw [hget]
    exact h.move i m hi
  · intro i hi j'
    rw [hget]
    by_cases e : i = k
    · subst e
      rw [if_pos rfl]
      exact ⟨fun e => Option.some.inj e ▸ ⟨by omega, hf⟩, fun hf' => by rw [only j' hf'.2]⟩
    · rw [if_neg e, h.next i hi j']
      exact ⟨fun h' => ⟨by omega, h'.2⟩, fun h' => ⟨by omega, h'.2⟩⟩
  · intro j' hj' i
    rw [hget]
    by_cases e : j' = j
    · subst e
      rw [if_pos rfl]
      constructor
      · intro e
        exact Option.some.inj e ▸ ⟨by omega, hf⟩
      · rintro ⟨hi, hf'⟩
        by_cases e : i = k
        · rw [e]
        · exact absurd hf' (hone i (by omega))
    · rw [if_neg e, h.prev j' hj' i]
      constructor
      · exact fun h' => ⟨by omega, h'.2⟩
      · rintro ⟨hi, hf'⟩
        refine ⟨?_, hf'⟩
        by_cases e' : i = k
        · exact absurd (only j' (e' ▸ hf')) e
        · omega

theorem run_links (hreal : ∀ m ∈ ms, m.src ≠ m.dst) : ∀ (n k : Nat) (s : MoveSolver), k + n = ms.length →
    Linked ms k s → ReadOnce ms k →
    (∃ e t, ((List.range' k n).forM link).run s = (.error e, t) ∧ t.nodes.Sound ∧ ¬ ReadOnce ms ms.length) ∨
    (∃ t, ((List.range' k n).forM link).run s = (.ok (), t) ∧ Linked ms ms.length t ∧ ReadOnce ms ms.length) := by
  intro n
  induction n with
  | zero =>
    intro k s hn h hok
    obtain rfl : k = ms.length := by omega
    exact .inr ⟨s, rfl, h, hok⟩
  | succ n ih =>
    intro k s hn h hok
    have hk : k < ms.length := by omega
    have hm := List.getElem?_eq_getElem hk
    have hrun := run_link k s
    rw [(h.move k _ hm).1] at hrun
    rw [List.range'_succ]
    cases hl : s.killers.lookup ms[k].src with
    | none =>
      have hno : ∀ j, ¬ Follows ms k j := by
        intro j hf
        rw [(follows_iff_killer h hm j).mp hf] at hl
        cases hl
      rw [hl] at hrun
      rw [run_forM_ok hrun]
      refine ih (k + 1) s (by omega) (linked_skip h hno) ?_
      intro i hi i' hi' j hf hf'
      have : i ≠ k := fun e => hno j (e ▸ hf)
      have : i' ≠ k := fun e => hno j (e ▸ hf')
      exact hok i (by omega) i' (by omega) j hf hf'
    | some j =>
      have hf := (follows_iff_killer h hm j).mpr hl
      have hne : j ≠ k := by
        rintro rfl
        obtain ⟨a, b, ha, hb, e⟩ := hf
        obtain rfl : a = b := Option.some.inj (ha.symm.trans hb)
        exact hreal a (List.mem_of_getElem? ha) e.symm
      have hnext : (s.nodes.get k).next = none := by
        cases e : (s.nodes.get k).next with
        | none => rfl
        | some j' => exact absurd ((h.next k hk j').mp e).1 (by omega)
      rw [hl] at hrun
      simp only [if_neg hne, hnext, Option.isSome_none, Bool.false_or] at hrun
      cases hp : (s.nodes.get j).prev with
      | some i =>
        -- an earlier move reads the same location
        obtain ⟨hi, hf'⟩ := (h.prev j hf.lt.2 i).mp hp
        rw [hp, Option.isSome_some, if_pos rfl] at hrun
        refine .inl ⟨_, _, run_forM_error hrun, h.sound, ?_⟩
        intro honce
        have := honce i (by omega) k hk j hf' hf
        omega
      | none =>
        have hone : ∀ i < k, ¬ Follows ms i j := by
          intro i hi hf'
          rw [(h.prev j hf.lt.2 i).mpr ⟨hi, hf'⟩] at hp
          cases hp
        rw [hp, Option.isSome_none, if_neg nofun] at hrun
        rw [run_forM_ok hrun]
        refine ih (k + 1) _ (by omega) (linked_step h hf hone) ?_
        have hnew : ∀ i < k, ∀ j', Follows ms i j' → ¬ Follows ms k j' := by
          intro i hi j' hi' hk'
          have e : j' = j :=
            Option.some.inj (((follows_iff_killer h hm j').mp hk').symm.trans ((follows_iff_killer h hm j).mp hf))
          exact hone i hi (e ▸ hi')
        intro i hi i' hi' j' hf1 hf2
        by_cases e : i = k
        · by_cases e' : i' = k
          · omega
          · exact absurd (e ▸ hf1) (hnew i' (by omega) j' hf2)
        · by_cases e' : i' = k
          · exact absurd (e' ▸ hf2) (hnew i (by omega) j' hf1)
          · exact hok i (by omega) i' (by omega) j' hf1 hf2

/-! ## Both passes -/

theorem readOnce_iff : ReadOnce ms ms.length ↔ ¬ Two (fun a b => a.src = b.src ∧ ∃ c ∈ ms, c.dst = a.src) ms := by
  rw [not_two_iff, List.pairwise_iff_getElem]
  constructor
  · rintro h i i' hi hi' hlt ⟨hsrc, c, hc, hd⟩
    obtain ⟨j, hj⟩ := List.getElem?_of_mem hc
    have hf : Follows ms i j := ⟨_, c, List.getElem?_eq_getElem hi, hj, hd⟩
    have hf' : Follows ms i' j := ⟨_, c, List.getElem?_eq_getElem hi', hj, hd.trans hsrc⟩
    have := h i hi i' hi' j hf hf'
    omega
  · intro h i hi i' hi' j ⟨a, b, ha, hb, e⟩ ⟨a', b', ha', hb', e'⟩
    obtain rfl : b = b' := Option.some.inj (hb.symm.trans hb')
    rw [← (List.getElem?_eq_some_iff.mp ha).2] at e
    rw [← (List.getElem?_eq_some_iff.mp ha').2] at e'
    have hc := List.mem_of_getElem? hb
    rcases Nat.lt_trichotomy i i' with lt | eq | gt
    · exact absurd ⟨e.symm.trans e', b, hc, e⟩ (h i i' hi hi' lt)
    · exact eq
    · exact absurd ⟨e'.symm.trans e, b, hc, e'⟩ (h i' i hi' hi gt)

theorem refused_iff {moves : List Move} {scratch : Location} : Refused moves scratch ↔
    ¬ (Enters scratch (realMoves moves) ∧ ReadOnce (realMoves moves) (realMoves moves).length) := by
  have hfree : (∀ m ∈ realMoves moves, m.src.aliases scratch = false ∧ m.dst.aliases scratch = false) ↔
      ¬ ∃ m ∈ realMoves moves, m.src.aliases scratch = true ∨ m.dst.aliases scratch = true := by
    simp only [not_exists, not_and, not_or, Bool.not_eq_true]
  rw [Enters, hfree, ← not_two_iff, readOnce_iff, Refused]
  simp only [Classical.not_and_iff_not_or_not, Classical.not_not, or_assoc]

/-- Building the graph fails exactly when the moves are refused; else it links every real move. -/
theorem run_graph (moves : List Move) (scratch : Location) (hs : s.nodes.Sound) :
    (∃ e t, (graph moves scratch).run s = (.error e, t) ∧ t.nodes.Sound ∧ Refused moves scratch) ∨
    (∃ t, (graph moves scratch).run s = (.ok (realMoves moves).length, t) ∧
      Linked (realMoves moves) (realMoves moves).length t ∧
      Enters scratch (realMoves moves) ∧ ReadOnce (realMoves moves) (realMoves moves).length) := by
  have hclear : (modify clear : Solve Unit).run s = (.ok (), s.clear) := rfl
  have hreal : ∀ m ∈ realMoves moves, m.src ≠ m.dst := by
    intro m hm
    simpa [realMoves] using (List.mem_filter.mp hm).2
  have hstart := run_enters scratch moves [] s.clear (entered_clear hs) ⟨nofun, .nil⟩
  simp only [List.nil_append] at hstart
  rw [graph, run_bind_ok hclear]
  rcases hstart with ⟨e, t, hrun, hsound, hbad⟩ | ⟨t, hrun, hent, hok⟩
  · exact .inl ⟨e, t, run_bind_error hrun, hsound, refused_iff.mpr fun h => hbad h.1⟩
  rw [run_bind_ok hrun, run_bind_ok (run_get t), hent.count]
  dsimp only
  rw [List.range_eq_range']
  have honce : ReadOnce (realMoves moves) 0 := fun i hi => absurd hi (by omega)
  have hlinks := run_links hreal (realMoves moves).length 0 t (Nat.zero_add _) (linked_zero hent) honce
  rcases hlinks with ⟨e, u, hrun', hsound, hbad⟩ | ⟨u, hrun', hlink, hone⟩
  · exact .inl ⟨e, u, run_bind_error hrun', hsound, refused_iff.mpr fun h => hbad h.2⟩
  · exact .inr ⟨u, run_bind_ok hrun', hlink, hok, hone⟩

end RiscvJit.MoveSolver
