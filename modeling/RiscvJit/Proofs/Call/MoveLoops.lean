import Mathlib.Data.List.Chain
import Mathlib.Data.List.Perm.Subperm
import RiscvJit.Proofs.Call.MoveGraph

/-
  RiscvJit.Proofs.Call.MoveLoops — the two loops of the solver end.

  In the graph of moves that were taken every move has at most one successor and at most one
  predecessor (`Orderly`), so a walk along links that does not come back to where it began meets
  every move at most once (`Trail.cons`, `Trail.snoc`).

    - walking back from a move ends at the head of its chain, or at the move after it when it is on
      a cycle (`walkBack_spec`);
    - writing a chain writes the moves that the links lead along, each once (`writeChain_spec`);
    - breaking a cycle turns it into a chain that begins and ends at the scratch location
      (`broken_breakCycle`).

  `Walks`, `Chains`, `Component` and `Completes` are the loops themselves, with no bound on their
  steps: a derivation is a run that ends. What is written is not done with later: `Stage` says which
  moves are written and that the links of all others still stand.
-/

namespace RiscvJit.MoveSolver

/-! ## Chains and cycles -/

section
variable {ms : List Move}

/-- Every move has at most one that overwrites what it reads and at most one that reads what it
overwrites, neither of them itself: the graph is made of chains and cycles. -/
structure Orderly (ms : List Move) : Prop where
  irrefl : ∀ i, ¬ Follows ms i i
  next : ∀ {i j j'}, Follows ms i j → Follows ms i j' → j = j'
  prev : ∀ {i i' j}, Follows ms i j → Follows ms i' j → i = i'

/-- Different moves, each overwriting what the one before it reads. -/
structure Trail (ms : List Move) (p : List Nat) : Prop where
  chain : p.IsChain (Follows ms)
  nodup : p.Nodup
  lt : ∀ i ∈ p, i < ms.length

variable {p : List Nat}

theorem Trail.length_le (h : Trail ms p) : p.length ≤ ms.length := by
  have hsub : p ⊆ List.range ms.length := fun i hi => List.mem_range.mpr (h.lt i hi)
  simpa using (List.subperm_of_subset h.nodup hsub).length_le

theorem trail_singleton {i : Nat} (h : i < ms.length) : Trail ms [i] :=
  ⟨.singleton _, List.pairwise_singleton _ _, by simpa using h⟩

/-- In a trail whoever follows a move other than the last stands right after it. -/
theorem Trail.next_mem (g : Orderly ms) (h : Trail ms p) {a b : Nat} (ha : a ∈ p) (hf : Follows ms a b) :
    p.getLast? = some a ∨ ∃ j, p[j]? = some a ∧ p[j + 1]? = some b := by
  obtain ⟨j, hj, rfl⟩ := List.getElem_of_mem ha
  by_cases hlast : j + 1 < p.length
  · have := List.isChain_iff_getElem.mp h.chain j hlast
    exact .inr ⟨j, List.getElem?_eq_getElem hj, by rw [List.getElem?_eq_getElem hlast, g.next hf this]⟩
  · left
    rw [List.getLast?_eq_getElem?, show p.length - 1 = j by omega, List.getElem?_eq_getElem hj]

theorem Trail.cons (g : Orderly ms) {a q : Nat} {p : List Nat} (h : Trail ms (a :: p)) (hf : Follows ms q a)
    (hq : (a :: p).getLast? ≠ some q) : Trail ms (q :: a :: p) := by
  refine ⟨.cons_cons hf h.chain, List.nodup_cons.mpr ⟨?_, h.nodup⟩, ?_⟩
  · -- if it were on the trail already, the move after it would be the first one
    intro hmem
    rcases h.next_mem g hmem hf with hl | ⟨j, -, hj⟩
    · exact hq hl
    · rw [List.getElem?_cons_succ] at hj
      exact (List.nodup_cons.mp h.nodup).1 (List.mem_of_getElem? hj)
  · intro i hi
    rcases List.mem_cons.mp hi with rfl | hi
    · exact hf.lt.1
    · exact h.lt i hi

theorem Trail.snoc (g : Orderly ms) {a b : Nat} (h : Trail ms p) (hlast : p.getLast? = some a) (hf : Follows ms a b)
    (hb : p.head? ≠ some b) : Trail ms (p ++ [b]) := by
  refine ⟨?_, ?_, ?_⟩
  · refine List.isChain_append.mpr ⟨h.chain, .singleton _, ?_⟩
    intro x hx y hy
    obtain rfl : a = x := Option.some.inj (hlast.symm.trans hx)
    obtain rfl : b = y := by simpa using hy
    exact hf
  · refine List.nodup_append.mpr ⟨h.nodup, List.pairwise_singleton _ _, ?_⟩
    rintro x hx y hy rfl
    obtain rfl := List.mem_singleton.mp hy
    -- the move before it would be the last one
    obtain ⟨j, hj, rfl⟩ := List.getElem_of_mem hx
    cases j with
    | zero => exact hb (by rw [List.head?_eq_getElem?, List.getElem?_eq_getElem hj])
    | succ j =>
      have hprev := g.prev hf (List.isChain_iff_getElem.mp h.chain j hj)
      rw [List.getLast?_eq_getElem?, List.getElem?_eq_getElem (by omega), hprev] at hlast
      have := (List.getElem_inj h.nodup).mp (Option.some.inj hlast)
      omega
  · intro i hi
    rcases List.mem_append.mp hi with hi | hi
    · exact h.lt i hi
    · rw [List.mem_singleton.mp hi]; exact hf.lt.2

/-- A trail whose first move comes first can be followed up to a move that comes last. -/
theorem Trail.forward (g : Orderly ms) : ∀ (n : Nat) (p : List Nat), Trail ms p → p ≠ [] → ms.length - p.length ≤ n →
    (∀ a ∈ p.head?, ∀ j, ¬ Follows ms j a) → ∃ q, Trail ms (p ++ q) ∧ ∀ a ∈ (p ++ q).getLast?, ∀ j, ¬ Follows ms a j := by
  intro n
  induction n with
  | zero =>
    intro p h hne hn hfirst
    refine ⟨[], by simpa using h, ?_⟩
    intro a ha j hf
    rw [List.append_nil] at ha
    have := (h.snoc g ha hf fun hb => hfirst j hb a hf).length_le
    simp at this
    omega
  | succ n ih =>
    intro p h hne hn hfirst
    obtain ⟨a, ha⟩ : ∃ a, p.getLast? = some a := ⟨_, List.getLast?_eq_getLast_of_ne_nil hne⟩
    by_cases hf : ∃ j, Follows ms a j
    · obtain ⟨j, hf⟩ := hf
      have hj := h.snoc g ha hf fun hb => hfirst j hb a hf
      have hhead : (p ++ [j]).head? = p.head? := by cases p <;> simp_all
      obtain ⟨q, hq, hlast⟩ := ih (p ++ [j]) hj (by simp) (by simp; omega) (by rwa [hhead])
      rw [List.append_assoc] at hq hlast
      exact ⟨_, hq, hlast⟩
    · refine ⟨[], by simpa using h, ?_⟩
      intro b hb j hf'
      rw [List.append_nil] at hb
      obtain rfl : a = b := Option.some.inj (ha.symm.trans hb)
      exact hf ⟨j, hf'⟩

end

/-! ## The loops without a bound -/

/-- Walking back from a move ends at a move: the head of its chain, or the one after `i`. -/
inductive Walks (nodes : Arena MoveNode) (i : Nat) : Nat → Nat → Prop
  | head {start : Nat} : (nodes.get start).prev = none → Walks nodes i start start
  | round {start : Nat} : (nodes.get start).prev = some i → Walks nodes i start start
  | back {start p stop : Nat} : (nodes.get start).prev = some p → p ≠ i → Walks nodes i p stop →
      Walks nodes i start stop

/-- The solver after it wrote one move. -/
def wrote (cur : Nat) (s : MoveSolver) : MoveSolver :=
  { s.update cur fun n => { n with done := true } with out := s.out.push (s.nodes.get cur).move }

/-- Writing a chain from a move on ends with this solver. -/
inductive Chains : Nat → MoveSolver → MoveSolver → Prop
  | last {cur : Nat} {s : MoveSolver} : (s.nodes.get cur).next = none → Chains cur s (s.wrote cur)
  | step {cur next : Nat} {s t : MoveSolver} : (s.nodes.get cur).next = some next → Chains next (s.wrote cur) t →
      Chains cur s t

/-- Writing the component of a move ends with this solver. -/
inductive Component (scratch : Location) (i : Nat) (s : MoveSolver) : MoveSolver → Prop
  | old : (s.nodes.get i).done = true → Component scratch i s s
  | chain {start : Nat} {t : MoveSolver} : (s.nodes.get i).done = false → Walks s.nodes i i start →
      (s.nodes.get start).prev ≠ some i → Chains start s t → Component scratch i s t
  | cycle {start : Nat} {t : MoveSolver} : (s.nodes.get i).done = false → Walks s.nodes i i start →
      (s.nodes.get start).prev = some i → Chains start (s.breakCycle start scratch) t → Component scratch i s t

/-- Writing the components of these moves, one after the other, ends with this solver. -/
inductive Completes (scratch : Location) : List Nat → MoveSolver → MoveSolver → Prop
  | nil {s : MoveSolver} : Completes scratch [] s s
  | cons {i : Nat} {is : List Nat} {s t u : MoveSolver} : Component scratch i s t → Completes scratch is t u →
      Completes scratch (i :: is) s u

/-- The moves `D` are written and done with; of the others the graph still holds every link. -/
structure Stage (ms : List Move) (D : List Nat) (s : MoveSolver) : Prop where
  sound : s.nodes.Sound
  count : ms.length ≤ s.nodes.count
  done : ∀ i < ms.length, (s.nodes.get i).done = true ↔ i ∈ D
  move : ∀ i m, ms[i]? = some m → i ∉ D → (s.nodes.get i).move = m
  next : ∀ i < ms.length, i ∉ D → ∀ j, (s.nodes.get i).next = some j ↔ Follows ms i j
  prev : ∀ j < ms.length, j ∉ D → ∀ i, (s.nodes.get j).prev = some i ↔ Follows ms i j
  closed : ∀ i j, Follows ms i j → (i ∈ D ↔ j ∈ D)

variable {s : MoveSolver}

theorem stage_of_linked {ms : List Move} (h : Linked ms ms.length s) : Stage ms [] s := by
  refine ⟨h.sound, Nat.le_of_eq h.count.symm, ?_, fun i m hi _ => (h.move i m hi).1, ?_, ?_, by simp⟩
  · intro i hi
    simp [(h.move i _ (List.getElem?_eq_getElem hi)).2]
  · intro i hi _ j
    exact (h.next i hi j).trans ⟨And.right, fun hf => ⟨hi, hf⟩⟩
  · intro j hj _ i
    exact (h.prev j hj i).trans ⟨And.right, fun hf => ⟨hf.lt.1, hf⟩⟩

/-- A trail that meets none of the moves done with, and ends at `i`. -/
structure Open (ms : List Move) (D : List Nat) (i : Nat) (p : List Nat) : Prop where
  trail : Trail ms p
  last : p.getLast? = some i
  undone : ∀ x ∈ p, x ∉ D

theorem walkBack_spec {ms : List Move} {D : List Nat} (h : Stage ms D s) (g : Orderly ms) (i : Nat) :
    ∀ (fuel start : Nat) (p : List Nat), Open ms D i (start :: p) → ms.length < fuel + (start :: p).length →
    ∃ q, Walks s.nodes i start (walkBack s.nodes i fuel start) ∧ Open ms D i (walkBack s.nodes i fuel start :: q) ∧
      ((∀ j, ¬ Follows ms j (walkBack s.nodes i fuel start)) ∨ Follows ms i (walkBack s.nodes i fuel start)) := by
  intro fuel
  induction fuel with
  | zero =>
    intro start p ho hn
    have := ho.trail.length_le
    omega
  | succ fuel ih =>
    intro start p ho hn
    have hlt := ho.trail.lt start (by simp)
    have hprev := h.prev start hlt (ho.undone start (by simp))
    rw [walkBack]
    cases hp : (s.nodes.get start).prev with
    | none =>
      refine ⟨p, .head hp, ho, .inl fun j hf => ?_⟩
      rw [(hprev j).mpr hf] at hp
      cases hp
    | some q =>
      dsimp only
      have hf := (hprev q).mp hp
      by_cases e : q = i
      · subst e
        rw [if_pos rfl]
        exact ⟨p, .round hp, ho, .inr hf⟩
      · rw [if_neg e]
        have hlast : (start :: p).getLast? ≠ some q := fun h' => e (Option.some.inj (h'.symm.trans ho.last))
        have ho' : Open ms D i (q :: start :: p) := by
          refine ⟨ho.trail.cons g hf hlast, by rw [List.getLast?_cons_cons]; exact ho.last, ?_⟩
          intro x hx
          rcases List.mem_cons.mp hx with rfl | hx
          · exact fun hmem => ho.undone start (by simp) ((h.closed _ _ hf).mp hmem)
          · exact ho.undone x hx
        obtain ⟨r, hw, hopen, hend⟩ := ih q (start :: p) ho' (by simp at hn ⊢; omega)
        exact ⟨r, .back hp e hw, hopen, hend⟩

/-! ## Writing a chain -/

/-- The links lead along these moves and end there. -/
def Leads (nodes : Arena MoveNode) : List Nat → Prop
  | [] => False
  | [a] => (nodes.get a).next = none
  | a :: b :: rest => (nodes.get a).next = some b ∧ Leads nodes (b :: rest)

/-- The solver `t` is `s` after it wrote these moves. -/
structure Written (p : List Nat) (s t : MoveSolver) : Prop where
  sound : t.nodes.Sound
  count : t.nodes.count = s.nodes.count
  get : ∀ j, t.nodes.get j = { s.nodes.get j with done := (s.nodes.get j).done || p.contains j }
  out : t.out.toList = s.out.toList ++ p.map fun j => (s.nodes.get j).move

theorem written_wrote {cur : Nat} (h : s.nodes.Sound) (hlt : cur < s.nodes.count) : Written [cur] s (s.wrote cur) := by
  refine ⟨h.modify _ _, by simp [wrote, update], ?_, by simp [wrote]⟩
  intro j
  simp only [wrote, update, Arena.get_modify h hlt]
  by_cases e : j = cur
  · subst e; simp
  · simp [e]

theorem Leads.congr {a b : Arena MoveNode} (hn : ∀ x, (a.get x).next = (b.get x).next) :
    ∀ {p : List Nat}, Leads a p → Leads b p
  | [], h => h
  | [x], h => (hn x).symm.trans h
  | x :: _ :: _, ⟨h, hrest⟩ => ⟨(hn x).symm.trans h, hrest.congr hn⟩

theorem writeChain_spec : ∀ (p : List Nat) (cur fuel : Nat) (s : MoveSolver), Leads s.nodes (cur :: p) →
    (∀ x ∈ cur :: p, x < s.nodes.count) → s.nodes.Sound → p.length < fuel →
    (cur :: p).Nodup → Chains cur s (writeChain fuel cur s) ∧ Written (cur :: p) s (writeChain fuel cur s) := by
  intro p
  induction p with
  | nil =>
    intro cur fuel s hl hlt hs hfuel hnd
    obtain ⟨fuel, rfl⟩ : ∃ f, fuel = f + 1 := ⟨fuel - 1, by omega⟩
    have hnext : (s.nodes.get cur).next = none := hl
    have e : writeChain (fuel + 1) cur s = s.wrote cur := by simp only [writeChain, hnext]; rfl
    rw [e]
    exact ⟨.last hnext, written_wrote hs (hlt cur (by simp))⟩
  | cons b p ih =>
    intro cur fuel s hl hlt hs hfuel hnd
    obtain ⟨fuel, rfl⟩ : ∃ f, fuel = f + 1 := ⟨fuel - 1, by omega⟩
    obtain ⟨hnext, hrest⟩ := hl
    have e : writeChain (fuel + 1) cur s = writeChain fuel b (s.wrote cur) := by
      simp only [writeChain, hnext]; rfl
    have hw := written_wrote hs (hlt cur (by simp))
    obtain ⟨hnot, hnd⟩ := List.nodup_cons.mp hnd
    obtain ⟨hchain, hwritten⟩ := ih b fuel (s.wrote cur) (hrest.congr fun x => by rw [hw.get])
      (fun x hx => by rw [hw.count]; exact hlt x (by simp [List.mem_cons.mp hx])) hw.sound
      (by simp at hfuel; omega) hnd
    rw [e]
    refine ⟨.step hnext hchain, hwritten.sound, hwritten.count.trans hw.count, ?_, ?_⟩
    · intro j
      rw [hwritten.get, hw.get]
      simp [Bool.or_assoc]
    · rw [hwritten.out, hw.out]
      simp [hw.get]

/-! ## Breaking a cycle -/

theorem breakCycle_nodes {start i : Nat} {scratch : Location} (hprev : (s.nodes.get start).prev = some i) :
    (s.breakCycle start scratch).nodes =
      (((s.nodes.grow.modify s.nodes.count fun _ =>
        ⟨⟨scratch, (s.nodes.get start).move.dst, (s.nodes.get start).move.kind⟩, none, some i, false⟩).modify start
          fun n => { n with prev := none }).modify i fun n => { n with next := some s.nodes.count }).modify start
            fun n => { n with move := { n.move with dst := scratch } } := by
  simp only [breakCycle, hprev]
  rfl

theorem breakCycle_out (start : Nat) (scratch : Location) : (s.breakCycle start scratch).out = s.out := by
  unfold breakCycle
  dsimp only
  split <;> rfl

/-- What breaking the cycle of `start` and its predecessor `i` does to the graph. -/
structure Broken (scratch : Location) (start i : Nat) (s t : MoveSolver) : Prop where
  sound : t.nodes.Sound
  count : t.nodes.count = s.nodes.count + 1
  out : t.out = s.out
  tail : t.nodes.get s.nodes.count =
    ⟨⟨scratch, (s.nodes.get start).move.dst, (s.nodes.get start).move.kind⟩, none, some i, false⟩
  get : ∀ j < s.nodes.count, t.nodes.get j =
    { s.nodes.get j with
      move := if j = start then { (s.nodes.get j).move with dst := scratch } else (s.nodes.get j).move
      next := if j = i then some s.nodes.count else (s.nodes.get j).next
      prev := if j = start then none else (s.nodes.get j).prev }

theorem broken_breakCycle {start i : Nat} (scratch : Location) (h : s.nodes.Sound) (hstart : start < s.nodes.count)
    (hi : i < s.nodes.count) (hprev : (s.nodes.get start).prev = some i) (hne : start ≠ i) :
    Broken scratch start i s (s.breakCycle start scratch) := by
  have h0 := h.grow.modify s.nodes.count fun _ =>
    ⟨⟨scratch, (s.nodes.get start).move.dst, (s.nodes.get start).move.kind⟩, none, some i, false⟩
  have h1 := h0.modify start fun n => { n with prev := none }
  have h2 := h1.modify i fun n => { n with next := some s.nodes.count }
  have hget : ∀ j, (s.breakCycle start scratch).nodes.get j = _ := fun j => by
    rw [breakCycle_nodes hprev, Arena.get_modify h2 (by simp; omega), Arena.get_modify h1 (by simp; omega),
      Arena.get_modify h1 (by simp; omega), Arena.get_modify h0 (by simp; omega), Arena.get_modify h0 (by simp; omega),
      Arena.get_modify h0 (by simp; omega), Arena.get_modify h.grow (by simp), Arena.get_modify h.grow (by simp),
      Arena.get_modify h.grow (by simp), Arena.get_grow h hstart, Arena.get_grow h hi]
  refine ⟨?_, ?_, breakCycle_out start scratch, ?_, ?_⟩
  · rw [breakCycle_nodes hprev]
    exact h2.modify _ _
  · rw [breakCycle_nodes hprev]
    simp
  · rw [hget, if_neg (by omega), if_neg (by omega), if_neg (by omega), if_pos rfl]
  · intro j hj
    rw [hget, Arena.get_grow h hj]
    have e : j ≠ s.nodes.count := by omega
    by_cases e1 : j = start
    · subst e1
      simp [hne, e]
    · by_cases e2 : j = i
      · subst e2
        simp [e1, e]
      · simp [e1, e2, e]

end RiscvJit.MoveSolver
