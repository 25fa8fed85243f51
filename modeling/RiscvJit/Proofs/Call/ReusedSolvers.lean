import RiscvJit.Proofs.Call.MoveGraph

/-
  RiscvJit.Proofs.Call.ReusedSolvers — a solver that was used before is as good as a new one.

  A solver keeps three containers from one set of moves to the next, and a refusal can leave each of
  them half filled. Solving looks at them only through what they list: solvers with the same nodes,
  killers and moves (`Alike`) give the same result and are alike afterwards, whatever the outcome.
  Clearing makes all of them alike.
-/

namespace RiscvJit.MoveSolver

/-- The solvers hold the same items, in whatever memory. -/
structure Alike (s t : MoveSolver) : Prop where
  nodes : ∃ l, s.nodes.Lists l ∧ t.nodes.Lists l
  killers : s.killers = t.killers
  out : s.out = t.out

/-- Equal results, and solvers alike. -/
def Agrees {α : Type} (x y : Except MoveError α × MoveSolver) : Prop := x.1 = y.1 ∧ Alike x.2 y.2

variable {s t : MoveSolver}

theorem Alike.count (h : Alike s t) : s.nodes.count = t.nodes.count := by
  obtain ⟨l, hs, ht⟩ := h.nodes
  rw [hs.count, ht.count]

theorem Alike.get (h : Alike s t) (i : Nat) : s.nodes.get i = t.nodes.get i := by
  obtain ⟨l, hs, ht⟩ := h.nodes
  rw [hs.get_eq, ht.get_eq]

theorem Alike.update (h : Alike s t) (i : Nat) (f : MoveNode → MoveNode) : Alike (s.update i f) (t.update i f) := by
  obtain ⟨l, hs, ht⟩ := h.nodes
  exact ⟨⟨_, hs.modify i f, ht.modify i f⟩, h.killers, h.out⟩

theorem Alike.append (h : Alike s t) (n : MoveNode) : Alike (s.append n).2 (t.append n).2 := by
  obtain ⟨l, hs, ht⟩ := h.nodes
  refine ⟨⟨_, hs.grow.modify s.nodes.count fun _ => n, ?_⟩, h.killers, h.out⟩
  rw [h.count]
  exact ht.grow.modify t.nodes.count fun _ => n

/-! ## The graph -/

theorem agrees_bind {α β : Type} {x : Solve α} {f : α → Solve β} (hx : Agrees (x.run s) (x.run t))
    (hf : ∀ r s' t', Alike s' t' → Agrees ((f r).run s') ((f r).run t')) : Agrees ((x >>= f).run s)
    ((x >>= f).run t) := by
  obtain ⟨hresult, hsolver⟩ := hx
  rw [run_bind, run_bind]
  generalize x.run s = p at *
  generalize x.run t = q at *
  obtain ⟨rp, s'⟩ := p
  obtain ⟨rq, t'⟩ := q
  cases hresult
  cases rp with
  | error e => exact ⟨rfl, hsolver⟩
  | ok r => exact hf r s' t' hsolver

theorem agrees_forM {α : Type} {f : α → Solve Unit}
    (hf : ∀ r s t, Alike s t → Agrees ((f r).run s) ((f r).run t)) (rs : List α)
    (h : Alike s t) : Agrees ((rs.forM f).run s) ((rs.forM f).run t) := by
  induction rs generalizing s t with
  | nil => exact ⟨rfl, h⟩
  | cons r rs ih =>
    rw [List.forM_eq_forM, List.forM_cons]
    exact agrees_bind (hf r s t h) fun _ s' t' h' => ih h'

theorem agrees_enter (scratch : Location) (m : Move) (h : Alike s t) : Agrees ((enter scratch m).run s)
    ((enter scratch m).run t) := by
  rw [run_enter, run_enter, h.killers]
  split
  · exact ⟨rfl, h⟩
  split
  · exact ⟨rfl, h⟩
  split
  · exact ⟨rfl, h⟩
  · have happend := h.append ⟨m, none, none, false⟩
    exact ⟨rfl, happend.nodes, by simp only [entered, h.killers, h.count], happend.out⟩

theorem agrees_link (i : Nat) (h : Alike s t) : Agrees ((link i).run s) ((link i).run t) := by
  rw [run_link, run_link, h.killers, h.get]
  cases t.killers.lookup (t.nodes.get i).move.src with
  | none => exact ⟨rfl, h⟩
  | some k =>
    dsimp only
    rw [h.get]
    split
    · exact ⟨rfl, h⟩
    split
    · exact ⟨rfl, h⟩
    · exact ⟨rfl, (h.update i _).update k _⟩

theorem agrees_graph (moves : List Move) (scratch : Location) (h : Alike s.clear t.clear) :
    Agrees ((graph moves scratch).run s) ((graph moves scratch).run t) := by
  have hentered := agrees_forM (fun m _ _ => agrees_enter scratch m) moves h
  have hclear (u : MoveSolver) : (modify clear : Solve Unit).run u = (.ok (), u.clear) := rfl
  rw [graph, run_bind_ok (hclear s), run_bind_ok (hclear t)]
  refine agrees_bind hentered fun _ s' t' h' => ?_
  rw [run_bind_ok (run_get s'), run_bind_ok (run_get t'), h'.count]
  exact agrees_bind (agrees_forM (fun i _ _ => agrees_link i) _ h') fun _ s'' t'' h'' => ⟨rfl, h''⟩

/-! ## The order -/

theorem walkBack_congr {a b : Arena MoveNode} (h : ∀ i, a.get i = b.get i) (i fuel start : Nat) :
    walkBack a i fuel start = walkBack b i fuel start := by
  induction fuel generalizing start with
  | zero => rfl
  | succ fuel ih =>
    rw [walkBack, walkBack, h]
    split
    · rfl
    · split
      · rfl
      · exact ih _

theorem Alike.breakCycle (h : Alike s t) (i : Nat) (scratch : Location) : Alike (s.breakCycle i scratch)
    (t.breakCycle i scratch) := by
  unfold MoveSolver.breakCycle
  rw [h.get]
  dsimp only
  split
  · exact h
  case _ p _ =>
    have happend := h.append ⟨⟨scratch, (t.nodes.get i).move.dst, (t.nodes.get i).move.kind⟩, none, some p, false⟩
    have htail (n : MoveNode) : (s.append n).1 = (t.append n).1 := h.count
    simp only [htail]
    exact ((happend.update i _).update p _).update i _

theorem Alike.writeChain (h : Alike s t) (fuel cur : Nat) : Alike (writeChain fuel cur s) (writeChain fuel cur t) := by
  induction fuel generalizing cur s t with
  | zero => exact h
  | succ fuel ih =>
    have hdone := h.update cur fun n => { n with done := true }
    have hwrote : Alike { s.update cur fun n => { n with done := true } with out := s.out.push (s.nodes.get cur).move }
        { t.update cur fun n => { n with done := true } with out := t.out.push (t.nodes.get cur).move } :=
      ⟨hdone.nodes, hdone.killers, by rw [h.out, h.get]⟩
    rw [MoveSolver.writeChain, MoveSolver.writeChain, h.get]
    split
    · exact h.get cur ▸ hwrote
    · exact ih (h.get cur ▸ hwrote) _

theorem Alike.writeComponent (h : Alike s t) (scratch : Location) (i : Nat) :
    Alike (s.writeComponent scratch i) (t.writeComponent scratch i) := by
  unfold MoveSolver.writeComponent
  rw [h.get, walkBack_congr h.get, h.count]
  split
  · exact h
  · dsimp only
    rw [h.get]
    split
    · have hbroken := h.breakCycle (walkBack t.nodes i t.nodes.count i) scratch
      rw [hbroken.count]
      exact hbroken.writeChain _ _
    · rw [h.count]
      exact h.writeChain _ _

theorem Alike.writeAll (h : Alike s t) (scratch : Location) (total : Nat) :
    Alike (s.writeAll scratch total) (t.writeAll scratch total) := by
  unfold MoveSolver.writeAll
  generalize List.range total = is
  induction is generalizing s t with
  | nil => exact h
  | cons i is ih => exact ih (h.writeComponent scratch i)

/-! ## One set of moves after another -/

theorem agrees_solve (moves : List Move) (scratch : Location) (h : Alike s.clear t.clear) :
    Agrees ((solve moves scratch).run s) ((solve moves scratch).run t) := by
  refine agrees_bind (agrees_graph moves scratch h) fun total s' t' h' => ?_
  have hout := (h'.writeAll scratch total).out
  exact ⟨congrArg (fun out : Array Move => (Except.ok out.toList : Except MoveError _)) hout, h'.writeAll scratch total⟩

/-- The solver has memory of a kind that it can clear. -/
def Reusable (s : MoveSolver) : Prop := ∃ l, s.nodes.Lists l

theorem alike_cleared (hs : s.Reusable) (ht : t.Reusable) : Alike s.clear t.clear := by
  obtain ⟨_, hs⟩ := hs
  obtain ⟨_, ht⟩ := ht
  exact ⟨⟨[], hs.reset, ht.reset⟩, rfl, rfl⟩

theorem reusable_new : Reusable {} := ⟨[], Arena.lists_empty⟩

theorem reusable_solve (moves : List Move) (scratch : Location) (h : s.Reusable) :
    ((solve moves scratch).run s).2.Reusable := by
  obtain ⟨l, hs, -⟩ := (agrees_solve moves scratch (alike_cleared h h)).2.nodes
  exact ⟨l, hs⟩

/-- What a solver gives for one set of moves after another. -/
def solveAll (s : MoveSolver) : List (List Move × Location) → List (Except MoveError (List Move))
  | [] => []
  | c :: calls => ((solve c.1 c.2).run s).1 :: solveAll ((solve c.1 c.2).run s).2 calls

theorem solveAll_eq (h : s.Reusable) (calls : List (List Move × Location)) :
    s.solveAll calls = calls.map fun c => order c.1 c.2 := by
  induction calls generalizing s with
  | nil => rfl
  | cons c calls ih =>
    have hsame := (agrees_solve c.1 c.2 (alike_cleared h reusable_new)).1
    rw [solveAll, ih (reusable_solve c.1 c.2 h), List.map_cons, hsame]
    rfl

/-- Solving set after set gives, for each, the moves or the refusal that a new solver gives, and the memory
that this rests on answers every run of uses as a list does. -/
theorem solvers_can_be_reused :
    (∀ calls, solveAll {} calls = calls.map fun c => order c.1 c.2) ∧
      ∀ (α : Type) [Inhabited α] (us : List (Arena.Use α)),
      Arena.replies Arena.use {} us = Arena.replies Arena.useList [] us :=
  ⟨solveAll_eq reusable_new, fun _ _ us => Arena.lists_empty.replies us⟩

end RiscvJit.MoveSolver
