import RiscvJit.Proofs.Call.MoveLoops

/-
  RiscvJit.Proofs.Call.ParallelMoves — a sequence of moves that does what the moves do at once.

  A sequence in which no move overwrites what a later one reads or writes does what its moves do
  at once (`perform_safe`); so does a cycle whose first move goes by way of the scratch location
  (`perform_cycle`). A component is a `Chain` or a `Cycle`, no link leaves or enters it (`Whole`),
  and so components can be written in any order (`Performs.append`).

  `Progress` is the invariant of the loop over the moves: what is written so far does what its
  moves do at once, and takes one move more for every cycle. `writeComponent_spec` is one turn of
  the loop, `writeAll_spec` all of them. The solver, also one that was used before, fails exactly on
  the moves that are refused and else gives such a sequence (`solve_orders_moves`).
-/

namespace RiscvJit.MoveSolver

/-! ## What a sequence of moves does -/

/-- Perform one move on a store. -/
def step {α : Type} (σ : Location → α) (m : Move) : Location → α := fun l => if l = m.dst then σ m.src else σ l

/-- Perform moves one after the other. -/
def perform {α : Type} (out : List Move) (σ : Location → α) : Location → α := out.foldl step σ

/-- Perform moves at once. -/
def together {α : Type} (ms : List Move) (σ : Location → α) (l : Location) : α :=
  match ms.find? (·.dst = l) with
  | some m => σ m.src
  | none => σ l

variable {α : Type}

theorem perform_append (a b : List Move) (σ : Location → α) : perform (a ++ b) σ = perform b (perform a σ) :=
  List.foldl_append

/-- No move overwrites what a later one reads or writes. -/
def Safe (ms : List Move) : Prop := ms.Pairwise fun a b => a.dst ≠ b.src ∧ a.dst ≠ b.dst

theorem perform_safe {ms : List Move} (h : Safe ms) (σ : Location → α) :
    (∀ m ∈ ms, perform ms σ m.dst = σ m.src) ∧ (∀ l, (∀ m ∈ ms, m.dst ≠ l) → perform ms σ l = σ l) := by
  induction ms generalizing σ with
  | nil => exact ⟨nofun, fun l _ => rfl⟩
  | cons a ms ih =>
    obtain ⟨ha, hms⟩ := List.pairwise_cons.mp h
    obtain ⟨moved, kept⟩ := ih hms (step σ a)
    have e : perform (a :: ms) σ = perform ms (step σ a) := rfl
    rw [e]
    constructor
    · intro m hm
      rcases List.mem_cons.mp hm with rfl | hm
      · rw [kept m.dst fun b hb => (ha b hb).2.symm, step, if_pos rfl]
      · rw [moved m hm, step, if_neg (ha m hm).1.symm]
    · intro l hl
      rw [kept l fun m hm => hl m (by simp [hm]), step, if_neg (hl a (by simp)).symm]

/-- A cycle through the scratch location moves what its moves would move at once. -/
theorem perform_cycle {a : Move} {ms : List Move} {scratch : Location} (h : Safe ms)
    (hfree : ∀ m ∈ a :: ms, m.src ≠ scratch ∧ m.dst ≠ scratch) (hdst : ∀ m ∈ ms, m.dst ≠ a.dst) (σ : Location → α) :
    let out := { a with dst := scratch } :: (ms ++ [⟨scratch, a.dst, a.kind⟩])
    (∀ m ∈ a :: ms, perform out σ m.dst = σ m.src) ∧
      (∀ l, l ≠ scratch → (∀ m ∈ a :: ms, m.dst ≠ l) → perform out σ l = σ l) := by
  intro out
  have e : perform out σ = step (perform ms (step σ { a with dst := scratch })) ⟨scratch, a.dst, a.kind⟩ := by
    show perform (ms ++ _) _ = _
    rw [perform_append]
    rfl
  obtain ⟨moved, kept⟩ := perform_safe h (step σ { a with dst := scratch })
  rw [e]
  constructor
  · intro m hm
    rcases List.mem_cons.mp hm with rfl | hm
    · rw [step, if_pos rfl, kept scratch fun b hb => (hfree b (by simp [hb])).2, step, if_pos rfl]
    · rw [step, if_neg (hdst m hm), moved m hm, step, if_neg (hfree m (by simp [hm])).1]
  · intro l hl hno
    rw [step, if_neg (hno a (by simp)).symm, kept l fun m hm => hno m (by simp [hm]), step, if_neg hl]

/-! ## One component after the other -/

/-- A set of moves no link leaves or enters. -/
def Whole (ms : List Move) (p : List Nat) : Prop := ∀ a b, Follows ms a b → (a ∈ p ↔ b ∈ p)

/-- A trail from a move that comes first to a move that comes last. -/
structure Chain (ms : List Move) (p : List Nat) : Prop where
  trail : Trail ms p
  first : ∀ a ∈ p.head?, ∀ j, ¬ Follows ms j a
  last : ∀ a ∈ p.getLast?, ∀ j, ¬ Follows ms a j

/-- A trail whose last move is followed by its first. -/
structure Cycle (ms : List Move) (p : List Nat) : Prop where
  trail : Trail ms p
  round : ∃ a b, p.head? = some a ∧ p.getLast? = some b ∧ Follows ms b a

section
variable {ms : List Move} {p : List Nat}

variable {scratch : Location} {D : List Nat} {cs : List (List Nat)} {out : List Move} {s : MoveSolver} {a start i j : Nat}

/-- In a trail whoever a move other than the first follows stands right before it. -/
theorem Trail.prev_mem (g : Orderly ms) (h : Trail ms p) {b : Nat} (hb : b ∈ p) (hf : Follows ms a b) :
    p.head? = some b ∨ ∃ j, p[j]? = some a ∧ p[j + 1]? = some b := by
  obtain ⟨j, hj, rfl⟩ := List.getElem_of_mem hb
  cases j with
  | zero => exact .inl (by rw [List.head?_eq_getElem?, List.getElem?_eq_getElem hj])
  | succ j =>
    have hprev := g.prev hf (List.isChain_iff_getElem.mp h.chain j hj)
    exact .inr ⟨j, by rw [hprev]; exact List.getElem?_eq_getElem _, List.getElem?_eq_getElem hj⟩

theorem Chain.whole (g : Orderly ms) (h : Chain ms p) : Whole ms p := by
  intro a b hf
  constructor
  · intro ha
    rcases h.trail.next_mem g ha hf with hl | ⟨j, -, hj⟩
    · exact absurd hf (h.last a hl b)
    · exact List.mem_of_getElem? hj
  · intro hb
    rcases h.trail.prev_mem g hb hf with hh | ⟨j, hj, -⟩
    · exact absurd hf (h.first b hh a)
    · exact List.mem_of_getElem? hj

theorem Cycle.whole (g : Orderly ms) (h : Cycle ms p) : Whole ms p := by
  obtain ⟨x, y, hx, hy, hround⟩ := h.round
  intro a b hf
  constructor
  · intro ha
    rcases h.trail.next_mem g ha hf with hl | ⟨j, -, hj⟩
    · obtain rfl : y = a := Option.some.inj (hy.symm.trans hl)
      rw [g.next hf hround]
      exact List.mem_of_mem_head? hx
    · exact List.mem_of_getElem? hj
  · intro hb
    rcases h.trail.prev_mem g hb hf with hh | ⟨j, hj, -⟩
    · obtain rfl : x = b := Option.some.inj (hx.symm.trans hh)
      rw [g.prev hf hround]
      exact List.mem_of_getLast? hy
    · exact List.mem_of_getElem? hj

/-- The move at an index of the list. -/
def moveAt (ms : List Move) (i : Nat) : Move := ms.getD i default

theorem getElem?_moveAt (h : i < ms.length) : ms[i]? = some (moveAt ms i) := by
  simp [moveAt, List.getD_eq_getElem?_getD, List.getElem?_eq_getElem h]

theorem follows_iff (hi : i < ms.length) (hj : j < ms.length) :
    Follows ms i j ↔ (moveAt ms j).dst = (moveAt ms i).src := by
  constructor
  · rintro ⟨a, b, ha, hb, e⟩
    rw [getElem?_moveAt hi] at ha
    rw [getElem?_moveAt hj] at hb
    rw [Option.some.inj ha, Option.some.inj hb, e]
  · exact fun e => ⟨_, _, getElem?_moveAt hi, getElem?_moveAt hj, e⟩

/-- What the solver has checked of the moves. -/
structure Fit (ms : List Move) (scratch : Location) : Prop where
  orderly : Orderly ms
  free : ∀ i < ms.length, (moveAt ms i).src ≠ scratch ∧ (moveAt ms i).dst ≠ scratch
  dst : ∀ i < ms.length, ∀ j < ms.length, (moveAt ms i).dst = (moveAt ms j).dst → i = j

/-- A trail that is not a cycle is in a safe order. -/
theorem Trail.safe (f : Fit ms scratch) (h : Trail ms p) (hopen : ∀ a ∈ p.head?, ∀ b ∈ p.getLast?, ¬ Follows ms b a) :
    Safe (p.map (moveAt ms)) := by
  rw [Safe, List.pairwise_map, List.pairwise_iff_getElem]
  intro i j hi hj hij
  have hlti := h.lt _ (List.getElem_mem hi)
  have hltj := h.lt _ (List.getElem_mem hj)
  have inj : ∀ {k l : Nat} (hl : l < p.length), p[k]? = some p[l] → k = l := by
    intro k l hl hk
    obtain ⟨hk', e⟩ := List.getElem?_eq_some_iff.mp hk
    exact (List.getElem_inj h.nodup).mp e
  constructor
  · intro e
    have hf := (follows_iff hltj hlti).mpr e
    rcases h.prev_mem f.orderly (List.getElem_mem hi) hf with hh | ⟨k, hk, hk'⟩
    · rcases h.next_mem f.orderly (List.getElem_mem hj) hf with hl | ⟨k, hk, hk'⟩
      · exact hopen _ hh _ hl hf
      · have := inj hj hk
        have := inj hi hk'
        omega
    · have := inj hj hk
      have := inj hi hk'
      omega
  · intro e
    have := (List.getElem_inj h.nodup).mp (f.dst _ hlti _ hltj e)
    omega

/-! ## What is written so far -/

/-- Performing the output moves what the moves `D` would move at once and changes nothing else but
the scratch location. -/
structure Performs (ms : List Move) (scratch : Location) (D : List Nat) (out : List Move) : Prop where
  moved : ∀ {α : Type} (σ : Location → α), ∀ i ∈ D, perform out σ (moveAt ms i).dst = σ (moveAt ms i).src
  kept : ∀ {α : Type} (σ : Location → α) l, l ≠ scratch → (∀ i ∈ D, (moveAt ms i).dst ≠ l) → perform out σ l = σ l

theorem Performs.append {new : List Move} (f : Fit ms scratch) (hD : Performs ms scratch D out)
    (hp : Performs ms scratch p new) (hltD : ∀ i ∈ D, i < ms.length) (hltp : ∀ i ∈ p, i < ms.length)
    (hnew : ∀ i ∈ p, i ∉ D)
    (hwhole : Whole ms D) : Performs ms scratch (D ++ p) (out ++ new) := by
  constructor
  · intro α σ i hi
    rw [perform_append]
    by_cases hip : i ∈ p
    · rw [hp.moved _ i hip, hD.kept σ _ (f.free i (hltp i hip)).1]
      -- nothing written so far is read by the moves that follow
      intro j hj e
      have hf := (follows_iff (hltp i hip) (hltD j hj)).mpr e
      exact hnew i hip ((hwhole i j hf).mpr hj)
    · have hiD : i ∈ D := (List.mem_append.mp hi).resolve_right hip
      rw [hp.kept _ _ (f.free i (hltD i hiD)).2, hD.moved σ i hiD]
      intro j hj e
      exact hip (f.dst j (hltp j hj) i (hltD i hiD) e ▸ hj)
  · intro α σ l hl hno
    rw [perform_append, hp.kept _ l hl fun i hi => hno i (by simp [hi]), hD.kept σ l hl fun i hi => hno i (by simp [hi])]

theorem Chain.performs (f : Fit ms scratch) (h : Chain ms p) : Performs ms scratch p (p.map (moveAt ms)) := by
  have hsafe := h.trail.safe f fun a ha b _ => h.first a ha b
  constructor
  · intro α σ i hi
    exact (perform_safe hsafe σ).1 _ (List.mem_map_of_mem hi)
  · intro α σ l _ hno
    refine (perform_safe hsafe σ).2 l fun m hm => ?_
    obtain ⟨i, hi, rfl⟩ := List.mem_map.mp hm
    exact hno i hi

/-- The moves of a cycle, the first by way of the scratch location. -/
def aroundScratch (ms : List Move) (scratch : Location) (start : Nat) (p : List Nat) : List Move :=
  { moveAt ms start with dst := scratch } :: (p.map (moveAt ms) ++
  [⟨scratch, (moveAt ms start).dst, (moveAt ms start).kind⟩])

theorem Cycle.performs (f : Fit ms scratch) (h : Cycle ms (start :: p)) :
    Performs ms scratch (start :: p) (aroundScratch ms scratch start p) := by
  obtain ⟨hstart, hnd⟩ := List.nodup_cons.mp h.trail.nodup
  have hlt := h.trail.lt
  have hrest : Trail ms p := ⟨h.trail.chain.tail, hnd, fun i hi => hlt i (by simp [hi])⟩
  have hopen : ∀ a ∈ p.head?, ∀ b ∈ p.getLast?, ¬ Follows ms b a := by
    intro a ha b hb hf
    -- the first of the rest follows `start`, so the last of the rest would be `start`
    have hsa : Follows ms start a := (List.isChain_cons.mp h.trail.chain).1 a ha
    exact hstart (f.orderly.prev hsa hf ▸ List.mem_of_getLast? hb)
  have hfree : ∀ m ∈ moveAt ms start :: p.map (moveAt ms), m.src ≠ scratch ∧ m.dst ≠ scratch := by
    intro m hm
    obtain ⟨i, hi, rfl⟩ := List.mem_map.mp (show m ∈ (start :: p).map (moveAt ms) from hm)
    exact f.free i (hlt i hi)
  have hdst : ∀ m ∈ p.map (moveAt ms), m.dst ≠ (moveAt ms start).dst := by
    intro m hm e
    obtain ⟨i, hi, rfl⟩ := List.mem_map.mp hm
    exact hstart (f.dst i (hlt i (by simp [hi])) start (hlt start (by simp)) e ▸ hi)
  constructor
  · intro α σ i hi
    exact (perform_cycle (hrest.safe f hopen) hfree hdst σ).1 _ (List.mem_map_of_mem hi)
  · intro α σ l hl hno
    refine (perform_cycle (hrest.safe f hopen) hfree hdst σ).2 l hl fun m hm => ?_
    obtain ⟨i, hi, rfl⟩ := List.mem_map.mp (show m ∈ (start :: p).map (moveAt ms) from hm)
    exact hno i hi

/-- How many moves are written: those of `D`, and one more for every cycle. -/
structure Tally (ms : List Move) (D : List Nat) (cs : List (List Nat)) (out : List Move) : Prop where
  length : out.length = D.length + cs.length
  plain : cs = [] → out = D.map (moveAt ms)
  cycles : ∀ c ∈ cs, Cycle ms c
  inside : ∀ c ∈ cs, ∀ i ∈ c, i ∈ D
  apart : cs.flatten.Nodup
  rest : ∀ i ∈ D, i ∉ cs.flatten → ¬ Relation.TransGen (Follows ms) i i

/-- Who precedes a move on a cycle is on a cycle. -/
theorem onCycle_prev (g : Orderly ms) (hf : Follows ms i j) (h : Relation.TransGen (Follows ms) j j) :
    Relation.TransGen (Follows ms) i i := by
  cases h with
  | single h => exact absurd h (g.irrefl j)
  | @tail b _ hjb hbj =>
    obtain rfl : i = b := g.prev hf hbj
    exact Relation.TransGen.trans (.single hf) hjb

/-- No move of a chain is on a cycle. -/
theorem Chain.not_onCycle (g : Orderly ms) (h : Chain ms p) : ∀ i ∈ p, ¬ Relation.TransGen (Follows ms) i i := by
  intro i hi hc
  obtain ⟨j, hj, rfl⟩ := List.getElem_of_mem hi
  induction j with
  | zero =>
    have hhead : p.head? = some p[0] := by rw [List.head?_eq_getElem?, List.getElem?_eq_getElem hj]
    cases hc with
    | single hf => exact h.first _ hhead _ hf
    | tail _ hf => exact h.first _ hhead _ hf
  | succ j ih =>
    exact ih (by omega) (List.getElem_mem _) (onCycle_prev g (List.isChain_iff_getElem.mp h.trail.chain j hj) hc)

theorem Tally.chain (g : Orderly ms) (t : Tally ms D cs out) (h : Chain ms p) :
    Tally ms (D ++ p) cs (out ++ p.map (moveAt ms)) := by
  refine ⟨?_, ?_, t.cycles, ?_, t.apart, ?_⟩
  · simp [t.length]; omega
  · intro e; simp [t.plain e]
  · exact fun c hc i hi => List.mem_append_left _ (t.inside c hc i hi)
  · intro i hi hno
    rcases List.mem_append.mp hi with hi | hi
    · exact t.rest i hi hno
    · exact h.not_onCycle g i hi

theorem Tally.cycle (t : Tally ms D cs out) (h : Cycle ms (start :: p)) (hnew : ∀ i ∈ start :: p, i ∉ D) :
    Tally ms (D ++ start :: p) (cs ++ [start :: p]) (out ++ aroundScratch ms scratch start p) := by
  refine ⟨?_, ?_, ?_, ?_, ?_, ?_⟩
  · simp [t.length, aroundScratch]; omega
  · intro e; simp at e
  · intro c hc
    rcases List.mem_append.mp hc with hc | hc
    · exact t.cycles c hc
    · rw [List.mem_singleton.mp hc]; exact h
  · intro c hc i hi
    rcases List.mem_append.mp hc with hc | hc
    · exact List.mem_append_left _ (t.inside c hc i hi)
    · rw [List.mem_singleton.mp hc] at hi; exact List.mem_append_right _ hi
  · rw [List.flatten_append, List.nodup_append]
    refine ⟨t.apart, by simpa using h.trail.nodup, ?_⟩
    rintro i hi j hj rfl
    obtain ⟨c, hc, hic⟩ := List.mem_flatten.mp hi
    exact hnew i (by simpa using hj) (t.inside c hc i hic)
  · intro i hi hno
    rw [List.flatten_append] at hno
    rcases List.mem_append.mp hi with hi | hi
    · exact t.rest i hi fun h' => hno (List.mem_append_left _ h')
    · exact absurd (List.mem_append_right _ (by simpa using hi)) hno

/-! ## Writing a component -/

theorem leads_of_isChain {nodes : Arena MoveNode} : ∀ {p : List Nat}, p ≠ [] →
    p.IsChain (fun a b => (nodes.get a).next = some b) → (∀ a ∈ p.getLast?, (nodes.get a).next = none) →
    Leads nodes p
  | [], hne, _, _ => hne rfl
  | [a], _, _, hlast => hlast a rfl
  | a :: b :: p, _, hchain, hlast => by
    obtain ⟨hab, hrest⟩ := List.isChain_cons_cons.mp hchain
    exact ⟨hab, leads_of_isChain (by simp) hrest fun c hc => hlast c (by rwa [List.getLast?_cons_cons])⟩

/-- Along a trail all moves are done with or none is. -/
theorem Trail.undone (hwhole : Whole ms D) : ∀ {p : List Nat}, p.IsChain (Follows ms) → ∀ i ∈ p, i ∉ D →
    ∀ j ∈ p, j ∉ D
  | [], _, _, hi, _ => by simp at hi
  | [a], _, i, hi, hno => by
    obtain rfl := List.mem_singleton.mp hi
    intro j hj
    rwa [List.mem_singleton.mp hj]
  | a :: b :: p, h, i, hi, hno => by
    obtain ⟨hab, hrest⟩ := List.isChain_cons_cons.mp h
    have hb : b ∉ D := by
      rcases List.mem_cons.mp hi with rfl | hi
      · exact fun hb => hno ((hwhole _ _ hab).mpr hb)
      · exact Trail.undone hwhole hrest i hi hno b (by simp)
    intro j hj
    rcases List.mem_cons.mp hj with rfl | hj
    · exact fun ha => hb ((hwhole _ _ hab).mp ha)
    · exact Trail.undone hwhole hrest b (by simp) hb j hj

theorem Whole.append (hD : Whole ms D) (hp : Whole ms p) : Whole ms (D ++ p) := by
  intro a b hf
  rw [List.mem_append, List.mem_append, hD a b hf, hp a b hf]

/-- Writing moves that no link leaves or enters keeps the rest of the graph. `r` are the moves and
nodes beyond the graph, `s'` the solver that the moves are written from. -/
theorem Stage.append {r : List Nat} {s' t : MoveSolver} (h : Stage ms D s) (hw : Written r s' t)
    (hcount : s.nodes.count ≤ s'.nodes.count) (hr : ∀ i < ms.length, i ∈ r ↔ i ∈ p)
    (hdone : ∀ i < ms.length, (s'.nodes.get i).done = (s.nodes.get i).done)
    (hsame : ∀ i < ms.length, i ∉ p → s'.nodes.get i = s.nodes.get i) (hp : Whole ms p) : Stage ms (D ++ p) t := by
  have hrest : ∀ i < ms.length, i ∉ D ++ p → i ∉ D ∧
    t.nodes.get i = { s.nodes.get i with done := (s.nodes.get i).done || r.contains i } := by
    intro i hi hno
    rw [List.mem_append, not_or] at hno
    exact ⟨hno.1, by rw [hw.get, hsame i hi hno.2]⟩
  refine ⟨hw.sound, by rw [hw.count]; exact h.count.trans hcount, ?_, ?_, ?_, ?_, fun a b hf => Whole.append h.closed hp a b hf⟩
  · intro i hi
    rw [hw.get, hdone i hi]
    simp [h.done i hi, hr i hi]
  · intro i m hm hno
    obtain ⟨hno, e⟩ := hrest i (List.getElem?_eq_some_iff.mp hm).1 hno
    rw [e]
    exact h.move i m hm hno
  · intro i hi hno j
    obtain ⟨hno, e⟩ := hrest i hi hno
    rw [e]
    exact h.next i hi hno j
  · intro j hj hno i
    obtain ⟨hno, e⟩ := hrest j hj hno
    rw [e]
    exact h.prev j hj hno i

theorem next_eq_none (h : Stage ms D s) (ha : a < ms.length) (hno : a ∉ D) (hlast : ∀ j, ¬ Follows ms a j) :
    (s.nodes.get a).next = none := by
  cases e : (s.nodes.get a).next with
  | none => rfl
  | some j => exact absurd ((h.next a ha hno j).mp e) (hlast j)

theorem move_eq (h : Stage ms D s) (ha : a < ms.length) (hno : a ∉ D) :
    (s.nodes.get a).move = moveAt ms a := h.move a _ (getElem?_moveAt ha) hno

theorem writeChain_chain (h : Stage ms D s) (g : Orderly ms) (hc : Chain ms (start :: p))
    (hno : ∀ i ∈ start :: p, i ∉ D) :
    Chains start s (writeChain s.nodes.count start s) ∧ Stage ms (D ++ start :: p) (writeChain s.nodes.count start s) ∧
      (writeChain s.nodes.count start s).out.toList = s.out.toList ++ (start :: p).map (moveAt ms) := by
  have hlt := hc.trail.lt
  have hlen := hc.trail.length_le
  have hcount := h.count
  have hleads : Leads s.nodes (start :: p) := by
    refine leads_of_isChain (by simp) ?_ ?_
    · refine List.isChain_iff_getElem.mpr fun j hj => ?_
      have hmem : (start :: p)[j] ∈ start :: p := List.getElem_mem _
      exact (h.next _ (hlt _ hmem) (hno _ hmem) _).mpr (List.isChain_iff_getElem.mp hc.trail.chain j hj)
    · intro a ha
      have hmem := List.mem_of_getLast? ha
      exact next_eq_none h (hlt a hmem) (hno a hmem) (hc.last a ha)
  obtain ⟨hchains, hw⟩ := writeChain_spec p start s.nodes.count s hleads
    (fun x hx => Nat.lt_of_lt_of_le (hlt x hx) hcount) h.sound (by simp at hlen; omega) hc.trail.nodup
  refine ⟨hchains, h.append hw (Nat.le_refl _) (fun _ _ => Iff.rfl) (fun _ _ => rfl) (fun _ _ _ => rfl) (hc.whole g), ?_⟩
  rw [hw.out]
  congr 1
  exact List.map_congr_left fun i hi => move_eq h (hlt i hi) (hno i hi)

/-- Writing a cycle from the move that goes by way of the scratch location. -/
theorem writeChain_cycle (scratch : Location) (h : Stage ms D s) (g : Orderly ms) (ht : Trail ms (start :: p))
    (hlast : (start :: p).getLast? = some i) (hf : Follows ms i start) (hno : ∀ j ∈ start :: p, j ∉ D) :
    let s' := s.breakCycle start scratch
    Chains start s' (writeChain s'.nodes.count start s') ∧
    Stage ms (D ++ start :: p) (writeChain s'.nodes.count start s') ∧
      (writeChain s'.nodes.count start s').out.toList = s.out.toList ++ aroundScratch ms scratch start p := by
  intro s'
  have hlt := ht.lt
  have hlen := ht.length_le
  have hcount := h.count
  have hcyc : Cycle ms (start :: p) := ⟨ht, start, i, rfl, hlast, hf⟩
  have hmem : start ∈ start :: p := by simp
  have hi : i ∈ start :: p := List.mem_of_getLast? hlast
  have hne : start ≠ i := fun e => g.irrefl i (e ▸ hf)
  have hprev : (s.nodes.get start).prev = some i := (h.prev start (hlt _ hmem) (hno _ hmem) i).mpr hf
  have hb := broken_breakCycle scratch h.sound (Nat.lt_of_lt_of_le (hlt _ hmem) hcount)
    (Nat.lt_of_lt_of_le (hlt _ hi) hcount) hprev hne
  have hold : ∀ j ∈ start :: p, j < s.nodes.count := fun j hj => Nat.lt_of_lt_of_le (hlt j hj) hcount
  -- the links of the cycle, up to the new node at its end
  have hleads : Leads s'.nodes (start :: (p ++ [s.nodes.count])) := by
    refine leads_of_isChain (by simp) ?_ ?_
    · rw [← List.cons_append]
      refine List.isChain_append.mpr ⟨List.isChain_iff_getElem.mpr fun j hj => ?_, .singleton _, ?_⟩
      · have hj' : (start :: p)[j] ∈ start :: p := List.getElem_mem _
        have hji : (start :: p)[j] ≠ i := by
          intro e
          rw [List.getLast?_eq_getElem?, List.getElem?_eq_getElem (by omega), ← e] at hlast
          have := (List.getElem_inj ht.nodup).mp (Option.some.inj hlast)
          omega
        rw [hb.get _ (hold _ hj'), if_neg hji]
        exact (h.next _ (hlt _ hj') (hno _ hj') _).mpr (List.isChain_iff_getElem.mp ht.chain j hj)
      · intro a ha b hb'
        obtain rfl : i = a := Option.some.inj (hlast.symm.trans ha)
        obtain rfl : s.nodes.count = b := by simpa using hb'
        rw [hb.get _ (hold _ hi), if_pos rfl]
    · intro a ha
      rw [← List.cons_append, List.getLast?_concat] at ha
      obtain rfl : s.nodes.count = a := Option.some.inj ha
      rw [hb.tail]
  have hnd : (start :: (p ++ [s.nodes.count])).Nodup := by
    rw [← List.cons_append]
    refine List.nodup_append.mpr ⟨ht.nodup, List.pairwise_singleton _ _, ?_⟩
    rintro a ha b hb' rfl
    have := hold a ha
    rw [List.mem_singleton.mp hb'] at this
    omega
  have hall : ∀ x ∈ start :: (p ++ [s.nodes.count]), x < s'.nodes.count := by
    intro x hx
    show x < (s.breakCycle start scratch).nodes.count
    rw [hb.count]
    rw [← List.cons_append] at hx
    rcases List.mem_append.mp hx with hx | hx
    · have := hold x hx; omega
    · rw [List.mem_singleton.mp hx]; omega
  obtain ⟨hchains, hw⟩ := writeChain_spec (p ++ [s.nodes.count]) start s'.nodes.count s' hleads hall hb.sound
    (by rw [show s'.nodes.count = _ from hb.count]; simp at hlen ⊢; omega) hnd
  refine ⟨hchains, h.append hw ?_ ?_ ?_ ?_ (hcyc.whole g), ?_⟩
  · exact hb.count ▸ Nat.le_succ _
  · intro j hj
    rw [← List.cons_append, List.mem_append, List.mem_singleton]
    exact ⟨fun h' => h'.resolve_right (by omega), .inl⟩
  · intro j hj
    rw [hb.get j (by omega)]
  · intro j hj hjp
    rw [hb.get j (by omega), if_neg fun (e : j = start) => hjp (e ▸ hmem), if_neg fun (e : j = i) => hjp (e ▸ hi),
      if_neg fun (e : j = start) => hjp (e ▸ hmem)]
  · have hstart := move_eq h (hlt _ hmem) (hno _ hmem)
    have hrest : p.map (fun j => (s'.nodes.get j).move) = p.map (moveAt ms) := by
      refine List.map_congr_left fun j hj => ?_
      have hj' : j ∈ start :: p := by simp [hj]
      have hjs : j ≠ start := fun e => (List.nodup_cons.mp ht.nodup).1 (e ▸ hj)
      rw [hb.get j (hold j hj'), if_neg hjs]
      exact move_eq h (hlt j hj') (hno j hj')
    rw [hw.out, show s'.out = s.out from hb.out, List.map_cons, List.map_append, hrest, List.map_singleton, hb.tail,
      hb.get start (hold _ hmem), if_pos rfl, hstart]
    rfl

/-! ## All components -/

/-- The moves `D` are written, and everything written is theirs. -/
structure Progress (ms : List Move) (scratch : Location) (D : List Nat) (cs : List (List Nat)) (s : MoveSolver) :
    Prop where
  stage : Stage ms D s
  performs : Performs ms scratch D s.out.toList
  tally : Tally ms D cs s.out.toList
  lt : ∀ i ∈ D, i < ms.length
  nodup : D.Nodup

theorem nodup_append_new (hD : D.Nodup) (hp : p.Nodup) (hnew : ∀ i ∈ p, i ∉ D) : (D ++ p).Nodup := by
  refine List.nodup_append.mpr ⟨hD, hp, ?_⟩
  rintro a ha b hb rfl
  exact hnew a hb ha

/-- One turn of the loop writes the component of its move and ends. -/
theorem writeComponent_spec (f : Fit ms scratch) (h : Progress ms scratch D cs s) (hi : i < ms.length) :
    Component scratch i s (s.writeComponent scratch i) ∧
      ∃ D' cs', Progress ms scratch (D ++ D') cs' (s.writeComponent scratch i) ∧ i ∈ D ++ D' := by
  have g := f.orderly
  unfold writeComponent
  by_cases hdone : (s.nodes.get i).done = true
  · rw [if_pos hdone]
    exact ⟨.old hdone, [], cs, by simpa using h, by simpa using (h.stage.done i hi).mp hdone⟩
  have hiD : i ∉ D := fun hmem => hdone ((h.stage.done i hi).mpr hmem)
  rw [if_neg hdone]
  have hopen : Open ms D i [i] := ⟨trail_singleton hi, rfl, by simpa using hiD⟩
  have hcount := h.stage.count
  obtain ⟨q, hwalk, ho, hend⟩ := walkBack_spec h.stage g i s.nodes.count i [] hopen (by simp; omega)
  dsimp only
  generalize walkBack s.nodes i s.nodes.count i = start at *
  have hlt := ho.trail.lt start (by simp)
  have hprev := h.stage.prev start hlt (ho.undone start (by simp)) i
  have hdone' : (s.nodes.get i).done = false := by simpa using hdone
  rcases hend with hfirst | hround
  · -- a chain: from its head through `i` to its end
    have hno : (s.nodes.get start).prev ≠ some i := fun e => hfirst i (hprev.mp e)
    rw [if_neg hno]
    obtain ⟨r, htrail, hlast⟩ := ho.trail.forward g ms.length (start :: q) (by simp) (by omega)
      (by simpa using hfirst)
    have hc : Chain ms (start :: (q ++ r)) := ⟨htrail, by simpa using hfirst, hlast⟩
    have hi' : i ∈ start :: (q ++ r) := List.mem_append_left _ (List.mem_of_getLast? ho.last)
    have hnew := Trail.undone h.stage.closed hc.trail.chain i hi' hiD
    obtain ⟨hchains, hstage, hout⟩ := writeChain_chain h.stage g hc hnew
    refine ⟨.chain hdone' hwalk hno hchains, start :: (q ++ r), cs, ⟨hstage, ?_, ?_, ?_, ?_⟩, by simp [hi']⟩
    · rw [hout]
      exact h.performs.append f (hc.performs f) h.lt hc.trail.lt hnew h.stage.closed
    · rw [hout]
      exact h.tally.chain g hc
    · exact fun j hj => (List.mem_append.mp hj).elim (h.lt j) (hc.trail.lt j)
    · exact nodup_append_new h.nodup hc.trail.nodup hnew
  · -- a cycle: from the move after `i` round to `i`
    have hyes := hprev.mpr hround
    rw [if_pos hyes]
    have hc : Cycle ms (start :: q) := ⟨ho.trail, start, i, rfl, ho.last, hround⟩
    obtain ⟨hchains, hstage, hout⟩ := writeChain_cycle scratch h.stage g ho.trail ho.last hround ho.undone
    refine ⟨.cycle hdone' hwalk hyes hchains, start :: q, cs ++ [start :: q], ⟨hstage, ?_, ?_, ?_, ?_⟩,
      List.mem_append_right _ (List.mem_of_getLast? ho.last)⟩
    · rw [hout]
      exact h.performs.append f (hc.performs f) h.lt hc.trail.lt ho.undone h.stage.closed
    · rw [hout]
      exact h.tally.cycle hc ho.undone
    · exact fun j hj => (List.mem_append.mp hj).elim (h.lt j) (hc.trail.lt j)
    · exact nodup_append_new h.nodup hc.trail.nodup ho.undone

theorem writeAll_spec (f : Fit ms scratch) : ∀ (is D : List Nat) (cs : List (List Nat)) (s : MoveSolver),
    (∀ i ∈ is, i < ms.length) → Progress ms scratch D cs s →
    Completes scratch is s (is.foldl (fun s i => s.writeComponent scratch i) s) ∧
      ∃ D' cs', Progress ms scratch (D ++ D') cs' (is.foldl (fun s i => s.writeComponent scratch i) s) ∧
        ∀ i ∈ is, i ∈ D ++ D' := by
  intro is
  induction is with
  | nil => exact fun D cs s _ h => ⟨.nil, [], cs, by simpa using h, by simp⟩
  | cons i is ih =>
    intro D cs s hlt h
    obtain ⟨hcomp, D1, cs1, h1, hi⟩ := writeComponent_spec f h (hlt i (by simp))
    obtain ⟨hrest, D2, cs2, h2, his⟩ := ih _ cs1 _ (fun j hj => hlt j (by simp [hj])) h1
    refine ⟨.cons hcomp hrest, D1 ++ D2, cs2, by simpa [List.append_assoc] using h2, ?_⟩
    intro j hj
    rw [← List.append_assoc]
    rcases List.mem_cons.mp hj with rfl | hj
    · exact List.mem_append_left _ hi
    · exact his j hj

theorem progress_start (h : Linked ms ms.length s) : Progress ms scratch [] [] s := by
  have hout : s.out.toList = [] := by rw [h.out]
  refine ⟨stage_of_linked h, ?_, ?_, nofun, .nil⟩
  · rw [hout]
    exact ⟨nofun, fun σ l _ _ => rfl⟩
  · rw [hout]
    exact ⟨rfl, fun _ => rfl, nofun, nofun, .nil, nofun⟩

/-! ## The moves that the solver takes -/

theorem aliases_self {l : Location} (h : l.isValid = true) : l.aliases l = true := by
  cases l with
  | nowhere => cases h
  | int n => simp [Location.aliases]
  | float n => simp [Location.aliases]
  | stack slot => simp [Location.aliases, slotsPerWord]

theorem fit_of_enters (hv : scratch.isValid = true) (hreal : ∀ m ∈ ms, m.src ≠ m.dst) (h : Enters scratch ms)
    (hone : ReadOnce ms ms.length) : Fit ms scratch := by
  have hmem : ∀ i < ms.length, moveAt ms i ∈ ms := fun i hi => List.mem_of_getElem? (getElem?_moveAt hi)
  have hdst : ∀ i < ms.length, ∀ j < ms.length, (moveAt ms i).dst = (moveAt ms j).dst → i = j := by
    intro i hi j hj e
    have hpair := List.pairwise_iff_getElem.mp h.2
    have hat : ∀ k (hk : k < ms.length), moveAt ms k = ms[k] := fun k hk =>
      Option.some.inj ((getElem?_moveAt hk).symm.trans (List.getElem?_eq_getElem hk))
    rw [hat i hi, hat j hj] at e
    rcases Nat.lt_trichotomy i j with lt | eq | gt
    · exact absurd e (hpair i j hi hj lt)
    · exact eq
    · exact absurd e.symm (hpair j i hj hi gt)
  refine ⟨⟨?_, ?_, ?_⟩, ?_, hdst⟩
  · intro i hf
    exact hreal _ (hmem i hf.lt.1) ((follows_iff hf.lt.1 hf.lt.1).mp hf).symm
  · intro i j j' hf hf'
    have e := (follows_iff hf.lt.1 hf.lt.2).mp hf
    have e' := (follows_iff hf'.lt.1 hf'.lt.2).mp hf'
    exact hdst j hf.lt.2 j' hf'.lt.2 (e.trans e'.symm)
  · exact fun hf hf' => hone _ hf.lt.1 _ hf'.lt.1 _ hf hf'
  · intro i hi
    have hfree := h.1 _ (hmem i hi)
    have hself := aliases_self hv
    exact ⟨fun e => by rw [e, hself] at hfree; exact absurd hfree.1 nofun,
      fun e => by rw [e, hself] at hfree; exact absurd hfree.2 nofun⟩

/-! ## Cycles of moves -/

/-- The second move overwrites what the first reads, so it has to come later. -/
def Overwrites (ms : List Move) (a b : Move) : Prop := a ∈ ms ∧ b ∈ ms ∧ b.dst = a.src

/-- Different moves, each overwriting what the one before it reads, and the first what the last reads. -/
structure MoveCycle (ms c : List Move) : Prop where
  nodup : c.Nodup
  chain : c.IsChain (Overwrites ms)
  round : ∃ a b, c.head? = some a ∧ c.getLast? = some b ∧ Overwrites ms b a

/-- These are the cycles of the moves, each once. -/
structure MoveCycles (ms : List Move) (cs : List (List Move)) : Prop where
  cycle : ∀ c ∈ cs, MoveCycle ms c
  apart : cs.flatten.Nodup
  all : ∀ m ∈ ms, Relation.TransGen (Overwrites ms) m m → m ∈ cs.flatten

theorem mem_moveAt (hi : i < ms.length) : moveAt ms i ∈ ms := List.mem_of_getElem? (getElem?_moveAt hi)

theorem exists_moveAt {m : Move} (h : m ∈ ms) : ∃ i < ms.length, moveAt ms i = m := by
  obtain ⟨i, hi⟩ := List.getElem?_of_mem h
  have hlt := (List.getElem?_eq_some_iff.mp hi).1
  exact ⟨i, hlt, Option.some.inj ((getElem?_moveAt hlt).symm.trans hi)⟩

theorem Follows.overwrites (h : Follows ms i j) : Overwrites ms (moveAt ms i) (moveAt ms j) :=
  ⟨mem_moveAt h.lt.1, mem_moveAt h.lt.2, (follows_iff h.lt.1 h.lt.2).mp h⟩

theorem follows_of_transGen {a b : Move} (h : Relation.TransGen (Overwrites ms) a b) : ∀ i < ms.length, ∀ j < ms.length,
    moveAt ms i = a → moveAt ms j = b → Relation.TransGen (Follows ms) i j := by
  induction h with
  | single hab =>
    rintro i hi j hj rfl rfl
    exact .single ((follows_iff hi hj).mpr hab.2.2)
  | tail _ hbc ih =>
    rintro i hi j hj rfl rfl
    obtain ⟨k, hk, rfl⟩ := exists_moveAt hbc.1
    exact (ih i hi k hk rfl rfl).tail ((follows_iff hk hj).mpr hbc.2.2)

theorem transGen_of_follows (h : Relation.TransGen (Follows ms) i j) :
    Relation.TransGen (Overwrites ms) (moveAt ms i) (moveAt ms j) := by
  induction h with
  | single hf => exact .single hf.overwrites
  | tail _ hf ih => exact ih.tail hf.overwrites

theorem nodup_map_moveAt (f : Fit ms scratch) {p : List Nat} (hp : p.Nodup) (hlt : ∀ i ∈ p, i < ms.length) :
    (p.map (moveAt ms)).Nodup := by
  refine List.pairwise_map.mpr (hp.imp_of_mem fun {i j} hi hj hne e => hne ?_)
  exact f.dst i (hlt i hi) j (hlt j hj) (by rw [e])

/-- The cycles met while writing are the cycles of the moves. -/
theorem Tally.moveCycles (f : Fit ms scratch) (t : Tally ms D cs out) (hall : ∀ i < ms.length, i ∈ D) :
    MoveCycles ms (cs.map (·.map (moveAt ms))) := by
  have hlt : ∀ i ∈ cs.flatten, i < ms.length := by
    intro i hi
    obtain ⟨c, hc, hic⟩ := List.mem_flatten.mp hi
    exact (t.cycles c hc).trail.lt i hic
  have hflat : (cs.map (·.map (moveAt ms))).flatten = cs.flatten.map (moveAt ms) := by simp [List.map_flatten]
  refine ⟨?_, ?_, ?_⟩
  · intro c' hc'
    obtain ⟨c, hc, rfl⟩ := List.mem_map.mp hc'
    have hcyc := t.cycles c hc
    obtain ⟨a, b, ha, hb, hf⟩ := hcyc.round
    refine ⟨nodup_map_moveAt f hcyc.trail.nodup hcyc.trail.lt, ?_, moveAt ms a, moveAt ms b, ?_, ?_, hf.overwrites⟩
    · exact List.isChain_map_of_isChain _ (fun i j hf => hf.overwrites) hcyc.trail.chain
    · rw [List.head?_map, ha]; rfl
    · rw [List.getLast?_map, hb]; rfl
  · rw [hflat]
    exact nodup_map_moveAt f t.apart hlt
  · intro m hm hcycle
    obtain ⟨i, hi, rfl⟩ := exists_moveAt hm
    rw [hflat]
    by_cases hmem : i ∈ cs.flatten
    · exact List.mem_map_of_mem hmem
    · exact absurd (follows_of_transGen hcycle i hi i hi rfl rfl) (t.rest i (hall i hi) hmem)

theorem transGen_of_isChain {α : Type} {R : α → α → Prop} {b c : α} : ∀ {l : List α} {a : α}, (a :: l).IsChain R →
    (a :: l).getLast? = some b → R b c → Relation.TransGen R a c
  | [], a, _, hlast, hbc => by
    obtain rfl : a = b := by simpa using hlast
    exact .single hbc
  | x :: l, a, h, hlast, hbc => by
    obtain ⟨hax, hrest⟩ := List.isChain_cons_cons.mp h
    rw [List.getLast?_cons_cons] at hlast
    exact .trans (.single hax) (transGen_of_isChain hrest hlast hbc)

theorem Tally.acyclic (t : Tally ms D cs out) (h : ∀ m ∈ ms, ¬ Relation.TransGen (Overwrites ms) m m) : cs = [] := by
  refine List.eq_nil_iff_forall_not_mem.mpr fun c hc => ?_
  obtain ⟨a, b, ha, hb, hf⟩ := (t.cycles c hc).round
  cases c with
  | nil => cases ha
  | cons x c =>
    obtain rfl : x = a := by simpa using ha
    have hcycle := transGen_of_isChain (t.cycles _ hc).trail.chain hb hf
    exact h _ (mem_moveAt hf.lt.2) (transGen_of_follows hcycle)

/-! ## The memory of a solver -/

theorem sound_writeChain : ∀ (fuel cur : Nat) (s : MoveSolver), s.nodes.Sound → (writeChain fuel cur s).nodes.Sound := by
  intro fuel
  induction fuel with
  | zero => exact fun _ _ h => h
  | succ fuel ih =>
    intro cur s h
    rw [writeChain]
    split
    · exact h.modify _ _
    · exact ih _ _ (h.modify _ _)

theorem sound_breakCycle (start : Nat) (scratch : Location) (h : s.nodes.Sound) :
    (s.breakCycle start scratch).nodes.Sound := by
  cases hprev : (s.nodes.get start).prev with
  | none => simp only [breakCycle, hprev]; exact h
  | some i =>
    rw [breakCycle_nodes hprev]
    exact (((h.grow.modify _ _).modify _ _).modify _ _).modify _ _

theorem sound_writeComponent (scratch : Location) (i : Nat) (h : s.nodes.Sound) :
    (s.writeComponent scratch i).nodes.Sound := by
  unfold writeComponent
  split
  · exact h
  dsimp only
  split
  · exact sound_writeChain _ _ _ (sound_breakCycle _ _ h)
  · exact sound_writeChain _ _ _ h

theorem sound_writeAll (scratch : Location) (total : Nat) (h : s.nodes.Sound) :
    (s.writeAll scratch total).nodes.Sound := by
  unfold writeAll
  generalize List.range total = is
  induction is generalizing s with
  | nil => exact h
  | cons i is ih => exact ih (sound_writeComponent scratch i h)

theorem run_solve_error {moves : List Move} {t : MoveSolver} {e : MoveError}
    (h : (graph moves scratch).run s = (.error e, t)) : (solve moves scratch).run s = (.error e, t) :=
  run_bind_error h

theorem run_solve_ok {moves : List Move} {t : MoveSolver} {total : Nat}
    (h : (graph moves scratch).run s = (.ok total, t)) :
    (solve moves scratch).run s = (.ok (t.writeAll scratch total).out.toList, t.writeAll scratch total) :=
  run_bind_ok h

theorem sound_solve (moves : List Move) (scratch : Location) (h : s.nodes.Sound) :
    ((solve moves scratch).run s).2.nodes.Sound := by
  rcases run_graph moves scratch h with ⟨e, t, hrun, hsound, -⟩ | ⟨t, hrun, hlink, -⟩
  · rw [run_solve_error hrun]; exact hsound
  · rw [run_solve_ok hrun]; exact sound_writeAll _ _ hlink.sound

/-- The solver after it was used for these sets of moves, with whatever outcome. -/
def usedFor (history : List (List Move × Location)) : MoveSolver :=
  history.foldl (fun s h => ((solve h.1 h.2).run s).2) {}

theorem sound_usedFor (history : List (List Move × Location)) : (usedFor history).nodes.Sound := by
  have keep : ∀ (history : List (List Move × Location)) (s : MoveSolver), s.nodes.Sound →
      (history.foldl (fun s h => ((solve h.1 h.2).run s).2) s).nodes.Sound := by
    intro history
    induction history with
    | nil => exact fun s h => h
    | cons h history ih => exact fun s hs => ih _ (sound_solve h.1 h.2 hs)
  exact keep history {} Arena.sound_empty

/-! ## Parallel moves -/

theorem Performs.together (h : Performs ms scratch D out) (hlt : ∀ i ∈ D, i < ms.length) (hall : ∀ i < ms.length, i ∈ D)
    {α : Type} (σ : Location → α) {l : Location} (hl : l ≠ scratch) : perform out σ l = MoveSolver.together ms σ l := by
  unfold MoveSolver.together
  cases hfind : ms.find? (·.dst = l) with
  | some m =>
    obtain ⟨i, hi, rfl⟩ := exists_moveAt (List.mem_of_find?_eq_some hfind)
    have hd : (moveAt ms i).dst = l := by simpa using List.find?_some hfind
    rw [← hd]
    exact h.moved σ i (hall i hi)
  | none =>
    refine h.kept σ l hl fun i hi e => ?_
    have := List.find?_eq_none.mp hfind _ (mem_moveAt (hlt i hi))
    simp [e] at this

theorem perm_of_all (hnd : D.Nodup) (hlt : ∀ i ∈ D, i < ms.length) (hall : ∀ i < ms.length, i ∈ D) :
    (D.map (moveAt ms)).Perm ms := by
  have hperm : D.Perm (List.range ms.length) :=
    (List.perm_ext_iff_of_nodup hnd List.nodup_range).mpr fun i =>
    ⟨fun hi => List.mem_range.mpr (hlt i hi), fun hi => hall i (List.mem_range.mp hi)⟩
  have e : (List.range ms.length).map (moveAt ms) = ms := by
    refine List.ext_getElem? fun i => ?_
    rw [List.getElem?_map]
    by_cases hi : i < ms.length
    · rw [List.getElem?_range hi, getElem?_moveAt hi]; rfl
    · rw [List.getElem?_eq_none (by simpa using hi), List.getElem?_eq_none (by simpa using hi)]; rfl
  have hmap := hperm.map (moveAt ms)
  rwa [e] at hmap

/-- What ordering moves without a refusal gives. -/
structure Ordered (ms : List Move) (scratch : Location) (out : List Move) : Prop where
  /-- One after the other they do what the moves do at once. -/
  performs : ∀ {α : Type} (σ : Location → α) l, l ≠ scratch → perform out σ l = together ms σ l
  /-- Every cycle costs one more move. -/
  length : ∃ cs, MoveCycles ms cs ∧ out.length = ms.length + cs.length
  /-- Without a cycle they are the moves themselves. -/
  acyclic : (∀ m ∈ ms, ¬ Relation.TransGen (Overwrites ms) m m) →
    out.Perm ms ∧ ∀ m ∈ out, m.src ≠ scratch ∧ m.dst ≠ scratch

theorem ordered_writeAll (f : Fit ms scratch) (h : Linked ms ms.length s) :
    Completes scratch (List.range ms.length) s (s.writeAll scratch ms.length) ∧
      Ordered ms scratch (s.writeAll scratch ms.length).out.toList := by
  obtain ⟨hends, D, cs, hp, hmem⟩ := writeAll_spec f (List.range ms.length) [] [] s (by simp) (progress_start h)
  rw [List.nil_append] at hp hmem
  have hall : ∀ i < ms.length, i ∈ D := fun i hi => hmem i (List.mem_range.mpr hi)
  have hperm := perm_of_all hp.nodup hp.lt hall
  refine ⟨hends, fun σ l hl => hp.performs.together hp.lt hall σ hl, ?_, ?_⟩
  · refine ⟨_, hp.tally.moveCycles f hall, ?_⟩
    have hlen := hperm.length_eq
    rw [List.length_map] at hlen ⊢
    exact hp.tally.length.trans (by rw [hlen])
  · intro hno
    have hout := hp.tally.plain (hp.tally.acyclic hno)
    have hperm' : (s.writeAll scratch ms.length).out.toList.Perm ms := by
      show ((List.range ms.length).foldl _ s).out.toList.Perm ms
      rw [hout]; exact hperm
    refine ⟨hperm', fun m hm => ?_⟩
    obtain ⟨i, hi, rfl⟩ := exists_moveAt (hperm'.subset hm)
    exact f.free i hi

end

theorem real_of_mem {moves : List Move} {m : Move} (h : m ∈ realMoves moves) : m.src ≠ m.dst := by
  simpa [realMoves] using (List.mem_filter.mp h).2

theorem fault_precondition (e : MoveError) : ∃ what, e.fault = .precondition what := by
  cases e <;> exact ⟨_, rfl⟩

/-- A solver, whatever it was used for before, orders every set of moves that is not refused, and its
loops end; it fails, with a broken precondition, on the moves that are. -/
theorem solve_orders_moves (history : List (List Move × Location)) (moves : List Move) (scratch : Location)
    (hv : scratch.isValid = true) :
    (∀ total t, (graph moves scratch).run (usedFor history) = (.ok total, t) →
      Completes scratch (List.range total) t (t.writeAll scratch total)) ∧
    ((∃ e what, ((solve moves scratch).run (usedFor history)).1 = .error e ∧ e.fault = .precondition what) ↔
      Refused moves scratch) ∧
    (¬ Refused moves scratch → ∃ out, ((solve moves scratch).run (usedFor history)).1 = .ok out ∧
      Ordered (realMoves moves) scratch out) := by
  rcases run_graph moves scratch (sound_usedFor history) with ⟨e, t, hrun, -, hbad⟩ | ⟨t, hrun, hlink, hent, hone⟩
  · rw [run_solve_error hrun]
    obtain ⟨what, hwhat⟩ := fault_precondition e
    refine ⟨?_, ⟨fun _ => hbad, fun _ => ⟨e, what, rfl, hwhat⟩⟩, fun h => absurd hbad h⟩
    intro total u hu
    rw [hrun] at hu
    cases hu
  · have f := fit_of_enters hv (fun m => real_of_mem) hent hone
    obtain ⟨hends, hord⟩ := ordered_writeAll f hlink
    rw [run_solve_ok hrun]
    refine ⟨?_, ⟨?_, fun h => absurd ⟨hent, hone⟩ (refused_iff.mp h)⟩, fun _ => ⟨_, rfl, hord⟩⟩
    · intro total u hu
      rw [hrun] at hu
      cases hu
      exact hends
    · rintro ⟨e, what, he, -⟩
      cases he

/-- Two registers change places. -/
def swap : List Move := [⟨.int 10, .int 11, .long⟩, ⟨.int 11, .int 10, .long⟩]

/-- A swap goes through the scratch register, also after the solver refused other moves. -/
theorem solve_orders_a_swap :
    ∃ out, ((solve swap (.int 5)).run (usedFor [([⟨.int 5, .int 6, .int⟩], .int 5)])).1 = .ok out ∧
      out = [⟨.int 11, .int 5, .long⟩, ⟨.int 10, .int 11, .long⟩, ⟨.int 5, .int 10, .long⟩] ∧
      Ordered (realMoves swap) (.int 5) out := by
  have hsolve : ((solve swap (.int 5)).run (usedFor [([⟨.int 5, .int 6, .int⟩], .int 5)])).1 =
      .ok [⟨.int 11, .int 5, .long⟩, ⟨.int 10, .int 11, .long⟩, ⟨.int 5, .int 10, .long⟩] := by decide +kernel
  obtain ⟨-, hrefused, horder⟩ := solve_orders_moves [([⟨.int 5, .int 6, .int⟩], .int 5)] swap (.int 5) rfl
  have hnot : ¬ Refused swap (.int 5) := by
    intro hbad
    obtain ⟨e, what, he, -⟩ := hrefused.mpr hbad
    rw [hsolve] at he
    cases he
  obtain ⟨out, hout, hord⟩ := horder hnot
  exact ⟨out, hout, by simpa [hsolve, eq_comm] using hout, hord⟩

/-- A register is copied to itself and to two others. -/
def fanOut : List Move := [⟨.int 10, .int 10, .long⟩, ⟨.int 10, .int 11, .long⟩, ⟨.int 10, .int 12, .long⟩]

/-- Two moves that read what only a move to itself writes are not refused. -/
theorem a_move_to_itself_overwrites_nothing :
    Two (fun a b => a.src = b.src ∧ ∃ c ∈ fanOut, c.dst = a.src) (realMoves fanOut) ∧
      ((solve fanOut (.int 5)).run (usedFor [])).1 = .ok [⟨.int 10, .int 11, .long⟩, ⟨.int 10, .int 12, .long⟩] := by
  refine ⟨⟨⟨.int 10, .int 11, .long⟩, ⟨.int 10, .int 12, .long⟩, ?_, rfl, ⟨.int 10, .int 10, .long⟩, ?_, rfl⟩, ?_⟩
  · exact List.Sublist.refl _
  · simp [fanOut]
  · decide +kernel

end RiscvJit.MoveSolver
