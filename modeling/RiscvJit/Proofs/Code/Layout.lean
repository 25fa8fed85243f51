import RiscvJit.Proofs.Code.References

/-
  RiscvJit.Proofs.Code.Layout — the code an assembler means, beside the state it is in.

  A `Layout` lists the pieces that were written and where the labels are bound, with no word
  of code in it: the words follow from it (`Layout.words`), and so do the references that
  wait for each label (`Layout.states`). `Holds L a` says that the assembler's buffer and
  labels are exactly those. What the assembler does to the layout:

    - an instruction appends a piece (`Holds.emit`);
    - a reference appends its pieces, whether its label is bound or not (`Holds.refer`);
    - binding a label gives it the current position (`Holds.bind`);
    - a new label is not bound (`Holds.newLabel`).

  Each either leads to the assembler of the new layout or, when that does not fit the buffer
  or a reference cannot reach its label, fails the buffer with the reason (`Settles`).
-/

namespace RiscvJit

open CodeBuffer (codeOverflow emit4_capacity emit4_overflow capacity_fail failure_fail failed)
open Assembler (setLabel patchUse)

/-- The pieces that were written, and the piece at which each label is bound. -/
structure Layout where
  pieces : List Piece := []
  marks : List (Option Nat) := []
  deriving DecidableEq, Repr

namespace Layout

/-- The piece at which a label is bound. -/
def mark (L : Layout) (l : Nat) : Option Nat := L.marks[l - 1]?.join

/-- The label was handed out. -/
def Known (L : Layout) (l : Nat) : Prop := 0 < l ∧ l ≤ L.marks.length

instance (L : Layout) (l : Nat) : Decidable (L.Known l) := inferInstanceAs (Decidable (_ ∧ _))

/-- The distance that the piece at `k` holds: to its label, or zero as long as that is not bound. -/
def distance (L : Layout) (p : Piece) (k : Nat) : Int64 :=
  match p.label?.bind L.mark with
  | some m => gap m (p.origin k)
  | none => 0

/-- The words of the code. -/
def words (L : Layout) : List UInt32 := spelled L.pieces L.distance

/-- Every bound reference can hold its distance. -/
def reaches (L : Layout) : Bool := (L.pieces.mapIdx fun k p => p.reaches (L.distance p k)).all id

/-- The references to a label, in the order they were made. -/
def uses (L : Layout) (l : Nat) : List LabelUse :=
  (L.pieces.mapIdx fun k p => if p.label? = some l then p.use? k else none).filterMap id

/-- The state of each label: its position, or the references that wait for it. -/
def states (L : Layout) : List LabelState :=
  L.marks.mapIdx fun i m => match m with
    | some m => { position? := some (Int64.ofNat (4 * m)) }
    | none => { uses := (L.uses (i + 1)).toArray }

/-- More pieces. -/
def write (L : Layout) (ps : List Piece) : Layout := { L with pieces := L.pieces ++ ps }

/-- A label bound at the end of the code. -/
def place (L : Layout) (l : Nat) : Layout := { L with marks := L.marks.set (l - 1) (some L.pieces.length) }

/-- One more label. -/
def fresh (L : Layout) : Layout := { L with marks := L.marks ++ [none] }

/-- Why a buffer of that capacity cannot hold the code. -/
def fault? (L : Layout) (capacity : Nat) : Option String :=
  if capacity < 4 * L.pieces.length then some codeOverflow
  else if L.reaches then none
  else some branchOutOfRange

/-- The pieces are of their kinds, refer to labels that were handed out, and labels are bound
within the code. -/
structure Sound (L : Layout) : Prop where
  formed : Formed L.pieces
  known : ∀ p ∈ L.pieces, ∀ l, p.label? = some l → L.Known l
  within : ∀ l m, L.mark l = some m → m ≤ L.pieces.length

/-! ## What the operations change -/

variable {L : Layout}

theorem length_words : L.words.length = L.pieces.length := length_spelled

theorem reaches_iff : L.reaches = true ↔
    ∀ (k : Nat) (p : Piece), L.pieces[k]? = some p → p.reaches (L.distance p k) = true := by
  rw [reaches, List.all_eq_true]
  constructor
  · intro h k p hp
    exact h _ (List.mem_of_getElem? (by rw [List.getElem?_mapIdx, hp]; rfl))
  · intro h b hb
    obtain ⟨k, hk, rfl⟩ := List.mem_mapIdx.mp hb
    exact h k _ (List.getElem?_eq_getElem hk)

variable {p : Piece} {l : Nat}

theorem mem_uses {u : LabelUse} : u ∈ L.uses l ↔
    ∃ (k : Nat) (p : Piece), L.pieces[k]? = some p ∧ p.label? = some l ∧ p.use? k = some u := by
  rw [uses, List.mem_filterMap]
  constructor
  · rintro ⟨a, ha, rfl⟩
    obtain ⟨k, hk, e⟩ := List.mem_mapIdx.mp ha
    by_cases hl : (L.pieces[k]).label? = some l
    · rw [if_pos hl] at e
      exact ⟨k, _, List.getElem?_eq_getElem hk, hl, e⟩
    · rw [if_neg hl] at e
      cases e
  · rintro ⟨k, p, hp, hl, hu⟩
    refine ⟨some u, List.mem_of_getElem? (i := k) ?_, rfl⟩
    rw [List.getElem?_mapIdx, hp, Option.map_some, if_pos hl, hu]

theorem distance_bound {k : Nat} {m : Nat} (hl : p.label? = some l) (hm : L.mark l = some m) :
    L.distance p k = gap m (p.origin k) := by
  rw [distance, hl, Option.bind_some, hm]

theorem distance_unbound {k : Nat} (hl : p.label? = some l) (hm : L.mark l = none) : L.distance p k = 0 := by
  rw [distance, hl, Option.bind_some, hm]

theorem reaches_zero (p : Piece) : p.reaches 0 = true := by
  cases p <;> rfl

theorem mark_place (hl : L.Known l) {l' : Nat} (hl' : L.Known l') :
    (L.place l).mark l' = if l' = l then some L.pieces.length else L.mark l' := by
  obtain ⟨h1, h2⟩ := hl
  obtain ⟨h1', _⟩ := hl'
  unfold mark place
  by_cases e : l' = l
  · subst e
    rw [if_pos rfl, List.getElem?_set_self (by omega)]
    rfl
  · rw [if_neg e, List.getElem?_set_ne (by omega)]

theorem mark_fresh (l : Nat) : L.fresh.mark l = L.mark l := by
  unfold mark fresh
  rcases Nat.lt_trichotomy (l - 1) L.marks.length with h | h | h
  · rw [List.getElem?_append_left h]
  · rw [h, List.getElem?_concat_length, List.getElem?_eq_none (Nat.le_refl _)]
    rfl
  · rw [List.getElem?_eq_none (by simp; omega), List.getElem?_eq_none (by omega)]

theorem distance_fresh (p : Piece) (k : Nat) : L.fresh.distance p k = L.distance p k := by
  simp only [distance, show L.fresh.mark = L.mark from funext mark_fresh]

theorem words_write (ps : List Piece) :
    (L.write ps).words = L.words ++ spelled ps fun q k => L.distance q (L.pieces.length + k) := spelled_append ps

theorem uses_write (ps : List Piece) (l : Nat) :
    (L.write ps).uses l = L.uses l ++
      (ps.mapIdx fun k p => if p.label? = some l then p.use? (L.pieces.length + k) else none).filterMap id := by
  simp only [uses, write, List.mapIdx_append, List.filterMap_append, Nat.add_comm]

theorem getElem?_states (i : Nat) : L.states[i]? = L.marks[i]?.map fun m => match m with
    | some m => { position? := some (Int64.ofNat (4 * m)) }
    | none => { uses := (L.uses (i + 1)).toArray } := List.getElem?_mapIdx

theorem length_states : L.states.length = L.marks.length := List.length_mapIdx

/-! ## References -/

/-- The pieces of one reference, written at `n`: the first records it, the others go with it. -/
structure Reference (ps : List Piece) (n : Nat) (l : Nat) (u : LabelUse) : Prop where
  label : ∀ q ∈ ps, q.label? = some l
  source : ∀ (j : Nat) (q : Piece), ps[j]? = some q → q.source? (n + j) = some u
  head : ∃ p rest, ps = p :: rest ∧ p.use? n = some u ∧
    ∀ q ∈ rest, (∀ k, q.use? k = none) ∧ ∀ d, q.reaches d = true

theorem reference_one {n : Nat} {u : LabelUse} (hl : p.label? = some l) (hu : p.use? n = some u) :
    Reference [p] n l u where
  label := by intro q hq; rw [List.mem_singleton.mp hq]; exact hl
  source := by
    intro j q hq
    cases j with
    | zero => cases hq; exact (use_source hu).1
    | succ j => cases hq
  head := ⟨p, [], rfl, hu, fun q hq => absurd hq List.not_mem_nil⟩

theorem reference_address (rd : Reg) (l n : Nat) :
    Reference [.high rd l, .low rd l] n l ⟨Int64.ofNat (4 * n), 2⟩ where
  label := by
    intro q hq
    rcases List.mem_cons.mp hq with rfl | hq
    · rfl
    · rw [List.mem_singleton.mp hq]; rfl
  source := by
    intro j q hq
    match j with
    | 0 => cases hq; rfl
    | 1 => cases hq; rfl
    | j + 2 => cases hq
  head := ⟨_, _, rfl, rfl, by intro q hq; rw [List.mem_singleton.mp hq]; exact ⟨fun _ => rfl, fun _ => rfl⟩⟩

section
variable {ps : List Piece} {l : Nat} {u : LabelUse}

theorem uses_reference (h : Reference ps L.pieces.length l u) (l' : Nat) :
    (L.write ps).uses l' = L.uses l' ++ if l' = l then [u] else [] := by
  obtain ⟨p, rest, rfl, hu, hrest⟩ := h.head
  rw [uses_write, List.mapIdx_cons, List.filterMap_cons, h.label p List.mem_cons_self]
  have others : (rest.mapIdx fun k q => if q.label? = some l' then q.use? (L.pieces.length + (k + 1)) else none).filterMap
      id = [] := by
    rw [List.filterMap_eq_nil_iff]
    intro o ho
    obtain ⟨k, hk, rfl⟩ := List.mem_mapIdx.mp ho
    have := (hrest _ (List.getElem_mem hk)).1 (L.pieces.length + (k + 1))
    rw [this, ite_self]
    rfl
  rw [others]
  by_cases e : l' = l
  · subst e
    simp [hu]
  · rw [if_neg (fun h => e (Option.some.inj h).symm), if_neg e]
    rfl

theorem reaches_write : (L.write ps).reaches = true ↔ L.reaches = true ∧
    ∀ (j : Nat) (q : Piece), ps[j]? = some q → q.reaches (L.distance q (L.pieces.length + j)) = true := by
  rw [reaches_iff, reaches_iff]
  constructor
  · intro h
    constructor
    · intro k p hp
      refine h k p ?_
      show (L.pieces ++ ps)[k]? = some p
      rw [List.getElem?_append_left (List.getElem?_eq_some_iff.mp hp).1, hp]
    · intro j q hq
      refine h _ q ?_
      show (L.pieces ++ ps)[L.pieces.length + j]? = some q
      rw [List.getElem?_append_right (by omega), Nat.add_sub_cancel_left, hq]
  · rintro ⟨hold, hnew⟩ k p hp
    have hp : (L.pieces ++ ps)[k]? = some p := hp
    by_cases hk : k < L.pieces.length
    · rw [List.getElem?_append_left hk] at hp
      exact hold k p hp
    · rw [List.getElem?_append_right (by omega)] at hp
      have := hnew _ p hp
      rwa [show L.pieces.length + (k - L.pieces.length) = k by omega] at this

theorem reaches_word (h : L.reaches = true) (w : UInt32) : (L.write [.word w]).reaches = true := by
  rw [reaches_write]
  refine ⟨h, ?_⟩
  intro j q hq
  rw [List.mem_singleton.mp (List.mem_of_getElem? hq)]
  rfl

theorem states_reference (h : Reference ps L.pieces.length l u) (hl : L.Known l) (hm : L.mark l = none) :
    (L.write ps).states = L.states.set (l - 1) { uses := (L.uses l ++ [u]).toArray } := by
  obtain ⟨h1, h2⟩ := hl
  have hlast : L.marks[l - 1]? = some none := by
    unfold mark at hm
    rw [List.getElem?_eq_getElem (by omega)] at hm ⊢
    rw [Option.join_some] at hm
    rw [hm]
  apply List.ext_getElem?
  intro i
  rw [getElem?_states]
  show L.marks[i]?.map _ = _
  by_cases e : i = l - 1
  · subst e
    rw [List.getElem?_set_self (by rw [length_states]; omega), hlast, Option.map_some, uses_reference h,
      show l - 1 + 1 = l by omega, if_pos rfl]
  · rw [List.getElem?_set_ne (Ne.symm e), getElem?_states, uses_reference h, if_neg (by omega), List.append_nil]

theorem states_reference_bound (h : Reference ps L.pieces.length l u) {m : Nat} (hm : L.mark l = some m) :
    (L.write ps).states = L.states := by
  apply List.ext_getElem?
  intro i
  rw [getElem?_states, getElem?_states]
  show L.marks[i]?.map _ = _
  by_cases e : i + 1 = l
  · subst e
    have : L.marks[i]? = some (some m) := Option.join_eq_some_iff.mp hm
    rw [this]
    rfl
  · rw [uses_reference h, if_neg e, List.append_nil]

end

end Layout

open Layout

/-! ## Assemblers that hold a layout -/

/-- The assembler works, and its code and labels are those of the layout. -/
structure Holds (L : Layout) (a : Assembler) : Prop where
  spells : a.buf.Spells L.words
  labels : a.labels.toList = L.states
  sound : L.Sound
  reaches : L.reaches = true

/-- The assembler holds the layout, or has failed for the reason why it cannot. -/
def Settles (L : Layout) (a : Assembler) : Prop :=
  match L.fault? a.buf.capacity with
  | none => Holds L a
  | some reason => a.buf.failure = reason

/-- The assembler, failed or not, knows the labels of the layout and which of them are bound. -/
def Tracks (L : Layout) (a : Assembler) : Prop :=
  a.labels.toList.map LabelState.isBound = L.marks.map Option.isSome

section
variable {L : Layout} {a : Assembler} {l : Nat}

variable {b : Assembler} {ps : List Piece} {k : Nat} {p : Piece}

theorem settles_holds (hroom : 4 * L.pieces.length ≤ b.buf.capacity) (hreach : L.reaches = true) (h : Holds L b) :
    Settles L b := by
  unfold Settles fault?
  rw [if_neg (by omega), if_pos hreach]
  exact h

theorem settles_overflow (hroom : b.buf.capacity < 4 * L.pieces.length) (h : b.buf.failure = codeOverflow) :
    Settles L b := by
  unfold Settles fault?
  rw [if_pos hroom]
  exact h

theorem settles_miss (hroom : 4 * L.pieces.length ≤ b.buf.capacity) (hreach : L.reaches = false)
    (h : b.buf.failure = branchOutOfRange) : Settles L b := by
  unfold Settles fault?
  rw [if_neg (by omega), if_neg (by rw [hreach]; decide)]
  exact h

theorem Holds.offset (h : Holds L a) : a.buf.offset = 4 * L.pieces.length := by
  rw [h.spells.offset, length_words]

theorem Holds.room (h : Holds L a) : 4 * L.pieces.length ≤ a.buf.capacity := by
  have := h.spells.room
  rwa [length_words] at this

theorem Holds.tracks (h : Holds L a) : Tracks L a := by
  unfold Tracks
  rw [h.labels, states]
  apply List.ext_getElem?
  intro i
  rw [List.getElem?_map, List.getElem?_mapIdx, List.getElem?_map]
  cases L.marks[i]? with
  | none => rfl
  | some m => cases m <;> rfl

theorem Holds.label (h : Holds L a) (hl : L.Known l) : a.label l = .ok (match L.mark l with
    | some m => { position? := some (Int64.ofNat (4 * m)) }
    | none => { uses := (L.uses l).toArray }) := by
  obtain ⟨h1, h2⟩ := hl
  have e : a.labels[l - 1]? = L.states[l - 1]? := by rw [← h.labels, Array.getElem?_toList]
  rw [Assembler.label, if_neg (Nat.ne_of_gt h1), e, getElem?_states, List.getElem?_eq_getElem (by omega)]
  have hm : L.mark l = L.marks[l - 1] := by
    rw [mark, List.getElem?_eq_getElem (by omega), Option.join_some]
  rw [hm, show l - 1 + 1 = l by omega]
  rfl

theorem Tracks.label (h : Tracks L a) (hl : L.Known l) :
    ∃ s, a.label l = .ok s ∧ s.isBound = (L.mark l).isSome := by
  obtain ⟨h1, h2⟩ := hl
  have size : a.labels.size = L.marks.length := by
    have := congrArg List.length h
    simpa using this
  have hlt : l - 1 < a.labels.size := by omega
  refine ⟨a.labels[l - 1], ?_, ?_⟩
  · rw [Assembler.label, if_neg (Nat.ne_of_gt h1), Array.getElem?_eq_getElem hlt]
  · have e := congrArg (·[l - 1]?) h
    simp only [List.getElem?_map, Array.getElem?_toList, Array.getElem?_eq_getElem hlt,
      List.getElem?_eq_getElem (show l - 1 < L.marks.length by omega), Option.map_some, Option.some.injEq] at e
    rw [e, mark, List.getElem?_eq_getElem (by omega), Option.join_some]

/-! ## Instructions -/

theorem sound_write (h : L.Sound) (hformed : Formed (L.pieces ++ ps))
    (hknown : ∀ p ∈ ps, ∀ l, p.label? = some l → L.Known l) : (L.write ps).Sound where
  formed := hformed
  known := by
    intro p hp l hl
    rcases List.mem_append.mp hp with hp | hp
    · exact h.known p hp l hl
    · exact hknown p hp l hl
  within := by
    intro l m hm
    have := h.within l m hm
    show m ≤ (L.pieces ++ ps).length
    rw [List.length_append]
    omega

theorem formed_one (h : Formed ps) (hp : p.Proper) (hh : ∀ rd l, p ≠ .high rd l) (hw : ∀ rd l, p ≠ .low rd l) :
    Formed (ps ++ [p]) where
  proper := by
    intro q hq
    rcases List.mem_append.mp hq with hq | hq
    · exact h.proper q hq
    · rw [List.mem_singleton.mp hq]
      exact hp
  high := by
    intro k rd l hk
    rcases Nat.lt_or_ge k ps.length with hlt | hge
    · rw [List.getElem?_append_left hlt] at hk
      have := h.high k rd l hk
      rw [List.getElem?_append_left (List.getElem?_eq_some_iff.mp this).1, this]
    · rw [List.getElem?_append_right hge] at hk
      exact absurd (List.mem_singleton.mp (List.mem_of_getElem? hk)).symm (hh rd l)
  low := by
    intro k rd l hk
    rcases Nat.lt_or_ge k ps.length with hlt | hge
    · rw [List.getElem?_append_left hlt] at hk
      obtain ⟨j, rfl, hj⟩ := h.low k rd l hk
      refine ⟨j, rfl, ?_⟩
      rw [List.getElem?_append_left (by omega), hj]
    · rw [List.getElem?_append_right hge] at hk
      exact absurd (List.mem_singleton.mp (List.mem_of_getElem? hk)).symm (hw rd l)

theorem formed_address (h : Formed ps) {rd : Reg} (hd : rd.isInt = true) (l : Nat) :
    Formed (ps ++ [Piece.high rd l, .low rd l]) where
  proper := by
    intro q hq
    rcases List.mem_append.mp hq with hq | hq
    · exact h.proper q hq
    · rcases List.mem_cons.mp hq with rfl | hq
      · exact hd
      · rw [List.mem_singleton.mp hq]
        exact hd
  high := by
    intro k rd' l' hk
    rcases Nat.lt_trichotomy k ps.length with hlt | heq | hgt
    · rw [List.getElem?_append_left hlt] at hk
      have := h.high k rd' l' hk
      rw [List.getElem?_append_left (List.getElem?_eq_some_iff.mp this).1, this]
    · rw [List.getElem?_append_right (by omega), heq, Nat.sub_self] at hk
      cases hk
      rw [List.getElem?_append_right (by omega), show k + 1 - ps.length = 1 by omega]
      rfl
    · rw [List.getElem?_append_right (by omega)] at hk
      match hj : k - ps.length with
      | 0 => omega
      | 1 => rw [hj] at hk; cases hk
      | j + 2 => rw [hj] at hk; cases hk
  low := by
    intro k rd' l' hk
    rcases Nat.lt_or_ge k ps.length with hlt | hge
    · rw [List.getElem?_append_left hlt] at hk
      obtain ⟨j, rfl, hj⟩ := h.low k rd' l' hk
      refine ⟨j, rfl, ?_⟩
      rw [List.getElem?_append_left (by omega), hj]
    · rw [List.getElem?_append_right hge] at hk
      match hj : k - ps.length with
      | 0 => rw [hj] at hk; cases hk
      | 1 =>
        rw [hj] at hk
        cases hk
        refine ⟨ps.length, by omega, ?_⟩
        rw [List.getElem?_append_right (by omega), Nat.sub_self]
        rfl
      | j + 2 => rw [hj] at hk; cases hk

theorem Holds.emit (h : Holds L a) (w : UInt32) :
    Settles (L.write [.word w]) { a with buf := a.buf.emit4 w } := by
  have hoff := h.spells.offset
  have hlen : (L.write [.word w]).pieces.length = L.pieces.length + 1 := List.length_append
  have hreach := reaches_word h.reaches w
  rw [length_words] at hoff
  by_cases hroom : a.buf.capacity < 4 * (L.pieces.length + 1)
  · refine settles_overflow ?_ ?_
    · rw [hlen]
      show (a.buf.emit4 w).capacity < _
      rw [emit4_capacity]
      exact hroom
    · show (a.buf.emit4 w).failure = _
      rw [emit4_overflow h.spells.working (by omega)]
  · refine settles_holds ?_ hreach ⟨?_, ?_, ?_, hreach⟩
    · rw [hlen]
      show _ ≤ (a.buf.emit4 w).capacity
      rw [emit4_capacity]
      omega
    · rw [words_write]
      exact h.spells.emit4 (by rw [length_words]; omega) w
    · rw [h.labels]
      apply List.ext_getElem?
      intro i
      rw [getElem?_states, getElem?_states, uses_write]
      simp [Piece.label?, Layout.write]
    · refine sound_write h.sound (formed_one h.sound.formed trivial nofun nofun) ?_
      intro p hp l hl
      rw [List.mem_singleton.mp hp] at hl
      cases hl

/-! ## References -/

section
variable {ps : List Piece} {u : LabelUse}

/-- The distances when the pieces of a reference were written and it was not made yet. -/
def Layout.blank (L : Layout) (q : Piece) (j : Nat) : Int64 := if j < L.pieces.length then L.distance q j else 0

theorem spelled_blank : L.words ++ ps.map (·.encode 0) = spelled (L.pieces ++ ps) L.blank := by
  apply List.ext_getElem?
  intro j
  rw [getElem?_spelled]
  rcases Nat.lt_or_ge j L.pieces.length with hlt | hge
  · rw [List.getElem?_append_left (by rw [length_words]; exact hlt), List.getElem?_append_left hlt, words,
      getElem?_spelled]
    simp only [blank, if_pos hlt]
  · rw [List.getElem?_append_right (by rw [length_words]; exact hge), List.getElem?_append_right hge,
      length_words, List.getElem?_map]
    simp only [blank, if_neg (show ¬ j < L.pieces.length by omega)]

theorem words_reference_unbound (h : Reference ps L.pieces.length l u) (hm : L.mark l = none) :
    (L.write ps).words = L.words ++ ps.map (·.encode 0) := by
  rw [words_write]
  congr 1
  apply List.ext_getElem?
  intro j
  rw [getElem?_spelled, List.getElem?_map]
  cases hq : ps[j]? with
  | none => simp only [Option.map_none]
  | some q =>
    rw [Option.map_some, Option.map_some, distance_unbound (h.label q (List.mem_of_getElem? hq)) hm]

theorem words_reference_bound (h : Reference ps L.pieces.length l u) {m : Nat} (hm : L.mark l = some m)
    (hlen : 4 * (L.pieces ++ ps).length < 2 ^ 62) :
    spelled (L.pieces ++ ps) (resolved m [u] L.blank) = (L.write ps).words := by
  obtain ⟨p, rest, hps, hu, _⟩ := h.head
  have hfirst : (L.pieces ++ ps)[L.pieces.length]? = some p := by
    rw [List.getElem?_append_right (Nat.le_refl _), Nat.sub_self, hps]
    rfl
  refine spelled_congr fun j q hq => congrArg q.encode ?_
  rcases Nat.lt_or_ge j L.pieces.length with hlt | hge
  · -- an older piece keeps its distance
    rw [resolved_untouched, blank, if_pos hlt]
    · rfl
    · intro v hv e
      rw [List.mem_singleton.mp hv] at e
      have := source_origin hfirst hu hq hlen e
      have := origin_le q j
      omega
  · rw [List.getElem?_append_right hge] at hq
    have hsrc := h.source _ q hq
    rw [show L.pieces.length + (j - L.pieces.length) = j by omega] at hsrc
    rw [resolved_touched (List.mem_singleton_self u) hsrc]
    exact (distance_bound (L := L.write ps) (h.label q (List.mem_of_getElem? hq)) hm).symm

theorem reaches_reference (h : Reference ps L.pieces.length l u) (hold : L.reaches = true) {p : Piece}
    (hp : ps[0]? = some p) : (L.write ps).reaches = p.reaches (L.distance p L.pieces.length) := by
  obtain ⟨p', rest, rfl, hu, hrest⟩ := h.head
  cases hp
  rw [Bool.eq_iff_iff, reaches_write]
  constructor
  · rintro ⟨_, hnew⟩
    exact hnew 0 p rfl
  · intro hr
    refine ⟨hold, ?_⟩
    intro j q hq
    cases j with
    | zero => cases hq; exact hr
    | succ j => exact (hrest q (List.mem_of_getElem? hq)).2 _

theorem tracks_write (h : Tracks L a) (b : CodeBuffer) : Tracks (L.write ps) { a with buf := b } := h

theorem tracks_setLabel {s s' : LabelState} (h : Tracks L a) (hs : a.label l = .ok s) (hb : s'.isBound = s.isBound)
    (b : CodeBuffer) : Tracks (L.write ps) ({ a with buf := b }.setLabel l s') := by
  unfold Tracks at h ⊢
  rw [← show L.marks.map Option.isSome = (L.write ps).marks.map Option.isSome from rfl, ← h]
  apply List.ext_getElem?
  intro i
  simp only [setLabel, Array.toList_setIfInBounds, List.getElem?_map]
  by_cases e : l - 1 = i
  · subst e
    have hget : a.labels[l - 1]? = some s := by
      unfold Assembler.label at hs
      by_cases h0 : l = 0
      · rw [if_pos h0] at hs; cases hs
      · rw [if_neg h0] at hs
        cases hg : a.labels[l - 1]? with
        | none => rw [hg] at hs; cases hs
        | some s'' => rw [hg] at hs; cases hs; rfl
    have hlt := (Array.getElem?_eq_some_iff.mp hget).1
    rw [List.getElem?_set_self (by simpa using hlt), Array.getElem?_toList, hget, Option.map_some, Option.map_some, hb]
  · rw [List.getElem?_set_ne e]

/-- A reference appends its pieces; it is corrected at once when its label is bound, and
recorded when it is not. -/
theorem Holds.refer (h : Holds L a) (hl : L.Known l) (hr : Reference ps L.pieces.length l u)
    (hformed : Formed (L.pieces ++ ps)) {b : CodeBuffer} (hcap : b.capacity = a.buf.capacity)
    (hb : 4 * (L.pieces.length + ps.length) ≤ a.buf.capacity → b.Spells (L.words ++ ps.map (·.encode 0)))
    (ho : a.buf.capacity < 4 * (L.pieces.length + ps.length) → b.failure = codeOverflow) :
    ∃ a', ({ a with buf := b } : Assembler).refer l u = .ok a' ∧ a'.buf.capacity = a.buf.capacity ∧
      Settles (L.write ps) a' ∧ Tracks (L.write ps) a' := by
  have hlen : (L.write ps).pieces.length = L.pieces.length + ps.length := List.length_append
  have hlabel := h.label hl
  have hsound : (L.write ps).Sound := by
    refine sound_write h.sound hformed fun q hq l' hl' => ?_
    rw [hr.label q hq] at hl'
    cases hl'
    exact hl
  obtain ⟨p, rest, hps, hu, _⟩ := hr.head
  have hreach := reaches_reference hr h.reaches (p := p) (by rw [hps]; rfl)
  unfold Assembler.refer
  rw [show ({ a with buf := b } : Assembler).label l = a.label l from rfl, hlabel]
  cases hm : L.mark l with
  | none =>
    rw [hm] at hlabel
    have zero : L.distance p L.pieces.length = 0 := distance_unbound (hr.label p (by rw [hps]; simp)) hm
    rw [zero, reaches_zero] at hreach
    refine ⟨_, rfl, hcap, ?_, by refine tracks_setLabel h.tracks hlabel ?_ b; rfl⟩
    by_cases hroom : 4 * (L.pieces.length + ps.length) ≤ a.buf.capacity
    · refine settles_holds (by rw [hlen]; exact hcap ▸ hroom) hreach ⟨?_, ?_, hsound, hreach⟩
      · rw [words_reference_unbound hr hm]
        exact hb hroom
      · rw [states_reference hr hl hm, ← h.labels]
        simp [setLabel, LabelState.addUse]
    · refine settles_overflow ?_ (ho (by omega))
      rw [hlen]
      show b.capacity < _
      omega
  | some m =>
    have hdist : L.distance p L.pieces.length = gap m L.pieces.length := by
      rw [distance_bound (hr.label p (by rw [hps]; simp)) hm, (use_source hu).2]
    rw [hdist] at hreach
    have hfirst : (L.pieces ++ ps)[L.pieces.length]? = some p := by
      rw [List.getElem?_append_right (Nat.le_refl _), Nat.sub_self, hps]
      rfl
    show ∃ a', (patchUse b u (Int64.ofNat (4 * m)) >>= fun buf => pure { a with buf }) = .ok a' ∧ _
    by_cases hroom : 4 * (L.pieces.length + ps.length) ≤ a.buf.capacity
    · have hspell := hb hroom
      have hlim := hspell.limit
      rw [spelled_blank] at hspell
      cases hp : p.reaches (gap m L.pieces.length) with
      | true =>
        obtain ⟨bytes, hpatch, hspell'⟩ := patchUse_reaches hspell hformed hfirst hu hp
        rw [words_reference_bound hr hm (by rw [List.length_append]; omega)] at hspell'
        rw [hpatch]
        rw [hp] at hreach
        refine ⟨_, rfl, hcap, ?_, tracks_write h.tracks _⟩
        refine settles_holds (by rw [hlen]; exact hcap ▸ hroom) hreach ⟨hspell', ?_, hsound, hreach⟩
        rw [states_reference_bound hr hm]
        exact h.labels
      | false =>
        have hpatch := patchUse_misses hspell hfirst hu hp
        rw [hpatch]
        rw [hp] at hreach
        have hkeep := capacity_fail b branchOutOfRange
        refine ⟨_, rfl, hkeep.trans hcap, ?_, tracks_write h.tracks _⟩
        refine settles_miss ?_ hreach (failure_fail hspell.working _)
        rw [hlen]
        show _ ≤ (b.fail branchOutOfRange).capacity
        omega
    · have hfail := ho (by omega)
      have hfailed : b.failed = true := by rw [failed, hfail]; decide
      rw [patchUse_failed hfailed]
      refine ⟨_, rfl, hcap, ?_, tracks_write h.tracks _⟩
      refine settles_overflow ?_ hfail
      rw [hlen]
      show b.capacity < _
      omega

end

/-! ## Labels -/

theorem Holds.newLabel (h : Holds L a) : Holds L.fresh { a with labels := a.labels.push {} } where
  spells := by
    have e : L.fresh.words = L.words := by
      refine spelled_congr fun k p _ => ?_
      rw [distance_fresh]
    rw [e]
    exact h.spells
  labels := by
    -- nothing refers to a label that was not handed out
    have none_yet : L.uses (L.marks.length + 1) = [] := by
      rw [List.eq_nil_iff_forall_not_mem]
      intro u hu
      obtain ⟨k, p, hp, hl, _⟩ := mem_uses.mp hu
      have := (h.sound.known p (List.mem_of_getElem? hp) _ hl).2
      omega
    have e : L.fresh.states = L.states ++ [({} : LabelState)] := by
      rw [states, fresh, List.mapIdx_append]
      show L.states ++ [({ uses := (L.uses (0 + L.marks.length + 1)).toArray } : LabelState)] = _
      rw [Nat.zero_add, none_yet]
    rw [e, ← h.labels, Array.toList_push]
  sound := by
    refine ⟨h.sound.formed, ?_, ?_⟩
    · intro p hp l hl
      have := h.sound.known p hp l hl
      exact ⟨this.1, Nat.le_trans this.2 (by simp [fresh])⟩
    · intro l m hm
      rw [mark_fresh] at hm
      exact h.sound.within l m hm
  reaches := by
    rw [reaches_iff]
    intro k p hp
    rw [distance_fresh]
    exact reaches_iff.mp h.reaches k p hp

theorem Tracks.newLabel (h : Tracks L a) : Tracks L.fresh { a with labels := a.labels.push {} } := by
  unfold Tracks at h ⊢
  rw [Array.toList_push, List.map_append, h, fresh, List.map_append]
  rfl

theorem distance_place (hs : L.Sound) (hl : L.Known l) (hp : L.pieces[k]? = some p) :
    (L.place l).distance p k =
      if p.label? = some l then gap L.pieces.length (p.origin k) else L.distance p k := by
  cases hq : p.label? with
  | none => rw [if_neg nofun, distance, distance, hq]; rfl
  | some l' =>
    have hl' := hs.known p (List.mem_of_getElem? hp) l' hq
    have hmark := mark_place hl hl'
    by_cases e : l' = l
    · rw [if_pos e] at hmark
      rw [distance_bound hq hmark, if_pos (congrArg some e)]
    · rw [if_neg e] at hmark
      rw [if_neg (fun h => e (Option.some.inj h)), distance, distance, hq, Option.bind_some,
        Option.bind_some, hmark]

/-- A piece that refers to a label is corrected with one of the label's references. -/
theorem source_mem_uses (hs : L.Sound) (hp : L.pieces[k]? = some p) (hl : p.label? = some l) :
    ∃ u ∈ L.uses l, p.source? k = some u := by
  cases p with
  | word w => cases hl
  | low rd l' =>
    cases hl
    obtain ⟨j, rfl, hj⟩ := hs.formed.low k rd l hp
    exact ⟨⟨Int64.ofNat (4 * j), 2⟩, mem_uses.mpr ⟨j, _, hj, rfl, rfl⟩, rfl⟩
  | branch o rs1 rs2 l' => exact ⟨_, mem_uses.mpr ⟨k, _, hp, hl, rfl⟩, rfl⟩
  | jump rd l' => exact ⟨_, mem_uses.mpr ⟨k, _, hp, hl, rfl⟩, rfl⟩
  | high rd l' => exact ⟨_, mem_uses.mpr ⟨k, _, hp, hl, rfl⟩, rfl⟩

/-- A piece that is corrected with a label's reference refers to that label. -/
theorem label_of_source (hs : L.Sound) (hp : L.pieces[k]? = some p) {u : LabelUse} (hu : u ∈ L.uses l)
    (h : p.source? k = some u) (hlen : 4 * L.pieces.length < 2 ^ 62) : p.label? = some l := by
  obtain ⟨j, q, hq, hl, hqu⟩ := mem_uses.mp hu
  have e := source_origin hq hqu hp hlen h
  cases p with
  | low rd l' =>
    obtain ⟨i, rfl, hi⟩ := hs.formed.low k rd l' hp
    have hij : i = j := e
    rw [← hij, hi] at hq
    cases hq
    exact hl
  | _ =>
    have hkj : k = j := e
    rw [← hkj, hp] at hq
    cases hq
    exact hl

theorem words_place (hs : L.Sound) (hl : L.Known l) (hlen : 4 * L.pieces.length < 2 ^ 62) :
    spelled L.pieces (resolved L.pieces.length (L.uses l) L.distance) = (L.place l).words := by
  refine spelled_congr fun k p hp => congrArg p.encode ?_
  rw [distance_place hs hl hp]
  by_cases e : p.label? = some l
  · obtain ⟨u, hu, hsrc⟩ := source_mem_uses hs hp e
    rw [if_pos e, resolved_touched hu hsrc]
  · rw [if_neg e, resolved_untouched]
    intro u hu hsrc
    exact e (label_of_source hs hp hu hsrc hlen)

theorem states_place (hl : L.Known l) :
    (L.place l).states = L.states.set (l - 1) { position? := some (Int64.ofNat (4 * L.pieces.length)) } := by
  obtain ⟨h1, h2⟩ := hl
  apply List.ext_getElem?
  intro i
  rw [getElem?_states]
  show (L.marks.set (l - 1) (some L.pieces.length))[i]?.map _ = _
  by_cases e : l - 1 = i
  · rw [← e, List.getElem?_set_self (by omega), List.getElem?_set_self (by rw [length_states]; omega)]
    rfl
  · rw [List.getElem?_set_ne e, List.getElem?_set_ne e, getElem?_states]
    rfl

theorem sound_place (hs : L.Sound) (hl : L.Known l) : (L.place l).Sound where
  formed := hs.formed
  known := by
    intro p hp l' hl'
    obtain ⟨h1, h2⟩ := hs.known p hp l' hl'
    exact ⟨h1, by simpa [place] using h2⟩
  within := by
    intro l' m hm
    show m ≤ L.pieces.length
    have hset : (L.marks.set (l - 1) (some L.pieces.length))[l' - 1]? = some (some m) := Option.join_eq_some_iff.mp hm
    by_cases e : l - 1 = l' - 1
    · obtain ⟨h1, h2⟩ := hl
      rw [← e, List.getElem?_set_self (by omega)] at hset
      cases hset
      exact Nat.le_refl _
    · rw [List.getElem?_set_ne e] at hset
      exact hs.within l' m (Option.join_eq_some_iff.mpr hset)

theorem tracks_place {b : CodeBuffer} {f : Option Nat} {pos : Int64} (h : Tracks L a) (hl : L.Known l) :
    Tracks (L.place l) { a with
      buf := b, lastBind := f, labels := a.labels.setIfInBounds (l - 1) { position? := some pos } } := by
  obtain ⟨h1, h2⟩ := hl
  unfold Tracks at h ⊢
  rw [Array.toList_setIfInBounds, List.map_set, h, place, List.map_set]
  rfl

theorem reaches_place (h : Holds L a) (hl : L.Known l)
    (hno : ∀ u ∈ L.uses l, ∀ (k : Nat) (p : Piece), L.pieces[k]? = some p → p.use? k = some u →
      p.reaches (gap L.pieces.length k) ≠ false) : (L.place l).reaches = true := by
  rw [reaches_iff]
  intro k p hp
  have hp : L.pieces[k]? = some p := hp
  rw [distance_place h.sound hl hp]
  by_cases e : p.label? = some l
  · rw [if_pos e]
    cases hu : p.use? k with
    | none => cases p <;> first | rfl | cases hu
    | some u =>
      rw [(use_source hu).2]
      exact Bool.of_not_eq_false (hno u (mem_uses.mpr ⟨k, p, hp, e, hu⟩) k p hp hu)
  · rw [if_neg e]
    exact reaches_iff.mp h.reaches k p hp

/-- Binding a label gives it the current position and corrects the references that waited. -/
theorem Holds.bind (h : Holds L a) (hl : L.Known l) (hm : L.mark l = none) :
    ∃ a', a.bind l = .ok a' ∧ a'.buf.capacity = a.buf.capacity ∧ Settles (L.place l) a' ∧ Tracks (L.place l) a' := by
  have hlabel := h.label hl
  rw [hm] at hlabel
  have hroom := h.room
  have hlim := h.spells.limit
  have hlen : 4 * L.pieces.length < 2 ^ 62 := by omega
  have made : ∀ u ∈ L.uses l, ∃ reach, Made L.pieces L.pieces.length reach u := by
    intro u hu
    obtain ⟨k, p, hp, _, hpu⟩ := mem_uses.mp hu
    exact ⟨_, k, p, hp, hpu, rfl⟩
  unfold Assembler.bind
  rw [hlabel, h.offset]
  show ∃ a', ((L.uses l).toArray.foldlM (fun b u => patchUse b u (Int64.ofNat (4 * L.pieces.length))) a.buf >>=
    fun buf => pure { a with
      buf, lastBind := some a.buf.offset,
      labels := a.labels.setIfInBounds (l - 1) { position? := some (Int64.ofNat (4 * L.pieces.length)) } }) = .ok a' ∧ _
  rw [List.foldlM_toArray]
  cases hreach : (L.place l).reaches with
  | true =>
    have hall : ∀ u ∈ L.uses l, Made L.pieces L.pieces.length true u := by
      intro u hu
      obtain ⟨k, p, hp, hpl, hpu⟩ := mem_uses.mp hu
      have := reaches_iff.mp hreach k p hp
      rw [distance_place h.sound hl hp, if_pos hpl, (use_source hpu).2] at this
      exact ⟨k, p, hp, hpu, this⟩
    obtain ⟨bytes, hfold, hspell⟩ := patchUses_reach h.sound.formed (L.uses l) h.spells hall
    rw [words_place h.sound hl hlen] at hspell
    rw [hfold]
    refine ⟨_, rfl, rfl, ?_, tracks_place h.tracks hl⟩
    refine settles_holds hroom hreach ⟨hspell, ?_, sound_place h.sound hl, hreach⟩
    rw [states_place hl, ← h.labels, Array.toList_setIfInBounds]
  | false =>
    have hmiss : ∃ u ∈ L.uses l, Made L.pieces L.pieces.length false u := by
      by_cases hno : ∃ u ∈ L.uses l, Made L.pieces L.pieces.length false u
      · exact hno
      · have := reaches_place h hl fun u hu k p hp hpu hr => hno ⟨u, hu, k, p, hp, hpu, hr⟩
        rw [hreach] at this
        cases this
    obtain ⟨b', hfold, hfail, hcap⟩ := patchUses_miss h.sound.formed (L.uses l) h.spells made hmiss
    rw [hfold]
    refine ⟨_, rfl, hcap, ?_, tracks_place h.tracks hl⟩
    exact settles_miss (by show 4 * L.pieces.length ≤ b'.capacity; omega) hreach hfail

end

end RiscvJit
